/-!
# Computations that may fail

How a computation goes on from one result, taken apart into its steps.
-/

namespace OperatorBundle

variable {ε σ α β : Type}

/-- What has succeeded goes on. -/
theorem ok_bind (a : α) (f : α → Except ε β) : (Except.ok a >>= f) = f a := rfl

/-- Two steps succeed just if the second succeeds with the result of the first. -/
theorem bind_eq_ok_iff {x : Except ε α} {f : α → Except ε β} {b : β} :
    x >>= f = .ok b ↔ ∃ a, x = .ok a ∧ f a = .ok b := by
  cases x with
  | error e =>
      constructor
      · intro h
        cases h
      · rintro ⟨a, h, _⟩
        cases h
  | ok a =>
      constructor
      · intro h
        exact ⟨a, rfl, h⟩
      · rintro ⟨a', h, hf⟩
        rw [Except.ok.inj h]
        exact hf

/-- Two steps fail just if the first does, or the second with the result of the first. -/
theorem bind_eq_error_iff {x : Except ε α} {f : α → Except ε β} {e : ε} :
    x >>= f = .error e ↔ x = .error e ∨ ∃ a, x = .ok a ∧ f a = .error e := by
  cases x with
  | error d =>
      constructor
      · intro h
        exact Or.inl (congrArg Except.error (Except.error.inj h))
      · rintro (h | ⟨a, h, _⟩)
        · exact congrArg Except.error (Except.error.inj h)
        · cases h
  | ok a =>
      constructor
      · intro h
        exact Or.inr ⟨a, rfl, h⟩
      · rintro (h | ⟨a', h, hf⟩)
        · cases h
        · rw [Except.ok.inj h]
          exact hf

theorem eq_ok_of_toOption {x : Except ε α} {a : α} (h : x.toOption = some a) :
    x = .ok a := by
  cases x with
  | error e => cases h
  | ok b => exact congrArg Except.ok (Option.some.inj h)

/-- What is found out about a result says that there is one. -/
theorem exists_of_toOption_map {x : Except ε α} {f : α → β} {b : β}
    (h : x.toOption.map f = some b) : ∃ a, x = .ok a ∧ f a = b := by
  obtain ⟨a, ha, hb⟩ := Option.map_eq_some_iff.mp h
  exact ⟨a, eq_ok_of_toOption ha, hb⟩

theorem exists_of_isOk {x : Except ε α} (h : x.isOk = true) : ∃ a, x = .ok a := by
  cases x with
  | error e => cases h
  | ok a => exact ⟨a, rfl⟩

/-! ## One computation for each of some values -/

/-- A list is mapped just if its first item is and then the others are. -/
theorem mapM_cons_eq_ok_iff {f : α → Except ε β} {a : α} {as : List α} {bs : List β} :
    (a :: as).mapM f = .ok bs ↔ ∃ b rest, f a = .ok b ∧ as.mapM f = .ok rest ∧ b :: rest = bs := by
  rw [List.mapM_cons, bind_eq_ok_iff]
  constructor
  · rintro ⟨b, hb, h⟩
    obtain ⟨rest, hrest, h⟩ := bind_eq_ok_iff.mp h
    exact ⟨b, rest, hb, hrest, Except.ok.inj h⟩
  · rintro ⟨b, rest, hb, hrest, rfl⟩
    exact ⟨b, hb, bind_eq_ok_iff.mpr ⟨rest, hrest, rfl⟩⟩

/-- The first failure is that of the whole. -/
theorem mapM_cons_eq_error_iff {f : α → Except ε β} {a : α} {as : List α} {e : ε} :
    (a :: as).mapM f = .error e ↔ f a = .error e ∨ ∃ b, f a = .ok b ∧ as.mapM f = .error e := by
  rw [List.mapM_cons, bind_eq_error_iff]
  refine or_congr_right (exists_congr fun b => and_congr_right fun _ => ?_)
  rw [bind_eq_error_iff]
  refine or_iff_left ?_
  rintro ⟨rest, _, h⟩
  cases h

/-- A list that has been mapped has its length still. -/
theorem length_of_mapM {f : α → Except ε β} {as : List α} {bs : List β}
    (h : as.mapM f = .ok bs) : bs.length = as.length := by
  induction as generalizing bs with
  | nil =>
      cases h
      rfl
  | cons a as ih =>
      obtain ⟨b, rest, _, hrest, rfl⟩ := mapM_cons_eq_ok_iff.mp h
      rw [List.length_cons, List.length_cons, ih hrest]

/-- Results that are each made by `g`, if at all, are made by `g` together. -/
theorem eq_map_of_mapM {f : α → Except ε β} {g : α → β} (hf : ∀ a b, f a = .ok b → b = g a)
    {as : List α} {bs : List β} (h : as.mapM f = .ok bs) : bs = as.map g := by
  induction as generalizing bs with
  | nil =>
      cases h
      rfl
  | cons a as ih =>
      obtain ⟨b, rest, hb, hrest, rfl⟩ := mapM_cons_eq_ok_iff.mp h
      rw [List.map_cons, hf a b hb, ih hrest]

/-! ## With a state -/

/-- A computation with a state goes on from its first result in the state that this leaves. -/
theorem run_bind_eq_ok_iff {x : StateT σ (Except ε) α} {f : α → StateT σ (Except ε) β} {s : σ}
    {p : β × σ} :
    (x >>= f).run s = .ok p ↔ ∃ a s', x.run s = .ok (a, s') ∧ (f a).run s' = .ok p := by
  rw [StateT.run_bind, bind_eq_ok_iff]
  constructor
  · rintro ⟨⟨a, s'⟩, hx, hf⟩
    exact ⟨a, s', hx, hf⟩
  · rintro ⟨a, s', hx, hf⟩
    exact ⟨(a, s'), hx, hf⟩

/-- Behind a step that succeeds the second one runs from its state. -/
theorem run_bind_ok {x : StateT σ (Except ε) α} {f : α → StateT σ (Except ε) β} {s s' : σ} {a : α}
    (h : x.run s = .ok (a, s')) : (x >>= f).run s = (f a).run s' := by
  rw [StateT.run_bind, h]
  rfl

/-- The result of a computation whose state is not looked at. -/
theorem run'_eq_ok_iff {x : StateT σ (Except ε) α} {s : σ} {a : α} :
    x.run' s = .ok a ↔ ∃ s', x.run s = .ok (a, s') := by
  show Except.map Prod.fst (x.run s) = .ok a ↔ _
  cases x.run s with
  | error e =>
      constructor
      · intro h
        cases h
      · rintro ⟨s', h⟩
        cases h
  | ok p =>
      constructor
      · intro h
        cases h
        exact ⟨p.2, rfl⟩
      · rintro ⟨s', h⟩
        cases h
        rfl

/-- A computation without a state leaves the state as it is. -/
theorem run_liftM_eq_ok {x : Except ε α} {s s' : σ} {a : α}
    (h : (liftM x : StateT σ (Except ε) α).run s = .ok (a, s')) : x = .ok a ∧ s' = s := by
  cases x with
  | error e => cases h
  | ok b =>
      cases h
      exact ⟨rfl, rfl⟩

/-- A computation that undoes `g` on each of some values undoes it on all of them. -/
theorem run_mapM_map {f : β → StateT σ (Except ε) α} {g : α → β} {as : List α} {s : σ}
    (h : ∀ a ∈ as, (f (g a)).run s = .ok (a, s)) : ((as.map g).mapM f).run s = .ok (as, s) := by
  induction as with
  | nil => rfl
  | cons a as ih =>
      rw [List.map_cons, List.mapM_cons, run_bind_ok (h a List.mem_cons_self),
        run_bind_ok (ih fun a' ha' => h a' (List.mem_cons_of_mem a ha'))]
      rfl

/-- What is computed for some values is computed for one after the other, each result standing where
its value does. -/
theorem run_of_mapM {f : α → StateT σ (Except ε) β} {as : List α} {s s' : σ} {bs : List β}
    (hrun : (as.mapM f).run s = .ok (bs, s')) (i : Nat) :
    (as[i]? = none ∧ bs[i]? = none) ∨
      ∃ a b s₁ s₂, as[i]? = some a ∧ bs[i]? = some b ∧ (f a).run s₁ = .ok (b, s₂) := by
  induction as generalizing s s' bs i with
  | nil =>
      rw [List.mapM_nil] at hrun
      cases hrun
      exact .inl ⟨rfl, rfl⟩
  | cons a as ih =>
      rw [List.mapM_cons, run_bind_eq_ok_iff] at hrun
      rcases hrun with ⟨b, s₁, hfirst, hrun⟩
      rw [run_bind_eq_ok_iff] at hrun
      rcases hrun with ⟨rest, s₂, hrest, hrun⟩
      cases hrun
      cases i with
      | zero => exact .inr ⟨a, b, s, s₁, rfl, rfl, hfirst⟩
      | succ i => exact ih hrest i

/-- What undoes `g` on all of some values undoes it on each of them. -/
theorem exists_run_of_mapM_map {f : β → StateT σ (Except ε) α} {g : α → β} {as : List α} {s s' : σ}
    (hrun : ((as.map g).mapM f).run s = .ok (as, s')) :
    ∀ a ∈ as, ∃ s₁ s₂, (f (g a)).run s₁ = .ok (a, s₂) := by
  intro a ha
  rcases List.mem_iff_getElem?.mp ha with ⟨i, hi⟩
  rcases run_of_mapM hrun i with ⟨_, hnone⟩ | ⟨b, a', s₁, s₂, hb, ha', hstep⟩
  · rw [hi] at hnone
    cases hnone
  · rw [List.getElem?_map, hi] at hb
    rw [hi] at ha'
    cases hb
    cases ha'
    exact ⟨s₁, s₂, hstep⟩

/-- What is computed for each of some values has a property that each single result has. -/
theorem forall_of_mapM {f : α → StateT σ (Except ε) β} {P : β → Prop}
    (h : ∀ a s b s', (f a).run s = .ok (b, s') → P b) {as : List α} {s s' : σ} {bs : List β}
    (hrun : (as.mapM f).run s = .ok (bs, s')) : ∀ b ∈ bs, P b := by
  intro b hb
  rcases List.mem_iff_getElem?.mp hb with ⟨i, hi⟩
  rcases run_of_mapM hrun i with ⟨_, hnone⟩ | ⟨a, b', s₁, s₂, _, hb', hstep⟩
  · rw [hi] at hnone
    cases hnone
  · rw [hi] at hb'
    cases hb'
    exact h a s₁ b s₂ hstep

end OperatorBundle
