import OperatorBundle.Proofs.Store.Mirror

/-!
# The same computation on a tree and on its mirror

A computation is run on a tree and on a memory that mirrors it.  Unless the system refuses
something, both runs end with the same failure or with the same result, and the memory mirrors the
tree again (`EndAlike`).  That two computations do so wherever some condition holds of the tree is
`Simulates`.  The operations of a store do (`simulates_read` and those that follow), and with them
what is put together from them (`Simulates.bind`, `Simulates.mapM`).
-/

namespace OperatorBundle.Store

open Disk (Cause)
open OperatorBundle.Path (IsName IsPlain)

variable {α β γ δ : Type} {disk : Disk} {store : Memory} {p source directory : Path}

/-! ## Ending alike -/

/-- How a run on a tree and one on a memory may end. -/
inductive EndAlike (same : α → β → Prop) (after : Disk → Prop) :
    Except BundleError α × Disk → Except BundleError β × Memory → Prop where
  /-- The system refuses something, in its own words, of which a memory knows nothing. -/
  | refused (words : String) (disk : Disk) (ended : Except BundleError β × Memory) :
      EndAlike same after (.error (.io words), disk) ended
  | failed (e : BundleError) {disk : Disk} {store : Memory} (h : Mirrors disk store) :
      EndAlike same after (.error e, disk) (.error e, store)
  | succeeded {a : α} {b : β} (hsame : same a b) {disk : Disk} {store : Memory}
      (hafter : after disk) (h : Mirrors disk store) :
      EndAlike same after (.ok a, disk) (.ok b, store)

/-- From a tree with some property and its mirror both computations end alike. -/
def Simulates (before : Disk → Prop) (same : α → β → Prop) (after : Disk → Prop)
    (x : StoreM Disk α) (y : StoreM Memory β) : Prop :=
  ∀ disk store, before disk → Mirrors disk store → EndAlike same after (x.run disk) (y.run store)

section

variable {before between after : Disk → Prop} {same : α → β → Prop} {same' : γ → δ → Prop}

theorem simulates_pure {a : α} {b : β} (h : same a b) :
    Simulates before same before (pure a) (pure b) :=
  fun _ _ hbefore hmirrors => .succeeded h hbefore hmirrors

theorem simulates_ofExcept (r : Except BundleError α) :
    Simulates before Eq before (MonadExcept.ofExcept r) (MonadExcept.ofExcept r) := by
  intro disk store hbefore hmirrors
  rw [StoreM.run_ofExcept, StoreM.run_ofExcept]
  cases r with
  | error e => exact .failed e hmirrors
  | ok a => exact .succeeded rfl hbefore hmirrors

/-- What follows computations that end alike goes on from results alike. -/
theorem Simulates.bind {x : StoreM Disk α} {y : StoreM Memory β} {f : α → StoreM Disk γ}
    {g : β → StoreM Memory δ} (hx : Simulates before same between x y)
    (hf : ∀ a b, same a b → Simulates between same' after (f a) (g b)) :
    Simulates before same' after (x >>= f) (y >>= g) := by
  intro disk store hbefore hmirrors
  have hfirst := hx disk store hbefore hmirrors
  rw [StoreM.run_bind, StoreM.run_bind]
  generalize x.run disk = left, y.run store = right at hfirst ⊢
  -- after a refusal or a failure the second part does not run on either side
  cases hfirst with
  | refused words disk ended => exact .refused words disk _
  | failed e h => exact .failed e h
  | succeeded hsame hbetween h => exact hf _ _ hsame _ _ hbetween h

/-- For each of some values the computations end alike, and so they do for all. -/
theorem Simulates.mapM {f : γ → StoreM Disk α} {g : γ → StoreM Memory α} {cs : List γ}
    (h : ∀ c ∈ cs, Simulates before Eq before (f c) (g c)) :
    Simulates before Eq before (cs.mapM f) (cs.mapM g) := by
  induction cs with
  | nil => exact simulates_pure rfl
  | cons c cs ih =>
      rw [List.mapM_cons, List.mapM_cons]
      refine (h c List.mem_cons_self).bind fun a b hab => ?_
      refine (ih fun c' hc' => h c' (List.mem_cons_of_mem c hc')).bind fun as bs habs => ?_
      exact simulates_pure (by rw [hab, habs])

/-! ## Operations that look at a store -/

theorem blaming_of_ne (p : Path) {cause : Cause} (h : cause ≠ .missing) :
    cause.blaming p = .io cause.text := by
  cases cause with
  | missing => exact absurd rfl h
  | _ => rfl

/-- To look at a tree and at its mirror, where only what is missing makes the memory fail. -/
theorem simulates_observe {f : Disk → Except Cause α} {g : Memory → Except BundleError β} (p : Path)
    (hmissing : ∀ disk store, Mirrors disk store → f disk = .error .missing →
      g store = .error (.notFound p.text))
    (hok : ∀ disk store a, Mirrors disk store → f disk = .ok a →
      ∃ b, g store = .ok b ∧ same a b) :
    Simulates before same before (.observe fun disk => (f disk).mapError (Cause.blaming p))
      (.observe g) := by
  intro disk store hbefore hmirrors
  rw [StoreM.run_observe, StoreM.run_observe]
  cases hf : f disk with
  | error cause =>
      -- every other cause than that something is missing is a refusal
      by_cases hcause : cause = .missing
      · rw [hmissing disk store hmirrors (hcause ▸ hf), hcause]
        exact .failed _ hmirrors
      · have hblamed : (Except.error cause : Except Cause α).mapError (Cause.blaming p) =
            .error (.io cause.text) := congrArg Except.error (blaming_of_ne p hcause)
        rw [hblamed]
        exact .refused _ _ _
  | ok a =>
      rcases hok disk store a hmirrors hf with ⟨b, hb, hsame⟩
      rw [hb]
      exact .succeeded hsame hbefore hmirrors

theorem simulates_read (hp : p.IsPlain) :
    Simulates before Eq before (FileStore.read p) (FileStore.read p) := by
  refine simulates_observe p (fun disk store h hread => ?_) fun disk store text h hread => ?_
  · have hfind := Disk.find_of_read_missing hread
    exact Memory.read_eq_error (h.text?_eq_none hp (h.tree.find_eq_missing hp hfind))
  · have htext := h.text?_eq_some hp (h.tree.read_eq_ok hp hread)
    exact ⟨text, Memory.read_eq_ok_iff.mpr htext, rfl⟩

theorem simulates_list (hp : p.IsPlain) :
    Simulates before (SameListing p) before (FileStore.list p) (FileStore.list p) := by
  refine simulates_observe p (fun disk store h hlist => ?_) fun disk store files h hlist => ?_
  · have hfind := Disk.find_of_list_missing hlist
    exact h.list_eq_error hp (h.tree.find_eq_missing hp hfind)
  · exact h.sameListing hp hlist

end

/-! ## Operations that change a store -/

/-- A directory is there. -/
def Disk.Has (directory : Path) (disk : Disk) : Prop :=
  disk.entry? (disk.below directory) = some .directory

/-- The directory around a file is not written over. -/
theorem Disk.Has.set (h : disk.Has directory) {place : Disk.Place} (hplace : place ≠ [])
    (hfree : disk.entry? place ≠ some .directory) (bytes : ByteArray) :
    (disk.set place (.file bytes)).Has directory := by
  have hgrows := Disk.Grows.set_file hplace hfree bytes
  rw [Has, Disk.below_congr hgrows.base]
  exact hgrows.directory _ h

theorem simulates_makeDirectories {before : Disk → Prop} (hp : p.IsPlain) :
    Simulates before (fun _ _ => True) (Disk.Has p) (FileStore.makeDirectories p)
      (FileStore.makeDirectories p) := by
  intro disk store _ hmirrors
  show EndAlike _ _ (((disk.makeDirectories p).1.mapError Cause.plain),
    (disk.makeDirectories p).2) (.ok (), store.makeDirectories p)
  rcases hmade : disk.makeDirectories p with ⟨cause | _, later⟩
  · exact .refused _ _ _
  · rcases hmirrors.makeDirectories hp hmade with ⟨hlater, hdirectory⟩
    exact .succeeded trivial hdirectory hlater

theorem simulates_write {before : Disk → Prop} (hp : p.IsPlain) (text : String) :
    Simulates before (fun _ _ => True) (fun _ => True) (FileStore.write p text)
      (FileStore.write p text) := by
  intro disk store _ hmirrors
  show EndAlike _ _ (disk.settle Cause.plain (disk.write p text.toUTF8))
    (.ok (), store.write p text)
  cases hwrite : disk.write p text.toUTF8 with
  | error cause => exact .refused _ _ _
  | ok later =>
      rcases bind_eq_ok_iff.mp hwrite with ⟨place, hwritable, hset⟩
      cases hset
      exact .succeeded trivial trivial (hmirrors.write hp hwritable text)

/-- A file is copied into a directory, under a path that is not its own. -/
theorem simulates_copy {name : String} (hsource : source.IsPlain) (hdirectory : directory.IsPlain)
    (hname : IsName name) (hne : source ≠ directory.join ⟨name⟩) :
    Simulates (Disk.Has directory) (fun _ _ => True) (Disk.Has directory)
      (FileStore.copy source (directory.join ⟨name⟩))
      (FileStore.copy source (directory.join ⟨name⟩)) := by
  intro disk store hhas hmirrors
  have htarget := hdirectory.join hname
  show EndAlike _ _ (disk.settle (Cause.blaming source) (disk.copy source (directory.join ⟨name⟩)))
    (store.copy source (directory.join ⟨name⟩))
  cases hcopy : disk.copy source (directory.join ⟨name⟩) with
  | error cause =>
      -- the directory of the target is there, so what is missing is the source
      by_cases hcause : cause = .missing
      · subst hcause
        have haround : disk.entry? (disk.below (directory.join ⟨name⟩)).tail = some .directory := by
          rw [disk.below_join hdirectory hname]
          exact hhas
        have hfind := hmirrors.tree.find_of_copy_missing htarget haround hcopy
        have htext := hmirrors.text?_eq_none hsource (hmirrors.tree.find_eq_missing hsource hfind)
        rw [Memory.copy, Memory.read_eq_error htext]
        exact .failed _ hmirrors
      · rw [Disk.settle, blaming_of_ne source hcause]
        exact .refused _ _ _
  | ok later =>
      rcases hmirrors.tree.copy_eq_ok hsource htarget (fun e => hne (Disk.below_inj e)) hcopy with
        ⟨bytes, place, hentry, hwritable, rfl⟩
      rcases (hmirrors.file_iff source hsource bytes).mp hentry with ⟨text, htext, rfl⟩
      rcases Disk.writable_eq_ok_iff.mp hwritable with ⟨hplace, hfree⟩
      rw [Memory.copy, Memory.read_eq_ok_iff.mpr htext]
      exact .succeeded trivial (hhas.set (Disk.place?_ne_nil hplace) hfree _)
        (hmirrors.write htarget hwritable text)

end OperatorBundle.Store
