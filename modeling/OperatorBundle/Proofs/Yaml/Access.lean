import OperatorBundle.Yaml.Value.Access

/-!
# Putting values in place

What is put under a key is found there, and of two values put in the same place only the second
stays.  Tags around a value have no part in either.
-/

namespace OperatorBundle.Yaml

namespace Entries

/-- A key is the string with its text. -/
theorem isKey_iff {key : String} {k : Value} : isKey key k = true ↔ k = .string key := by
  cases k <;> simp [isKey]

/-- What is set is found. -/
@[simp] theorem get?_set_self (entries : Entries) (key : String) (v : Value) :
    (entries.set key v).get? key = some v := by
  induction entries with
  | nil => simp [set, get?, isKey]
  | cons entry entries ih =>
      rcases entry with ⟨k, old⟩
      by_cases hk : isKey key k = true
      · simp [set, get?, hk]
      · simp only [get?] at ih
        simp [set, get?, hk, ih]

/-- What is set last counts. -/
@[simp] theorem set_set (entries : Entries) (key : String) (old new : Value) :
    (entries.set key old).set key new = entries.set key new := by
  induction entries with
  | nil => simp [set, isKey]
  | cons entry entries ih =>
      rcases entry with ⟨k, v⟩
      by_cases hk : isKey key k = true
      · simp [set, hk]
      · simp [set, hk, ih]

/-- Other keys keep their values. -/
theorem get?_set_of_ne (entries : Entries) {key other : String} (h : key ≠ other) (v : Value) :
    (entries.set key v).get? other = entries.get? other := by
  have hfresh : isKey other (.string key) = false := by
    simpa [isKey] using h
  induction entries with
  | nil => simp [set, get?, hfresh]
  | cons entry entries ih =>
      rcases entry with ⟨k, old⟩
      by_cases hk : isKey key k = true
      · rw [isKey_iff] at hk
        subst hk
        simp [set, get?, isKey, h]
      · simp only [get?] at ih
        by_cases ho : isKey other k = true
        · simp [set, get?, hk, ho]
        · simp [set, get?, hk, ho, ih]

end Entries

namespace Value

/-! ## Parts -/

/-- Induction on a value and all its parts. -/
theorem inductionOnParts {P : Value → Prop} (null : P null) (bool : ∀ b, P (bool b))
    (number : ∀ n, P (number n)) (string : ∀ s, P (string s))
    (sequence : ∀ vs, (∀ v ∈ vs, P v) → P (sequence vs))
    (mapping : ∀ es : Entries, (∀ e ∈ es, P e.1 ∧ P e.2) → P (mapping es))
    (tagged : ∀ name v, P v → P (tagged name v)) (v : Value) : P v := by
  refine @Value.rec P (fun vs => ∀ v ∈ vs, P v) (fun es => ∀ e ∈ es, P e.1 ∧ P e.2)
    (fun e => P e.1 ∧ P e.2) null bool number string sequence mapping tagged ?_ ?_ ?_ ?_ ?_ v
  · exact fun v hv => absurd hv List.not_mem_nil
  · exact fun v vs hv hvs => List.forall_mem_cons.mpr ⟨hv, hvs⟩
  · exact fun e he => absurd he List.not_mem_nil
  · exact fun e es he hes => List.forall_mem_cons.mpr ⟨he, hes⟩
  · exact fun k v hk hv => ⟨hk, hv⟩

/-! ## Tags -/

theorem asMapping?_tagged (name : String) (v : Value) :
    (tagged name v).asMapping? = v.asMapping? := rfl

theorem asSequence?_tagged (name : String) (v : Value) :
    (tagged name v).asSequence? = v.asSequence? := rfl

/-- Where there is no tag nothing is kept. -/
theorem underTags_of_ne {v : Value} (h : ∀ name w, v = tagged name w → False) (new : Value) :
    v.underTags new = new := by
  unfold underTags
  split
  · rename_i name w
    exact absurd rfl (h name w)
  · rfl

/-- A value without a tag is left alone. -/
theorem untagged_of_ne {v : Value} (h : ∀ name w, v = tagged name w → False) : v.untagged = v := by
  unfold untagged
  split
  · rename_i name w
    exact absurd rfl (h name w)
  · rfl

/-- A value and its tags. -/
theorem underTags_untagged (v : Value) : v.underTags v.untagged = v := by
  induction v using untagged.induct with
  | case1 name v ih => exact congrArg (tagged name) ih
  | case2 v hplain => rw [underTags_of_ne hplain, untagged_of_ne hplain]

/-- A value is null whatever its tags. -/
theorem isNull_eq_true_iff {v : Value} : v.isNull = true ↔ v.untagged = .null := by
  unfold isNull
  cases v.untagged <;> simp

/-- A value is a boolean whatever its tags. -/
theorem asBool?_eq_some_iff {v : Value} {b : Bool} : v.asBool? = some b ↔ v.untagged = .bool b := by
  unfold asBool?
  cases v.untagged <;> simp

/-- A value is a mapping whatever its tags. -/
theorem asMapping?_eq_some_iff {v : Value} {entries : Entries} :
    v.asMapping? = some entries ↔ v.untagged = .mapping entries := by
  unfold asMapping?
  cases v.untagged <;> simp

/-- A value is a sequence whatever its tags. -/
theorem asSequence?_eq_some_iff {v : Value} {items : List Value} :
    v.asSequence? = some items ↔ v.untagged = .sequence items := by
  unfold asSequence?
  cases v.untagged <;> simp

/-- One step looks through a tag. -/
theorem child?_tagged (name : String) (v : Value) (step : Step) :
    (tagged name v).child? step = v.child? step := by
  cases step <;> rfl

theorem setChild_tagged (name : String) (v : Value) (step : Step) (child : Value) :
    (tagged name v).setChild step child = tagged name (v.setChild step child) := by
  cases step with
  | key key =>
      simp only [setChild, asMapping?_tagged]
      cases v.asMapping? <;> rfl
  | index position =>
      simp only [setChild, asSequence?_tagged]
      cases v.asSequence? <;> rfl

/-- What is put into a tagged value stays under the tag. -/
theorem replace?_tagged (name : String) (v new : Value) (step : Step) (steps : List Step) :
    (tagged name v).replace? new (step :: steps) =
      (v.replace? new (step :: steps)).map (tagged name) := by
  simp only [replace?, child?_tagged, setChild_tagged]
  cases v.child? step with
  | none => rfl
  | some child =>
      simp only [Option.bind_eq_bind, Option.bind_some]
      cases child.replace? new steps <;> rfl

/-- Under tags a part is replaced as without them. -/
theorem replace?_underTags (v w new : Value) (step : Step) (steps : List Step) :
    (v.underTags w).replace? new (step :: steps) =
      (w.replace? new (step :: steps)).map v.underTags := by
  induction v using untagged.induct with
  | case1 name v ih =>
      rw [underTags, replace?_tagged, ih, Option.map_map]
      rfl
  | case2 v hplain =>
      have hsame : v.underTags = id := by
        funext u
        exact underTags_of_ne hplain u
      rw [hsame, Option.map_id, id, id]

/-- A mapping under tags is a mapping. -/
@[simp] theorem asMapping?_underTags (v : Value) (entries : Entries) :
    (v.underTags (.mapping entries)).asMapping? = some entries := by
  induction v using untagged.induct with
  | case1 name v ih => exact ih
  | case2 v hplain =>
      rw [underTags_of_ne hplain]
      rfl

/-! ## One step -/

/-- The value under a key of a mapping. -/
theorem replace?_mapping (entries : Entries) (key : String) (new : Value) (steps : List Step) :
    (mapping entries).replace? new (.key key :: steps) = do
      let child ← entries.get? key
      return mapping (entries.set key (← child.replace? new steps)) := rfl

/-- Behind a key that has been set the part is replaced in the new value. -/
theorem replace?_set (entries : Entries) (key : String) (v new : Value) (steps : List Step) :
    (mapping (entries.set key v)).replace? new (.key key :: steps) =
      (v.replace? new steps).map fun w => mapping (entries.set key w) := by
  rw [replace?_mapping, Entries.get?_set_self]
  simp only [Option.bind_eq_bind, Option.bind_some]
  cases v.replace? new steps with
  | none => rfl
  | some w => simp [Entries.set_set]

/-- What is put below a value that was put under a key is put below that value. -/
theorem replace?_setChild {v : Value} {key : String} {old : Value}
    (h : v.child? (.key key) = some old) (child new : Value) (steps : List Step) :
    (v.setChild (.key key) child).replace? new (.key key :: steps) =
      (child.replace? new steps).map (v.setChild (.key key)) := by
  induction v using untagged.induct with
  | case1 name v ih =>
      have hset : (tagged name v).setChild (.key key) = fun u =>
          tagged name (v.setChild (.key key) u) := by
        funext u
        exact setChild_tagged name v (.key key) u
      rw [child?_tagged] at h
      rw [hset, replace?_tagged, ih h, Option.map_map]
      rfl
  | case2 v hplain =>
      unfold child? at h
      cases hentries : v.asMapping? with
      | none =>
          rw [hentries] at h
          cases h
      | some entries =>
          -- without tags around it the mapping itself is set
          have hset : v.setChild (.key key) = fun u => mapping (entries.set key u) := by
            funext u
            simp only [setChild, hentries]
            exact underTags_of_ne hplain _
          rw [hset, replace?_set]

/-- What is put under a key is put among the entries. -/
theorem asMapping?_setChild (v : Value) (key : String) (child : Value) :
    (v.setChild (.key key) child).asMapping? = v.asMapping?.map (·.set key child) := by
  cases h : v.asMapping? with
  | none => simp [setChild, h]
  | some entries => simp [setChild, h]

/-- A part that is set is found if there was one. -/
theorem child?_setChild_self {v : Value} {key : String} {old : Value}
    (h : v.child? (.key key) = some old) (child : Value) :
    (v.setChild (.key key) child).child? (.key key) = some child := by
  rcases Option.bind_eq_some_iff.mp h with ⟨entries, hentries, _⟩
  simp [child?, asMapping?_setChild, hentries]

/-- A path is followed step by step. -/
theorem lookup?_eq_follow? (v : Value) {path : String} {steps : List Step}
    (h : Path.steps? path = some steps) : v.lookup? path = v.follow? steps := by
  rw [lookup?, h]
  rfl

/-- The value at a path of one key. -/
theorem lookup?_of_step (v : Value) {path key : String}
    (h : Path.steps? path = some [.key key]) : v.lookup? path = v.child? (.key key) := by
  rw [lookup?_eq_follow? v h]
  exact Option.bind_fun_some (v.child? (.key key))

/-- The value at a path of two keys. -/
theorem lookup?_of_steps (v : Value) {path outer inner : String}
    (h : Path.steps? path = some [.key outer, .key inner]) :
    v.lookup? path = (v.child? (.key outer)).bind (·.child? (.key inner)) := by
  rw [lookup?_eq_follow? v h]
  cases houter : v.child? (.key outer) with
  | none => simp [follow?, houter]
  | some w => simp [follow?, houter]

end Value

end OperatorBundle.Yaml
