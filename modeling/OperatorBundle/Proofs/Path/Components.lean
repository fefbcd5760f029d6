import OperatorBundle.Path
import OperatorBundle.Proofs.Text.Split

/-!
# Components of paths

What joining and going up do to the components of a path.  Paths are compared by components, so
these two facts are all that the rest of the library needs to know about slashes and periods:

* `components_join`: joining an ordinary name adds that name;
* `parent?_map_components`: going up drops the last component.
-/

namespace OperatorBundle.Path

open Text (split)

/-! ## Names -/

/-- A name that stands for one component: it is not empty, holds no slash, and is neither the
period nor the two periods. -/
def IsName (name : String) : Prop :=
  name.toList ≠ [] ∧ '/' ∉ name.toList ∧ name.toList ≠ ['.'] ∧ name.toList ≠ ['.', '.']

instance (name : String) : Decidable (IsName name) := inferInstanceAs (Decidable (_ ∧ _))

theorem IsName.ne_here {name : String} (h : IsName name) : name ≠ "." := by
  rintro rfl
  exact h.2.2.1 rfl

theorem IsName.ne_up {name : String} (h : IsName name) : name ≠ ".." := by
  rintro rfl
  exact h.2.2.2 rfl

/-- The components that parts between slashes make up. -/
def named (parts : List (List Char)) : List Component :=
  (parts.filter fun part => !isIdle part).map component

/-- A path is its lead, then the components its parts are named by. -/
theorem components_eq (p : Path) :
    p.components = leadComponents (lead p.text.toList) ++ named (parts p.text.toList) := rfl

theorem named_append (a b : List (List Char)) : named (a ++ b) = named a ++ named b := by
  simp [named]

/-- An empty part and a `.` name no component. -/
theorem named_cons_idle {part : List Char} {parts : List (List Char)} (h : isIdle part = true) :
    named (part :: parts) = named parts := by
  simp [named, h]

theorem named_cons {part : List Char} {parts : List (List Char)} (h : isIdle part = false) :
    named (part :: parts) = component part :: named parts := by
  simp [named, h]

/-- Parts that are no components may be dropped behind. -/
theorem named_reverse_dropWhile (parts : List (List Char)) :
    named (parts.dropWhile isIdle).reverse = named parts.reverse := by
  induction parts with
  | nil => rfl
  | cons part parts ih =>
      by_cases h : isIdle part = true
      · rw [List.dropWhile_cons_of_pos h, ih, List.reverse_cons, named_append, named_cons_idle h]
        simp [named]
      · rw [List.dropWhile_cons_of_neg h]

/-- A plain file name is a component of its own and is never skipped. -/
theorem component_of_isName {name : String} (h : IsName name) :
    isIdle name.toList = false ∧ component name.toList = .name name := by
  rcases h with ⟨hne, _, hdot, hup⟩
  constructor
  · simp [isIdle, hne, hdot]
  · simp [component, hup]

/-- A plain file name read as a path is one component. -/
theorem named_split_of_isName {name : String} (h : IsName name) :
    named (split '/' name.toList) = [.name name] := by
  rcases component_of_isName h with ⟨hidle, hname⟩
  rw [Text.split_of_not_mem h.2.1, named_cons hidle, hname]
  rfl

/-! ## Joining -/

/-- The lead of a path is decided before its first slash, or by that slash if it comes first. -/
theorem lead_append_slash {a : List Char} (ha : a ≠ []) (b : List Char) :
    lead (a ++ '/' :: b) = lead a := by
  cases a with
  | nil => exact absurd rfl ha
  | cons c r =>
      cases r with
      | nil =>
          by_cases hc : c = '/'
          · simp [lead, hc]
          · by_cases hd : '.' = c
            · simp [lead, ← hd]
            · simp [lead, hc, hd, Ne.symm hd]
      | cons d s => simp [lead]

theorem lead_length_le (a : List Char) : (lead a).length ≤ a.length := by
  cases a with
  | nil => simp [lead]
  | cons c r =>
      unfold lead
      split
      · simp
      · split <;> simp

/-- A path that goes on behind a slash has the components before it and those behind it. -/
theorem components_slash {a : List Char} (ha : a ≠ []) (b : List Char) :
    (Path.mk (String.ofList (a ++ '/' :: b))).components =
      (Path.mk (String.ofList a)).components ++ named (split '/' b) := by
  simp only [components_eq, String.toList_ofList]
  have hparts : parts (a ++ '/' :: b) = parts a ++ split '/' b := by
    rw [parts, lead_append_slash ha, List.drop_append_of_le_length (lead_length_le a),
      Text.split_append]
    rfl
  rw [lead_append_slash ha, hparts, named_append, List.append_assoc]

/-- A path that starts with a slash starts with the root. -/
theorem components_absolute (b : List Char) :
    (Path.mk (String.ofList ('/' :: b))).components = .root :: named (split '/' b) := by
  simp [components_eq, lead, parts, leadComponents]

theorem components_empty : (Path.mk "").components = [] := by decide

/-- A name alone is its only component. -/
theorem components_name {name : String} (h : IsName name) :
    (Path.mk name).components = [.name name] := by
  have hlead : lead name.toList = [] := by
    have hslash := h.2.1
    have hdot := h.2.2.1
    -- a name begins with no slash, and with no period that a slash or the end follows
    cases hs : name.toList with
    | nil => exact absurd hs h.1
    | cons c r =>
        rw [hs] at hslash hdot
        have hc : c ≠ '/' := fun e => hslash (e ▸ List.mem_cons_self)
        have hr : ∀ s, r ≠ '/' :: s := by
          intro s e
          exact hslash (e ▸ List.mem_cons_of_mem c List.mem_cons_self)
        cases r with
        | nil => simp_all [lead]
        | cons d s =>
            have hd : d ≠ '/' := fun e => hr s (by rw [e])
            simp [lead, hc, Ne.symm hd]
  rw [components_eq, hlead, parts, hlead]
  exact named_split_of_isName h

/-- A plain file name is a relative path. -/
theorem isAbsolute_eq_false_of_isName {name : String} (h : IsName name) :
    (Path.mk name).isAbsolute = false := by
  cases hs : name.toList with
  | nil => exact absurd hs h.1
  | cons c r =>
      have hc : c ≠ '/' := fun e => h.2.1 (by rw [hs, e]; exact List.mem_cons_self)
      simp [isAbsolute, hs, hc]

/-- Joining an ordinary name adds one component, however the path before it is spelled. -/
theorem components_join (p : Path) {name : String} (h : IsName name) :
    (p.join ⟨name⟩).components = p.components ++ [.name name] := by
  have hrel := isAbsolute_eq_false_of_isName h
  rw [join, hrel, if_neg Bool.false_ne_true]
  by_cases hempty : p.text = ""
  · rcases p with ⟨text⟩
    subst hempty
    simpa [components_empty] using components_name h
  · have hne : p.text.toList ≠ [] := by
      intro e
      exact hempty (String.toList_inj.mp (by simpa using e))
    by_cases hlast : p.text.toList.getLast? = some '/'
    · -- the slash that ends the text is the one before the name
      rcases List.getLast?_eq_some_iff.mp hlast with ⟨front, hfront⟩
      have htext : p = ⟨String.ofList (front ++ ['/'])⟩ := by
        rw [← hfront, String.ofList_toList]
      have hjoined : Path.mk (p.text ++ name) =
          ⟨String.ofList (front ++ '/' :: name.toList)⟩ := by
        congr 1
        apply String.toList_inj.mp
        simp [hfront]
      simp only [hlast, beq_self_eq_true, Bool.or_true, if_true]
      rw [hjoined, htext]
      cases front with
      | nil =>
          simp only [List.nil_append]
          rw [components_absolute, components_absolute, named_split_of_isName h]
          rfl
      | cons c r =>
          have hcons : c :: r ≠ [] := List.cons_ne_nil c r
          rw [components_slash hcons, components_slash hcons, named_split_of_isName h]
          simp [split, named, isIdle]
    · have hjoined : Path.mk (p.text ++ "/" ++ name) =
          ⟨String.ofList (p.text.toList ++ '/' :: name.toList)⟩ := by
        congr 1
        apply String.toList_inj.mp
        simp
      have hisEmpty : p.text.isEmpty = false := by simpa using hempty
      have hbeq : (p.text.toList.getLast? == some '/') = false := by simpa using hlast
      simp only [hisEmpty, hbeq, Bool.or_false, Bool.false_eq_true, if_false]
      rw [hjoined, components_slash hne, named_split_of_isName h, String.ofList_toList]

/-! ## Going up -/

/-- Can parts follow a lead?  Behind a period a slash comes first, and parts without a lead begin
with one that is none. -/
def Follows (front : List Char) (parts : List (List Char)) : Prop :=
  front = ['/'] ∨ (front = ['.'] ∧ ∀ part ∈ parts.head?, part = []) ∨
    (front = [] ∧ ∀ part ∈ parts.head?, part ≠ ['.'] ∧ (part = [] → parts = [[]]))

/-- The lead and the parts of a path fit together. -/
theorem follows_parts (s : List Char) : Follows (lead s) (parts s) := by
  cases s with
  | nil => right; right; simp [lead, parts, split]
  | cons c r =>
      by_cases hc : c = '/'
      · left
        simp [lead, hc]
      · by_cases hd : c = '.' ∧ (r = [] ∨ r.head? = some '/')
        · right; left
          rcases hd with ⟨rfl, hr⟩
          rcases hr with rfl | hr
          · simp [lead, parts, split]
          · rcases List.head?_eq_some_iff.mp hr with ⟨t, rfl⟩
            simp [lead, parts, split]
        · have hlead : lead (c :: r) = [] := by
            cases r with
            | nil =>
                have hdot : c ≠ '.' := fun e => hd ⟨e, Or.inl rfl⟩
                simp [lead, hc, hdot, Ne.symm hdot]
            | cons d t =>
                have hdot : '.' = c → ¬ '/' = d := by
                  intro e e'
                  exact hd ⟨e.symm, Or.inr (by rw [e']; rfl)⟩
                simpa [lead, hc] using hdot
          right; right
          refine ⟨hlead, ?_⟩
          intro part hpart
          have hsplit : parts (c :: r) = split '/' (c :: r) := by
            simp [parts, hlead]
          have hcb : (c == '/') = false := by simpa using hc
          rw [hsplit, split, hcb] at hpart
          simp only [Bool.false_eq_true, if_false] at hpart
          -- the first part begins with `c`, and if it is a period alone a slash comes next
          cases hs : split '/' r with
          | nil => exact absurd hs (Text.split_ne_nil '/' r)
          | cons first others =>
              rw [hs] at hpart
              have hp : c :: first = part := by simpa using hpart
              subst hp
              refine ⟨?_, fun e => absurd e (List.cons_ne_nil c first)⟩
              intro e
              rcases List.cons.inj e with ⟨rfl, rfl⟩
              have hr := Text.join_split '/' r
              rw [hs] at hr
              cases others with
              | nil => exact hd ⟨rfl, Or.inl hr.symm⟩
              | cons next more =>
                  exact hd ⟨rfl, Or.inr (by rw [← hr]; rfl)⟩

/-- Only the empty path has no components. -/
theorem text_eq_empty {p : Path} (h : p.components = []) : p.text = "" := by
  rw [components_eq, List.append_eq_nil_iff] at h
  rcases follows_parts p.text.toList with hf | ⟨hf, _⟩ | ⟨hf, hfirst⟩
  · simp [hf, leadComponents] at h
  · simp [hf, leadComponents] at h
  · have hsplit : parts p.text.toList = split '/' p.text.toList := by
      rw [parts, hf]
      rfl
    -- the first part is idle, and since it is no period it is empty; then it is the only one
    cases hparts : parts p.text.toList with
    | nil => exact absurd (hsplit.symm.trans hparts) (Text.split_ne_nil '/' _)
    | cons first others =>
        rw [hparts] at h hfirst
        rcases hfirst first rfl with ⟨hdot, hempty⟩
        have hidle : isIdle first = true := by
          cases hi : isIdle first with
          | true => rfl
          | false =>
              rw [named_cons hi] at h
              exact absurd h.2 (List.cons_ne_nil _ _)
        have hnil : first = [] := by
          simpa [isIdle, hdot] using hidle
        have hjoined := Text.join_split '/' p.text.toList
        rw [← hsplit, hparts, hempty hnil] at hjoined
        exact String.toList_eq_nil_iff.mp hjoined.symm

/-- Parts that can follow a lead still can when the last of them are dropped. -/
theorem Follows.take {front : List Char} {a b : List (List Char)} (h : Follows front (a ++ b)) :
    Follows front a := by
  cases a with
  | nil =>
      rcases h with h | ⟨h, _⟩ | ⟨h, _⟩
      · exact Or.inl h
      · exact Or.inr (Or.inl ⟨h, by simp⟩)
      · exact Or.inr (Or.inr ⟨h, by simp⟩)
  | cons part parts =>
      rcases h with h | ⟨h, hfirst⟩ | ⟨h, hfirst⟩
      · exact Or.inl h
      · exact Or.inr (Or.inl ⟨h, hfirst⟩)
      · refine Or.inr (Or.inr ⟨h, ?_⟩)
        intro q hq
        rcases hfirst q hq with ⟨hdot, hempty⟩
        refine ⟨hdot, fun e => ?_⟩
        have hall := hempty e
        cases parts with
        | nil => simpa using (List.cons.inj hall).1
        | cons _ _ => simp at hall

/-- The lead of a path that is put together from a lead and parts. -/
theorem lead_of_follows {front : List Char} {ps : List (List Char)} (h : Follows front ps)
    (hslash : ∀ part ∈ ps, '/' ∉ part) : lead (front ++ Text.join '/' ps) = front := by
  -- behind a slash anything may follow; otherwise the first part decides what is taken for a lead
  rcases h with rfl | ⟨rfl, hfirst⟩ | ⟨rfl, hfirst⟩
  · simp [lead]
  · cases ps with
    | nil => simp [lead, Text.join]
    | cons part ps =>
        have hp : part = [] := hfirst part (by simp)
        subst hp
        cases ps with
        | nil => simp [lead, Text.join]
        | cons next ps => simp [lead, Text.join]
  · cases ps with
    | nil => simp [lead, Text.join]
    | cons part ps =>
        rcases hfirst part (by simp) with ⟨hdot, hempty⟩
        have hno := hslash part List.mem_cons_self
        cases part with
        | nil =>
            rw [hempty rfl]
            simp [lead, Text.join]
        | cons c r =>
            rw [List.mem_cons, not_or] at hno
            have hc : c ≠ '/' := fun e => hno.1 e.symm
            have hd : ∀ t, r ≠ '/' :: t := by
              intro t e
              exact hno.2 (by rw [e]; exact List.mem_cons_self)
            cases r with
            | nil =>
                have hcd : c ≠ '.' := fun e => hdot (by rw [e])
                cases ps <;> simp [lead, Text.join, hc, hcd, Ne.symm hcd]
            | cons d t =>
                have hds : ¬ '/' = d := fun e => hd t (by rw [e])
                cases ps <;> simp [lead, Text.join, hc, hds]

/-- A path that is put together from a lead and parts has these components. -/
theorem components_of_follows {front : List Char} {ps : List (List Char)} (h : Follows front ps)
    (hslash : ∀ part ∈ ps, '/' ∉ part) :
    (Path.mk (String.ofList (front ++ Text.join '/' ps))).components =
      leadComponents front ++ named ps := by
  have hparts : named (split '/' (Text.join '/' ps)) = named ps := by
    cases ps with
    | nil => simp [Text.join, split, named, isIdle]
    | cons part ps => rw [Text.split_join (List.cons_ne_nil part ps) hslash]
  simp only [components_eq, String.toList_ofList]
  rw [parts, lead_of_follows h hslash, List.drop_left, hparts]

/-- The first path above one whose parts, the last part first, stand behind a lead. -/
theorem head?_above {front : List Char} {ps : List (List Char)}
    (h : Follows front ps.reverse) (hslash : ∀ part ∈ ps, '/' ∉ part) :
    ((above front ps).head?).map components =
      if named ps.reverse = [] then (if front = ['.'] then some [] else none)
      else some (leadComponents front ++ (named ps.reverse).dropLast) := by
  induction ps with
  | nil =>
      by_cases hf : front = ['.'] <;> simp [above, hf, named, components_empty]
  | cons part ps ih =>
      have hps : Follows front ps.reverse := by
        rw [List.reverse_cons] at h
        exact h.take
      have hslash' : ∀ q ∈ ps, '/' ∉ q := fun q hq => hslash q (List.mem_cons_of_mem part hq)
      -- an idle part is passed over; any other is dropped with the idle ones before it
      by_cases hidle : isIdle part = true
      · have hnamed : named (part :: ps).reverse = named ps.reverse := by
          rw [List.reverse_cons, named_append, named_cons_idle hidle]
          simp [named]
        rw [above, if_pos hidle, hnamed]
        exact ih hps hslash'
      · rw [Bool.not_eq_true] at hidle
        have hnamed : named (part :: ps).reverse = named ps.reverse ++ [component part] := by
          rw [List.reverse_cons, named_append, named_cons hidle]
          rfl
        have hrest : Follows front (ps.dropWhile isIdle).reverse := by
          have hsplit : ps.reverse =
              (ps.dropWhile isIdle).reverse ++ (ps.takeWhile isIdle).reverse := by
            rw [← List.reverse_append, List.takeWhile_append_dropWhile]
          rw [hsplit] at hps
          exact hps.take
        have hno : ∀ q ∈ (ps.dropWhile isIdle).reverse, '/' ∉ q := by
          intro q hq
          exact hslash' q ((List.dropWhile_sublist isIdle).subset (List.mem_reverse.mp hq))
        simp only [above, hidle, Bool.false_eq_true, if_false, List.head?_cons, Option.map_some]
        rw [components_of_follows hrest hno, named_reverse_dropWhile, hnamed]
        simp

/-- Going up drops the last component; above the root and above the empty path there is nothing. -/
theorem parent?_map_components (p : Path) :
    p.parent?.map components =
      if p.components = [] ∨ p.components = [.root] then none
      else some p.components.dropLast := by
  have hfollows : Follows (lead p.text.toList) (parts p.text.toList).reverse.reverse := by
    rw [List.reverse_reverse]
    exact follows_parts p.text.toList
  have hslash : ∀ part ∈ (parts p.text.toList).reverse, '/' ∉ part := by
    intro part hpart
    exact Text.not_mem_of_mem_split (List.mem_reverse.mp hpart)
  rw [parent?, parents, head?_above hfollows hslash, List.reverse_reverse, components_eq]
  -- without a named part the lead is all that is left, and there is nothing above it
  by_cases hnamed : named (parts p.text.toList) = []
  · rw [if_pos hnamed, hnamed, List.append_nil]
    rcases follows_parts p.text.toList with hf | ⟨hf, _⟩ | ⟨hf, _⟩
    · simp [hf, leadComponents]
    · simp [hf, leadComponents]
    · simp [hf, leadComponents]
  · have hne : ¬ (leadComponents (lead p.text.toList) ++ named (parts p.text.toList) = [] ∨
        leadComponents (lead p.text.toList) ++ named (parts p.text.toList) = [.root]) := by
      intro h
      have hroot : Component.root ∉ named (parts p.text.toList) := by
        intro hmem
        rcases List.mem_map.mp hmem with ⟨part, _, hpart⟩
        unfold component at hpart
        split at hpart <;> cases hpart
      rcases h with h | h
      · exact hnamed (List.append_eq_nil_iff.mp h).2
      · rcases List.append_eq_singleton_iff.mp h with ⟨_, h⟩ | ⟨_, h⟩
        · exact hroot (by rw [h]; exact List.mem_singleton_self _)
        · exact hnamed h
    rw [if_neg hnamed, if_neg hne, List.dropLast_append_of_ne_nil hnamed]

/-! ## File names -/

/-- The name of a file is its last component. -/
theorem fileName?_eq_some_iff {p : Path} {name : String} :
    p.fileName? = some name ↔ p.components.getLast? = some (.name name) := by
  unfold fileName?
  constructor
  · intro h
    split at h
    · rename_i text htext
      rw [htext, ← Option.some.inj h]
    · cases h
  · intro h
    rw [h]

/-- The name of a file is an ordinary name. -/
theorem isName_of_fileName? {p : Path} {name : String} (h : p.fileName? = some name) :
    IsName name := by
  have hlast := fileName?_eq_some_iff.mp h
  have hmem : Component.name name ∈ p.components := List.mem_of_getLast? hlast
  -- the lead has no name, so the component is one of the parts
  rw [components_eq, List.mem_append] at hmem
  rcases hmem with hmem | hmem
  · exfalso
    unfold leadComponents at hmem
    split at hmem
    · exact absurd hmem List.not_mem_nil
    · split at hmem <;> simp at hmem
  · rcases List.mem_map.mp hmem with ⟨part, hpart, hcomponent⟩
    rcases List.mem_filter.mp hpart with ⟨hsplit, hidle⟩
    have hslash : '/' ∉ part := Text.not_mem_of_mem_split hsplit
    by_cases hup : part = ['.', '.']
    · simp [component, hup] at hcomponent
    · have hname : name = String.ofList part := by
        rw [component, beq_eq_false_iff_ne.mpr hup] at hcomponent
        exact (Component.name.inj hcomponent).symm
      simp only [isIdle, Bool.not_or, Bool.and_eq_true, Bool.not_eq_true',
        List.isEmpty_eq_false_iff, beq_eq_false_iff_ne, ne_eq] at hidle
      rw [IsName, hname, String.toList_ofList]
      exact ⟨hidle.1, hslash, hidle.2, hup⟩

/-- A file is found in the directory above it under its name. -/
theorem components_eq_of_fileName? {p : Path} {name : String} (h : p.fileName? = some name) :
    p.components = p.components.dropLast ++ [.name name] := by
  rcases List.getLast?_eq_some_iff.mp (fileName?_eq_some_iff.mp h) with ⟨front, hfront⟩
  rw [hfront, List.dropLast_concat]

/-- The file name of a joined path is the name that was joined. -/
theorem fileName?_join (p : Path) {name : String} (h : IsName name) :
    (p.join ⟨name⟩).fileName? = some name := by
  rw [fileName?_eq_some_iff, components_join p h, List.getLast?_concat]

/-- Two paths do not end in the same name. -/
def NamesDiffer (p q : Path) : Prop := ∀ name, p.fileName? = some name → q.fileName? ≠ some name

end OperatorBundle.Path
