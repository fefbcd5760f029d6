import Mathlib.Data.List.Induction
import OperatorBundle.Proofs.Path.Components

/-!
# Plain paths

A plain path is written with ordinary names and single slashes between them.  It is determined by
its components (`IsPlain.eq_of_components`), and the paths above it are its beginnings
(`IsPlain.of_mem_ancestors`).
-/

namespace OperatorBundle.Path

open Text (split)

/-- Is a path written with ordinary names and single slashes between them?  Such a path is not empty
and does not begin at the root. -/
def IsPlain (p : Path) : Prop := ∀ part ∈ split '/' p.text.toList, IsName (String.ofList part)

instance (p : Path) : Decidable p.IsPlain := List.decidableBAll _ _

/-- The texts between slashes. -/
def names (p : Path) : List String := (split '/' p.text.toList).map String.ofList

/-- The path with some names. -/
def ofNames (names : List String) : Path := ⟨String.ofList (Text.join '/' (names.map String.toList))⟩

variable {p q : Path} {name : String} {names : List String}

/-! ## Names of a path -/

/-- A path is made of its names. -/
@[simp] theorem ofNames_names (p : Path) : ofNames p.names = p := by
  have hnames : p.names.map String.toList = split '/' p.text.toList := by
    simp [Path.names, Function.comp_def]
  rw [ofNames, hnames, Text.join_split, String.ofList_toList]

theorem names_ne_nil (p : Path) : p.names ≠ [] := by
  intro h
  exact Text.split_ne_nil '/' _ (List.map_eq_nil_iff.mp h)

/-- A path is plain when each of its names is a file name. -/
theorem isPlain_iff : p.IsPlain ↔ ∀ name ∈ p.names, IsName name :=
  List.forall_mem_map.symm

/-- File names put together are read back as they are. -/
theorem names_ofNames (hne : names ≠ []) (h : ∀ name ∈ names, IsName name) :
    (ofNames names).names = names := by
  have hslash : ∀ part ∈ names.map String.toList, '/' ∉ part :=
    List.forall_mem_map.mpr fun name hname => (h name hname).2.1
  have hparts : names.map String.toList ≠ [] := fun e => hne (List.map_eq_nil_iff.mp e)
  rw [Path.names, ofNames, String.toList_ofList, Text.split_join hparts hslash, List.map_map]
  simp [Function.comp_def]

theorem isPlain_ofNames (hne : names ≠ []) (h : ∀ name ∈ names, IsName name) :
    (ofNames names).IsPlain := by
  rw [isPlain_iff, names_ofNames hne h]
  exact h

/-- Parts that are names are no idle parts. -/
theorem named_map_toList (h : ∀ name ∈ names, IsName name) :
    named (names.map String.toList) = names.map .name := by
  induction names with
  | nil => rfl
  | cons name names ih =>
      rcases component_of_isName (h name List.mem_cons_self) with ⟨hidle, hname⟩
      rw [List.map_cons, named_cons hidle, hname, List.map_cons,
        ih fun other hother => h other (List.mem_cons_of_mem name hother)]

/-- Names may follow where no lead is. -/
theorem follows_names (h : ∀ name ∈ names, IsName name) :
    Follows [] (names.map String.toList) := by
  refine Or.inr (Or.inr ⟨rfl, fun part hpart => ?_⟩)
  rcases List.mem_map.mp (List.mem_of_mem_head? hpart) with ⟨name, hname, rfl⟩
  exact ⟨(h name hname).2.2.1, fun e => absurd e (h name hname).1⟩

/-- The components of a path of file names are these names. -/
theorem components_ofNames (h : ∀ name ∈ names, IsName name) :
    (ofNames names).components = names.map .name := by
  have hslash : ∀ part ∈ names.map String.toList, '/' ∉ part :=
    List.forall_mem_map.mpr fun name hname => (h name hname).2.1
  have hcomponents := components_of_follows (follows_names h) hslash
  rw [named_map_toList h] at hcomponents
  exact hcomponents

/-- The components of a plain path are its names. -/
theorem IsPlain.components_eq (h : p.IsPlain) : p.components = p.names.map .name := by
  have hcomponents := components_ofNames (isPlain_iff.mp h)
  rwa [ofNames_names] at hcomponents

/-- Plain paths that lead to the same place are the same. -/
theorem IsPlain.eq_of_components (hp : p.IsPlain) (hq : q.IsPlain)
    (h : p.components = q.components) : p = q := by
  rw [hp.components_eq, hq.components_eq] at h
  have hnames : p.names = q.names :=
    (List.map_inj_right fun _ _ e => Component.name.inj e).mp h
  rw [← ofNames_names p, hnames, ofNames_names]

/-! ## Slashes -/

/-- A plain path has no empty part. -/
theorem IsPlain.nil_not_mem_split (h : p.IsPlain) : [] ∉ split '/' p.text.toList := by
  intro hempty
  exact (h [] hempty).1 (by simp)

theorem IsPlain.text_ne_empty (h : p.IsPlain) : p.text ≠ "" := by
  intro htext
  apply h.nil_not_mem_split
  simp [htext, split]

/-- No slash ends a plain path. -/
theorem IsPlain.getLast?_ne (h : p.IsPlain) : p.text.toList.getLast? ≠ some '/' := by
  intro hlast
  rcases List.getLast?_eq_some_iff.mp hlast with ⟨front, hfront⟩
  apply h.nil_not_mem_split
  rw [hfront, Text.split_append]
  exact List.mem_append_right _ (List.mem_singleton_self _)

/-- No slash begins a plain path. -/
theorem IsPlain.isAbsolute_eq_false (h : p.IsPlain) : p.isAbsolute = false := by
  rw [isAbsolute, beq_eq_false_iff_ne]
  intro hfirst
  rcases List.head?_eq_some_iff.mp hfirst with ⟨rest, hrest⟩
  apply h.nil_not_mem_split
  rw [hrest]
  exact List.mem_cons_self

/-! ## Joining -/

/-- Joining a name to a plain path adds it to the names. -/
theorem IsPlain.join_eq (h : p.IsPlain) (hname : IsName name) :
    p.join ⟨name⟩ = ofNames (p.names ++ [name]) := by
  have hempty : p.text.isEmpty = false := String.isEmpty_eq_false_iff.mpr h.text_ne_empty
  have hlast : (p.text.toList.getLast? == some '/') = false :=
    beq_eq_false_iff_ne.mpr h.getLast?_ne
  have hjoin : p.join ⟨name⟩ = ⟨p.text ++ "/" ++ name⟩ := by
    rw [Path.join, isAbsolute_eq_false_of_isName hname, hempty, hlast]
    rfl
  have hnames : (Path.mk (p.text ++ "/" ++ name)).names = p.names ++ [name] := by
    have htext : (p.text ++ "/" ++ name).toList = p.text.toList ++ '/' :: name.toList := by simp
    rw [Path.names, htext, Text.split_append, Text.split_of_not_mem hname.2.1, List.map_append]
    simp [Path.names]
  rw [hjoin, ← hnames, ofNames_names]

/-- Joining a file name to a plain path appends it to the names. -/
theorem IsPlain.names_join (h : p.IsPlain) (hname : IsName name) :
    (p.join ⟨name⟩).names = p.names ++ [name] := by
  rw [h.join_eq hname, names_ofNames]
  · exact List.append_ne_nil_of_left_ne_nil p.names_ne_nil _
  · exact List.forall_mem_append.mpr ⟨isPlain_iff.mp h, List.forall_mem_singleton.mpr hname⟩

theorem IsPlain.join (h : p.IsPlain) (hname : IsName name) : (p.join ⟨name⟩).IsPlain := by
  rw [isPlain_iff, h.names_join hname]
  exact List.forall_mem_append.mpr ⟨isPlain_iff.mp h, List.forall_mem_singleton.mpr hname⟩

/-- A plain path that has one component more than another is that one with a name. -/
theorem IsPlain.eq_join (hp : p.IsPlain) (hq : q.IsPlain)
    (h : q.components = p.components ++ [.name name]) : IsName name ∧ q = p.join ⟨name⟩ := by
  have hname : q.fileName? = some name := by
    rw [fileName?_eq_some_iff, h, List.getLast?_concat]
  have hordinary := isName_of_fileName? hname
  refine ⟨hordinary, hq.eq_of_components (hp.join hordinary) ?_⟩
  rw [h, components_join p hordinary]

/-- A plain path has a last name. -/
theorem IsPlain.exists_fileName? (h : p.IsPlain) : ∃ name, p.fileName? = some name := by
  rcases List.eq_nil_or_concat p.names with hnil | ⟨before, name, hnames⟩
  · exact absurd hnil p.names_ne_nil
  · refine ⟨name, ?_⟩
    rw [fileName?_eq_some_iff, h.components_eq, hnames, List.concat_eq_append, List.map_append]
    exact List.getLast?_concat

/-! ## Going up -/

theorem parents_ofNames_nil : (ofNames []).parents = [] := by decide

/-- The paths above a path with names are above the parts that these are. -/
theorem parents_ofNames (hne : names ≠ []) (h : ∀ name ∈ names, IsName name) :
    (ofNames names).parents = above [] (names.map String.toList).reverse := by
  have hslash : ∀ part ∈ names.map String.toList, '/' ∉ part :=
    List.forall_mem_map.mpr fun name hname => (h name hname).2.1
  have hparts : names.map String.toList ≠ [] := fun e => hne (List.map_eq_nil_iff.mp e)
  have hlead := lead_of_follows (follows_names h) hslash
  rw [List.nil_append] at hlead
  rw [parents, ofNames, String.toList_ofList, parts, hlead, List.length_nil, List.drop_zero,
    Text.split_join hparts hslash]

/-- The nearest path above one with names has all of these but the last. -/
theorem ancestors_ofNames_concat (h : ∀ other ∈ names ++ [name], IsName other) :
    (ofNames (names ++ [name])).ancestors =
      ofNames (names ++ [name]) :: (ofNames names).ancestors := by
  have hname : IsName name := h name (List.mem_append_right _ (List.mem_singleton_self _))
  have hnames : ∀ other ∈ names, IsName other := fun other hother =>
    h other (List.mem_append_left _ hother)
  have hidle : isIdle name.toList = false := (component_of_isName hname).1
  have hkept : (names.map String.toList).reverse.dropWhile isIdle =
      (names.map String.toList).reverse := by
    cases hlast : (names.map String.toList).reverse with
    | nil => rfl
    | cons part rest =>
        have hmem : part ∈ (names.map String.toList).reverse := by
          rw [hlast]
          exact List.mem_cons_self
        rcases List.mem_map.mp (List.mem_reverse.mp hmem) with ⟨other, hother, rfl⟩
        rw [List.dropWhile_cons_of_neg]
        rw [(component_of_isName (hnames other hother)).1]
        exact Bool.false_ne_true
  have hparents : (ofNames names).parents = above [] (names.map String.toList).reverse := by
    cases names with
    | nil => exact parents_ofNames_nil
    | cons first rest => exact parents_ofNames (List.cons_ne_nil first rest) hnames
  have hconcat : names ++ [name] ≠ [] := List.append_ne_nil_of_right_ne_nil _ (List.cons_ne_nil _ _)
  rw [ancestors, ancestors, parents_ofNames hconcat h, hparents, List.map_append,
    List.reverse_append]
  simp only [List.map_cons, List.map_nil, List.reverse_cons, List.reverse_nil, List.nil_append,
    List.cons_append, above, hidle, Bool.false_eq_true, if_false, hkept, List.reverse_reverse]
  rfl

/-- The paths above a path with names, and it itself, are those with a beginning of these names. -/
theorem mem_ancestors_ofNames (h : ∀ other ∈ names, IsName other) :
    q ∈ (ofNames names).ancestors ↔ ∃ front, front <+: names ∧ q = ofNames front := by
  -- the induction goes from the last name up
  induction names using List.reverseRecOn with
  | nil => simp [ancestors, parents_ofNames_nil]
  | append_singleton names name ih =>
      have hfront : ∀ other ∈ names, IsName other := fun other hother =>
        h other (List.mem_append_left _ hother)
      rw [ancestors_ofNames_concat h, List.mem_cons, ih hfront]
      constructor
      · rintro (rfl | ⟨front, hbegins, rfl⟩)
        · exact ⟨_, List.prefix_rfl, rfl⟩
        · exact ⟨front, hbegins.trans (List.prefix_append _ _), rfl⟩
      · rintro ⟨front, hbegins, rfl⟩
        rcases List.prefix_concat_iff.mp hbegins with rfl | hbegins
        · exact Or.inl rfl
        · exact Or.inr ⟨front, hbegins, rfl⟩

/-- A path above a plain one is plain, unless it is the empty path. -/
theorem IsPlain.of_mem_ancestors (hp : p.IsPlain) (hq : q ∈ p.ancestors) (htext : q.text ≠ "") :
    q.IsPlain ∧ q.names <+: p.names := by
  have hnames := isPlain_iff.mp hp
  rw [← ofNames_names p, mem_ancestors_ofNames hnames] at hq
  rcases hq with ⟨front, hbegins, rfl⟩
  have hne : front ≠ [] := by
    rintro rfl
    exact htext rfl
  have hfront : ∀ name ∈ front, IsName name := fun name hname =>
    hnames name (hbegins.subset hname)
  exact ⟨isPlain_ofNames hne hfront, (names_ofNames hne hfront).symm ▸ hbegins⟩

/-- A plain path that starts the names of another one is among its ancestors. -/
theorem IsPlain.mem_ancestors (hp : p.IsPlain) (h : q.names <+: p.names) : q ∈ p.ancestors := by
  rw [← ofNames_names p, mem_ancestors_ofNames (isPlain_iff.mp hp)]
  exact ⟨q.names, h, (ofNames_names q).symm⟩

end OperatorBundle.Path
