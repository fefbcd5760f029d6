import OperatorBundle.Proofs.Config.Given

/-!
# Statements that are understood

The statements of a configuration that is understood are plain (`IsUnderstood.isPlain`), and plain
statements can be followed if none defines again what another one defines
(`IsUnderstood.exists_follow?`).
-/

namespace OperatorBundle

open Toml (Statement Key Value placed target Item)

variable {statements : List Statement} {items : Item.Items} {part key : String} {v : Value}

/-! ## Plain statements -/

/-- The lines of a configuration that is understood: the heading of a section, a string for a setting,
or an inline table of such strings. -/
inductive IsPlain : Key × Statement → Prop where
  | heading (path : Key) {part : String} (hpart : IsSection part) : IsPlain (path, .table [part])
  | inSection {part : String} (hpart : IsSection part) (key text : String) :
      IsPlain ([part], .assignment [key] (.string text))
  | dotted {part : String} (hpart : IsSection part) (key text : String) :
      IsPlain ([], .assignment [part, key] (.string text))
  | inline {part : String} (hpart : IsSection part) {entries : Toml.Table}
      (h : ∀ e ∈ entries, ∃ text, e.2 = .string text) :
      IsPlain ([], .assignment [part] (.table entries))

/-- What is given a value of its own has nothing inside it. -/
theorem IsDefinedOnce.eq_of_begins (honce : IsDefinedOnce statements) (hpart : IsSection part)
    {path name : Key} {s : Key × Statement} (hs : (path, .assignment name v) ∈ placed [] statements)
    (hkey : path ++ name = [part] ∨ ∃ key, path ++ name = [part, key])
    (hs' : s ∈ placed [] statements) (hbegins : path ++ name <+: target s) :
    s = (path, .assignment name v) := by
  by_contra hne
  exact ((honce part hpart).forall hs hs' (Ne.symm hne)).1 (.value hkey hbegins)

/-- What holds a key of a section that is given a value gives this value. -/
theorem IsDefinedOnce.cases_of_isGiven (honce : IsDefinedOnce statements) (hpart : IsSection part)
    (hgiven : IsGiven statements part key v) {s : Key × Statement} (hs : s ∈ placed [] statements)
    (hbegins : [part, key] <+: target s) :
    s = ([part], .assignment [key] v) ∨ s = ([], .assignment [part, key] v) := by
  cases hgiven with
  | inSection h => exact Or.inl (honce.eq_of_begins hpart h (Or.inr ⟨key, rfl⟩) hs hbegins)
  | dotted h => exact Or.inr (honce.eq_of_begins hpart h (Or.inr ⟨key, rfl⟩) hs hbegins)
  | inline h =>
      have heq := honce.eq_of_begins hpart h (Or.inl rfl) hs
        ((List.prefix_append [part] [key]).trans hbegins)
      subst heq
      have hlength := hbegins.length_le
      simp [target] at hlength

/-- Statements that are understood are plain if none defines again what another one defines. -/
theorem IsUnderstood.isPlain (h : IsUnderstood statements) (hkeys : ∀ s ∈ statements, s.key ≠ [])
    (htables : HasTables statements) (honce : IsDefinedOnce statements) :
    ∀ s ∈ placed [] statements, IsPlain s := by
  intro s hs
  have hkey : s.2.key ≠ [] := hkeys _ (Toml.mem_of_mem_placed hs)
  have hne : target s ≠ [] := by
    obtain ⟨path, statement⟩ := s
    cases statement with
    | assignment name v => exact List.append_ne_nil_of_right_ne_nil path hkey
    | table name => exact hkey
    | element name => exact hkey
  obtain ⟨part, more, htarget⟩ := List.exists_cons_of_ne_nil hne
  have hpart : IsSection part := h.sections part ⟨s, hs, ⟨more, htarget.symm⟩⟩
  -- A statement about a key inside a section is the one that gives it a value.
  have hinside : ∀ key, [part, key] <+: target s → ∃ text,
      s = ([part], .assignment [key] (.string text)) ∨
        s = ([], .assignment [part, key] (.string text)) := by
    intro key hbegins
    obtain ⟨v, hgiven⟩ := h.values part key (.mentioned hs hbegins)
    obtain ⟨text, rfl⟩ := h.strings part key v hgiven
    exact ⟨text, honce.cases_of_isGiven hpart hgiven hs hbegins⟩
  cases more with
  | cons key more =>
      obtain ⟨text, rfl | rfl⟩ := hinside key ⟨more, htarget.symm⟩
      · exact .inSection hpart key text
      · exact .dotted hpart key text
  | nil =>
      obtain ⟨path, statement⟩ := s
      cases statement with
      | table name =>
          cases htarget
          exact .heading path hpart
      | element name =>
          cases htarget
          exact absurd hs (htables.elements part path hpart)
      | assignment name v =>
          obtain ⟨rfl, rfl⟩ := eq_of_append_eq_singleton hkey htarget
          obtain ⟨entries, rfl⟩ := htables.values part v hpart hs
          exact .inline hpart fun e he => h.strings part e.1 e.2 (.inline hs he)

/-- What can stand at a section when plain lines have been followed. -/
theorem cases_of_lookup {before : List (Key × Statement)} (hmade : Item.IsMadeBy before items)
    (hplain : ∀ s ∈ before, IsPlain s) {item : Item} (hlookup : items.lookup part = some item) :
    (∃ entries, ([], .assignment [part] (.table entries)) ∈ before ∧ item = .value (.table entries)) ∨
    (∃ path inner, (path, .table [part]) ∈ before ∧ item = .table .heading inner) ∨
    (∃ key text inner, ([], .assignment [part, key] (.string text)) ∈ before ∧
      item = .table .dotted inner) ∨
    (∃ key text inner, ([part], .assignment [key] (.string text)) ∈ before ∧
      item = .table .implied inner) := by
  obtain ⟨s, hs, hmakes⟩ := hmade [part] item (List.cons_ne_nil _ _)
    (Item.at?_singleton.trans hlookup)
  have hline := hplain s hs
  -- what a statement can make at a section is told from the form of its line
  generalize hp : [part] = p at hmakes
  cases hmakes with
  | value =>
      cases hline with
      | inSection => cases hp
      | dotted => cases hp
      | inline =>
          cases hp
          exact Or.inl ⟨_, hs, rfl⟩
  | @dotted _ _ front _ inner hne hbegins hproper =>
      obtain ⟨rfl, rfl⟩ := eq_of_append_eq_singleton hne hp.symm
      cases hline with
      | dotted hpart key text =>
          obtain ⟨more, hmore⟩ := hbegins
          cases hmore
          exact Or.inr (Or.inr (Or.inl ⟨key, text, inner, hs, rfl⟩))
      | inline =>
          obtain ⟨more, hmore⟩ := hbegins
          cases hmore
          exact absurd rfl hproper
  | @around _ _ _ _ inner hbegins =>
      subst hp
      cases hline with
      | inSection hpart key text =>
          obtain ⟨more, hmore⟩ := hbegins
          cases hmore
          exact Or.inr (Or.inr (Or.inr ⟨key, text, inner, hs, rfl⟩))
      | dotted => exact absurd hbegins (by simp)
      | inline => exact absurd hbegins (by simp)
  | heading path key inner =>
      subst hp
      exact Or.inr (Or.inl ⟨path, inner, hs, rfl⟩)
  | aroundHeading hbegins hproper =>
      subst hp
      cases hline with
      | heading =>
          obtain ⟨more, hmore⟩ := hbegins
          cases hmore
          exact absurd rfl hproper
  | elements => cases hline
  | aroundElements => cases hline

/-- A line of a section stands behind the heading of the section. -/
theorem exists_heading_before {before after : List (Key × Statement)} {statement : Statement}
    (hplaced : placed [] statements = before ++ ([part], statement) :: after)
    (hplain : ∀ s ∈ before, IsPlain s) : ∃ outer, (outer, .table [part]) ∈ before := by
  rcases Toml.exists_heading hplaced with hnil | ⟨outer, hmem | hmem⟩
  · cases hnil
  · exact ⟨outer, hmem⟩
  · cases hplain _ hmem

section

variable {before after : List (Key × Statement)} {s : Key × Statement}

/-- What is given a value of its own has not been there. -/
theorem at?_eq_none (path : Key) {name : Key} (hmade : Item.IsMadeBy before items)
    (hkey : path ++ name = [part] ∨ ∃ key, path ++ name = [part, key])
    (hapart : ∀ s ∈ before, AreApart part s (path, .assignment name v)) :
    Item.at? (path ++ name) (.table .heading items) = none := by
  refine Option.eq_none_iff_forall_ne_some.mpr fun item hat => ?_
  have hne : path ++ name ≠ [] := by
    rcases hkey with heq | ⟨_, heq⟩
    · rw [heq]
      exact List.cons_ne_nil _ _
    · rw [heq]
      exact List.cons_ne_nil _ _
  obtain ⟨s, hs, hmakes⟩ := hmade _ item hne hat
  exact (hapart s hs).2 (.value hkey hmakes.prefix_target)

/-- A heading can be followed where it clashes with no statement in front. -/
theorem changeBy_heading (hmade : Item.IsMadeBy before items) (hplain : ∀ s ∈ before, IsPlain s)
    {path : Key} (hapart : ∀ s ∈ before, AreApart part s (path, .table [part])) :
    ∃ next, Item.changeBy (path, .table [part]) items = some next := by
  show ∃ next, Item.openTable part .heading items = some next
  unfold Item.openTable
  cases hlookup : items.lookup part with
  | none => exact ⟨_, rfl⟩
  | some item =>
      rcases cases_of_lookup hmade hplain hlookup with ⟨entries, hs, rfl⟩ | ⟨outer, inner, hs, rfl⟩ |
        ⟨key, text, inner, hs, rfl⟩ | ⟨key, text, inner, hs, rfl⟩
      · exact absurd (Clashes.value (Or.inl rfl) (List.prefix_refl _)) (hapart _ hs).1
      · exact absurd (.headings _ _) (hapart _ hs).1
      · exact absurd (.dotted _ _ _ _) (hapart _ hs).2
      · exact ⟨_, rfl⟩

/-- An inline table can be followed where it clashes with no statement in front. -/
theorem changeBy_inline (hmade : Item.IsMadeBy before items)
    (hapart : ∀ s ∈ before, AreApart part s ([], .assignment [part] v)) :
    ∃ next, Item.changeBy ([], .assignment [part] v) items = some next := by
  have hnew := at?_eq_none [] hmade (Or.inl rfl) hapart
  refine ⟨_, Item.assign_eq_some_iff.mpr ⟨by simp, ?_, rfl⟩⟩
  exact Item.at?_singleton.symm.trans hnew

omit before in
/-- Where nothing stands at a key of a section, its table has no such name. -/
theorem lookup_eq_none_of_at? {origin : Toml.Origin} {inner : Item.Items}
    (hnew : Item.at? [part, key] (.table .heading items) = none)
    (hlookup : items.lookup part = some (.table origin inner)) : inner.lookup key = none := by
  rw [Item.at?_cons, hlookup] at hnew
  have hat : Item.at? [key] (.table origin inner) = none := hnew
  exact Item.at?_singleton.symm.trans hat

/-- A line of a section can be followed where no statements clash. -/
theorem changeBy_inSection
    (hplaced : placed [] statements = before ++ ([part], .assignment [key] v) :: after)
    (hall : (placed [] statements).Pairwise (AreApart part)) (hmade : Item.IsMadeBy before items)
    (hplain : ∀ s ∈ before, IsPlain s) :
    ∃ next, Item.changeBy ([part], .assignment [key] v) items = some next := by
  obtain ⟨outer, hheading⟩ := exists_heading_before hplaced hplain
  have hapart : ∀ s ∈ before, AreApart part s ([part], .assignment [key] v) := fun s hs =>
    (List.pairwise_append.mp (hplaced ▸ hall)).2.2 s hs _ List.mem_cons_self
  have hnew : Item.at? [part, key] (.table .heading items) = none :=
    at?_eq_none [part] hmade (Or.inr ⟨key, rfl⟩) hapart
  have hassign : ∀ (origin : Toml.Origin) (inner : Item.Items), origin ≠ .dotted →
      inner.lookup key = none → Item.changeAt .implied
        (Item.changeParent .dotted (Item.assign (decide (1 < [key].length)) · v) [key]) [] origin inner =
          some (Item.set inner key (.value v)) := fun origin inner horigin hlookup =>
    Item.assign_eq_some_iff.mpr ⟨by simpa using horigin, hlookup, rfl⟩
  suffices henters : ∃ new, Item.Enters .implied _ [] (items.lookup part) new from
    henters.elim fun _ h => Item.exists_changeAt h .heading
  cases hlookup : items.lookup part with
  | none => exact ⟨_, .made (hassign .implied [] (by decide) rfl)⟩
  | some item =>
      rcases cases_of_lookup hmade hplain hlookup with ⟨entries, hs, rfl⟩ | ⟨path, inner, hs, rfl⟩ |
        ⟨name, text, inner, hs, rfl⟩ | ⟨name, text, inner, hs, rfl⟩
      · exact absurd (Clashes.value (Or.inl rfl) (List.prefix_append [part] [key])) (hapart _ hs).1
      · exact ⟨_, .table (by decide)
          (hassign .heading inner (by decide) (lookup_eq_none_of_at? hnew hlookup))⟩
      · have hmem : ∀ {s}, s ∈ before → s ∈ placed [] statements := fun hs =>
          hplaced ▸ List.mem_append_left _ hs
        have hne : (outer, Statement.table [part]) ≠ ([], .assignment [part, name] (.string text)) := by
          intro heq
          cases heq
        exact absurd (.dotted _ _ _ _) (hall.forall (hmem hheading) (hmem hs) hne).1
      · exact ⟨_, .table (by decide)
          (hassign .implied inner (by decide) (lookup_eq_none_of_at? hnew hlookup))⟩

/-- A dotted key can be followed where no statements clash. -/
theorem changeBy_dotted
    (hplaced : placed [] statements = before ++ ([], .assignment [part, key] v) :: after)
    (hall : (placed [] statements).Pairwise (AreApart part)) (hmade : Item.IsMadeBy before items)
    (hplain : ∀ s ∈ before, IsPlain s) :
    ∃ next, Item.changeBy ([], .assignment [part, key] v) items = some next := by
  have hapart : ∀ s ∈ before, AreApart part s ([], .assignment [part, key] v) := fun s hs =>
    (List.pairwise_append.mp (hplaced ▸ hall)).2.2 s hs _ List.mem_cons_self
  have hnew : Item.at? [part, key] (.table .heading items) = none :=
    at?_eq_none [] hmade (Or.inr ⟨key, rfl⟩) hapart
  have hassign : ∀ inner : Item.Items, inner.lookup key = none →
      Item.changeAt .dotted (Item.assign (decide (1 < [part, key].length)) key v) [] .dotted inner =
        some (Item.set inner key (.value v)) := fun inner hlookup =>
    Item.assign_eq_some_iff.mpr ⟨by simp, hlookup, rfl⟩
  suffices henters : ∃ new, Item.Enters .dotted _ [] (items.lookup part) new from
    henters.elim fun _ h => Item.exists_changeAt h .heading
  cases hlookup : items.lookup part with
  | none => exact ⟨_, .made (hassign [] rfl)⟩
  | some item =>
      rcases cases_of_lookup hmade hplain hlookup with ⟨entries, hs, rfl⟩ | ⟨path, inner, hs, rfl⟩ |
        ⟨name, text, inner, hs, rfl⟩ | ⟨name, text, inner, hs, rfl⟩
      · exact absurd (Clashes.value (Or.inl rfl) (List.prefix_append [part] [key])) (hapart _ hs).1
      · exact absurd (.dotted _ _ _ _) (hapart _ hs).1
      · exact ⟨_, .table (by decide) (hassign inner (lookup_eq_none_of_at? hnew hlookup))⟩
      · -- The heading of the section stands in front of a line that stands under it.
        obtain ⟨earlier, later, rfl⟩ := List.append_of_mem hs
        rw [List.append_assoc] at hplaced
        obtain ⟨outer, hheading⟩ := exists_heading_before hplaced fun s hs =>
          hplain s (List.mem_append_left _ hs)
        exact absurd (.dotted _ _ _ _) (hapart _ (List.mem_append_left _ hheading)).1

/-- A text that is understood makes up a document. -/
theorem IsUnderstood.exists_follow? (h : IsUnderstood statements)
    (hkeys : ∀ s ∈ statements, s.key ≠ []) (htables : HasTables statements)
    (honce : IsDefinedOnce statements) : ∃ items, Item.follow? statements [] [] = some items := by
  have hplain := h.isPlain hkeys htables honce
  rw [Item.follow?_eq]
  -- what has been followed makes all that the document holds so far, and clashes with nothing to
  -- come
  suffices hall : ∀ {before after : List (Key × Statement)} {items : Item.Items},
      placed [] statements = before ++ after → Item.IsMadeBy before items →
        ∃ final, after.foldlM (fun items s => Item.changeBy s items) items = some final from
    hall (List.nil_append _).symm Item.isMadeBy_nil
  intro before after
  induction after generalizing before with
  | nil => exact fun _ _ => ⟨_, rfl⟩
  | cons s after ih =>
      intro items hplaced hmade
      have hbefore : ∀ s ∈ before, IsPlain s := fun s hs =>
        hplain s (hplaced ▸ List.mem_append_left _ hs)
      have hs : IsPlain s := hplain s (hplaced ▸ List.mem_append_right _ List.mem_cons_self)
      have hapart : ∀ part, IsSection part → ∀ s' ∈ before, AreApart part s' s := fun part hpart s' hs' =>
        (List.pairwise_append.mp (hplaced ▸ honce part hpart)).2.2 s' hs' s List.mem_cons_self
      obtain ⟨next, hnext⟩ : ∃ next, Item.changeBy s items = some next := by
        cases hs with
        | heading path hpart => exact changeBy_heading hmade hbefore (hapart _ hpart)
        | inSection hpart => exact changeBy_inSection hplaced (honce _ hpart) hmade hbefore
        | dotted hpart => exact changeBy_dotted hplaced (honce _ hpart) hmade hbefore
        | inline hpart => exact changeBy_inline hmade (hapart _ hpart)
      obtain ⟨final, hfinal⟩ := ih (hplaced.trans (by simp)) (hmade.changeBy hnext)
      exact ⟨final, Option.bind_eq_some_iff.mpr ⟨next, hnext, hfinal⟩⟩

end

/-! ## Which statements are understood -/

/-- A plain statement is about one of the two sections. -/
theorem IsPlain.isSection {s : Key × Statement} (h : IsPlain s) (hbegins : [part] <+: target s) :
    IsSection part := by
  obtain ⟨more, hmore⟩ := hbegins
  cases h <;> cases hmore <;> assumption

/-- Plain statements make tables of the sections. -/
theorem hasTables_of_isPlain (hplain : ∀ s ∈ placed [] statements, IsPlain s) : HasTables statements where
  elements part path _ hs := by cases hplain _ hs
  values part v _ hs := by
    cases hplain _ hs
    exact ⟨_, rfl⟩

/-- Plain statements give a string for every key that they have. -/
theorem isGiven_of_hasKey (hplain : ∀ s ∈ placed [] statements, IsPlain s)
    (h : HasKey statements part key) : ∃ text, IsGiven statements part key (.string text) := by
  cases h with
  | mentioned hs hbegins =>
      obtain ⟨more, hmore⟩ := hbegins
      cases hplain _ hs with
      | heading => cases hmore
      | inSection =>
          cases hmore
          exact ⟨_, .inSection hs⟩
      | dotted =>
          cases hmore
          exact ⟨_, .dotted hs⟩
      | inline => cases hmore
  | inline hs he =>
      cases hplain _ hs with
      | inline _ hstrings =>
          obtain ⟨text, rfl⟩ := hstrings _ he
          exact ⟨text, .inline hs he⟩

/-- Plain lines are understood if their keys are those of settings. -/
theorem isUnderstood_of_isPlain (hplain : ∀ s ∈ placed [] statements, IsPlain s)
    (hkeys : ∀ e ∈ given statements, ∃ s ∈ Setting.all, e.1 = [s.part, s.key]) : IsUnderstood statements where
  sections part := fun ⟨s, hs, hbegins⟩ => (hplain s hs).isSection hbegins
  keys part key h := by
    obtain ⟨text, hgiven⟩ := isGiven_of_hasKey hplain h
    obtain ⟨s, hs, heq⟩ := hkeys _ (isGiven_iff_mem.mp hgiven)
    cases heq
    exact ⟨s, hs, rfl, rfl⟩
  values part key h := by
    obtain ⟨text, hgiven⟩ := isGiven_of_hasKey hplain h
    exact ⟨_, hgiven⟩
  strings part key v h := by
    cases h with
    | inSection hs =>
        cases hplain _ hs
        exact ⟨_, rfl⟩
    | dotted hs =>
        cases hplain _ hs
        exact ⟨_, rfl⟩
    | inline hs he =>
        cases hplain _ hs with
        | inline _ hstrings => exact hstrings _ he

/-! ## Statements that do not clash -/

/-- What clashes with a statement is about its target or something inside it. -/
theorem Clashes.begins {s s' : Key × Statement} (h : Clashes part s s') : target s <+: target s' := by
  cases h with
  | headings => exact List.prefix_refl _
  | value _ hbegins => exact hbegins
  | dotted => exact ⟨_, rfl⟩

/-- Statements do not clash if neither of their targets lies inside the other. -/
theorem areApart_of_targets {s s' : Key × Statement} (h : ¬ target s <+: target s')
    (h' : ¬ target s' <+: target s) : AreApart part s s' :=
  ⟨fun hclash => h hclash.begins, fun hclash => h' hclash.begins⟩

/-- A line does not clash with the heading that it stands under. -/
theorem areApart_heading {path : Key} {name : String} :
    AreApart part (path, .table [name]) ([name], .assignment [key] v) := by
  refine ⟨nofun, fun h => ?_⟩
  have hlength := h.begins.length_le
  simp [target] at hlength

end OperatorBundle
