import Mathlib.Data.List.Pairwise
import OperatorBundle.Proofs.Config
import OperatorBundle.Proofs.Toml.Document

/-!
# What the statements of a text give

A configuration is written in three ways: as sections, as inline tables and with dotted keys.  Which
values statements give is said in terms of the statements alone, and the document that they make up
holds just these values (`IsDocumentOf.holdsSettings_iff`).
-/

namespace OperatorBundle

open Toml (Statement Key Value placed target Item)

/-! ## What a text gives -/

/-- The two sections of a configuration. -/
def IsSection (part : String) : Prop := part = "bundle" ∨ part = "inputs"

/-- Is a value given for a key of a section? -/
inductive IsGiven (statements : List Statement) (part key : String) (v : Value) : Prop where
  /-- Under the heading of the section. -/
  | inSection (h : ([part], .assignment [key] v) ∈ placed [] statements)
  /-- Under a dotted key in front of all headings. -/
  | dotted (h : ([], .assignment [part, key] v) ∈ placed [] statements)
  /-- In an inline table. -/
  | inline {entries : Toml.Table} (h : ([], .assignment [part] (.table entries)) ∈ placed [] statements)
      (he : (key, v) ∈ entries)

/-- Is there a section of this name, perhaps only inside a longer key? -/
def HasSection (statements : List Statement) (part : String) : Prop :=
  ∃ s ∈ placed [] statements, [part] <+: target s

/-- Does a section have a key, perhaps only inside a longer one? -/
inductive HasKey (statements : List Statement) (part key : String) : Prop where
  | mentioned {s : Key × Statement} (h : s ∈ placed [] statements) (hkey : [part, key] <+: target s)
  | inline {entries : Toml.Table} {v : Value}
      (h : ([], .assignment [part] (.table entries)) ∈ placed [] statements) (he : (key, v) ∈ entries)

/-- A section has every key that is given a value. -/
theorem IsGiven.hasKey {statements : List Statement} {part key : String} {v : Value}
    (h : IsGiven statements part key v) : HasKey statements part key := by
  cases h with
  | inSection h => exact .mentioned h (List.prefix_refl _)
  | dotted h => exact .mentioned h (List.prefix_refl _)
  | inline h he => exact .inline h he

/-- Are there no sections but the two of a configuration, and in these no keys but those of settings,
with strings? -/
structure IsUnderstood (statements : List Statement) : Prop where
  sections : ∀ part, HasSection statements part → IsSection part
  keys : ∀ part key, HasKey statements part key → ∃ s ∈ Setting.all, s.part = part ∧ s.key = key
  /-- No key is that of a table inside a section. -/
  values : ∀ part key, HasKey statements part key → ∃ v, IsGiven statements part key v
  strings : ∀ part key v, IsGiven statements part key v → ∃ text, v = .string text

/-- Are the sections of a configuration tables where they are present? -/
structure HasTables (statements : List Statement) : Prop where
  elements : ∀ part path, IsSection part → (path, .element [part]) ∉ placed [] statements
  values : ∀ part v, IsSection part → ([], .assignment [part] v) ∈ placed [] statements →
    ∃ entries, v = .table entries

/-- Do two statements define the same section, or the same key of one? -/
inductive Clashes (part : String) : Key × Statement → Key × Statement → Prop where
  /-- Two headings. -/
  | headings (path path' : Key) : Clashes part (path, .table [part]) (path', .table [part])
  /-- A value, and something else at its key or inside it. -/
  | value {path key : Key} {v : Value} {s : Key × Statement}
      (hkey : path ++ key = [part] ∨ ∃ name, path ++ key = [part, name])
      (h : path ++ key <+: target s) : Clashes part (path, .assignment key v) s
  /-- A heading, and a dotted key in front of all headings. -/
  | dotted (path : Key) (name : String) (more : Key) (v : Value) :
      Clashes part (path, .table [part]) ([], .assignment (part :: name :: more) v)

/-- Do two statements not clash, whichever of them comes first? -/
def AreApart (part : String) (s s' : Key × Statement) : Prop :=
  ¬ Clashes part s s' ∧ ¬ Clashes part s' s

instance (part : String) : Std.Symm (AreApart part) := ⟨fun _ _ h => ⟨h.2, h.1⟩⟩

/-- Are the sections of a configuration and their keys defined once? -/
def IsDefinedOnce (statements : List Statement) : Prop :=
  ∀ part, IsSection part → (placed [] statements).Pairwise (AreApart part)

namespace Setting

/-- Is this string given for a setting? -/
def IsGiven (s : Setting) (statements : List Statement) (text : String) : Prop :=
  OperatorBundle.IsGiven statements s.part s.key (.string text)

/-- Is something given for a setting that has no character but white space? -/
def IsBlank (s : Setting) (statements : List Statement) : Prop :=
  ∃ text, s.IsGiven statements text ∧ ∀ c ∈ text.toList, Text.isBlank c = true

end Setting

/-! ## What the document holds -/

variable {statements : List Statement} {items : Item.Items} {part key : String} {v : Value}

/-- A document that holds what its statements say, and nothing else.  The sections of a configuration
are tables in it. -/
structure IsDocumentOf (statements : List Statement) (items : Item.Items) : Prop where
  keys : ∀ s ∈ placed [] statements, s.2.key ≠ []
  tables : HasTables statements
  holds : ∀ s ∈ placed [] statements, Item.Holds s items
  made : Item.IsMadeBy (placed [] statements) items

/-- What the statements of a text make up is the document of these statements. -/
theorem isDocumentOf_of_follow? (hkeys : ∀ s ∈ statements, s.key ≠ []) (htables : HasTables statements)
    (hfollow : Item.follow? statements [] [] = some items) : IsDocumentOf statements items :=
  ⟨fun s hs => hkeys s.2 (Toml.mem_of_mem_placed hs), htables,
    fun _ hs => Item.holds_of_follow? hfollow hkeys hs, Item.isMadeBy_of_follow? hfollow⟩

/-- The ways to write a key of one part. -/
theorem eq_of_append_eq_singleton {path name : Key} (hname : name ≠ []) (h : path ++ name = [part]) :
    path = [] ∧ name = [part] := by
  rcases List.append_eq_singleton_iff.mp h with hfirst | ⟨_, hnil⟩
  · exact hfirst
  · exact absurd hnil hname

/-- The ways to write a key of two parts. -/
theorem eq_of_append_eq_pair {path name : Key} (hname : name ≠ []) (h : path ++ name = [part, key]) :
    path = [] ∧ name = [part, key] ∨ path = [part] ∧ name = [key] := by
  cases path with
  | nil => exact Or.inl ⟨rfl, h⟩
  | cons first path =>
      obtain ⟨rfl, hmore⟩ := List.cons.inj h
      obtain ⟨rfl, rfl⟩ := eq_of_append_eq_singleton hname hmore
      exact Or.inr ⟨rfl, rfl⟩

namespace IsDocumentOf

variable (h : IsDocumentOf statements items)

include h

/-- No section of a configuration is an array of tables. -/
theorem lookup_ne_elements (hpart : IsSection part) (last : Item.Items) (before : List Item.Items) :
    items.lookup part ≠ some (.elements last before) := by
  intro hlookup
  obtain ⟨⟨path, _⟩, hs, hmakes⟩ := h.made [part] _ (List.cons_ne_nil _ _)
    (Item.at?_singleton.trans hlookup)
  generalize hp : [part] = p at hmakes
  cases hmakes
  exact h.tables.elements part path hpart (hp ▸ hs)

/-- A section that is a value has been given this value. -/
theorem lookup_value (hlookup : items.lookup part = some (.value v)) :
    ([], .assignment [part] v) ∈ placed [] statements := by
  obtain ⟨⟨path, _⟩, hs, hmakes⟩ := h.made [part] _ (List.cons_ne_nil _ _)
    (Item.at?_singleton.trans hlookup)
  generalize hp : [part] = p at hmakes
  cases hmakes with
  | value path name =>
      obtain ⟨rfl, rfl⟩ := eq_of_append_eq_singleton (h.keys _ hs) hp.symm
      exact hs

/-- The document holds just the sections that the statements have. -/
theorem hasSection_iff : HasSection statements part ↔ ∃ item, items.lookup part = some item := by
  constructor
  · rintro ⟨s, hs, hbegins⟩
    rcases (h.holds s hs).exists_at? hbegins with harray | ⟨item, hat⟩
    · exact absurd harray Item.not_meetsArray_singleton
    · exact ⟨item, Item.at?_singleton.symm.trans hat⟩
  · rintro ⟨item, hlookup⟩
    obtain ⟨s, hs, hmakes⟩ := h.made [part] item (List.cons_ne_nil _ _)
      (Item.at?_singleton.trans hlookup)
    exact ⟨s, hs, hmakes.prefix_target⟩

/-- No array of tables stands in the way of a key of a section. -/
theorem not_meetsArray (hpart : IsSection part) :
    ¬ Item.MeetsArray [part, key] (.table .heading items) := by
  rintro ⟨q, last, before, hne, hq, hproper, hat⟩
  -- the only thing in front of the key is the section
  rcases List.prefix_cons_iff.mp hq with rfl | ⟨more, rfl, hmore⟩
  · exact hne rfl
  · rcases List.prefix_cons_iff.mp hmore with rfl | ⟨more, rfl, hnil⟩
    · exact h.lookup_ne_elements hpart last before (Item.at?_singleton.symm.trans hat)
    · rw [List.prefix_nil] at hnil
      exact hproper (hnil ▸ rfl)

/-- A section that is given an inline table is this table. -/
theorem lookup_of_inline {entries : Toml.Table}
    (hs : ([], .assignment [part] (.table entries)) ∈ placed [] statements) :
    items.lookup part = some (.value (.table entries)) := by
  rcases h.holds _ hs with harray | ⟨item, hat, hsays⟩
  · exact absurd harray Item.not_meetsArray_singleton
  · cases hsays
    exact Item.at?_singleton.symm.trans hat

/-- A section of the document holds just the keys that the statements have for it. -/
theorem hasKey_iff (hpart : IsSection part) : HasKey statements part key ↔
    (∃ item, Item.at? [part, key] (.table .heading items) = some item) ∨
      ∃ entries, items.lookup part = some (.value (.table entries)) ∧ ∃ v, (key, v) ∈ entries := by
  constructor
  · rintro (⟨hs, hbegins⟩ | ⟨hs, he⟩)
    · rcases (h.holds _ hs).exists_at? hbegins with harray | hat
      · exact absurd harray (h.not_meetsArray hpart)
      · exact Or.inl hat
    · exact Or.inr ⟨_, h.lookup_of_inline hs, _, he⟩
  · rintro (⟨item, hat⟩ | ⟨entries, hlookup, v, he⟩)
    · obtain ⟨s, hs, hmakes⟩ := h.made _ item (List.cons_ne_nil _ _) hat
      exact .mentioned hs hmakes.prefix_target
    · exact .inline (h.lookup_value hlookup) he

/-- A value is given for a key just if the document holds it there. -/
theorem isGiven_iff (hpart : IsSection part) : IsGiven statements part key v ↔
    Item.at? [part, key] (.table .heading items) = some (.value v) ∨
      ∃ entries, items.lookup part = some (.value (.table entries)) ∧ (key, v) ∈ entries := by
  have hvalue : ∀ {s : Key × Statement}, s ∈ placed [] statements → target s = [part, key] →
      (∀ item, Item.Says s.2 item → item = .value v) →
        Item.at? [part, key] (.table .heading items) = some (.value v) := by
    intro s hs htarget hsays
    rcases h.holds s hs with harray | ⟨item, hat, hitem⟩
    · rw [htarget] at harray
      exact absurd harray (h.not_meetsArray hpart)
    · rw [← htarget, hat, hsays item hitem]
  constructor
  · rintro (hs | hs | ⟨hs, he⟩)
    · exact Or.inl (hvalue hs rfl fun item hsays => by cases hsays; rfl)
    · exact Or.inl (hvalue hs rfl fun item hsays => by cases hsays; rfl)
    · exact Or.inr ⟨_, h.lookup_of_inline hs, he⟩
  · rintro (hat | ⟨entries, hlookup, he⟩)
    · obtain ⟨s, hs, hmakes⟩ := h.made _ _ (List.cons_ne_nil _ _) hat
      generalize hp : [part, key] = p at hmakes
      cases hmakes with
      | value path name =>
          rcases eq_of_append_eq_pair (h.keys _ hs) hp.symm with ⟨rfl, rfl⟩ | ⟨rfl, rfl⟩
          · exact .dotted hs
          · exact .inSection hs
    · exact .inline (h.lookup_value hlookup) he

omit h in
theorem partOf_toTable (items : Item.Items) (part : String) :
    partOf (Item.toTable items) part = match items.lookup part with
      | some (.value (.table entries)) => entries
      | some (.table _ inner) => Item.toTable inner
      | _ => [] := by
  unfold partOf
  rw [Item.lookup_toTable]
  cases items.lookup part with
  | none => rfl
  | some item =>
      cases item with
      | value v => cases v <;> rfl
      | table => rfl
      | elements => rfl

omit h in
/-- What a section of the document holds. -/
theorem mem_partOf_iff (hdistinct : Value.Distinct (.table (Item.toTable items))) :
    (key, v) ∈ partOf (Item.toTable items) part ↔
      (∃ item, Item.at? [part, key] (.table .heading items) = some item ∧ item.toValue = v) ∨
        ∃ entries, items.lookup part = some (.value (.table entries)) ∧ (key, v) ∈ entries := by
  have hnames := nodup_partOf hdistinct part
  simp only [Item.at?_pair]
  rw [partOf_toTable] at hnames ⊢
  cases hlookup : items.lookup part with
  | none => simp
  | some item =>
      cases item with
      | value v => cases v <;> simp
      | elements => simp
      | table origin inner =>
          rw [hlookup] at hnames
          simp only at hnames ⊢
          constructor
          · intro hmem
            -- no name is repeated, so that an entry is what its name is looked up as
            have hfound := lookup_of_mem (List.pairwise_map.mp hnames) hmem
            rw [Item.lookup_toTable] at hfound
            obtain ⟨item, hitem, hv⟩ := Option.map_eq_some_iff.mp hfound
            exact Or.inl ⟨item, ⟨origin, inner, rfl, hitem⟩, hv⟩
          · rintro (⟨item, ⟨_, _, heq, hitem⟩, rfl⟩ | ⟨entries, heq, _⟩)
            · cases heq
              refine mem_of_lookup ?_
              rw [Item.lookup_toTable, hitem]
              rfl
            · cases heq

/-- The sections of a configuration are tables in the document. -/
theorem holdsTables : HoldsTables (Item.toTable items) := by
  intro part v hpart hlookup
  rw [Item.lookup_toTable] at hlookup
  obtain ⟨item, hitem, rfl⟩ := Option.map_eq_some_iff.mp hlookup
  cases item with
  | value v => exact h.tables.values part v hpart (h.lookup_value hitem)
  | table origin inner => exact ⟨Item.toTable inner, rfl⟩
  | elements last before => exact absurd hitem (h.lookup_ne_elements hpart last before)

omit h in
/-- Only a string becomes a string. -/
theorem eq_value_of_toValue {item : Item} {text : String} (hitem : item.toValue = .string text) :
    item = .value (.string text) := by
  cases item with
  | value => exact congrArg Item.value hitem
  | table => cases hitem
  | elements => cases hitem

/-- A string is given for a key if the document holds it there. -/
theorem mem_partOf_iff_isGiven (hdistinct : Value.Distinct (.table (Item.toTable items)))
    (hpart : IsSection part) {text : String} :
    (key, .string text) ∈ partOf (Item.toTable items) part ↔
      IsGiven statements part key (.string text) := by
  rw [mem_partOf_iff hdistinct, h.isGiven_iff hpart]
  constructor
  · rintro (⟨item, hat, hitem⟩ | hinline)
    · exact Or.inl (eq_value_of_toValue hitem ▸ hat)
    · exact Or.inr hinline
  · rintro (hat | hinline)
    · exact Or.inl ⟨_, hat, rfl⟩
    · exact Or.inr hinline

/-- The statements have the keys of every entry of a section. -/
theorem hasKey_of_mem (hdistinct : Value.Distinct (.table (Item.toTable items))) (hpart : IsSection part)
    (hmem : (key, v) ∈ partOf (Item.toTable items) part) : HasKey statements part key := by
  rcases (mem_partOf_iff hdistinct).mp hmem with ⟨item, hat, _⟩ | ⟨entries, hlookup, he⟩
  · exact (h.hasKey_iff hpart).mpr (Or.inl ⟨item, hat⟩)
  · exact (h.hasKey_iff hpart).mpr (Or.inr ⟨entries, hlookup, v, he⟩)

/-- A section has an entry for every key that the statements have for it. -/
theorem exists_mem_of_hasKey (hdistinct : Value.Distinct (.table (Item.toTable items)))
    (hpart : IsSection part) (hkey : HasKey statements part key) :
    ∃ v, (key, v) ∈ partOf (Item.toTable items) part := by
  rcases (h.hasKey_iff hpart).mp hkey with ⟨item, hat⟩ | ⟨entries, hlookup, v, he⟩
  · exact ⟨item.toValue, (mem_partOf_iff hdistinct).mpr (Or.inl ⟨item, hat, rfl⟩)⟩
  · exact ⟨v, (mem_partOf_iff hdistinct).mpr (Or.inr ⟨entries, hlookup, he⟩)⟩

/-- A text is understood if its document holds settings only. -/
theorem holdsSettings_iff (hdistinct : Value.Distinct (.table (Item.toTable items))) :
    HoldsSettings (Item.toTable items) ↔ IsUnderstood statements := by
  constructor
  · intro hholds
    have hsections : ∀ part, HasSection statements part → IsSection part := by
      intro part hpart
      obtain ⟨item, hlookup⟩ := h.hasSection_iff.mp hpart
      refine hholds.sections (part, item.toValue) (mem_of_lookup ?_)
      rw [Item.lookup_toTable, hlookup]
      rfl
    have hsection : ∀ {part key}, HasKey statements part key → IsSection part := by
      rintro part key (⟨hs, hbegins⟩ | ⟨hs, _⟩)
      · exact hsections part ⟨_, hs, (List.prefix_append [part] [key]).trans hbegins⟩
      · exact hsections part ⟨_, hs, List.prefix_refl _⟩
    refine ⟨hsections, ?_, ?_, ?_⟩
    · intro part key hkey
      obtain ⟨v, hmem⟩ := h.exists_mem_of_hasKey hdistinct (hsection hkey) hkey
      exact hholds.keys part (hsection hkey) _ hmem
    · intro part key hkey
      obtain ⟨v, hmem⟩ := h.exists_mem_of_hasKey hdistinct (hsection hkey) hkey
      obtain ⟨text, rfl⟩ := hholds.strings part (hsection hkey) _ hmem
      exact ⟨_, (h.mem_partOf_iff_isGiven hdistinct (hsection hkey)).mp hmem⟩
    · intro part key v hgiven
      have hpart := hsection hgiven.hasKey
      rcases (h.isGiven_iff hpart).mp hgiven with hat | hinline
      · exact hholds.strings part hpart (key, v) ((mem_partOf_iff hdistinct).mpr (Or.inl ⟨_, hat, rfl⟩))
      · exact hholds.strings part hpart (key, v) ((mem_partOf_iff hdistinct).mpr (Or.inr hinline))
  · intro hunderstood
    refine ⟨?_, ?_, ?_⟩
    · intro e he
      have hfound := lookup_of_mem (List.pairwise_map.mp hdistinct.once.1) he
      rw [Item.lookup_toTable] at hfound
      obtain ⟨item, hitem, _⟩ := Option.map_eq_some_iff.mp hfound
      exact hunderstood.sections e.1 (h.hasSection_iff.mpr ⟨item, hitem⟩)
    · rintro part hpart ⟨key, v⟩ hmem
      exact hunderstood.keys part key (h.hasKey_of_mem hdistinct hpart hmem)
    · rintro part hpart ⟨key, v⟩ hmem
      obtain ⟨v', hgiven⟩ := hunderstood.values part key (h.hasKey_of_mem hdistinct hpart hmem)
      obtain ⟨text, rfl⟩ := hunderstood.strings part key v' hgiven
      have hmem' := (h.mem_partOf_iff_isGiven hdistinct hpart).mpr hgiven
      have hnames := List.pairwise_map.mp (nodup_partOf hdistinct part)
      have hsame := (lookup_of_mem hnames hmem).symm.trans (lookup_of_mem hnames hmem')
      exact ⟨text, Option.some.inj hsame⟩

end IsDocumentOf

/-! ## Strings that are given -/

/-- The strings that a line of a configuration gives, under their whole keys. -/
def strings : Key × Statement → List (Key × String)
  | ([part], .assignment [key] (.string text)) => [([part, key], text)]
  | ([], .assignment [part, key] (.string text)) => [([part, key], text)]
  | ([], .assignment [part] (.table entries)) => entries.filterMap fun
      | (key, .string text) => some ([part, key], text)
      | _ => none
  | _ => []

/-- The strings that the lines of a configuration give, under their whole keys. -/
def given (statements : List Statement) : List (Key × String) := (placed [] statements).flatMap strings

/-- The strings that are given can be listed. -/
theorem isGiven_iff_mem {text : String} : IsGiven statements part key (.string text) ↔
    ([part, key], text) ∈ given statements := by
  unfold given
  rw [List.mem_flatMap]
  constructor
  · rintro (h | h | ⟨h, he⟩)
    · exact ⟨_, h, List.mem_singleton_self _⟩
    · exact ⟨_, h, List.mem_singleton_self _⟩
    · exact ⟨_, h, List.mem_filterMap.mpr ⟨(key, .string text), he, rfl⟩⟩
  · rintro ⟨s, hs, hmem⟩
    unfold strings at hmem
    split at hmem
    · cases List.mem_singleton.mp hmem
      exact .inSection hs
    · cases List.mem_singleton.mp hmem
      exact .dotted hs
    · obtain ⟨e, he, heq⟩ := List.mem_filterMap.mp hmem
      split at heq
      · cases heq
        exact .inline hs he
      · cases heq
    · cases hmem

instance (s : Setting) (statements : List Statement) (text : String) : Decidable (s.IsGiven statements text) :=
  decidable_of_iff _ isGiven_iff_mem.symm

/-- Whether a setting is blank is told from the strings that are given. -/
theorem Setting.isBlank_iff {s : Setting} : s.IsBlank statements ↔
    ∃ e ∈ given statements, e.1 = [s.part, s.key] ∧ Text.allBlank e.2 = true := by
  constructor
  · rintro ⟨text, hgiven, hblank⟩
    exact ⟨_, isGiven_iff_mem.mp hgiven, rfl, List.all_eq_true.mpr hblank⟩
  · rintro ⟨⟨_, text⟩, he, rfl, hblank⟩
    exact ⟨text, isGiven_iff_mem.mpr he, List.all_eq_true.mp hblank⟩

instance (s : Setting) (statements : List Statement) : Decidable (s.IsBlank statements) :=
  decidable_of_iff _ Setting.isBlank_iff.symm

end OperatorBundle
