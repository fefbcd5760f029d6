import OperatorBundle.Proofs.Lookup
import OperatorBundle.Proofs.Outcome
import OperatorBundle.Toml.Document

/-!
# Names in tables

A table that is read has each name once (`distinct_of_read?`): an entry is added under a new name
only, and every other change leaves the names as they are.
-/

namespace OperatorBundle.Toml

/-! ## Entries -/

/-- Have entries each name once, and do all of them meet a condition? -/
def Once {α : Type} (P : α → Prop) (entries : List (String × α)) : Prop :=
  (entries.map Prod.fst).Nodup ∧ ∀ e ∈ entries, P e.2

section

variable {α : Type} {P : α → Prop} {entries : List (String × α)} {name : String} {a : α}

theorem once_nil : Once P [] := ⟨List.nodup_nil, fun _ h => by cases h⟩

/-- What is found under a name meets the condition. -/
theorem Once.of_lookup (h : Once P entries) (hfound : entries.lookup name = some a) : P a :=
  h.2 _ (mem_of_lookup hfound)

/-- An entry can be added under a new name. -/
theorem Once.append (h : Once P entries) (hnew : entries.lookup name = none) (ha : P a) :
    Once P (entries ++ [(name, a)]) := by
  constructor
  · rw [List.map_append, List.map_singleton]
    refine List.nodup_append.mpr ⟨h.1, by simp, ?_⟩
    rintro found hfound new hsame rfl
    rw [List.mem_singleton] at hsame
    rw [hsame] at hfound
    exact lookup_eq_none_iff.mp hnew hfound
  · intro e he
    rcases List.mem_append.mp he with hold | hlast
    · exact h.2 e hold
    · rw [List.mem_singleton.mp hlast]
      exact ha

/-- An entry that is replaced keeps its name. -/
theorem map_fst_replace (entries : List (String × α)) (name : String) (a : α) :
    (entries.map fun e => if e.1 == name then (name, a) else e).map Prod.fst =
      entries.map Prod.fst := by
  rw [List.map_map]
  refine List.map_congr_left fun e _ => ?_
  rw [Function.comp_apply]
  split
  · rename_i heq
    exact (beq_iff_eq.mp heq).symm
  · rfl

/-- An entry can be replaced. -/
theorem Once.replace (h : Once P entries) (ha : P a) :
    Once P (entries.map fun e => if e.1 == name then (name, a) else e) := by
  constructor
  · rw [map_fst_replace]
    exact h.1
  · intro e he
    obtain ⟨old, hold, rfl⟩ := List.mem_map.mp he
    split
    · exact ha
    · exact h.2 old hold

end

/-! ## Values -/

/-- Has a value each name once in every table of it? -/
inductive Value.Distinct : Value → Prop where
  | plain {v : Value} (harray : ∀ items, v ≠ .array items) (htable : ∀ entries, v ≠ .table entries) :
      v.Distinct
  | array {items : List Value} (h : ∀ v ∈ items, v.Distinct) : Value.Distinct (.array items)
  | table {entries : Table} (hnames : (entries.map Prod.fst).Nodup)
      (h : ∀ e ∈ entries, e.2.Distinct) : Value.Distinct (.table entries)

/-- A table of distinct names has each of them once. -/
theorem Value.Distinct.once {entries : Table} (h : Value.Distinct (.table entries)) :
    Once Value.Distinct entries := by
  cases h with
  | plain _ htable => exact absurd rfl (htable entries)
  | table hnames hentries => exact ⟨hnames, hentries⟩

/-- A table of what entries stand for has their names. -/
theorem distinct_table {α : Type} {entries : List (String × α)} {toValue : α → Value}
    (hnames : (entries.map Prod.fst).Nodup) (h : ∀ e ∈ entries, (toValue e.2).Distinct) :
    Value.Distinct (.table (entries.map fun e => (e.1, toValue e.2))) := by
  refine .table ?_ ?_
  · rw [List.map_map]
    exact hnames
  · intro e he
    obtain ⟨entry, hentry, rfl⟩ := List.mem_map.mp he
    exact h entry hentry

/-- The same of an entry of an inline table. -/
inductive InlineEntry.Distinct : InlineEntry → Prop where
  | value {v : Value} (h : v.Distinct) : InlineEntry.Distinct (.value v)
  | dotted {entries : List (String × InlineEntry)} (hnames : (entries.map Prod.fst).Nodup)
      (h : ∀ e ∈ entries, e.2.Distinct) : InlineEntry.Distinct (.dotted entries)

namespace InlineEntry

theorem toTable_eq (entries : List (String × InlineEntry)) :
    toTable entries = entries.map fun e => (e.1, e.2.toValue) := by
  induction entries with
  | nil => rfl
  | cons e entries ih => rw [toTable, List.map_cons, ih]

theorem Distinct.toValue {entry : InlineEntry} (h : entry.Distinct) : entry.toValue.Distinct := by
  induction h with
  | value h => exact h
  | @dotted entries hnames _ ih =>
      rw [InlineEntry.toValue, toTable_eq]
      exact distinct_table hnames ih

/-- Putting a value under a dotted key keeps names distinct. -/
theorem once_insert {key : Key} {v : Value} {entries entries' : List (String × InlineEntry)}
    (h : Once Distinct entries) (hv : v.Distinct) (hinsert : insert key v entries = some entries') :
    Once Distinct entries' := by
  induction key generalizing entries entries' with
  | nil => cases hinsert
  | cons name key ih =>
      cases key with
      | nil =>
          rw [insert] at hinsert
          split at hinsert
          · cases hinsert
          · rename_i hnew
            cases hinsert
            exact h.append (Option.not_isSome_iff_eq_none.mp hnew) (.value hv)
      | cons next key =>
          rw [insert] at hinsert
          · split at hinsert
            · rename_i hnew
              obtain ⟨inner, hinner, heq⟩ := Option.bind_eq_some_iff.mp hinsert
              cases heq
              obtain ⟨hnames, hentries⟩ := ih once_nil hinner
              exact h.append hnew (.dotted hnames hentries)
            · rename_i inner hfound
              obtain ⟨inner', hinner, heq⟩ := Option.bind_eq_some_iff.mp hinsert
              cases heq
              cases h.of_lookup hfound with
              | dotted hnames hentries =>
                  obtain ⟨hnames', hentries'⟩ := ih ⟨hnames, hentries⟩ hinner
                  exact h.replace (.dotted hnames' hentries')
            · cases hinsert
          · simp

end InlineEntry

/-- A number has no names. -/
theorem distinct_of_sized? {n : Int} {v : Value} (h : sized? n = some v) : v.Distinct := by
  unfold sized? at h
  split at h
  · cases h
    exact .plain (fun _ => nofun) (fun _ => nofun)
  · cases h

theorem distinct_of_integer? {text r : List Char} {v : Value} (h : integer? text = some (v, r)) :
    v.Distinct := by
  unfold integer? at h
  split at h
  all_goals
    obtain ⟨_, _, h⟩ := Option.bind_eq_some_iff.mp h
    obtain ⟨_, hv, h⟩ := Option.bind_eq_some_iff.mp h
    cases h
    exact distinct_of_sized? hv

/-- What begins with a digit or a sign has no names. -/
theorem distinct_of_numeric? {text r : List Char} {v : Value} (h : numeric? text = some (v, r)) :
    v.Distinct := by
  unfold numeric? at h
  split at h
  · cases h
    exact .plain (fun _ => nofun) (fun _ => nofun)
  · split at h
    · cases h
      exact .plain (fun _ => nofun) (fun _ => nofun)
    · exact distinct_of_integer? h

/-- Do the readers get only values that have each name once in every table, with so much fuel? -/
structure ReadsDistinct (limit n : Nat) : Prop where
  value : ∀ {depth text v r}, value? limit n depth text = some (v, r) → v.Distinct
  items : ∀ {depth text items r}, items? limit n depth text = some (items, r) →
    ∀ v ∈ items, v.Distinct
  entries : ∀ {depth read text entries r}, Once InlineEntry.Distinct read →
    entries? limit n depth read text = some (entries, r) → Once InlineEntry.Distinct entries

section

variable {limit n depth : Nat} {text r : List Char}

/-- A value that is read has distinct names if its parts have them. -/
theorem distinct_of_value? (h : ReadsDistinct limit n) {v : Value}
    (hread : value? limit (n + 1) depth text = some (v, r)) : v.Distinct := by
  unfold value? at hread
  split at hread
  · obtain ⟨_, _, hsaid⟩ := Option.map_eq_some_iff.mp hread
    cases hsaid
    exact .plain (fun _ => nofun) (fun _ => nofun)
  · obtain ⟨_, _, hsaid⟩ := Option.map_eq_some_iff.mp hread
    cases hsaid
    exact .plain (fun _ => nofun) (fun _ => nofun)
  · split at hread
    · cases hread
    · obtain ⟨⟨items, _⟩, hitems, hread⟩ := Option.bind_eq_some_iff.mp hread
      cases hread
      exact .array (h.items hitems)
  · split at hread
    · cases hread
    · obtain ⟨⟨entries, _⟩, hentries, hread⟩ := Option.bind_eq_some_iff.mp hread
      cases hread
      obtain ⟨hnames, heach⟩ := h.entries once_nil hentries
      exact InlineEntry.Distinct.toValue (.dotted hnames heach)
  · cases hread
    exact .plain (fun _ => nofun) (fun _ => nofun)
  · cases hread
    exact .plain (fun _ => nofun) (fun _ => nofun)
  · exact distinct_of_numeric? hread

/-- Items that are read have distinct names if their parts have them. -/
theorem distinct_of_items? (h : ReadsDistinct limit n) {items : List Value}
    (hread : items? limit (n + 1) depth text = some (items, r)) : ∀ v ∈ items, v.Distinct := by
  unfold items? at hread
  simp only at hread
  split at hread
  · cases hread
    nofun
  · obtain ⟨⟨v, _⟩, hv, hread⟩ := Option.bind_eq_some_iff.mp hread
    have hfirst := h.value hv
    simp only at hread
    split at hread
    · obtain ⟨⟨more, _⟩, hmore, hread⟩ := Option.bind_eq_some_iff.mp hread
      cases hread
      exact List.forall_mem_cons.mpr ⟨hfirst, h.items hmore⟩
    · cases hread
      exact List.forall_mem_singleton.mpr hfirst
    · cases hread

/-- What has been read of the table is the invariant: an entry is inserted under a new name. -/
theorem once_of_entries? (h : ReadsDistinct limit n) {before entries : List (String × InlineEntry)}
    (hbefore : Once InlineEntry.Distinct before)
    (hread : entries? limit (n + 1) depth before text = some (entries, r)) :
    Once InlineEntry.Distinct entries := by
  unfold entries? at hread
  split at hread
  · cases hread
    exact once_nil
  · obtain ⟨⟨key, _⟩, _, hread⟩ := Option.bind_eq_some_iff.mp hread
    simp only at hread
    split at hread
    · obtain ⟨⟨v, _⟩, hv, hread⟩ := Option.bind_eq_some_iff.mp hread
      obtain ⟨after, hinsert, hread⟩ := Option.bind_eq_some_iff.mp hread
      have hafter := InlineEntry.once_insert hbefore (h.value hv) hinsert
      simp only at hread
      split at hread
      · exact h.entries hafter hread
      · cases hread
        exact hafter
      · cases hread
    · cases hread

end

/-- Whatever is read has distinct names. -/
theorem readsDistinct (limit n : Nat) : ReadsDistinct limit n := by
  induction n with
  | zero => exact ⟨nofun, nofun, fun _ => nofun⟩
  | succ n ih => exact ⟨distinct_of_value? ih, distinct_of_items? ih, once_of_entries? ih⟩

/-! ## Documents -/

/-- The same of what a name stands for while a document is put together. -/
inductive Item.Distinct : Item → Prop where
  | value {v : Value} (h : v.Distinct) : Item.Distinct (.value v)
  | table (origin : Origin) {items : List (String × Item)} (hnames : (items.map Prod.fst).Nodup)
      (h : ∀ e ∈ items, e.2.Distinct) : Item.Distinct (.table origin items)
  | elements {last : List (String × Item)} {before : List (List (String × Item))}
      (hnames : ∀ items ∈ last :: before, (items.map Prod.fst).Nodup)
      (h : ∀ items ∈ last :: before, ∀ e ∈ items, e.2.Distinct) : Item.Distinct (.elements last before)

namespace Item

/-- An item can be set under any name. -/
theorem once_set {items : Items} {name : String} {item : Item} (h : Once Distinct items)
    (hitem : item.Distinct) : Once Distinct (set items name item) := by
  unfold set
  split
  · exact h.replace hitem
  · rename_i hnew
    exact h.append (Option.not_isSome_iff_eq_none.mp hnew) hitem

/-- What a name comes to stand for where a table below it changes.  A table is made for it if it stood
for nothing; of an array of tables the last element changes. -/
inductive Enters (made : Origin) (change : Origin → Items → Option Items) (path : Key) :
    Option Item → Item → Prop where
  | made {inner : Items} (h : changeAt made change path made [] = some inner) :
      Enters made change path none (.table made inner)
  | elements {last last' : Items} (before : List Items)
      (h : changeAt made change path .heading last = some last') :
      Enters made change path (some (.elements last before)) (.elements last' before)
  | table {origin : Origin} {inner inner' : Items} (hpasses : ¬ (made = .dotted ∧ origin = .heading))
      (h : changeAt made change path origin inner = some inner') :
      Enters made change path (some (.table origin inner)) (.table origin inner')

/-- A change below a name sets just this name. -/
theorem changeAt_cons_eq_some_iff {made origin : Origin} {change : Origin → Items → Option Items}
    {name : String} {path : Key} {items items' : Items} :
    changeAt made change (name :: path) origin items = some items' ↔
      ∃ new, Enters made change path (items.lookup name) new ∧ items' = set items name new := by
  rw [changeAt]
  generalize items.lookup name = found
  constructor
  · intro h
    split at h
    · obtain ⟨inner, hinner, heq⟩ := Option.bind_eq_some_iff.mp h
      exact ⟨_, .made hinner, (Option.some.inj heq).symm⟩
    · cases h
    · rename_i last before
      obtain ⟨last', hlast, heq⟩ := Option.bind_eq_some_iff.mp h
      exact ⟨_, .elements before hlast, (Option.some.inj heq).symm⟩
    · split at h
      · cases h
      · rename_i hpasses
        rw [Bool.and_eq_true, beq_iff_eq, beq_iff_eq] at hpasses
        obtain ⟨inner', hinner, heq⟩ := Option.bind_eq_some_iff.mp h
        exact ⟨_, .table hpasses hinner, (Option.some.inj heq).symm⟩
  · rintro ⟨new, henters, rfl⟩
    cases henters with
    | made h => exact Option.bind_eq_some_iff.mpr ⟨_, h, rfl⟩
    | elements before h => exact Option.bind_eq_some_iff.mpr ⟨_, h, rfl⟩
    | table hpasses h =>
        simp only
        rw [if_neg (by rwa [Bool.and_eq_true, beq_iff_eq, beq_iff_eq])]
        exact Option.bind_eq_some_iff.mpr ⟨_, h, rfl⟩

/-- A change can be made below a name that can be entered. -/
theorem exists_changeAt {made : Origin} {change : Origin → Items → Option Items} {name : String}
    {path : Key} {items : Items} {new : Item} (h : Enters made change path (items.lookup name) new)
    (origin : Origin) : ∃ next, changeAt made change (name :: path) origin items = some next :=
  ⟨_, changeAt_cons_eq_some_iff.mpr ⟨new, h, rfl⟩⟩

/-- A change at the end of a path leaves each name once everywhere if it does so there. -/
theorem once_changeAt {made : Origin} {change : Origin → Items → Option Items}
    (hchange : ∀ origin items items', Once Distinct items → change origin items = some items' →
      Once Distinct items')
    (path : Key) {origin : Origin} {items items' : Items} (h : Once Distinct items)
    (hchanged : changeAt made change path origin items = some items') : Once Distinct items' := by
  induction path generalizing origin items items' with
  | nil => exact hchange _ _ _ h hchanged
  | cons name path ih =>
      obtain ⟨new, henters, rfl⟩ := changeAt_cons_eq_some_iff.mp hchanged
      refine once_set h ?_
      have hfound : ∀ item, items.lookup name = some item → item.Distinct := fun _ => h.of_lookup
      generalize items.lookup name = found at henters hfound
      cases henters with
      | made hinner =>
          obtain ⟨hnames, heach⟩ := ih once_nil hinner
          exact .table made hnames heach
      | elements before hlast =>
          cases hfound _ rfl with
          | elements hnames heach =>
              -- only the last element changes
              rw [List.forall_mem_cons] at hnames heach
              obtain ⟨hnames', heach'⟩ := ih ⟨hnames.1, heach.1⟩ hlast
              exact .elements (List.forall_mem_cons.mpr ⟨hnames', hnames.2⟩)
                (List.forall_mem_cons.mpr ⟨heach', heach.2⟩)
      | table _ hinner =>
          cases hfound _ rfl with
          | table _ hnames heach =>
              obtain ⟨hnames', heach'⟩ := ih ⟨hnames, heach⟩ hinner
              exact .table _ hnames' heach'

/-- Names stay distinct when a table is given its heading. -/
theorem once_openTable (name : String) (origin : Origin) (items items' : Items)
    (h : Once Distinct items) (hopen : openTable name origin items = some items') :
    Once Distinct items' := by
  unfold openTable at hopen
  split at hopen
  · cases hopen
    exact once_set h (.table _ List.nodup_nil nofun)
  · rename_i inner hfound
    cases hopen
    cases h.of_lookup hfound with
    | table _ hnames heach => exact once_set h (.table _ hnames heach)
  · cases hopen

/-- Names stay distinct when a further element begins. -/
theorem once_openElement (name : String) (origin : Origin) (items items' : Items)
    (h : Once Distinct items) (hopen : openElement name origin items = some items') :
    Once Distinct items' := by
  unfold openElement at hopen
  split at hopen
  · cases hopen
    exact once_set h (.elements (by simp) (by simp))
  · rename_i last before hfound
    cases hopen
    cases h.of_lookup hfound with
    | elements hnames heach =>
        exact once_set h (.elements (List.forall_mem_cons.mpr ⟨List.nodup_nil, hnames⟩)
          (List.forall_mem_cons.mpr ⟨nofun, heach⟩))
  · cases hopen

/-- Names stay distinct when a value is assigned. -/
theorem once_assign {isDotted : Bool} {v : Value} (hv : v.Distinct) (name : String)
    (origin : Origin) (items items' : Items) (h : Once Distinct items)
    (hassign : assign isDotted name v origin items = some items') : Once Distinct items' := by
  unfold assign at hassign
  split at hassign
  · cases hassign
  · cases hassign
    exact once_set h (.value hv)

/-- Names stay distinct when the table around the end of a key is changed so that they do. -/
theorem once_changeParent {made : Origin} {change : String → Origin → Items → Option Items}
    (hchange : ∀ name origin items items', Once Distinct items →
      change name origin items = some items' → Once Distinct items')
    (key : Key) (origin : Origin) (items items' : Items) (h : Once Distinct items)
    (hchanged : changeParent made change key origin items = some items') :
    Once Distinct items' := by
  obtain ⟨name, _, hchanged⟩ := Option.bind_eq_some_iff.mp hchanged
  exact once_changeAt (hchange name) _ h hchanged

/-- Names stay distinct through all statements. -/
theorem once_follow? {statements : List Statement}
    (hvalues : ∀ key v, .assignment key v ∈ statements → v.Distinct) {path : Key}
    {items items' : Items} (h : Once Distinct items)
    (hfollow : follow? statements path items = some items') : Once Distinct items' := by
  induction statements generalizing path items with
  | nil =>
      cases hfollow
      exact h
  | cons statement more ih =>
      have hmore : ∀ key v, .assignment key v ∈ more → v.Distinct := fun key v hmem =>
        hvalues key v (List.mem_cons_of_mem _ hmem)
      cases statement with
      | table key =>
          obtain ⟨next, hnext, hfollow⟩ := Option.bind_eq_some_iff.mp hfollow
          exact ih hmore (once_changeParent once_openTable _ _ _ _ h hnext) hfollow
      | element key =>
          obtain ⟨next, hnext, hfollow⟩ := Option.bind_eq_some_iff.mp hfollow
          exact ih hmore (once_changeParent once_openElement _ _ _ _ h hnext) hfollow
      | assignment key v =>
          obtain ⟨next, hnext, hfollow⟩ := Option.bind_eq_some_iff.mp hfollow
          have hv := hvalues key v List.mem_cons_self
          refine ih hmore (once_changeAt ?_ path h hnext) hfollow
          exact once_changeParent (once_assign hv) key

theorem toTable_eq (items : Items) : toTable items = items.map fun e => (e.1, e.2.toValue) := by
  induction items with
  | nil => rfl
  | cons e items ih => rw [toTable, List.map_cons, ih]

/-- The elements of an array of tables are tables. -/
theorem mem_toTables {tables : List Items} {v : Value} (h : v ∈ toTables tables) :
    ∃ items ∈ tables, v = .table (toTable items) := by
  induction tables with
  | nil => cases h
  | cons items tables ih =>
      rw [toTables] at h
      rcases List.mem_cons.mp h with rfl | hrest
      · exact ⟨_, List.mem_cons_self, rfl⟩
      · obtain ⟨found, hfound, heq⟩ := ih hrest
        exact ⟨found, List.mem_cons_of_mem _ hfound, heq⟩

theorem Distinct.toValue {item : Item} (h : item.Distinct) : item.toValue.Distinct := by
  induction h with
  | value h => exact h
  | table _ hnames _ ih =>
      rw [Item.toValue, toTable_eq]
      exact distinct_table hnames ih
  | @elements last before hnames _ ih =>
      refine .array ?_
      intro v hv
      have hmem : v ∈ toTables (last :: before) := by
        rw [toTables]
        exact List.mem_reverse.mp hv
      obtain ⟨items, hitems, rfl⟩ := mem_toTables hmem
      rw [toTable_eq]
      exact distinct_table (hnames items hitems) (ih items hitems)

end Item

/-- A heading assigns nothing. -/
theorem heading?_ne_assignment (limit : Nat) (text r : List Char) (key : Key) (v : Value) :
    heading? limit text ≠ some (.assignment key v, r) := by
  intro h
  unfold heading? at h
  split at h
  all_goals
    obtain ⟨_, _, h⟩ := Option.bind_eq_some_iff.mp h
    split at h <;> cases h

/-- A value that is assigned has distinct names. -/
theorem distinct_of_assignment? {limit : Nat} {text r : List Char} {key : Key} {v : Value}
    (h : assignment? limit text = some (.assignment key v, r)) : v.Distinct := by
  obtain ⟨_, _, h⟩ := Option.bind_eq_some_iff.mp h
  split at h
  · obtain ⟨⟨v, _⟩, hread, h⟩ := Option.bind_eq_some_iff.mp h
    cases h
    exact (readsDistinct _ _).value hread
  · cases h

/-- All values that are assigned have distinct names. -/
theorem distinct_of_statements? {limit n : Nat} {text : List Char} {statements : List Statement}
    (h : statements? limit n text = some statements) :
    ∀ key v, .assignment key v ∈ statements → v.Distinct := by
  induction n generalizing text statements with
  | zero => cases h
  | succ n ih =>
      intro key v hmem
      unfold statements? at h
      split at h
      · cases h
        cases hmem
      · obtain ⟨r, _, h⟩ := Option.bind_eq_some_iff.mp h
        exact ih h key v hmem
      · obtain ⟨⟨statement, r⟩, hheading, h⟩ := Option.bind_eq_some_iff.mp h
        obtain ⟨more, hmore, h⟩ := Option.bind_eq_some_iff.mp h
        obtain ⟨_, _, hmore⟩ := Option.bind_eq_some_iff.mp hmore
        cases h
        rcases List.mem_cons.mp hmem with rfl | hmem
        · exact absurd hheading (heading?_ne_assignment _ _ _ _ _)
        · exact ih hmore key v hmem
      · split at h
        · exact ih h key v hmem
        · obtain ⟨⟨statement, r⟩, hassignment, h⟩ := Option.bind_eq_some_iff.mp h
          obtain ⟨more, hmore, h⟩ := Option.bind_eq_some_iff.mp h
          obtain ⟨_, _, hmore⟩ := Option.bind_eq_some_iff.mp hmore
          cases h
          rcases List.mem_cons.mp hmem with rfl | hmem
          · exact distinct_of_assignment? hassignment
          · exact ih hmore key v hmem

/-- A document that is read has each name once in every table. -/
theorem distinct_of_read? {text : String} {document : Table} (h : read? text = some document) :
    Value.Distinct (.table document) := by
  obtain ⟨statements, hstatements, h⟩ := Option.bind_eq_some_iff.mp h
  obtain ⟨items, hitems, h⟩ := Option.bind_eq_some_iff.mp h
  cases h
  obtain ⟨hnames, heach⟩ := Item.once_follow? (distinct_of_statements? hstatements) once_nil hitems
  exact Item.Distinct.toValue (.table .heading hnames heach)

end OperatorBundle.Toml
