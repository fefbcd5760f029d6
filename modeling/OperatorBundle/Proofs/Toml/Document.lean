import OperatorBundle.Proofs.Lookup
import OperatorBundle.Proofs.Toml.Names

/-!
# What a document holds

Everything that a document holds comes from one of its statements (`exists_made`), and every statement
leaves what it says in the document (`holds_of_follow?`), unless an array of tables stands on the way.
-/

namespace OperatorBundle.Toml

/-- The statements of a document, each with the heading that it stands under. -/
def placed : Key → List Statement → List (Key × Statement)
  | _, [] => []
  | path, .assignment key v :: more => (path, .assignment key v) :: placed path more
  | path, .table key :: more => (path, .table key) :: placed key more
  | path, .element key :: more => (path, .element key) :: placed key more

/-- The key of a statement, without the heading that it stands under. -/
def Statement.key : Statement → Key
  | .assignment key _ => key
  | .table key => key
  | .element key => key

/-- The whole key that a statement is about. -/
def target : Key × Statement → Key
  | (path, .assignment key _) => path ++ key
  | (_, .table key) => key
  | (_, .element key) => key

/-- The next statements stand under the same heading, or the statement is their heading. -/
theorem placed_cons (path : Key) (statement : Statement) (statements : List Statement) :
    ∃ next, placed path (statement :: statements) = (path, statement) :: placed next statements ∧
      (next = path ∨ statement = .table next ∨ statement = .element next) := by
  cases statement with
  | assignment key v => exact ⟨path, rfl, Or.inl rfl⟩
  | table key => exact ⟨key, rfl, Or.inr (Or.inl rfl)⟩
  | element key => exact ⟨key, rfl, Or.inr (Or.inr rfl)⟩

/-- Every placed statement is one of the statements. -/
theorem mem_of_mem_placed {path : Key} {statements : List Statement} {s : Key × Statement}
    (h : s ∈ placed path statements) : s.2 ∈ statements := by
  induction statements generalizing path with
  | nil => cases h
  | cons first statements ih =>
      obtain ⟨next, hplaced, _⟩ := placed_cons path first statements
      rw [hplaced] at h
      rcases List.mem_cons.mp h with rfl | hmore
      · exact List.mem_cons_self
      · exact List.mem_cons_of_mem _ (ih hmore)

/-- Every statement is placed somewhere. -/
theorem exists_mem_placed {path : Key} {statements : List Statement} {statement : Statement}
    (h : statement ∈ statements) : ∃ outer, (outer, statement) ∈ placed path statements := by
  induction statements generalizing path with
  | nil => cases h
  | cons first statements ih =>
      obtain ⟨next, hplaced, _⟩ := placed_cons path first statements
      rw [hplaced]
      rcases List.mem_cons.mp h with rfl | hmore
      · exact ⟨path, List.mem_cons_self⟩
      · obtain ⟨outer, houter⟩ := ih hmore
        exact ⟨outer, List.mem_cons_of_mem _ houter⟩

/-- A heading that a statement stands under is one in front of it. -/
theorem exists_heading {path : Key} {statements : List Statement} {before after : List (Key × Statement)}
    {s : Key × Statement} (h : placed path statements = before ++ s :: after) :
    s.1 = path ∨ ∃ outer, (outer, .table s.1) ∈ before ∨ (outer, .element s.1) ∈ before := by
  induction statements generalizing path before with
  | nil => exact absurd h (by simp [placed])
  | cons statement statements ih =>
      obtain ⟨next, hplaced, hnext⟩ := placed_cons path statement statements
      rw [hplaced] at h
      cases before with
      | nil =>
          cases h
          exact Or.inl rfl
      | cons first before =>
          obtain ⟨rfl, hmore⟩ := List.cons.inj h
          rcases ih hmore with heq | ⟨outer, hmem | hmem⟩
          · rcases hnext with hsame | rfl | rfl
            · exact Or.inl (heq.trans hsame)
            · exact Or.inr ⟨path, Or.inl (heq ▸ List.mem_cons_self)⟩
            · exact Or.inr ⟨path, Or.inr (heq ▸ List.mem_cons_self)⟩
          · exact Or.inr ⟨outer, Or.inl (List.mem_cons_of_mem _ hmem)⟩
          · exact Or.inr ⟨outer, Or.inr (List.mem_cons_of_mem _ hmem)⟩

namespace Item

variable {name : String} {path key p q : Key} {origin made : Origin} {item item' old new : Item}
  {items items' inner inner' : Items}

/-- What stands at the end of a path of tables. -/
def at? : Key → Item → Option Item
  | [], item => some item
  | name :: path, .table _ items => (items.lookup name).bind (at? path)
  | _ :: _, _ => none

/-- Are two items tables of one origin, arrays of tables, or the same value? -/
inductive Like : Item → Item → Prop where
  | value (v : Value) : Like (.value v) (.value v)
  | table (origin : Origin) (items items' : Items) : Like (.table origin items) (.table origin items')
  | elements (last last' : Items) (before before' : List Items) :
      Like (.elements last before) (.elements last' before')

/-- The same without the origin of tables. -/
inductive SameKind : Item → Item → Prop where
  | value (v : Value) : SameKind (.value v) (.value v)
  | table (origin origin' : Origin) (items items' : Items) :
      SameKind (.table origin items) (.table origin' items')
  | elements (last last' : Items) (before before' : List Items) :
      SameKind (.elements last before) (.elements last' before')

theorem at?_cons : at? (name :: path) (.table origin items) = (items.lookup name).bind (at? path) := rfl

theorem at?_singleton : at? [name] (.table origin items) = items.lookup name := by
  rw [at?_cons]
  cases items.lookup name <;> rfl

/-- What stands at a key of two parts stands in a table. -/
theorem at?_pair {second : String} : at? [name, second] (.table origin items) = some item ↔
    ∃ origin' inner, items.lookup name = some (.table origin' inner) ∧ inner.lookup second = some item := by
  rw [at?_cons, Option.bind_eq_some_iff]
  constructor
  · rintro ⟨found, hfound, hat⟩
    cases found with
    | table origin' inner => exact ⟨origin', inner, hfound, at?_singleton.symm.trans hat⟩
    | value => cases hat
    | elements => cases hat
  · rintro ⟨origin', inner, hfound, hlookup⟩
    exact ⟨_, hfound, at?_singleton.trans hlookup⟩

/-- A path is followed part by part. -/
theorem at?_append : at? (p ++ q) item = (at? p item).bind (at? q) := by
  induction p generalizing item with
  | nil => rfl
  | cons name p ih =>
      cases item with
      | table origin items =>
          rw [List.cons_append, at?_cons, at?_cons, Option.bind_assoc]
          exact congrArg _ (funext fun inner => ih)
      | value => rfl
      | elements => rfl

/-- The table that items make up holds what the items stand for. -/
theorem lookup_toTable (items : Items) (name : String) :
    (toTable items).lookup name = (items.lookup name).map toValue := by
  induction items with
  | nil => rfl
  | cons e items ih =>
      rw [toTable, List.lookup_cons, List.lookup_cons, ih]
      split
      · rfl
      · rfl

theorem lookup_set_self (items : Items) (name : String) (item : Item) :
    (set items name item).lookup name = some item := by
  unfold set
  split
  · rename_i hfound
    induction items with
    | nil => cases hfound
    | cons e items ih =>
        rw [List.map_cons]
        by_cases heq : e.1 = name
        · rw [if_pos (beq_iff_eq.mpr heq), List.lookup_cons_self]
        · have hne : (name == e.1) = false := beq_eq_false_iff_ne.mpr (Ne.symm heq)
          rw [if_neg (by rwa [beq_iff_eq]), List.lookup_cons, hne]
          rw [List.lookup_cons, hne] at hfound
          exact ih hfound
  · rename_i hnew
    rw [List.lookup_append, Option.not_isSome_iff_eq_none.mp hnew]
    simp

/-- Other names are left alone. -/
theorem lookup_set_of_ne {other : String} (h : other ≠ name) (items : Items) (item : Item) :
    (set items name item).lookup other = items.lookup other := by
  have hne : (other == name) = false := beq_eq_false_iff_ne.mpr h
  unfold set
  split
  · rename_i hfound
    clear hfound
    induction items with
    | nil => rfl
    | cons e items ih =>
        rw [List.map_cons, List.lookup_cons, List.lookup_cons, ih]
        by_cases heq : e.1 = name
        · rw [if_pos (beq_iff_eq.mpr heq), heq, hne]
        · rw [if_neg (by rwa [beq_iff_eq])]
  · rw [List.lookup_append, List.lookup_cons, hne]
    simp

/-! ## What persists -/

/-- Does everything stay that stands somewhere in an item, up to what is added to tables? -/
def Grows (old new : Item) : Prop :=
  ∀ p item, at? p old = some item → ∃ item', at? p new = some item' ∧ SameKind item item'

/-- Every item is of its own kind. -/
theorem SameKind.refl (item : Item) : SameKind item item := by
  cases item <;> constructor

theorem SameKind.trans {third : Item} (h : SameKind item item') (h' : SameKind item' third) :
    SameKind item third := by
  cases h <;> cases h' <;> constructor

/-- An item that is left alone has grown. -/
theorem Grows.refl (item : Item) : Grows item item := fun _ found h => ⟨found, h, .refl found⟩

/-- What grows twice has grown. -/
theorem Grows.trans {third : Item} (h : Grows old new) (h' : Grows new third) : Grows old third := by
  intro p item hitem
  obtain ⟨item', hitem', hkind⟩ := h p item hitem
  obtain ⟨found, hfound, hkind'⟩ := h' p item' hitem'
  exact ⟨found, hfound, hkind.trans hkind'⟩

/-- An array of tables grows, whatever its elements become. -/
theorem grows_elements (last last' : Items) (before before' : List Items) :
    Grows (.elements last before) (.elements last' before') := by
  intro p item h
  cases p with
  | nil =>
      cases h
      exact ⟨_, rfl, .elements ..⟩
  | cons => cases h

/-- A table grows where a name gets something that has grown, or stood for nothing. -/
theorem grows_set (h : ∀ old, items.lookup name = some old → Grows old new) (origin origin' : Origin) :
    Grows (.table origin items) (.table origin' (set items name new)) := by
  intro p item hitem
  cases p with
  | nil =>
      cases hitem
      exact ⟨_, rfl, .table ..⟩
  | cons first p =>
      obtain ⟨found, hfound, hitem⟩ := Option.bind_eq_some_iff.mp hitem
      by_cases heq : first = name
      · subst heq
        obtain ⟨item', hitem', hkind⟩ := h found hfound p item hitem
        exact ⟨item', by rw [at?_cons, lookup_set_self]; exact hitem', hkind⟩
      · refine ⟨item, ?_, .refl item⟩
        rw [at?_cons, lookup_set_of_ne heq, hfound]
        exact hitem

/-- A table grows when one inside it does. -/
theorem grows_changeAt {change : Origin → Items → Option Items}
    (hchange : ∀ origin items items', change origin items = some items' →
      Grows (.table origin items) (.table origin items'))
    (h : changeAt made change path origin items = some items') :
    Grows (.table origin items) (.table origin items') := by
  induction path generalizing origin items items' with
  | nil => exact hchange _ _ _ h
  | cons name path ih =>
      obtain ⟨new, henters, rfl⟩ := changeAt_cons_eq_some_iff.mp h
      refine grows_set (fun old hold => ?_) _ _
      rw [hold] at henters
      cases henters with
      | elements => exact grows_elements _ _ _ _
      | table _ hinner => exact ih hinner

/-- A table grows by a heading inside it. -/
theorem grows_openTable (h : openTable name origin items = some items') :
    Grows (.table origin items) (.table origin items') := by
  unfold openTable at h
  split at h
  · rename_i hnew
    cases h
    exact grows_set (fun old hold => by rw [hnew] at hold; cases hold) _ _
  · rename_i inner hfound
    cases h
    refine grows_set (fun old hold => ?_) _ _
    cases hfound.symm.trans hold
    intro p item hitem
    cases p with
    | nil =>
        cases hitem
        exact ⟨_, rfl, .table ..⟩
    | cons => exact ⟨item, hitem, .refl item⟩
  · cases h

/-- A table grows by a further element inside it. -/
theorem grows_openElement (h : openElement name origin items = some items') :
    Grows (.table origin items) (.table origin items') := by
  unfold openElement at h
  split at h
  · rename_i hnew
    cases h
    exact grows_set (fun old hold => by rw [hnew] at hold; cases hold) _ _
  · rename_i hfound
    cases h
    refine grows_set (fun old hold => ?_) _ _
    cases hfound.symm.trans hold
    exact grows_elements _ _ _ _
  · cases h

/-- A value is put under a new name only, and by dotted keys only where these made the table. -/
theorem assign_eq_some_iff {isDotted : Bool} {v : Value} :
    assign isDotted name v origin items = some items' ↔
  (origin = .dotted ↔ isDotted = true) ∧ items.lookup name = none ∧
        items' = set items name (.value v) := by
  unfold assign
  rw [Option.ite_none_left_eq_some, Bool.or_eq_true, not_or, Option.not_isSome_iff_eq_none,
    Bool.not_eq_true, bne_eq_false_iff_eq, Option.some.injEq, eq_comm (a := items'), Bool.eq_iff_iff,
    beq_iff_eq, and_assoc]

/-- A table grows by a value. -/
theorem grows_assign {isDotted : Bool} {v : Value} (h : assign isDotted name v origin items = some items') :
    Grows (.table origin items) (.table origin items') := by
  obtain ⟨_, hnew, rfl⟩ := assign_eq_some_iff.mp h
  exact grows_set (fun old hold => by rw [hnew] at hold; cases hold) _ _

/-- A table grows when the one around the end of a key does. -/
theorem grows_changeParent {change : String → Origin → Items → Option Items}
    (hchange : ∀ name origin items items', change name origin items = some items' →
      Grows (.table origin items) (.table origin items'))
    (h : changeParent made change key origin items = some items') :
    Grows (.table origin items) (.table origin items') := by
  obtain ⟨name, _, h⟩ := Option.bind_eq_some_iff.mp h
  exact grows_changeAt (hchange name) h

/-- The change that a statement makes. -/
def changeBy : Key × Statement → Items → Option Items
  | (path, .assignment key v), items =>
      changeAt .implied (changeParent .dotted (assign (1 < key.length) · v) key) path .heading items
  | (_, .table key), items => changeParent .implied openTable key .heading items
  | (_, .element key), items => changeParent .implied openElement key .heading items

/-- A document is followed statement by statement. -/
theorem follow?_eq {statements : List Statement} :
    follow? statements path items = (placed path statements).foldlM (fun items s => changeBy s items) items := by
  induction statements generalizing path items with
  | nil => rfl
  | cons statement statements ih =>
      cases statement with
      | assignment key v =>
          rw [follow?, placed, List.foldlM_cons]
          exact congrArg _ (funext fun next => ih)
      | table key =>
          rw [follow?, placed, List.foldlM_cons]
          exact congrArg _ (funext fun next => ih)
      | element key =>
          rw [follow?, placed, List.foldlM_cons]
          exact congrArg _ (funext fun next => ih)

/-- A document grows by each of its statements. -/
theorem grows_changeBy {s : Key × Statement} (h : changeBy s items = some items') :
    Grows (.table .heading items) (.table .heading items') := by
  obtain ⟨path, statement⟩ := s
  cases statement with
  | assignment key v =>
      exact grows_changeAt (fun _ _ _ => grows_changeParent fun _ _ _ _ => grows_assign) h
  | table key => exact grows_changeParent (fun _ _ _ _ => grows_openTable) h
  | element key => exact grows_changeParent (fun _ _ _ _ => grows_openElement) h

/-! ## What arrives -/

/-- Does an array of tables stand on the way, in front of the last part? -/
def MeetsArray (p : Key) (item : Item) : Prop :=
  ∃ q last before, q ≠ [] ∧ q <+: p ∧ q ≠ p ∧ at? q item = some (.elements last before)

/-- In front of a single name nothing stands. -/
theorem not_meetsArray_singleton : ¬ MeetsArray [name] item := by
  rintro ⟨q, last, before, hne, hbegins, hproper, _⟩
  rcases List.prefix_cons_iff.mp hbegins with rfl | ⟨more, rfl, hmore⟩
  · exact hne rfl
  · rw [List.prefix_nil] at hmore
    exact hproper (congrArg _ hmore)

/-- A path meets an array where its end does. -/
theorem MeetsArray.prepend (h : MeetsArray q new) (hat : at? p item = some new) :
    MeetsArray (p ++ q) item := by
  obtain ⟨front, last, before, hne, hbegins, hproper, hfront⟩ := h
  refine ⟨p ++ front, last, before, List.append_ne_nil_of_right_ne_nil p hne,
    (List.prefix_append_right_inj p).mpr hbegins, fun heq => hproper (List.append_cancel_left heq), ?_⟩
  rw [at?_append, hat]
  exact hfront

/-- A longer path meets the same arrays. -/
theorem MeetsArray.append (h : MeetsArray p item) (q : Key) : MeetsArray (p ++ q) item := by
  obtain ⟨front, last, before, hne, hbegins, hproper, hat⟩ := h
  refine ⟨front, last, before, hne, hbegins.trans (List.prefix_append p q), ?_, hat⟩
  rintro rfl
  exact hproper (hbegins.eq_of_length_le (List.prefix_append p q).length_le)

/-- Arrays stay where they are. -/
theorem MeetsArray.grows (h : MeetsArray p old) (hgrows : Grows old new) : MeetsArray p new := by
  obtain ⟨q, last, before, hne, hbegins, hproper, hat⟩ := h
  obtain ⟨item', hat', hkind⟩ := hgrows q _ hat
  cases hkind
  exact ⟨q, _, _, hne, hbegins, hproper, hat'⟩

/-- A change at the end of a path is found there, unless an array of tables stands on the way. -/
theorem exists_at?_of_changeAt {change : Origin → Items → Option Items}
    (h : changeAt made change path origin items = some items') (outer : Origin) :
    (∀ q, q ≠ [] → MeetsArray (path ++ q) (.table outer items')) ∨ ∃ origin inner inner' origin',
      change origin inner = some inner' ∧ at? path (.table outer items') = some (.table origin' inner') := by
  induction path generalizing origin items items' outer with
  | nil => exact Or.inr ⟨origin, items, items', outer, h, rfl⟩
  | cons name path ih =>
      obtain ⟨new, henters, rfl⟩ := changeAt_cons_eq_some_iff.mp h
      have hfirst : at? [name] (.table outer (set items name new)) = some new :=
        at?_singleton.trans (lookup_set_self _ _ _)
      have hinside : ∀ {origin' : Origin} {inner' : Items}, new = .table origin' inner' →
          ∀ {origin inner}, changeAt made change path origin inner = some inner' →
          (∀ q, q ≠ [] → MeetsArray (name :: path ++ q) (.table outer (set items name new))) ∨
            ∃ origin inner inner' origin', change origin inner = some inner' ∧
              at? (name :: path) (.table outer (set items name new)) = some (.table origin' inner') := by
        rintro origin' inner' rfl _ _ hinner
        rcases ih hinner origin' with harray | ⟨o, start, stop, o', hchange, hat⟩
        · exact Or.inl fun q hq => (harray q hq).prepend hfirst
        · refine Or.inr ⟨o, start, stop, o', hchange, ?_⟩
          rw [at?_cons, lookup_set_self]
          exact hat
      generalize items.lookup name = found at henters
      cases henters with
      | made hinner => exact hinside rfl hinner
      | table _ hinner => exact hinside rfl hinner
      | elements =>
          -- the array itself stands on the way, and nothing is followed through it
          refine Or.inl fun q hq => ⟨[name], _, _, List.cons_ne_nil _ _, ?_, ?_, hfirst⟩
          · exact List.cons_prefix_cons.mpr ⟨rfl, List.nil_prefix⟩
          · intro heq
            exact hq (List.append_eq_nil_iff.mp (List.cons.inj heq).2.symm).2

/-- The same of a change that is told the last part of a key. -/
theorem exists_at?_of_changeParent {change : String → Origin → Items → Option Items} {P : Item → Prop}
    (hchange : ∀ name origin items items', change name origin items = some items' →
      ∃ item, items'.lookup name = some item ∧ P item)
    (h : changeParent made change key origin items = some items') (outer : Origin) :
    MeetsArray key (.table outer items') ∨ ∃ item, at? key (.table outer items') = some item ∧ P item := by
  obtain ⟨name, hname, h⟩ := Option.bind_eq_some_iff.mp h
  obtain ⟨front, rfl⟩ := List.getLast?_eq_some_iff.mp hname
  rw [List.dropLast_concat] at h
  rcases exists_at?_of_changeAt h outer with harray | ⟨o, inner, inner', o', hinner, hat⟩
  · exact Or.inl (harray [name] (List.cons_ne_nil _ _))
  · obtain ⟨item, hitem, hP⟩ := hchange name _ _ _ hinner
    refine Or.inr ⟨item, ?_, hP⟩
    rw [at?_append, hat, Option.bind_some, at?_cons, hitem]
    rfl

/-- What a statement says of what stands at its key. -/
inductive Says : Statement → Item → Prop where
  | value (key : Key) (v : Value) : Says (.assignment key v) (.value v)
  | table (key : Key) (origin : Origin) (items : Items) : Says (.table key) (.table origin items)
  | elements (key : Key) (last : Items) (before : List Items) :
      Says (.element key) (.elements last before)

/-- What a statement says does not depend on the origin of tables. -/
theorem Says.sameKind {statement : Statement} (h : Says statement item) (hkind : SameKind item item') :
    Says statement item' := by
  cases h <;> cases hkind <;> constructor

/-- Does what a statement says stand at its key, or an array of tables on the way? -/
def Holds (s : Key × Statement) (items : Items) : Prop :=
  MeetsArray (target s) (.table .heading items) ∨
    ∃ item, at? (target s) (.table .heading items) = some item ∧ Says s.2 item

/-- What a document holds it still holds when it has grown. -/
theorem Holds.grows {s : Key × Statement} (h : Holds s items)
    (hgrows : Grows (.table .heading items) (.table .heading items')) : Holds s items' := by
  rcases h with harray | ⟨item, hat, hsays⟩
  · exact Or.inl (harray.grows hgrows)
  · obtain ⟨item', hat', hkind⟩ := hgrows _ _ hat
    exact Or.inr ⟨item', hat', hsays.sameKind hkind⟩

/-- Where something stands at a path, something stands at each path in front of it. -/
theorem exists_at?_of_begins (h : at? p item = some new) (hbegins : q <+: p) :
    ∃ found, at? q item = some found := by
  obtain ⟨more, rfl⟩ := hbegins
  rw [at?_append] at h
  obtain ⟨found, hfound, _⟩ := Option.bind_eq_some_iff.mp h
  exact ⟨found, hfound⟩

/-- Something stands also on the way to the key of a statement. -/
theorem Holds.exists_at? {s : Key × Statement} (h : Holds s items) (hp : p <+: target s) :
    MeetsArray p (.table .heading items) ∨ ∃ item, at? p (.table .heading items) = some item := by
  rcases h with ⟨q, last, before, hne, hbegins, hproper, hat⟩ | ⟨item, hat, _⟩
  · rcases List.prefix_or_prefix_of_prefix hbegins hp with hqp | hpq
    · by_cases heq : q = p
      · exact Or.inr ⟨_, heq ▸ hat⟩
      · exact Or.inl ⟨q, last, before, hne, hqp, heq, hat⟩
    · exact Or.inr (exists_at?_of_begins hat hpq)
  · exact Or.inr (exists_at?_of_begins hat hp)

/-- A document holds what the statement says by which it has been changed. -/
theorem holds_of_changeBy {s : Key × Statement} (h : changeBy s items = some items')
    (hkey : s.2.key ≠ []) : Holds s items' := by
  obtain ⟨path, statement⟩ := s
  cases statement with
  | assignment key v =>
      rcases exists_at?_of_changeAt h .heading with harray | ⟨o, inner, inner', o', hinner, hat⟩
      · exact Or.inl (harray key hkey)
      · have hassign : ∀ name origin items items',
            assign (decide (1 < key.length)) name v origin items = some items' →
              ∃ item, items'.lookup name = some item ∧ Says (.assignment key v) item := by
          intro name origin items items' hassign
          obtain ⟨_, _, rfl⟩ := assign_eq_some_iff.mp hassign
          exact ⟨_, lookup_set_self _ _ _, .value key v⟩
        rcases exists_at?_of_changeParent hassign hinner o' with harray | ⟨item, hitem, hsays⟩
        · exact Or.inl (harray.prepend hat)
        · refine Or.inr ⟨item, ?_, hsays⟩
          rw [target, at?_append, hat]
          exact hitem
  | table key =>
      refine exists_at?_of_changeParent ?_ h .heading
      intro name origin items items' hopen
      unfold openTable at hopen
      split at hopen
      · cases hopen
        exact ⟨_, lookup_set_self _ _ _, .table ..⟩
      · cases hopen
        exact ⟨_, lookup_set_self _ _ _, .table ..⟩
      · cases hopen
  | element key =>
      refine exists_at?_of_changeParent ?_ h .heading
      intro name origin items items' hopen
      unfold openElement at hopen
      split at hopen
      · cases hopen
        exact ⟨_, lookup_set_self _ _ _, .elements ..⟩
      · cases hopen
        exact ⟨_, lookup_set_self _ _ _, .elements ..⟩
      · cases hopen

/-- What each statement says stands in the document, unless an array of tables stands on the way. -/
theorem holds_of_follow? {statements : List Statement}
    (h : follow? statements path items = some items') (hkeys : ∀ s ∈ statements, s.key ≠ [])
    {s : Key × Statement} (hs : s ∈ placed path statements) : Holds s items' := by
  rw [follow?_eq] at h
  have hplaced : ∀ s ∈ placed path statements, s.2.key ≠ [] := fun s hs => hkeys _ (mem_of_mem_placed hs)
  -- what one statement has left stays, as the further ones only let the document grow
  suffices hall : ∀ {all : List (Key × Statement)} {items : Items}, (∀ s ∈ all, s.2.key ≠ []) →
      all.foldlM (fun items s => changeBy s items) items = some items' →
        Grows (.table .heading items) (.table .heading items') ∧ ∀ s ∈ all, Holds s items' from
    (hall hplaced h).2 s hs
  intro all
  induction all with
  | nil =>
      intro items _ hfold
      cases hfold
      exact ⟨.refl _, nofun⟩
  | cons s all ih =>
      intro items hkeys hfold
      obtain ⟨hkey, hkeys⟩ := List.forall_mem_cons.mp hkeys
      obtain ⟨next, hnext, hfold⟩ := Option.bind_eq_some_iff.mp hfold
      obtain ⟨hgrows, hholds⟩ := ih hkeys hfold
      exact ⟨(grows_changeBy hnext).trans hgrows,
        List.forall_mem_cons.mpr ⟨(holds_of_changeBy hnext hkey).grows hgrows, hholds⟩⟩

/-! ## Where everything comes from -/

/-- Every item is like itself. -/
theorem Like.refl (item : Item) : Like item item := by
  cases item <;> constructor

/-- A change at the end of a path adds what it adds there, and tables on the way. -/
theorem of_changeAt {change : Origin → Items → Option Items} {P : Key → Item → Prop}
    (hchange : ∀ origin items items', change origin items = some items' → ∀ q item, q ≠ [] →
      at? q (.table origin items') = some item →
        (∃ old, at? q (.table origin items) = some old ∧ Like old item) ∨ P q item)
    (h : changeAt made change path origin items = some items') (hp : p ≠ [])
    (hat : at? p (.table origin items') = some item) :
    (∃ old, at? p (.table origin items) = some old ∧ Like old item) ∨
      (p <+: path ∧ ∃ inner, item = .table made inner) ∨ ∃ q, p = path ++ q ∧ P q item := by
  induction path generalizing p origin items items' with
  | nil =>
      rcases hchange _ _ _ h p item hp hat with hold | hnew
      · exact Or.inl hold
      · exact Or.inr (Or.inr ⟨p, rfl, hnew⟩)
  | cons name path ih =>
      obtain ⟨first, p, rfl⟩ := List.exists_cons_of_ne_nil hp
      obtain ⟨new, henters, rfl⟩ := changeAt_cons_eq_some_iff.mp h
      by_cases hname : first = name
      · subst hname
        rw [at?_cons, lookup_set_self, Option.bind_some] at hat
        rw [at?_cons]
        generalize items.lookup first = found at henters
        -- What stands at the name itself is new, or what stood there; behind it the same holds of the rest.
        by_cases hp : p = []
        · subst hp
          cases hat
          cases henters with
          | made => exact Or.inr (Or.inl ⟨List.cons_prefix_cons.mpr ⟨rfl, List.nil_prefix⟩, _, rfl⟩)
          | elements => exact Or.inl ⟨_, rfl, .elements ..⟩
          | table => exact Or.inl ⟨_, rfl, .table ..⟩
        · cases henters with
          | made hinner =>
              rcases ih hinner hp hat with ⟨old, hold, _⟩ | ⟨hbegins, hmade⟩ | ⟨q, rfl, hnew⟩
              · obtain ⟨next, p, rfl⟩ := List.exists_cons_of_ne_nil hp
                cases hold
              · exact Or.inr (Or.inl ⟨List.cons_prefix_cons.mpr ⟨rfl, hbegins⟩, hmade⟩)
              · exact Or.inr (Or.inr ⟨q, rfl, hnew⟩)
          | elements =>
              obtain ⟨next, p, rfl⟩ := List.exists_cons_of_ne_nil hp
              cases hat
          | table _ hinner =>
              rcases ih hinner hp hat with hold | ⟨hbegins, hmade⟩ | ⟨q, rfl, hnew⟩
              · exact Or.inl hold
              · exact Or.inr (Or.inl ⟨List.cons_prefix_cons.mpr ⟨rfl, hbegins⟩, hmade⟩)
              · exact Or.inr (Or.inr ⟨q, rfl, hnew⟩)
      · rw [at?_cons, lookup_set_of_ne hname] at hat
        exact Or.inl ⟨item, hat, .refl item⟩

/-- The same where one name is set. -/
theorem of_set {P : Item → Prop}
    (hnew : ∀ p item, at? p new = some item → (∃ old, items.lookup name = some old ∧
      ∃ found, at? p old = some found ∧ Like found item) ∨ (p = [] ∧ P item))
    (hp : p ≠ []) (hat : at? p (.table origin (set items name new)) = some item) :
    (∃ old, at? p (.table origin items) = some old ∧ Like old item) ∨ (p = [name] ∧ P item) := by
  obtain ⟨first, p, rfl⟩ := List.exists_cons_of_ne_nil hp
  by_cases hname : first = name
  · subst hname
    rw [at?_cons, lookup_set_self] at hat
    rcases hnew p item hat with ⟨old, hold, found, hfound, hlike⟩ | ⟨rfl, hnew⟩
    · refine Or.inl ⟨found, ?_, hlike⟩
      rw [at?_cons, hold]
      exact hfound
    · exact Or.inr ⟨rfl, hnew⟩
  · rw [at?_cons, lookup_set_of_ne hname] at hat
    exact Or.inl ⟨item, hat, .refl item⟩

/-- Behind an assignment stands what stood there, or the value. -/
theorem of_assign {isDotted : Bool} {v : Value} (h : assign isDotted name v origin items = some items')
    (hp : p ≠ []) (hat : at? p (.table origin items') = some item) :
    (∃ old, at? p (.table origin items) = some old ∧ Like old item) ∨ (p = [name] ∧ item = .value v) := by
  obtain ⟨_, _, rfl⟩ := assign_eq_some_iff.mp h
  refine of_set (P := (· = .value v)) (fun p item hitem => Or.inr ?_) hp hat
  cases p with
  | nil =>
      cases hitem
      exact ⟨rfl, rfl⟩
  | cons => cases hitem

/-- Behind a heading stands what stood there, or the table with this heading. -/
theorem of_openTable (h : openTable name origin items = some items') (hp : p ≠ [])
    (hat : at? p (.table origin items') = some item) :
    (∃ old, at? p (.table origin items) = some old ∧ Like old item) ∨
      (p = [name] ∧ ∃ inner, item = .table .heading inner) := by
  unfold openTable at h
  split at h
  · cases h
    refine of_set (P := (∃ inner, · = .table .heading inner)) (fun p item hitem => Or.inr ?_) hp hat
    cases p with
    | nil =>
        cases hitem
        exact ⟨rfl, [], rfl⟩
    | cons => cases hitem
  · rename_i inner hfound
    cases h
    refine of_set (P := (∃ inner, · = .table .heading inner)) (fun p item hitem => ?_) hp hat
    cases p with
    | nil =>
        cases hitem
        exact Or.inr ⟨rfl, inner, rfl⟩
    | cons => exact Or.inl ⟨_, hfound, item, hitem, .refl item⟩
  · cases h

/-- Behind the heading of an element stands what stood there, or the array. -/
theorem of_openElement (h : openElement name origin items = some items') (hp : p ≠ [])
    (hat : at? p (.table origin items') = some item) :
    (∃ old, at? p (.table origin items) = some old ∧ Like old item) ∨
      (p = [name] ∧ ∃ last before, item = .elements last before) := by
  unfold openElement at h
  split at h
  · cases h
    refine of_set (P := (∃ last before, · = .elements last before)) (fun p item hitem => Or.inr ?_) hp hat
    cases p with
    | nil =>
        cases hitem
        exact ⟨rfl, [], [], rfl⟩
    | cons => cases hitem
  · cases h
    refine of_set (P := (∃ last before, · = .elements last before)) (fun p item hitem => Or.inr ?_) hp hat
    cases p with
    | nil =>
        cases hitem
        exact ⟨rfl, [], _, rfl⟩
    | cons => cases hitem
  · cases h

theorem of_changeParent {change : String → Origin → Items → Option Items} {P : Item → Prop}
    (hchange : ∀ name origin items items', change name origin items = some items' → ∀ p item, p ≠ [] →
      at? p (.table origin items') = some item →
        (∃ old, at? p (.table origin items) = some old ∧ Like old item) ∨ (p = [name] ∧ P item))
    (h : changeParent made change key origin items = some items') (hp : p ≠ [])
    (hat : at? p (.table origin items') = some item) :
    (∃ old, at? p (.table origin items) = some old ∧ Like old item) ∨
      (p <+: key ∧ p ≠ key ∧ ∃ inner, item = .table made inner) ∨ (p = key ∧ P item) := by
  obtain ⟨name, hname, h⟩ := Option.bind_eq_some_iff.mp h
  obtain ⟨front, rfl⟩ := List.getLast?_eq_some_iff.mp hname
  rw [List.dropLast_concat] at h
  rcases of_changeAt (P := fun q item => q = [name] ∧ P item) (hchange name) h hp hat with
    hold | ⟨hbegins, hmade⟩ | ⟨q, rfl, rfl, hnew⟩
  · exact Or.inl hold
  · refine Or.inr (Or.inl ⟨hbegins.trans (List.prefix_append _ _), ?_, hmade⟩)
    rintro rfl
    have hlength := hbegins.length_le
    rw [List.length_append, List.length_singleton] at hlength
    omega
  · exact Or.inr (Or.inr ⟨rfl, hnew⟩)

/-- What a statement under a heading can make. -/
inductive Makes : Key × Statement → Key → Item → Prop where
  | value (path key : Key) (v : Value) : Makes (path, .assignment key v) (path ++ key) (.value v)
  | dotted {path key front : Key} {v : Value} {inner : Items} (hne : front ≠ [])
      (hbegins : front <+: key) (hfront : front ≠ key) :
      Makes (path, .assignment key v) (path ++ front) (.table .dotted inner)
  | around {path key p : Key} {v : Value} {inner : Items} (hbegins : p <+: path) :
      Makes (path, .assignment key v) p (.table .implied inner)
  | heading (path key : Key) (inner : Items) : Makes (path, .table key) key (.table .heading inner)
  | aroundHeading {path key p : Key} {inner : Items} (hbegins : p <+: key) (hp : p ≠ key) :
      Makes (path, .table key) p (.table .implied inner)
  | elements (path key : Key) (last : Items) (before : List Items) :
      Makes (path, .element key) key (.elements last before)
  | aroundElements {path key p : Key} {inner : Items} (hbegins : p <+: key) (hp : p ≠ key) :
      Makes (path, .element key) p (.table .implied inner)

/-- What a statement makes lies on the way to its target. -/
theorem Makes.prefix_target {s : Key × Statement} (h : Makes s p item) : p <+: target s := by
  cases h with
  | value => exact List.prefix_refl _
  | dotted _ hbegins => exact (List.prefix_append_right_inj _).mpr hbegins
  | around hbegins => exact hbegins.trans (List.prefix_append _ _)
  | heading => exact List.prefix_refl _
  | aroundHeading hbegins => exact hbegins
  | elements => exact List.prefix_refl _
  | aroundElements hbegins => exact hbegins

/-- A statement makes the same where only the origin of a table differs. -/
theorem Makes.like {s : Key × Statement} (h : Makes s p item) (hlike : Like item item') :
    Makes s p item' := by
  cases hlike with
  | value => exact h
  | table origin inner inner' =>
      cases h with
      | dotted hne hbegins hfront => exact .dotted hne hbegins hfront
      | around hbegins => exact .around hbegins
      | heading => exact .heading _ _ _
      | aroundHeading hbegins hp => exact .aroundHeading hbegins hp
      | aroundElements hbegins hp => exact .aroundElements hbegins hp
  | elements =>
      cases h
      exact .elements _ _ _ _

/-- Behind a statement stands what stood there, or what the statement makes. -/
theorem makes_of_changeBy {s : Key × Statement} (h : changeBy s items = some items') (hp : p ≠ [])
    (hat : at? p (.table .heading items') = some item) :
    (∃ old, at? p (.table .heading items) = some old ∧ Like old item) ∨ Makes s p item := by
  obtain ⟨path, statement⟩ := s
  cases statement with
  | assignment key v =>
      have hparent : ∀ origin items items',
          changeParent .dotted (assign (decide (1 < key.length)) · v) key origin items = some items' →
          ∀ q item, q ≠ [] → at? q (.table origin items') = some item →
            (∃ old, at? q (.table origin items) = some old ∧ Like old item) ∨
              Makes (path, .assignment key v) (path ++ q) item := by
        intro origin items items' hchange q item hq hitem
        rcases of_changeParent (fun _ _ _ _ hassign _ _ => of_assign hassign) hchange hq hitem with
          hold | ⟨hbegins, hfront, inner, rfl⟩ | ⟨rfl, rfl⟩
        · exact Or.inl hold
        · exact Or.inr (.dotted hq hbegins hfront)
        · exact Or.inr (.value path q v)
      rcases of_changeAt (P := fun q item => Makes (path, .assignment key v) (path ++ q) item)
        hparent h hp hat with hold | ⟨hbegins, inner, rfl⟩ | ⟨q, rfl, hmakes⟩
      · exact Or.inl hold
      · exact Or.inr (.around hbegins)
      · exact Or.inr hmakes
  | table key =>
      rcases of_changeParent (fun _ _ _ _ hopen _ _ => of_openTable hopen) h hp hat with
        hold | ⟨hbegins, hne, inner, rfl⟩ | ⟨rfl, inner, rfl⟩
      · exact Or.inl hold
      · exact Or.inr (.aroundHeading hbegins hne)
      · exact Or.inr (.heading _ _ _)
  | element key =>
      rcases of_changeParent (fun _ _ _ _ hopen _ _ => of_openElement hopen) h hp hat with
        hold | ⟨hbegins, hne, inner, rfl⟩ | ⟨rfl, last, before, rfl⟩
      · exact Or.inl hold
      · exact Or.inr (.aroundElements hbegins hne)
      · exact Or.inr (.elements _ _ _ _)

/-- What the statements make that have been followed so far is all that there is. -/
def IsMadeBy (statements : List (Key × Statement)) (items : Items) : Prop :=
  ∀ p item, p ≠ [] → at? p (.table .heading items) = some item → ∃ s ∈ statements, Makes s p item

/-- What is made by statements and a further one is made by all of them. -/
theorem IsMadeBy.changeBy {statements : List (Key × Statement)} {s : Key × Statement}
    (h : IsMadeBy statements items) (hchange : changeBy s items = some items') :
    IsMadeBy (statements ++ [s]) items' := by
  intro p item hp hat
  rcases makes_of_changeBy hchange hp hat with ⟨old, hold, hlike⟩ | hmakes
  · obtain ⟨earlier, hearlier, hmakes⟩ := h p old hp hold
    exact ⟨earlier, List.mem_append_left _ hearlier, hmakes.like hlike⟩
  · exact ⟨s, List.mem_append_right _ List.mem_cons_self, hmakes⟩

theorem isMadeBy_nil : IsMadeBy [] [] := by
  intro p item hp hat
  obtain ⟨name, p, rfl⟩ := List.exists_cons_of_ne_nil hp
  cases hat

/-- All that stands in a document is made by one of its statements. -/
theorem isMadeBy_of_follow? {statements : List Statement} (h : follow? statements [] [] = some items) :
    IsMadeBy (placed [] statements) items := by
  rw [follow?_eq] at h
  -- the invariant speaks of the statements that have been followed
  suffices hall : ∀ {before after : List (Key × Statement)} {start : Items}, IsMadeBy before start →
      after.foldlM (fun items s => Item.changeBy s items) start = some items →
        IsMadeBy (before ++ after) items from hall isMadeBy_nil h
  intro before after
  induction after generalizing before with
  | nil =>
      intro start hmade hfold
      cases hfold
      rwa [List.append_nil]
  | cons s after ih =>
      intro start hmade hfold
      obtain ⟨next, hnext, hfold⟩ := Option.bind_eq_some_iff.mp hfold
      have hall := ih (hmade.changeBy hnext) hfold
      rwa [List.append_assoc] at hall

end Item

end OperatorBundle.Toml
