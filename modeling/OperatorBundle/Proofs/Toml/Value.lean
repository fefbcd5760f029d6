import OperatorBundle.Proofs.Toml.Names
import OperatorBundle.Proofs.Toml.Number

/-!
# Readers of values

All that the grammar says of a value is read where the value ends, with a fuel that is twice as long as
the text.
-/

namespace OperatorBundle.Toml

open Grammar Text

/-! ## Inline tables -/

namespace InlineEntry

variable {name : String} {key : Key} {v w : Value} {entry : InlineEntry} {es : List (Key × Value)}
  {before after inner : List (String × InlineEntry)}

/-- Puts values under their keys, one after the other. -/
def insertAll (es : List (Key × Value)) (read : List (String × InlineEntry)) :
    Option (List (String × InlineEntry)) :=
  es.foldlM (fun read e => insert e.1 e.2 read) read

theorem insertAll_cons : insertAll ((key, v) :: es) before =
    (insert key v before).bind (insertAll es) := rfl

/-- Under a key of one part a value is put under a new name only. -/
theorem insert_singleton : insert [name] v before =
    if (before.lookup name).isSome then none else some (before ++ [(name, .value v)]) := by
  rw [insert]

/-- Under a longer key a value goes into the entry under the first name. -/
theorem insert_cons (next : String) : insert (name :: next :: key) v before =
    match before.lookup name with
    | none => (insert (next :: key) v []).map fun inner => before ++ [(name, .dotted inner)]
    | some (.dotted inner) => (insert (next :: key) v inner).map fun inner =>
        before.map fun e => if e.1 == name then (name, .dotted inner) else e
    | some (.value _) => none := by
  rw [insert]
  · simp only [Option.map_eq_bind]
    rfl
  · simp

/-- Where a name is missing, nothing is replaced. -/
theorem map_replace_of_not_mem (h : before.lookup name = none) :
    (before.map fun e => if e.1 == name then (name, entry) else e) = before := by
  have hnames := lookup_eq_none_iff.mp h
  refine (List.map_congr_left fun e he => if_neg ?_).trans (List.map_id before)
  rw [beq_iff_eq]
  rintro rfl
  exact hnames (List.mem_map_of_mem he)

/-- Under a key with another name in front an entry is left alone. -/
theorem insert_cons_of_ne (h : key.head? ≠ some name) :
    insert key v ((name, entry) :: before) = (insert key v before).map ((name, entry) :: ·) := by
  cases key with
  | nil => rfl
  | cons first key =>
      have hne : (first == name) = false := beq_eq_false_iff_ne.mpr fun heq => h (congrArg some heq)
      have hback : (name == first) = false := by rw [BEq.comm]; exact hne
      have hlookup : List.lookup first ((name, entry) :: before) = before.lookup first := by
        rw [List.lookup_cons, hne]
      cases key with
      | nil =>
          rw [insert_singleton, insert_singleton, hlookup]
          split <;> rfl
      | cons next key =>
          rw [insert_cons, insert_cons, hlookup]
          split
          · cases insert (next :: key) v [] <;> rfl
          · rename_i inner _
            cases insert (next :: key) v inner with
            | none => rfl
            | some grown =>
                simp only [Option.map_some, List.map_cons, hback]
                rfl
          · rfl

/-- Under a longer key with its name in front an entry grows that can do so. -/
theorem insert_cons_self (hnew : before.lookup name = none) :
    insert (name :: key) v ((name, .dotted inner) :: before) =
      (insert key v inner).map fun grown => (name, .dotted grown) :: before := by
  cases key with
  | nil =>
      rw [insert_singleton, List.lookup_cons_self]
      rfl
  | cons next key =>
      rw [insert_cons, List.lookup_cons_self]
      simp only [List.map_cons, beq_self_eq_true, if_true, map_replace_of_not_mem hnew]

/-- Under a key with its name in front a value cannot grow. -/
theorem insert_cons_value : insert (name :: key) v ((name, .value w) :: before) = none := by
  cases key with
  | nil =>
      rw [insert_singleton, List.lookup_cons_self]
      rfl
  | cons next key => rw [insert_cons, List.lookup_cons_self]

/-- Under a key with another name in front a name is not added. -/
theorem lookup_insert_of_ne (h : key.head? ≠ some name) (hinsert : insert key v before = some after)
    (hnew : before.lookup name = none) : after.lookup name = none := by
  rw [lookup_eq_none_iff] at hnew ⊢
  cases key with
  | nil => cases hinsert
  | cons first key =>
      have hne : name ≠ first := fun heq => h (congrArg some heq.symm)
      have hadd : ∀ entry : InlineEntry, name ∉ (before ++ [(first, entry)]).map Prod.fst := by
        intro entry
        rw [List.map_append, List.mem_append, not_or]
        exact ⟨hnew, fun hmem => hne (List.mem_singleton.mp hmem)⟩
      cases key with
      | nil =>
          rw [insert_singleton] at hinsert
          split at hinsert
          · cases hinsert
          · cases hinsert
            exact hadd _
      | cons next key =>
          rw [insert_cons] at hinsert
          split at hinsert
          · obtain ⟨inner, _, rfl⟩ := Option.map_eq_some_iff.mp hinsert
            exact hadd _
          · obtain ⟨inner, _, rfl⟩ := Option.map_eq_some_iff.mp hinsert
            rw [map_fst_replace]
            exact hnew
          · cases hinsert

/-- A key with a name in front, or another key. -/
theorem cases_of_head (name : String) (key : Key) : (∃ rest, key = name :: rest) ∨ key.head? ≠ some name := by
  cases key with
  | nil => exact Or.inr nofun
  | cons first rest =>
      by_cases hname : first = name
      · exact Or.inl ⟨rest, by rw [hname]⟩
      · exact Or.inr fun heq => hname (Option.some.inj heq)

theorem below_cons_self (name : String) (key : Key) (v : Value) (es : List (Key × Value)) :
    below name ((name :: key, v) :: es) = (key, v) :: below name es := by
  simp [below]

theorem beside_cons_self (name : String) (key : Key) (v : Value) (es : List (Key × Value)) :
    beside name ((name :: key, v) :: es) = beside name es := by
  simp [beside]

theorem below_cons_of_ne (h : key.head? ≠ some name) (v : Value) (es : List (Key × Value)) :
    below name ((key, v) :: es) = below name es := by
  cases key with
  | nil => rfl
  | cons first rest =>
      have hne : first ≠ name := fun heq => h (congrArg some heq)
      simp [below, hne]

theorem beside_cons_of_ne (h : key.head? ≠ some name) (v : Value) (es : List (Key × Value)) :
    beside name ((key, v) :: es) = (key, v) :: beside name es := by
  simp [beside, h]

/-- Beside a value stand the entries under keys with other names in front. -/
theorem insertAll_value_iff : insertAll es ((name, .value w) :: before) = some after ↔
    (∀ e ∈ es, e.1.head? ≠ some name) ∧
      ∃ beside, insertAll es before = some beside ∧ after = (name, .value w) :: beside := by
  induction es generalizing before with
  | nil =>
      constructor
      · intro h
        cases h
        exact ⟨nofun, before, rfl, rfl⟩
      · rintro ⟨_, _, h, rfl⟩
        cases h
        rfl
  | cons e es ih =>
      obtain ⟨key, v⟩ := e
      rw [insertAll_cons, insertAll_cons, List.forall_mem_cons]
      rcases cases_of_head name key with ⟨rest, rfl⟩ | hother
      · rw [insert_cons_value]
        exact iff_of_false nofun fun h => h.1.1 rfl
      · rw [insert_cons_of_ne hother, and_iff_right hother]
        cases insert key v before with
        | none => exact iff_of_false nofun fun ⟨_, _, h, _⟩ => nomatch h
        | some next => exact ih

/-- What stands under longer keys with a name in front goes into an entry that can grow, and all else
beside it. -/
theorem insertAll_dotted_iff (hnew : before.lookup name = none) :
    insertAll es ((name, .dotted inner) :: before) = some after ↔
      (∀ e ∈ es, e.1 ≠ [name]) ∧ ∃ grown others, insertAll (below name es) inner = some grown ∧
        insertAll (beside name es) before = some others ∧ after = (name, .dotted grown) :: others := by
  induction es generalizing inner before with
  | nil =>
      constructor
      · intro h
        cases h
        exact ⟨nofun, inner, before, rfl, rfl, rfl⟩
      · rintro ⟨_, _, _, hinner, hbefore, rfl⟩
        cases hinner
        cases hbefore
        rfl
  | cons e es ih =>
      obtain ⟨key, v⟩ := e
      rw [insertAll_cons, List.forall_mem_cons]
      rcases cases_of_head name key with ⟨rest, rfl⟩ | hother
      · rw [insert_cons_self hnew, below_cons_self, beside_cons_self, insertAll_cons]
        cases hgrown : insert rest v inner with
        | none =>
            refine iff_of_false nofun ?_
            rintro ⟨_, _, _, hnone, _⟩
            cases hnone
        | some next =>
            have hlong : name :: rest ≠ [name] := by
              rintro heq
              cases heq
              cases hgrown
            rw [and_iff_right hlong]
            exact ih hnew
      · have hlong : key ≠ [name] := by
          rintro rfl
          exact hother rfl
        rw [insert_cons_of_ne hother, below_cons_of_ne hother, beside_cons_of_ne hother, insertAll_cons,
          and_iff_right hlong]
        cases hnext : insert key v before with
        | none =>
            refine iff_of_false nofun ?_
            rintro ⟨_, _, _, _, hnone, _⟩
            cases hnone
        | some next => exact ih (lookup_insert_of_ne hother hnext hnew)

/-- Under a longer key a first value makes a table of its own. -/
theorem insert_nil (name next : String) (key : Key) (v : Value) :
    insert (name :: next :: key) v [] =
      (insert (next :: key) v []).map fun inner => [(name, .dotted inner)] := by
  rw [insert_cons, List.lookup_nil]
  rfl

/-- Entries that make up a table can all be put under their keys, and give this table. -/
theorem exists_insertAll {table : Table} (h : Collects es table) :
    ∃ entries, insertAll es [] = some entries ∧ toTable entries = table := by
  induction h with
  | none => exact ⟨[], rfl, rfl⟩
  | @value name v es table honce _ ih =>
      obtain ⟨entries, hentries, rfl⟩ := ih
      exact ⟨(name, .value v) :: entries,
        insertAll_value_iff.mpr ⟨honce, entries, hentries, rfl⟩, rfl⟩
  | @table name next key v es inner table honce _ _ ihBelow ihBeside =>
      obtain ⟨grown, hgrown, rfl⟩ := ihBelow
      obtain ⟨entries, hentries, rfl⟩ := ihBeside
      obtain ⟨made, hmade, hgrown⟩ := Option.bind_eq_some_iff.mp hgrown
      refine ⟨(name, .dotted grown) :: entries, ?_, rfl⟩
      rw [insertAll_cons, insert_nil, show insert (next :: key) v [] = some made from hmade]
      exact (insertAll_dotted_iff rfl).mpr ⟨honce, grown, entries, hgrown, hentries, rfl⟩

/-- The number of the parts of all keys, with one more for each key. -/
def parts : List (Key × Value) → Nat
  | [] => 0
  | (key, _) :: es => key.length + 1 + parts es

/-- The keys below a name have no more parts than all keys. -/
theorem parts_below (name : String) (es : List (Key × Value)) : parts (below name es) ≤ parts es := by
  induction es with
  | nil => exact Nat.le_refl _
  | cons e es ih =>
      obtain ⟨key, v⟩ := e
      rcases cases_of_head name key with ⟨rest, rfl⟩ | hother
      · rw [below_cons_self, parts, parts, List.length_cons]
        omega
      · rw [below_cons_of_ne hother, parts]
        omega

/-- The keys beside a name have no more parts than all keys. -/
theorem parts_beside (name : String) (es : List (Key × Value)) : parts (beside name es) ≤ parts es := by
  induction es with
  | nil => exact Nat.le_refl _
  | cons e es ih =>
      obtain ⟨key, v⟩ := e
      rcases cases_of_head name key with ⟨rest, rfl⟩ | hother
      · rw [beside_cons_self, parts]
        omega
      · rw [beside_cons_of_ne hother, parts, parts]
        omega

/-- Entries that can all be put under their keys make up the table that they give. -/
theorem collects_of_insertAll {entries : List (String × InlineEntry)} (h : insertAll es [] = some entries) :
    Collects es (toTable entries) := by
  induction hn : parts es using Nat.strongRecOn generalizing es entries with
  | ind n ih =>
      cases es with
      | nil =>
          cases h
          exact .none
      | cons e es =>
          obtain ⟨key, v⟩ := e
          rw [insertAll_cons] at h
          cases key with
          | nil => cases h
          | cons name key =>
              rw [parts, List.length_cons] at hn
              cases key with
              | nil =>
                  obtain ⟨honce, others, hothers, rfl⟩ := insertAll_value_iff.mp h
                  exact .value honce (ih _ (by omega) hothers rfl)
              | cons next key =>
                  rw [insert_nil] at h
                  obtain ⟨first, hfirst, h⟩ := Option.bind_eq_some_iff.mp h
                  obtain ⟨made, hmade, rfl⟩ := Option.map_eq_some_iff.mp hfirst
                  obtain ⟨honce, grown, others, hgrown, hothers, rfl⟩ := (insertAll_dotted_iff rfl).mp h
                  have hinner : insertAll ((next :: key, v) :: below name es) [] = some grown := by
                    rw [insertAll_cons, hmade]
                    exact hgrown
                  have hbelow := parts_below name es
                  have hbeside := parts_beside name es
                  refine .table honce (ih _ ?_ hinner rfl) (ih _ (by omega) hothers rfl)
                  rw [parts]
                  omega

end InlineEntry

variable {text rest start word : List Char} {c : Char} {n limit depth : Nat}

/-- A value, items or entries leave no longer text. -/
theorem Grammar.Says.length_le {part : Part} (h : Says limit depth text part rest) :
    rest.length ≤ text.length := by
  induction h with
  | string h => exact h.length_le
  | yes => simp only [List.length_cons]; omega
  | no => simp only [List.length_cons]; omega
  | numeric h => exact h.length_le
  | array _ ih => exact Nat.le_succ_of_le ih
  | emptyTable h =>
      have hlength := h.length_le
      simp only [List.length_cons] at hlength ⊢
      omega
  | table _ _ ih => exact Nat.le_succ_of_le ih
  | noItem h =>
      have hlength := h.length_le
      rw [List.length_cons] at hlength
      omega
  | lastItem hbefore _ hbehind ih =>
      have hbefore := hbefore.length_le
      have hbehind := hbehind.length_le
      rw [List.length_cons] at hbehind
      omega
  | item hbefore _ hbehind _ ih ihMore =>
      have hbefore := hbefore.length_le
      have hbehind := hbehind.length_le
      rw [List.length_cons] at hbehind
      omega
  | lastEntry hkey _ hbefore _ hbehind ih =>
      have hkey := hkey.length_lt
      have hbefore := hbefore.length_le
      have hbehind := hbehind.length_le
      rw [List.length_cons] at hkey hbehind
      omega
  | entry hkey _ hbefore _ hbehind _ ih ihMore =>
      have hkey := hkey.length_lt
      have hbefore := hbefore.length_le
      have hbehind := hbehind.length_le
      rw [List.length_cons] at hkey hbehind
      omega

/-- The characters that values begin with. -/
def beginsValue (c : Char) : Bool :=
  isDigit c || ['"', '\'', '[', '{', 't', 'f', '+', '-', 'i', 'n'].contains c

/-- A number, a date or a time begins with a digit, a sign or a letter of a special float. -/
theorem Grammar.Numeric.exists_cons {v : Value} (h : Numeric text v rest) :
    ∃ c r, text = c :: r ∧ (isDigit c = true ∨ c ∈ ['+', '-', 'i', 'n']) := by
  have hsigned : ∀ {text start digits rest negative}, Sign text negative start →
      Whole start digits rest → ∃ c r, text = c :: r ∧ (isDigit c = true ∨ c ∈ ['+', '-', 'i', 'n']) := by
    intro text start digits rest negative hsign hdigits
    cases hsign with
    | plus => exact ⟨_, _, rfl, Or.inr (by decide)⟩
    | minus => exact ⟨_, _, rfl, Or.inr (by decide)⟩
    | none =>
        obtain ⟨c, r, heq, hc⟩ := hdigits.exists_cons
        exact ⟨c, r, heq, Or.inl hc⟩
  have hdate : BeginsDateTime text →
      ∃ c r, text = c :: r ∧ (isDigit c = true ∨ c ∈ ['+', '-', 'i', 'n']) := by
    rintro ⟨_, _, hhead, _⟩
    cases text with
    | nil => cases hhead
    | cons c r => exact ⟨c, r, rfl, Or.inl hhead⟩
  cases h with
  | integer h =>
      cases h with
      | decimal hsign hdigits => exact hsigned hsign hdigits
      | inBase => exact ⟨_, _, rfl, Or.inl (by decide)⟩
  | float h =>
      cases h with
      | number hsign hdigits => exact hsigned hsign hdigits
      | special hword hsign =>
          simp only [specialFloats, List.mem_cons, List.not_mem_nil, or_false] at hword
          rcases hword with rfl | rfl <;> cases hsign <;> exact ⟨_, _, rfl, Or.inr (by decide)⟩
  | dateTime h =>
      cases h with
      | date h =>
          obtain ⟨_, _, hfixed⟩ := h.exists_fixed
          exact hdate (Fixed.beginsDateTime hfixed (Or.inl rfl))
      | time h =>
          obtain ⟨_, _, hfixed⟩ := h.exists_fixed
          exact hdate (Fixed.beginsDateTime hfixed (Or.inr rfl))
      | both h =>
          obtain ⟨_, _, hfixed⟩ := h.exists_fixed
          exact hdate (Fixed.beginsDateTime hfixed (Or.inl rfl))

/-- A string begins with a quote. -/
theorem Grammar.Quoted.exists_cons {said : List Char} (h : Quoted text said rest) :
    ∃ c r, text = c :: r ∧ (c = '"' ∨ c = '\'') := by
  cases h with
  | basic => exact ⟨_, _, rfl, Or.inl rfl⟩
  | literal => exact ⟨_, _, rfl, Or.inr rfl⟩
  | lines hquote => exact ⟨_, _, rfl, hquote⟩
  | linesBelow hquote => exact ⟨_, _, rfl, hquote⟩

/-- A value begins with a character of values. -/
theorem Grammar.Says.exists_cons {v : Value} (h : Says limit depth text (.value v) rest) :
    ∃ c r, text = c :: r ∧ beginsValue c = true := by
  cases h with
  | string h =>
      obtain ⟨c, r, rfl, rfl | rfl⟩ := h.exists_cons
      · exact ⟨_, r, rfl, by decide⟩
      · exact ⟨_, r, rfl, by decide⟩
  | numeric h =>
      obtain ⟨c, r, rfl, hc⟩ := h.exists_cons
      refine ⟨c, r, rfl, ?_⟩
      unfold beginsValue
      rcases hc with hc | hc
      · rw [hc]
        rfl
      · rw [Bool.or_eq_true, List.contains_iff_mem]
        exact Or.inr (List.mem_append_right ['"', '\'', '[', '{', 't', 'f'] hc)
  | yes => exact ⟨_, _, rfl, by decide⟩
  | no => exact ⟨_, _, rfl, by decide⟩
  | array => exact ⟨_, _, rfl, by decide⟩
  | emptyTable => exact ⟨_, _, rfl, by decide⟩
  | table => exact ⟨_, _, rfl, by decide⟩

/-- A value begins with no character of another class. -/
theorem Grammar.Says.stops {v : Value} (h : Says limit depth text (.value v) rest) {p : Char → Bool}
    (hp : ∀ c, p c = true → beginsValue c = false) : Stops p text := by
  obtain ⟨c, r, rfl, hc⟩ := h.exists_cons
  refine stops_cons.mpr (Bool.eq_false_iff.mpr fun hclass => ?_)
  rw [hp c hclass] at hc
  cases hc

/-- A value begins with neither a blank, nor a line end, nor a comment. -/
theorem Grammar.Says.starts {v : Value} (h : Says limit depth text (.value v) rest) : Starts text := by
  refine h.stops fun c hc => ?_
  simp only [isBlank, Bool.or_eq_true, beq_iff_eq] at hc
  rcases hc with (((rfl | rfl) | rfl) | rfl) | rfl <;> rfl

/-! ## Where a value ends -/

/-- A comment or a line end can stand behind a value. -/
theorem Grammar.Comment.mem_endings {stop next : List Char} (h : Comment text stop)
    (hline : Newline stop next) : ∀ c ∈ text.head?, c ∈ endings := by
  cases h with
  | some =>
      rintro c ⟨⟩
      decide
  | none =>
      cases hline with
      | feed =>
          rintro c ⟨⟩
          decide
      | returned =>
          rintro c ⟨⟩
          decide

theorem ends_of_blanks (h : Blanks text (c :: rest)) (hc : c ∈ endings) : Ends text :=
  ⟨c :: rest, h, fun d hd => by cases hd; exact hc⟩

/-- A value ends in front of a gap. -/
theorem ends_of_gap (h : Gap text (c :: rest)) (hc : c ∈ endings) : Ends text := by
  cases h with
  | blanks h => exact ends_of_blanks h hc
  | line hblanks hcomment hline => exact ⟨_, hblanks, hcomment.mem_endings hline⟩

/-- A value ends at the end of its line. -/
theorem ends_of_lineEnd (h : LineEnd text rest) : Ends text := by
  cases h with
  | line hblanks hcomment hline => exact ⟨_, hblanks, hcomment.mem_endings hline⟩
  | last hblanks hcomment =>
      refine ⟨_, hblanks, ?_⟩
      cases hcomment with
      | none => nofun
      | some =>
          rintro c ⟨⟩
          decide

/-- Where a value ends, no quote follows. -/
theorem Ends.noQuote (h : Ends rest) : NoQuote rest := by
  intro quote hquote hhead
  have hstop : Stops (fun c => c == '"' || c == '\'') rest := h.stops (by decide)
  have hclass := hstop quote hhead
  rcases hquote with rfl | rfl <;> cases hclass

/-! ## Values -/

/-- Behind a quote a string is read. -/
theorem value?_quote {r : List Char} (hc : c = '"' ∨ c = '\'') :
    value? limit (n + 1) depth (c :: r) =
      (string? (c :: r)).map fun read => (.string (String.ofList read.1), read.2) := by
  rcases hc with rfl | rfl <;> rfl

/-- Behind a digit, a sign or a letter of a special float a number, a date or a time is read. -/
theorem value?_numeric {r : List Char} (hc : isDigit c = true ∨ c ∈ ['+', '-', 'i', 'n']) :
    value? limit (n + 1) depth (c :: r) = numeric? (c :: r) := by
  have hother : ∀ d, isDigit d = false → d ∉ ['+', '-', 'i', 'n'] → c ≠ d := by
    rintro d hdigit hmem rfl
    rcases hc with hc | hc
    · rw [hdigit] at hc
      cases hc
    · exact hmem hc
  unfold value?
  split
  case h_7 => rfl
  all_goals
    rename_i heq
    exact absurd (List.cons.inj heq).1 (hother _ (by decide) (by decide))

/-- Is a part of a text read as what it says, with enough fuel? -/
def Reads (limit depth : Nat) (text : List Char) : Part → List Char → Prop
  | .value v, rest => Ends rest → ∀ n, 2 * text.length + 1 ≤ n →
      value? limit n depth text = some (v, rest)
  | .items vs, rest => ∀ n, 2 * text.length + 2 ≤ n → items? limit n depth text = some (vs, rest)
  | .entries es, rest => ∀ n before after word, 2 * text.length + 2 ≤ n →
      skipBlanks word = skipBlanks text → InlineEntry.insertAll es before = some after →
      entries? limit n depth before word = some (after, rest)

/-- The blanks in front of a key do not matter. -/
theorem Grammar.DottedKey.congr {key : Key} (h : DottedKey text key rest)
    (hword : skipBlanks word = skipBlanks text) : DottedKey word key rest := by
  have hblanks := blanks_skipBlanks word
  rw [hword] at hblanks
  cases h with
  | last hbefore hpart hbehind =>
      rw [skipBlanks_eq hbefore hpart.stops_isBlank] at hblanks
      exact .last hblanks hpart hbehind
  | more hbefore hpart hbehind h =>
      rw [skipBlanks_eq hbefore hpart.stops_isBlank] at hblanks
      exact .more hblanks hpart hbehind h

/-- The characters that keys begin with. -/
def beginsKey (c : Char) : Bool := isBlank c || isKeyChar c || c == '"' || c == '\''

/-- A key begins with a blank or with a character of keys. -/
theorem Grammar.DottedKey.exists_cons {key : Key} (h : DottedKey text key rest) :
    ∃ c r, text = c :: r ∧ beginsKey c = true := by
  have hpart : ∀ {text start stop : List Char} {part : String}, Blanks text start →
      KeyPart start part stop → ∃ c r, text = c :: r ∧ beginsKey c = true := by
    rintro text start stop part ⟨blanks, rfl, hblanks⟩ hpart
    cases blanks with
    | cons c blanks =>
        refine ⟨c, _, rfl, ?_⟩
        rw [beginsKey, hblanks c List.mem_cons_self]
        rfl
    | nil =>
        cases hpart with
        | basic => exact ⟨_, _, rfl, by decide⟩
        | literal => exact ⟨_, _, rfl, by decide⟩
        | bare hne hsaid =>
            obtain ⟨c, more, rfl⟩ := List.exists_cons_of_ne_nil hne
            refine ⟨c, _, rfl, ?_⟩
            rw [beginsKey, hsaid c List.mem_cons_self, Bool.or_true]
            rfl
  cases h with
  | last hbefore h => exact hpart hbefore h
  | more hbefore h => exact hpart hbefore h

/-- A key begins with no character of another class. -/
theorem Grammar.DottedKey.stops {p : Char → Bool} {key : Key} (h : DottedKey text key rest)
    (hp : ∀ c, p c = true → beginsKey c = false) : Stops p text := by
  obtain ⟨c, r, rfl, hc⟩ := h.exists_cons
  refine stops_cons.mpr (Bool.eq_false_iff.mpr fun hclass => ?_)
  rw [hp c hclass] at hc
  cases hc

/-- The item of an array in front of its last bracket. -/
theorem items?_last {v : Value} {r : List Char} (hbefore : Gap text start) (hstart : Starts start)
    (hbracket : Stops (· == ']') start) (hv : value? limit n depth start = some (v, rest))
    (hbehind : Gap rest (']' :: r)) : items? limit (n + 1) depth text = some ([v], r) := by
  unfold items?
  simp only
  rw [skipLines_eq hbefore hstart (Nat.le_refl _)]
  split
  · exact absurd (stops_cons.mp hbracket) (by decide)
  · simp only [hv, Option.bind_eq_bind, Option.bind_some]
    rw [skipLines_eq hbehind (stops_cons.mpr (by decide)) (Nat.le_refl _)]
    rfl

/-- The item of an array in front of a comma. -/
theorem items?_more {v : Value} {vs : List Value} {next r : List Char} (hbefore : Gap text start)
    (hstart : Starts start) (hbracket : Stops (· == ']') start)
    (hv : value? limit n depth start = some (v, rest)) (hbehind : Gap rest (',' :: next))
    (hvs : items? limit n depth next = some (vs, r)) :
    items? limit (n + 1) depth text = some (v :: vs, r) := by
  conv => lhs; unfold items?
  simp only
  rw [skipLines_eq hbefore hstart (Nat.le_refl _)]
  split
  · exact absurd (stops_cons.mp hbracket) (by decide)
  · simp only [hv, Option.bind_eq_bind, Option.bind_some]
    rw [skipLines_eq hbehind (stops_cons.mpr (by decide)) (Nat.le_refl _)]
    simp only [hvs, Option.bind_some]
    rfl

/-- An entry of an inline table. -/
theorem entries?_entry {key : Key} {v : Value} {stop : List Char}
    {before after : List (String × InlineEntry)} (hkey : DottedKey text key ('=' :: start))
    (hparts : key.length ≤ limit) (hbefore : Blanks start word) (hword : Stops isBlank word)
    (hv : value? limit n depth word = some (v, stop))
    (hinsert : InlineEntry.insert key v before = some after) :
    entries? limit (n + 1) depth before text = match skipBlanks stop with
      | ',' :: r => entries? limit n depth after r
      | '}' :: r => some (after, r)
      | _ => none := by
  have hbrace : Stops (· == '}') text :=
    hkey.stops fun c hc => by rw [beq_iff_eq.mp hc]; rfl
  have hread := key?_eq hkey hparts (stops_cons.mpr (by decide))
  conv => lhs; unfold entries?
  split
  · exact absurd (stops_cons.mp hbrace) (by decide)
  · simp only [hread, Option.bind_eq_bind, Option.bind_some]
    rw [skipBlanks_eq hbefore hword, hv]
    simp only [Option.bind_some, hinsert]
    rfl

/-- All that the grammar says of a value, of items or of entries is read. -/
theorem Grammar.Says.reads {part : Part} (h : Says limit depth text part rest) :
    Reads limit depth text part rest := by
  induction h with
  | string h =>
      intro hends n hn
      obtain ⟨m, rfl⟩ : ∃ m, n = m + 1 := ⟨n - 1, by omega⟩
      have hread := string?_eq h hends.noQuote
      obtain ⟨c, r, rfl, hc⟩ := h.exists_cons
      rw [value?_quote hc, hread]
      rfl
  | yes =>
      intro _ n hn
      obtain ⟨m, rfl⟩ : ∃ m, n = m + 1 := ⟨n - 1, by omega⟩
      rfl
  | no =>
      intro _ n hn
      obtain ⟨m, rfl⟩ : ∃ m, n = m + 1 := ⟨n - 1, by omega⟩
      rfl
  | numeric h =>
      intro hends n hn
      obtain ⟨m, rfl⟩ : ∃ m, n = m + 1 := ⟨n - 1, by omega⟩
      have hread := numeric?_eq h hends
      obtain ⟨c, r, rfl, hc⟩ := h.exists_cons
      rw [value?_numeric hc, hread]
  | @array depth text rest vs _ ih =>
      intro _ n hn
      rw [List.length_cons] at hn
      obtain ⟨m, rfl⟩ : ∃ m, n = m + 1 := ⟨n - 1, by omega⟩
      have hitems : items? limit m depth text = some (vs, rest) := ih m (by omega)
      unfold value?
      simp only [hitems]
      rfl
  | @emptyTable depth text rest h =>
      intro _ n hn
      rw [List.length_cons] at hn
      obtain ⟨m, rfl⟩ : ∃ m, n = m + 2 := ⟨n - 2, by omega⟩
      -- the closing brace takes a step of its own
      have hclose := skipBlanks_eq h (stops_cons.mpr (by decide))
      unfold value?
      simp only [hclose, entries?]
      rfl
  | @table depth text rest es table _ htable ih =>
      intro _ n hn
      rw [List.length_cons] at hn
      obtain ⟨m, rfl⟩ : ∃ m, n = m + 1 := ⟨n - 1, by omega⟩
      obtain ⟨entries, hinsert, rfl⟩ := InlineEntry.exists_insertAll htable
      -- the first key stands behind blanks that have been skipped already
      have hskip : skipBlanks (skipBlanks text) = skipBlanks text :=
        dropWhile_of_stops (stops_dropWhile isBlank text)
      have hread : entries? limit m depth [] (skipBlanks text) = some (entries, rest) :=
        ih m [] entries _ (by omega) hskip hinsert
      unfold value?
      simp only [hread]
      rfl
  | noItem h =>
      intro n hn
      obtain ⟨m, rfl⟩ : ∃ m, n = m + 1 := ⟨n - 1, by omega⟩
      unfold items?
      simp only
      rw [skipLines_eq h (stops_cons.mpr (by decide)) (Nat.le_refl _)]
      rfl
  | lastItem hbefore hv hbehind ih =>
      intro n hn
      obtain ⟨m, rfl⟩ : ∃ m, n = m + 1 := ⟨n - 1, by omega⟩
      have hstart := hbefore.length_le
      have hread := ih (ends_of_gap hbehind (by decide)) m (by omega)
      refine items?_last hbefore hv.starts (hv.stops fun c hc => ?_) hread hbehind
      rw [beq_iff_eq.mp hc]
      rfl
  | item hbefore hv hbehind _ ih ihMore =>
      intro n hn
      obtain ⟨m, rfl⟩ : ∃ m, n = m + 1 := ⟨n - 1, by omega⟩
      have hstart := hbefore.length_le
      have hstop := hv.length_le
      have hnext := hbehind.length_le
      rw [List.length_cons] at hnext
      have hread := ih (ends_of_gap hbehind (by decide)) m (by omega)
      refine items?_more hbefore hv.starts (hv.stops fun c hc => ?_) hread hbehind (ihMore m (by omega))
      rw [beq_iff_eq.mp hc]
      rfl
  | lastEntry hkey hparts hbefore hv hbehind ih =>
      intro n before after word hn hword hinsert
      obtain ⟨m, rfl⟩ : ∃ m, n = m + 1 := ⟨n - 1, by omega⟩
      have hlength := hkey.length_lt
      have hvalue := hbefore.length_le
      rw [List.length_cons] at hlength
      obtain ⟨made, hmade, heq⟩ := Option.bind_eq_some_iff.mp hinsert
      cases heq
      have hread := ih (ends_of_blanks hbehind (by decide)) m (by omega)
      rw [entries?_entry (hkey.congr hword) hparts hbefore hv.starts.stops_isBlank hread hmade,
        skipBlanks_eq hbehind (stops_cons.mpr (by decide))]
      rfl
  | entry hkey hparts hbefore hv hbehind _ ih ihMore =>
      intro n before after word hn hword hinsert
      obtain ⟨m, rfl⟩ : ∃ m, n = m + 1 := ⟨n - 1, by omega⟩
      have hlength := hkey.length_lt
      have hvalue := hbefore.length_le
      have hstop := hv.length_le
      have hnext := hbehind.length_le
      rw [List.length_cons] at hlength hnext
      -- the further entries are put beside this one: the induction is for any entries in front
      obtain ⟨made, hmade, hinsert⟩ := Option.bind_eq_some_iff.mp hinsert
      have hread := ih (ends_of_blanks hbehind (by decide)) m (by omega)
      rw [entries?_entry (hkey.congr hword) hparts hbefore hv.starts.stops_isBlank hread hmade,
        skipBlanks_eq hbehind (stops_cons.mpr (by decide))]
      exact ihMore m made after _ (by omega) rfl hinsert

/-! ## Limits -/

/-- What a text says within a limit and a depth it says within all higher ones. -/
theorem Grammar.Says.mono {limit' depth' : Nat} {part : Part} (h : Says limit depth text part rest)
    (hlimit : limit ≤ limit') (hdepth : depth ≤ depth') : Says limit' depth' text part rest := by
  induction h generalizing depth' with
  | string h => exact .string h
  | yes => exact .yes _ _
  | no => exact .no _ _
  | numeric h => exact .numeric h
  | array _ ih =>
      obtain ⟨d, rfl⟩ : ∃ d, depth' = d + 1 := ⟨depth' - 1, by omega⟩
      exact .array (ih (Nat.le_of_succ_le_succ hdepth))
  | emptyTable h =>
      obtain ⟨d, rfl⟩ : ∃ d, depth' = d + 1 := ⟨depth' - 1, by omega⟩
      exact .emptyTable h
  | table _ htable ih =>
      obtain ⟨d, rfl⟩ : ∃ d, depth' = d + 1 := ⟨depth' - 1, by omega⟩
      exact .table (ih (Nat.le_of_succ_le_succ hdepth)) htable
  | noItem h => exact .noItem h
  | lastItem hbefore _ hbehind ih => exact .lastItem hbefore (ih hdepth) hbehind
  | item hbefore _ hbehind _ ih ihMore =>
      exact .item hbefore (ih hdepth) hbehind (ihMore hdepth)
  | lastEntry hkey hparts hbefore _ hbehind ih =>
      exact .lastEntry hkey (Nat.le_trans hparts hlimit) hbefore (ih hdepth) hbehind
  | entry hkey hparts hbefore _ hbehind _ ih ihMore =>
      exact .entry hkey (Nat.le_trans hparts hlimit) hbefore (ih hdepth) hbehind (ihMore hdepth)

end OperatorBundle.Toml
