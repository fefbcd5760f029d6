import OperatorBundle.Proofs.Toml.Document
import OperatorBundle.Proofs.Toml.Sound

/-!
# Readers of documents

A text is read as the table that the statements of the document make up that it is, and no other text
is read (`read?_eq_some_iff`).
-/

namespace OperatorBundle.Toml

open Grammar Text

variable {text rest stop next : List Char} {c : Char} {n limit limit' : Nat} {key : Key}
  {statement : Statement} {statements : List Statement}

/-! ## Lines -/

/-- The heading of a table is read. -/
theorem heading?_table (hkey : DottedKey text key (']' :: rest)) (hparts : key.length ≤ limit) :
    heading? limit text = some (.table key, rest) := by
  have hread := key?_eq hkey hparts (stops_cons.mpr (by decide))
  have hbracket : Stops (· == '[') text :=
    hkey.stops fun c hc => by rw [beq_iff_eq.mp hc]; rfl
  unfold heading?
  split
  · exact absurd (stops_cons.mp hbracket) (by decide)
  · rw [hread]
    rfl

/-- The heading of an element of an array of tables is read. -/
theorem heading?_element (hkey : DottedKey text key (']' :: ']' :: rest))
    (hparts : key.length ≤ limit) : heading? limit ('[' :: text) = some (.element key, rest) := by
  have hread := key?_eq hkey hparts (stops_cons.mpr (by decide))
  unfold heading?
  simp only [hread]
  rfl

/-- All of an assignment is read where its value ends. -/
theorem assignment?_eq {start word : List Char} {v : Value} (hkey : DottedKey text key ('=' :: start))
    (hparts : key.length ≤ limit) (hbefore : Blanks start word)
    (hv : Says limit limit word (.value v) rest) (hrest : Ends rest) :
    assignment? limit text = some (.assignment key v, rest) := by
  have hread := key?_eq hkey hparts (stops_cons.mpr (by decide))
  have hlength := hkey.length_lt
  have hword := hbefore.length_le
  rw [List.length_cons] at hlength
  have hvalue : value? limit (2 * text.length + 2) limit word = some (v, rest) :=
    hv.reads hrest _ (by omega)
  unfold assignment?
  rw [hread]
  simp only [Option.bind_eq_bind, Option.bind_some]
  rw [skipBlanks_eq hbefore hv.starts.stops_isBlank, hvalue]
  rfl

/-- A line that says something begins with a bracket or with a key. -/
theorem Grammar.Line.stops {p : Char → Bool} (h : Line limit text statement rest)
    (hbracket : p '[' = false) (hp : ∀ c, p c = true → beginsKey c = false) : Stops p text := by
  cases h with
  | table => exact stops_cons.mpr hbracket
  | element => exact stops_cons.mpr hbracket
  | assignment hkey => exact hkey.stops hp

/-- No key is empty. -/
theorem Grammar.DottedKey.ne_nil {key : Key} (h : DottedKey text key rest) : key ≠ [] := by
  cases h <;> exact List.cons_ne_nil _ _

theorem Grammar.Line.key_ne_nil (h : Line limit text statement rest) : statement.key ≠ [] := by
  cases h with
  | table hkey => exact hkey.ne_nil
  | element hkey => exact hkey.ne_nil
  | assignment hkey => exact hkey.ne_nil

/-- Every statement of a text has a key. -/
theorem Grammar.Lines.key_ne_nil (h : Lines limit text statements) : ∀ s ∈ statements, s.key ≠ [] := by
  induction h with
  | none => nofun
  | empty _ _ ih => exact ih
  | line _ hline _ _ ih => exact List.forall_mem_cons.mpr ⟨hline.key_ne_nil, ih⟩

/-! ## Documents -/

/-- The reader goes on behind a line that says something. -/
theorem statements?_line {start : List Char} (hline : Line limit text statement stop)
    (hbefore : skipBlanks start = skipBlanks text) (hend : LineEnd stop next)
    (hnext : statements? limit n next = some statements) :
    statements? limit (n + 1) start = some (statement :: statements) := by
  have hlineEnd := lineEnd?_eq_some_iff.mpr hend
  cases hline with
  | table hkey hparts =>
      have hread := heading?_table hkey hparts
      rw [show skipBlanks ('[' :: _) = '[' :: _ from rfl] at hbefore
      conv => lhs; unfold statements?
      rw [hbefore]
      simp only [hread, Option.bind_eq_bind, Option.bind_some, hlineEnd, hnext]
      rfl
  | element hkey hparts =>
      have hread := heading?_element hkey hparts
      rw [show skipBlanks ('[' :: _) = '[' :: _ from rfl] at hbefore
      conv => lhs; unfold statements?
      rw [hbefore]
      simp only [hread, Option.bind_eq_bind, Option.bind_some, hlineEnd, hnext]
      rfl
  | assignment hkey hparts hblanks hv =>
      -- the reader skips blanks that belong to the key
      have hskip : skipBlanks (skipBlanks text) = skipBlanks text :=
        dropWhile_of_stops (stops_dropWhile isBlank text)
      have hkey := hkey.congr hskip
      have hread := assignment?_eq hkey hparts hblanks hv (ends_of_lineEnd hend)
      obtain ⟨c, r, heq, hc⟩ := hkey.exists_cons
      conv => lhs; unfold statements?
      rw [hbefore]
      rw [heq] at hread ⊢
      split
      · rename_i hnil
        cases hnil
      · rename_i hmark
        cases hmark
        cases hc
      · rename_i hmark
        cases hmark
        cases hc
      · rename_i hmark
        cases hmark
        have hline : newline? (c :: r) = none := by
          refine newline?_cons_eq_none ?_ ?_ r <;>
          · rintro rfl
            cases hc
        simp only [hline, hread, Option.bind_eq_bind, Option.bind_some, hlineEnd, hnext]
        rfl

/-- The reader goes on behind a line that says nothing. -/
theorem statements?_empty {shown : List Char} (hblanks : Blanks text shown)
    (hcomment : Comment shown stop) (hline : Newline stop next) :
    statements? limit (n + 1) text = statements? limit n next := by
  have hskip := skipBlanks_eq hblanks
    (hcomment.stops_isBlank (hline.stops (by decide) (by decide)))
  conv => lhs; unfold statements?
  rw [hskip]
  cases hcomment with
  | none =>
      have hread := newline?_eq_some_iff.mpr hline
      cases hline <;> rfl
  | some hsaid =>
      have hread := lineEnd?_eq_some_iff.mpr (.line (blanks_refl _) (.some hsaid stop) hline)
      simp only [hread]
      rfl

theorem statements?_nil : statements? limit (n + 1) [] = some [] := rfl

theorem Grammar.Line.length_lt (h : Line limit text statement rest) : rest.length < text.length := by
  cases h with
  | table hkey =>
      have hlength := hkey.length_lt
      simp only [List.length_cons] at hlength ⊢
      omega
  | element hkey =>
      have hlength := hkey.length_lt
      simp only [List.length_cons] at hlength ⊢
      omega
  | assignment hkey _ hbefore hv =>
      have hlength := hkey.length_lt
      have hword := hbefore.length_le
      have hrest := hv.length_le
      rw [List.length_cons] at hlength
      omega

/-- All that the lines of a text say is read. -/
theorem statements?_eq (h : Lines limit text statements) (hn : text.length < n) :
    statements? limit n text = some statements := by
  induction h generalizing n with
  | none =>
      obtain ⟨m, rfl⟩ : ∃ m, n = m + 1 := ⟨n - 1, by omega⟩
      exact statements?_nil
  | @empty text next statements hend _ ih =>
      obtain ⟨m, rfl⟩ : ∃ m, n = m + 1 := ⟨n - 1, by omega⟩
      cases hend with
      | line hblanks hcomment hline =>
          have hshown := hblanks.length_le
          have hstop := hcomment.length_le
          have hnext := hline.length_lt
          rw [statements?_empty hblanks hcomment hline]
          exact ih (by omega)
      | last hblanks hcomment =>
          -- nothing is left behind this line, so that there are no further statements
          have hnone : some [] = some statements := statements?_nil.symm.trans (ih Nat.zero_lt_one)
          cases hnone
          have hskip := skipBlanks_eq hblanks (hcomment.stops_isBlank stops_nil)
          have hshown := hblanks.length_le
          conv => lhs; unfold statements?
          rw [hskip]
          cases hcomment with
          | none => rfl
          | some hsaid =>
              have hread := lineEnd?_eq_some_iff.mpr (.last (blanks_refl _) (.some hsaid []))
              rw [List.length_cons] at hshown
              have hm : ([] : List Char).length < m := by
                rw [List.length_nil]
                omega
              simp only [hread]
              exact ih hm
  | line hbefore hline hend _ ih =>
      obtain ⟨m, rfl⟩ : ∃ m, n = m + 1 := ⟨n - 1, by omega⟩
      have hstart := hbefore.length_le
      have hstop := hline.length_lt
      have hnext := hend.length_le
      exact statements?_line hline (skipBlanks_congr hbefore) hend (ih (by omega))

/-! ## Limits -/

/-- What a line says within a limit it says within any higher one. -/
theorem Grammar.Line.mono (h : Line limit text statement rest) (hlimit : limit ≤ limit') :
    Line limit' text statement rest := by
  cases h with
  | table hkey hparts => exact .table hkey (Nat.le_trans hparts hlimit)
  | element hkey hparts => exact .element hkey (Nat.le_trans hparts hlimit)
  | assignment hkey hparts hbefore hv =>
      exact .assignment hkey (Nat.le_trans hparts hlimit) hbefore (hv.mono hlimit hlimit)

/-- The lines that a text has within a limit it has within any higher one. -/
theorem Grammar.Lines.mono (h : Lines limit text statements) (hlimit : limit ≤ limit') :
    Lines limit' text statements := by
  induction h with
  | none => exact .none
  | empty hend _ ih => exact .empty hend ih
  | line hbefore hline hend _ ih => exact .line hbefore (hline.mono hlimit) hend ih

/-- A text has the same lines within all limits within which it has any. -/
theorem Grammar.Lines.unique {statements' : List Statement} (h : Lines limit text statements)
    (h' : Lines limit' text statements') : statements = statements' := by
  -- the reader finds both within the higher limit
  have hread := statements?_eq (h.mono (Nat.le_max_left limit limit')) (Nat.lt_succ_self _)
  have hread' := statements?_eq (h'.mono (Nat.le_max_right limit limit')) (Nat.lt_succ_self _)
  exact Option.some.inj (hread.symm.trans hread')

section

variable {depth depth' : Nat} {v : Value}

/-- A string, or a table of strings. -/
inductive Value.IsFlat : Value → Prop where
  | string (text : String) : Value.IsFlat (.string text)
  | table {entries : Table} (h : ∀ e ∈ entries, ∃ text, e.2 = .string text) :
      Value.IsFlat (.table entries)

/-- Entries make up a table of strings only if they are strings under keys of one part. -/
theorem Grammar.Collects.flat {es : List (Key × Value)} {table : Table} (h : Collects es table)
    (hstrings : ∀ e ∈ table, ∃ text, e.2 = .string text) :
    ∀ e ∈ es, e.1.length = 1 ∧ ∃ text, e.2 = .string text := by
  induction h with
  | none => nofun
  | value _ _ ih =>
      obtain ⟨hfirst, hmore⟩ := List.forall_mem_cons.mp hstrings
      exact List.forall_mem_cons.mpr ⟨⟨rfl, hfirst⟩, ih hmore⟩
  | table =>
      obtain ⟨⟨text, htext⟩, _⟩ := List.forall_mem_cons.mp hstrings
      cases htext

/-- A string is one within any limit. -/
theorem Grammar.Says.string_mono {said : String} (h : Says limit depth text (.value (.string said)) rest)
    (limit' depth' : Nat) : Says limit' depth' text (.value (.string said)) rest := by
  cases h with
  | string h => exact .string h
  | numeric h => cases h

/-- Strings under keys of one part are entries within any limit. -/
theorem Grammar.Says.entries_mono {es : List (Key × Value)} (h : Says limit depth text (.entries es) rest)
    (hflat : ∀ e ∈ es, e.1.length = 1 ∧ ∃ text, e.2 = .string text) (hlimit : 1 ≤ limit')
    (depth' : Nat) : Says limit' depth' text (.entries es) rest := by
  generalize hpart : Part.entries es = part at h
  induction h generalizing es with
  | lastEntry hkey _ hbefore hv hbehind =>
      cases hpart
      obtain ⟨⟨hlength, said, rfl⟩, _⟩ := List.forall_mem_cons.mp hflat
      exact .lastEntry hkey (hlength ▸ hlimit) hbefore (hv.string_mono limit' depth') hbehind
  | entry hkey _ hbefore hv hbehind _ _ ih =>
      cases hpart
      obtain ⟨⟨hlength, said, rfl⟩, hmore⟩ := List.forall_mem_cons.mp hflat
      exact .entry hkey (hlength ▸ hlimit) hbefore (hv.string_mono limit' depth') hbehind
        (ih hmore rfl)
  | _ => cases hpart

/-- A string or a table of strings is one within any limit. -/
theorem Grammar.Says.flat_mono (h : Says limit depth text (.value v) rest) (hflat : v.IsFlat)
    (hlimit : 1 ≤ limit') (depth : Nat) : Says limit' (depth + 1) text (.value v) rest := by
  cases hflat with
  | string => exact h.string_mono limit' (depth + 1)
  | table hstrings =>
      cases h with
      | emptyTable h => exact .emptyTable h
      | table h htable => exact .table (h.entries_mono (htable.flat hstrings) hlimit depth) htable
      | numeric h => cases h

/-- A heading of so few parts, or a string or a table of strings under such a key. -/
inductive Statement.IsFlat (limit : Nat) : Statement → Prop where
  | table {key : Key} (hkey : key.length ≤ limit) : IsFlat limit (.table key)
  | assignment {key : Key} {v : Value} (hkey : key.length ≤ limit) (hv : v.IsFlat) :
      IsFlat limit (.assignment key v)

/-- Lines that say only this do so within any limit. -/
theorem Grammar.Lines.flat_mono (h : Lines limit text statements)
    (hflat : ∀ s ∈ statements, s.IsFlat (limit' + 1)) : Lines (limit' + 1) text statements := by
  induction h with
  | none => exact .none
  | empty hend _ ih => exact .empty hend (ih hflat)
  | line hbefore hline hend _ ih =>
      obtain ⟨hfirst, hmore⟩ := List.forall_mem_cons.mp hflat
      refine .line hbefore ?_ hend (ih hmore)
      cases hline with
      | table hkey =>
          cases hfirst with
          | table hparts => exact .table hkey hparts
      | element hkey => cases hfirst
      | assignment hkey _ hblanks hv =>
          cases hfirst with
          | assignment hparts hvalue =>
              exact .assignment hkey hparts hblanks (hv.flat_mono hvalue (Nat.le_add_left 1 _) _)

end

/-! ## Texts -/

/-- The lines of a text do not begin with the mark of the order of bytes. -/
theorem Grammar.Lines.stops_mark (h : Lines limit text statements) : Stops (· == '\uFEFF') text := by
  have hblank : ∀ c, isBlank c = true → (c == '\uFEFF') = false := by
    intro c hc
    rcases eq_of_isBlank hc with rfl | rfl <;> rfl
  cases h with
  | none => exact stops_nil
  | empty hend =>
      have hcomment : ∀ {shown stop : List Char}, Comment shown stop → Stops (· == '\uFEFF') stop →
          Stops (· == '\uFEFF') shown := by
        intro shown stop hcomment hstop
        cases hcomment with
        | none => exact hstop
        | some => exact stops_cons.mpr (by decide)
      cases hend with
      | line hblanks hshown hline =>
          exact hblanks.stops hblank (hcomment hshown (hline.stops (by decide) (by decide)))
      | last hblanks hshown => exact hblanks.stops hblank (hcomment hshown stops_nil)
  | line hbefore hline =>
      exact hbefore.stops hblank (hline.stops (by decide) fun c hc => by rw [beq_iff_eq.mp hc]; rfl)

theorem Grammar.Document.key_ne_nil (h : Document limit text statements) :
    ∀ s ∈ statements, s.key ≠ [] := by
  cases h with
  | plain h => exact h.key_ne_nil
  | marked h => exact h.key_ne_nil

/-- A document of strings and of tables of strings is one within any limit. -/
theorem Grammar.Document.flat_mono (h : Document limit text statements)
    (hflat : ∀ s ∈ statements, s.IsFlat (limit' + 1)) : Document (limit' + 1) text statements := by
  cases h with
  | plain h => exact .plain (h.flat_mono hflat)
  | marked h => exact .marked (h.flat_mono hflat)

/-- The statements of a document stand behind the mark in front of it. -/
theorem lines_skipMark (h : Document limit text statements) : Lines limit (skipMark text) statements := by
  cases h with
  | marked h => exact h
  | plain h =>
      have hmark := h.stops_mark
      unfold skipMark
      split
      · exact absurd (stops_cons.mp hmark) (by decide)
      · exact h

variable {source : String} {document : Table} {items : Item.Items}

/-- A text is read as what its statements make up. -/
theorem read?_eq (h : Document nestingLimit source.toList statements)
    (hfollow : Item.follow? statements [] [] = some items) :
    read? source = some (Item.toTable items) := by
  have hread := statements?_eq (lines_skipMark h) (Nat.lt_succ_self _)
  unfold read?
  simp only [hread, hfollow, Option.bind_eq_bind, Option.bind_some]
  rfl

/-- A text is a document if what stands behind its mark has lines. -/
theorem document_of_skipMark (h : Lines limit (skipMark text) statements) : Document limit text statements := by
  unfold skipMark at h
  split at h
  · exact .marked h
  · exact .plain h

/-- A text is a document if its statements are read. -/
theorem document_of_statements? (h : statements? limit n (skipMark text) = some statements) :
    Document limit text statements :=
  document_of_skipMark (lines_of_statements? h)

/-- A text is read as a table just if it is a document whose statements make up this table. -/
theorem read?_eq_some_iff : read? source = some document ↔
    ∃ statements items, Document nestingLimit source.toList statements ∧
      Item.follow? statements [] [] = some items ∧ Item.toTable items = document := by
  constructor
  · -- what is read is sound, and all that is sound is read
    intro h
    obtain ⟨statements, hread, h⟩ := Option.bind_eq_some_iff.mp h
    obtain ⟨items, hfollow, heq⟩ := Option.bind_eq_some_iff.mp h
    exact ⟨statements, items, document_of_statements? hread, hfollow, Option.some.inj heq⟩
  · rintro ⟨statements, items, h, hfollow, rfl⟩
    exact read?_eq h hfollow

/-- What is read of a text is what the statements make up that it has within any limit. -/
theorem exists_of_read? (h : Document limit source.toList statements)
    (hread : read? source = some document) :
    ∃ items, Item.follow? statements [] [] = some items ∧ Item.toTable items = document := by
  obtain ⟨found, items, hfound, hfollow, heq⟩ := read?_eq_some_iff.mp hread
  obtain rfl := (lines_skipMark hfound).unique (lines_skipMark h)
  exact ⟨items, hfollow, heq⟩

end OperatorBundle.Toml
