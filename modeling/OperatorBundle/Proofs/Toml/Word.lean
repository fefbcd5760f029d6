import OperatorBundle.Proofs.Toml.Text

/-!
# Readers of strings and keys

A string is read where no further quote follows it, and a key where nothing follows that would belong
to it.
-/

namespace OperatorBundle.Toml

open Grammar Text

variable {text rest said : List Char} {c : Char} {n : Nat}

/-! ## Strings -/

/-- All that the grammar says of a string is read, behind what has been read of it. -/
theorem basic?_eq (h : Basic text said rest) (hn : text.length ≤ n) (before : List Char) :
    basic? n before text = some (before ++ said, rest) := by
  induction h generalizing n before with
  | close rest =>
      cases n with
      | zero => cases hn
      | succ n => rw [basic?, List.append_nil]
  | char hc hquote hescape _ ih =>
      cases n with
      | zero => cases hn
      | succ n =>
          rw [basic?, if_pos hc, ih (Nat.le_of_succ_le_succ hn), List.append_assoc]
          · rfl
          · exact hquote
          · exact hescape
  | escape hescape _ ih =>
      cases n with
      | zero => cases hn
      | succ n =>
          have hlength := hescape.length_lt
          rw [List.length_cons] at hn
          rw [basic?, escape?_eq_some_iff.mpr hescape, Option.bind_eq_bind, Option.bind_some]
          show basic? n (before ++ [_]) _ = _
          rw [ih (by omega), List.append_assoc]
          rfl

/-- A string without escapes is what stands in front of its closing quote. -/
theorem literal_iff : Literal text said rest ↔
    text = said ++ '\'' :: rest ∧ ∀ c ∈ said, (isText c && c != '\'') = true := by
  constructor
  · intro h
    induction h with
    | close => exact ⟨rfl, nofun⟩
    | char hc hquote _ ih =>
        refine ⟨congrArg _ ih.1, List.forall_mem_cons.mpr ⟨?_, ih.2⟩⟩
        rw [hc, Bool.true_and, bne_iff_ne]
        exact hquote
  · rintro ⟨rfl, hsaid⟩
    induction said with
    | nil => exact .close rest
    | cons c said ih =>
        obtain ⟨hc, hsaid⟩ := List.forall_mem_cons.mp hsaid
        rw [Bool.and_eq_true, bne_iff_ne] at hc
        exact .char hc.1 hc.2 (ih hsaid)

/-- The reader of strings without escapes finds just these strings. -/
theorem literal?_eq_some_iff : literal? text = some (said, rest) ↔ Literal text said rest := by
  rw [literal_iff]
  unfold literal?
  simp only
  rw [drop_length_takeWhile]
  constructor
  · intro h
    split at h
    · rename_i hstop
      cases h
      refine ⟨?_, fun _ => of_mem_takeWhile⟩
      rw [← hstop, List.takeWhile_append_dropWhile]
    · cases h
  · rintro ⟨rfl, hsaid⟩
    have hstop : Stops (fun c => isText c && c != '\'') ('\'' :: rest) := stops_cons.mpr (by decide)
    rw [dropWhile_append hsaid hstop, takeWhile_append hsaid hstop]
    rfl

/-- An escape does not begin with space. -/
theorem Grammar.Escape.exists_cons (h : Escape text c rest) :
    ∃ d r, text = d :: r ∧ isBlank d = false ∧ d ≠ '\n' ∧ d ≠ '\r' := by
  cases h with
  | short hmark =>
      refine ⟨_, _, rfl, ?_⟩
      revert hmark
      simp only [escapes, List.mem_cons, Prod.mk.injEq, List.not_mem_nil, or_false]
      rintro (⟨rfl, _⟩ | ⟨rfl, _⟩ | ⟨rfl, _⟩ | ⟨rfl, _⟩ | ⟨rfl, _⟩ | ⟨rfl, _⟩ | ⟨rfl, _⟩) <;> decide
  | code hmark =>
      refine ⟨_, _, rfl, ?_⟩
      revert hmark
      simp only [codeLengths, List.mem_cons, Prod.mk.injEq, List.not_mem_nil, or_false]
      rintro (⟨rfl, _⟩ | ⟨rfl, _⟩) <;> decide

/-! ### Strings of several lines -/

/-- Blanks in front of space are space. -/
theorem Grammar.Blanks.space {word : List Char} (h : Blanks text rest) (hspace : Space rest word) :
    Space text word := by
  obtain ⟨blanks, rfl, hblanks⟩ := h
  induction blanks with
  | nil => exact hspace
  | cons c blanks ih =>
      obtain ⟨hc, hblanks⟩ := List.forall_mem_cons.mp hblanks
      exact .blank hc (ih hblanks)

theorem Grammar.Space.length_le (h : Space text rest) : rest.length ≤ text.length := by
  induction h with
  | none => exact Nat.le_refl _
  | blank _ _ ih => exact Nat.le_succ_of_le ih
  | newline hline _ ih => exact Nat.le_of_lt (Nat.lt_of_le_of_lt ih hline.length_lt)

/-- What is skipped is space. -/
theorem space_skipSpace (text : List Char) : Space text (skipSpace text) := by
  induction text using skipSpace.induct with
  | case1 => exact .none _
  | case2 r ih =>
      rw [skipSpace]
      exact .newline (.returned r) ih
  | case3 c r hline hspace ih =>
      rw [skipSpace, if_pos hspace]
      · rcases Bool.or_eq_true_iff.mp hspace with hblank | hfeed
        · exact .blank hblank ih
        · rw [beq_iff_eq.mp hfeed]
          exact .newline (.feed r) ih
      · exact hline
  | case4 c r hline hspace =>
      rw [skipSpace, if_neg hspace]
      · exact .none _
      · exact hline

/-- There is no space where nothing is skipped. -/
theorem skipSpace_of_settled (h : ∀ further, Space text further → further = text) :
    skipSpace text = text := h _ (space_skipSpace text)

/-- Space is skipped up to where there is none. -/
theorem skipSpace_eq (h : Space text rest) (hrest : ∀ further, Space rest further → further = rest) :
    skipSpace text = rest := by
  induction h with
  | none rest => exact skipSpace_of_settled hrest
  | @blank c text _ hc _ ih =>
      rw [skipSpace, if_pos (by rw [hc]; rfl), ih hrest]
      rintro r rfl
      cases hc
  | newline hline _ ih =>
      cases hline with
      | feed => rw [skipSpace, if_pos (by decide), ih hrest]; nofun
      | returned => rw [skipSpace, ih hrest]

/-- The quotes in front of other text. -/
theorem takeWhile_replicate {quote : Char} (n : Nat) (hrest : rest.head? ≠ some quote) :
    (List.replicate n quote ++ rest).takeWhile (· == quote) = List.replicate n quote := by
  refine takeWhile_append (fun c hc => beq_iff_eq.mpr (List.eq_of_mem_replicate hc)) ?_
  intro c hc
  rw [beq_eq_false_iff_ne]
  rintro rfl
  exact hrest hc

/-- One of the two kinds of quotes. -/
def IsQuote (quote : Char) : Prop := quote = '"' ∨ quote = '\''

/-- A quote is no line end. -/
theorem newline?_quote {quote : Char} (hquote : IsQuote quote) (rest : List Char) :
    newline? (quote :: rest) = none := by
  rcases hquote with rfl | rfl <;> rfl

section

variable {quote : Char}

/-! One step of the reader for each thing that it can find. -/

theorem multiline?_quotes (hquote : IsQuote quote) (k : Nat) (hrest : rest.head? ≠ some quote)
    (before : List Char) :
    multiline? quote (n + 1) before (List.replicate (k + 1) quote ++ rest) =
      let (done, kept, taken) := closing (List.replicate (k + 1) quote)
      let before := before ++ List.replicate kept quote
      let r := (List.replicate (k + 1) quote ++ rest).drop taken
      if done then some (before, r) else multiline? quote n before r := by
  have htake := takeWhile_replicate (k + 1) hrest
  rw [List.replicate_succ, List.cons_append] at htake ⊢
  conv => lhs; unfold multiline?
  simp only [newline?_quote hquote, beq_self_eq_true, if_true, htake]

/-- A line end is read as a line feed. -/
theorem multiline?_newline (h : Newline text rest) (before : List Char) :
    multiline? quote (n + 1) before text = multiline? quote n (before ++ ['\n']) rest := by
  cases h <;> rfl

/-- A character that stands for itself is read as it is. -/
theorem multiline?_char (hc : isText c = true) (hquote : c ≠ quote)
    (hescape : quote = '"' → c ≠ '\\') (before text : List Char) :
    multiline? quote (n + 1) before (c :: text) = multiline? quote n (before ++ [c]) text := by
  have hline : newline? (c :: text) = none := by
    refine newline?_cons_eq_none ?_ ?_ text <;>
    · rintro rfl
      cases hc
  conv => lhs; unfold multiline?
  simp only [hline]
  rw [if_neg (by simpa using hquote), if_neg (by simpa using hescape), if_pos hc]

/-- A backslash at the end of a line skips the space behind it. -/
theorem multiline?_joined {stop next : List Char} (hblanks : Blanks text stop)
    (hline : Newline stop next) (before : List Char) :
    multiline? '"' (n + 1) before ('\\' :: text) = multiline? '"' n before (skipSpace text) := by
  have hskip := skipBlanks_eq hblanks (hline.stops (by decide) (by decide))
  conv => lhs; unfold multiline?
  simp only [newline?_cons_eq_none (show '\\' ≠ '\n' by decide) (show '\\' ≠ '\r' by decide), hskip,
    newline?_eq_some_iff.mpr hline]
  rfl

/-- An escape is read as what it stands for. -/
theorem multiline?_escape {next : List Char} (hescape : Escape text c next) (before : List Char) :
    multiline? '"' (n + 1) before ('\\' :: text) = multiline? '"' n (before ++ [c]) next := by
  have hline : newline? (skipBlanks text) = none := by
    obtain ⟨d, r, rfl, hblank, hfeed, hreturn⟩ := hescape.exists_cons
    rw [skipBlanks, dropWhile_of_stops (stops_cons.mpr hblank)]
    exact newline?_cons_eq_none hfeed hreturn r
  conv => lhs; unfold multiline?
  simp only [newline?_cons_eq_none (show '\\' ≠ '\n' by decide) (show '\\' ≠ '\r' by decide), hline,
    escape?_eq_some_iff.mpr hescape]
  rfl

end

/-- All that the grammar says of a string of several lines is read, behind what has been read of it.
-/
theorem multiline?_eq {quote : Char} (hquote : IsQuote quote) (h : Multiline quote text said rest)
    (hrest : rest.head? ≠ some quote) (hn : text.length ≤ n) (before : List Char) :
    multiline? quote n before text = some (before ++ said, rest) := by
  induction h generalizing n before with
  | @close k hk rest =>
      cases n with
      | zero => simp at hn
      | succ n =>
          -- no quote follows, so that the reader counts just the quotes of the string and the
          -- closing ones
          have hclosing : closing (List.replicate (k + 3) quote) = (true, k, k + 3) := by
            unfold closing
            rw [List.length_replicate, if_neg (by omega), Nat.min_eq_left (by omega)]
            rfl
          have hdrop : (List.replicate (k + 3) quote ++ rest).drop (k + 3) = rest :=
            List.drop_left' List.length_replicate
          rw [multiline?_quotes hquote (k + 2) hrest, hclosing]
          simp only [if_true, hdrop]
  | @quotes k text _ _ hk hend _ ih =>
      obtain ⟨j, rfl⟩ : ∃ j, k = j + 1 := ⟨k - 1, by omega⟩
      cases n with
      | zero => simp at hn
      | succ n =>
          have hclosing : closing (List.replicate (j + 1) quote) = (false, j + 1, j + 1) := by
            unfold closing
            rw [List.length_replicate, if_pos (by omega)]
          have hdrop : (List.replicate (j + 1) quote ++ text).drop (j + 1) = text :=
            List.drop_left' List.length_replicate
          rw [multiline?_quotes hquote j hend, hclosing]
          simp only [Bool.false_eq_true, if_false, hdrop]
          rw [List.length_append, List.length_replicate] at hn
          rw [ih hrest (by omega), List.append_assoc]
  | newline hline _ ih =>
      have hlength := hline.length_lt
      cases n with
      | zero => omega
      | succ n =>
          rw [multiline?_newline hline, ih hrest (by omega), List.append_assoc]
          rfl
  | char hc hne hescape _ ih =>
      cases n with
      | zero => cases hn
      | succ n =>
          rw [multiline?_char hc hne hescape, ih hrest (Nat.le_of_succ_le_succ hn),
            List.append_assoc]
          rfl
  | escape hdouble hescape _ ih =>
      have hlength := hescape.length_lt
      cases hdouble
      cases n with
      | zero => cases hn
      | succ n =>
          rw [List.length_cons] at hn
          rw [multiline?_escape hescape, ih hrest (by omega), List.append_assoc]
          rfl
  | @joined text stop next word _ _ hdouble hblanks hline hspace hword _ ih =>
      cases hdouble
      -- the reader skips the blanks, the line end and the space behind it in one go
      have hall : Space text word := hblanks.space (.newline hline hspace)
      have hlength := hall.length_le
      cases n with
      | zero => cases hn
      | succ n =>
          rw [List.length_cons] at hn
          rw [multiline?_joined hblanks hline, skipSpace_eq hall hword, ih hrest (by omega)]

/-! ### Any string -/

/-- Behind a string stands no further quote. -/
def NoQuote (rest : List Char) : Prop := ∀ quote, IsQuote quote → rest.head? ≠ some quote

/-- All that the grammar says of a string is read, where no further quote stands behind it. -/
theorem string?_eq (h : Quoted text said rest) (hrest : NoQuote rest) :
    string? text = some (said, rest) := by
  cases h with
  | @basic text _ _ h =>
      -- three quotes would be an empty string with a quote behind it
      have hread : basic? (text.length + 1) [] text = some (said, rest) :=
        basic?_eq h (Nat.le_succ _) []
      unfold string?
      split
      · rename_i heq
        cases heq
        cases h with
        | close => exact absurd rfl (hrest '"' (Or.inl rfl))
        | char _ hquote => exact absurd rfl hquote
      · rename_i heq
        cases heq
      · rename_i heq
        cases heq
        exact hread
      · rename_i heq
        cases heq
      · rename_i hne _
        exact absurd rfl (hne text)
  | @literal text _ _ h =>
      unfold string?
      split
      · rename_i heq
        cases heq
      · rename_i heq
        cases heq
        cases h with
        | close => exact absurd rfl (hrest '\'' (Or.inr rfl))
        | char _ hquote => exact absurd rfl hquote
      · rename_i heq
        cases heq
      · rename_i heq
        cases heq
        exact literal?_eq_some_iff.mpr h
      · rename_i hne
        exact absurd rfl (hne text)
  | lines hquote hfirst h =>
      have hread := multiline?_eq hquote h (hrest _ hquote) (Nat.le_succ _) []
      rcases hquote with rfl | rfl <;>
      · unfold string?
        simp only [newline?_eq_none hfirst, Option.getD_none]
        exact hread
  | @linesBelow _ text _ _ _ hquote hfirst h =>
      have hlength := hfirst.length_lt
      have hread := multiline?_eq (n := text.length + 1) hquote h (hrest _ hquote) (by omega) []
      rcases hquote with rfl | rfl <;>
      · unfold string?
        simp only [newline?_eq_some_iff.mpr hfirst, Option.getD_some]
        exact hread

/-- The closing quote at least is taken. -/
theorem Grammar.Basic.length_lt (h : Basic text said rest) : rest.length < text.length := by
  induction h with
  | close => exact Nat.lt_succ_self _
  | char _ _ _ _ ih => exact Nat.lt_succ_of_lt ih
  | escape hescape _ ih => exact Nat.lt_succ_of_lt (Nat.lt_trans ih hescape.length_lt)

theorem Grammar.Literal.length_lt (h : Literal text said rest) : rest.length < text.length := by
  induction h with
  | close => exact Nat.lt_succ_self _
  | char _ _ _ ih => exact Nat.lt_succ_of_lt ih

theorem Grammar.Multiline.length_le {quote : Char} (h : Multiline quote text said rest) :
    rest.length ≤ text.length := by
  induction h with
  | close => rw [List.length_append]; exact Nat.le_add_left _ _
  | quotes _ _ _ ih => rw [List.length_append]; exact Nat.le_trans ih (Nat.le_add_left _ _)
  | newline hline _ ih => exact Nat.le_trans ih (Nat.le_of_lt hline.length_lt)
  | char _ _ _ _ ih => exact Nat.le_succ_of_le ih
  | escape _ hescape _ ih =>
      exact Nat.le_succ_of_le (Nat.le_trans ih (Nat.le_of_lt hescape.length_lt))
  | joined _ hblanks hline hspace _ _ ih =>
      exact Nat.le_succ_of_le (Nat.le_trans ih (hblanks.space (.newline hline hspace)).length_le)

theorem Grammar.Quoted.length_le (h : Quoted text said rest) : rest.length ≤ text.length := by
  cases h with
  | basic h => exact Nat.le_succ_of_le (Nat.le_of_lt h.length_lt)
  | literal h => exact Nat.le_succ_of_le (Nat.le_of_lt h.length_lt)
  | lines _ _ h =>
      have hlength := h.length_le
      simp only [List.length_cons]
      omega
  | linesBelow _ hfirst h =>
      have hlength := h.length_le
      have hline := hfirst.length_lt
      simp only [List.length_cons]
      omega

/-! ## Keys -/

/-- A blank does not belong to a key. -/
theorem isKeyChar_of_isBlank (c : Char) (hc : isBlank c = true) : isKeyChar c = false := by
  rcases Bool.or_eq_true_iff.mp hc with hc | hc
  · rw [beq_iff_eq.mp hc]
    decide
  · rw [beq_iff_eq.mp hc]
    decide

/-- What belongs to a key is no blank. -/
theorem isBlank_of_isKeyChar (hc : isKeyChar c = true) : isBlank c = false := by
  cases hblank : isBlank c with
  | false => rfl
  | true => rw [isKeyChar_of_isBlank c hblank] at hc; cases hc

/-- All of a part of a key is read where no character of keys follows. -/
theorem keyPart?_eq {part : String} (h : KeyPart text part rest) (hrest : Stops isKeyChar rest) :
    keyPart? text = some (part, rest) := by
  unfold keyPart?
  cases h with
  | @basic text _ _ h =>
      have hread : basic? (text.length + 1) [] text = some _ := basic?_eq h (Nat.le_succ _) []
      simp only [hread]
      rfl
  | literal h =>
      simp only [literal?_eq_some_iff.mpr h]
      rfl
  | @bare said hne hsaid =>
      obtain ⟨c, more, rfl⟩ := List.exists_cons_of_ne_nil hne
      have hc := hsaid c List.mem_cons_self
      have htake := takeWhile_append hsaid hrest
      have hdrop : ((c :: more) ++ rest).drop (c :: more).length = rest := List.drop_left
      split
      · rename_i heq
        cases heq
        cases hc
      · rename_i heq
        cases heq
        cases hc
      · simp only [htake, hdrop]
        rfl

/-- No part of a key begins with a blank. -/
theorem Grammar.KeyPart.stops_isBlank {part : String} (h : KeyPart text part rest) :
    Stops isBlank text := by
  cases h with
  | basic => exact stops_cons.mpr (by decide)
  | literal => exact stops_cons.mpr (by decide)
  | bare hne hsaid =>
      obtain ⟨c, more, rfl⟩ := List.exists_cons_of_ne_nil hne
      exact stops_cons.mpr (isBlank_of_isKeyChar (hsaid c List.mem_cons_self))

theorem Grammar.KeyPart.length_lt {part : String} (h : KeyPart text part rest) :
    rest.length < text.length := by
  cases h with
  | basic h => exact Nat.lt_succ_of_lt h.length_lt
  | literal h => exact Nat.lt_succ_of_lt h.length_lt
  | bare hne =>
      rw [List.length_append]
      have hpos := List.length_pos_iff.mpr hne
      omega

/-- Behind a key stands neither a blank nor something that would belong to the key. -/
def EndsKey (rest : List Char) : Prop :=
  Stops (fun c => isBlank c || isKeyChar c || c == '.') rest

/-- A key takes one character at least. -/
theorem Grammar.DottedKey.length_lt {key : Key} (h : DottedKey text key rest) :
    rest.length < text.length := by
  induction h with
  | last hbefore hpart hbehind =>
      exact Nat.lt_of_le_of_lt hbehind.length_le
        (Nat.lt_of_lt_of_le hpart.length_lt hbefore.length_le)
  | more hbefore hpart hbehind _ ih =>
      have hdot := hbehind.length_le
      rw [List.length_cons] at hdot
      have hstop := hpart.length_lt
      have hstart := hbefore.length_le
      omega

/-- All parts of a key are read where the key ends. -/
theorem keyParts?_eq {key : Key} (h : DottedKey text key rest) (hrest : EndsKey rest)
    (hn : text.length ≤ n) : keyParts? n text = some (key, rest) := by
  induction h generalizing n with
  | @last text start stop rest part hbefore hpart hbehind =>
      have hlength := (DottedKey.last hbefore hpart hbehind).length_lt
      cases n with
      | zero => omega
      | succ n =>
          have hstop : Stops isKeyChar stop :=
            hbehind.stops isKeyChar_of_isBlank (hrest.mono (by simp +contextual))
          unfold keyParts?
          rw [skipBlanks_eq hbefore hpart.stops_isBlank, keyPart?_eq hpart hstop]
          simp only [Option.bind_eq_bind, Option.bind_some]
          rw [skipBlanks_eq hbehind (hrest.mono (by simp +contextual))]
          split
          · exact absurd (stops_cons.mp hrest) (by decide)
          · rfl
  | @more text start stop next rest part key hbefore hpart hbehind _ ih =>
      have hdot := hbehind.length_le
      rw [List.length_cons] at hdot
      have hpartLength := hpart.length_lt
      have hstart := hbefore.length_le
      cases n with
      | zero => omega
      | succ n =>
          have hstop : Stops isKeyChar stop :=
            hbehind.stops isKeyChar_of_isBlank (stops_cons.mpr (by decide))
          unfold keyParts?
          rw [skipBlanks_eq hbefore hpart.stops_isBlank, keyPart?_eq hpart hstop]
          simp only [Option.bind_eq_bind, Option.bind_some]
          rw [skipBlanks_eq hbehind (stops_cons.mpr (by decide))]
          have hmore : keyParts? n next = some (key, rest) := ih hrest (by omega)
          simp only [hmore]
          rfl

/-- All that the grammar says of a key is read, where the key ends. -/
theorem key?_eq {limit : Nat} {key : Key} (h : DottedKey text key rest) (hparts : key.length ≤ limit)
    (hrest : EndsKey rest) : key? limit text = some (key, rest) := by
  unfold key?
  rw [keyParts?_eq h hrest (Nat.le_succ _)]
  simp only [Option.bind_eq_bind, Option.bind_some, hparts]
  rfl

end OperatorBundle.Toml
