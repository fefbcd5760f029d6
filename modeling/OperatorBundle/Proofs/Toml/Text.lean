import Mathlib.Data.Option.Basic
import OperatorBundle.Proofs.Text.Classes
import OperatorBundle.Proofs.Toml.Grammar

/-!
# Readers of texts

What the readers of blanks, line ends, strings and keys find is what the grammar says, and where
something follows that ends the text, they find all that the grammar says.
-/

namespace OperatorBundle.Toml

open Grammar Text

variable {text rest said : List Char} {c : Char} {n : Nat}

/-! ## Between words -/

theorem blanks_refl (text : List Char) : Blanks text text := ⟨[], rfl, nofun⟩

/-- What is skipped are blanks. -/
theorem blanks_skipBlanks (text : List Char) : Blanks text (skipBlanks text) :=
  ⟨text.takeWhile isBlank, List.takeWhile_append_dropWhile.symm, fun _ => of_mem_takeWhile⟩

/-- Blanks are skipped up to a word. -/
theorem skipBlanks_eq (h : Blanks text rest) (hrest : Stops isBlank rest) :
    skipBlanks text = rest := by
  obtain ⟨blanks, rfl, hblanks⟩ := h
  exact dropWhile_append hblanks hrest

/-- Where blanks are left out the same is skipped to. -/
theorem skipBlanks_congr (h : Blanks text rest) : skipBlanks text = skipBlanks rest := by
  obtain ⟨blanks, rfl, hblanks⟩ := h
  exact List.dropWhile_append_of_pos hblanks

theorem Grammar.Blanks.length_le (h : Blanks text rest) : rest.length ≤ text.length := by
  obtain ⟨blanks, rfl, _⟩ := h
  rw [List.length_append]
  exact Nat.le_add_left _ _

/-- Blanks are of no class that the text behind them is not of either. -/
theorem Grammar.Blanks.stops {p : Char → Bool} (h : Blanks text rest)
    (hp : ∀ c, isBlank c = true → p c = false) (hrest : Stops p rest) : Stops p text := by
  obtain ⟨blanks, rfl, hblanks⟩ := h
  cases blanks with
  | nil => exact hrest
  | cons c blanks => exact stops_cons.mpr (hp c (hblanks c List.mem_cons_self))

/-- The reader of line ends finds just the line ends. -/
theorem newline?_eq_some_iff : newline? text = some rest ↔ Newline text rest := by
  constructor
  · intro h
    unfold newline? at h
    split at h
    · cases h
      exact .feed _
    · cases h
      exact .returned _
    · cases h
  · intro h
    cases h <;> rfl

theorem newline?_eq_none (h : ∀ next, ¬ Newline text next) : newline? text = none :=
  Option.eq_none_iff_forall_ne_some.mpr fun next hnext => h next (newline?_eq_some_iff.mp hnext)

/-- Only a line feed or a carriage return begins a line end. -/
theorem newline?_cons_eq_none (hfeed : c ≠ '\n') (hreturn : c ≠ '\r') (rest : List Char) :
    newline? (c :: rest) = none := by
  refine newline?_eq_none ?_
  rintro next (_ | _)
  · exact hfeed rfl
  · exact hreturn rfl

/-- A line end begins with a character that no text holds and that is no blank. -/
theorem Grammar.Newline.stops {p : Char → Bool} (h : Newline text rest) (hfeed : p '\n' = false)
    (hreturn : p '\r' = false) : Stops p text := by
  cases h with
  | feed => exact stops_cons.mpr hfeed
  | returned => exact stops_cons.mpr hreturn

theorem Grammar.Newline.length_lt (h : Newline text rest) : rest.length < text.length := by
  cases h with
  | feed => exact Nat.lt_succ_self _
  | returned => exact Nat.lt_succ_of_lt (Nat.lt_succ_self _)

theorem Grammar.Comment.length_le (h : Comment text rest) : rest.length ≤ text.length := by
  cases h with
  | none => exact Nat.le_refl _
  | some =>
      rw [List.length_cons, List.length_append]
      omega

/-- What is skipped is a comment. -/
theorem comment_skipComment (text : List Char) : Comment text (skipComment text) := by
  unfold skipComment
  split
  · rename_i r
    have hsaid : ∀ c ∈ r.takeWhile isText, isText c = true := fun _ => of_mem_takeWhile
    have h := Comment.some hsaid (r.dropWhile isText)
    rwa [List.takeWhile_append_dropWhile] at h
  · exact .none _

/-- Where no comment begins, none is skipped. -/
theorem skipComment_of_stops (h : Stops (· == '#') text) : skipComment text = text := by
  unfold skipComment
  split
  · exact absurd (stops_cons.mp h) (by decide)
  · rfl

/-- A comment is skipped up to the end of its line or of the text. -/
theorem skipComment_eq (h : Comment text rest) (htext : Stops isText rest)
    (hmark : Stops (· == '#') rest) : skipComment text = rest := by
  cases h with
  | none => exact skipComment_of_stops hmark
  | some hsaid => exact dropWhile_append hsaid htext

/-- A comment does not begin with a blank. -/
theorem Grammar.Comment.stops_isBlank (h : Comment text rest) (hrest : Stops isBlank rest) :
    Stops isBlank text := by
  cases h with
  | none => exact hrest
  | some => exact stops_cons.mpr (by decide)

/-- The reader of ends of lines finds just these ends. -/
theorem lineEnd?_eq_some_iff : lineEnd? text = some rest ↔ LineEnd text rest := by
  constructor
  · intro h
    have hblanks := blanks_skipBlanks text
    have hcomment := comment_skipComment (skipBlanks text)
    unfold lineEnd? at h
    split at h
    · rename_i hstop
      cases h
      exact .last hblanks (hstop ▸ hcomment)
    · exact .line hblanks hcomment (newline?_eq_some_iff.mp h)
  · intro h
    unfold lineEnd?
    cases h with
    | line hblanks hcomment hline =>
        have hword := hcomment.stops_isBlank (hline.stops (by decide) (by decide))
        rw [skipBlanks_eq hblanks hword, skipComment_eq hcomment (hline.stops (by decide) (by decide))
          (hline.stops (by decide) (by decide))]
        cases hline <;> rfl
    | last hblanks hcomment =>
        rw [skipBlanks_eq hblanks (hcomment.stops_isBlank stops_nil),
          skipComment_eq hcomment stops_nil stops_nil]

theorem Grammar.LineEnd.length_le (h : LineEnd text rest) : rest.length ≤ text.length := by
  cases h with
  | line hblanks hcomment hline =>
      exact Nat.le_trans (Nat.le_of_lt hline.length_lt)
        (Nat.le_trans hcomment.length_le hblanks.length_le)
  | last => exact Nat.zero_le _

/-! ### Between the items of an array -/

/-- Does something begin here that is neither blank, nor the end of a line, nor a comment? -/
def Starts (rest : List Char) : Prop :=
  Stops (fun c => isBlank c || c == '\n' || c == '\r' || c == '#') rest

theorem Starts.stops_isBlank (h : Starts rest) : Stops isBlank rest :=
  h.mono fun c hc => by rw [hc]; rfl

theorem Starts.stops_mark (h : Starts rest) : Stops (· == '#') rest :=
  h.mono fun c hc => by rw [hc, Bool.or_true]

/-- Where something begins, no line ends. -/
theorem Starts.newline?_eq_none (h : Starts rest) : newline? rest = none := by
  cases rest with
  | nil => rfl
  | cons c r =>
      have hclass := stops_cons.mp h
      simp only [Bool.or_eq_false_iff, beq_eq_false_iff_ne] at hclass
      exact newline?_cons_eq_none hclass.1.1.2 hclass.1.2 r

theorem Grammar.Gap.length_le (h : Gap text rest) : rest.length ≤ text.length := by
  induction h with
  | blanks h => exact h.length_le
  | line hblanks hcomment hline _ ih =>
      exact Nat.le_trans ih (Nat.le_trans (Nat.le_of_lt hline.length_lt)
        (Nat.le_trans hcomment.length_le hblanks.length_le))

/-- What is skipped is a gap. -/
theorem gap_skipLines (n : Nat) (text : List Char) : Gap text (skipLines n text) := by
  induction n generalizing text with
  | zero => exact .blanks (blanks_refl text)
  | succ n ih =>
      unfold skipLines
      simp only
      split
      · rename_i next hnext
        exact .line (blanks_skipBlanks text) (comment_skipComment _)
          (newline?_eq_some_iff.mp hnext) (ih next)
      · exact .blanks (blanks_skipBlanks text)

/-- A gap is skipped up to where something begins. -/
theorem skipLines_eq (h : Gap text rest) (hrest : Starts rest) (hn : text.length ≤ n) :
    skipLines n text = rest := by
  induction h generalizing n with
  | @blanks text rest hblanks =>
      cases n with
      | zero =>
          -- the steps run out only where no text is left
          obtain rfl := List.length_eq_zero_iff.mp (Nat.le_zero.mp hn)
          obtain ⟨blanks, hnil, _⟩ := hblanks
          exact (List.append_eq_nil_iff.mp hnil.symm).2.symm
      | succ n =>
          unfold skipLines
          simp only
          rw [skipBlanks_eq hblanks hrest.stops_isBlank, skipComment_of_stops hrest.stops_mark,
            hrest.newline?_eq_none]
  | line hblanks hcomment hline _ ih =>
      have hshown := hblanks.length_le
      have hstop := hcomment.length_le
      have hnext := hline.length_lt
      cases n with
      | zero => omega
      | succ n =>
          have hword := hcomment.stops_isBlank (hline.stops (by decide) (by decide))
          unfold skipLines
          simp only
          rw [skipBlanks_eq hblanks hword,
            skipComment_eq hcomment (hline.stops (by decide) (by decide))
              (hline.stops (by decide) (by decide)),
            newline?_eq_some_iff.mpr hline]
          exact ih hrest (by omega)

/-! ## Escapes -/

/-- The characters with an escape of their own are those of the list. -/
theorem escapeChar?_eq_some_iff {mark : Char} :
    escapeChar? mark = some c ↔ (mark, c) ∈ escapes := by
  constructor
  · intro h
    unfold escapeChar? at h
    split at h <;> first | (cases h; decide) | cases h
  · intro h
    simp only [escapes, List.mem_cons, Prod.mk.injEq, List.not_mem_nil, or_false] at h
    rcases h with ⟨rfl, rfl⟩ | ⟨rfl, rfl⟩ | ⟨rfl, rfl⟩ | ⟨rfl, rfl⟩ | ⟨rfl, rfl⟩ | ⟨rfl, rfl⟩ |
      ⟨rfl, rfl⟩ <;> rfl

/-- The code that digits give, where all are digits. -/
theorem foldlM_digit?_eq_some_iff {digits : List Char} {start code : Nat} :
    digits.foldlM (fun n c => (16 * n + ·) <$> digit? 16 c) start = some code ↔
      (∀ d ∈ digits, IsDigit 16 d) ∧
        code = digits.foldl (fun n c => 16 * n + (digit? 16 c).getD 0) start := by
  induction digits generalizing start with
  | nil =>
      rw [List.foldlM_nil, List.foldl_nil]
      exact ⟨fun h => ⟨nofun, (Option.some.inj h).symm⟩, fun h => congrArg some h.2.symm⟩
  | cons d digits ih =>
      rw [List.foldlM_cons, List.foldl_cons, List.forall_mem_cons]
      cases hd : digit? 16 d with
      | none =>
          refine iff_of_false nofun ?_
          rintro ⟨⟨hdigit, _⟩, _⟩
          rw [IsDigit, hd] at hdigit
          cases hdigit
      | some v =>
          have hdigit : IsDigit 16 d := by rw [IsDigit, hd]; rfl
          show digits.foldlM _ (16 * start + v) = some code ↔ _
          rw [ih, Option.getD_some]
          exact and_congr_left fun _ => (and_iff_right hdigit).symm

/-- A code is read if all its digits are there and it is that of a character. -/
theorem escapeCode?_eq_some_iff {width : Nat} :
    escapeCode? width text = some (c, rest) ↔
      ∃ digits, text = digits ++ rest ∧ digits.length = width ∧ (∀ d ∈ digits, IsDigit 16 d) ∧
        c.toNat = number 16 digits := by
  unfold escapeCode?
  constructor
  · intro h
    obtain ⟨_, hlength, h⟩ := Option.bind_eq_some_iff.mp h
    obtain ⟨code, hcode, h⟩ := Option.bind_eq_some_iff.mp h
    obtain ⟨hdigits, hcode⟩ := foldlM_digit?_eq_some_iff.mp hcode
    -- surrogates, and numbers past the last character, are codes of no character
    by_cases hvalid : code.isValidChar
    · rw [dif_pos hvalid] at h
      cases h
      exact ⟨text.take width, (List.take_append_drop width text).symm,
        beq_iff_eq.mp ((Option.guard_eq_some' _).mp hlength), hdigits, hcode⟩
    · rw [dif_neg hvalid] at h
      cases h
  · rintro ⟨digits, rfl, rfl, hdigits, hcode⟩
    have htake : (digits ++ rest).take digits.length = digits := List.take_left
    have hdrop : (digits ++ rest).drop digits.length = rest := List.drop_left
    rw [htake, hdrop]
    refine Option.bind_eq_some_iff.mpr ⟨(), (Option.guard_eq_some' _).mpr (beq_self_eq_true _),
      Option.bind_eq_some_iff.mpr ⟨c.toNat, foldlM_digit?_eq_some_iff.mpr ⟨hdigits, hcode⟩, ?_⟩⟩
    rw [dif_pos (show c.toNat.isValidChar from c.valid)]
    exact congrArg (fun d => some (d, rest)) (Char.toNat_inj.mp rfl)

/-- The reader of escapes finds just the escapes. -/
theorem escape?_eq_some_iff : escape? text = some (c, rest) ↔ Escape text c rest := by
  constructor
  · intro h
    unfold escape? at h
    split at h
    · obtain ⟨digits, rfl, hlength, hdigits, hc⟩ := escapeCode?_eq_some_iff.mp h
      exact .code (by rw [hlength]; decide) hdigits hc rest
    · obtain ⟨digits, rfl, hlength, hdigits, hc⟩ := escapeCode?_eq_some_iff.mp h
      exact .code (by rw [hlength]; decide) hdigits hc rest
    · obtain ⟨d, hd, heq⟩ := Option.map_eq_some_iff.mp h
      cases heq
      exact .short (escapeChar?_eq_some_iff.mp hd) rest
    · cases h
  · intro h
    cases h with
    | @short mark _ hmark =>
        -- the marks of codes are not among the characters with an escape of their own
        have hchar := escapeChar?_eq_some_iff.mpr hmark
        unfold escape?
        split
        · rename_i heq
          cases heq
          cases hchar
        · rename_i heq
          cases heq
          cases hchar
        · rename_i heq
          cases heq
          rw [hchar]
          rfl
        · rename_i heq
          cases heq
    | code hmark hdigits hc =>
        simp only [codeLengths, List.mem_cons, Prod.mk.injEq, List.not_mem_nil, or_false] at hmark
        rcases hmark with ⟨rfl, hlength⟩ | ⟨rfl, hlength⟩
        · exact escapeCode?_eq_some_iff.mpr ⟨_, rfl, hlength, hdigits, hc⟩
        · exact escapeCode?_eq_some_iff.mpr ⟨_, rfl, hlength, hdigits, hc⟩

theorem Grammar.Escape.length_lt (h : Escape text c rest) : rest.length < text.length := by
  cases h with
  | short => exact Nat.lt_succ_self _
  | code =>
      rw [List.length_cons, List.length_append]
      omega

end OperatorBundle.Toml
