import OperatorBundle.Proofs.Yaml.Cursor
import OperatorBundle.Yaml.Token.Scalar

/-!
# Escapes mean the characters they were made for

Hexadecimal digits write a number, and what stands behind a backslash in double quotes stands for
the character that was escaped.
-/

namespace OperatorBundle.Yaml

/-! ## Hexadecimal digits -/

namespace Layout

theorem hexDigit?_hexDigit : ∀ n < 16, hexDigit? (hexDigit n) = some n := by decide

theorem length_hexDigits (width n : Nat) : (hexDigits width n).length = width := by
  induction width generalizing n with
  | zero => rfl
  | succ width ih => rw [hexDigits, List.length_append, ih, List.length_singleton]

/-- The digits of a number write it, as far as their number goes. -/
theorem hexNumber?_hexDigits (width n : Nat) :
    hexNumber? (hexDigits width n) = some (n % 16 ^ width) := by
  induction width generalizing n with
  | zero => simp [hexDigits, hexNumber?, Nat.mod_one]
  | succ width ih =>
      have hstart : (hexDigits width (n / 16)).foldlM (fun n c => (16 * n + ·) <$> hexDigit? c) 0 =
          some (n / 16 % 16 ^ width) := ih (n / 16)
      have hlast := hexDigit?_hexDigit (n % 16) (Nat.mod_lt n (by decide))
      rw [hexNumber?, hexDigits, List.foldlM_append, hstart]
      simp only [Option.bind_eq_bind, Option.bind_some, List.foldlM_cons, List.foldlM_nil, hlast,
        Option.map_eq_map, Option.map_some, Option.pure_def]
      rw [Nat.pow_succ, Nat.mul_comm (16 ^ width) 16, Nat.mod_mul]
      exact congrArg some (Nat.add_comm _ _)

theorem mem_hexDigits {width n : Nat} {x : Char} (h : x ∈ hexDigits width n) :
    ∃ d < 16, x = hexDigit d := by
  induction width generalizing n with
  | zero => exact absurd h List.not_mem_nil
  | succ width ih =>
      rw [hexDigits] at h
      rcases List.mem_append.mp h with h | h
      · exact ih h
      · exact ⟨n % 16, Nat.mod_lt n (by decide), List.mem_singleton.mp h⟩

end Layout

/-- The code point of a character is that of this character. -/
theorem charOfCode?_toNat (c : Char) : charOfCode? c.toNat = some c := by
  have hvalid : c.toNat.isValidChar := c.valid
  unfold charOfCode?
  rw [dif_pos hvalid]
  rfl

theorem toNat_lt (c : Char) : c.toNat < 0x110000 := by
  have hvalid : c.toNat.isValidChar := c.valid
  rcases hvalid with h | ⟨_, h⟩
  · omega
  · exact h

/-! ## Escapes -/

namespace Scalar

theorem escape?_of_escapeLetter? {c letter : Char} (h : Layout.escapeLetter? c = some letter) :
    escape? letter = some c ∧ isInk letter = true := by
  unfold Layout.escapeLetter? at h
  split at h
  all_goals cases h
  all_goals exact ⟨rfl, rfl⟩

/-- Digits behind an escape stand for the character whose code point they write. -/
theorem escapedCode?_hexDigits {c : Char} {width : Nat} (h : c.toNat < 16 ^ width)
    (r : List Char) : escapedCode? width (Layout.hexDigits width c.toNat ++ r) = some c := by
  have htake : (Layout.hexDigits width c.toNat ++ r).take width =
      Layout.hexDigits width c.toNat := List.take_left' (Layout.length_hexDigits width c.toNat)
  rw [escapedCode?, htake]
  simp only [Layout.length_hexDigits, beq_self_eq_true, if_true]
  rw [Layout.hexNumber?_hexDigits, Nat.mod_eq_of_lt h]
  exact charOfCode?_toNat c

/-- What is written for a character that needs an escape: a letter behind the backslash, or the mark
of a code point and its digits. -/
theorem escape_shape (c : Char) :
    (∃ letter, Layout.escape c = ['\\', letter] ∧ escape? letter = some c ∧
      isInk letter = true) ∨
    ∃ mark width, Layout.escape c = '\\' :: mark :: Layout.hexDigits width c.toNat ∧
      escape? mark = none ∧ escapeWidth? mark = some width ∧ isInk mark = true ∧
      c.toNat < 16 ^ width := by
  unfold Layout.escape
  cases hletter : Layout.escapeLetter? c with
  | some letter =>
      left
      have hfound := escape?_of_escapeLetter? hletter
      exact ⟨letter, rfl, hfound.1, hfound.2⟩
  | none =>
      right
      simp only
      split
      · exact ⟨'x', 2, rfl, rfl, rfl, rfl, by omega⟩
      split
      · exact ⟨'u', 4, rfl, rfl, rfl, rfl, by omega⟩
      · have hlt := toNat_lt c
        exact ⟨'U', 8, rfl, rfl, rfl, rfl, by omega⟩

end Scalar

namespace Layout

theorem hexDigit_isInk : ∀ n < 16, isInk (hexDigit n) = true := by decide

theorem isInk_of_mem_hexDigits {width n : Nat} {x : Char} (h : x ∈ hexDigits width n) :
    isInk x = true := by
  rcases mem_hexDigits h with ⟨d, hd, rfl⟩
  exact hexDigit_isInk d hd

theorem isInk_of_mem_escape {c x : Char} (h : x ∈ escape c) : isInk x = true := by
  rcases Scalar.escape_shape c with ⟨letter, hescape, _, hletter⟩ |
    ⟨mark, width, hescape, _, _, hmark, _⟩
  · rw [hescape] at h
    rcases List.mem_cons.mp h with rfl | h
    · rfl
    · rw [List.mem_singleton.mp h]
      exact hletter
  · rw [hescape] at h
    rcases List.mem_cons.mp h with rfl | h
    · rfl
    rcases List.mem_cons.mp h with rfl | h
    · exact hmark
    · exact isInk_of_mem_hexDigits h

end Layout

end OperatorBundle.Yaml
