/-!
# The order of texts by their bytes

Texts are compared character by character.  In UTF-8 this is the order of the encoded bytes as well:
the first byte of a character already tells how many follow, and more bytes mean a greater first
one.
-/

namespace OperatorBundle.Text

/-- The bytes of a text in UTF-8. -/
def bytes (s : String) : List UInt8 := s.toUTF8.data.toList

/-- The bytes of a text are those of its characters, one after the other. -/
theorem bytes_eq (s : String) : bytes s = s.toList.flatMap String.utf8EncodeChar := by
  have h : s.toUTF8 = s.toList.utf8Encode := by
    rw [String.toUTF8_eq_toByteArray, ← String.toByteArray_ofList, String.ofList_toList]
  rw [bytes, h, List.utf8Encode, List.toList_data_toByteArray]

theorem ofNat_lt_ofNat {m n : Nat} (h : m < n) (hn : n < 256) : UInt8.ofNat m < UInt8.ofNat n := by
  rw [UInt8.lt_iff_toNat_lt, UInt8.toNat_ofNat', UInt8.toNat_ofNat']
  omega

/-- Two lists of bytes differ first at a byte that is less in the first list. -/
inductive Before : List UInt8 → List UInt8 → Prop where
  | head {x y : UInt8} (s t : List UInt8) (h : x < y) : Before (x :: s) (y :: t)
  | tail (x : UInt8) {s t : List UInt8} (h : Before s t) : Before (x :: s) (x :: t)

/-- What follows does not matter once two bytes differ. -/
theorem Before.append {s t : List UInt8} (h : Before s t) (u v : List UInt8) :
    Before (s ++ u) (t ++ v) := by
  induction h with
  | head s t h => exact .head (s ++ u) (t ++ v) h
  | tail x _ ih => exact .tail x ih

/-- The order of bytes is kept behind the same bytes. -/
theorem Before.prepend {s t : List UInt8} (u : List UInt8) (h : Before s t) :
    Before (u ++ s) (u ++ t) := by
  induction u with
  | nil => exact h
  | cons x u ih => exact .tail x ih

/-- Bytes that come before others are less. -/
theorem Before.lt {s t : List UInt8} (h : Before s t) : s < t := by
  induction h with
  | head s t h => exact List.Lex.rel h
  | tail x _ ih => exact List.Lex.cons ih

theorem before_of_lt {a b : Nat} {s t : List UInt8} (h : a < b) (hb : b < 256) :
    Before (UInt8.ofNat a :: s) (UInt8.ofNat b :: t) :=
  .head s t (ofNat_lt_ofNat h hb)

/-- Two codes in base 64 are told apart in front of the last digit, or else by that digit. -/
theorem before_digit (front : Nat → List UInt8) {m n : Nat} (h : m < n)
    (hfront : m / 64 < n / 64 → Before (front (m / 64)) (front (n / 64))) :
    Before (front (m / 64) ++ [UInt8.ofNat (m % 64 + 128)])
      (front (n / 64) ++ [UInt8.ofNat (n % 64 + 128)]) := by
  rcases Nat.lt_or_eq_of_le (Nat.div_le_div_right (c := 64) (Nat.le_of_lt h)) with hlt | heq
  · exact (hfront hlt).append _ _
  · rw [heq]
    exact (before_of_lt (by omega) (by omega)).prepend _

/-- A lesser character has lesser bytes, and its bytes are no beginning of the other's. -/
theorem before_utf8EncodeChar {c d : Char} (h : c < d) :
    Before (String.utf8EncodeChar c) (String.utf8EncodeChar d) := by
  have hlt : c.val.toNat < d.val.toNat := h
  have hd : d.val.toNat < 0x110000 := by
    rcases d.valid with hd | hd
    · exact Nat.lt_trans hd (by decide)
    · exact hd.2
  generalize hm : c.val.toNat = m at hlt
  generalize hn : d.val.toNat = n at hlt hd
  have hsquare : ∀ k : Nat, k / 4096 = k / 64 / 64 := fun k => by omega
  have hcube : ∀ k : Nat, k / 262144 = k / 64 / 64 / 64 := fun k => by omega
  simp only [String.utf8EncodeChar, hm, hn, hsquare, hcube]
  -- one case for each number of bytes of the lesser character; the other has as many or more
  split
  · split
    · exact before_of_lt hlt (by omega)
    · split
      · exact before_of_lt (by omega) (by omega)
      · split <;> exact before_of_lt (by omega) (by omega)
  · rw [if_neg (by omega : ¬ n ≤ 127)]
    split
    · split
      · exact before_digit (fun k => [UInt8.ofNat (k % 32 + 192)]) hlt fun h =>
          before_of_lt (by omega) (by omega)
      · split <;> exact before_of_lt (by omega) (by omega)
    · rw [if_neg (by omega : ¬ n ≤ 2047)]
      split
      · split
        · exact before_digit
            (fun k => [UInt8.ofNat (k / 64 % 16 + 224), UInt8.ofNat (k % 64 + 128)]) hlt fun h =>
              before_digit (fun k => [UInt8.ofNat (k % 16 + 224)]) h fun h =>
                before_of_lt (by omega) (by omega)
        · exact before_of_lt (by omega) (by omega)
      · rw [if_neg (by omega : ¬ n ≤ 65535)]
        exact before_digit (fun k => [UInt8.ofNat (k / 64 / 64 % 8 + 240),
            UInt8.ofNat (k / 64 % 64 + 128), UInt8.ofNat (k % 64 + 128)]) hlt fun h =>
          before_digit (fun k => [UInt8.ofNat (k / 64 % 8 + 240), UInt8.ofNat (k % 64 + 128)]) h
            fun h => before_digit (fun k => [UInt8.ofNat (k % 8 + 240)]) h fun h =>
              before_of_lt (by omega) (by omega)

/-- The greater text has the greater bytes. -/
theorem flatMap_utf8EncodeChar_lt {a b : List Char} (h : a < b) :
    a.flatMap String.utf8EncodeChar < b.flatMap String.utf8EncodeChar := by
  induction h with
  | nil =>
      rename_i d b
      rw [List.flatMap_nil, List.flatMap_cons]
      cases hd : String.utf8EncodeChar d with
      | nil => exact absurd hd String.utf8EncodeChar_ne_nil
      | cons x s => exact List.nil_lt_cons x _
  | cons _ ih =>
      rw [List.flatMap_cons, List.flatMap_cons]
      exact List.append_left_lt ih
  | rel h =>
      rw [List.flatMap_cons, List.flatMap_cons]
      exact ((before_utf8EncodeChar h).append _ _).lt

/-- A lesser text has lesser bytes. -/
theorem bytes_lt_bytes {a b : String} (h : a < b) : bytes a < bytes b := by
  rw [bytes_eq, bytes_eq]
  exact flatMap_utf8EncodeChar_lt (String.lt_iff.mp h)

end OperatorBundle.Text
