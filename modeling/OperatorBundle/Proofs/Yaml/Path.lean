import OperatorBundle.Proofs.Text.Split
import OperatorBundle.Proofs.Yaml.Alter
import OperatorBundle.Yaml.Path
import Mathlib.Data.List.TakeWhile

/-!
# How paths are written

`IsPath` says which texts are paths, and which steps they write: segments between periods
(`IsSegment`), each of them a key, which may be empty, and positions in brackets behind it
(`ArePositions`).  These texts are read, as these steps, and no others (`steps?_eq_some_iff`).  Steps
are written in one of the ways there are, and read again (`steps?_of_printed`).  A path behind another
and a period leads on from where that one ends (`lookup?_append`).
-/

namespace OperatorBundle.Yaml.Path

/-! ## Positions -/

/-- Are these the decimal digits of a number of 64 bits?  There may be zeros in front. -/
structure AreDigitsOf (digits : List Char) (n : Nat) : Prop where
  ne_nil : digits ≠ []
  isDigit : ∀ c ∈ digits, c.isDigit = true
  value_eq : Nat.ofDigitChars 10 digits 0 = n
  lt : n < UInt64.size

/-- Does this text write a position? -/
inductive IsPosition : List Char → Nat → Prop where
  | unsigned {digits : List Char} {n : Nat} (h : AreDigitsOf digits n) : IsPosition digits n
  | signed {digits : List Char} {n : Nat} (h : AreDigitsOf digits n) : IsPosition ('+' :: digits) n

/-- Does this text write positions, each in brackets of its own and nothing between them? -/
inductive ArePositions : List Char → List Nat → Prop where
  | nil : ArePositions [] []
  | cons {inside rest : List Char} {n : Nat} {positions : List Nat} (h : IsPosition inside n)
      (hrest : ArePositions rest positions) :
      ArePositions ('[' :: (inside ++ ']' :: rest)) (n :: positions)

/-- A position has no characters but digits and plus signs. -/
theorem IsPosition.not_mem {text : List Char} {n : Nat} (h : IsPosition text n) {c : Char}
    (hc : c.isDigit = false) (hplus : c ≠ '+') : c ∉ text := by
  have hdigits {digits : List Char} (h : AreDigitsOf digits n) : c ∉ digits := by
    intro hmem
    rw [h.isDigit c hmem] at hc
    cases hc
  cases h with
  | unsigned h => exact hdigits h
  | signed h =>
      rw [List.mem_cons, not_or]
      exact ⟨hplus, hdigits h⟩

/-- Digits are read as the number that they stand for. -/
theorem digits_eq_some_iff {digits : List Char} {n : Nat} :
    (if digits.isEmpty || !digits.all Char.isDigit then none
      else if Nat.ofDigitChars 10 digits 0 < positionLimit then some (Nat.ofDigitChars 10 digits 0)
      else none) = some n ↔ AreDigitsOf digits n := by
  constructor
  · intro h
    split at h
    · cases h
    · rename_i hdigits
      rw [Bool.not_eq_true, Bool.or_eq_false_iff, Bool.not_eq_false', List.all_eq_true] at hdigits
      split at h
      · rename_i hlt
        obtain rfl := Option.some.inj h
        exact ⟨List.isEmpty_eq_false_iff.mp hdigits.1, hdigits.2, rfl, hlt⟩
      · cases h
  · rintro ⟨hne, hdigit, rfl, hlt⟩
    have hall : digits.all Char.isDigit = true := List.all_eq_true.mpr hdigit
    have hlimit : Nat.ofDigitChars 10 digits 0 < positionLimit := hlt
    simp [hne, hall, hlimit]

/-- The reader of positions finds just the positions. -/
theorem position?_eq_some_iff {text : List Char} {n : Nat} :
    position? text = some n ↔ IsPosition text n := by
  constructor
  · intro h
    unfold position? at h
    simp only at h
    split at h
    · exact .signed (digits_eq_some_iff.mp h)
    · exact .unsigned (digits_eq_some_iff.mp h)
  · intro h
    cases h with
    | signed h => exact digits_eq_some_iff.mpr h
    | unsigned h =>
        unfold position?
        simp only
        split
        · rename_i r
          have hsign := h.isDigit '+' List.mem_cons_self
          exact absurd hsign (by decide)
        · exact digits_eq_some_iff.mpr h

/-- What stands in brackets is read up to the closing one. -/
theorem positions?_closed {text : List Char} (h : ']' ∉ text) (inside r : List Char) :
    positions? (some inside) (text ++ ']' :: r) =
      (position? (inside ++ text)).bind fun n => (positions? none r).map (n :: ·) := by
  induction text generalizing inside with
  | nil =>
      rw [List.nil_append, List.append_nil, positions?, if_pos (by decide)]
      cases position? inside with
      | none => rfl
      | some n => cases positions? none r <;> rfl
  | cons c text ih =>
      rw [List.mem_cons, not_or] at h
      have hc : ¬ (c == ']') = true := by simpa using fun hc => h.1 hc.symm
      rw [List.cons_append, positions?, if_neg hc, ih h.2, List.append_assoc]
      rfl

/-- All positions are read. -/
theorem positions?_of_arePositions {text : List Char} {positions : List Nat}
    (h : ArePositions text positions) : positions? none text = some positions := by
  induction h with
  | nil => rfl
  | cons h hrest ih =>
      have hclosing := h.not_mem (c := ']') (by decide) (by decide)
      rw [positions?, if_pos (by decide), positions?_closed hclosing, List.nil_append,
        position?_eq_some_iff.mpr h, ih]
      rfl

/-- What has been read of a bracket that is open. -/
def opened : Option (List Char) → List Char
  | none => []
  | some inside => '[' :: inside

/-- The invariant is that what has been read since the bracket and what is left write the rest of the
positions. -/
theorem arePositions_of_positions? {before : Option (List Char)} {text : List Char}
    {positions : List Nat} (h : positions? before text = some positions) :
    ArePositions (opened before ++ text) positions := by
  -- the induction is on the text with its open bracket, and the digits behind it, put back in
  -- front
  induction text generalizing before positions with
  | nil =>
      cases before with
      | none =>
          cases h
          exact .nil
      | some inside => cases h
  | cons c r ih =>
      cases before with
      | none =>
          rw [positions?] at h
          split at h
          · rename_i hc
            obtain rfl : c = '[' := by simpa using hc
            exact ih h
          · cases h
      | some inside =>
          rw [positions?] at h
          split at h
          · rename_i hc
            obtain rfl : c = ']' := by simpa using hc
            obtain ⟨n, hn, hrest⟩ := Option.bind_eq_some_iff.mp h
            obtain ⟨rest, hr, hpositions⟩ := Option.bind_eq_some_iff.mp hrest
            cases hpositions
            exact .cons (position?_eq_some_iff.mp hn) (ih hr)
          · have hopen := ih h
            simpa [opened] using hopen

/-- The reader of several positions finds just these. -/
theorem positions?_eq_some_iff {text : List Char} {positions : List Nat} :
    positions? none text = some positions ↔ ArePositions text positions :=
  ⟨arePositions_of_positions?, positions?_of_arePositions⟩

/-! ## Segments -/

/-- Does this text without periods write these steps?  Where the key is empty there is no step to
one. -/
inductive IsSegment : List Char → List Step → Prop where
  | positions {text : List Char} {positions : List Nat} (h : ArePositions text positions) :
      IsSegment text (positions.map .index)
  | key {key text : List Char} {positions : List Nat} (hne : key ≠ []) (hopening : '[' ∉ key)
      (h : ArePositions text positions) :
      IsSegment (key ++ text) (.key (String.ofList key) :: positions.map .index)

/-- A key ends where the positions behind it begin. -/
theorem span_of_arePositions {key text : List Char} {positions : List Nat} (hopening : '[' ∉ key)
    (h : ArePositions text positions) : (key ++ text).takeWhile (· != '[') = key ∧
      (key ++ text).dropWhile (· != '[') = text := by
  have hkey : ∀ c ∈ key, (c != '[') = true := fun c hc => by
    simpa using fun hsame : c = '[' => hopening (hsame ▸ hc)
  rw [List.takeWhile_append_of_pos hkey, List.dropWhile_append_of_pos hkey]
  cases h with
  | nil => simp
  | cons h hrest => simp

/-- Every segment is read. -/
theorem segmentSteps?_of_isSegment {segment : List Char} {steps : List Step}
    (h : IsSegment segment steps) : segmentSteps? segment = some steps := by
  cases h with
  | positions h =>
      obtain ⟨htake, hdrop⟩ := span_of_arePositions List.not_mem_nil h
      rw [List.nil_append] at htake hdrop
      rw [segmentSteps?, htake, hdrop, positions?_of_arePositions h]
      rfl
  | key hne hopening h =>
      obtain ⟨htake, hdrop⟩ := span_of_arePositions hopening h
      rw [segmentSteps?, htake, hdrop, positions?_of_arePositions h]
      simp [hne]

/-- The reader of segments finds just the segments. -/
theorem segmentSteps?_eq_some_iff {segment : List Char} {steps : List Step} :
    segmentSteps? segment = some steps ↔ IsSegment segment steps := by
  constructor
  · intro h
    obtain ⟨positions, hpositions, hsteps⟩ := Option.bind_eq_some_iff.mp h
    have harePositions := positions?_eq_some_iff.mp hpositions
    -- the key is what stands in front of the first bracket
    have hopening : '[' ∉ segment.takeWhile (· != '[') := by
      intro hmem
      have hother := List.mem_takeWhile_imp hmem
      simp at hother
    have hsplit : segment.takeWhile (· != '[') ++ segment.dropWhile (· != '[') = segment :=
      List.takeWhile_append_dropWhile
    cases hkey : segment.takeWhile (· != '[') with
    | nil =>
        rw [hkey] at hsteps hsplit
        cases hsteps
        rw [← hsplit]
        exact .positions harePositions
    | cons c key =>
        rw [hkey] at hsteps hsplit hopening
        cases hsteps
        rw [← hsplit]
        exact .key (List.cons_ne_nil c key) hopening harePositions
  · exact segmentSteps?_of_isSegment

/-! ## Paths -/

/-- Does this text write these steps? -/
inductive IsPath : List Char → List Step → Prop where
  | last {segment : List Char} {steps : List Step} (hperiod : '.' ∉ segment)
      (h : IsSegment segment steps) : IsPath segment steps
  | cons {segment path : List Char} {steps more : List Step} (hperiod : '.' ∉ segment)
      (h : IsSegment segment steps) (hrest : IsPath path more) :
      IsPath (segment ++ '.' :: path) (steps ++ more)

/-- A path behind another. -/
theorem stepsOfChars?_append (first second : List Char) :
    stepsOfChars? (first ++ '.' :: second) =
      (stepsOfChars? first).bind fun steps => (stepsOfChars? second).map (steps ++ ·) := by
  unfold stepsOfChars?
  rw [Text.split_append, List.mapM_append]
  cases (Text.split '.' first).mapM segmentSteps? with
  | none => rfl
  | some steps =>
      cases (Text.split '.' second).mapM segmentSteps? with
      | none => rfl
      | some more => simp

/-- A path without points is one segment. -/
theorem stepsOfChars?_of_not_mem {segment : List Char} (h : '.' ∉ segment) :
    stepsOfChars? segment = segmentSteps? segment := by
  unfold stepsOfChars?
  rw [Text.split_of_not_mem h]
  cases hsteps : segmentSteps? segment with
  | none => simp [hsteps]
  | some steps => simp [hsteps]

/-- Every path is read. -/
theorem stepsOfChars?_of_isPath {path : List Char} {steps : List Step} (h : IsPath path steps) :
    stepsOfChars? path = some steps := by
  induction h with
  | last hperiod h =>
      rw [stepsOfChars?_of_not_mem hperiod]
      exact segmentSteps?_of_isSegment h
  | cons hperiod h hrest ih =>
      rw [stepsOfChars?_append, stepsOfChars?_of_not_mem hperiod, segmentSteps?_of_isSegment h, ih]
      rfl

/-- Segments that are joined write what they write one after the other. -/
theorem isPath_join {segments : List (List Char)} (hne : segments ≠ [])
    (hperiod : ∀ segment ∈ segments, '.' ∉ segment) {parts : List (List Step)}
    (h : segments.mapM segmentSteps? = some parts) :
    IsPath (Text.join '.' segments) parts.flatten := by
  induction segments generalizing parts with
  | nil => exact absurd rfl hne
  | cons segment segments ih =>
      obtain ⟨hfirst, hothers⟩ := List.forall_mem_cons.mp hperiod
      rw [List.mapM_cons] at h
      obtain ⟨steps, hsteps, h⟩ := Option.bind_eq_some_iff.mp h
      obtain ⟨rest, hrest, h⟩ := Option.bind_eq_some_iff.mp h
      cases h
      have hsegment := segmentSteps?_eq_some_iff.mp hsteps
      -- the last segment has no period behind it
      cases segments with
      | nil =>
          obtain rfl : [] = rest := Option.some.inj hrest
          rw [Text.join, List.flatten_cons, List.flatten_nil, List.append_nil]
          exact .last hfirst hsegment
      | cons next segments =>
          rw [Text.join, List.flatten_cons]
          · exact .cons hfirst hsegment (ih (List.cons_ne_nil _ _) hothers hrest)
          · exact List.cons_ne_nil _ _

/-- The reader of paths finds just the paths. -/
theorem steps?_eq_some_iff {path : String} {steps : List Step} :
    steps? path = some steps ↔ IsPath path.toList steps := by
  constructor
  · intro h
    obtain ⟨parts, hparts, hsteps⟩ := Option.map_eq_some_iff.mp h
    have hpath := isPath_join (Text.split_ne_nil _ _) (fun _ => Text.not_mem_of_mem_split) hparts
    rwa [Text.join_split, hsteps] at hpath
  · exact stepsOfChars?_of_isPath

/-! ## Steps that are written -/

/-- Steps behind others: a period in front of each key, and positions in brackets. -/
def printedBehind : List Step → String
  | [] => ""
  | .key name :: steps => "." ++ name ++ printedBehind steps
  | .index position :: steps => "[" ++ toString position ++ "]" ++ printedBehind steps

/-- A path that writes some steps. -/
def printed : List Step → String
  | .key name :: steps => name ++ printedBehind steps
  | steps => printedBehind steps

/-- Can this step be written?  Keys that are empty or hold a period or an opening bracket cannot, nor
can positions beyond 64 bits. -/
def IsWritable : Step → Prop
  | .key name => name ≠ "" ∧ '.' ∉ name.toList ∧ '[' ∉ name.toList
  | .index position => position < UInt64.size

instance : DecidablePred IsWritable
  | .key name => inferInstanceAs (Decidable (name ≠ "" ∧ '.' ∉ name.toList ∧ '[' ∉ name.toList))
  | .index position => inferInstanceAs (Decidable (position < UInt64.size))

/-- The digits of a number are digits of it. -/
theorem areDigitsOf_toDigits {n : Nat} (h : n < UInt64.size) :
    AreDigitsOf (Nat.toDigits 10 n) n where
  ne_nil := List.length_pos_iff.mp Nat.length_toDigits_pos
  isDigit := fun _ hc => Nat.isDigit_of_mem_toDigits (by decide) (by decide) hc
  value_eq := Nat.ofDigitChars_ten_toDigits
  lt := h

/-- A further position can stand behind positions. -/
theorem ArePositions.append {text inside : List Char} {positions : List Nat} {n : Nat}
    (h : ArePositions text positions) (hn : IsPosition inside n) :
    ArePositions (text ++ '[' :: (inside ++ [']'])) (positions ++ [n]) := by
  induction h with
  | nil => exact .cons hn .nil
  | cons hfirst hrest ih =>
      have hlonger := ArePositions.cons hfirst ih
      simpa using hlonger

/-- A further position can stand behind a segment. -/
theorem IsSegment.append {segment inside : List Char} {steps : List Step} {n : Nat}
    (h : IsSegment segment steps) (hn : IsPosition inside n) :
    IsSegment (segment ++ '[' :: (inside ++ [']'])) (steps ++ [.index n]) := by
  cases h with
  | positions h =>
      have hlonger := IsSegment.positions (h.append hn)
      simpa using hlonger
  | key hne hopening h =>
      have hlonger := IsSegment.key hne hopening (h.append hn)
      simpa using hlonger

/-- A name that can be written is a segment. -/
theorem isSegment_key {name : String} (h : IsWritable (.key name)) :
    IsSegment name.toList [.key name] := by
  obtain ⟨hne, _, hopening⟩ := h
  have hchars : name.toList ≠ [] := by simpa using hne
  simpa using IsSegment.key hchars hopening .nil

/-- The induction is on the steps that are left, while the segment in front of them grows by
positions and is ended by a key. -/
theorem isPath_printedBehind {more : List Step} (h : ∀ step ∈ more, IsWritable step)
    {segment : List Char} {steps : List Step} (hperiod : '.' ∉ segment)
    (hsegment : IsSegment segment steps) :
    IsPath (segment ++ (printedBehind more).toList) (steps ++ more) := by
  induction more generalizing segment steps with
  | nil => simpa [printedBehind] using IsPath.last hperiod hsegment
  | cons step more ih =>
      obtain ⟨hstep, hmore⟩ := List.forall_mem_cons.mp h
      cases step with
      | key name =>
          have hpath := IsPath.cons hperiod hsegment (ih hmore hstep.2.1 (isSegment_key hstep))
          simpa [printedBehind] using hpath
      | index position =>
          have hposition := IsPosition.unsigned (areDigitsOf_toDigits hstep)
          have hdigits : '.' ∉ Nat.toDigits 10 position :=
            hposition.not_mem (by decide) (by decide)
          have hlonger : '.' ∉ segment ++ '[' :: (Nat.toDigits 10 position ++ [']']) := by
            simp [hperiod, hdigits]
          have hpath := ih hmore hlonger (hsegment.append hposition)
          simpa [printedBehind] using hpath

/-- Steps that are printed are read again. -/
theorem steps?_of_printed {steps : List Step} (h : ∀ step ∈ steps, IsWritable step) :
    steps? (printed steps) = some steps := by
  have hbehind : IsPath (printedBehind steps).toList steps :=
    isPath_printedBehind h List.not_mem_nil (.positions .nil)
  rw [steps?_eq_some_iff]
  cases steps with
  | nil => exact hbehind
  | cons step more =>
      cases step with
      | index position => exact hbehind
      | key name =>
          obtain ⟨hstep, hmore⟩ := List.forall_mem_cons.mp h
          have hpath := isPath_printedBehind hmore hstep.2.1 (isSegment_key hstep)
          simpa [printed] using hpath

/-! ## Paths behind others -/

/-- Two paths with a point between them are one. -/
theorem steps?_append (first second : String) : steps? (first ++ "." ++ second) = do
    let steps ← steps? first
    let more ← steps? second
    return steps ++ more := by
  have htext : (first ++ "." ++ second).toList = first.toList ++ '.' :: second.toList := by
    simp
  rw [steps?, htext, stepsOfChars?_append]
  show (steps? first).bind (fun steps => (steps? second).map (steps ++ ·)) = _
  cases steps? first with
  | none => rfl
  | some steps => cases steps? second <;> rfl

/-- A malformed path leads nowhere, so it does not matter which of the two it is. -/
theorem lookup?_append (root : Value) (first second : String) :
    root.lookup? (first ++ "." ++ second) = (root.lookup? first).bind (·.lookup? second) := by
  rw [Value.lookup?, steps?_append, Value.lookup?]
  cases steps? first with
  | none => rfl
  | some steps =>
      cases hsecond : steps? second with
      | none => simp [Value.lookup?, hsecond]
      | some more => simp [Value.lookup?, hsecond, Value.follow?_append]

/-- The texts of the grammar are read as what they write, and no others.  Steps that can be written
are read again as they are, and a path behind another and a period is read as the steps of both, if
both are paths.  So it leads where the second leads from where the first does. -/
theorem steps?_grammar :
    (∀ path steps, steps? path = some steps ↔ IsPath path.toList steps) ∧
    (∀ steps, (∀ step ∈ steps, IsWritable step) → steps? (printed steps) = some steps) ∧
    (∀ first second, steps? (first ++ "." ++ second) = do
      let steps ← steps? first
      let more ← steps? second
      return steps ++ more) ∧
    (∀ (root : Value) first second, root.lookup? (first ++ "." ++ second) =
      (root.lookup? first).bind (·.lookup? second)) := by
  refine ⟨?_, ?_, steps?_append, lookup?_append⟩
  · intro path steps
    exact steps?_eq_some_iff
  · intro steps hsteps
    exact steps?_of_printed hsteps

/-- Positions with zeros and a sign in front and behind no key, steps of which one is a key with a
closing bracket, and a bracket that is not closed before the period. -/
theorem steps?_grammar_mixed :
    IsPath "a[+007].[2]".toList [.key "a", .index 7, .index 2] ∧
      (∀ step ∈ [Step.index 3, .key "a]", .index 0], IsWritable step) ∧
      steps? (printed [.index 3, .key "a]", .index 0]) = some [.index 3, .key "a]", .index 0] ∧
      steps? ("a[" ++ "." ++ "0]") = none ∧
      (Value.mapping [(.string "a", .sequence [.null])]).lookup? ("a" ++ "." ++ "[0]") =
        some .null := by
  obtain ⟨hgrammar, hprinted, happend, hlookup⟩ := steps?_grammar
  have hwritable : ∀ step ∈ [Step.index 3, .key "a]", .index 0], IsWritable step := by
    decide
  refine ⟨(hgrammar _ _).mp (by decide), hwritable, hprinted _ hwritable, ?_, ?_⟩
  · have hopen : steps? "a[" = none := by decide
    rw [happend, hopen]
    rfl
  · rw [hlookup]
    rfl

/-- Nothing stands behind a closing bracket but another bracket. -/
example : steps? "a[0]b" = none := by decide

/-- A position is below the number of all positions. -/
example : steps? "[18446744073709551615]" = some [.index 18446744073709551615] ∧
    steps? "[18446744073709551616]" = none := by decide

end OperatorBundle.Yaml.Path
