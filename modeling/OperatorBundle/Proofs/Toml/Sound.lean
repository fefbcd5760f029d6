import OperatorBundle.Proofs.Toml.Value

/-!
# What readers find

A reader finds only what the grammar says.
-/

namespace OperatorBundle.Toml

open Grammar Text

variable {text rest next said found before digits : List Char} {c quote : Char} {n limit depth base : Nat}

/-! ## Strings -/

/-- What is found of a string stands behind what has been read of it. -/
theorem basic_of_basic? (h : basic? n before text = some (found, rest)) :
    ∃ said, found = before ++ said ∧ Basic text said rest := by
  induction n generalizing before text with
  | zero => cases h
  | succ n ih =>
      unfold basic? at h
      split at h
      · cases h
        exact ⟨[], (List.append_nil _).symm, .close _⟩
      · obtain ⟨⟨c, next⟩, hescape, h⟩ := Option.bind_eq_some_iff.mp h
        obtain ⟨said, rfl, hsaid⟩ := ih h
        exact ⟨c :: said, List.append_assoc _ _ _, .escape (escape?_eq_some_iff.mp hescape) hsaid⟩
      · rename_i c r hquote hescape
        split at h
        · rename_i hc
          obtain ⟨said, rfl, hsaid⟩ := ih h
          exact ⟨c :: said, List.append_assoc _ _ _, .char hc hquote hescape hsaid⟩
        · cases h
      · cases h

/-- No space is left. -/
theorem settled_skipSpace {further : List Char} (h : Space (skipSpace text) further) :
    further = skipSpace text := by
  induction text using skipSpace.induct with
  | case1 =>
      rw [skipSpace] at h ⊢
      cases h with
      | none => rfl
      | newline hline => cases hline
  | case2 r ih =>
      rw [skipSpace] at h ⊢
      exact ih h
  | case3 c r hline hspace ih =>
      rw [skipSpace, if_pos hspace] at h ⊢
      · exact ih h
      all_goals exact hline
  | case4 c r hline hspace =>
      rw [Bool.or_eq_true, not_or, beq_iff_eq] at hspace
      rw [skipSpace, if_neg (by simpa using hspace)] at h ⊢
      · cases h with
        | none => rfl
        | blank hc => exact absurd hc hspace.1
        | newline hnext =>
            cases hnext with
            | feed => exact absurd rfl hspace.2
            | returned => exact absurd rfl (hline _ rfl)
      all_goals exact hline

/-- Where space is left out the same is skipped to. -/
theorem skipSpace_congr (h : Space text next) : skipSpace text = skipSpace next := by
  refine skipSpace_eq ?_ fun further => settled_skipSpace
  induction h with
  | none => exact space_skipSpace _
  | blank hc _ ih => exact .blank hc ih
  | newline hline _ ih => exact .newline hline ih

/-- The quotes that a text begins with. -/
theorem takeWhile_quotes (quote : Char) (text : List Char) : ∃ k,
    text.takeWhile (· == quote) = List.replicate k quote ∧
      text = List.replicate k quote ++ text.drop k ∧ (text.drop k).head? ≠ some quote := by
  have heach : ∀ c ∈ text.takeWhile (· == quote), c = quote := fun c hc =>
    beq_iff_eq.mp (of_mem_takeWhile (p := (· == quote)) hc)
  have htake := List.eq_replicate_of_mem heach
  refine ⟨(text.takeWhile (· == quote)).length, htake, ?_, ?_⟩
  · rw [← htake, drop_length_takeWhile, List.takeWhile_append_dropWhile]
  · rw [drop_length_takeWhile]
    intro hhead
    exact beq_eq_false_iff_ne.mp (stops_dropWhile (· == quote) text quote hhead) rfl

/-- The last three of up to five quotes close a string, and those in front of them belong to it. -/
theorem closing_replicate {k : Nat} (hk : 3 ≤ k) (htext : text = List.replicate k quote ++ text.drop k) :
    ∃ m ≤ 2, closing (List.replicate k quote) = (true, m, m + 3) ∧
      text = List.replicate (m + 3) quote ++ text.drop (m + 3) := by
  obtain ⟨m, hm⟩ : ∃ m, min k 5 = m + 3 := ⟨min k 5 - 3, by omega⟩
  have htake : text.take (m + 3) = List.replicate (m + 3) quote := by
    rw [htext, List.take_append_of_le_length (by rw [List.length_replicate]; omega),
      List.take_replicate, Nat.min_eq_left (by omega)]
  refine ⟨m, by omega, ?_, ?_⟩
  · unfold closing
    rw [List.length_replicate, if_neg (by omega), hm]
    rfl
  · rw [← htake, List.take_append_drop]

/-- What is found of a string of several lines stands behind what has been read of it. -/
theorem multiline_of_multiline? (h : multiline? quote n before text = some (found, rest)) :
    ∃ said, found = before ++ said ∧ Multiline quote text said rest := by
  induction n generalizing before text with
  | zero => cases h
  | succ n ih =>
      unfold multiline? at h
      split at h
      · cases h
      · rename_i hline
        obtain ⟨said, rfl, hsaid⟩ := ih h
        exact ⟨_ :: said, List.append_assoc _ _ _, .newline (newline?_eq_some_iff.mp hline) hsaid⟩
      · rename_i c r hline
        split at h
        · rename_i hc
          -- a run of quotes is counted to its end before it is known whether it closes the string
          obtain ⟨k, htake, htext, hend⟩ := takeWhile_quotes quote (c :: r)
          rw [htake] at h
          by_cases hk : k < 3
          · rw [closing, List.length_replicate, if_pos hk] at h
            obtain ⟨said, rfl, hsaid⟩ := ih h
            have hpos : k ≠ 0 := by
              rintro rfl
              rw [beq_iff_eq.mp hc] at hend
              exact hend rfl
            rw [htext]
            exact ⟨_, List.append_assoc _ _ _, .quotes (by omega) hend hsaid⟩
          · obtain ⟨m, hm, hclosing, hsplit⟩ := closing_replicate (Nat.not_lt.mp hk) htext
            rw [hclosing] at h
            cases h
            generalize (c :: r).drop (m + 3) = stop at hsplit
            rw [hsplit]
            exact ⟨_, rfl, .close hm stop⟩
        · rename_i hc
          have hne : c ≠ quote := fun heq => hc (beq_iff_eq.mpr heq)
          split at h
          · rename_i hescape
            rw [Bool.and_eq_true, beq_iff_eq, beq_iff_eq] at hescape
            obtain ⟨hquote, rfl⟩ := hescape
            split at h
            · rename_i hsome
              obtain ⟨next, hnext⟩ := Option.isSome_iff_exists.mp hsome
              have hblanks := blanks_skipBlanks r
              have hline := newline?_eq_some_iff.mp hnext
              obtain ⟨said, rfl, hsaid⟩ := ih h
              -- what is skipped from the backslash on is skipped from behind the line end on as
              -- well
              rw [skipSpace_congr (hblanks.space (.newline hline (.none next)))] at hsaid
              exact ⟨said, rfl, .joined hquote hblanks hline (space_skipSpace next)
                (fun further => settled_skipSpace) hsaid⟩
            · obtain ⟨⟨d, next⟩, hd, h⟩ := Option.bind_eq_some_iff.mp h
              obtain ⟨said, rfl, hsaid⟩ := ih h
              exact ⟨d :: said, List.append_assoc _ _ _,
                .escape hquote (escape?_eq_some_iff.mp hd) hsaid⟩
          · rename_i hescape
            split at h
            · rename_i htext
              obtain ⟨said, rfl, hsaid⟩ := ih h
              refine ⟨c :: said, List.append_assoc _ _ _, .char htext hne ?_ hsaid⟩
              rintro rfl rfl
              exact hescape rfl
            · cases h

/-- What is read as a string is one. -/
theorem quoted_of_string? (h : string? text = some (said, rest)) : Quoted text said rest := by
  have hmany : ∀ {quote : Char} {r : List Char}, IsQuote quote →
      multiline? quote (r.length + 1) [] ((newline? r).getD r) = some (said, rest) →
        Quoted (quote :: quote :: quote :: r) said rest := by
    intro quote r hquote hread
    obtain ⟨_, rfl, hsaid⟩ := multiline_of_multiline? hread
    cases hline : newline? r with
    | none =>
        rw [hline] at hsaid
        refine .lines hquote (fun next hnext => ?_) hsaid
        rw [newline?_eq_some_iff.mpr hnext] at hline
        cases hline
    | some next =>
        rw [hline] at hsaid
        exact .linesBelow hquote (newline?_eq_some_iff.mp hline) hsaid
  unfold string? at h
  split at h
  · exact hmany (Or.inl rfl) h
  · exact hmany (Or.inr rfl) h
  · obtain ⟨_, rfl, hsaid⟩ := basic_of_basic? h
    exact .basic hsaid
  · exact .literal (literal?_eq_some_iff.mp h)
  · cases h

/-! ## Keys -/

/-- What is read as a part of a key is one. -/
theorem keyPart_of_keyPart? {part : String} (h : keyPart? text = some (part, rest)) :
    KeyPart text part rest := by
  unfold keyPart? at h
  simp only at h
  split at h
  · obtain ⟨⟨said, r⟩, hread, heq⟩ := Option.bind_eq_some_iff.mp h
    obtain ⟨_, rfl, hsaid⟩ := basic_of_basic? hread
    cases heq
    exact .basic hsaid
  · obtain ⟨⟨said, r⟩, hread, heq⟩ := Option.bind_eq_some_iff.mp h
    cases heq
    exact .literal (literal?_eq_some_iff.mp hread)
  · split at h
    · cases h
    · rename_i hempty
      cases h
      have hne : text.takeWhile isKeyChar ≠ [] := by simpa using hempty
      have hpart := KeyPart.bare hne (fun _ => of_mem_takeWhile) (text.dropWhile isKeyChar)
      rw [List.takeWhile_append_dropWhile] at hpart
      rw [drop_length_takeWhile]
      exact hpart

theorem dottedKey_of_keyParts? {key : Key} (h : keyParts? n text = some (key, rest)) :
    DottedKey text key rest := by
  induction n generalizing text key with
  | zero => cases h
  | succ n ih =>
      obtain ⟨⟨part, r⟩, hpart, h⟩ := Option.bind_eq_some_iff.mp h
      have hbefore := blanks_skipBlanks text
      have hbehind := blanks_skipBlanks r
      simp only at h
      split at h
      · rename_i heq
        obtain ⟨⟨parts, s⟩, hparts, h⟩ := Option.bind_eq_some_iff.mp h
        cases h
        rw [heq] at hbehind
        exact .more hbefore (keyPart_of_keyPart? hpart) hbehind (ih hparts)
      · cases h
        exact .last hbefore (keyPart_of_keyPart? hpart) hbehind

/-- What is read as a key is one, and has no more parts than the limit. -/
theorem dottedKey_of_key? {key : Key} (h : key? limit text = some (key, rest)) :
    DottedKey text key rest ∧ key.length ≤ limit := by
  obtain ⟨⟨parts, r⟩, hread, h⟩ := Option.bind_eq_some_iff.mp h
  obtain ⟨_, hparts, h⟩ := Option.bind_eq_some_iff.mp h
  cases h
  exact ⟨dottedKey_of_keyParts? hread, (Option.guard_eq_some' _).mp hparts⟩

/-! ## Numbers -/

/-- What is taken as a sign is one. -/
theorem sign_sign (text : List Char) : Sign text (sign text).1 (sign text).2 := by
  unfold sign
  split
  · exact .minus _
  · exact .plus _
  · exact .none _

/-- What is found of digits, where a digit must come next and where it need not. -/
theorem digits_of_digitsFrom? {needed : Bool} (h : digitsFrom? base needed text = some (digits, rest)) :
    Digits base text digits rest ∨ needed = false ∧
      (digits = [] ∧ rest = text ∨ ∃ r, text = '_' :: r ∧ Digits base r digits rest) := by
  induction text generalizing needed digits with
  -- where no digit need come there may be none, or an underscore with digits behind it
  | nil =>
      cases needed with
      | true => cases h
      | false =>
          cases h
          exact Or.inr ⟨rfl, Or.inl ⟨rfl, rfl⟩⟩
  | cons c r ih =>
      unfold digitsFrom? at h
      split at h
      · rename_i hc
        obtain ⟨⟨more, stop⟩, hmore, heq⟩ := Option.map_eq_some_iff.mp h
        cases heq
        rcases ih hmore with hnext | ⟨_, ⟨rfl, rfl⟩ | ⟨s, rfl, hnext⟩⟩
        · exact Or.inl (.next hc hnext)
        · exact Or.inl (.last hc _)
        · exact Or.inl (.apart hc hnext)
      · cases needed with
        | true => cases h
        | false =>
            simp only [Bool.false_eq_true, if_false] at h
            split at h
            · rename_i hmark
              rcases ih h with hnext | ⟨hneeded, _⟩
              · exact Or.inr ⟨rfl, Or.inr ⟨r, by rw [beq_iff_eq.mp hmark], hnext⟩⟩
              · cases hneeded
            · cases h
              exact Or.inr ⟨rfl, Or.inl ⟨rfl, rfl⟩⟩

/-- What is read as digits are digits. -/
theorem digits_of_digits? (h : digits? base text = some (digits, rest)) :
    Digits base text digits rest := by
  rcases digits_of_digitsFrom? h with hdigits | ⟨hneeded, _⟩
  · exact hdigits
  · cases hneeded

/-- What is read as a whole number is one. -/
theorem whole_of_whole? (h : whole? text = some (digits, rest)) : Whole text digits rest := by
  unfold whole? at h
  split at h
  · cases h
    exact .zero _
  · rename_i hzero
    have hdigits := digits_of_digits? h
    obtain ⟨c, r, rfl, _⟩ := hdigits.exists_cons
    refine .digits ?_ hdigits
    rintro rfl
    exact hzero r rfl

/-- Numbers are integers just if they have 64 bits. -/
theorem sized?_eq_some_iff {k : Int} {v : Value} : sized? k = some v ↔
    (-2 ^ (63 : Nat) ≤ k ∧ k < 2 ^ (63 : Nat)) ∧ v = .integer k := by
  unfold sized?
  rw [Option.ite_none_right_eq_some, Bool.and_eq_true, decide_eq_true_eq, decide_eq_true_eq,
    Option.some.injEq, eq_comm]

/-- What is read as an integer is one. -/
theorem integer_of_integer? {v : Value} (h : integer? text = some (v, rest)) :
    ∃ k, v = .integer k ∧ Integer text k rest := by
  have hbases : ∀ {mark : Char} {base : Nat} {r : List Char}, (mark, base) ∈ bases →
      integer? ('0' :: mark :: r) = some (v, rest) → ∃ k, v = .integer k ∧ Integer ('0' :: mark :: r) k rest := by
    intro mark base r hmark h
    rw [integer?_inBase hmark] at h
    obtain ⟨⟨digits, stop⟩, hread, h⟩ := Option.bind_eq_some_iff.mp h
    obtain ⟨_, hsized, heq⟩ := Option.map_eq_some_iff.mp h
    cases heq
    obtain ⟨⟨_, hsize⟩, rfl⟩ := sized?_eq_some_iff.mp hsized
    exact ⟨_, rfl, .inBase hmark (digits_of_digits? hread) (Int.ofNat_lt.mp hsize)⟩
  -- the mark of a base decides, whatever stands behind it
  by_cases hmark : ∃ mark base r, (mark, base) ∈ bases ∧ text = '0' :: mark :: r
  · obtain ⟨mark, base, r, hmem, rfl⟩ := hmark
    exact hbases hmem h
  · have hno : ∀ mark base r, (mark, base) ∈ bases → text ≠ '0' :: mark :: r := fun mark base r hmem heq =>
      hmark ⟨mark, base, r, hmem, heq⟩
    have hsign := sign_sign text
    unfold integer? at h
    split at h
    · exact absurd rfl (hno 'x' 16 _ (by decide))
    · exact absurd rfl (hno 'o' 8 _ (by decide))
    · exact absurd rfl (hno 'b' 2 _ (by decide))
    · obtain ⟨⟨digits, stop⟩, hwhole, h⟩ := Option.bind_eq_some_iff.mp h
      obtain ⟨_, hsized, heq⟩ := Option.bind_eq_some_iff.mp h
      cases heq
      obtain ⟨hsize, rfl⟩ := sized?_eq_some_iff.mp hsized
      exact ⟨_, rfl, .decimal hsign (whole_of_whole? hwhole) hsize⟩

theorem places_of_places? (h : places? text = some (digits, rest)) : Places text digits rest := by
  unfold places? at h
  split at h
  · exact .some (digits_of_digits? h)
  · cases h
    exact .none _

/-- What is read as an exponent is one. -/
theorem exponent_of_exponent? {exponent : Int} (h : exponent? text = some (exponent, rest)) :
    Exponent text exponent rest := by
  unfold exponent? at h
  split at h
  · cases h
    exact .none _
  · rename_i c r
    split at h
    · cases h
      exact .none _
    · rename_i hmark
      have hmark : c = 'e' ∨ c = 'E' := by
        rw [Bool.and_eq_true, bne_iff_ne, bne_iff_ne, not_and_or, not_not, not_not] at hmark
        exact hmark
      obtain ⟨⟨digits, stop⟩, hread, h⟩ := Option.bind_eq_some_iff.mp h
      cases h
      exact .some hmark (sign_sign r) (digits_of_digits? hread)

/-- Behind the whole part of a float something is read. -/
theorem length_lt_of_exponent? {point mark places : List Char} {exponent : Int}
    (hpoint : point.head?.any (['.', 'e', 'E'].contains ·) = true)
    (hplaces : places? point = some (places, mark)) (hexponent : exponent? mark = some (exponent, rest)) :
    rest.length < point.length := by
  have hmark := (exponent_of_exponent? hexponent).length_le
  cases point with
  | nil => cases hpoint
  | cons c r =>
      have hc := List.contains_iff_mem.mp hpoint
      simp only [List.mem_cons, List.not_mem_nil, or_false] at hc
      rcases hc with rfl | hc
      · have hlength := (digits_of_digits? hplaces).length_le
        exact Nat.lt_succ_of_le (Nat.le_trans hmark hlength)
      · have hplaces : mark = c :: r := by
          rcases hc with rfl | rfl <;>
          · cases hplaces
            rfl
        subst hplaces
        have hsign := (sign_sign r).length_le
        rcases hc with rfl | rfl <;>
        · obtain ⟨⟨digits, stop⟩, hdigits, heq⟩ := Option.bind_eq_some_iff.mp hexponent
          cases heq
          have hlength := (digits_of_digits? hdigits).length_le
          exact Nat.lt_succ_of_le (Nat.le_trans hlength hsign)

/-- What is read as a float is one. -/
theorem float_of_float? (h : float? text = some rest) : Grammar.Float text rest := by
  have hsign := sign_sign text
  unfold float? at h
  simp only at h
  split at h
  · rename_i hword
    cases h
    rw [hword] at hsign
    exact .special (List.mem_cons_self) hsign
  · rename_i hword
    cases h
    rw [hword] at hsign
    exact .special (List.mem_cons_of_mem _ List.mem_cons_self) hsign
  · obtain ⟨⟨whole, point⟩, hwhole, h⟩ := Option.bind_eq_some_iff.mp h
    obtain ⟨_, hmark, h⟩ := Option.bind_eq_some_iff.mp h
    obtain ⟨⟨places, mark⟩, hplaces, h⟩ := Option.bind_eq_some_iff.mp h
    obtain ⟨⟨exponent, stop⟩, hexponent, h⟩ := Option.bind_eq_some_iff.mp h
    obtain ⟨_, hfinite, h⟩ := Option.bind_eq_some_iff.mp h
    cases h
    rw [Option.guard_eq_some'] at hmark hfinite
    refine .number hsign (whole_of_whole? hwhole) (places_of_places? hplaces)
      (exponent_of_exponent? hexponent) ?_ (bne_iff_ne.mp hfinite)
    -- a point or an exponent has been read, as one was seen
    have hlength := length_lt_of_exponent? hmark hplaces hexponent
    rintro rfl
    exact Nat.lt_irrefl _ hlength

/-! ## Dates and times -/

/-- What is read as an offset is one. -/
theorem offset_of_offset? (h : offset? text = some rest) : Offset text rest := by
  unfold offset? at h
  split at h
  · split at h
    · rename_i hmark
      cases h
      rw [Bool.or_eq_true, beq_iff_eq, beq_iff_eq] at hmark
      exact .zero hmark _
    · split at h
      · rename_i hmark
        rw [Bool.or_eq_true, beq_iff_eq, beq_iff_eq] at hmark
        exact .apart hmark (hourMinute?_eq_some_iff.mp h)
      · cases h
        exact .none _
  · cases h
    exact .none _

/-- What is read as a date, a time or both is one. -/
theorem dateTime_of_dateTime? (h : dateTime? text = some rest) : DateTime text rest := by
  unfold dateTime? at h
  split at h
  · exact .time (time_of_time? h)
  · rename_i r hdate
    have hdate := date?_eq_some_iff.mp hdate
    split at h
    · split at h
      · rename_i hmark
        split at h
        · rename_i htime
          rw [Bool.or_eq_true, Bool.or_eq_true, beq_iff_eq, beq_iff_eq, beq_iff_eq, or_assoc] at hmark
          exact .both hdate hmark (time_of_time? htime) (offset_of_offset? h)
        · cases h
          exact .date hdate
      · cases h
        exact .date hdate
    · cases h
      exact .date hdate

/-- What is read as a number, a date or a time is one. -/
theorem numeric_of_numeric? {v : Value} (h : numeric? text = some (v, rest)) : Numeric text v rest := by
  unfold numeric? at h
  split at h
  · rename_i hread
    cases h
    exact .dateTime (dateTime_of_dateTime? hread)
  · split at h
    · rename_i hread
      cases h
      exact .float (float_of_float? hread)
    · obtain ⟨k, rfl, hk⟩ := integer_of_integer? h
      exact .integer hk

/-! ## Values -/

/-- Is what is read of a value, of items or of entries what the grammar says, with so much fuel? -/
structure FindsSaid (limit n : Nat) : Prop where
  value : ∀ {depth text v rest}, value? limit n depth text = some (v, rest) →
    Says limit depth text (.value v) rest
  items : ∀ {depth text vs rest}, items? limit n depth text = some (vs, rest) →
    Says limit depth text (.items vs) rest
  /-- Entries are put beside those that stand in front of them. -/
  entries : ∀ {depth before text after rest}, entries? limit n depth before text = some (after, rest) →
    before = [] ∧ after = [] ∧ text = '}' :: rest ∨
      ∃ es, InlineEntry.insertAll es before = some after ∧ Says limit depth text (.entries es) rest

/-- The blanks in front of entries do not matter. -/
theorem Grammar.Says.entries_congr {word : List Char} {es : List (Key × Value)}
    (h : Says limit depth text (.entries es) rest) (hword : skipBlanks word = skipBlanks text) :
    Says limit depth word (.entries es) rest := by
  cases h with
  | lastEntry hkey hparts hbefore hv hbehind =>
      exact .lastEntry (hkey.congr hword) hparts hbefore hv hbehind
  | entry hkey hparts hbefore hv hbehind h =>
      exact .entry (hkey.congr hword) hparts hbefore hv hbehind h

/-- What is read as a value is one if its parts are what the grammar says. -/
theorem value_of_value? (ih : FindsSaid limit n) {v : Value}
    (h : value? limit (n + 1) depth text = some (v, rest)) : Says limit depth text (.value v) rest := by
  unfold value? at h
  split at h
  · obtain ⟨⟨said, r⟩, hread, heq⟩ := Option.map_eq_some_iff.mp h
    cases heq
    exact .string (quoted_of_string? hread)
  · obtain ⟨⟨said, r⟩, hread, heq⟩ := Option.map_eq_some_iff.mp h
    cases heq
    exact .string (quoted_of_string? hread)
  · cases depth with
    | zero => cases h
    | succ depth =>
        obtain ⟨⟨items, r⟩, hitems, heq⟩ := Option.bind_eq_some_iff.mp h
        cases heq
        exact .array (ih.items hitems)
  · rename_i r
    cases depth with
    | zero => cases h
    | succ depth =>
        obtain ⟨⟨entries, s⟩, hentries, heq⟩ := Option.bind_eq_some_iff.mp h
        cases heq
        have hblanks := blanks_skipBlanks r
        rcases ih.entries hentries with ⟨_, rfl, hclose⟩ | ⟨es, hinsert, hes⟩
        · rw [hclose] at hblanks
          exact .emptyTable hblanks
        · exact .table (hes.entries_congr (skipBlanks_congr hblanks))
            (InlineEntry.collects_of_insertAll hinsert)
  · cases h
    exact .yes _ _
  · cases h
    exact .no _ _
  · exact .numeric (numeric_of_numeric? h)

/-- What is read as items are items if its parts are what the grammar says. -/
theorem items_of_items? (ih : FindsSaid limit n) {vs : List Value}
    (h : items? limit (n + 1) depth text = some (vs, rest)) : Says limit depth text (.items vs) rest := by
  have hbefore := gap_skipLines text.length text
  unfold items? at h
  simp only at h
  split at h
  · rename_i hclose
    cases h
    rw [hclose] at hbefore
    exact .noItem hbefore
  · obtain ⟨⟨v, r⟩, hv, h⟩ := Option.bind_eq_some_iff.mp h
    have hbehind := gap_skipLines r.length r
    simp only at h
    split at h
    · rename_i hcomma
      obtain ⟨⟨items, s⟩, hitems, heq⟩ := Option.bind_eq_some_iff.mp h
      cases heq
      rw [hcomma] at hbehind
      exact .item hbefore (ih.value hv) hbehind (ih.items hitems)
    · rename_i hclose
      cases h
      rw [hclose] at hbehind
      exact .lastItem hbefore (ih.value hv) hbehind
    · cases h

/-- An entry that has been put somewhere is there. -/
theorem InlineEntry.insert_ne_nil {key : Key} {v : Value} {before after : List (String × InlineEntry)}
    (h : insert key v before = some after) : after ≠ [] := by
  cases key with
  | nil => cases h
  | cons name key =>
      cases key with
      | nil =>
          rw [insert_singleton] at h
          split at h
          · cases h
          · cases h
            simp
      | cons next key =>
          rw [insert_cons] at h
          split at h
          · obtain ⟨inner, _, rfl⟩ := Option.map_eq_some_iff.mp h
            simp
          · rename_i hlookup
            obtain ⟨grown, _, rfl⟩ := Option.map_eq_some_iff.mp h
            cases before with
            | nil => cases hlookup
            | cons => simp
          · cases h

/-- What is read as entries are entries if its parts are what the grammar says. -/
theorem entries_of_entries? (ih : FindsSaid limit n) {before after : List (String × InlineEntry)}
    (h : entries? limit (n + 1) depth before text = some (after, rest)) :
    before = [] ∧ after = [] ∧ text = '}' :: rest ∨
      ∃ es, InlineEntry.insertAll es before = some after ∧ Says limit depth text (.entries es) rest := by
  unfold entries? at h
  split at h
  · cases h
    exact Or.inl ⟨rfl, rfl, rfl⟩
  · obtain ⟨⟨key, r⟩, hread, h⟩ := Option.bind_eq_some_iff.mp h
    obtain ⟨hkey, hparts⟩ := dottedKey_of_key? hread
    simp only at h
    split at h
    · rename_i s
      obtain ⟨⟨v, stop⟩, hv, h⟩ := Option.bind_eq_some_iff.mp h
      obtain ⟨made, hmade, h⟩ := Option.bind_eq_some_iff.mp h
      have hword := blanks_skipBlanks s
      have hbehind := blanks_skipBlanks stop
      simp only at h
      split at h
      · rename_i hcomma
        rw [hcomma] at hbehind
        rcases ih.entries h with ⟨hnil, _⟩ | ⟨es, hinsert, hes⟩
        · -- a brace behind a comma would close a table without entries
          exact absurd hnil (InlineEntry.insert_ne_nil hmade)
        · refine Or.inr ⟨(key, v) :: es, ?_, .entry hkey hparts hword (ih.value hv) hbehind hes⟩
          exact Option.bind_eq_some_iff.mpr ⟨made, hmade, hinsert⟩
      · rename_i hclose
        cases h
        rw [hclose] at hbehind
        refine Or.inr ⟨[(key, v)], ?_, .lastEntry hkey hparts hword (ih.value hv) hbehind⟩
        exact Option.bind_eq_some_iff.mpr ⟨after, hmade, rfl⟩
      · cases h
    · cases h

/-- What is read of a value, of items or of entries is what the grammar says. -/
theorem findsSaid (limit n : Nat) : FindsSaid limit n := by
  induction n with
  | zero => exact ⟨nofun, nofun, nofun⟩
  | succ n ih => exact ⟨value_of_value? ih, items_of_items? ih, entries_of_entries? ih⟩

/-! ## Documents -/

variable {statement : Statement} {statements : List Statement}

/-- What is read as a heading is one. -/
theorem line_of_heading? (h : heading? limit text = some (statement, rest)) :
    Line limit ('[' :: text) statement rest := by
  unfold heading? at h
  split at h
  · obtain ⟨⟨key, r⟩, hread, h⟩ := Option.bind_eq_some_iff.mp h
    obtain ⟨hkey, hparts⟩ := dottedKey_of_key? hread
    split at h
    · rename_i heq
      cases heq
      cases h
      exact .element hkey hparts
    · cases h
  · obtain ⟨⟨key, r⟩, hread, h⟩ := Option.bind_eq_some_iff.mp h
    obtain ⟨hkey, hparts⟩ := dottedKey_of_key? hread
    split at h
    · rename_i heq
      cases heq
      cases h
      exact .table hkey hparts
    · cases h

/-- What is read as an assignment is one. -/
theorem line_of_assignment? (h : assignment? limit text = some (statement, rest)) :
    Line limit text statement rest := by
  obtain ⟨⟨key, r⟩, hread, h⟩ := Option.bind_eq_some_iff.mp h
  obtain ⟨hkey, hparts⟩ := dottedKey_of_key? hread
  split at h
  · rename_i heq
    cases heq
    obtain ⟨⟨v, s⟩, hv, h⟩ := Option.bind_eq_some_iff.mp h
    cases h
    exact .assignment hkey hparts (blanks_skipBlanks _) ((findsSaid limit _).value hv)
  · cases h

theorem Grammar.Blanks.trans (h : Blanks text next) (h' : Blanks next rest) : Blanks text rest := by
  obtain ⟨blanks, rfl, hblanks⟩ := h
  obtain ⟨more, rfl, hmore⟩ := h'
  refine ⟨blanks ++ more, (List.append_assoc _ _ _).symm, fun c hc => ?_⟩
  exact (List.mem_append.mp hc).elim (hblanks c) (hmore c)

/-- The end of a line may have further blanks in front of it. -/
theorem Grammar.LineEnd.behind (h : LineEnd next rest) (hblanks : Blanks text next) :
    LineEnd text rest := by
  cases h with
  | line hmore hcomment hline => exact .line (hblanks.trans hmore) hcomment hline
  | last hmore hcomment => exact .last (hblanks.trans hmore) hcomment

/-- What is read of a text are lines that it has. -/
theorem lines_of_statements? (h : statements? limit n text = some statements) :
    Lines limit text statements := by
  induction n generalizing text statements with
  | zero => cases h
  | succ n ih =>
      have hblanks := blanks_skipBlanks text
      unfold statements? at h
      split at h
      · rename_i hnil
        cases h
        rw [hnil] at hblanks
        exact .empty (.last hblanks (.none [])) .none
      · rename_i r hmark
        obtain ⟨next, hend, h⟩ := Option.bind_eq_some_iff.mp h
        rw [hmark] at hblanks
        exact .empty ((lineEnd?_eq_some_iff.mp hend).behind hblanks) (ih h)
      · rename_i r hmark
        obtain ⟨⟨s, stop⟩, hline, h⟩ := Option.bind_eq_some_iff.mp h
        obtain ⟨more, hmore, heq⟩ := Option.bind_eq_some_iff.mp h
        obtain ⟨next, hend, hmore⟩ := Option.bind_eq_some_iff.mp hmore
        cases heq
        rw [hmark] at hblanks
        exact .line hblanks (line_of_heading? hline) (lineEnd?_eq_some_iff.mp hend) (ih hmore)
      · rename_i c r hne hbracket hmark
        rw [hmark] at hblanks
        split at h
        · rename_i hread
          exact .empty (.line hblanks (.none _) (newline?_eq_some_iff.mp hread)) (ih h)
        · obtain ⟨⟨s, stop⟩, hline, h⟩ := Option.bind_eq_some_iff.mp h
          obtain ⟨more, hmore, heq⟩ := Option.bind_eq_some_iff.mp h
          obtain ⟨next, hend, hmore⟩ := Option.bind_eq_some_iff.mp hmore
          cases heq
          exact .line hblanks (line_of_assignment? hline) (lineEnd?_eq_some_iff.mp hend) (ih hmore)

end OperatorBundle.Toml
