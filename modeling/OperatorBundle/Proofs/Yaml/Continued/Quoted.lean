import OperatorBundle.Proofs.Yaml.Continued.Reader
import OperatorBundle.Yaml.Token.Scalar

/-!
# Quoted scalars in texts that go on

The closing quote stands before the end of the text, or nowhere.
-/

namespace OperatorBundle.Yaml.Scalar

variable {more : List Char} {c : Cursor}

/-! ## Quoted words -/

/-- The digits of an escape are all there before more text follows. -/
theorem escapedCode?_extend {width : Nat} {text : List Char} {x : Char}
    (h : escapedCode? width text = some x) (more : List Char) :
    escapedCode? width (text ++ more) = some x ∧ width ≤ text.length ∧
      ∀ y ∈ text.take width, isBreak y = false := by
  unfold escapedCode? at h ⊢
  simp only at h ⊢
  split at h
  · rename_i hlength
    have hwidth : width ≤ text.length := by
      rw [beq_iff_eq, List.length_take] at hlength
      omega
    obtain ⟨code, hcode, _⟩ := Option.bind_eq_some_iff.mp h
    rw [List.take_append_of_le_length hwidth, if_pos hlength]
    exact ⟨h, hwidth, isBreak_eq_false_of_hexNumber? hcode⟩
  · cases h

/-- Between single quotes two of them stand for one, and all else for itself. -/
theorem quotedWord_single {x y : Char} {s : List Char} (hrest : c.rest = x :: y :: s)
    (hx : isSpacing x = false) (n : Nat) (word : List Char) :
    quotedWord false (n + 1) word c =
      if x = '\'' then
        if y = '\'' then quotedWord false n (word ++ ['\'']) (c.advance 2) else .ok (word, false, c)
      else quotedWord false n (word ++ [x]) (c.advance 1) := by
  rw [quotedWord]
  simp only [hrest, hx, Bool.not_false, if_true, Bool.false_eq_true, if_false]
  by_cases hquote : x = '\''
  · subst hquote
    by_cases hy : y = '\''
    · subst hy
      rfl
    · rw [if_pos rfl, if_neg hy]
      split
      · rename_i heq
        cases heq
        exact absurd rfl hy
      · rfl
      · rename_i hother _
        exact absurd rfl hother
  · rw [if_neg hquote]
    split
    · exact absurd rfl hquote
    · exact absurd rfl hquote
    · rfl

/-- What a backslash and the character `y` add to a word. -/
def quotedEscape (n : Nat) (word : List Char) (y : Char) (s : List Char) (c : Cursor) :
    Except Defect (List Char × Bool × Cursor) :=
  match escape? y, escapeWidth? y with
  | some z, _ => quotedWord true n (word ++ [z]) (c.advance 2)
  | none, none => .error .token
  | none, some width =>
      match escapedCode? width s with
      | some z => quotedWord true n (word ++ [z]) (c.advance (2 + width))
      | none => .error .token

theorem quotedWord_double {x y : Char} {s : List Char} (hrest : c.rest = x :: y :: s)
    (hx : isSpacing x = false) (n : Nat) (word : List Char) :
    quotedWord true (n + 1) word c =
      if x = '"' then .ok (word, false, c)
      else if x = '\\' then
        if isBreak y = true then .ok (word, true, (c.advance 1).newline)
        else quotedEscape n word y s c
      else quotedWord true n (word ++ [x]) (c.advance 1) := by
  rw [quotedWord]
  simp only [hrest, hx, Bool.not_true, Bool.false_eq_true, if_false, beq_iff_eq, bne_iff_ne, ne_eq,
    ite_not]
  rfl

variable {n n' : Nat} {word : List Char}

/-- An escape stands in one line, and no text behind the line can be a part of it. -/
theorem reads_quotedEscape {x y : Char} {s : List Char}
    (hrest : c.rest = x :: y :: s) (hx : isBreak x = false) (hy : isBreak y = false)
    (hword : ∀ word next, c.Along next → next.rest.length < c.rest.length →
      Reads Cursor.Passes more next (quotedWord true n word next)
        (quotedWord true n' word (next.extend more))) :
    Reads Cursor.Passes more c (quotedEscape n word y s c)
      (quotedEscape n' word y (s ++ more) (c.extend more)) := by
  -- behind the digits that follow the two characters the word goes on
  have hgo : ∀ width word, width ≤ s.length → (∀ z ∈ s.take width, isBreak z = false) →
      Reads Cursor.Passes more c (quotedWord true n word (c.advance (2 + width)))
        (quotedWord true n' word ((c.extend more).advance (2 + width))) := by
    intro width word hwidth hdigits
    have hsplit : c.rest = (x :: y :: s.take width) ++ s.drop width := by
      rw [hrest, List.cons_append, List.cons_append, List.take_append_drop]
    have hlength : (x :: y :: s.take width).length = 2 + width := by
      rw [List.length_cons, List.length_cons, List.length_take, Nat.min_eq_left hwidth]
      omega
    have halong := Cursor.along_word hsplit (by simpa [hx, hy] using hdigits)
    have hshorter := congrArg List.length (Cursor.rest_advance hsplit)
    rw [hlength] at halong hshorter
    rw [Cursor.advance_extend (by rw [hrest, List.length_cons, List.length_cons]; omega)]
    refine .trans halong.reaches (hword word _ halong ?_)
    rw [hshorter, hrest, List.length_cons, List.length_cons, List.length_drop]
    omega
  unfold quotedEscape
  cases escape? y with
  | some z => exact hgo 0 _ (Nat.zero_le _) (by simp)
  | none =>
      cases escapeWidth? y with
      | none => exact .error _ _
      | some width =>
          dsimp only
          cases hcode : escapedCode? width s with
          | none => exact .error _ _
          | some z =>
              obtain ⟨hsame, hwidth, hdigits⟩ := escapedCode?_extend hcode more
              rw [hsame]
              exact hgo width _ hwidth hdigits

/-- A word inside quotes ends in its line, or behind it. -/
theorem reads_quotedWord {double : Bool} (hc : c.EndsLine) (hne : c.rest ≠ [])
    (hn : c.rest.length ≤ n) (hn' : c.rest.length ≤ n') :
    Reads Cursor.Passes more c (quotedWord double n word c)
      (quotedWord double n' word (c.extend more)) := by
  induction n generalizing n' word c with
  | zero => exact absurd (List.eq_nil_of_length_eq_zero (Nat.le_zero.mp hn)) hne
  | succ n ih =>
      have hpos := List.length_pos_iff.mpr hne
      obtain ⟨n', rfl⟩ := Nat.exists_eq_add_one.mpr (Nat.lt_of_lt_of_le hpos hn')
      obtain ⟨x, r, hrest⟩ := List.exists_cons_of_ne_nil hne
      have hextended : (c.extend more).rest = x :: (r ++ more) := by
        rw [Cursor.rest_extend, hrest, List.cons_append]
      by_cases hspace : isSpacing x = true
      · rw [quotedWord, quotedWord]
        simp only [hrest, hextended, hspace, if_true]
        exact .ok .refl
      · have hx : isSpacing x = false := Bool.eq_false_iff.mpr hspace
        have hline := isBreak_eq_false hx
        obtain ⟨y, s, rfl⟩ : ∃ y s, r = y :: s := by
          refine List.exists_cons_of_ne_nil ?_
          rintro rfl
          have hlast := hc.last hne
          rw [hrest, List.getLast?_singleton] at hlast
          rw [Option.some.inj hlast] at hx
          cases hx
        -- behind characters of the line it goes on alike
        have hword : ∀ word next, c.Along next → next.rest.length < c.rest.length →
            Reads Cursor.Passes more next (quotedWord double n word next)
              (quotedWord double n' word (next.extend more)) := by
          intro word next halong hless
          obtain ⟨hnext, hleft⟩ := hc.along hne halong
          exact ih hnext hleft (by omega) (by omega)
        have hone : c.Along (c.advance 1) := .single (.char hrest hline)
        have hgoOne : ∀ word, Reads Cursor.Passes more c (quotedWord double n word (c.advance 1))
            (quotedWord double n' word ((c.extend more).advance 1)) := by
          intro word
          rw [Cursor.advance_one_extend hrest]
          exact .trans hone.reaches (hword word _ hone (Cursor.Passes.char hrest hline).length_lt)
        cases double with
        | false =>
            rw [quotedWord_single hrest hx, quotedWord_single hextended hx]
            refine .ite (fun _ => .ite (fun hy => ?_) fun _ => .ok .refl) fun _ => hgoOne _
            subst hy
            have htwo : c.Along (c.advance 2) :=
              Cursor.along_word (w := [x, '\'']) hrest (by simpa using ⟨hline, rfl⟩)
            have hbehind : (c.advance 2).rest = s := Cursor.rest_advance (w := [x, '\'']) hrest
            rw [Cursor.advance_extend (by rw [hrest, List.length_cons, List.length_cons]; omega)]
            refine .trans htwo.reaches (hword _ _ htwo ?_)
            rw [hbehind, hrest, List.length_cons, List.length_cons]
            omega
        | true =>
            rw [quotedWord_double hrest hx, quotedWord_double hextended hx]
            refine .ite (fun _ => .ok .refl) fun _ => .ite (fun _ => ?_) fun _ => hgoOne _
            by_cases hbreak : isBreak y = true
            · obtain ⟨hnext, hleft⟩ := hc.along hne hone
              have hbehind : (c.advance 1).rest = y :: s := Cursor.rest_advance (w := [x]) hrest
              rw [if_pos hbreak, if_pos hbreak,
                Cursor.advance_one_extend hrest,
                Cursor.newline_extend hnext hleft]
              exact .ok (hone.reaches.tail (.line hbehind hbreak))
            · rw [if_neg hbreak, if_neg hbreak]
              exact reads_quotedEscape hrest hline (Bool.eq_false_iff.mpr hbreak) hword

/-! ## Quoted scalars -/

/-- Text in quotes ends before the text does, since it has no other end. -/
theorem reads_quotedWords (hmore : IsDocumentLine more) {double : Bool} {text : List Char}
    (hc : c.EndsLine) (hn : n ≤ n') :
    Reads Cursor.Passes more c (quotedWords double n text c)
      (quotedWords double n' text (c.extend more)) := by
  induction n generalizing n' text c with
  | zero => exact .error _ _
  | succ n ih =>
      obtain ⟨n', rfl⟩ := Nat.exists_eq_add_one.mpr (Nat.lt_of_lt_of_le (Nat.succ_pos n) hn)
      unfold quotedWords
      by_cases hne : c.rest = []
      · rw [hne]
        simp only [List.isEmpty_nil, Bool.or_true, if_true]
        exact .error _ _
      · have hleft : (c.rest ++ more).isEmpty = c.rest.isEmpty := by
          obtain ⟨x, r, hrest⟩ := List.exists_cons_of_ne_nil hne
          rw [hrest]
          rfl
        rw [Cursor.atDocumentMarker_extend hc hne, Cursor.rest_extend, hleft]
        refine .ite (fun _ => .error _ _) fun _ => .bind
          (reads_quotedWord hc hne hc.length_le_steps (hc.length_le_steps_extend more)) ?_
        rintro ⟨word, joined, last⟩ - hreaches
        have hlast : last.EndsLine := hc.reaches hreaches
        have hquote : (if double = true then '"' else '\'') ≠ '-' ∧
            isBreak (if double = true then '"' else '\'') = false := by
          cases double <;> decide
        dsimp only [Placed.extend, Placed.place]
        rw [Cursor.headIs_extend hmore fun _ => hquote.1]
        by_cases hend : last.headIs (if double = true then '"' else '\'') = true
        · obtain ⟨halong, hadvance⟩ := Cursor.headIs_passes hend hquote.2
          rw [if_pos hend, if_pos hend, hadvance]
          exact .ok halong.reaches
        · rw [if_neg hend, if_neg hend]
          cases hgap : Gap.read? 0 last.steps joined {} last with
          | none => exact .error _ _
          | some read =>
              obtain ⟨gap, behind⟩ := read
              obtain ⟨hsame, hgone⟩ := Gap.read?_extend hmore hlast hlast.length_le_steps
                (hlast.length_le_steps_extend more) hgap
              rw [hsame]
              exact .trans hgone (ih (hlast.reaches hgone) (Nat.le_of_succ_le_succ hn))

theorem reads_quoted (hmore : IsDocumentLine more) {double : Bool} {x : Char} {r : List Char}
    (hc : c.EndsLine) (hrest : c.rest = x :: r) (hx : isBreak x = false) :
    Reads Cursor.Passes more (c.advance 1) (quoted double c) (quoted double (c.extend more)) := by
  have hpass := Cursor.Passes.char hrest hx
  unfold quoted
  rw [Cursor.advance_one_extend hrest]
  exact reads_quotedWords hmore (hc.passes hpass) (Cursor.steps_le_extend _ more)

end OperatorBundle.Yaml.Scalar
