import OperatorBundle.Proofs.Yaml.Continued.Reader
import OperatorBundle.Yaml.Token.Property

/-!
# Anchors, tags and directives in texts that go on

Each of them ends in its line, so that the text behind the line cannot change it.
-/

namespace OperatorBundle.Yaml.Property

variable {more : List Char} {c : Cursor}

/-- A piece of a line is read alike, and some of the line is left behind it. -/
theorem span_line (hmore : IsDocumentLine more) {p : Char → Bool}
    (hp : p '\n' = false ∧ p '\r' = false ∧ p '\x85' = false ∧ p '\u2028' = false ∧
      p '\u2029' = false) (hc : c.EndsLine) (hne : c.rest ≠ []) :
    (c.extend more).span p = ((c.span p).1, (c.span p).2.extend more) ∧ c.Along (c.span p).2 ∧
      (c.span p).2.EndsLine ∧ (c.span p).2.rest ≠ [] := by
  have halong : c.Along (c.span p).2 := Cursor.along_span fun x hx => isBreak_eq_false_of hp hx
  exact ⟨Cursor.span_extend hmore hc hp.1 fun h => absurd h hne, halong, hc.along hne halong⟩

/-- Blanks are skipped on one line, and alike in a longer text. -/
theorem skipBlanks_line (hmore : IsDocumentLine more) (hc : c.EndsLine) (hne : c.rest ≠ []) :
    (c.extend more).skipBlanks = c.skipBlanks.extend more ∧ c.Along c.skipBlanks ∧
      c.skipBlanks.EndsLine ∧ c.skipBlanks.rest ≠ [] := by
  obtain ⟨hsame, hline⟩ := span_line hmore (p := isBlank) (by decide) hc hne
  exact ⟨congrArg Prod.snd hsame, hline⟩

/-! ## Anchors and aliases -/

/-- A name ends alike in a longer text. -/
theorem atNameEnd_extend {text : List Char} (hne : text ≠ []) :
    atNameEnd (text ++ more) = atNameEnd text := by
  obtain ⟨x, r, rfl⟩ := List.exists_cons_of_ne_nil hne
  rfl

/-- The name of an anchor is read alike. -/
theorem reads_anchorName (hmore : IsDocumentLine more) {x : Char} {r : List Char}
    (hc : c.EndsLine) (hrest : c.rest = x :: r) (hx : isBreak x = false) :
    Reads Cursor.PassesChar more (c.advance 1) (anchorName c) (anchorName (c.extend more)) := by
  obtain ⟨-, hfirst, hleft⟩ := hc.first hrest hx
  obtain ⟨hsame, halong, -, hend⟩ := span_line hmore (p := isNameChar) (by decide) hfirst hleft
  unfold anchorName
  rw [Cursor.advance_one_extend hrest, hsame]
  dsimp only
  rw [Cursor.rest_extend, atNameEnd_extend hend]
  exact .ite (fun _ => .error _ _) fun _ => .ok halong

/-! ## Escaped octets -/

/-- Is a word of `n` characters at the head of a text in one line? -/
def BeginsLine (n : Nat) (text : List Char) : Prop :=
  ∃ w r, text = w ++ r ∧ w.length = n ∧ ∀ x ∈ w, isBreak x = false

/-- Characters behind which a line goes on begin it. -/
theorem BeginsLine.append {w r : List Char} {n : Nat} (hw : ∀ x ∈ w, isBreak x = false)
    (h : BeginsLine n r) : BeginsLine (w.length + n) (w ++ r) := by
  obtain ⟨w', r, rfl, rfl, hw'⟩ := h
  refine ⟨w ++ w', r, (List.append_assoc ..).symm, List.length_append, ?_⟩
  intro x hx
  exact (List.mem_append.mp hx).elim (hw x) (hw' x)

/-- An octet takes three characters, whatever follows. -/
theorem octet?_split {text : List Char} {octet : Nat} (h : octet? text = some octet) :
    ∃ a b r, text = '%' :: a :: b :: r ∧ (∀ x ∈ ['%', a, b], isBreak x = false) ∧
      ∀ s, octet? ('%' :: a :: b :: s) = some octet := by
  unfold octet? at h
  split at h
  · rename_i a b r
    have hdigits := isBreak_eq_false_of_hexNumber? h
    exact ⟨a, b, r, rfl, List.forall_mem_cons.mpr ⟨rfl, hdigits⟩, fun _ => h⟩
  · cases h

/-- Octets are read alike in a longer text. -/
theorem groupCode?_extend {n code k : Nat} {text : List Char} (h : groupCode? n code text = some k)
    (more : List Char) :
    groupCode? n code (text ++ more) = some k ∧ BeginsLine (3 * n) text := by
  induction n generalizing code text with
  | zero => exact ⟨h, [], text, rfl, rfl, nofun⟩
  | succ n ih =>
      rw [groupCode?] at h ⊢
      obtain ⟨octet, hoctet, h⟩ := Option.bind_eq_some_iff.mp h
      obtain ⟨a, b, r, rfl, hw, hsame⟩ := octet?_split hoctet
      split at h
      · rename_i hcontinues
        obtain ⟨hcode, hbegins⟩ := ih h
        refine ⟨?_, ?_⟩
        · rw [List.cons_append, List.cons_append, List.cons_append, hsame]
          simp only [Option.bind_eq_bind, Option.bind_some, hcontinues, if_true]
          exact hcode
        · rw [Nat.mul_succ, Nat.add_comm]
          exact hbegins.append hw
      · cases h

/-- A group has one octet at least. -/
theorem groupSize?_pos {lead size : Nat} (h : groupSize? lead = some size) : 0 < size := by
  unfold groupSize? at h
  grind

/-- The octets of a character are all there before more text follows. -/
theorem escapedGroup?_extend {text : List Char} {y : Option Char} {size : Nat}
    (h : escapedGroup? text = some (y, size)) (more : List Char) :
    escapedGroup? (text ++ more) = some (y, size) ∧ 0 < size ∧ BeginsLine (3 * size) text := by
  unfold escapedGroup? at h ⊢
  obtain ⟨lead, hlead, h⟩ := Option.bind_eq_some_iff.mp h
  obtain ⟨width, hwidth, h⟩ := Option.bind_eq_some_iff.mp h
  obtain ⟨code, hcode, h⟩ := Option.bind_eq_some_iff.mp h
  cases h
  have hpos := groupSize?_pos hwidth
  obtain ⟨a, b, r, rfl, hw, hsame⟩ := octet?_split hlead
  obtain ⟨hgroup, hbegins⟩ := groupCode?_extend hcode more
  refine ⟨?_, hpos, ?_⟩
  · rw [List.cons_append, List.cons_append, List.cons_append, hsame]
    simp only [Option.bind_eq_bind, Option.bind_some, hwidth]
    rw [List.drop_succ_cons, List.drop_succ_cons, List.drop_succ_cons, List.drop_zero] at hgroup ⊢
    rw [hgroup]
    rfl
  · have hlength : 3 * size = 3 + 3 * (size - 1) := by omega
    rw [hlength]
    exact hbegins.append hw

/-! ## Tags -/

theorem isBreak_eq_false_of_isTagChar {wide : Bool} {x : Char} (h : isTagChar wide x = true) :
    isBreak x = false :=
  isBreak_eq_false_of (p := isTagChar wide) (by cases wide <;> decide) h

/-- The characters of a tag are read alike. -/
theorem reads_tagChars {wide : Bool} {tag : TagText} (hc : c.EndsLine) (hne : c.rest ≠ [])
    {n n' : Nat} (hn : c.rest.length ≤ n) (hn' : c.rest.length ≤ n') :
    Reads Cursor.PassesChar more c (tagChars wide n tag c)
      (tagChars wide n' tag (c.extend more)) := by
  induction n generalizing n' tag c with
  | zero => exact absurd (List.eq_nil_of_length_eq_zero (Nat.le_zero.mp hn)) hne
  | succ n ih =>
      have hpos := List.length_pos_iff.mpr hne
      obtain ⟨n', rfl⟩ := Nat.exists_eq_add_one.mpr (Nat.lt_of_lt_of_le hpos hn')
      obtain ⟨x, r, hrest⟩ := List.exists_cons_of_ne_nil hne
      -- behind characters of the line it goes on alike
      have hgo : ∀ w s tag, c.rest = w ++ s → 0 < w.length → (∀ y ∈ w, isBreak y = false) →
          Reads Cursor.PassesChar more c (tagChars wide n tag (c.advance w.length))
            (tagChars wide n' tag ((c.extend more).advance w.length)) := by
        intro w s tag hsplit hpos hline
        have halong := Cursor.along_word hsplit hline
        obtain ⟨hnext, hleft⟩ := hc.along hne halong
        have hlength := congrArg List.length hsplit
        have hbehind := congrArg List.length (Cursor.rest_advance hsplit)
        rw [List.length_append] at hlength
        rw [Cursor.advance_extend (by omega)]
        exact .trans halong (ih hnext hleft (by omega) (by omega))
      rw [tagChars, tagChars, Cursor.rest_extend, hrest, List.cons_append]
      refine .ite (fun _ => .ok .refl) fun htag => .ite (fun _ => ?_) fun _ => ?_
      · have hline : isBreak x = false := isBreak_eq_false_of_isTagChar (by simpa using htag)
        exact hgo [x] r _ hrest Nat.one_pos (by simpa using hline)
      · cases hgroup : escapedGroup? (x :: r) with
        | none => exact .error _ _
        | some group =>
            obtain ⟨y, size⟩ := group
            obtain ⟨hsame, hpos, w, s, hsplit, hlength, hline⟩ := escapedGroup?_extend hgroup more
            rw [List.cons_append] at hsame
            rw [hsame]
            dsimp only
            rw [← hlength]
            exact hgo w s _ (hrest.trans hsplit) (by omega) hline

theorem reads_tagText {wide : Bool} {lead : TagText} (hc : c.EndsLine) (hne : c.rest ≠ []) :
    Reads Cursor.PassesChar more c (tagText wide lead c) (tagText wide lead (c.extend more)) :=
  reads_tagChars hc hne hc.length_le_steps (hc.length_le_steps_extend more)

/-- The handle of a tag is read alike. -/
theorem reads_tagHandle (hmore : IsDocumentLine more) (hc : c.EndsLine) (hne : c.rest ≠ []) :
    Reads Cursor.PassesChar more (c.advance 1) (tagHandle c) (tagHandle (c.extend more)) := by
  unfold tagHandle
  rw [Cursor.headIs_extend hmore fun h => absurd h hne]
  refine .ite (fun _ => .error _ _) fun hmark => ?_
  obtain ⟨hfirst, hsame⟩ := Cursor.headIs_passes
    (by simpa using hmark : c.headIs '!' = true) rfl
  obtain ⟨hfirst, hleft⟩ := hc.along hne hfirst
  obtain ⟨hname, halong, -, hend⟩ := span_line hmore (p := isNameChar) (by decide) hfirst hleft
  rw [hsame, hname]
  dsimp only
  rw [Cursor.headIs_extend hmore fun h => absurd h hend]
  refine .trans halong (.ite (fun hmark => ?_) fun _ => .ok .refl)
  obtain ⟨hlast, hsame⟩ := Cursor.headIs_passes hmark rfl
  rw [hsame]
  exact .ok hlast

/-- Handle and suffix of a tag are read alike. -/
theorem reads_tagParts (hmore : IsDocumentLine more) {x : Char} {r : List Char}
    (hc : c.EndsLine) (hrest : c.rest = x :: r) (hx : isBreak x = false) :
    Reads Cursor.PassesChar more (c.advance 1) (tagParts c) (tagParts (c.extend more)) := by
  have hne : c.rest ≠ [] := by
    rw [hrest]
    exact List.cons_ne_nil x r
  have hbehind : (c.advance 1).rest = r := Cursor.rest_advance (w := [x]) hrest
  obtain ⟨-, hfirst, hleft⟩ := hc.first hrest hx
  obtain ⟨y, s, rfl⟩ := List.exists_cons_of_ne_nil (hbehind ▸ hleft)
  unfold tagParts
  rw [Cursor.rest_extend, hrest]
  refine .ite (fun hbracket => ?_) fun _ => ?_
  · -- a tag in brackets ends with the closing one, and does not go on in the next line
    have hy : y = '<' := by simpa using hbracket
    subst hy
    have hsecond : Cursor.Along (c.advance 1) (c.advance (1 + 1)) := by
      rw [← Cursor.advance_advance]
      exact .single (.char hbehind rfl)
    obtain ⟨hopen, hinside⟩ := hfirst.along hleft hsecond
    rw [Cursor.advance_extend (by rw [hrest, List.length_cons, List.length_cons]; omega)]
    refine .trans hsecond (.bind (reads_tagText hopen hinside) ?_)
    rintro ⟨tag, last⟩ - (halong : Cursor.Along _ last)
    obtain ⟨hlast, hend⟩ := hopen.along hinside halong
    dsimp only [Placed.extend, Placed.place]
    rw [Cursor.headIs_extend hmore fun h => absurd h hend]
    refine .ite (fun _ => .error _ _) fun hclosed => ?_
    have hmark : last.headIs '>' = true := by
      rw [Bool.or_eq_true, not_or] at hclosed
      simpa using hclosed.2
    obtain ⟨hpassed, hsame⟩ := Cursor.headIs_passes hmark rfl
    rw [hsame]
    exact .ok hpassed
  · refine .bind (reads_tagHandle hmore hc hne) ?_
    rintro ⟨handle, last⟩ - (halong : Cursor.Along _ last)
    obtain ⟨hlast, hend⟩ := hfirst.along hleft halong
    dsimp only [Placed.extend, Placed.place]
    refine .ite (fun _ => .bind (reads_tagText hlast hend) ?_) fun _ =>
      .bind (reads_tagText hlast hend) ?_
    · rintro ⟨suffix, last⟩ - -
      exact .ite (fun _ => .error _ _) fun _ => .ok .refl
    · rintro ⟨suffix, last⟩ - -
      exact .ite (fun _ => .ok .refl) fun _ => .ok .refl

/-- A tag is read alike. -/
theorem reads_tag (hmore : IsDocumentLine more) {inFlow : Bool} {x : Char} {r : List Char}
    (hc : c.EndsLine) (hrest : c.rest = x :: r) (hx : isBreak x = false) :
    Reads Cursor.PassesChar more (c.advance 1) (tag inFlow c) (tag inFlow (c.extend more)) := by
  obtain ⟨-, hfirst, hleft⟩ := hc.first hrest hx
  unfold tag
  refine .bind (reads_tagParts hmore hc hrest hx) ?_
  rintro ⟨handle, suffix, last⟩ - (halong : Cursor.Along _ last)
  obtain ⟨-, hend⟩ := hfirst.along hleft halong
  dsimp only [Placed.extend, Placed.place]
  rw [Cursor.headIs_extend hmore fun h => absurd h hend, Cursor.rest_extend,
    Cursor.atWordEnd_extend hend]
  exact .ite (fun _ => .ok .refl) fun _ => .error _ _

/-! ## Directives -/

/-- A number of a version is read alike. -/
theorem reads_versionNumber (hmore : IsDocumentLine more) (hc : c.EndsLine) (hne : c.rest ≠ []) :
    Reads Cursor.PassesChar more c (versionNumber c) (versionNumber (c.extend more)) := by
  obtain ⟨hsame, halong, -⟩ := span_line hmore (p := isDigit) (by decide) hc hne
  unfold versionNumber
  rw [hsame]
  exact .ite (fun _ => .error _ _) fun _ => .ok halong

/-- Both numbers of a version are read alike. -/
theorem reads_versionParts (hmore : IsDocumentLine more) (hc : c.EndsLine) (hne : c.rest ≠ []) :
    Reads Cursor.PassesChar more c (versionParts c) (versionParts (c.extend more)) := by
  obtain ⟨hskip, halong, hword, hleft⟩ := skipBlanks_line hmore hc hne
  unfold versionParts
  rw [hskip]
  refine .trans halong (.bind (reads_versionNumber hmore hword hleft) ?_)
  rintro ⟨major, last⟩ - (halong : Cursor.Along _ last)
  obtain ⟨hlast, hend⟩ := hword.along hleft halong
  dsimp only [Placed.extend, Placed.place]
  rw [Cursor.headIs_extend hmore fun h => absurd h hend]
  refine .ite (fun _ => .error _ _) fun hpoint => ?_
  obtain ⟨hpassed, hsame⟩ := Cursor.headIs_passes
    (by simpa using hpoint : last.headIs '.' = true) rfl
  obtain ⟨hbehind, hrest⟩ := hlast.along hend hpassed
  rw [hsame]
  exact .trans hpassed (.bind (reads_versionNumber hmore hbehind hrest) fun _ _ _ => .ok .refl)

/-- Handle and prefix of a directive are read alike. -/
theorem reads_handleParts (hmore : IsDocumentLine more) (hc : c.EndsLine) (hne : c.rest ≠ []) :
    Reads Cursor.PassesChar more c (handleParts c) (handleParts (c.extend more)) := by
  obtain ⟨hskip, halong, hword, hleft⟩ := skipBlanks_line hmore hc hne
  unfold handleParts
  rw [hskip]
  by_cases hmark : c.skipBlanks.headIs '!' = true
  · obtain ⟨hfirst, -⟩ := Cursor.headIs_passes hmark rfl
    obtain ⟨hname, hrest⟩ := hword.along hleft hfirst
    refine .trans (halong.trans hfirst) (.bind (reads_tagHandle hmore hword hleft) ?_)
    rintro ⟨handle, last⟩ - (halong : Cursor.Along _ last)
    obtain ⟨hlast, hend⟩ := hname.along hrest halong
    obtain ⟨hskip, halong, hword, hleft⟩ := skipBlanks_line hmore hlast hend
    dsimp only [Placed.extend, Placed.place]
    rw [Cursor.head?_any_extend hmore fun h => absurd h hend, hskip]
    refine .ite (fun _ => .error _ _) fun _ => .trans halong (.bind (reads_tagText hword hleft) ?_)
    rintro ⟨stem, last⟩ - (halong : Cursor.Along _ last)
    obtain ⟨-, hend⟩ := hword.along hleft halong
    simp only [Placed.extend, Placed.place, Cursor.rest_extend, Cursor.atWordEnd_extend hend]
    exact .ite (fun _ => .error _ _) fun _ => .ok .refl
  · -- without its mark a handle is refused, whatever follows
    have hfails : tagHandle c.skipBlanks = .error .token := by
      unfold tagHandle
      rw [Bool.eq_false_iff.mpr hmark]
      rfl
    rw [hfails]
    exact .error _ _

/-- Ends a line, with `token` read from it. -/
def endLine (token : Token) (c : Cursor) : Except Defect (Token × Cursor) :=
  let last := c.skipBlanks.skipComment
  if !last.atLineEnd then .error .token else .ok (token, last.newline)

/-- The end of a line behind a directive is read alike. -/
theorem reads_endLine (hmore : IsDocumentLine more) (token : Token) (hc : c.EndsLine)
    (hne : c.rest ≠ []) :
    Reads Cursor.Passes more c (endLine token c) (endLine token (c.extend more)) := by
  have halong := Cursor.along_lineRest c
  obtain ⟨hlast, hend⟩ := hc.along hne halong
  unfold endLine
  rw [Cursor.lineRest_extend hmore hc]
  dsimp only
  rw [Cursor.atLineEnd_extend hend, Cursor.newline_extend hlast hend]
  refine .ite (fun _ => .error _ _) fun hbreak => .ok ?_
  exact halong.reaches.tail (Cursor.passes_newline hend (by simpa using hbreak))

/-- A directive is read by its name. -/
theorem directive_eq (c : Cursor) :
    directive c =
      let (name, c) := (c.advance 1).span isNameChar
      if !atWordEnd c.rest then .error .token
      else
        (if name == ['Y', 'A', 'M', 'L'] then versionParts c
          else if name == ['T', 'A', 'G'] then handleParts c
          else .error .token) >>= fun part => endLine part.1 part.2 := by
  unfold directive
  dsimp only
  split
  · rfl
  · split
    · rfl
    · split
      · rfl
      · rfl

/-- A directive is read alike. -/
theorem reads_directive (hmore : IsDocumentLine more) {x : Char} {r : List Char}
    (hc : c.EndsLine) (hrest : c.rest = x :: r) (hx : isBreak x = false) :
    Reads Cursor.Passes more (c.advance 1) (directive c) (directive (c.extend more)) := by
  obtain ⟨-, hfirst, hleft⟩ := hc.first hrest hx
  obtain ⟨hsame, halong, hname, hend⟩ := span_line hmore (p := isNameChar) (by decide) hfirst hleft
  rw [directive_eq, directive_eq, Cursor.advance_one_extend hrest, hsame]
  dsimp only
  rw [Cursor.rest_extend, Cursor.atWordEnd_extend hend]
  generalize (c.advance 1).span isNameChar = name at halong hname hend
  obtain ⟨name, behind⟩ := name
  dsimp only at halong hname hend ⊢
  have hparts : Reads Cursor.PassesChar more behind
      (if name == ['Y', 'A', 'M', 'L'] then versionParts behind
        else if name == ['T', 'A', 'G'] then handleParts behind
        else .error .token)
      (if name == ['Y', 'A', 'M', 'L'] then versionParts (behind.extend more)
        else if name == ['T', 'A', 'G'] then handleParts (behind.extend more)
        else .error .token) :=
    .ite (fun _ => reads_versionParts hmore hname hend) fun _ =>
      .ite (fun _ => reads_handleParts hmore hname hend) fun _ => .error _ _
  refine .trans halong.reaches (.ite (fun _ => .error _ _) fun _ => .bind hparts.reaches ?_)
  rintro ⟨token, last⟩ hread -
  obtain ⟨hlast, hleft⟩ : last.EndsLine ∧ last.rest ≠ [] := hname.along hend (hparts _ hread).2
  exact reads_endLine hmore token hlast hleft

end OperatorBundle.Yaml.Property
