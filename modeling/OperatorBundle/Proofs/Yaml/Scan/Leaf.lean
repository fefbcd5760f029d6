import OperatorBundle.Proofs.Yaml.Scan.Token

/-!
# Tags and values without lines of their own

How a scanner gets past them, in front of a colon and at the end of a line.
-/

namespace OperatorBundle.Yaml

open Layout (spaces)

namespace Scanner

variable {c c' : Cursor} {E E' : List Token} {B B' : List Nat} {key key' : Option PendingKey}
  {allowed allowed' : Bool} {r : List Char}

/-- Is no key given up here that is pending? -/
def Live (key : Option PendingKey) (c : Cursor) : Prop := ∀ p, key = some p → p.isStale c = false

theorem Live.none (c : Cursor) : Live none c := fun _ h => by cases h

/-- Where a key is not given up it is not given up before. -/
theorem Live.mono (h : Live key c') (hline : c.line ≤ c'.line) (hindex : c.index ≤ c'.index) :
    Live key c :=
  fun p hp => Bool.eq_false_iff.mpr fun hstale => by
    have hstale' := isStale_mono hline hindex hstale
    rw [h p hp] at hstale'
    cases hstale'

theorem step_live (hc : c.IsSound) (hr : IsMark c.rest) (hkey : Live key c) :
    (state c E B key allowed).step = (state c E B key allowed).fetch := by
  cases key with
  | none => exact step_eq_fetch hc hr
  | some p =>
      exact step_fresh (hkey p rfl) (hkey p rfl) (toToken_here hc hr)

/-- Past a token. -/
theorem leads_of_fetch (hc : c.IsSound) (hr : IsMark c.rest) (hkey : Live key c)
    (hfetch : (state c E B key allowed).fetch = .ok (state c' E' B' key' allowed'))
    (hend : E'.head? ≠ some .streamEnd) (hrest : c'.rest.length < c.rest.length) :
    Leads (state c E B key allowed) (state c' E' B' key' allowed') :=
  Leads.step ((step_live hc hr hkey).trans hfetch) hend hrest

theorem length_after_lt {text : List Char} (hrest : c.rest = text ++ r) (hne : text ≠ []) :
    (c.after text).rest.length < c.rest.length := by
  have hpos := List.length_pos_iff.mpr hne
  rw [Cursor.rest_after hrest, hrest, List.length_append]
  omega

/-! ## Empty collections -/

/-- A scanner inside a flow collection. -/
def inside (c : Cursor) (emitted : List Token) (blocks : List Nat) (outer : Option PendingKey) :
    Scanner :=
  { state c emitted blocks none true with outerKeys := [outer] }

/-- Are these the brackets of an empty collection, and their tokens? -/
inductive IsPair : Char → Char → Token → Token → Prop where
  | sequence : IsPair '[' ']' .flowSequenceStart .flowSequenceEnd
  | mapping : IsPair '{' '}' .flowMappingStart .flowMappingEnd

theorem toToken_inside {x : Char} (hrest : c.rest = x :: r)
    (hx : isSpacing x = false ∧ x ≠ '#' ∧ x ≠ byteOrderMark) (n : Nat) :
    toToken n (inside c E B key) = inside c E B key := by
  cases n with
  | zero => rfl
  | succ n =>
      have hbom : c.headIs byteOrderMark = false := Cursor.headIs_eq_false hrest hx.2.2
      have hcomment : c.headIs '#' = false := Cursor.headIs_eq_false hrest hx.2.1
      have hblank := Bool.or_eq_false_iff.mp (isBlank_eq_false hx.1)
      have hbreak : c.rest.head?.any isBreak = false := by
        rw [hrest]
        exact isBreak_eq_false hx.1
      have hspan : c.span (fun x => x == ' ' || ((inside c E B key).inFlow ||
          !(inside c E B key).keyAllowed) && x == '\t') = ([], c) := by
        refine Cursor.span_eq_after (t := []) hrest (by simp) (by simp) ?_
        rw [List.head?_cons, Option.any_some, hblank.1, hblank.2, Bool.and_false]
        rfl
      have hcursor : (inside c E B key).cursor = c := rfl
      rw [toToken, hcursor, hbom, Bool.and_false]
      simp only [Bool.false_eq_true, if_false, hspan, Cursor.skipComment, hcomment, hbreak]
      rfl

/-- What the bracket of an empty collection leaves pending. -/
theorem dropStaleKeys_inside (hkey : ∀ p, key = some p → p.isStale c = true → p.required = false) :
    ∃ key', (inside c E B key).dropStaleKeys = .ok (inside c E B key') ∧
      (inside c E B key').dropStaleKeys = .ok (inside c E B key') ∧
      (key' = key ∨ key' = none ∧ ∃ p, key = some p ∧ p.isStale c = true) := by
  have hlive : ∀ key', Live key' c → (inside c E B key').dropStaleKeys = .ok (inside c E B key') := by
    intro key' h
    have hany : key'.any (PendingKey.isStale · c) = false := by
      cases key' with
      | none => rfl
      | some p => exact h p rfl
    unfold dropStaleKeys inside state
    simp [hany, pure, Except.pure, bind, Except.bind]
  cases key with
  | none => exact ⟨none, hlive none (Live.none c), hlive none (Live.none c), .inl rfl⟩
  | some p =>
      cases hstale : p.isStale c with
      | true =>
          refine ⟨none, ?_, hlive none (Live.none c), .inr ⟨rfl, p, rfl, hstale⟩⟩
          unfold dropStaleKeys inside state dropKey
          simp [hstale, hkey p rfl hstale, pure, Except.pure, bind, Except.bind]
      | false =>
          have hlive' : Live (some p) c := fun q hq => by
            cases hq
            exact hstale
          exact ⟨some p, hlive _ hlive', hlive _ hlive', .inl rfl⟩

/-- The opening bracket. -/
theorem fetch_open {x y : Char} {t t' : Token} (hpair : IsPair x y t t') (h : Ready c B)
    (hkey : allowed = true → key = none) (hrest : c.rest = x :: r) :
    (state c E B key allowed).fetch =
      .ok (inside (c.after [x]) (t :: E) B (noted c E B key allowed)) := by
  have hpercent : x ≠ '%' := by
    cases hpair <;> decide
  have hbreak : isBreak x = false := by
    cases hpair <;> rfl
  have hread : (state c E B key allowed).readAt x r = (state c E B key allowed).openFlow t := by
    cases hpair <;> rfl
  rw [fetch_eq h hrest hpercent, hread, openFlow, noteKey_state hkey, ok_bind,
    ← Cursor.advance_one hbreak]
  rfl

/-- The closing bracket. -/
theorem fetch_closing {x y : Char} {t t' : Token} (hpair : IsPair x y t t')
    (hmark : c.atDocumentMarker = false) (hrest : c.rest = y :: r) :
    (inside c E B key).fetch = .ok (state (c.after [y]) (t' :: E) B key false) := by
  have hpercent : y ≠ '%' := by
    cases hpair <;> decide
  have hbreak : isBreak y = false := by
    cases hpair <;> rfl
  have hread : (inside c E B key).readAt y r = (inside c E B key).closeFlow t' := by
    cases hpair <;> rfl
  have hunindent : (inside c E B key).unindent = inside c E B key := rfl
  rw [fetch_eq_readAt hunindent hmark hrest hpercent, hread, closeFlow,
    ← Cursor.advance_one hbreak]
  rfl

/-- Past the brackets of an empty collection, if no key that must be one is given up by it. -/
theorem leads_brackets {x y : Char} {t t' : Token} (hpair : IsPair x y t t') (h : Ready c B)
    (hkey : allowed = true → key = none) (hlive : Live key c) (hrest : c.rest = [x, y] ++ r)
    (hstale : ∀ p, noted c E B key allowed = some p → p.isStale (c.after [x, y]) = true →
      p.required = false) :
    Leads (state c E B key allowed)
      (state (c.after [x, y]) (t' :: t :: E) B (noted c E B key allowed) false) := by
  have hx : isSpacing x = false ∧ x ≠ '#' ∧ x ≠ byteOrderMark := by
    cases hpair <;> decide
  have hy : isSpacing y = false ∧ y ≠ '#' ∧ y ≠ byteOrderMark := by
    cases hpair <;> decide
  have hends : t ≠ .streamEnd ∧ t' ≠ .streamEnd := by
    cases hpair <;> decide
  have hfirst : c.rest = [x] ++ (y :: r) := hrest
  have hrest₁ : (c.after [x]).rest = y :: r := Cursor.rest_after hfirst
  have hsecond : (c.after [x]).rest = [y] ++ r := hrest₁
  have hlength₁ := length_after_lt hfirst (by simp)
  have hlength₂ := length_after_lt hsecond (by simp)
  have hsound := h.sound.after hfirst
  have hmark : (c.after [x]).atDocumentMarker = false := by
    refine Cursor.atDocumentMarker_of_column ?_
    rw [Cursor.column_after (fun z hz => by
      rw [List.mem_singleton.mp hz]
      exact isBreak_eq_false hx.1)]
    exact Nat.succ_pos _
  have hline := Cursor.line_le_after (c.after [x]) [y]
  have hindex : (c.after [x]).index ≤ ((c.after [x]).after [y]).index := by
    rw [Cursor.index_after (c.after [x]) [y]]
    exact Nat.le_add_right _ _
  have hopen : Leads (state c E B key allowed)
      (inside (c.after [x]) (t :: E) B (noted c E B key allowed)) :=
    Leads.step ((step_live h.sound (hrest ▸ .inr ⟨x, _, rfl, hx⟩) hlive).trans
      (fetch_open hpair h hkey hfirst)) (fun heq => hends.1 (Option.some.inj heq)) hlength₁
  have hafter : (c.after [x]).after [y] = c.after [x, y] := rfl
  -- the key noted at the bracket may be dropped at the closing one, or only behind it
  rcases @dropStaleKeys_inside (c.after [x]) (t :: E) B (noted c E B key allowed)
    (fun p hp hs => hstale p hp (isStale_mono hline hindex hs)) with ⟨key', hdrop, hdrop', hkey'⟩
  have hclose : Leads (inside (c.after [x]) (t :: E) B (noted c E B key allowed))
      (state (c.after [x, y]) (t' :: t :: E) B key' false) := by
    refine Leads.step ?_ (fun heq => hends.2 (Option.some.inj heq)) hlength₂
    have hsteps : (inside (c.after [x]) (t :: E) B key').cursor.steps = (c.after [x]).steps := rfl
    rw [step, hdrop, ok_bind, hsteps, toToken_inside hrest₁ hy, hdrop', ok_bind,
      fetch_closing hpair hmark hrest₁, hafter]
  refine hopen.trans (hclose.trans ?_)
  rcases hkey' with rfl | ⟨rfl, p, hp, hs⟩
  · exact Leads.refl _
  · have hs' := isStale_mono hline hindex hs
    rw [hp]
    exact Leads.same (step_stale (hstale p hp hs') hs').symm (Nat.le_refl _)

/-! ## Scalars and tags -/

variable {text : List Char}

/-- Past a scalar in quotes. -/
theorem leads_quoted {double : Bool} {quoted : List Char} (h : Ready c B)
    (hkey : allowed = true → key = none) (hlive : Live key c) (hrest : c.rest = quoted ++ r)
    (hhead : quoted.head? = some (Scalar.closing double))
    (hread : Scalar.quoted double c = .ok (text, c.after quoted)) :
    Leads (state c E B key allowed) (state (c.after quoted) (.scalar text false :: E) B
      (noted c E B key allowed) false) := by
  rcases List.head?_eq_some_iff.mp hhead with ⟨s, rfl⟩
  have hmark : IsMark c.rest := by
    rw [hrest]
    refine .inr ⟨Scalar.closing double, s ++ r, rfl, ?_⟩
    cases double <;> decide
  exact leads_of_fetch h.sound hmark hlive (fetch_quoted h hkey hrest hread) (by simp)
    (length_after_lt hrest (by simp))

theorem isMark_of_isPlain (hplain : Layout.isPlain text = true) (hne : text ≠ []) (s : List Char) :
    IsMark (text ++ s) := by
  rcases (Layout.isRun_of_isPlain hplain hne).first with ⟨x, t, rfl, hx, hhash⟩
  refine .inr ⟨x, t ++ s, rfl, hx, hhash, ?_⟩
  rintro rfl
  unfold Layout.isPlain Layout.needsEscape at hplain
  rw [List.all_cons] at hplain
  cases hplain

/-- Past a plain scalar in front of a colon. -/
theorem leads_plain_colon (h : Ready c B) (hkey : allowed = true → key = none) (hlive : Live key c)
    (hplain : Layout.isPlain text = true) (hne : text ≠ []) (hrest : c.rest = text ++ ':' :: r)
    (hr : atWordEnd r = true) :
    Leads (state c E B key allowed)
      (state (c.after text) (.scalar text true :: E) B (noted c E B key allowed) false) := by
  have hlevel : (state c E B key allowed).level ≤ c.column + 1 := h.level_le
  have hread := Scalar.plain_colon (Layout.isRun_of_isPlain hplain hne) h.sound hrest hr h.mark
    hlevel
  exact leads_of_fetch h.sound (hrest ▸ isMark_of_isPlain hplain hne _) hlive
    (fetch_plain h hkey hplain hne hrest hread) (by simp) (length_after_lt hrest hne)

/-- Past a plain scalar at the end of a line. -/
theorem leads_plain_line {k : Nat} (h : Ready c B) (hkey : allowed = true → key = none)
    (hlive : Live key c) (hplain : Layout.isPlain text = true) (hne : text ≠ [])
    (hrest : c.rest = (text ++ '\n' :: spaces k) ++ r) (hr : Stops r)
    (hk : k < (state c E B key allowed).level ∨ r = []) :
    Leads (state c E B key allowed) (state (c.after (text ++ '\n' :: spaces k))
      (.scalar text true :: E) B (noted c E B key allowed) true) := by
  have hplace : c.rest = text ++ '\n' :: (spaces k ++ r) := by
    rw [hrest, List.append_assoc]
    rfl
  have hlevel : (state c E B key allowed).level ≤ c.column + 1 := h.level_le
  have hread := Scalar.plain_line (Layout.isRun_of_isPlain hplain hne) h.sound hplace hr h.mark
    hlevel hk
  exact leads_of_fetch h.sound (hplace ▸ isMark_of_isPlain hplain hne _) hlive
    (fetch_plain h hkey hplain hne hplace hread) (by simp) (length_after_lt hrest (by simp))

/-- Past a block scalar. -/
theorem leads_literal {k level : Nat} (h : Ready c B) (hlive : Live key c)
    (hkey : ∀ p, key = some p → p.required = false)
    (hlevel : (state c E B key allowed).level = level) (hne : text ≠ [])
    (hprint : ∀ x ∈ text, Layout.isPrintable x = true)
    (hrest : c.rest = (Layout.line (Layout.literal (level - 1 + 2) text) ++ spaces k) ++ r)
    (hr : Stops r) (hk : k < level - 1 + 2) :
    Leads (state c E B key allowed)
      (state (c.after (Layout.line (Layout.literal (level - 1 + 2) text) ++ spaces k))
        (.scalar text false :: E) B none true) := by
  rw [List.append_assoc] at hrest
  have hread := Scalar.block_literal hne hprint hk hr h.sound hrest
  have hhead : ∃ s, Layout.line (Layout.literal (level - 1 + 2) text) ++ spaces k = '|' :: s := by
    rw [Scalar.line_literal hne]
    exact ⟨_, rfl⟩
  rcases hhead with ⟨s, hhead⟩
  have hfirst : c.rest = '|' :: (s ++ r) := by
    rw [hrest, ← List.append_assoc, hhead]
    rfl
  have hmark : IsMark c.rest := hfirst ▸ .inr ⟨'|', s ++ r, rfl, by decide⟩
  rw [← List.append_assoc] at hrest
  rw [← hlevel] at hread hrest ⊢
  exact leads_of_fetch h.sound hmark hlive (fetch_block h hkey hfirst hread) (by simp)
    (length_after_lt hrest (by rw [hlevel, hhead]; simp))

theorem exists_tag_eq (name : String) : ∃ s, Layout.tag name = '!' :: s := by
  unfold Layout.tag
  split
  · exact ⟨_, rfl⟩
  · exact ⟨_, rfl⟩

/-- Past a tag. -/
theorem leads_tag {name : String} (h : Ready c B) (hkey : allowed = true → key = none)
    (hlive : Live key c) (hname : Property.isReadableTag name = true)
    (hrest : c.rest = Layout.tag name ++ r) (hr : atWordEnd r = true) :
    Leads (state c E B key allowed) (state (c.after (Layout.tag name))
      (Property.tagToken name :: E) B (noted c E B key allowed) false) := by
  have hread := Property.tag_eq hname hr h.sound hrest
  rcases exists_tag_eq name with ⟨s, hs⟩
  have hfirst : c.rest = '!' :: (s ++ r) := by
    rw [hrest, hs]
    rfl
  have hmark : IsMark c.rest := hfirst ▸ .inr ⟨'!', s ++ r, rfl, by decide⟩
  have hend : Property.tagToken name ≠ .streamEnd := by
    unfold Property.tagToken
    split <;> exact Token.noConfusion
  exact leads_of_fetch h.sound hmark hlive (fetch_tag h hkey hfirst hread)
    (fun heq => hend (Option.some.inj heq)) (length_after_lt hrest (by rw [hs]; simp))

/-! ## Written leaves -/

/-- Is `text` a written form of what `tokens` spell, whose further lines begin at column `indent`? -/
inductive Written (indent : Nat) : List Char → List Token → Prop where
  | plain {text : List Char} (h : Layout.isPlain text = true) (hne : text ≠ []) :
      Written indent text [.scalar text true]
  | single {text : List Char} (hescape : Layout.needsEscape text = false)
      (hspace : Layout.hasBreakSpace text = false) (hfeed : '\n' ∉ text) :
      Written indent (Layout.single indent text) [.scalar text false]
  | double (text : List Char) : Written indent (Layout.double text) [.scalar text false]
  | literal {text : List Char} (hprint : ∀ x ∈ text, Layout.isPrintable x = true)
      (hne : text ≠ []) : Written indent (Layout.literal indent text) [.scalar text false]
  | pair {x y : Char} {t t' : Token} (h : IsPair x y t t') : Written indent [x, y] [t, t']

variable {tokens : List Token} {indent k : Nat}

/-- What is written on one line is read in front of a colon. -/
theorem Written.leads_colon (hwritten : Written indent text tokens) (hindent : 0 < indent)
    (hbreak : ∀ x ∈ text, isBreak x = false) (h : Ready c B) (hkey : allowed = true → key = none)
    (hlive : Live key c) (hrest : c.rest = text ++ ':' :: r) (hr : atWordEnd r = true)
    (hlive' : Live (noted c E B key allowed) (c.after text)) :
    Leads (state c E B key allowed)
      (state (c.after text) (tokens.reverse ++ E) B (noted c E B key allowed) false) := by
  cases hwritten with
  | plain hplain hne => exact leads_plain_colon h hkey hlive hplain hne hrest hr
  | single hescape hspace hfeed =>
      exact leads_quoted h hkey hlive hrest rfl
        (Scalar.quoted_single hescape hspace hfeed hindent (by simp) h.sound hrest)
  | double text => exact leads_quoted h hkey hlive hrest rfl (Scalar.quoted_double h.sound hrest)
  | literal _ _ =>
      have hfeed : isBreak '\n' = false := hbreak '\n' (by simp [Layout.literal])
      cases hfeed
  | pair hpair =>
      refine leads_brackets hpair h hkey hlive hrest fun p hp hstale => ?_
      rw [hlive' p hp] at hstale
      cases hstale

theorem line_eq (hlast : text.getLast?.any isBreak = false) : Layout.line text = text ++ ['\n'] := by
  rw [Layout.line, hlast]
  rfl

/-- The end of a line behind a leaf. -/
theorem leads_to_break (hc : c.IsSound) {s : Scanner} (hlast : text.getLast?.any isBreak = false)
    (hrest : c.rest = (Layout.line text ++ spaces k) ++ r) (hr : IsMark r)
    (hidle : Idle key c.line) (hleaf : Leads s (state (c.after text) E B key false)) :
    Leads s (state (c.after (Layout.line text ++ spaces k)) E B none true) := by
  rw [line_eq hlast] at hrest ⊢
  have htext : c.rest = text ++ '\n' :: (spaces k ++ r) := by
    rw [hrest]
    simp
  have hafter : c.after (text ++ ['\n'] ++ spaces k) = (c.after text).after ('\n' :: spaces k) := by
    rw [← Cursor.after_append]
    simp
  rw [hafter]
  exact hleaf.trans (leads_break (hc.after htext) (Cursor.rest_after htext) hr
    (hidle.mono (Cursor.line_le_after c text)))

/-- A leaf is read up to the token that follows on another line. -/
theorem Written.leads_line {level : Nat} (hwritten : Written (level - 1 + 2) text tokens)
    (h : Ready c B) (hkey : allowed = true → key = none) (hlive : Live key c)
    (hidle : Idle (noted c E B key allowed) c.line)
    (hrest : c.rest = (Layout.line text ++ spaces k) ++ r) (hr : IsMark r)
    (hlevel : (state c E B key allowed).level = level) (hk : k < level ∨ k = 0 ∧ r = []) :
    Leads (state c E B key allowed)
      (state (c.after (Layout.line text ++ spaces k)) (tokens.reverse ++ E) B none true) := by
  have htext : text.getLast?.any isBreak = false → c.rest = text ++ ('\n' :: (spaces k ++ r)) := by
    intro hlast
    rw [hrest, line_eq hlast]
    simp
  cases hwritten with
  | @plain text hplain hne =>
      have hlast := (Layout.isRun_of_isPlain hplain hne).getLast?_any
      rw [line_eq hlast, List.append_assoc text, List.singleton_append] at hrest ⊢
      have hafter : (c.after (text ++ '\n' :: spaces k)).rest = r := Cursor.rest_after hrest
      have hline : c.line < (c.after (text ++ '\n' :: spaces k)).line :=
        Cursor.line_lt_after (List.mem_append_right _ List.mem_cons_self) rfl c
      have hread := leads_plain_line h hkey hlive hplain hne hrest hr.stops
        (hk.imp (hlevel.symm ▸ ·) And.right)
      -- a plain scalar takes the line break with it; the others leave it to be skipped
      exact hread.trans (leads_fade (h.sound.after hrest) (hafter.symm ▸ hr) (hidle.fades hline))
  | @single text hescape hspace hfeed =>
      have hlast : (Layout.single (level - 1 + 2) text).getLast?.any isBreak = false := by
        rw [Layout.single, List.getLast?_concat]
        rfl
      refine leads_to_break h.sound hlast hrest hr hidle ?_
      exact leads_quoted h hkey hlive (htext hlast) rfl (Scalar.quoted_single hescape hspace hfeed
        (Nat.succ_pos _) (by simp) h.sound (htext hlast))
  | double text =>
      have hlast : (Layout.double text).getLast?.any isBreak = false := by
        rw [Layout.double, List.getLast?_concat]
        rfl
      refine leads_to_break h.sound hlast hrest hr hidle ?_
      exact leads_quoted h hkey hlive (htext hlast) rfl (Scalar.quoted_double h.sound (htext hlast))
  | literal hprint hne =>
      refine leads_literal h hlive (fun p hp => ?_) hlevel hne hprint hrest hr.stops (by omega)
      cases allowed with
      | true => exact absurd (hkey rfl ▸ hp) (by simp)
      | false => exact (hidle p hp).1
  | @pair x y t t' hpair =>
      have hlast : [x, y].getLast?.any isBreak = false := by
        cases hpair <;> rfl
      refine leads_to_break h.sound hlast hrest hr hidle ?_
      exact leads_brackets hpair h hkey hlive (htext hlast) fun p hp _ => (hidle p hp).1

end Scanner

end OperatorBundle.Yaml
