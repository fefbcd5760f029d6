import OperatorBundle.Proofs.Yaml.Scalar.Literal
import OperatorBundle.Proofs.Yaml.Scalar.Plain
import OperatorBundle.Proofs.Yaml.Scalar.Quoted
import OperatorBundle.Proofs.Yaml.Scan.Leads
import OperatorBundle.Proofs.Yaml.Tag

/-!
# Single tokens

What the scanner does at the first character of each kind of token.
-/

namespace OperatorBundle.Yaml

open Layout (spaces)

namespace Scanner

/-- Can a token be read here that neither closes a collection nor ends a document? -/
structure Ready (c : Cursor) (blocks : List Nat) : Prop where
  sound : c.IsSound
  inside : ∀ x, blocks.head? = some x → x ≤ c.column
  mark : c.atDocumentMarker = false

/-- The key that is pending behind a token that may begin one. -/
def noted (c : Cursor) (emitted : List Token) (blocks : List Nat) (key : Option PendingKey)
    (allowed : Bool) : Option PendingKey :=
  if allowed then
    some ⟨emitted.length, blocks.head? == some c.column, c.index, c.line, c.column⟩
  else key

variable {c c' : Cursor} {E : List Token} {B : List Nat} {key : Option PendingKey} {allowed : Bool}
  {r : List Char}

theorem noteKey_state (hkey : allowed = true → key = none) :
    (state c E B key allowed).noteKey =
      .ok (state c E B (noted c E B key allowed) allowed) := by
  cases allowed with
  | false => rfl
  | true =>
      rw [hkey rfl]
      unfold noteKey noted forgetKey
      simp [state, dropKey, inFlow, pure, Except.pure, bind, Except.bind]

/-- What is read at a character that begins no directive and no mark of a document. -/
def readAt (s : Scanner) (x : Char) (r : List Char) : Except Defect Scanner :=
  match x with
  | '[' => s.openFlow .flowSequenceStart
  | '{' => s.openFlow .flowMappingStart
  | ']' => s.closeFlow .flowSequenceEnd
  | '}' => s.closeFlow .flowMappingEnd
  | ',' => s.flowEntry
  | '*' => s.anchor .reference
  | '&' => s.anchor .anchor
  | '!' => s.tag
  | '\'' => s.quotedScalar false
  | '"' => s.quotedScalar true
  | _ =>
      if x == '-' && atWordEnd r then s.blockEntry
      else if x == '?' && (s.inFlow || atWordEnd r) then s.explicitKey
      else if x == ':' && (s.inFlow || atWordEnd r) then s.mappingValue
      else if x == '|' && !s.inFlow then s.blockScalar false
      else if x == '>' && !s.inFlow then s.blockScalar true
      else if startsPlain s.inFlow x r then s.plainScalar
      else .error .token

theorem fetch_eq_readAt {s : Scanner} {x : Char} (hunindent : s.unindent = s)
    (hmark : s.cursor.atDocumentMarker = false) (hrest : s.cursor.rest = x :: r) (hx : x ≠ '%') :
    s.fetch = s.readAt x r := by
  have hmarks := Bool.or_eq_false_iff.mp hmark
  have hpercent : (s.cursor.column == 0 && x == '%') = false := by
    rw [beq_eq_false_iff_ne.mpr hx, Bool.and_false]
  rw [fetch, hunindent]
  simp only [hrest, hpercent, hmarks.1, hmarks.2, Bool.false_eq_true, if_false]
  rfl

theorem fetch_eq {x : Char} (h : Ready c B) (hrest : c.rest = x :: r) (hx : x ≠ '%') :
    (state c E B key allowed).fetch = (state c E B key allowed).readAt x r :=
  fetch_eq_readAt (unindent_of_le h.inside) h.mark hrest hx

/-- A plain scalar begins where a text does that can be written plain. -/
theorem readAt_plain {s : Scanner} {x : Char} (hflow : s.inFlow = false)
    (hspacing : isSpacing x = false) (hlead : Layout.isLeadingIndicator x = false)
    (hindicator : (['?', ':', '-'].contains x && atWordEnd r) = false) :
    s.readAt x r = s.plainScalar := by
  -- none of the readers that are tried first applies
  have hno : ∀ y, ['?', ':', '-'].contains y = true → (x == y && atWordEnd r) = false := by
    intro y hy
    cases hxy : x == y with
    | false => rfl
    | true =>
        rw [beq_iff_eq.mp hxy, hy] at hindicator
        exact hindicator
  have hne : ∀ y, Layout.isLeadingIndicator y = true → (x == y) = false := fun y hy =>
    beq_eq_false_iff_ne.mpr fun heq => by
      rw [heq, hy] at hlead
      cases hlead
  have hstarts : startsPlain false x r = true := by
    unfold startsPlain
    split
    · have hend : atWordEnd r = false := hindicator
      cases r with
      | nil => cases hend
      | cons y r => exact congrArg (! ·) (isBlank_eq_false hend)
    · have hend : atWordEnd r = false := hindicator
      rw [hend]
      rfl
    · have hend : atWordEnd r = false := hindicator
      rw [hend]
      rfl
    all_goals first
      | exact absurd hlead (by decide)
      | rw [hspacing]; rfl
  unfold readAt
  rw [hno '-' rfl, hflow, Bool.false_or, hno '?' rfl, hno ':' rfl, hne '|' rfl, hne '>' rfl, hstarts]
  split
  all_goals first
    | exact absurd hlead (by decide)
    | rfl

/-- A plain scalar. -/
theorem fetch_plain {text : List Char} {broken : Bool} (h : Ready c B)
    (hkey : allowed = true → key = none) (hplain : Layout.isPlain text = true) (hne : text ≠ [])
    (hrest : c.rest = text ++ r)
    (hread : Scalar.plain false (state c E B key allowed).level c = .ok (text, broken, c')) :
    (state c E B key allowed).fetch =
      .ok (state c' (.scalar text true :: E) B (noted c E B key allowed) broken) := by
  have hrun := Layout.isRun_of_isPlain hplain hne
  rcases Layout.isPlain_first hplain hne with ⟨x, s, rfl, hlead, hindicator⟩
  rcases hrun.first with ⟨_, _, heq, hspacing, _⟩
  cases heq
  have hpercent : x ≠ '%' := by
    rintro rfl
    cases hlead
  have hhead : c.rest = x :: (s ++ r) := hrest
  have hinFlow : (state c E B key allowed).inFlow = false := rfl
  have hcursor : (state c E B (noted c E B key allowed) allowed).cursor = c := rfl
  have hlevel : (state c E B (noted c E B key allowed) allowed).level =
      (state c E B key allowed).level := rfl
  rw [fetch_eq h hhead hpercent, readAt_plain hinFlow hspacing hlead (hindicator r), plainScalar,
    noteKey_state hkey, ok_bind, hcursor, hlevel,
    show (state c E B (noted c E B key allowed) allowed).inFlow = false from rfl, hread, ok_bind]
  rfl

/-- A scalar in quotes. -/
theorem fetch_quoted {double : Bool} {text : List Char} (h : Ready c B)
    (hkey : allowed = true → key = none) (hrest : c.rest = Scalar.closing double :: r)
    (hread : Scalar.quoted double c = .ok (text, c')) :
    (state c E B key allowed).fetch =
      .ok (state c' (.scalar text false :: E) B (noted c E B key allowed) false) := by
  have hpercent : Scalar.closing double ≠ '%' := by
    cases double <;> decide
  have hfetch : (state c E B key allowed).readAt (Scalar.closing double) r =
      (state c E B key allowed).quotedScalar double := by
    cases double <;> rfl
  have hcursor : (state c E B (noted c E B key allowed) allowed).cursor = c := rfl
  rw [fetch_eq h hrest hpercent, hfetch, quotedScalar, noteKey_state hkey, ok_bind, hcursor, hread,
    ok_bind]
  rfl

/-- A block scalar. -/
theorem fetch_block {text : List Char} (h : Ready c B)
    (hkey : ∀ p, key = some p → p.required = false) (hrest : c.rest = '|' :: r)
    (hread : Scalar.block false (state c E B key allowed).level c = .ok (text, c')) :
    (state c E B key allowed).fetch = .ok (state c' (.scalar text false :: E) B none true) := by
  have hfetch : (state c E B key allowed).readAt '|' r =
      (state c E B key allowed).blockScalar false := rfl
  have hforget : (state c E B key allowed).forgetKey = .ok (state c E B none allowed) := by
    cases key with
    | none => rfl
    | some p =>
        unfold forgetKey dropKey
        simp only [state, hkey p rfl]
        rfl
  have hcursor : (state c E B none allowed).cursor = c := rfl
  have hlevel : (state c E B none allowed).level = (state c E B key allowed).level := rfl
  rw [fetch_eq h hrest (by decide), hfetch, blockScalar, hforget, ok_bind, hcursor, hlevel, hread,
    ok_bind]
  rfl

/-- A tag. -/
theorem fetch_tag {t : Token} (h : Ready c B) (hkey : allowed = true → key = none)
    (hrest : c.rest = '!' :: r) (hread : Property.tag false c = .ok (t, c')) :
    (state c E B key allowed).fetch =
      .ok (state c' (t :: E) B (noted c E B key allowed) false) := by
  have hfetch : (state c E B key allowed).readAt '!' r = (state c E B key allowed).tag := rfl
  have hcursor : (state c E B (noted c E B key allowed) allowed).cursor = c := rfl
  rw [fetch_eq h hrest (by decide), hfetch, tag, noteKey_state hkey, ok_bind, hcursor,
    show (state c E B (noted c E B key allowed) allowed).inFlow = false from rfl, hread, ok_bind]
  rfl

/-! ## Indicators of blocks -/

/-- What a mark in column `column` makes of the open collections and of the tokens so far: the first
of a collection opens it by the token `t`. -/
inductive Opens (t : Token) (column : Nat) :
    List Nat → List Token → List Nat → List Token → Prop where
  | first {blocks : List Nat} {emitted : List Token} (h : ∀ x, blocks.head? = some x → x < column) :
      Opens t column blocks emitted (column :: blocks) (t :: emitted)
  | further {outer : List Nat} {emitted : List Token} :
      Opens t column (column :: outer) emitted (column :: outer) emitted

variable {t : Token} {column : Nat} {B' : List Nat} {E' : List Token}

theorem level_le (h : ∀ x, B.head? = some x → x < column) :
    (state c E B key allowed).level ≤ column := by
  cases B with
  | nil => exact Nat.zero_le _
  | cons x B => exact h x rfl

/-- No collection that goes on here begins to the right. -/
theorem Ready.level_le (h : Ready c B) : (state c E B key allowed).level ≤ c.column + 1 :=
  Scanner.level_le fun x hx => Nat.lt_succ_of_le (h.inside x hx)

theorem emitAt_state (K : List Token) :
    (state c (K ++ E) B key allowed).emitAt E.length t = state c (K ++ t :: E) B key allowed := by
  have hbehind : (K ++ E).length - E.length = K.length := by
    rw [List.length_append, Nat.add_sub_cancel]
  have hcount : (K ++ E).length + 1 = (K ++ t :: E).length := by
    rw [List.length_append, List.length_append, List.length_cons]
    rfl
  unfold emitAt state
  simp only [hbehind, List.take_left, List.drop_left, hcount]

theorem indent_state (h : Opens t column B E B' E') (K : List Token) :
    (state c (K ++ E) B key allowed).indent column E.length t =
      state c (K ++ E') B' key allowed := by
  cases h with
  | first h =>
      have hlevel := @level_le c (K ++ E) B key allowed column h
      have hin : ((state c (K ++ E) B key allowed).inFlow ||
          decide (column < (state c (K ++ E) B key allowed).level)) = false := by
        rw [decide_eq_false (Nat.not_lt_of_le hlevel)]
        rfl
      rw [indent, if_neg (by rw [hin]; exact Bool.false_ne_true), emitAt_state]
      rfl
  | further =>
      rw [indent, if_pos]
      rw [Bool.or_eq_true, decide_eq_true_eq]
      exact .inr (Nat.lt_succ_self column)

theorem Opens.inside (h : Opens t column B E B' E') : ∀ x, B.head? = some x → x ≤ column := by
  intro x hx
  cases h with
  | first h => exact Nat.le_of_lt (h x hx)
  | further =>
      cases hx
      exact Nat.le_refl column

/-- A dash. -/
theorem fetch_blockEntry (h : Ready c B) (hopens : Opens .blockSequenceStart c.column B E B' E')
    (hrest : c.rest = '-' :: r) (hr : atWordEnd r = true) :
    (state c E B none true).fetch =
      .ok (state (c.after ['-']) (.blockEntry :: E') B' none true) := by
  have hread : (state c E B none true).readAt '-' r = (state c E B none true).blockEntry := by
    unfold readAt
    rw [hr]
    rfl
  have hindent := @indent_state c E B none true _ _ B' E' hopens []
  rw [List.nil_append, List.nil_append] at hindent
  have hentry : (state c E B none true).blockEntry =
      (do
        let s ← ((state c E B none true).indent c.column E.length .blockSequenceStart).forgetKey
        return { s with keyAllowed := true }.take 1 .blockEntry) := rfl
  rw [fetch_eq h hrest (by decide), hread, hentry, hindent, ← Cursor.advance_one (by rfl)]
  rfl

/-- A question mark. -/
theorem fetch_explicitKey (h : Ready c B) (hopens : Opens .blockMappingStart c.column B E B' E')
    (hrest : c.rest = '?' :: r) (hr : atWordEnd r = true) :
    (state c E B none true).fetch = .ok (state (c.after ['?']) (.key :: E') B' none true) := by
  have hread : (state c E B none true).readAt '?' r = (state c E B none true).explicitKey := by
    unfold readAt
    rw [hr]
    rfl
  have hindent := @indent_state c E B none true _ _ B' E' hopens []
  rw [List.nil_append, List.nil_append] at hindent
  have hkey : (state c E B none true).explicitKey =
      (do
        let s ← ((state c E B none true).indent c.column E.length .blockMappingStart).forgetKey
        return { s with keyAllowed := !s.inFlow }.take 1 .key) := rfl
  rw [fetch_eq h hrest (by decide), hread, hkey, hindent, ← Cursor.advance_one (by rfl)]
  rfl

/-- A colon on a line of its own. -/
theorem fetch_value (h : Ready c (c.column :: B)) (hrest : c.rest = ':' :: r)
    (hr : atWordEnd r = true) :
    (state c E (c.column :: B) none true).fetch =
      .ok (state (c.after [':']) (.value :: E) (c.column :: B) none true) := by
  have hread : (state c E (c.column :: B) none true).readAt ':' r =
      (state c E (c.column :: B) none true).mappingValue := by
    unfold readAt
    rw [hr]
    rfl
  have hindent := @indent_state c E (c.column :: B) none true .blockMappingStart _ _ _ .further []
  have hvalue : (state c E (c.column :: B) none true).mappingValue =
      .ok (
        let s := (state c E (c.column :: B) none true).indent c.column E.length .blockMappingStart
        { s with keyAllowed := !s.inFlow }.take 1 .value) := rfl
  rw [List.nil_append] at hindent
  rw [fetch_eq h hrest (by decide), hread, hvalue, hindent, ← Cursor.advance_one (by rfl)]
  rfl

/-- A colon behind a key on the same line, whose tokens are `K`. -/
theorem fetch_keyValue {p : PendingKey} {K : List Token} (h : Ready c B)
    (hbefore : p.before = E.length) (hopens : Opens .blockMappingStart p.column B E B' E')
    (hrest : c.rest = ':' :: r) (hr : atWordEnd r = true) :
    (state c (K ++ E) B (some p) false).fetch =
      .ok (state (c.after [':']) (.value :: (K ++ .key :: E')) B' none false) := by
  have hread : (state c (K ++ E) B (some p) false).readAt ':' r =
      (state c (K ++ E) B (some p) false).mappingValue := by
    unfold readAt
    rw [hr]
    rfl
  have hvalue : (state c (K ++ E) B (some p) false).mappingValue =
      .ok (
        let s := ((state c (K ++ E) B (some p) false).emitAt p.before .key).indent p.column p.before
          .blockMappingStart
        { s with key := none, keyAllowed := false }.take 1 .value) := rfl
  -- the key token stands in front of the tokens of the key, and the opening one in front of it
  have hindent := @indent_state c E B (some p) false _ _ B' E' hopens (K ++ [.key])
  rw [List.append_assoc, List.append_assoc, List.singleton_append, List.singleton_append] at hindent
  rw [fetch_eq h hrest (by decide), hread, hvalue, hbefore, emitAt_state, hindent,
    ← Cursor.advance_one (by rfl)]
  rfl

end Scanner

end OperatorBundle.Yaml
