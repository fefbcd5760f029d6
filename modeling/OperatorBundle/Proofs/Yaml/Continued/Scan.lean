import OperatorBundle.Proofs.Yaml.Continued.Block
import OperatorBundle.Proofs.Yaml.Continued.Plain
import OperatorBundle.Proofs.Yaml.Continued.Property
import OperatorBundle.Proofs.Yaml.Continued.Quoted
import OperatorBundle.Proofs.Yaml.Scan.Growth

/-!
# Tokens of texts that go on

A scanner reads the tokens of a text of whole lines from every longer text that goes on with a line
`---`.  Where it met the end of the stream it meets the start of a document instead.
-/

namespace OperatorBundle.Yaml

namespace Scanner

variable {more : List Char} {s s' t : Scanner}

/-- The same state where more text follows. -/
def extend (s : Scanner) (more : List Char) : Scanner :=
  { s with cursor := s.cursor.extend more }

end Scanner

instance : Placed Scanner := ⟨Scanner.cursor, Scanner.extend⟩

namespace Scanner

variable {more : List Char} {c : Cursor} {s s' t : Scanner}

@[simp] theorem cursor_extend : (s.extend more).cursor = s.cursor.extend more := rfl

/-! ## Steps that read nothing -/

/-- Blocks are closed alike in a longer text. -/
theorem closeBlocks_extend (more : List Char) (closes : Nat → Bool) (blocks : List Nat)
    (s : Scanner) :
    closeBlocks closes blocks (s.extend more) = (closeBlocks closes blocks s).extend more := by
  induction blocks generalizing s with
  | nil => rfl
  | cons column outer ih =>
      rw [closeBlocks, closeBlocks]
      split
      · exact ih (s.emit .blockEnd)
      · rfl

/-- The blocks that end here are the same in a longer text. -/
theorem unindent_extend (s : Scanner) : (s.extend more).unindent = s.unindent.extend more := by
  have hclose := closeBlocks_extend more (s.cursor.column < ·) s.blocks s
  cases houter : s.outerKeys with
  | nil => simpa [unindent, inFlow, extend, houter] using hclose
  | cons key outer => simp [unindent, inFlow, extend, houter]

/-- All blocks are closed alike in a longer text. -/
theorem closeAll_extend (s : Scanner) : (s.extend more).closeAll = s.closeAll.extend more := by
  have hclose := closeBlocks_extend more (fun _ => true) s.blocks s
  cases houter : s.outerKeys with
  | nil => simpa [closeAll, inFlow, extend, houter] using hclose
  | cons key outer => simp [closeAll, inFlow, extend, houter]

@[simp] theorem cursor_closeAll (s : Scanner) : s.closeAll.cursor = s.cursor := by
  unfold closeAll
  split
  · rfl
  · exact cursor_closeBlocks _ _ s

/-- Does an action on keys go on alike in the longer text, from where it is? -/
def Stays (more : List Char) (c : Cursor) (act act' : Except Defect Scanner) : Prop :=
  ∀ s, act = .ok s → act' = .ok (s.extend more) ∧ s.cursor = c

/-- A key is forgotten alike in a longer text. -/
theorem stays_forgetKey (more : List Char) (hcursor : s.cursor = c) :
    Stays more c s.forgetKey (s.extend more).forgetKey := by
  intro t h
  have hsame : t.cursor = s.cursor := by rw [forgetKey_eq h]
  obtain ⟨key, hkey, h⟩ := bind_eq_ok_iff.mp h
  cases h
  exact ⟨bind_eq_ok_iff.mpr ⟨key, hkey, rfl⟩, hsame.trans hcursor⟩

/-- A key is noted alike in a longer text. -/
theorem stays_noteKey (more : List Char) (hcursor : s.cursor = c) :
    Stays more c s.noteKey (s.extend more).noteKey := by
  intro t h
  unfold noteKey at h ⊢
  have hallowed : (s.extend more).keyAllowed = s.keyAllowed := rfl
  rw [hallowed]
  split at h
  · cases h
    rename_i hno
    rw [if_pos hno]
    exact ⟨rfl, hcursor⟩
  · rename_i hyes
    rw [if_neg hyes]
    obtain ⟨u, hforget, h⟩ := bind_eq_ok_iff.mp h
    cases h
    obtain ⟨hsame, hplace⟩ := stays_forgetKey more hcursor u hforget
    exact ⟨bind_eq_ok_iff.mpr ⟨u.extend more, hsame, rfl⟩, hplace⟩

/-- Keys are stale alike in a longer text. -/
theorem stays_dropStaleKeys (more : List Char) (hcursor : s.cursor = c) :
    Stays more c s.dropStaleKeys (s.extend more).dropStaleKeys := by
  intro t h
  have hsame : t.cursor = s.cursor := by rw [dropStaleKeys_eq h]
  obtain ⟨key, hkey, h⟩ := bind_eq_ok_iff.mp h
  obtain ⟨outer, houter, h⟩ := bind_eq_ok_iff.mp h
  cases h
  exact ⟨bind_eq_ok_iff.mpr ⟨key, hkey, bind_eq_ok_iff.mpr ⟨outer, houter, rfl⟩⟩,
    hsame.trans hcursor⟩

/-- Tokens are read behind an action on keys. -/
theorem Stays.bind {Step : Cursor → Cursor → Prop} {start : Cursor}
    {act act' : Except Defect Scanner} {next next' : Scanner → Except Defect Scanner}
    (h : Stays more c act act')
    (hnext : ∀ t, act = .ok t → t.cursor = c →
      Reads Step more start (next t) (next' (t.extend more))) :
    Reads Step more start (act >>= next) (act' >>= next') := by
  intro s' hs'
  obtain ⟨t, ht, hs'⟩ := bind_eq_ok_iff.mp hs'
  obtain ⟨hact, hcursor⟩ := h t ht
  rw [hact, ok_bind]
  exact hnext t ht hcursor s' hs'

/-! ## Single tokens

Each of the readers begins at the character `x`, and reads on behind it. -/

section Token

variable {x : Char} {r : List Char}

/-- A token is taken alike in a longer text. -/
theorem take_extend {n : Nat} (h : n ≤ s.cursor.rest.length) (token : Token) :
    (s.extend more).take n token = (s.take n token).extend more := by
  unfold take
  rw [cursor_extend, Cursor.advance_extend h]
  rfl

/-- A token of one character. -/
theorem reads_one (hrest : s.cursor.rest = x :: r) (token : Token) {allowed : Bool}
    {key : Option PendingKey} {outer : List (Option PendingKey)} :
    Reads Cursor.Passes more (s.cursor.advance 1)
      (.ok ({ s with key := key, outerKeys := outer, keyAllowed := allowed }.take 1 token))
      (.ok ({ s.extend more with key := key, outerKeys := outer, keyAllowed := allowed }.take 1
        token)) := by
  have htake : ({ s.extend more with key := key, outerKeys := outer, keyAllowed := allowed }.take 1
      token) = (({ s with key := key, outerKeys := outer, keyAllowed := allowed } : Scanner).take 1
        token).extend more :=
    take_extend (s := { s with key := key, outerKeys := outer, keyAllowed := allowed })
      (by show 1 ≤ s.cursor.rest.length; rw [hrest, List.length_cons]; omega) token
  rw [htake]
  exact .ok .refl

/-- The start of a flow collection is read alike. -/
theorem reads_openFlow (hrest : s.cursor.rest = x :: r) (token : Token) :
    Reads Cursor.Passes more (s.cursor.advance 1) (s.openFlow token)
      ((s.extend more).openFlow token) := by
  refine (stays_noteKey more rfl).bind fun t _ ht => ?_
  rw [← ht] at hrest ⊢
  exact reads_one hrest token

/-- The end of a flow collection is read alike. -/
theorem reads_closeFlow (hrest : s.cursor.rest = x :: r) (token : Token) :
    Reads Cursor.Passes more (s.cursor.advance 1) (s.closeFlow token)
      ((s.extend more).closeFlow token) := by
  refine (stays_forgetKey more rfl).bind fun t _ ht => ?_
  rw [← ht] at hrest ⊢
  have houter : (t.extend more).outerKeys = t.outerKeys := rfl
  rw [houter]
  cases t.outerKeys with
  | nil => exact reads_one hrest token
  | cons key outer => exact reads_one hrest token

/-- A comma is read alike. -/
theorem reads_flowEntry (hrest : s.cursor.rest = x :: r) :
    Reads Cursor.Passes more (s.cursor.advance 1) s.flowEntry (s.extend more).flowEntry := by
  refine (stays_forgetKey more rfl).bind fun t _ ht => ?_
  rw [← ht] at hrest ⊢
  exact reads_one hrest .flowEntry

/-- A block starts alike in a longer text. -/
theorem indent_extend (column n : Nat) (token : Token) :
    (s.extend more).indent column n token = (s.indent column n token).extend more := by
  have hsame : ((s.extend more).inFlow || decide (column < (s.extend more).level)) =
      (s.inFlow || decide (column < s.level)) := rfl
  unfold indent
  rw [hsame]
  split
  · rfl
  · rfl

@[simp] theorem cursor_indent (column n : Nat) (token : Token) :
    (s.indent column n token).cursor = s.cursor := by
  unfold indent
  split
  · rfl
  · rfl

/-- An item of a block is read alike. -/
theorem reads_blockEntry (hrest : s.cursor.rest = x :: r) :
    Reads Cursor.Passes more (s.cursor.advance 1) s.blockEntry (s.extend more).blockEntry := by
  refine .ite (fun _ => .error _ _) fun _ => ?_
  rw [cursor_extend, Cursor.column_extend, indent_extend]
  refine (stays_forgetKey more (cursor_indent _ _ _)).bind fun t _ ht => ?_
  rw [← ht] at hrest ⊢
  exact reads_one hrest .blockEntry

/-- The mark of a key is read alike. -/
theorem reads_explicitKey (hrest : s.cursor.rest = x :: r) :
    Reads Cursor.Passes more (s.cursor.advance 1) s.explicitKey (s.extend more).explicitKey := by
  refine .ite (fun _ => .error _ _) fun _ => ?_
  rw [cursor_extend, Cursor.column_extend, indent_extend]
  refine (stays_forgetKey more (cursor_indent _ _ _)).bind fun t _ ht => ?_
  rw [← ht] at hrest ⊢
  exact reads_one hrest .key

/-- The mark of a value is read alike. -/
theorem reads_mappingValue (hrest : s.cursor.rest = x :: r) :
    Reads Cursor.Passes more (s.cursor.advance 1) s.mappingValue (s.extend more).mappingValue := by
  -- the tokens that open a mapping are put in front of both
  have hopen : ∀ (t : Scanner) (column n : Nat) (key : Option PendingKey) (allowed : Bool),
      t.cursor = s.cursor →
      Reads Cursor.Passes more (s.cursor.advance 1)
        (.ok ({ t.indent column n .blockMappingStart with
          key := key, keyAllowed := allowed }.take 1 .value))
        (.ok ({ (t.indent column n .blockMappingStart).extend more with
          key := key, keyAllowed := allowed }.take 1 .value)) := by
    intro t column n key allowed ht
    have hcursor := (cursor_indent (s := t) column n .blockMappingStart).trans ht
    rw [← hcursor] at hrest ⊢
    exact reads_one hrest .value
  have hkey : (s.extend more).key = s.key := rfl
  unfold mappingValue
  rw [hkey]
  cases s.key with
  | some key =>
      have hinsert : (s.extend more).emitAt key.before .key =
          (s.emitAt key.before .key).extend more := rfl
      dsimp only
      rw [hinsert, indent_extend]
      exact hopen _ _ _ none false rfl
  | none =>
      have hcount : (s.extend more).count = s.count := rfl
      refine .ite (fun _ => .error _ _) fun _ => ?_
      rw [hcount, cursor_extend, Cursor.column_extend, indent_extend]
      exact hopen _ _ _ _ _ rfl

/-- An anchor is read alike. -/
theorem reads_anchor (hmore : IsDocumentLine more) (hc : s.cursor.EndsLine)
    (hrest : s.cursor.rest = x :: r) (hx : isBreak x = false) (make : List Char → Token) :
    Reads Cursor.Passes more (s.cursor.advance 1) (s.anchor make)
      ((s.extend more).anchor make) := by
  refine (stays_noteKey more rfl).bind fun t _ ht => ?_
  rw [← ht] at hc hrest ⊢
  exact .bind (Property.reads_anchorName hmore hc hrest hx).reaches fun _ _ _ => .ok .refl

/-- A tag is read alike. -/
theorem reads_tag (hmore : IsDocumentLine more) (hc : s.cursor.EndsLine)
    (hrest : s.cursor.rest = x :: r) (hx : isBreak x = false) :
    Reads Cursor.Passes more (s.cursor.advance 1) s.tag (s.extend more).tag := by
  refine (stays_noteKey more rfl).bind fun t _ ht => ?_
  rw [← ht] at hc hrest ⊢
  exact .bind (Property.reads_tag hmore hc hrest hx).reaches fun _ _ _ => .ok .refl

/-- A block scalar is read alike, unless the longer text goes on with a document. -/
theorem reads_blockScalar (hmore : IsDocumentLine more) (hc : s.cursor.EndsLine)
    (hrest : s.cursor.rest = x :: r) (hx : isBreak x = false) (folds : Bool) :
    Reads Cursor.Passes more (s.cursor.advance 1) (s.blockScalar folds)
      ((s.extend more).blockScalar folds) := by
  refine (stays_forgetKey more rfl).bind fun t _ ht => ?_
  rw [← ht] at hc hrest ⊢
  exact .bind (Scalar.reads_block hmore hc hrest hx) fun _ _ _ => .ok .refl

/-- A quoted scalar is read alike. -/
theorem reads_quotedScalar (hmore : IsDocumentLine more) (hc : s.cursor.EndsLine)
    (hrest : s.cursor.rest = x :: r) (hx : isBreak x = false) (double : Bool) :
    Reads Cursor.Passes more (s.cursor.advance 1) (s.quotedScalar double)
      ((s.extend more).quotedScalar double) := by
  refine (stays_noteKey more rfl).bind fun t _ ht => ?_
  rw [← ht] at hc hrest ⊢
  exact .bind (Scalar.reads_quoted hmore hc hrest hx) fun _ _ _ => .ok .refl

/-- A directive is read alike. -/
theorem reads_directive (hmore : IsDocumentLine more) (hc : s.cursor.EndsLine)
    (hrest : s.cursor.rest = x :: r) (hx : isBreak x = false) :
    Reads Cursor.Passes more (s.cursor.advance 1) s.directive (s.extend more).directive := by
  unfold directive
  rw [closeAll_extend]
  refine (stays_forgetKey more (cursor_closeAll s)).bind fun t _ ht => ?_
  rw [← ht] at hc hrest ⊢
  exact .bind (Property.reads_directive hmore hc hrest hx) fun _ _ _ => .ok .refl

/-- The mark of a document is read alike. -/
theorem reads_documentMarker {mark : Char} (hmark : s.cursor.atMarker mark = true)
    (hline : isBreak mark = false) (token : Token) :
    Reads Cursor.Passes more (s.cursor.advance 1) (s.documentMarker token)
      ((s.extend more).documentMarker token) := by
  obtain ⟨-, r, hrest, -⟩ := Cursor.atMarker_iff.mp hmark
  have hbehind : (s.cursor.advance 1).rest = mark :: mark :: r :=
    Cursor.rest_advance (w := [mark]) hrest
  have halong : Cursor.Along (s.cursor.advance 1) ((s.cursor.advance 1).advance 2) :=
    Cursor.along_word (w := [mark, mark]) hbehind (by simpa using hline)
  unfold documentMarker
  rw [closeAll_extend]
  refine (stays_forgetKey more (cursor_closeAll s)).bind fun t _ ht => ?_
  rw [← ht] at hrest halong ⊢
  have htake : ({ t.extend more with keyAllowed := false } : Scanner).take 3 token =
      (({ t with keyAllowed := false } : Scanner).take 3 token).extend more :=
    take_extend (s := { t with keyAllowed := false }) (by
      show 3 ≤ t.cursor.rest.length
      rw [hrest, List.length_cons, List.length_cons, List.length_cons]
      omega) token
  rw [htake]
  rw [Cursor.advance_advance] at halong
  exact .ok halong.reaches

/-- A plain scalar starts alike in a longer text. -/
theorem startsPlain_extend {inFlow : Bool} (hr : r ≠ []) :
    startsPlain inFlow x (r ++ more) = startsPlain inFlow x r := by
  obtain ⟨y, r, rfl⟩ := List.exists_cons_of_ne_nil hr
  rfl

/-- The same reader is chosen in a longer text. -/
theorem tokenReader_extend (inFlow : Bool) (hr : r ≠ []) :
    tokenReader inFlow x (r ++ more) = tokenReader inFlow x r := by
  unfold tokenReader wordReader
  rw [Cursor.atWordEnd_extend hr, startsPlain_extend hr]

/-- A plain scalar starts with neither spacing, nor a flow indicator, nor a number sign. -/
theorem startsPlain_spec {inFlow : Bool} (h : startsPlain inFlow x r = true) :
    isSpacing x = false ∧ isFlowIndicator x = false ∧ x ≠ '#' := by
  unfold startsPlain at h
  split at h
  case h_1 => decide
  case h_2 => decide
  case h_3 => decide
  all_goals first
    | cases h
    | refine ⟨by simpa using h, ?_, by assumption⟩
  simp_all [isFlowIndicator]

/-- A plain scalar that may begin here has a first word. -/
theorem plainWord?_ne_nil {inFlow : Bool} (hstarts : startsPlain inFlow x r = true)
    (hcolon : (x == ':' && (inFlow || atWordEnd r)) = false) :
    Scalar.plainWord? inFlow (x :: r) ≠ some [] := by
  obtain ⟨hspacing, hflow, -⟩ := startsPlain_spec hstarts
  have hends : (x == ':' && atWordEnd r) = false := by
    cases hx : x == ':' with
    | false => rfl
    | true =>
        rw [hx, Bool.true_and, Bool.or_eq_false_iff] at hcolon
        exact hcolon.2
  rw [Scalar.plainWord?, hspacing, hends, hflow, if_neg Bool.false_ne_true]
  intro h
  split at h
  · cases h
  · rw [Bool.and_false, Bool.or_self, if_neg Bool.false_ne_true] at h
    obtain ⟨word, -, hword⟩ := Option.map_eq_some_iff.mp h
    cases hword

theorem inFlow_noteKey (h : s.noteKey = .ok t) : t.inFlow = s.inFlow := by
  unfold noteKey at h
  split at h
  · cases h
    rfl
  · obtain ⟨u, hforget, h⟩ := bind_eq_ok_iff.mp h
    cases h
    rw [forgetKey_eq hforget]
    rfl

/-- A plain scalar is read alike. -/
theorem reads_plainScalar (hmore : IsDocumentLine more) (hc : s.cursor.EndsLine)
    (hrest : s.cursor.rest = x :: r) (hmark : s.cursor.atDocumentMarker = false)
    (hstarts : startsPlain s.inFlow x r = true)
    (hcolon : (x == ':' && (s.inFlow || atWordEnd r)) = false) :
    Reads Cursor.Passes more (s.cursor.advance 1) s.plainScalar (s.extend more).plainScalar := by
  obtain ⟨hspacing, -, hhash⟩ := startsPlain_spec hstarts
  have hword := plainWord?_ne_nil hstarts hcolon
  refine (stays_noteKey more rfl).bind fun t hnote ht => ?_
  rw [← inFlow_noteKey hnote] at hword
  rw [← ht] at hc hrest hmark ⊢
  exact .bind (Scalar.reads_plain hmore hc hrest (isBreak_eq_false hspacing) hmark hhash hword)
    fun _ _ _ => .ok .refl

/-- Every word is read alike. -/
theorem reads_wordReader (hmore : IsDocumentLine more) (hc : s.cursor.EndsLine)
    (hrest : s.cursor.rest = x :: r) (hx : isBreak x = false)
    (hmark : s.cursor.atDocumentMarker = false) :
    Reads Cursor.Passes more (s.cursor.advance 1) (wordReader s.inFlow x r s)
      (wordReader s.inFlow x r (s.extend more)) := by
  unfold wordReader
  split_ifs with _ _ hcolon _ _ hstarts
  · exact reads_blockEntry hrest
  · exact reads_explicitKey hrest
  · exact reads_mappingValue hrest
  · exact reads_blockScalar hmore hc hrest hx false
  · exact reads_blockScalar hmore hc hrest hx true
  · exact reads_plainScalar hmore hc hrest hmark hstarts (Bool.eq_false_iff.mpr hcolon)
  · exact .error _ _

/-- Every token is read alike. -/
theorem reads_tokenReader (hmore : IsDocumentLine more) (hc : s.cursor.EndsLine)
    (hrest : s.cursor.rest = x :: r) (hx : isBreak x = false)
    (hmark : s.cursor.atDocumentMarker = false) :
    Reads Cursor.Passes more (s.cursor.advance 1) (tokenReader s.inFlow x r s)
      (tokenReader s.inFlow x r (s.extend more)) := by
  unfold tokenReader
  split
  · exact reads_openFlow hrest _
  · exact reads_openFlow hrest _
  · exact reads_closeFlow hrest _
  · exact reads_closeFlow hrest _
  · exact reads_flowEntry hrest
  · exact reads_anchor hmore hc hrest hx _
  · exact reads_anchor hmore hc hrest hx _
  · exact reads_tag hmore hc hrest hx
  · exact reads_quotedScalar hmore hc hrest hx false
  · exact reads_quotedScalar hmore hc hrest hx true
  · exact reads_wordReader hmore hc hrest hx hmark

/-- A token that begins before the end of a text is read alike from the longer text. -/
theorem reads_fetch (hmore : IsDocumentLine more) (hc : s.cursor.EndsLine)
    (hrest : s.cursor.rest = x :: r) (hx : isBreak x = false) :
    Reads Cursor.Passes more (s.cursor.advance 1) s.fetch (s.extend more).fetch := by
  have hne : s.cursor.rest ≠ [] := by
    rw [hrest]
    exact List.cons_ne_nil x r
  have hr : r ≠ [] := by
    have hbehind : (s.cursor.advance 1).rest = r := Cursor.rest_advance (w := [x]) hrest
    exact hbehind ▸ (hc.first hrest hx).2.2
  have hcursor := cursor_unindent s
  have hrest' : (s.extend more).cursor.rest = x :: (r ++ more) := by
    rw [cursor_extend, Cursor.rest_extend, hrest, List.cons_append]
  rw [fetch_cons hrest, fetch_cons hrest', cursor_extend, Cursor.column_extend,
    Cursor.atMarker_extend hc hne (by decide), Cursor.atMarker_extend hc hne (by decide),
    tokenReader_extend _ hr, unindent_extend]
  have hflow : (s.unindent.extend more).inFlow = s.unindent.inFlow := rfl
  rw [hflow]
  rw [← hcursor] at hc hrest ⊢
  refine .ite (fun _ => reads_directive hmore hc hrest hx) fun _ =>
    .ite (fun hmark => reads_documentMarker hmark rfl _) fun hdash =>
      .ite (fun hmark => reads_documentMarker hmark rfl _) fun hdot =>
        reads_tokenReader hmore hc hrest hx ?_
  exact Bool.or_eq_false_iff.mpr ⟨Bool.eq_false_iff.mpr hdash, Bool.eq_false_iff.mpr hdot⟩

end Token

/-! ## The space in front of a token -/

/-- The mark of the order of bytes is passed alike in a longer text. -/
theorem behindMark_extend (hmore : IsDocumentLine more) :
    (s.extend more).behindMark = s.behindMark.extend more ∧ s.cursor.Along s.behindMark := by
  unfold behindMark
  simp only [cursor_extend, Cursor.column_extend,
    Cursor.headIs_extend (x := byteOrderMark) hmore fun _ => by decide]
  split
  · rename_i hmark
    obtain ⟨halong, hsame⟩ := Cursor.headIs_passes (Bool.and_eq_true_iff.mp hmark).2 rfl
    exact ⟨hsame more, halong⟩
  · exact ⟨rfl, .refl⟩

theorem isBreak_eq_false_of_isSpace {x : Char} (h : s.isSpace x = true) : isBreak x = false := by
  unfold isSpace at h
  generalize (s.inFlow || !s.keyAllowed) = tabs at h
  exact isBreak_eq_false_of (p := fun x => x == ' ' || (tabs && x == '\t'))
    (by cases tabs <;> decide) h

/-- Space in front of a token is passed alike in a longer text. -/
theorem behindSpace_extend (hmore : IsDocumentLine more) (hc : s.cursor.EndsLine) :
    (s.extend more).behindSpace = s.behindSpace.extend more ∧ s.cursor.Along s.behindSpace := by
  obtain ⟨hmark, halong⟩ := behindMark_extend (s := s) hmore
  have hspan : s.behindMark.Along (s.behindMark.span s.isSpace).2 :=
    Cursor.along_span fun x => isBreak_eq_false_of_isSpace
  have hline := hc.reaches halong.reaches
  have hspace : (s.extend more).isSpace = s.isSpace := rfl
  unfold behindSpace
  rw [hmark, hspace, Cursor.span_extend hmore hline (by simp [isSpace]) (by simp [isSpace]),
    Cursor.skipComment_extend hmore (hline.reaches hspan.reaches)]
  exact ⟨rfl, halong.trans (hspan.trans (Cursor.along_skipComment _))⟩

/-- Nothing is passed where a line goes on with a word. -/
theorem toToken_stop (hspace : s.behindSpace = s.cursor)
    (hbreak : s.cursor.rest.head?.any isBreak = false) (n : Nat) : toToken n s = s := by
  cases n with
  | zero => rfl
  | succ n =>
      rw [toToken_succ, hspace, hbreak]
      rfl

/-- The line `---` is not passed, as the end of the text is not. -/
theorem toToken_end (hmore : IsDocumentLine more) (hc : s.cursor.EndsLine)
    (hrest : s.cursor.rest = []) (n n' : Nat) :
    toToken n' (s.extend more) = (toToken n s).extend more ∧
      s.cursor.Reaches (toToken n s).cursor ∧
      (toToken n s).cursor.rest.head?.any isBreak = false := by
  obtain ⟨hsame, halong⟩ := behindSpace_extend hmore hc
  have hend := halong.eq_of_nil hrest
  have hbreak : s.cursor.rest.head?.any isBreak = false := by
    rw [hrest]
    rfl
  have hend' : (s.extend more).behindSpace = (s.extend more).cursor := by
    rw [hsame, hend, cursor_extend]
  have hbreak' : (s.extend more).cursor.rest.head?.any isBreak = false := by
    rw [cursor_extend, Cursor.head?_any_extend hmore fun _ => rfl, hbreak]
  rw [toToken_stop hend hbreak, toToken_stop hend' hbreak']
  exact ⟨rfl, .refl, hbreak⟩

/-- The space in front of a token is read alike, however many steps more than there are characters
may be taken. -/
theorem toToken_extend (hmore : IsDocumentLine more) (hc : s.cursor.EndsLine) {n n' : Nat}
    (hn : s.cursor.rest.length ≤ n) (hn' : s.cursor.rest.length ≤ n') :
    toToken n' (s.extend more) = (toToken n s).extend more ∧
      s.cursor.Reaches (toToken n s).cursor ∧
      (toToken n s).cursor.rest.head?.any isBreak = false := by
  -- by induction on the lines that are skipped
  induction n generalizing n' s with
  | zero =>
      exact toToken_end hmore hc (List.eq_nil_of_length_eq_zero (Nat.le_zero.mp hn)) 0 n'
  | succ n ih =>
      by_cases hrest : s.cursor.rest = []
      · exact toToken_end hmore hc hrest (n + 1) n'
      · have hpos := List.length_pos_iff.mpr hrest
        obtain ⟨n', rfl⟩ := Nat.exists_eq_add_one.mpr (Nat.lt_of_lt_of_le hpos hn')
        obtain ⟨hsame, halong⟩ := behindSpace_extend hmore hc
        obtain ⟨hline, hleft⟩ := hc.along hrest halong
        rw [toToken_succ, toToken_succ, hsame, Cursor.head?_any_extend hmore fun _ => rfl,
          Cursor.newline_extend hline hleft]
        by_cases hbreak : s.behindSpace.rest.head?.any isBreak = true
        · have hpass := Cursor.passes_break hbreak
          have hless := Nat.lt_of_lt_of_le hpass.length_lt halong.reaches.length_le
          have hn : s.behindSpace.newline.rest.length ≤ n := by omega
          have hn' : s.behindSpace.newline.rest.length ≤ n' := by omega
          obtain ⟨hsame, hreaches, hstop⟩ := ih
            (s := { s with
              cursor := s.behindSpace.newline
              keyAllowed := s.keyAllowed || !s.inFlow })
            (hline.passes hpass) hn hn'
          rw [if_pos hbreak, if_pos hbreak]
          exact ⟨hsame, (halong.reaches.tail hpass).trans hreaches, hstop⟩
        · rw [if_neg hbreak, if_neg hbreak]
          exact ⟨rfl, halong.reaches, Bool.eq_false_iff.mpr hbreak⟩

end Scanner

end OperatorBundle.Yaml
