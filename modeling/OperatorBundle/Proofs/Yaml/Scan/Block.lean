import OperatorBundle.Proofs.Yaml.Scan.Node

/-!
# Collections and their members

Each member of a collection is read from its mark up to the mark of the next, so a whole document is
read by induction over its value.
-/

namespace OperatorBundle.Yaml

open Layout (IsInline IsLines Place spaces)

/-! ## How texts begin -/

namespace Layout

/-- A value behind a mark is apart from it. -/
theorem atWordEnd_node {place : Place} (hplace : place ≠ .root) (column : Nat) (v : Value)
    (s : List Char) : atWordEnd (node column place v ++ s) = true := by
  cases v with
  | sequence vs =>
      cases vs <;> cases place <;> first | exact absurd rfl hplace | rfl
  | mapping es =>
      cases es <;> cases place <;> first | exact absurd rfl hplace | rfl
  | _ => cases place <;> first | exact absurd rfl hplace | rfl

theorem atWordEnd_underTag (place : Place) (column : Nat) (v : Value) (s : List Char) :
    atWordEnd (underTag column place v ++ s) = true := by
  cases v with
  | sequence vs => cases vs <;> rfl
  | mapping es => cases es <;> rfl
  | _ => rfl

end Layout

namespace Scanner

variable {place : Place} {column k : Nat} {c : Cursor} {B B' : List Nat} {E E' : List Token}
  {allowed : Bool} {r : List Char} {v : Value} {vs : List Value} {e : Value × Value} {es : Entries}

/-! ## Collections at their places -/

theorem readsNode_sequence (h : ∀ column, Members .blockSequenceStart column
    (Layout.sequence column (v :: vs)) (Value.itemTokens (v :: vs))) :
    ReadsNode (.sequence (v :: vs)) := by
  intro place column c B allowed k r E hc hfits hrest hr hends
  cases hfits with
  | root hcolumn => exact (h 0).leads hc hcolumn (fun x hx => by cases hx) hrest hr hends
  | marked hplace hcolumn =>
      rcases hplace with rfl | rfl
      · exact (h (column + 2)).leads_beside hc hcolumn hrest hr hends
      · exact (h (column + 2)).leads_beside hc hcolumn hrest hr hends
  | afterKey hcolumn => exact (h column).leads_bare hc (Idle.none _) hrest hr hends

theorem readsUnderTag_sequence (h : ∀ column, Members .blockSequenceStart column
    (Layout.sequence column (v :: vs)) (Value.itemTokens (v :: vs))) :
    ReadsUnderTag (.sequence (v :: vs)) := by
  intro place column c B key k r E hc htag hidle hrest hr hends
  cases htag with
  | root hcolumn => exact (h 0).leads_below hc hidle (fun x hx => by cases hx) hrest hr hends
  | inside hplace hcolumn =>
      cases place with
      | root => exact absurd rfl hplace
      | item =>
          exact (h (column + 2)).leads_below hc hidle (fun x hx => by cases hx; omega) hrest hr hends
      | afterKey => exact (h column).leads_bare hc hidle hrest hr hends
      | entry => exact (h column).leads_bare hc hidle hrest hr hends

theorem readsNode_mapping (h : ∀ column, Members .blockMappingStart column
    (Layout.mapping column (e :: es)) (Value.entryTokens (e :: es))) :
    ReadsNode (.mapping (e :: es)) := by
  intro place column c B allowed k r E hc hfits hrest hr hends
  cases hfits with
  | root hcolumn => exact (h 0).leads hc hcolumn (fun x hx => by cases hx) hrest hr hends
  | marked hplace hcolumn =>
      rcases hplace with rfl | rfl
      · exact (h (column + 2)).leads_beside hc hcolumn hrest hr hends
      · exact (h (column + 2)).leads_beside hc hcolumn hrest hr hends
  | afterKey hcolumn =>
      exact (h (column + 2)).leads_below hc (Idle.none _) (fun x hx => by cases hx; omega) hrest hr
        hends

theorem readsUnderTag_mapping (h : ∀ column, Members .blockMappingStart column
    (Layout.mapping column (e :: es)) (Value.entryTokens (e :: es))) :
    ReadsUnderTag (.mapping (e :: es)) := by
  intro place column c B key k r E hc htag hidle hrest hr hends
  cases htag with
  | root hcolumn => exact (h 0).leads_below hc hidle (fun x hx => by cases hx) hrest hr hends
  | inside hplace hcolumn =>
      cases place with
      | root => exact absurd rfl hplace
      | item =>
          exact (h (column + 2)).leads_below hc hidle (fun x hx => by cases hx; omega) hrest hr hends
      | afterKey =>
          exact (h (column + 2)).leads_below hc hidle (fun x hx => by cases hx; omega) hrest hr hends
      | entry =>
          exact (h (column + 2)).leads_below hc hidle (fun x hx => by cases hx; omega) hrest hr hends

/-! ## Tags -/

theorem column_after_tag (c : Cursor) (name : String) :
    c.column < (c.after (Layout.tag name)).column := by
  rcases exists_tag_eq name with ⟨s, hs⟩
  rw [Cursor.column_after fun x hx => isBreak_of_isInk (Property.isInk_of_mem_tag hx), hs,
    List.length_cons]
  omega

/-- A tag and the value behind it. -/
theorem leads_tagged {name : String} (hname : Property.isReadableTag name = true)
    (h : ReadsUnderTag v) (hready : Ready c B)
    (hallowed : allowed = true → ∀ x, B.head? = some x → x ≠ c.column)
    (hbehind : BehindTag place column (c.after (Layout.tag name)) B)
    (hrest : c.rest = ((Layout.tag name ++ Layout.underTag column place v) ++ spaces k) ++ r)
    (hr : IsMark r) (hends : EndsAt k r B) :
    Leads (state c E B none allowed)
      (state (c.after ((Layout.tag name ++ Layout.underTag column place v) ++ spaces k))
        (((Value.tagged name v).tokens place false).reverse ++ E) B none true) := by
  have hplace : c.rest = Layout.tag name ++
      (Layout.underTag column place v ++ spaces k ++ r) := by
    rw [hrest]
    simp
  have hend : atWordEnd (Layout.underTag column place v ++ spaces k ++ r) = true := by
    rw [List.append_assoc]
    exact Layout.atWordEnd_underTag place column v _
  have htag := @leads_tag c E B none allowed _ _ hready (fun _ => rfl) (Live.none c) hname
    hplace hend
  have hidle := (noted_idle (E := E) hallowed (Idle.none c.line)).mono
    (Cursor.line_le_after c (Layout.tag name))
  have hunder := h (E := Property.tagToken name :: E) (hready.sound.after hplace) hbehind hidle
    (Cursor.rest_after hplace) hr hends
  have htokens : ((Value.tagged name v).tokens place false).reverse ++ E =
      (v.tokens place true).reverse ++ Property.tagToken name :: E := by
    rw [Value.tokens]
    simp
  rw [htokens, List.append_assoc, Cursor.after_append]
  exact htag.trans hunder

/-- A tag behind a space, and the value behind it. -/
theorem leads_spaced_tagged {name : String} {outer : List Nat}
    (hname : Property.isReadableTag name = true) (h : ReadsUnderTag v) (hc : c.IsSound)
    (hplace : place ≠ .root) (hcolumn : column < c.column)
    (hrest : c.rest = ((' ' :: Layout.tag name ++ Layout.underTag column place v) ++ spaces k) ++ r)
    (hr : IsMark r) (hends : EndsAt k r (column :: outer)) :
    Leads (state c E (column :: outer) none allowed)
      (state (c.after ((' ' :: Layout.tag name ++ Layout.underTag column place v) ++ spaces k))
        (((Value.tagged name v).tokens place false).reverse ++ E) (column :: outer) none true) := by
  have hspace : c.rest = [' '] ++ ((Layout.tag name ++ Layout.underTag column place v) ++ spaces k ++
      r) := hrest
  have hmark : IsMark ((Layout.tag name ++ Layout.underTag column place v) ++ spaces k ++ r) := by
    rcases exists_tag_eq name with ⟨s, hs⟩
    rw [hs]
    exact .inr ⟨'!', _, rfl, by decide⟩
  have hcolumn' := Cursor.column_after_char (x := ' ') rfl c
  have hready : Ready (c.after [' ']) (column :: outer) :=
    ⟨hc.after hspace, fun x hx => by cases hx; omega, Cursor.atDocumentMarker_of_column (by omega)⟩
  have hbehind : BehindTag place column ((c.after [' ']).after (Layout.tag name))
      (column :: outer) := by
    have hlt := column_after_tag (c.after [' ']) name
    exact .inside hplace (by omega)
  have hmove := @leads_space _ (column :: outer) E none allowed _ hc
    hspace hmark (fun p hp => by cases hp)
  exact hmove.trans (leads_tagged hname h hready (fun _ x hx => by cases hx; omega) hbehind
    (Cursor.rest_after hspace) hr hends)

/-- A value behind a tag is read where it stands. -/
theorem readsNode_tagged {name : String} (hname : Property.isReadableTag name = true)
    (h : ReadsUnderTag v) : ReadsNode (.tagged name v) := by
  intro place column c B allowed k r E hc hfits hrest hr hends
  rw [Layout.node] at hrest ⊢
  cases hfits with
  | root hcolumn =>
      rw [show Place.separator .root = [] from rfl, List.nil_append] at hrest ⊢
      have hmark : c.atDocumentMarker = false := by
        rcases exists_tag_eq name with ⟨s, hs⟩
        rw [hs] at hrest
        exact Cursor.atDocumentMarker_of_head hrest (by decide) (by decide)
      have hpositive := column_after_tag c name
      exact leads_tagged hname h ⟨hc, fun x hx => by (cases hx), hmark⟩ (fun _ x hx => by cases hx)
        (.root (by omega)) hrest hr hends
  | marked hplace hcolumn =>
      have hseparator : place.separator = [' '] := by
        rcases hplace with rfl | rfl <;> rfl
      have hroot : place ≠ .root := by
        rcases hplace with rfl | rfl <;> decide
      rw [hseparator] at hrest ⊢
      exact leads_spaced_tagged hname h hc hroot (by omega) hrest hr hends
  | afterKey hcolumn =>
      exact leads_spaced_tagged hname h hc (by decide) hcolumn hrest hr hends

/-! ## Members -/

theorem Opens.exists_eq {t : Token} (h : Opens t column B E B' E') :
    ∃ outer, B' = column :: outer := by
  cases h with
  | first => exact ⟨B, rfl⟩
  | further => exact ⟨_, rfl⟩

/-- Further members stand in the same column. -/
theorem Members.append {opening : Token} {text text' : List Char} {tokens tokens' : List Token}
    (h : Members opening column text tokens) (h' : Members opening column text' tokens') :
    Members opening column (text ++ (spaces column ++ text')) (tokens ++ tokens') where
  lines := (h'.lines.prepend fun x hx => Layout.isPrintable_of_mem_spaces hx).prepend
    h.lines.printable
  mark s := by
    rw [List.append_assoc]
    exact h.mark _
  reads := by
    intro c B E B' E' k r hc hcolumn hopens hrest hr hk
    have hplace : c.rest = (text ++ spaces column) ++ (text' ++ spaces k ++ r) := by
      rw [hrest]
      simp
    have hnext : IsMark (text' ++ spaces k ++ r) := by
      rw [List.append_assoc]
      exact h'.mark _
    have hfirst := h.reads hc hcolumn hopens hplace hnext (Nat.le_refl column)
    rcases hopens.exists_eq with ⟨outer, rfl⟩
    have htext : text ++ (spaces column ++ text') ++ spaces k =
        (text ++ spaces column) ++ (text' ++ spaces k) := by
      simp
    have htokens : (tokens ++ tokens').reverse ++ E' =
        tokens'.reverse ++ (tokens.reverse ++ E') := by
      simp
    rw [htext, Cursor.after_append, htokens]
    exact hfirst.trans (h'.reads (hc.after hplace) (column_after_lines h.lines column) .further
      (Cursor.rest_after hplace) hr hk)

/-- An item. -/
theorem members_item (hproper : v.IsProper) (h : ReadsNode v) (column : Nat) :
    Members .blockSequenceStart column ('-' :: Layout.node column .item v)
      (.blockEntry :: v.tokens .item false) where
  lines := (Layout.isWrittenInLines hproper column .item).1.prepend (s := ['-']) (by decide)
  mark s := .inr ⟨'-', _, rfl, by decide⟩
  reads := by
    intro c B E B' E' k r hc hcolumn hopens hrest hr hk
    have hdash : c.rest = ['-'] ++ (Layout.node column .item v ++ spaces k ++ r) := hrest
    have hend : atWordEnd (Layout.node column .item v ++ spaces k ++ r) = true := by
      rw [List.append_assoc]
      exact Layout.atWordEnd_node (by decide) column v _
    have hmark : IsMark c.rest := hdash ▸ .inr ⟨'-', _, rfl, by decide⟩
    have hready : Ready c B :=
      ⟨hc, hcolumn ▸ hopens.inside, Cursor.atDocumentMarker_of_wordEnd hdash hend⟩
    have hentry := leads_of_fetch hc hmark (Live.none c)
      (fetch_blockEntry hready (hcolumn.symm ▸ hopens) hdash hend) (by simp)
      (length_after_lt hdash (by simp))
    rcases hopens.exists_eq with ⟨outer, rfl⟩
    have hcolumn' : (c.after ['-']).column = column + 1 := by
      rw [Cursor.column_after_char rfl, hcolumn]
    have htokens : (.blockEntry :: v.tokens .item false).reverse ++ E' =
        (v.tokens .item false).reverse ++ .blockEntry :: E' := by
      simp
    rw [htokens]
    exact hentry.trans (h (hc.after hdash) (.marked (.inl rfl) hcolumn') (Cursor.rest_after hdash)
      hr hk)

/-- The items of a sequence. -/
theorem members_sequence (hne : vs ≠ []) (hproper : ∀ v ∈ vs, v.IsProper)
    (h : ∀ v ∈ vs, ReadsNode v) (column : Nat) :
    Members .blockSequenceStart column (Layout.sequence column vs) (Value.itemTokens vs) := by
  induction vs with
  | nil => exact absurd rfl hne
  | cons v vs ih =>
      have hitem := members_item (hproper v List.mem_cons_self) (h v List.mem_cons_self) column
      rw [Layout.sequence, Value.itemTokens]
      cases vs with
      | nil =>
          rw [Value.itemTokens, List.append_nil]
          simp only [List.isEmpty_nil, if_true, List.append_nil]
          exact hitem
      | cons w vs =>
          exact hitem.append (ih (List.cons_ne_nil w vs)
            (fun u hu => hproper u (List.mem_cons_of_mem v hu))
            (fun u hu => h u (List.mem_cons_of_mem v hu)))

/-! ## Entries -/

/-- What is pending behind the key that begins here. -/
def pendingAt (c : Cursor) (emitted : List Token) (blocks : List Nat) : PendingKey :=
  ⟨emitted.length, blocks.head? == some c.column, c.index, c.line, c.column⟩

/-- A key of less than 1024 characters on one line is not given up at its end. -/
theorem live_pendingAt {text : List Char} (hbreak : ∀ x ∈ text, isBreak x = false)
    (hlength : text.length < 1024) : Live (some (pendingAt c E B)) (c.after text) := by
  intro p hp
  cases hp
  rw [PendingKey.isStale, Bool.or_eq_false_iff, decide_eq_false_iff_not, decide_eq_false_iff_not,
    Cursor.line_after hbreak, Cursor.index_after]
  exact ⟨Nat.lt_irrefl _, by simp only [pendingAt]; omega⟩

/-- Past a tag and the space behind it, where the key that begins at the tag stays pending. -/
theorem leads_tag_space {name : String} {s : List Char} (hready : Ready c B)
    (hname : Property.isReadableTag name = true)
    (hrest : c.rest = (Layout.tag name ++ [' ']) ++ s) (hs : IsMark s)
    (hlive : Live (some (pendingAt c E B)) (c.after (Layout.tag name ++ [' ']))) :
    Ready (c.after (Layout.tag name ++ [' '])) B ∧
      Leads (state c E B none true) (state (c.after (Layout.tag name ++ [' ']))
        (Property.tagToken name :: E) B (some (pendingAt c E B)) false) := by
  have hsound := hready.sound.after hrest
  rw [List.append_assoc] at hrest
  have hspace := Cursor.rest_after hrest
  have hcolumn : (c.after (Layout.tag name ++ [' '])).column =
      (c.after (Layout.tag name)).column + 1 := by
    rw [Cursor.after_append, Cursor.column_after_char rfl]
  have hbehind := column_after_tag c name
  refine ⟨⟨hsound, fun x hx => ?_, Cursor.atDocumentMarker_of_column (by omega)⟩, ?_⟩
  · have hle := hready.inside x hx
    omega
  · have htag : Leads (state c E B none true) (state (c.after (Layout.tag name))
        (Property.tagToken name :: E) B (some (pendingAt c E B)) false) :=
      leads_tag hready (fun _ => rfl) (Live.none c) hname hrest rfl
    rw [Cursor.after_append] at hlive ⊢
    refine htag.trans (leads_space (hready.sound.after hrest) hspace hs fun p hp hstale => ?_)
    rw [hlive p hp] at hstale
    cases hstale

/-- A key in front of its colon. -/
theorem leads_inlineKey {k : Value} (hinline : IsInline k) (hname : ∀ name ∈ k.tagNames,
    Property.isReadableTag name = true) (hready : Ready c B)
    (hrest : c.rest = Layout.inlineKey column k ++ ':' :: r) (hr : atWordEnd r = true) :
    Leads (state c E B none true) (state (c.after (Layout.inlineKey column k))
      ((k.tokens .entry false).reverse ++ E) B (some (pendingAt c E B)) false) := by
  have hlive := live_pendingAt (c := c) (E := E) (B := B) (hinline.one_line column).1
    (hinline.one_line column).2
  have hbreak := (hinline.one_line column).1
  cases hinline with
  | leaf h hsize hn =>
      rw [Layout.inlineKey_leaf h] at hrest hbreak hlive ⊢
      exact (Layout.written_leaf h (column + 2) .entry false).leads_colon (Nat.succ_pos _) hbreak
        hready (fun _ => rfl) (Live.none c) hrest hr hlive
  | @tagged name v n h hsize hn =>
      have hwritten := Layout.written_leaf h (column + 2) .entry true
      have htext : Layout.inlineKey column (.tagged name v) =
          (Layout.tag name ++ [' ']) ++ Layout.leaf (column + 2) v := by
        rw [Layout.inlineKey, Layout.inlineKey_leaf h]
        simp
      rw [htext, List.append_assoc (Layout.tag name ++ [' '])] at hrest
      rw [htext, Cursor.after_append] at hlive
      -- the key that begins at the tag is still pending when its text begins
      have hlive' : Live (some (pendingAt c E B)) (c.after (Layout.tag name ++ [' '])) := by
        refine hlive.mono (Cursor.line_le_after _ _) ?_
        rw [Cursor.index_after _ (Layout.leaf (column + 2) v)]
        exact Nat.le_add_right _ _
      rcases leads_tag_space hready (hname name List.mem_cons_self) hrest (hwritten.isMark _) hlive'
        with ⟨hready', hfirst⟩
      have hlast : Leads (state (c.after (Layout.tag name ++ [' '])) (Property.tagToken name :: E) B
          (some (pendingAt c E B)) false)
          (state ((c.after (Layout.tag name ++ [' '])).after (Layout.leaf (column + 2) v))
            ((v.tokens .entry true).reverse ++ Property.tagToken name :: E) B
            (some (pendingAt c E B)) false) :=
        hwritten.leads_colon (Nat.succ_pos _)
          (fun x hx => hbreak x (htext ▸ List.mem_append_right _ hx)) hready'
          (fun hfalse => by cases hfalse) hlive' (Cursor.rest_after hrest) hr hlive
      have htokens : ((Value.tagged name v).tokens .entry false).reverse ++ E =
          (v.tokens .entry true).reverse ++ Property.tagToken name :: E := by
        rw [Value.tokens]
        simp
      rw [htokens, htext, Cursor.after_append]
      exact hfirst.trans hlast

theorem isMark_inlineKey {k : Value} (h : IsInline k) (column : Nat) (s : List Char) :
    IsMark (Layout.inlineKey column k ++ s) := by
  cases h with
  | leaf h =>
      rw [Layout.inlineKey_leaf h]
      exact (Layout.written_leaf h (column + 2) .entry false).isMark s
  | @tagged name =>
      rcases exists_tag_eq name with ⟨t, ht⟩
      rw [Layout.inlineKey, ht]
      exact .inr ⟨'!', _, rfl, by decide⟩

/-- A key in front of its colon is not taken for the mark of a document. -/
theorem atDocumentMarker_inlineKey {k : Value} (h : IsInline k)
    (hrest : c.rest = Layout.inlineKey column k ++ ':' :: r) (hr : atWordEnd r = true) :
    c.atDocumentMarker = false := by
  cases h with
  | leaf h =>
      rw [Layout.inlineKey_leaf h] at hrest
      exact (Layout.written_leaf h (column + 2) .entry false).atDocumentMarker
        (fun _ => .colon hr) hrest
  | @tagged name =>
      rcases exists_tag_eq name with ⟨t, ht⟩
      rw [Layout.inlineKey, ht] at hrest
      exact Cursor.atDocumentMarker_of_head hrest (by decide) (by decide)

/-- An entry with its key in front of the colon. -/
theorem members_inlineEntry {k : Value} (hkey : Layout.isInlineKey k = true)
    (hproper : k.IsProper) (hname : ∀ name ∈ k.tagNames, Property.isReadableTag name = true)
    (hproper' : v.IsProper) (h : ReadsNode v) (column : Nat) :
    Members .blockMappingStart column
      (Layout.inlineKey column k ++ ':' :: Layout.node column .afterKey v)
      (.key :: k.tokens .entry false ++ .value :: v.tokens .afterKey false) where
  lines := ((Layout.isWrittenInLines hproper' column .afterKey).1.prepend (s := [':'])
    (by decide)).prepend
      (Layout.isPrintable_of_mem_inlineKey (Layout.isInline_of_isInlineKey hkey hproper) column)
  mark s := by
    rw [List.append_assoc]
    exact isMark_inlineKey (Layout.isInline_of_isInlineKey hkey hproper) column _
  reads := by
    intro c B E B' E' j r hc hcolumn hopens hrest hr hj
    have hinline := Layout.isInline_of_isInlineKey hkey hproper
    have hplace : c.rest = Layout.inlineKey column k ++
        ':' :: (Layout.node column .afterKey v ++ spaces j ++ r) := by
      rw [hrest]
      simp
    have hend : atWordEnd (Layout.node column .afterKey v ++ spaces j ++ r) = true := by
      rw [List.append_assoc]
      exact Layout.atWordEnd_node (by decide) column v _
    have hready : Ready c B :=
      ⟨hc, hcolumn ▸ hopens.inside, atDocumentMarker_inlineKey hinline hplace hend⟩
    have hlive := live_pendingAt (c := c) (E := E) (B := B) (hinline.one_line column).1
      (hinline.one_line column).2
    have hcolumn' : (c.after (Layout.inlineKey column k)).column =
        column + (Layout.inlineKey column k).length := by
      rw [Cursor.column_after (hinline.one_line column).1, hcolumn]
    have hcolon : (c.after (Layout.inlineKey column k)).rest =
        [':'] ++ (Layout.node column .afterKey v ++ spaces j ++ r) := Cursor.rest_after hplace
    have hready' : Ready (c.after (Layout.inlineKey column k)) B :=
      ⟨hc.after hplace, fun x hx => by have hle := hready.inside x hx; omega,
        Cursor.atDocumentMarker_of_head hcolon (by decide) (by decide)⟩
    have hmark : IsMark (c.after (Layout.inlineKey column k)).rest :=
      hcolon ▸ .inr ⟨':', _, rfl, by decide⟩
    have hfirst := leads_inlineKey (E := E) hinline hname hready hplace hend
    -- at the colon the pending key is taken, and its token is put in front of the key
    have hvalue := leads_of_fetch (hc.after hplace) hmark hlive
      (fetch_keyValue (K := (k.tokens .entry false).reverse) hready' rfl (hcolumn.symm ▸ hopens)
        hcolon hend) (by simp) (length_after_lt hcolon (by simp))
    rcases hopens.exists_eq with ⟨outer, rfl⟩
    have hbehind : column < ((c.after (Layout.inlineKey column k)).after [':']).column := by
      rw [Cursor.column_after_char rfl, hcolumn']
      omega
    have htext : Layout.inlineKey column k ++ ':' :: Layout.node column .afterKey v ++ spaces j =
        Layout.inlineKey column k ++ ([':'] ++ (Layout.node column .afterKey v ++ spaces j)) := by
      simp
    have htokens : (.key :: k.tokens .entry false ++ .value :: v.tokens .afterKey false).reverse ++
        E' = (v.tokens .afterKey false).reverse ++
          (.value :: ((k.tokens .entry false).reverse ++ .key :: E')) := by
      simp
    rw [htext, Cursor.after_append, Cursor.after_append, htokens]
    exact hfirst.trans (hvalue.trans (h ((hc.after hplace).after hcolon) (.afterKey hbehind)
      (Cursor.rest_after hcolon) hr hj))

/-- A key behind a question mark. -/
theorem leads_markedKey {k : Value} {j : Nat} (h : ReadsNode k) (hc : c.IsSound)
    (hcolumn : c.column = column) (hopens : Opens .blockMappingStart column B E B' E')
    (hrest : c.rest = ['?'] ++ ((Layout.node column .entry k ++ spaces j) ++ r)) (hr : IsMark r)
    (hj : j ≤ column) :
    Leads (state c E B none true)
      (state ((c.after ['?']).after (Layout.node column .entry k ++ spaces j))
        ((k.tokens .entry false).reverse ++ .key :: E') B' none true) := by
  have hend : atWordEnd ((Layout.node column .entry k ++ spaces j) ++ r) = true := by
    rw [List.append_assoc]
    exact Layout.atWordEnd_node (by decide) column k _
  have hready : Ready c B :=
    ⟨hc, hcolumn ▸ hopens.inside, Cursor.atDocumentMarker_of_wordEnd hrest hend⟩
  have hmark : IsMark c.rest := hrest ▸ .inr ⟨'?', _, rfl, by decide⟩
  have hkey := leads_of_fetch hc hmark (Live.none c)
    (fetch_explicitKey hready (hcolumn.symm ▸ hopens) hrest hend) (by simp)
    (length_after_lt hrest (by simp))
  have hcolumn' : (c.after ['?']).column = column + 1 := by
    rw [Cursor.column_after_char rfl, hcolumn]
  rcases hopens.exists_eq with ⟨outer, rfl⟩
  exact hkey.trans (h (hc.after hrest) (.marked (.inr rfl) hcolumn') (Cursor.rest_after hrest) hr hj)

/-- A value behind a colon on a line of its own. -/
theorem leads_markedValue {outer : List Nat} {j : Nat} (h : ReadsNode v) (hc : c.IsSound)
    (hcolumn : c.column = column)
    (hrest : c.rest = [':'] ++ ((Layout.node column .entry v ++ spaces j) ++ r)) (hr : IsMark r)
    (hj : j ≤ column) :
    Leads (state c E (column :: outer) none true)
      (state ((c.after [':']).after (Layout.node column .entry v ++ spaces j))
        ((v.tokens .entry false).reverse ++ .value :: E) (column :: outer) none true) := by
  subst hcolumn
  have hend : atWordEnd ((Layout.node c.column .entry v ++ spaces j) ++ r) = true := by
    rw [List.append_assoc]
    exact Layout.atWordEnd_node (by decide) c.column v _
  have hready : Ready c (c.column :: outer) :=
    ⟨hc, fun x hx => by cases hx; exact Nat.le_refl _,
      Cursor.atDocumentMarker_of_head hrest (by decide) (by decide)⟩
  have hmark : IsMark c.rest := hrest ▸ .inr ⟨':', _, rfl, by decide⟩
  have hvalue := leads_of_fetch (E := E) hc hmark (Live.none c) (fetch_value hready hrest hend)
    (by simp) (length_after_lt hrest (by simp))
  have hcolumn' := Cursor.column_after_char (x := ':') rfl c
  exact hvalue.trans (h (hc.after hrest) (.marked (.inr rfl) hcolumn') (Cursor.rest_after hrest) hr
    hj)

/-- An entry with its key and its value each behind a mark. -/
theorem members_markedEntry {k : Value} (hproper : k.IsProper) (hk : ReadsNode k)
    (hproper' : v.IsProper) (h : ReadsNode v) (column : Nat) :
    Members .blockMappingStart column
      ('?' :: Layout.node column .entry k ++ spaces column ++ ':' :: Layout.node column .entry v)
      (.key :: k.tokens .entry false ++ .value :: v.tokens .entry false) where
  lines := by
    have hkey : IsLines ('?' :: Layout.node column .entry k) :=
      (Layout.isWrittenInLines hproper column .entry).1.prepend (s := ['?']) (by decide)
    have hvalue : IsLines (':' :: Layout.node column .entry v) :=
      (Layout.isWrittenInLines hproper' column .entry).1.prepend (s := [':']) (by decide)
    rw [List.append_assoc]
    exact (hvalue.prepend fun x hx => Layout.isPrintable_of_mem_spaces hx).prepend hkey.printable
  mark s := .inr ⟨'?', _, rfl, by decide⟩
  reads := by
    intro c B E B' E' j r hc hcolumn hopens hrest hr hj
    have hquestion : c.rest = ['?'] ++ ((Layout.node column .entry k ++ spaces column) ++
        (':' :: (Layout.node column .entry v ++ spaces j ++ r))) := by
      rw [hrest]
      simp
    have hkeyRest := Cursor.rest_after hquestion
    have hcolumn' : ((c.after ['?']).after (Layout.node column .entry k ++ spaces column)).column =
        column := column_after_lines (Layout.isWrittenInLines hproper column .entry).1 column
    have hkey := leads_markedKey hk hc hcolumn hopens hquestion (.inr ⟨':', _, rfl, by decide⟩)
      (Nat.le_refl column)
    have hsound := (hc.after hquestion).after hkeyRest
    have htext : '?' :: Layout.node column .entry k ++ spaces column ++
        ':' :: Layout.node column .entry v ++ spaces j =
        ['?'] ++ ((Layout.node column .entry k ++ spaces column) ++
          ([':'] ++ (Layout.node column .entry v ++ spaces j))) := by
      simp
    have htokens : (.key :: k.tokens .entry false ++ .value :: v.tokens .entry false).reverse ++
        E' = (v.tokens .entry false).reverse ++
          .value :: ((k.tokens .entry false).reverse ++ .key :: E') := by
      simp
    rcases hopens.exists_eq with ⟨outer, rfl⟩
    rw [htext, Cursor.after_append, Cursor.after_append, Cursor.after_append, htokens]
    exact hkey.trans (leads_markedValue h hsound hcolumn' (Cursor.rest_after hkeyRest) hr hj)

/-- An entry. -/
theorem members_entry {k : Value} (hproper : k.IsProper)
    (hname : ∀ name ∈ k.tagNames, Property.isReadableTag name = true) (hk : ReadsNode k)
    (hproper' : v.IsProper) (h : ReadsNode v) (column : Nat) :
    Members .blockMappingStart column (Layout.entry column k v) (.key :: k.tokens .entry false ++
      .value :: v.tokens (if Layout.isInlineKey k then .afterKey else .entry) false) := by
  unfold Layout.entry
  cases hkey : Layout.isInlineKey k with
  | true => exact members_inlineEntry hkey hproper hname hproper' h column
  | false => exact members_markedEntry hproper hk hproper' h column

/-- The entries of a mapping. -/
theorem members_mapping (hne : es ≠ []) (hproper : ∀ e ∈ es, e.1.IsProper ∧ e.2.IsProper)
    (hnames : ∀ e ∈ es, ∀ name ∈ e.1.tagNames, Property.isReadableTag name = true)
    (h : ∀ e ∈ es, ReadsNode e.1 ∧ ReadsNode e.2) (column : Nat) :
    Members .blockMappingStart column (Layout.mapping column es) (Value.entryTokens es) := by
  induction es with
  | nil => exact absurd rfl hne
  | cons e es ih =>
      rcases e with ⟨k, v⟩
      have hmem : (k, v) ∈ (k, v) :: es := List.mem_cons_self
      have hentry := members_entry (hproper _ hmem).1 (hnames _ hmem) (h _ hmem).1 (hproper _ hmem).2
        (h _ hmem).2 column
      have htokens : Value.entryTokens ((k, v) :: es) = (.key :: k.tokens .entry false ++
          .value :: v.tokens (if Layout.isInlineKey k then .afterKey else .entry) false) ++
            Value.entryTokens es := by
        rw [Value.entryTokens]
        simp
      rw [Layout.mapping, htokens]
      cases es with
      | nil =>
          rw [Value.entryTokens, List.append_nil]
          simp only [List.isEmpty_nil, if_true, List.append_nil]
          exact hentry
      | cons f es =>
          exact hentry.append (ih (List.cons_ne_nil f es)
            (fun g hg => hproper g (List.mem_cons_of_mem (k, v) hg))
            (fun g hg => hnames g (List.mem_cons_of_mem (k, v) hg))
            (fun g hg => h g (List.mem_cons_of_mem (k, v) hg)))

/-! ## Documents -/

/-- A proper value whose tags can be read is read wherever it stands. -/
theorem reads_value (h : v.IsProper)
    (hnames : ∀ name ∈ v.tagNames, Property.isReadableTag name = true) :
    ReadsNode v ∧ (v.isTagged = false → ReadsUnderTag v) := by
  have hleaf : ∀ {v : Value}, v.IsLeaf → ReadsNode v ∧ (v.isTagged = false → ReadsUnderTag v) :=
    fun hv => ⟨readsNode_leaf hv, fun _ => readsUnderTag_leaf hv⟩
  induction h with
  | null => exact hleaf .null
  | bool b => exact hleaf (.bool b)
  | number => exact hleaf (.number _)
  | string s => exact hleaf (.string s)
  | @sequence vs hproper ih =>
      cases vs with
      | nil => exact hleaf .noItems
      | cons v vs =>
          have hmembers := members_sequence (List.cons_ne_nil v vs) hproper fun w hw =>
            (ih w hw fun name hname => hnames name (Value.mem_tagNames_sequence.mpr ⟨w, hw, hname⟩)).1
          exact ⟨readsNode_sequence hmembers, fun _ => readsUnderTag_sequence hmembers⟩
  | @mapping es _ hkeys hvalues ihkeys ihvalues =>
      cases es with
      | nil => exact hleaf .noEntries
      | cons e es =>
          have hnames' : ∀ f ∈ e :: es, ∀ name, name ∈ f.1.tagNames ∨ name ∈ f.2.tagNames →
              Property.isReadableTag name = true := fun f hf name hname =>
            hnames name (Value.mem_tagNames_mapping.mpr ⟨f, hf, hname⟩)
          have hmembers := members_mapping (List.cons_ne_nil e es)
            (fun f hf => ⟨hkeys f hf, hvalues f hf⟩)
            (fun f hf name hname => hnames' f hf name (.inl hname))
            fun f hf => ⟨(ihkeys f hf fun name hname => hnames' f hf name (.inl hname)).1,
              (ihvalues f hf fun name hname => hnames' f hf name (.inr hname)).1⟩
          exact ⟨readsNode_mapping hmembers, fun _ => readsUnderTag_mapping hmembers⟩
  | @tagged name v _ hfree _ ih =>
      have hunder : ReadsUnderTag v :=
        (ih fun name' hname => hnames name' (List.mem_cons_of_mem name hname)).2 hfree
      exact ⟨readsNode_tagged (hnames name List.mem_cons_self) hunder,
        fun htagged => by cases htagged⟩

end Scanner

/-- A written document is split into the tokens of its value. -/
theorem TokenStream.ofText_node {v : Value} (h : v.IsProper)
    (hnames : ∀ name ∈ v.tagNames, Property.isReadableTag name = true) :
    TokenStream.ofText (Layout.node 0 .root v) = ⟨v.tokens .root false ++ [.streamEnd], none⟩ := by
  have hlines := (Layout.isWrittenInLines h 0 .root).1
  have hadmissible : (Layout.node 0 .root v).all isAdmissible = true :=
    List.all_eq_true.mpr fun x hx => Layout.isAdmissible_of_isPrintable (hlines.printable x hx)
  have hsound := Cursor.isSound_ofText (Layout.node 0 .root v)
  have hrest : (Cursor.ofText (Layout.node 0 .root v)).rest =
      (Layout.node 0 .root v ++ spaces 0) ++ [] := by
    rw [List.append_nil]
    exact (List.append_nil _).symm
  have hreads := (Scanner.reads_value h hnames).1 (E := []) hsound (.root rfl) hrest (.inl rfl)
    ⟨rfl, rfl⟩
  have hyields := hreads _ (Scanner.yields_end (hsound.after hrest) (Cursor.rest_after hrest))
  have hrun := hyields ((Cursor.ofText (Layout.node 0 .root v)).steps + 1)
    (by rw [hsound.steps_eq]; exact Nat.lt_succ_of_lt (Nat.lt_succ_self _))
  rw [TokenStream.ofText, if_pos hadmissible]
  rw [List.append_nil, List.reverse_cons, List.reverse_reverse] at hrun
  exact hrun

end OperatorBundle.Yaml
