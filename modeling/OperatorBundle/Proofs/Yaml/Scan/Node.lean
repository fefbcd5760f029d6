import OperatorBundle.Proofs.Yaml.Layout.Lines

/-!
# Values at their places

A value is read from behind the mark before it up to the next token behind its last line, whatever
that is.  Here for leaves, and for collections as soon as it is known how their members are read.
-/

namespace OperatorBundle.Yaml

open Layout (Place IsLines spaces)

namespace Scanner

/-! ## Places -/

/-- May the next token stand behind `k` spaces and before `r`, after a value in these collections? -/
def EndsAt (k : Nat) (r : List Char) : List Nat → Prop
  | [] => k = 0 ∧ r = []
  | column :: _ => k ≤ column

/-- Is this where a value begins at its place in a collection at `column`? -/
inductive Fits : Place → Nat → Cursor → List Nat → Bool → Prop where
  | root {c : Cursor} (h : c.column = 0) : Fits .root 0 c [] true
  | marked {place : Place} {column : Nat} {c : Cursor} {outer : List Nat}
      (hplace : place = .item ∨ place = .entry) (h : c.column = column + 1) :
      Fits place column c (column :: outer) true
  | afterKey {column : Nat} {c : Cursor} {outer : List Nat} (h : column < c.column) :
      Fits .afterKey column c (column :: outer) false

/-- Is this the end of the tag of such a value? -/
inductive BehindTag : Place → Nat → Cursor → List Nat → Prop where
  | root {c : Cursor} (h : 0 < c.column) : BehindTag .root 0 c []
  | inside {place : Place} {column : Nat} {c : Cursor} {outer : List Nat}
      (hplace : place ≠ .root) (h : column < c.column) : BehindTag place column c (column :: outer)

variable {place : Place} {column k : Nat} {c : Cursor} {B B' : List Nat} {E E' : List Token}
  {key : Option PendingKey} {allowed : Bool} {r text : List Char} {tokens : List Token} {v : Value}

/-- Is a value read wherever it stands? -/
def ReadsNode (v : Value) : Prop :=
  ∀ {place column c B allowed k r} {E : List Token}, c.IsSound → Fits place column c B allowed →
    c.rest = (Layout.node column place v ++ spaces k) ++ r → IsMark r → EndsAt k r B →
    Leads (state c E B none allowed) (state (c.after (Layout.node column place v ++ spaces k))
      ((v.tokens place false).reverse ++ E) B none true)

/-- Is a value read behind a tag, wherever that stands? -/
def ReadsUnderTag (v : Value) : Prop :=
  ∀ {place column c B key k r} {E : List Token}, c.IsSound → BehindTag place column c B →
    Idle key c.line → c.rest = (Layout.underTag column place v ++ spaces k) ++ r → IsMark r →
    EndsAt k r B →
    Leads (state c E B key false) (state (c.after (Layout.underTag column place v ++ spaces k))
      ((v.tokens place true).reverse ++ E) B none true)

theorem column_after_lines {c : Cursor} (h : IsLines text) (k : Nat) :
    (c.after (text ++ spaces k)).column = k :=
  Cursor.column_after_lines_spaces c h.ended k

/-! ## Moving on -/

/-- Past a space within a line. -/
theorem leads_space {s : List Char} (hc : c.IsSound) (hrest : c.rest = ' ' :: s) (hs : IsMark s)
    (hkey : ∀ p, key = some p → p.isStale (c.after [' ']) = true → p.required = false) :
    Leads (state c E B key allowed) (state (c.after [' ']) E B key allowed) :=
  leads_spaces (k := 1) hc hrest hs hkey

/-- A key that is pending and not required is given up here, or stays. -/
theorem leads_live (hidle : Idle key c.line) :
    ∃ key', (key' = key ∨ key' = none) ∧ Live key' c ∧
      Leads (state c E B key allowed) (state c E B key' allowed) := by
  cases key with
  | none => exact ⟨none, .inl rfl, Live.none c, Leads.refl _⟩
  | some p =>
      cases hstale : p.isStale c with
      | true =>
          exact ⟨none, .inr rfl, Live.none c,
            Leads.same (step_stale (hidle p rfl).1 hstale) (Nat.le_refl _)⟩
      | false =>
          refine ⟨some p, .inl rfl, fun q hq => ?_, Leads.refl _⟩
          cases hq
          exact hstale

theorem noted_idle (hallowed : allowed = true → ∀ x, B.head? = some x → x ≠ c.column)
    (hidle : Idle key c.line) : Idle (noted c E B key allowed) c.line := by
  cases allowed with
  | false => exact hidle
  | true =>
      intro p hp
      cases hp
      refine ⟨?_, Nat.le_refl _⟩
      cases hhead : B.head? with
      | none => rfl
      | some x => exact beq_eq_false_iff_ne.mpr fun heq => hallowed rfl x hhead (Option.some.inj heq)

/-! ## Leaves -/

theorem Written.head {indent : Nat} (h : Written indent text tokens) :
    (Layout.isPlain text = true ∧ text ≠ []) ∨
      ∃ x s, text = x :: s ∧ x ∈ ['\'', '"', '|', '[', '{'] := by
  cases h with
  | plain hplain hne => exact .inl ⟨hplain, hne⟩
  | single => exact .inr ⟨'\'', _, rfl, by decide⟩
  | double => exact .inr ⟨'"', _, rfl, by decide⟩
  | literal => exact .inr ⟨'|', _, rfl, by decide⟩
  | pair hpair => cases hpair <;> exact .inr ⟨_, _, rfl, by decide⟩

theorem Written.isMark {indent : Nat} (h : Written indent text tokens) (s : List Char) :
    IsMark (text ++ s) := by
  rcases h.head with ⟨hplain, hne⟩ | ⟨x, t, rfl, hx⟩
  · exact isMark_of_isPlain hplain hne s
  · have hall : ∀ x ∈ ['\'', '"', '|', '[', '{'],
        isSpacing x = false ∧ x ≠ '#' ∧ x ≠ byteOrderMark := by
      decide
    exact .inr ⟨x, t ++ s, rfl, hall x hx⟩

/-- A leaf is not taken for the mark of a document. -/
theorem Written.atDocumentMarker {indent : Nat} (h : Written indent text tokens) {s : List Char}
    (hs : Layout.isPlain text = true → EndsWord s) (hrest : c.rest = text ++ s) :
    c.atDocumentMarker = false := by
  rcases h.head with ⟨hplain, hne⟩ | ⟨x, t, rfl, hx⟩
  · exact Layout.atDocumentMarker_of_isPlain hplain hne (hs hplain) hrest
  · have hall : ∀ x ∈ ['\'', '"', '|', '[', '{'], x ≠ '-' ∧ x ≠ '.' := by
      decide
    exact Cursor.atDocumentMarker_of_head hrest (hall x hx).1 (hall x hx).2

theorem exists_line_eq (text : List Char) : ∃ t, Layout.line text = text ++ t := by
  unfold Layout.line
  split
  · exact ⟨[], (List.append_nil text).symm⟩
  · exact ⟨['\n'], rfl⟩

theorem Written.isMark_line {indent : Nat} (h : Written indent text tokens) (s : List Char) :
    IsMark (Layout.line text ++ s) := by
  rcases exists_line_eq text with ⟨t, ht⟩
  rw [ht, List.append_assoc]
  exact h.isMark (t ++ s)

theorem Written.atDocumentMarker_line {indent : Nat} (h : Written indent text tokens)
    {s : List Char} (hrest : c.rest = Layout.line text ++ s) : c.atDocumentMarker = false := by
  cases hlast : text.getLast?.any isBreak with
  | false =>
      rw [line_eq hlast, List.append_assoc] at hrest
      exact h.atDocumentMarker (fun _ => .spacing rfl) hrest
  | true =>
      rw [Layout.line, hlast, if_pos rfl] at hrest
      refine h.atDocumentMarker (fun hplain => ?_) hrest
      have hne : text ≠ [] := by
        rintro rfl
        cases hlast
      rw [(Layout.isRun_of_isPlain hplain hne).getLast?_any] at hlast
      cases hlast

theorem EndsAt.level (h : EndsAt k r B) :
    k < (state c E B key allowed).level ∨ k = 0 ∧ r = [] := by
  cases B with
  | nil => exact .inr h
  | cons x B => exact .inl (Nat.lt_succ_of_le h)

/-- A leaf behind a space. -/
theorem leads_spaced_leaf (h : v.IsLeaf) (tagged : Bool) (hc : c.IsSound)
    (hlevel : (state c E B key allowed).level - 1 = column)
    (hinside : ∀ x, B.head? = some x → x < c.column) (hkey : allowed = true → key = none)
    (hidle : Idle key c.line)
    (hrest : c.rest = ((' ' :: Layout.line (Layout.leaf (column + 2) v)) ++ spaces k) ++ r)
    (hr : IsMark r) (hends : EndsAt k r B) :
    Leads (state c E B key allowed)
      (state (c.after ((' ' :: Layout.line (Layout.leaf (column + 2) v)) ++ spaces k))
        ((v.tokens place tagged).reverse ++ E) B none true) := by
  have hwritten := Layout.written_leaf h (column + 2) place tagged
  have hspace : c.rest = [' '] ++ (Layout.line (Layout.leaf (column + 2) v) ++ spaces k ++ r) := hrest
  have hmark : IsMark (Layout.line (Layout.leaf (column + 2) v) ++ spaces k ++ r) := by
    rw [List.append_assoc]
    exact hwritten.isMark_line _
  have hmove := @leads_space c B E key allowed _ hc hspace hmark
    fun p hp _ => (hidle p hp).1
  have hcolumn := Cursor.column_after_char (x := ' ') rfl c
  have hline : (c.after [' ']).line = c.line := Cursor.line_after (by decide) c
  -- a key noted before a tag may have grown stale, and is given up or kept
  rcases @leads_live (c.after [' ']) B E key allowed
    (hline ▸ hidle) with ⟨key', hkey', hlive, hkeep⟩
  have hnone : allowed = true → key' = none := by
    intro hallowed
    rcases hkey' with rfl | rfl
    · exact hkey hallowed
    · rfl
  have hidle' : Idle key' (c.after [' ']).line := by
    rcases hkey' with rfl | rfl
    · exact hline ▸ hidle
    · exact Idle.none _
  have hready : Ready (c.after [' ']) B :=
    ⟨hc.after hspace, fun x hx => by have hlt := hinside x hx; omega,
      Cursor.atDocumentMarker_of_column (by omega)⟩
  have hnoted := @noted_idle _ B E _ allowed (fun _ x hx heq => by
    have hlt := hinside x hx
    omega) hidle'
  have hindent : column = (state (c.after [' ']) E B key' allowed).level - 1 := hlevel.symm
  rw [hindent] at hwritten hrest hspace ⊢
  exact hmove.trans (hkeep.trans (hwritten.leads_line hready hnone hlive hnoted
    (Cursor.rest_after hspace) hr rfl hends.level))

/-- A leaf is read at every place. -/
theorem readsNode_leaf (h : v.IsLeaf) : ReadsNode v := by
  intro place column c B allowed k r E hc hfits hrest hr hends
  rw [Layout.node_leaf h] at hrest ⊢
  cases hfits with
  | root hcolumn =>
      have hwritten := Layout.written_leaf h 2 .root false
      rw [show Place.separator .root = [] from rfl, List.nil_append] at hrest ⊢
      have hline := List.append_assoc _ _ _ ▸ hrest
      have hready : Ready c [] :=
        ⟨hc, fun x hx => by (cases hx), hwritten.atDocumentMarker_line hline⟩
      have hnoted := @noted_idle c [] E none true
        (fun _ x hx => by cases hx) (Idle.none c.line)
      exact hwritten.leads_line hready (fun _ => rfl) (Live.none c) hnoted hrest hr rfl
        (.inr hends)
  | marked hplace hcolumn =>
      have hseparator : place.separator = [' '] := by
        rcases hplace with rfl | rfl <;> rfl
      rw [hseparator] at hrest ⊢
      exact leads_spaced_leaf h false hc rfl (fun x hx => by cases hx; omega) (fun _ => rfl)
        (Idle.none _) hrest hr hends
  | afterKey hcolumn =>
      exact leads_spaced_leaf h false hc rfl (fun x hx => by cases hx; omega) (fun _ => rfl)
        (Idle.none _) hrest hr hends

/-- A leaf is read behind every tag. -/
theorem readsUnderTag_leaf (h : v.IsLeaf) : ReadsUnderTag v := by
  intro place column c B key k r E hc htag hidle hrest hr hends
  rw [Layout.underTag_leaf h] at hrest ⊢
  cases htag with
  | root hcolumn =>
      exact leads_spaced_leaf h true hc rfl (fun x hx => by cases hx) (fun hfalse => by cases hfalse)
        hidle hrest hr hends
  | inside hplace hcolumn =>
      exact leads_spaced_leaf h true hc rfl (fun x hx => by cases hx; omega)
        (fun hfalse => by cases hfalse) hidle hrest hr hends

/-! ## Collections -/

/-- Are these the members of a block collection at `column`, of which the first opens it, and are
they read? -/
structure Members (opening : Token) (column : Nat) (text : List Char) (tokens : List Token) :
    Prop where
  lines : IsLines text
  mark : ∀ s, IsMark (text ++ s)
  reads : ∀ {c B E B' E' k r}, c.IsSound → c.column = column → Opens opening column B E B' E' →
    c.rest = (text ++ spaces k) ++ r → IsMark r → k ≤ column →
    Leads (state c E B none true)
      (state (c.after (text ++ spaces k)) (tokens.reverse ++ E') B' none true)

variable {opening : Token}

/-- A collection that is opened by its first member is closed by what follows. -/
theorem Members.leads (h : Members opening column text tokens) (hc : c.IsSound)
    (hcolumn : c.column = column) (hinside : ∀ x, B.head? = some x → x < column)
    (hrest : c.rest = (text ++ spaces k) ++ r) (hr : IsMark r) (hends : EndsAt k r B) :
    Leads (state c E B none true) (state (c.after (text ++ spaces k))
      ((Value.enclosed opening tokens).reverse ++ E) B none true) := by
  -- what follows stands to the left of the members, or there is nothing more
  have hplace : k ≤ column ∧ (k < column ∨ r = []) := by
    cases B with
    | nil => exact ⟨hends.1 ▸ Nat.zero_le _, .inr hends.2⟩
    | cons x B =>
        have hlt := Nat.lt_of_le_of_lt hends (hinside x rfl)
        exact ⟨Nat.le_of_lt hlt, .inl hlt⟩
  have hreads := h.reads (E := E) hc hcolumn (.first hinside) hrest hr hplace.1
  have hafter : (c.after (text ++ spaces k)).rest = r := Cursor.rest_after hrest
  have hclose := @leads_close _ (tokens.reverse ++ opening :: E) B true
    (hc.after hrest) (hafter.symm ▸ hr) column
    (by rw [column_after_lines h.lines, hafter]; exact hplace.2)
  have htokens : (Value.enclosed opening tokens).reverse ++ E =
      .blockEnd :: (tokens.reverse ++ opening :: E) := by
    simp [Value.enclosed]
  rw [htokens]
  exact hreads.trans hclose

theorem after_spaces_column (n : Nat) : (c.after ('\n' :: spaces n)).column = n := by
  have hfeed : IsLines ['\n'] := ⟨by decide, rfl⟩
  exact column_after_lines hfeed n

/-- To the first member of a collection that begins on a line of its own. -/
theorem leads_to_line {n : Nat} (hc : c.IsSound) (hidle : Idle key c.line)
    (hrest : c.rest = ('\n' :: spaces n) ++ (text ++ spaces k ++ r))
    (hmark : ∀ s, IsMark (text ++ s)) :
    Leads (state c E B key allowed) (state (c.after ('\n' :: spaces n)) E B none true) := by
  refine leads_break hc hrest ?_ hidle
  rw [List.append_assoc]
  exact hmark _

/-- A collection on lines of its own. -/
theorem Members.leads_below {n : Nat} (h : Members opening n text tokens) (hc : c.IsSound)
    (hidle : Idle key c.line) (hinside : ∀ x, B.head? = some x → x < n)
    (hrest : c.rest = (('\n' :: spaces n ++ text) ++ spaces k) ++ r) (hr : IsMark r)
    (hends : EndsAt k r B) :
    Leads (state c E B key allowed) (state (c.after (('\n' :: spaces n ++ text) ++ spaces k))
      ((Value.enclosed opening tokens).reverse ++ E) B none true) := by
  have hline : c.rest = ('\n' :: spaces n) ++ (text ++ spaces k ++ r) := by
    rw [hrest]
    simp
  rw [List.append_assoc, Cursor.after_append]
  exact (leads_to_line hc hidle hline h.mark).trans (h.leads (hc.after hline)
    (after_spaces_column n) hinside (Cursor.rest_after hline) hr hends)

/-- A sequence on lines of its own whose dashes stand in the column of the collection around it. -/
theorem Members.leads_bare {outer : List Nat} (h : Members opening column text tokens)
    (hc : c.IsSound) (hidle : Idle key c.line)
    (hrest : c.rest = (('\n' :: spaces column ++ text) ++ spaces k) ++ r) (hr : IsMark r)
    (hk : k ≤ column) :
    Leads (state c E (column :: outer) key allowed)
      (state (c.after (('\n' :: spaces column ++ text) ++ spaces k)) (tokens.reverse ++ E)
        (column :: outer) none true) := by
  have hline : c.rest = ('\n' :: spaces column) ++ (text ++ spaces k ++ r) := by
    rw [hrest]
    simp
  rw [List.append_assoc, Cursor.after_append]
  exact (leads_to_line hc hidle hline h.mark).trans (h.reads (hc.after hline)
    (after_spaces_column column) .further (Cursor.rest_after hline) hr hk)

/-- A collection that begins behind a mark. -/
theorem Members.leads_beside (h : Members opening (column + 2) text tokens) (hc : c.IsSound)
    (hcolumn : c.column = column + 1) {outer : List Nat}
    (hrest : c.rest = ((' ' :: text) ++ spaces k) ++ r) (hr : IsMark r) (hk : k ≤ column) :
    Leads (state c E (column :: outer) none true) (state (c.after ((' ' :: text) ++ spaces k))
      ((Value.enclosed opening tokens).reverse ++ E) (column :: outer) none true) := by
  have hspace : c.rest = [' '] ++ (text ++ spaces k ++ r) := hrest
  have hmark : IsMark (text ++ spaces k ++ r) := by
    rw [List.append_assoc]
    exact h.mark _
  have hmove := @leads_space _ (column :: outer) E none true _ hc
    hspace hmark (fun p hp => by cases hp)
  have hcolumn' : (c.after [' ']).column = column + 2 := by
    rw [Cursor.column_after_char rfl, hcolumn]
  exact hmove.trans (h.leads (hc.after hspace) hcolumn' (fun x hx => by cases hx; omega)
    (Cursor.rest_after hspace) hr hk)

end Scanner

end OperatorBundle.Yaml
