import OperatorBundle.Proofs.Yaml.Cursor
import OperatorBundle.Yaml.Token.Scan

/-!
# Runs of the scanner

`Leads s t` says that what is yielded from `t` is yielded from `s`: the scanner gets from `s` to
`t`, or takes from both the same next step.  Of what stands between two tokens, the start of a line
before the next token is the place to compare states at: there no key is pending, one may begin, and
the collections that this token closes by its column can be taken as closed.
-/

namespace OperatorBundle.Yaml

open Layout (spaces)

namespace Scanner

/-! ## What a scanner yields -/

/-- Does the scanner split all that is left into these tokens, however many steps it may take? -/
def Yields (s : Scanner) (tokens : List Token) : Prop :=
  ∀ n, s.cursor.rest.length < n → run n s = ⟨tokens, none⟩

/-- Is what is yielded from `t` yielded from `s`? -/
def Leads (s t : Scanner) : Prop := ∀ tokens, t.Yields tokens → s.Yields tokens

theorem Leads.refl (s : Scanner) : Leads s s := fun _ h => h

/-- One scanner leads to what the next one leads to. -/
theorem Leads.trans {s t u : Scanner} (hst : Leads s t) (htu : Leads t u) : Leads s u :=
  fun tokens h => hst tokens (htu tokens h)

/-- A step that takes some text. -/
theorem Leads.step {s t : Scanner} (hstep : s.step = .ok t)
    (hend : t.emitted.head? ≠ some .streamEnd)
    (hrest : t.cursor.rest.length < s.cursor.rest.length) : Leads s t := by
  intro tokens h n hn
  cases n with
  | zero => exact absurd hn (Nat.not_lt_zero _)
  | succ n =>
      have hhead : (t.emitted.head? == some .streamEnd) = false := beq_eq_false_iff_ne.mpr hend
      rw [run, hstep]
      simp only [hhead, Bool.false_eq_true, if_false]
      exact h n (by omega)

/-- Two states from which the same step is taken. -/
theorem Leads.same {s t : Scanner} (hstep : s.step = t.step)
    (hrest : t.cursor.rest.length ≤ s.cursor.rest.length) : Leads s t := by
  intro tokens h n hn
  have hrun := h n (Nat.lt_of_le_of_lt hrest hn)
  cases n with
  | zero => exact absurd hn (Nat.not_lt_zero _)
  | succ n =>
      rw [run] at hrun ⊢
      rw [hstep]
      cases ht : t.step with
      | ok u =>
          rw [ht] at hrun
          exact hrun
      | error defect =>
          rw [ht] at hrun
          cases hrun

/-- A scanner that has come to the end yields what it has emitted. -/
theorem yields_of_step {s t : Scanner} (hstep : s.step = .ok t)
    (hend : t.emitted.head? = some .streamEnd) : s.Yields t.emitted.reverse := by
  intro n hn
  cases n with
  | zero => exact absurd hn (Nat.not_lt_zero _)
  | succ n =>
      rw [run, hstep]
      simp only [hend, beq_self_eq_true, if_true]

/-! ## States -/

/-- A scanner outside of flow collections. -/
def state (c : Cursor) (emitted : List Token) (blocks : List Nat) (key : Option PendingKey)
    (allowed : Bool) : Scanner :=
  { cursor := c, emitted, count := emitted.length, blocks, key, keyAllowed := allowed }

/-- Does a key that is pending here come to nothing before a place on line `line`? -/
def Fades (key : Option PendingKey) (line : Nat) : Prop :=
  ∀ p, key = some p → p.required = false ∧ p.line < line

/-- No key fades on any line. -/
theorem Fades.none (line : Nat) : Fades none line := fun _ h => by cases h

/-- Is a key that is pending here not required, and on no later line? -/
def Idle (key : Option PendingKey) (line : Nat) : Prop :=
  ∀ p, key = some p → p.required = false ∧ p.line ≤ line

theorem Idle.none (line : Nat) : Idle none line := fun _ h => by cases h

/-- An idle key fades on the next line. -/
theorem Idle.fades {key : Option PendingKey} {line line' : Nat} (h : Idle key line)
    (hline : line < line') : Fades key line' :=
  fun p hp => ⟨(h p hp).1, Nat.lt_of_le_of_lt (h p hp).2 hline⟩

/-- A key that is idle stays so on later lines. -/
theorem Idle.mono {key : Option PendingKey} {line line' : Nat} (h : Idle key line)
    (hline : line ≤ line') : Idle key line' :=
  fun p hp => ⟨(h p hp).1, Nat.le_trans (h p hp).2 hline⟩

variable {c : Cursor} {E : List Token} {B : List Nat} {key : Option PendingKey} {allowed : Bool}

/-- A stale key that is not required is given up. -/
theorem dropStaleKeys_stale {p : PendingKey} (hrequired : p.required = false)
    (hstale : p.isStale c = true) :
    (state c E B (some p) allowed).dropStaleKeys = .ok (state c E B none allowed) := by
  unfold dropStaleKeys state
  simp only [Option.any_some, hstale, if_true, dropKey, hrequired]
  rfl

/-- Another key stays. -/
theorem dropStaleKeys_fresh {p : PendingKey} (hfresh : p.isStale c = false) :
    (state c E B (some p) allowed).dropStaleKeys = .ok (state c E B (some p) allowed) := by
  unfold dropStaleKeys state
  simp only [Option.any_some, hfresh]
  rfl

/-- An idle key stays idle or is dropped. -/
theorem dropStaleKeys_idle (h : Idle key c.line) :
    ∃ key', (state c E B key allowed).dropStaleKeys = .ok (state c E B key' allowed) ∧
      Idle key' c.line ∧ (Fades key c.line → key' = none) ∧
      ∀ line, Fades key line → Fades key' line := by
  cases key with
  | none => exact ⟨none, rfl, Idle.none _, fun _ => rfl, fun _ h => h⟩
  | some p =>
      cases hstale : p.isStale c with
      | true =>
          exact ⟨none, dropStaleKeys_stale (h p rfl).1 hstale, Idle.none _, fun _ => rfl,
            fun line _ => Fades.none line⟩
      | false =>
          refine ⟨some p, dropStaleKeys_fresh hstale, h, fun hfades => ?_, fun _ h => h⟩
          rw [PendingKey.isStale, decide_eq_true (hfades p rfl).2, Bool.true_or] at hstale
          cases hstale

/-- A step that first moves to the next token. -/
theorem step_idle {c' : Cursor} {allowed' : Bool} (h : Idle key c.line) (hline : c.line ≤ c'.line)
    (hmove : ∀ key', toToken c.steps (state c E B key' allowed) = state c' E B key' allowed') :
    ∃ key', (state c E B key allowed).step = (state c' E B key' allowed').fetch ∧
      Idle key' c'.line ∧ (Fades key c'.line → key' = none) := by
  -- stale keys are dropped before the move and after it
  rcases @dropStaleKeys_idle c E B key allowed h with
    ⟨key₁, hdrop₁, hidle₁, _, hfades₁⟩
  rcases @dropStaleKeys_idle c' E B key₁ allowed'
    (hidle₁.mono hline) with ⟨key₂, hdrop₂, hidle₂, hnone₂, _⟩
  refine ⟨key₂, ?_, hidle₂, fun hfades => hnone₂ (hfades₁ _ hfades)⟩
  have hsteps : (state c E B key₁ allowed).cursor.steps = c.steps := rfl
  rw [step, hdrop₁, ok_bind, hsteps, hmove, hdrop₂, ok_bind]

/-- A step with no key pending. -/
theorem step_none {c' : Cursor} {allowed' : Bool}
    (hmove : toToken c.steps (state c E B none allowed) = state c' E B none allowed') :
    (state c E B none allowed).step = (state c' E B none allowed').fetch := by
  have hdrop : ∀ {c : Cursor} {allowed : Bool},
      (state c E B none allowed).dropStaleKeys = .ok (state c E B none allowed) := rfl
  have hsteps : (state c E B none allowed).cursor.steps = c.steps := rfl
  rw [step, hdrop, ok_bind, hsteps, hmove, hdrop, ok_bind]

/-- A step with a key pending that is stale already. -/
theorem step_stale {p : PendingKey} (hrequired : p.required = false) (hstale : p.isStale c = true) :
    (state c E B (some p) allowed).step = (state c E B none allowed).step := by
  rw [step, dropStaleKeys_stale hrequired hstale]
  rfl

/-- A step with a key pending that is fresh enough. -/
theorem step_fresh {c' : Cursor} {allowed' : Bool} {p : PendingKey} (h : p.isStale c = false)
    (h' : p.isStale c' = false)
    (hmove : toToken c.steps (state c E B (some p) allowed) = state c' E B (some p) allowed') :
    (state c E B (some p) allowed).step = (state c' E B (some p) allowed').fetch := by
  have hsteps : (state c E B (some p) allowed).cursor.steps = c.steps := rfl
  rw [step, dropStaleKeys_fresh h, ok_bind, hsteps, hmove, dropStaleKeys_fresh h', ok_bind]

/-! ## Moving to the next token -/

/-- Is this the end of the text, or the beginning of a token? -/
def IsMark (r : List Char) : Prop :=
  r = [] ∨ ∃ x s, r = x :: s ∧ isSpacing x = false ∧ x ≠ '#' ∧ x ≠ byteOrderMark

/-- In front of a mark there is no spacing. -/
theorem IsMark.stops {r : List Char} (h : IsMark r) : Stops r := by
  rcases h with rfl | ⟨x, s, rfl, hx, _⟩
  · exact Stops.nil
  · exact Stops.cons hx

/-- Behind spaces the next character is not seen yet. -/
theorem headIs_spaces {k : Nat} {r : List Char} {x : Char} (hrest : c.rest = spaces k ++ r)
    (hx : x ≠ ' ') (hr : r.head? ≠ some x) : c.headIs x = false := by
  cases k with
  | zero =>
      rw [Cursor.headIs, hrest]
      exact beq_eq_false_iff_ne.mpr hr
  | succ k =>
      rw [spaces_succ] at hrest
      exact Cursor.headIs_eq_false hrest hx.symm

/-- A mark is none of the characters that are passed on the way to a token. -/
theorem IsMark.head? {r : List Char} (h : IsMark r) :
    r.head? ≠ some byteOrderMark ∧ r.head? ≠ some '#' ∧ r.head? ≠ some ' ' ∧
      r.head? ≠ some '\t' := by
  rcases h with rfl | ⟨x, s, rfl, hx, hhash, hmark⟩
  · decide
  · refine ⟨fun heq => hmark (Option.some.inj heq), fun heq => hhash (Option.some.inj heq), ?_, ?_⟩
    · intro heq
      rw [Option.some.inj heq] at hx
      cases hx
    · intro heq
      rw [Option.some.inj heq] at hx
      cases hx

/-- Spaces before a token. -/
theorem toToken_spaces {k : Nat} {r : List Char} (hrest : c.rest = spaces k ++ r) (hr : IsMark r)
    (n : Nat) :
    toToken (n + 1) (state c E B key allowed) = state (c.after (spaces k)) E B key allowed := by
  rcases hr.head? with ⟨hmark, hhash, hspace, htab⟩
  have hafter : (c.after (spaces k)).rest = r := Cursor.rest_after hrest
  have hbom : c.headIs byteOrderMark = false := headIs_spaces hrest (by decide) hmark
  have hcomment : (c.after (spaces k)).headIs '#' = false := by
    rw [Cursor.headIs, hafter]
    exact beq_eq_false_iff_ne.mpr hhash
  have hbreak : r.head?.any isBreak = false := by
    rcases hr with rfl | ⟨x, s, rfl, hx, _⟩
    · rfl
    · exact isBreak_eq_false hx
  -- what is passed ends at the token, whether or not tabs may be passed here
  have hspan : c.span (fun x => x == ' ' || ((state c E B key allowed).inFlow || !allowed) &&
      x == '\t') = (spaces k, c.after (spaces k)) := by
    refine Cursor.span_eq_after hrest (fun x hx => ?_) (fun x hx => not_break_of_mem_spaces hx) ?_
    · rw [eq_space_of_mem hx]
      rfl
    · cases r with
      | nil => rfl
      | cons x s =>
          have hx : (x == ' ') = false := beq_eq_false_iff_ne.mpr fun heq => hspace (by rw [heq]; rfl)
          have hx' : (x == '\t') = false :=
            beq_eq_false_iff_ne.mpr fun heq => htab (by rw [heq]; rfl)
          rw [List.head?_cons, Option.any_some, hx, hx', Bool.and_false, Bool.or_false]
  have hcursor : (state c E B key allowed).cursor = c := rfl
  have hallowed : (state c E B key allowed).keyAllowed = allowed := rfl
  rw [toToken, hcursor, hallowed, hbom, Bool.and_false]
  simp only [Bool.false_eq_true, if_false, hspan, Cursor.skipComment, hcomment, hafter, hbreak]
  rfl

/-- As many steps as there are characters lead past the spaces. -/
theorem toToken_steps {k : Nat} {r : List Char} (hc : c.IsSound) (hrest : c.rest = spaces k ++ r)
    (hr : IsMark r) :
    toToken c.steps (state c E B key allowed) = state (c.after (spaces k)) E B key allowed := by
  rw [hc.steps_eq]
  exact toToken_spaces hrest hr _

/-- Before a token there is nothing to pass. -/
theorem toToken_here (hc : c.IsSound) (hr : IsMark c.rest) :
    toToken c.steps (state c E B key allowed) = state c E B key allowed :=
  toToken_steps (k := 0) hc rfl hr

/-- A line break and the spaces at the beginning of a line before a token. -/
theorem toToken_break {k : Nat} {r : List Char} (hrest : c.rest = '\n' :: (spaces k ++ r))
    (hr : IsMark r) (n : Nat) :
    toToken (n + 2) (state c E B key allowed) =
      state (c.after ('\n' :: spaces k)) E B key true := by
  have hrest' : (c.after ['\n']).rest = spaces k ++ r := Cursor.rest_after (t := ['\n']) hrest
  have hbom : c.headIs byteOrderMark = false := Cursor.headIs_eq_false hrest (by decide)
  have hcomment : c.headIs '#' = false := Cursor.headIs_eq_false hrest (by decide)
  have hspan : c.span (fun x => x == ' ' || ((state c E B key allowed).inFlow || !allowed) &&
      x == '\t') = ([], c) := by
    refine Cursor.span_eq_after (t := []) hrest (by simp) (by simp) ?_
    rw [List.head?_cons, Option.any_some]
    cases allowed <;> rfl
  have hnext := @toToken_spaces _ E B key true _ _ hrest' hr n
  have hcursor : (state c E B key allowed).cursor = c := rfl
  have hallowed : (state c E B key allowed).keyAllowed = allowed := rfl
  rw [toToken, hcursor, hallowed, hbom, Bool.and_false]
  simp only [Bool.false_eq_true, if_false, hspan, Cursor.skipComment, hcomment]
  rw [hrest, if_pos (by rfl), Cursor.newline_eq hrest (by rfl)]
  have hstate : ({ state c E B key allowed with
      cursor := c.after ['\n']
      keyAllowed := allowed || !(state c E B key allowed).inFlow } : Scanner) =
        state (c.after ['\n']) E B key true := by
    cases allowed <;> rfl
  exact (congrArg (toToken (n + 1)) hstate).trans hnext

/-! ## Closing collections -/

theorem emit_state (t : Token) :
    (state c E B key allowed).emit t = state c (t :: E) B key allowed := rfl

/-- Some blocks are closed, from the innermost. -/
theorem closeBlocks_eq (closes : Nat → Bool) (B B' : List Nat) (E : List Token) :
    ∃ n ≤ B.length, closeBlocks closes B (state c E B' key allowed) =
        state c (List.replicate n .blockEnd ++ E) (B.drop n) key allowed ∧
      ((∀ x ∈ B, closes x = true) → n = B.length) := by
  -- the innermost block is the first to be closed, and the first that stays keeps all others
  induction B generalizing E with
  | nil => exact ⟨0, Nat.le_refl 0, rfl, fun _ => rfl⟩
  | cons x B ih =>
      cases hx : closes x with
      | true =>
          rcases ih (.blockEnd :: E) with ⟨n, hn, hclose, hall⟩
          refine ⟨n + 1, Nat.succ_le_succ hn, ?_, fun h => ?_⟩
          · rw [closeBlocks, hx, if_pos rfl, emit_state, hclose, List.drop_succ_cons,
              List.replicate_succ']
            simp
          · rw [hall fun y hy => h y (List.mem_cons_of_mem x hy)]
            rfl
      | false =>
          refine ⟨0, Nat.zero_le _, ?_, fun h => ?_⟩
          · rw [closeBlocks, hx]
            rfl
          · rw [h x List.mem_cons_self] at hx
            cases hx

/-- The blocks that end here are those that are indented further. -/
theorem unindent_state :
    (state c E B key allowed).unindent =
      closeBlocks (c.column < ·) B (state c E B key allowed) := rfl

/-- Nothing is closed by a token in the innermost collection. -/
theorem unindent_of_le (h : ∀ x, B.head? = some x → x ≤ c.column) :
    (state c E B key allowed).unindent = state c E B key allowed := by
  rw [unindent_state]
  cases B with
  | nil => rfl
  | cons x B =>
      rw [closeBlocks, if_neg (by
        rw [decide_eq_true_eq]
        exact Nat.not_lt_of_le (h x rfl))]
      rfl

/-- Which blocks are closed does not depend on those that were open. -/
theorem closeBlocks_blocks (closes : Nat → Bool) (B B₁ B₂ : List Nat) (E : List Token) :
    closeBlocks closes B (state c E B₁ key allowed) =
      closeBlocks closes B (state c E B₂ key allowed) := by
  induction B generalizing E with
  | nil => rfl
  | cons x B ih =>
      rw [closeBlocks, closeBlocks]
      split
      · exact ih (.blockEnd :: E)
      · rfl

/-- At the end of the text all collections are closed. -/
theorem fetch_end (hrest : c.rest = []) :
    (state c E B none allowed).fetch =
      .ok (state c (.streamEnd :: (List.replicate B.length .blockEnd ++ E)) [] none false) := by
  rcases @closeBlocks_eq c none allowed (c.column < ·) B B E with
    ⟨m, hm, hunindent, _⟩
  rcases @closeBlocks_eq c none allowed (fun _ => true) (B.drop m)
    (B.drop m) (List.replicate m .blockEnd ++ E) with ⟨n, hn, hclose, hall⟩
  -- what is not closed by the column is closed by the end: together all of them
  have hn' : n = B.length - m := by
    rw [hall fun _ _ => rfl, List.length_drop]
  have hblocks : (B.drop m).drop n = [] := by
    rw [List.drop_drop]
    exact List.drop_eq_nil_of_le (by omega)
  have hcount : List.replicate n Token.blockEnd ++ (List.replicate m .blockEnd ++ E) =
      List.replicate B.length .blockEnd ++ E := by
    rw [← List.append_assoc, List.replicate_append_replicate]
    congr 2
    omega
  have hcloseAll : (state c (List.replicate m .blockEnd ++ E) (B.drop m) none allowed).closeAll =
      state c (List.replicate B.length .blockEnd ++ E) [] none allowed := by
    rw [← hcount, ← hblocks]
    exact hclose
  have hfetch : (state c E B none allowed).fetch =
      (state c (List.replicate m .blockEnd ++ E) (B.drop m) none allowed).streamEnd := by
    rw [fetch, unindent_state, hunindent]
    simp only [show (state c (List.replicate m .blockEnd ++ E) (B.drop m) none allowed).cursor = c
      from rfl, hrest]
  rw [hfetch, streamEnd, hcloseAll]
  rfl

/-- The next token closes a collection that begins to its right. -/
theorem fetch_close {x : Nat} (h : c.column < x ∨ c.rest = []) :
    (state c E (x :: B) none allowed).fetch =
      (state c (.blockEnd :: E) B none allowed).fetch := by
  rcases h with hcolumn | hrest
  · have hunindent : (state c E (x :: B) none allowed).unindent =
        (state c (.blockEnd :: E) B none allowed).unindent := by
      rw [unindent_state, unindent_state, closeBlocks, if_pos (by rw [decide_eq_true_eq]; exact hcolumn)]
      exact closeBlocks_blocks _ B (x :: B) B (.blockEnd :: E)
    rw [fetch, fetch, hunindent]
  · rw [fetch_end hrest, fetch_end hrest, List.length_cons, List.replicate_succ']
    simp

/-! ## Before the next token -/

variable {r : List Char}

/-- In front of a mark a step fetches a token. -/
theorem step_eq_fetch (hc : c.IsSound) (hr : IsMark c.rest) :
    (state c E B none allowed).step = (state c E B none allowed).fetch :=
  step_none (toToken_here hc hr)

/-- A collection that begins to the right of the next token can be taken as closed. -/
theorem leads_close (hc : c.IsSound) (hr : IsMark c.rest) {x : Nat}
    (h : c.column < x ∨ c.rest = []) :
    Leads (state c E (x :: B) none allowed) (state c (.blockEnd :: E) B none allowed) := by
  -- no text is taken, but from both states the same token is fetched
  refine Leads.same ?_ (Nat.le_refl _)
  rw [step_eq_fetch hc hr, step_eq_fetch hc hr, fetch_close h]

/-- A key that is pending from a line before can be taken as given up. -/
theorem leads_fade (hc : c.IsSound) (hr : IsMark c.rest) (hkey : Fades key c.line) :
    Leads (state c E B key allowed) (state c E B none allowed) := by
  have hidle : Idle key c.line := fun p hp => ⟨(hkey p hp).1, Nat.le_of_lt (hkey p hp).2⟩
  rcases step_idle hidle (Nat.le_refl _) fun _ => toToken_here hc hr with ⟨key', hstep, _, hnone⟩
  refine Leads.same ?_ (Nat.le_refl _)
  rw [hstep, hnone hkey, step_eq_fetch hc hr]

/-- The end of a line, and the spaces before the next token, can be taken as read. -/
theorem leads_break {k : Nat} (hc : c.IsSound) (hrest : c.rest = '\n' :: (spaces k ++ r))
    (hr : IsMark r) (hkey : Idle key c.line) :
    Leads (state c E B key allowed) (state (c.after ('\n' :: spaces k)) E B none true) := by
  have hreach : c.rest = ('\n' :: spaces k) ++ r := hrest
  have hafter := Cursor.rest_after hreach
  have hsound := hc.after hreach
  have hmove : ∀ key', toToken c.steps (state c E B key' allowed) =
      state (c.after ('\n' :: spaces k)) E B key' true := by
    intro key'
    rw [hc.steps_eq, hrest]
    exact toToken_break hrest hr _
  have hline : c.line < (c.after ('\n' :: spaces k)).line :=
    Cursor.line_lt_after List.mem_cons_self rfl c
  rcases step_idle hkey (Nat.le_of_lt hline) hmove with ⟨key', hstep, _, hnone⟩
  refine Leads.same ?_ ?_
  · rw [hstep, hnone (hkey.fades hline), step_eq_fetch hsound (by rw [hafter]; exact hr)]
  · change (c.after ('\n' :: spaces k)).rest.length ≤ c.rest.length
    rw [hafter, hreach, List.length_append]
    omega

/-- A key that is stale stays so. -/
theorem isStale_mono {p : PendingKey} {c' : Cursor} (hline : c.line ≤ c'.line)
    (hindex : c.index ≤ c'.index) (h : p.isStale c = true) : p.isStale c' = true := by
  unfold PendingKey.isStale at h ⊢
  rw [Bool.or_eq_true, decide_eq_true_eq, decide_eq_true_eq] at h ⊢
  omega

/-- Spaces within a line can be taken as read, if no key that must be one is given up by it. -/
theorem leads_spaces {k : Nat} (hc : c.IsSound) (hrest : c.rest = spaces k ++ r) (hr : IsMark r)
    (hkey : ∀ p, key = some p → p.isStale (c.after (spaces k)) = true → p.required = false) :
    Leads (state c E B key allowed) (state (c.after (spaces k)) E B key allowed) := by
  have hsound := hc.after hrest
  have hmark : IsMark (c.after (spaces k)).rest := by
    rw [Cursor.rest_after hrest]
    exact hr
  have hmove {key : Option PendingKey} : toToken c.steps (state c E B key allowed) =
      state (c.after (spaces k)) E B key allowed := toToken_steps hc hrest hr
  have hindex : c.index ≤ (c.after (spaces k)).index := by
    rw [Cursor.index_after]
    omega
  refine Leads.same ?_ ?_
  · cases key with
    | none => rw [step_none hmove, step_none (toToken_here hsound hmark)]
    | some p =>
        cases hstale' : p.isStale (c.after (spaces k)) with
        | true =>
            have hrequired := hkey p rfl hstale'
            rw [step_stale hrequired hstale', step_none (toToken_here hsound hmark)]
            -- the key may grow stale on the way; where it is dropped makes no difference
            cases hstale : p.isStale c with
            | true => rw [step_stale hrequired hstale, step_none hmove]
            | false =>
                have hsteps : (state c E B (some p) allowed).cursor.steps = c.steps := rfl
                rw [step, dropStaleKeys_fresh hstale, ok_bind, hsteps, hmove,
                  dropStaleKeys_stale hrequired hstale', ok_bind]
        | false =>
            have hstale : p.isStale c = false := by
              refine Bool.eq_false_iff.mpr fun h => ?_
              rw [isStale_mono (Cursor.line_le_after c (spaces k)) hindex h] at hstale'
              cases hstale'
            rw [step_fresh hstale hstale' hmove,
              step_fresh hstale' hstale' (toToken_here hsound hmark)]
  · change (c.after (spaces k)).rest.length ≤ c.rest.length
    rw [Cursor.rest_after hrest, hrest, List.length_append]
    omega

/-- At the end of the text no further token but the end of the stream is yielded. -/
theorem yields_end (hc : c.IsSound) (hrest : c.rest = []) :
    (state c E [] none true).Yields (.streamEnd :: E).reverse := by
  have hstep : (state c E [] none true).step = .ok (state c (.streamEnd :: E) [] none false) := by
    rw [step_eq_fetch hc (.inl hrest), fetch_end hrest]
    rfl
  exact yields_of_step hstep rfl

end Scanner

end OperatorBundle.Yaml
