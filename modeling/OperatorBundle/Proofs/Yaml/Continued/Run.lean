import OperatorBundle.Proofs.Yaml.Continued.Scan
import OperatorBundle.Proofs.Yaml.Continued.Tokens

/-!
# The tokens of a stream that goes on

Step by step a scanner reads the same tokens from a text and from the longer text, up to the end of
the first.  There the longer text starts a document, and puts nothing in front of it any more.
-/

namespace OperatorBundle.Yaml

/-- Does a token that may begin a key stand before a place? -/
def PendingKey.IsBefore (p : PendingKey) (c : Cursor) : Prop :=
  p.line < c.line ∨ p.line = c.line ∧ p.column < c.column

namespace PendingKey

variable {p : PendingKey} {c c' : Cursor}

theorem IsBefore.reaches (h : p.IsBefore c) (hreaches : c.Reaches c') : p.IsBefore c' := by
  induction hreaches with
  | refl => exact h
  | tail _ hpass ih =>
      have hposition := hpass.position_lt
      unfold IsBefore at ih ⊢
      omega

theorem isBefore_of_moves (hline : p.line = c.line) (hcolumn : p.column = c.column)
    (h : c.Moves c') : p.IsBefore c' := by
  obtain ⟨next, hpass, hreaches⟩ := Relation.TransGen.head'_iff.mp h
  refine IsBefore.reaches ?_ hreaches
  have hposition := hpass.position_lt
  unfold IsBefore
  omega

/-- At the beginning of a line all keys before it end too late. -/
theorem IsBefore.isStale (h : p.IsBefore c) (hcolumn : c.column = 0) : p.isStale c = true := by
  unfold IsBefore at h
  unfold PendingKey.isStale
  rw [Bool.or_eq_true, decide_eq_true_iff]
  omega

end PendingKey

namespace Scanner

variable {more : List Char} {s s' u : Scanner}

/-- What holds of a scanner between two tokens of a text of whole lines. -/
structure EndsLine (s : Scanner) : Prop where
  line : s.cursor.EndsLine
  counted : s.count = s.emitted.length
  before : ∀ p ∈ s.pending, p.IsBefore s.cursor

theorem EndsLine.grows {c : Cursor} (h : s.EndsLine) (hgrows : Grows c s s') :
    s'.count = s'.emitted.length :=
  (hgrows.keeps 0 ⟨h.counted, Nat.zero_le _, fun _ _ => Nat.zero_le _⟩).1.counted

theorem pending_toToken (n : Nat) (s : Scanner) : (toToken n s).pending = s.pending := by
  obtain ⟨c, allowed, heq⟩ := exists_toToken_eq n s
  rw [heq]
  rfl

/-- The space in front of a token is passed in both texts, and the keys given up that end before. -/
theorem step_front (hmore : IsDocumentLine more) (hs : s.EndsLine) (h : s.step = .ok s') :
    ∃ u : Scanner, u.fetch = .ok s' ∧ (s.extend more).step = (u.extend more).fetch ∧ u.EndsLine ∧
      s.cursor.Reaches u.cursor ∧ u.cursor.rest.head?.any isBreak = false ∧
      ∀ p ∈ u.pending, p.isStale u.cursor = false := by
  obtain ⟨t, u, ht, hu, hfetch⟩ := step_eq_ok_iff.mp h
  obtain ⟨ht', hcursor⟩ := stays_dropStaleKeys more rfl t ht
  have hline : t.cursor.EndsLine := hcursor ▸ hs.line
  obtain ⟨hspace, hreaches, hbreak⟩ := toToken_extend hmore hline hline.length_le_steps
    (hline.length_le_steps_extend more)
  obtain ⟨hu', hplace⟩ := stays_dropStaleKeys more rfl u hu
  have hgrows : Grows u.cursor s u :=
    (grows_dropStaleKeys ht).trans ((grows_toToken _ t).trans (grows_dropStaleKeys hu))
  rw [← hplace] at hbreak hreaches
  rw [hcursor] at hreaches
  refine ⟨u, hfetch, ?_, ⟨hs.line.reaches hreaches, hs.grows hgrows, ?_⟩, hreaches, hbreak, ?_⟩
  · rw [step, ht', ok_bind]
    show (toToken (t.cursor.extend more).steps (t.extend more)).dropStaleKeys >>= fetch = _
    rw [hspace, hu', ok_bind]
  · intro p hp
    have hleft := (mem_pending_dropStaleKeys hu hp).1
    rw [pending_toToken] at hleft
    exact (hs.before p (mem_pending_dropStaleKeys ht hleft).1).reaches hreaches
  · intro p hp
    rw [hplace]
    exact (mem_pending_dropStaleKeys hu hp).2

/-- What grows in the same way at all places has no keys of any of them. -/
theorem pending_of_grows (h : ∀ c, Grows c s s') {p : PendingKey} (hp : p ∈ s'.pending) :
    p ∈ s.pending := by
  obtain hold | ⟨hline, -⟩ := (h ⟨[], 0, p.line + 1, 0, 0⟩).keys p hp
  · exact hold
  · exact absurd hline (Nat.ne_of_lt (Nat.lt_succ_self _))

/-- Where the text ends the longer text starts a document, and no key is pending any more. -/
theorem fetch_end_extend (hmore : IsDocumentLine more) (hu : u.EndsLine)
    (hrest : u.cursor.rest = []) (hpending : ∀ p, p ∉ u.pending) (h : u.fetch = .ok s') :
    ∃ tokens t, s'.emitted = .streamEnd :: tokens ∧ (u.extend more).fetch = .ok t ∧
      t.emitted = .documentStart :: tokens ∧ t.Fixed (tokens.length + 1) := by
  have hmark := Cursor.atMarker_extend_end hmore hu.line hrest
  have hpercent : ((u.extend more).cursor.column == 0 && '-' == '%') = false := Bool.and_false _
  have hrest' : ∃ r, (u.extend more).cursor.rest = '-' :: r := by
    obtain ⟨r, rfl⟩ := hmore
    exact ⟨_, by rw [cursor_extend, Cursor.rest_extend, hrest, List.nil_append]⟩
  obtain ⟨r, hrest'⟩ := hrest'
  rw [fetch_nil hrest] at h
  obtain ⟨v, hforget, h⟩ := bind_eq_ok_iff.mp h
  cases h
  obtain ⟨hforget', -⟩ := stays_forgetKey more rfl v hforget
  have hgrows : ∀ c, Grows c u v := fun c =>
    (grows_unindent u).trans ((grows_closeAll _).trans (grows_forgetKey hforget))
  refine ⟨v.emitted, { v.extend more with keyAllowed := false }.take 3 .documentStart, rfl, ?_, rfl,
    ?_⟩
  · rw [fetch_cons hrest', hpercent, cursor_extend, hmark, unindent_extend]
    show (u.unindent.extend more).documentMarker .documentStart = _
    rw [documentMarker, closeAll_extend, hforget', ok_bind]
    rfl
  · have hcounted := hu.grows (hgrows u.cursor)
    have henough := Nat.le_of_eq (congrArg (· + 1) hcounted.symm)
    refine ⟨congrArg (· + 1) hcounted, henough, fun p hp => ?_⟩
    exact absurd (pending_of_grows hgrows hp) (hpending p)

/-- What a step reads before the end of a text it reads from the longer text as well. -/
theorem step_extend (hmore : IsDocumentLine more) (hs : s.EndsLine) (h : s.step = .ok s') :
    ((s.extend more).step = .ok (s'.extend more) ∧ s'.EndsLine ∧
      s'.cursor.rest.length < s.cursor.rest.length) ∨
    ∃ tokens t, s'.emitted = .streamEnd :: tokens ∧ (s.extend more).step = .ok t ∧
      t.emitted = .documentStart :: tokens ∧ t.Fixed (tokens.length + 1) := by
  obtain ⟨u, hfetch, hsame, hu, hreaches, hbreak, hfresh⟩ := step_front hmore hs h
  cases hrest : u.cursor.rest with
  | cons x r =>
      left
      have hx : isBreak x = false := by rwa [hrest] at hbreak
      have hgrows := grows_fetch hfetch
      obtain ⟨hread, hbehind⟩ := reads_fetch hmore hu.line hrest hx s' hfetch
      have hmoves : u.cursor.Moves s'.cursor := .head' (.char hrest hx) hbehind
      have hplace : u.cursor.Reaches s'.cursor := hmoves.to_reflTransGen
      refine ⟨hsame.trans hread, ⟨hu.line.reaches hplace, hu.grows hgrows, ?_⟩, ?_⟩
      · intro p hp
        obtain hold | ⟨hline, hcolumn⟩ := hgrows.keys p hp
        · exact (hu.before p hold).reaches hplace
        · exact PendingKey.isBefore_of_moves hline hcolumn hmoves
      · exact Nat.lt_of_lt_of_le hmoves.length_lt hreaches.length_le
  | nil =>
      right
      rw [hsame]
      refine fetch_end_extend hmore hu hrest (fun p hp => ?_) hfetch
      have hstale := (hu.before p hp).isStale (hu.line.column hrest)
      rw [hfresh p hp] at hstale
      cases hstale

theorem fixed_known_extend {k : Nat} (h : s.known.Fixed k) : (s.extend more).known.Fixed k := by
  cases hdrop : s.dropStaleKeys with
  | error defect =>
      have hknown : s.known = s := by
        unfold known
        rw [hdrop]
        rfl
      rw [hknown] at h
      have hfixed : (s.extend more).Fixed k := ⟨h.counted, h.enough, h.before⟩
      exact ((grows_known (c := s.cursor) (s.extend more)).keeps k hfixed).1
  | ok t =>
      have hknown : s.known = t := by
        unfold known
        rw [hdrop]
        rfl
      have hknown' : (s.extend more).known = t.extend more := by
        unfold known
        rw [(stays_dropStaleKeys more rfl t hdrop).1]
        rfl
      rw [hknown] at h
      rw [hknown']
      exact ⟨h.counted, h.enough, h.before⟩

/-- The tokens of the longer text go on where those of the text end, or are broken off. -/
theorem run_extend (hmore : IsDocumentLine more) {n n' : Nat} (hs : s.EndsLine)
    (hn : s.cursor.rest.length < n) (hn' : s.cursor.rest.length < n') :
    Continues (run n s).tokens (run n' (s.extend more)).tokens := by
  induction n generalizing n' s with
  | zero => exact absurd hn (Nat.not_lt_zero _)
  | succ n ih =>
      rw [run]
      cases hstep : s.step with
      | error defect =>
          -- what is known for certain before the defect stays at the head of the longer text
          have hfixed := fixed_certain (hs.grows (grows_known (c := s.cursor) s))
          exact .of_isPrefix (take_prefix_run (fixed_known_extend hfixed) n')
      | ok s' =>
          obtain ⟨n', rfl⟩ := Nat.exists_eq_add_one.mpr (Nat.lt_of_le_of_lt (Nat.zero_le _) hn')
          rw [run]
          obtain ⟨hstep', hs', hless⟩ | ⟨tokens, t, hend, hstep', hstart, hfixed⟩ :=
            step_extend hmore hs hstep
          · have hemitted : (s'.extend more).emitted = s'.emitted := rfl
            rw [hstep']
            dsimp only
            rw [hemitted]
            split
            · exact .of_isPrefix (List.prefix_refl _)
            · exact ih hs' (by omega) (by omega)
          · have hknown := ((grows_known (c := t.cursor) t).keeps _ hfixed).1
            have hhead := take_prefix_run hknown n'
            have hall : t.emitted.reverse.take (tokens.length + 1) =
                tokens.reverse ++ [.documentStart] := by
              rw [hstart, List.take_of_length_le (by simp), List.reverse_cons]
            rw [hall] at hhead
            obtain ⟨behind, hbehind⟩ := hhead
            rw [hstep']
            dsimp only
            rw [hend, hstart]
            show Continues (.streamEnd :: tokens).reverse (run n' t).tokens
            rw [← hbehind, List.reverse_cons, List.append_assoc]
            exact (Continues.close behind).append tokens.reverse

end Scanner

/-- The tokens of a text of whole lines that goes on with a line `---`. -/
theorem TokenStream.ofText_continues {text more : List Char} (hlast : text.getLast? = some '\n')
    (hmore : IsDocumentLine more) (hadmissible : more.all isAdmissible = true) :
    Continues (TokenStream.ofText text).tokens (TokenStream.ofText (text ++ more)).tokens := by
  have hextend : Cursor.ofText (text ++ more) = (Cursor.ofText text).extend more := by
    unfold Cursor.ofText Cursor.extend
    rw [List.length_append]
  have hline : (Cursor.ofText text).EndsLine :=
    ⟨Cursor.isSound_ofText text, fun _ => hlast, fun _ => rfl⟩
  unfold TokenStream.ofText
  rw [List.all_append, hadmissible, Bool.and_true, hextend]
  split
  · have hsteps := hline.length_le_steps
    have hsteps' := hline.length_le_steps_extend more
    refine Scanner.run_extend (s := { cursor := Cursor.ofText text }) hmore ⟨hline, rfl, ?_⟩
      (Nat.lt_succ_of_le hsteps) (Nat.lt_succ_of_le hsteps')
    intro p hp
    cases hp
  · exact .nil _

end OperatorBundle.Yaml
