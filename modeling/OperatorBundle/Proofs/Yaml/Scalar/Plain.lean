import OperatorBundle.Proofs.Yaml.Cursor
import OperatorBundle.Yaml.Token.Scalar

/-!
# Plain scalars are read as they were written

A text that can be written plain is words with spaces between them.  The reader takes it word by
word, and stops at the line break or at the colon behind it.
-/

namespace OperatorBundle.Yaml

open Layout (spaces)

/-! ## Texts without indicators -/

namespace Layout

/-- Words with spaces between them, none of which looks like something else. -/
structure IsRun (text : List Char) : Prop where
  spacing : ∀ x ∈ text, isSpacing x = true → x = ' '
  first : ∃ x r, text = x :: r ∧ isSpacing x = false ∧ x ≠ '#'
  last : text.getLast? ≠ some ' '
  colon : ∀ before behind, text = before ++ ':' :: behind → atWordEnd behind = false
  hash : ∀ before behind, text ≠ before ++ ' ' :: '#' :: behind

theorem hasInnerIndicator_split {before behind : List Char} {a b : Char}
    (h : hasInnerIndicator (before ++ a :: b :: behind) = false) :
    (b == ':' && atWordEnd behind) = false ∧ (b == '#' && isSpacing a) = false := by
  induction before with
  | nil =>
      rw [List.nil_append, hasInnerIndicator, Bool.or_eq_false_iff, Bool.or_eq_false_iff] at h
      exact h.1
  | cons x before ih =>
      refine ih ?_
      cases before with
      | nil =>
          rw [List.singleton_append, hasInnerIndicator, Bool.or_eq_false_iff] at h
          exact h.2
      | cons y before =>
          rw [List.cons_append, List.cons_append, hasInnerIndicator, Bool.or_eq_false_iff] at h
          exact h.2

/-- What can be written plain is words without indicators. -/
theorem isRun_of_isPlain {text : List Char} (h : isPlain text = true) (hne : text ≠ []) :
    IsRun text := by
  unfold isPlain at h
  rw [Bool.not_eq_true', Bool.or_eq_false_iff, Bool.or_eq_false_iff, Bool.or_eq_false_iff,
    Bool.or_eq_false_iff] at h
  rcases h with ⟨⟨⟨⟨hescape, hbreak⟩, hends⟩, hstart⟩, hinner⟩
  rw [needsEscape, Bool.or_eq_false_iff, Bool.not_eq_false', List.all_eq_true] at hescape
  rw [hasAtEnds, Bool.or_eq_false_iff] at hends
  have hspacing : ∀ x ∈ text, isSpacing x = true → x = ' ' := fun x hx =>
    isSpacing_of_isPrintable (hescape.1 x hx) (Bool.eq_false_iff.mpr (List.any_eq_false.mp hbreak x hx))
  unfold startsWithIndicator at hstart
  rw [Bool.or_eq_false_iff] at hstart
  refine ⟨hspacing, ?_, ?_, ?_, ?_⟩
  · cases text with
    | nil => exact absurd rfl hne
    | cons x r =>
        refine ⟨x, r, rfl, ?_, ?_⟩
        · refine Bool.eq_false_iff.mpr fun hx => ?_
          rw [hspacing x List.mem_cons_self hx] at hends
          cases hends.1
        · rintro rfl
          cases hstart.2
  · intro hlast
    rw [hlast] at hends
    cases hends.2
  · rintro before behind rfl
    rcases List.eq_nil_or_concat before with rfl | ⟨before, a, rfl⟩
    · have hcolon := (Bool.or_eq_false_iff.mp hstart.2).2
      exact hcolon
    · rw [List.concat_eq_append, List.append_assoc, List.singleton_append] at hinner
      have hcolon := (hasInnerIndicator_split hinner).1
      exact hcolon
  · rintro before behind rfl
    have hhash := (hasInnerIndicator_split hinner).2
    cases hhash

theorem IsRun.getLast?_any {text : List Char} (h : IsRun text) :
    text.getLast?.any isBreak = false := by
  cases hlast : text.getLast? with
  | none => rfl
  | some x =>
      refine Bool.eq_false_iff.mpr fun hbreak => ?_
      have hx := h.spacing x (List.mem_of_getLast? hlast)
        (by rw [isSpacing, show isBreak x = true from hbreak, Bool.or_true])
      rw [hx] at hbreak
      cases hbreak

/-- The words behind a gap. -/
theorem IsRun.behind {w t : List Char} {k : Nat} (h : IsRun (w ++ (spaces (k + 1) ++ t)))
    (hne : t ≠ []) (ht : t.head? ≠ some ' ') : IsRun t := by
  have hspacing : ∀ y ∈ t, isSpacing y = true → y = ' ' := fun y hy =>
    h.spacing y (List.mem_append_right w (List.mem_append_right _ hy))
  constructor
  case spacing => exact hspacing
  case first =>
    cases t with
    | nil => exact absurd rfl hne
    | cons y t =>
        refine ⟨y, t, rfl, ?_, ?_⟩
        · refine Bool.eq_false_iff.mpr fun hy => ht ?_
          rw [List.head?_cons, hspacing y List.mem_cons_self hy]
        · rintro rfl
          refine h.hash (w ++ spaces k) t ?_
          simp [spaces, List.replicate_succ']
  case last =>
    intro hlast
    refine h.last ?_
    rw [List.getLast?_append, List.getLast?_append, hlast]
    rfl
  case colon =>
    intro before behind hbefore
    refine h.colon (w ++ (spaces (k + 1) ++ before)) behind ?_
    rw [hbefore]
    simp
  case hash =>
    intro before behind hbefore
    refine h.hash (w ++ (spaces (k + 1) ++ before)) behind ?_
    rw [hbefore]
    simp

/-- Words with spaces between them are one word, or a first word and others. -/
theorem IsRun.cut {text : List Char} (h : IsRun text) :
    ∃ w, w ≠ [] ∧ (∀ x ∈ w, isSpacing x = false) ∧
      (text = w ∨ ∃ k t, text = w ++ (spaces (k + 1) ++ t) ∧ IsRun t) := by
  rcases exists_word (fun x => !isSpacing x) text with ⟨w, s, rfl, hw, hs⟩
  refine ⟨w, ?_, fun x hx => by simpa using hw x hx, ?_⟩
  · rintro rfl
    rcases h.first with ⟨a, r, htext, ha, _⟩
    rw [List.nil_append] at htext
    rw [htext, List.head?_cons, Option.any_some, ha] at hs
    cases hs
  cases s with
  | nil => exact .inl (List.append_nil w)
  | cons x s =>
      have hspace : x = ' ' := h.spacing x (by simp) (by simpa using hs)
      rcases exists_spaces s with ⟨k, t, rfl, ht⟩
      have hgap : w ++ x :: (spaces k ++ t) = w ++ (spaces (k + 1) ++ t) := by
        rw [hspace, spaces_succ]
        rfl
      rw [hgap] at h
      -- a run does not end in a space, so there is a word behind the gap
      refine .inr ⟨k, t, hgap, h.behind ?_ ht⟩
      rintro rfl
      refine h.last ?_
      rw [List.append_nil, spaces, List.replicate_succ', ← List.append_assoc]
      simp

end Layout

/-! ## Words -/

/-- Does a word of a plain scalar end here? -/
inductive EndsWord : List Char → Prop where
  | nil : EndsWord []
  | spacing {x : Char} {r : List Char} (h : isSpacing x = true) : EndsWord (x :: r)
  | colon {r : List Char} (h : atWordEnd r = true) : EndsWord (':' :: r)

namespace Layout

/-- What can be written plain begins with nothing else. -/
theorem isPlain_first {text : List Char} (h : isPlain text = true) (hne : text ≠ []) :
    ∃ x s, text = x :: s ∧ isLeadingIndicator x = false ∧
      ∀ r, (['?', ':', '-'].contains x && atWordEnd (s ++ r)) = false := by
  unfold isPlain at h
  rw [Bool.not_eq_true', Bool.or_eq_false_iff, Bool.or_eq_false_iff] at h
  have hstart := h.1.2
  unfold startsWithIndicator at hstart
  cases text with
  | nil => exact absurd rfl hne
  | cons x s =>
      have hfirst := Bool.or_eq_false_iff.mp (Bool.or_eq_false_iff.mp hstart).2
      refine ⟨x, s, rfl, hfirst.1, fun r => ?_⟩
      cases s with
      | nil =>
          have hno : (['?', ':', '-'].contains x && true) = false := hfirst.2
          rw [Bool.and_true] at hno
          rw [hno, Bool.false_and]
      | cons y s => exact hfirst.2

theorem not_mark {text r : List Char} {m : Char} (hm : isSpacing m = false) (hcolon : m ≠ ':')
    (hstart : [m, m, m].isPrefixOf text = false) (hne : text ≠ []) (hr : EndsWord r)
    (s : List Char) : text ++ r ≠ m :: m :: m :: s := by
  have hrest : ∀ t, r ≠ m :: t := by
    rintro t rfl
    cases hr with
    | spacing hspacing =>
        rw [hm] at hspacing
        cases hspacing
    | colon _ => exact hcolon rfl
  intro h
  match text, hne with
  | [a], _ => exact hrest _ (List.cons.inj h).2
  | [a, b], _ => exact hrest _ (List.cons.inj (List.cons.inj h).2).2
  | a :: b :: d :: t, _ =>
      have ha := (List.cons.inj h).1
      have hb := (List.cons.inj (List.cons.inj h).2).1
      have hd := (List.cons.inj (List.cons.inj (List.cons.inj h).2).2).1
      subst ha hb hd
      simp at hstart

/-- What can be written plain is no mark of a document. -/
theorem atDocumentMarker_of_isPlain {text r : List Char} (h : isPlain text = true)
    (hne : text ≠ []) (hr : EndsWord r) {c : Cursor} (hrest : c.rest = text ++ r) :
    c.atDocumentMarker = false := by
  unfold isPlain at h
  rw [Bool.not_eq_true', Bool.or_eq_false_iff, Bool.or_eq_false_iff] at h
  have hstart := h.1.2
  unfold startsWithIndicator at hstart
  rw [Bool.or_eq_false_iff, Bool.or_eq_false_iff] at hstart
  have hno : ∀ m, isSpacing m = false → m ≠ ':' → [m, m, m].isPrefixOf text = false →
      c.atMarker m = false := by
    intro m hm hcolon hstart
    unfold Cursor.atMarker
    rw [hrest]
    split
    · rename_i x y z s heq
      refine Bool.eq_false_iff.mpr fun htrue => ?_
      simp only [Bool.and_eq_true, beq_iff_eq] at htrue
      rcases htrue with ⟨_, ⟨⟨rfl, rfl⟩, rfl⟩, _⟩
      exact not_mark hm hcolon hstart hne hr s heq
    · exact Bool.and_false _
  rw [Cursor.atDocumentMarker, hno '-' rfl (by decide) hstart.1.1, hno '.' rfl (by decide)
    hstart.1.2]
  rfl

end Layout

namespace Scalar

theorem plainWord?_stop {r : List Char} (h : EndsWord r) : plainWord? false r = some [] := by
  cases h with
  | nil => rfl
  | spacing h => rw [plainWord?, if_pos h]
  | colon h => rw [plainWord?, h]; rfl

/-- A word is read up to where it ends. -/
theorem plainWord?_eq {w r : List Char} (hw : ∀ x ∈ w, isSpacing x = false)
    (hcolon : ∀ before behind, w = before ++ ':' :: behind → atWordEnd (behind ++ r) = false)
    (hr : EndsWord r) : plainWord? false (w ++ r) = some w := by
  induction w with
  | nil => exact plainWord?_stop hr
  | cons x w ih =>
      have hx := hw x List.mem_cons_self
      have hend : (x == ':' && atWordEnd (w ++ r)) = false := by
        cases hx : x == ':' with
        | false => rfl
        | true => exact hcolon [] w (by rw [beq_iff_eq.mp hx]; rfl)
      have htail := ih (fun y hy => hw y (List.mem_cons_of_mem x hy))
        fun before behind h => hcolon (x :: before) behind (by rw [h]; rfl)
      rw [List.cons_append, plainWord?, hx, hend, htail]
      rfl

/-- A cursor at a word of a plain scalar. -/
structure AtWord (w r : List Char) (c : Cursor) : Prop where
  sound : c.IsSound
  rest : c.rest = w ++ r
  mark : c.atDocumentMarker = false
  hash : c.headIs '#' = false
  ne_nil : w ≠ []
  word : plainWord? false c.rest = some w
  ink : ∀ x ∈ w, isSpacing x = false

/-- What is written plain begins with a word. -/
theorem atWord_of_isRun {w s r : List Char} (h : Layout.IsRun (w ++ s)) (hne : w ≠ [])
    (hw : ∀ x ∈ w, isSpacing x = false) (hs : EndsWord (s ++ r)) {c : Cursor} (hc : c.IsSound)
    (hrest : c.rest = w ++ (s ++ r)) (hmark : c.atDocumentMarker = false) :
    AtWord w (s ++ r) c := by
  refine ⟨hc, hrest, hmark, ?_, hne, ?_, hw⟩
  · rcases h.first with ⟨x, t, htext, _, hx⟩
    rw [← List.append_assoc, htext] at hrest
    exact Cursor.headIs_eq_false hrest hx
  · rw [hrest]
    refine plainWord?_eq hw (fun before behind hcut => ?_) hs
    have hcolon := h.colon before (behind ++ s) (by rw [hcut]; simp)
    rw [← List.append_assoc]
    -- the colon is not the last character, and what follows it is no spacing
    cases hbehind : behind ++ s with
    | nil =>
        rw [hbehind] at hcolon
        cases hcolon
    | cons x t =>
        rw [hbehind] at hcolon
        exact hcolon

/-- A word is read, and the gap behind it if there is one. -/
theorem AtWord.plainWords_eq {c : Cursor} {w r : List Char} (h : AtWord w r c)
    (indent n : Nat) (text : List Char) (gap : Gap) :
    plainWords false indent (n + 1) text gap c =
      if !(r.head?.any isSpacing) then .ok (text ++ gap.folded ++ w, false, c.after w)
      else
        match Gap.read? indent (c.after w).steps false {} (c.after w) with
        | none => .error .token
        | some (gap', c') =>
            if c'.column < indent then
              .ok (text ++ gap.folded ++ w, !gap'.breaks.isEmpty, c')
            else plainWords false indent n (text ++ gap.folded ++ w) gap' c' := by
  have hempty : w.isEmpty = false := List.isEmpty_eq_false_iff.mpr h.ne_nil
  have hafter : c.advance w.length = c.after w :=
    (Cursor.after_eq_advance (fun x hx => isBreak_eq_false (h.ink x hx)) c).symm
  rw [plainWords, h.mark, h.hash, h.word]
  simp only [hempty, hafter, Cursor.rest_after h.rest]
  cases r.head?.any isSpacing with
  | false => rfl
  | true =>
      cases Gap.read? indent (c.after w).steps false {} (c.after w) with
      | none => rfl
      | some found =>
          rcases found with ⟨gap', c'⟩
          by_cases hcolumn : c'.column < indent
          · simp [hcolumn]
            rfl
          · simp [hcolumn]

theorem AtWord.column_spaces {c : Cursor} {w r : List Char} (h : AtWord w r c) (k : Nat) :
    ((c.after w).after (spaces k)).column = c.column + w.length + k := by
  rw [Cursor.column_after_spaces, Cursor.column_after fun x hx => isBreak_eq_false (h.ink x hx)]

/-- A word with spaces behind it, which do not end the line. -/
theorem AtWord.plainWords_spaces {c : Cursor} {w r : List Char} {k : Nat}
    (h : AtWord w (spaces (k + 1) ++ r) c) (hr : Stops r) {indent : Nat}
    (hindent : indent ≤ c.column + 1) (n : Nat) (text : List Char) (gap : Gap) :
    plainWords false indent (n + 1) text gap c =
      plainWords false indent n (text ++ gap.folded ++ w) { blanks := spaces (k + 1) }
        ((c.after w).after (spaces (k + 1))) := by
  have hrest : (c.after w).rest = spaces (k + 1) ++ r := Cursor.rest_after h.rest
  have hfuel : k + 1 ≤ (c.after w).steps := by
    rw [(h.sound.after h.rest).steps_eq, hrest, List.length_append, length_spaces]
    omega
  have hcolumn := h.column_spaces (k + 1)
  rw [h.plainWords_eq, Gap.read?_blanks hrest hr indent hfuel]
  simp only [List.nil_append]
  rw [if_neg (by simp [spaces_succ, isSpacing, isBlank]), if_neg (by omega)]

/-- The words of a scalar are read one after the other up to the last. -/
theorem plainWords_run {text r : List Char} (h : Layout.IsRun text) (hr : EndsWord r)
    {c : Cursor} (hc : c.IsSound) (hrest : c.rest = text ++ r)
    (hmark : c.atDocumentMarker = false) {indent : Nat} (hindent : indent ≤ c.column + 1) (n : Nat)
    (hn : text.length ≤ n) (read : List Char) (gap : Gap) :
    ∃ m read' gap' c' w, plainWords false indent n read gap c =
        plainWords false indent (m + 1) read' gap' c' ∧ AtWord w r c' ∧
      read' ++ gap'.folded ++ w = read ++ gap.folded ++ text ∧ c'.after w = c.after text := by
  -- the last word is left unread: what is behind it decides how the scalar ends
  induction hlength : text.length using Nat.strongRecOn generalizing text c n read gap with
  | ind length ih =>
      rcases h.cut with ⟨w, hw, hink, rfl | ⟨k, t, rfl, ht⟩⟩
      · rw [← List.append_nil text] at h
        have hpositive : 0 < text.length := List.length_pos_iff.mpr hw
        refine ⟨n - 1, read, gap, c, text, ?_, ?_, rfl, rfl⟩
        · rw [Nat.sub_add_cancel (by omega)]
        · exact atWord_of_isRun h hw hink hr hc hrest hmark
      · have hpositive : 0 < w.length := List.length_pos_iff.mpr hw
        have hat : AtWord w (spaces (k + 1) ++ (t ++ r)) c := by
          rw [List.append_assoc] at hrest
          have hword := atWord_of_isRun h hw hink (.spacing rfl) hc hrest hmark
          rwa [List.append_assoc] at hword
        have hcolumn := hat.column_spaces (k + 1)
        have hstops : Stops (t ++ r) := by
          rcases ht.first with ⟨x, s, rfl, hx, _⟩
          exact Stops.cons hx
        have hrestw : (c.after w).rest = spaces (k + 1) ++ (t ++ r) := Cursor.rest_after hat.rest
        rw [List.length_append, List.length_append, length_spaces] at hlength hn
        cases n with
        | zero => omega
        | succ n =>
            rcases ih t.length (by omega) ht ((hc.after hat.rest).after hrestw)
              (Cursor.rest_after hrestw) (Cursor.atDocumentMarker_of_column (by omega)) (by omega) n
              (by omega) (read ++ gap.folded ++ w) { blanks := spaces (k + 1) } rfl with
              ⟨m, read', gap', c', w', hreads, hat', htext', hafter'⟩
            refine ⟨m, read', gap', c', w', ?_, hat', ?_, ?_⟩
            · rw [hat.plainWords_spaces hstops hindent, hreads]
            · have hfolded : Gap.folded { blanks := spaces (k + 1) } = spaces (k + 1) := rfl
              rw [htext', hfolded]
              simp only [List.append_assoc]
            · rw [hafter', Cursor.after_append, Cursor.after_append]

/-- A plain scalar before a colon. -/
theorem plain_colon {text r : List Char} (h : Layout.IsRun text) {c : Cursor} (hc : c.IsSound)
    (hrest : c.rest = text ++ ':' :: r) (hr : atWordEnd r = true)
    (hmark : c.atDocumentMarker = false) {indent : Nat} (hindent : indent ≤ c.column + 1) :
    plain false indent c = .ok (text, false, c.after text) := by
  have hn : text.length ≤ c.steps := by
    rw [hc.steps_eq, hrest, List.length_append]
    omega
  rcases plainWords_run h (.colon hr) hc hrest hmark hindent c.steps hn [] {} with
    ⟨m, read, gap, c', w, hreads, hat, htext, hafter⟩
  rw [plain, hreads, hat.plainWords_eq, htext, hafter]
  rfl

/-- A plain scalar at the end of its line, before a line that does not belong to it. -/
theorem plain_line {text r : List Char} {k : Nat} (h : Layout.IsRun text) {c : Cursor}
    (hc : c.IsSound) (hrest : c.rest = text ++ '\n' :: (spaces k ++ r)) (hr : Stops r)
    (hmark : c.atDocumentMarker = false) {indent : Nat} (hindent : indent ≤ c.column + 1)
    (hk : k < indent ∨ r = []) :
    plain false indent c = .ok (text, true, c.after (text ++ '\n' :: spaces k)) := by
  have hn : text.length ≤ c.steps := by
    rw [hc.steps_eq, hrest, List.length_append]
    omega
  rcases plainWords_run h (.spacing rfl) hc hrest hmark hindent c.steps hn [] {} with
    ⟨m, read, gap, c', w, hreads, hat, htext, hafter⟩
  have hrestw : (c.after text).rest = '\n' :: [] ++ (spaces k ++ r) := Cursor.rest_after hrest
  have hgap := Gap.read?_breaks hrestw (by decide) hr indent (n := (c.after text).steps)
    (by rw [(hc.after hrest).steps_eq, hrestw]; simp [length_spaces]; omega) false {}
  have hcolumn : ((c.after text).after ('\n' :: [] ++ spaces k)).column = k :=
    Cursor.column_after_lines_spaces _ rfl k
  have hend : ((c.after text).after ('\n' :: [] ++ spaces k)).rest = r := by
    refine Cursor.rest_after ?_
    rw [hrestw, List.append_assoc]
  have hplace : c.after (text ++ '\n' :: spaces k) =
      (c.after text).after ('\n' :: [] ++ spaces k) := Cursor.after_append c text _
  have hspaced : (!Option.any isSpacing ('\n' :: (spaces k ++ r)).head?) = false := rfl
  rw [plain, hreads, hat.plainWords_eq, htext, hafter, hgap, hplace]
  simp only [hcolumn, hspaced, Bool.false_eq_true, if_false]
  split
  · rfl
  · rename_i hlast
    -- behind the last line there is no further word
    have hnil : r = [] := by
      rcases hk with hk | hk
      · omega
      · exact hk
    rw [hnil] at hend
    cases m with
    | zero => rfl
    | succ m =>
        rw [plainWords, Cursor.atDocumentMarker_nil hend]
        simp only [Cursor.headIs, hend]
        rfl

end Scalar

end OperatorBundle.Yaml
