import Mathlib.Data.List.ReduceOption
import OperatorBundle.Proofs.Outcome
import OperatorBundle.Yaml.Token.Scan

/-!
# How the tokens of a text grow

Tokens are put in front of others only where a key may begin.  The tokens before all such places
stay what they are, whatever is read behind them.
-/

namespace OperatorBundle.Yaml.Scanner

variable {c : Cursor} {s s' t : Scanner} {k : Nat}

/-- The tokens that may turn out to begin keys. -/
def pending (s : Scanner) : List PendingKey := (s.key :: s.outerKeys).reduceOption

/-- A key is pending on this level or on an outer one. -/
theorem mem_pending {p : PendingKey} :
    p ∈ s.pending ↔ s.key = some p ∨ some p ∈ s.outerKeys := by
  rw [pending, List.reduceOption_mem_iff, List.mem_cons, eq_comm]

/-- Do the first `k` tokens stay what they are? -/
structure Fixed (k : Nat) (s : Scanner) : Prop where
  counted : s.count = s.emitted.length
  enough : k ≤ s.count
  before : ∀ p ∈ s.pending, k ≤ p.before

/-- Does one scanner come from another by reading a token at the place `c`? -/
structure Grows (c : Cursor) (s s' : Scanner) : Prop where
  keeps : ∀ k, s.Fixed k → s'.Fixed k ∧ s'.emitted.reverse.take k = s.emitted.reverse.take k
  keys : ∀ p ∈ s'.pending, p ∈ s.pending ∨ p.line = c.line ∧ p.column = c.column

namespace Grows

/-- What grows from one scanner to the next grows over both. -/
theorem trans (h : Grows c s t) (h' : Grows c t s') : Grows c s s' where
  keeps k hk := by
    obtain ⟨hfixed, htake⟩ := h.keeps k hk
    obtain ⟨hfixed', htake'⟩ := h'.keeps k hfixed
    exact ⟨hfixed', htake'.trans htake⟩
  keys p hp := (h'.keys p hp).elim (h.keys p) .inr

/-- Keys are given up. -/
theorem fewer (hemitted : s'.emitted = s.emitted) (hcount : s'.count = s.count)
    (hpending : ∀ p ∈ s'.pending, p ∈ s.pending) : Grows c s s' where
  keeps k hk := by
    refine ⟨⟨?_, ?_, fun p hp => hk.before p (hpending p hp)⟩, by rw [hemitted]⟩
    · rw [hcount, hemitted, hk.counted]
    · rw [hcount]
      exact hk.enough
  keys p hp := .inl (hpending p hp)

/-- Nothing changes that matters for tokens. -/
theorem same (hemitted : s'.emitted = s.emitted) (hcount : s'.count = s.count)
    (hkey : s'.key = s.key) (houter : s'.outerKeys = s.outerKeys) : Grows c s s' :=
  .fewer hemitted hcount fun p hp => by
    rw [mem_pending, hkey, houter] at hp
    exact mem_pending.mpr hp

/-- A token is put in front of others only where a key may begin. -/
theorem insert {n : Nat} (hn : s.count ≤ n ∨ ∃ p ∈ s.pending, n = p.before) (token : Token) :
    Grows c s (s.emitAt n token) where
  keeps k hk := by
    have hkn : k ≤ n := by
      obtain hn | ⟨p, hp, rfl⟩ := hn
      · exact Nat.le_trans hk.enough hn
      · exact hk.before p hp
    have hcounted := hk.counted
    have henough := hk.enough
    refine ⟨⟨?_, Nat.le_succ_of_le henough, hk.before⟩, ?_⟩
    · show s.count + 1 =
        (s.emitted.take (s.count - n) ++ token :: s.emitted.drop (s.count - n)).length
      rw [List.length_append, List.length_cons, List.length_take, List.length_drop]
      omega
    · show
        (s.emitted.take (s.count - n) ++ token :: s.emitted.drop (s.count - n)).reverse.take k = _
      have hlength : k ≤ (s.emitted.drop (s.count - n)).reverse.length := by
        rw [List.length_reverse, List.length_drop]
        omega
      rw [List.reverse_append, List.reverse_cons, List.append_assoc,
        List.take_append_of_le_length hlength]
      conv_rhs => rw [← List.take_append_drop (s.count - n) s.emitted, List.reverse_append,
        List.take_append_of_le_length hlength]
  keys _ hp := .inl hp

/-- A token that is emitted comes behind all others. -/
theorem emit (s : Scanner) (token : Token) : Grows c s (s.emit token) where
  keeps k hk := by
    refine ⟨⟨congrArg (· + 1) hk.counted, Nat.le_succ_of_le hk.enough, hk.before⟩, ?_⟩
    have hlength : k ≤ s.emitted.reverse.length := by
      rw [List.length_reverse, ← hk.counted]
      exact hk.enough
    show (token :: s.emitted).reverse.take k = _
    rw [List.reverse_cons, List.take_append_of_le_length hlength]
  keys _ hp := .inl hp

/-- A token that is taken from the text comes behind all others. -/
theorem take (s : Scanner) (n : Nat) (token : Token) : Grows c s (s.take n token) :=
  (emit s token).trans (.same rfl rfl rfl rfl)

end Grows

/-! ## Keys -/

/-- A key that is dropped is gone. -/
theorem dropKey_eq {key key' : Option PendingKey} (h : dropKey key = .ok key') : key' = none := by
  unfold dropKey at h
  split at h
  · split at h
    · cases h
    · cases h
      rfl
  · cases h
    rfl

/-- To forget a key changes nothing else. -/
theorem forgetKey_eq (h : s.forgetKey = .ok s') : s' = { s with key := none } := by
  obtain ⟨key, hkey, h⟩ := bind_eq_ok_iff.mp h
  cases h
  rw [dropKey_eq hkey]

/-- No tokens are lost when a key is forgotten. -/
theorem grows_forgetKey (h : s.forgetKey = .ok s') : Grows c s s' := by
  rw [forgetKey_eq h]
  exact .fewer rfl rfl fun p hp => mem_pending.mpr ((mem_pending.mp hp).elim nofun .inr)

/-- A key that is noted is the next token. -/
theorem grows_noteKey (h : s.noteKey = .ok s') : Grows s.cursor s s' := by
  unfold noteKey at h
  split at h
  · cases h
    exact .same rfl rfl rfl rfl
  · obtain ⟨t, hforget, h⟩ := bind_eq_ok_iff.mp h
    cases h
    have ht := forgetKey_eq hforget
    subst ht
    refine (grows_forgetKey hforget).trans ⟨fun k hk => ⟨⟨hk.counted, hk.enough, ?_⟩, rfl⟩, ?_⟩
    · intro p hp
      obtain hkey | houter := mem_pending.mp hp
      · cases hkey
        exact hk.enough
      · exact hk.before p (mem_pending.mpr (.inr houter))
    · intro p hp
      obtain hkey | houter := mem_pending.mp hp
      · cases hkey
        exact .inr ⟨rfl, rfl⟩
      · exact .inl (mem_pending.mpr (.inr houter))

/-- What is left of a pending key where it may end too late. -/
def fresh (c : Cursor) (key : Option PendingKey) : Option PendingKey :=
  if key.any (PendingKey.isStale · c) then none else key

/-- A key stays fresh only if it is not stale. -/
theorem mem_fresh {key : Option PendingKey} {p : PendingKey} (h : fresh c key = some p) :
    key = some p ∧ p.isStale c = false := by
  unfold fresh at h
  split at h
  · cases h
  · rename_i hstale
    subst h
    exact ⟨rfl, Bool.eq_false_iff.mpr hstale⟩

/-- To drop stale keys changes nothing else. -/
theorem dropStaleKeys_eq (h : s.dropStaleKeys = .ok s') :
    s' = { s with
      key := fresh s.cursor s.key
      outerKeys := s.outerKeys.map (fresh s.cursor) } := by
  have hdrop : ∀ key key' : Option PendingKey,
      (if key.any (PendingKey.isStale · s.cursor) then dropKey key else .ok key) = .ok key' →
      key' = fresh s.cursor key := by
    intro key key' h
    unfold fresh
    split at h
    · rename_i hstale
      rw [if_pos hstale, dropKey_eq h]
    · rename_i hstale
      cases h
      rw [if_neg hstale]
  obtain ⟨key, hkey, h⟩ := bind_eq_ok_iff.mp h
  obtain ⟨outer, houter, h⟩ := bind_eq_ok_iff.mp h
  cases h
  rw [hdrop _ _ hkey, eq_map_of_mapM hdrop houter]

/-- The keys that are left are none that end too late. -/
theorem mem_pending_dropStaleKeys (h : s.dropStaleKeys = .ok s') {p : PendingKey}
    (hp : p ∈ s'.pending) : p ∈ s.pending ∧ p.isStale s.cursor = false := by
  rw [dropStaleKeys_eq h] at hp
  obtain hkey | houter := mem_pending.mp hp
  · obtain ⟨hkey, hstale⟩ := mem_fresh hkey
    exact ⟨mem_pending.mpr (.inl hkey), hstale⟩
  · obtain ⟨key, hmem, hkey⟩ := List.mem_map.mp houter
    obtain ⟨rfl, hstale⟩ := mem_fresh hkey
    exact ⟨mem_pending.mpr (.inr hmem), hstale⟩

/-- No tokens are lost when stale keys are dropped. -/
theorem grows_dropStaleKeys (h : s.dropStaleKeys = .ok s') : Grows c s s' := by
  have hkeys := fun p hp => (mem_pending_dropStaleKeys h (p := p) hp).1
  refine .fewer ?_ ?_ hkeys
  · rw [dropStaleKeys_eq h]
  · rw [dropStaleKeys_eq h]

/-! ## Indentation -/

/-- Blocks that are closed add their ends. -/
theorem grows_closeBlocks (closes : Nat → Bool) (blocks : List Nat) (s : Scanner) :
    Grows c s (closeBlocks closes blocks s) := by
  induction blocks generalizing s with
  | nil => exact .same rfl rfl rfl rfl
  | cons column outer ih =>
      rw [closeBlocks]
      split
      · exact (Grows.emit s .blockEnd).trans (ih _)
      · exact .same rfl rfl rfl rfl

/-- Blocks that end here add their ends. -/
theorem grows_unindent (s : Scanner) : Grows c s s.unindent := by
  unfold unindent
  split
  · exact .same rfl rfl rfl rfl
  · exact grows_closeBlocks _ _ s

/-- All blocks add their ends at the end. -/
theorem grows_closeAll (s : Scanner) : Grows c s s.closeAll := by
  unfold closeAll
  split
  · exact .same rfl rfl rfl rfl
  · exact grows_closeBlocks _ _ s

/-- The start of a block comes behind all tokens, or in front of a pending key. -/
theorem grows_indent {n : Nat} (hn : s.count ≤ n ∨ ∃ p ∈ s.pending, n = p.before) (column : Nat)
    (token : Token) : Grows c s (s.indent column n token) := by
  unfold indent
  split
  · exact .same rfl rfl rfl rfl
  · exact (Grows.insert hn token).trans (.same rfl rfl rfl rfl)

/-! ## Tokens -/

/-- The end of the stream comes behind all tokens. -/
theorem grows_streamEnd (h : s.streamEnd = .ok s') : Grows c s s' := by
  obtain ⟨t, hforget, h⟩ := bind_eq_ok_iff.mp h
  cases h
  exact (grows_closeAll s).trans <| (grows_forgetKey hforget).trans <|
    (Grows.emit t _).trans (.same rfl rfl rfl rfl)

theorem grows_directive (h : s.directive = .ok s') : Grows c s s' := by
  obtain ⟨t, hforget, h⟩ := bind_eq_ok_iff.mp h
  obtain ⟨⟨token, last⟩, -, h⟩ := bind_eq_ok_iff.mp h
  cases h
  exact (grows_closeAll s).trans <| (grows_forgetKey hforget).trans <|
    (Grows.emit t token).trans (.same rfl rfl rfl rfl)

/-- The mark of a document comes behind all tokens. -/
theorem grows_documentMarker {token : Token} (h : s.documentMarker token = .ok s') :
    Grows c s s' := by
  obtain ⟨t, hforget, h⟩ := bind_eq_ok_iff.mp h
  cases h
  exact (grows_closeAll s).trans <| (grows_forgetKey hforget).trans <|
    (Grows.take t 3 token).trans (.same rfl rfl rfl rfl)

theorem grows_openFlow {token : Token} (h : s.openFlow token = .ok s') : Grows s.cursor s s' := by
  obtain ⟨t, hnote, h⟩ := bind_eq_ok_iff.mp h
  cases h
  refine (grows_noteKey hnote).trans <| (Grows.take t 1 token).trans <|
    .fewer rfl rfl fun p hp => ?_
  obtain hkey | houter := mem_pending.mp hp
  · cases hkey
  · obtain hkey | houter := List.mem_cons.mp houter
    · exact mem_pending.mpr (.inl hkey.symm)
    · exact mem_pending.mpr (.inr houter)

theorem grows_closeFlow {token : Token} (h : s.closeFlow token = .ok s') : Grows c s s' := by
  obtain ⟨t, hforget, h⟩ := bind_eq_ok_iff.mp h
  cases h
  refine (grows_forgetKey hforget).trans <| (Grows.take t 1 token).trans ?_
  cases houter : t.outerKeys with
  | nil => exact .same rfl rfl rfl rfl
  | cons key outer =>
      refine .fewer rfl rfl fun p hp => ?_
      refine mem_pending.mpr (.inr (houter.symm ▸ List.mem_cons.mpr ?_))
      exact (mem_pending.mp hp).imp Eq.symm id

theorem grows_flowEntry (h : s.flowEntry = .ok s') : Grows c s s' := by
  obtain ⟨t, hforget, h⟩ := bind_eq_ok_iff.mp h
  cases h
  exact (grows_forgetKey hforget).trans <| (Grows.take t 1 _).trans (.same rfl rfl rfl rfl)

theorem grows_blockEntry (h : s.blockEntry = .ok s') : Grows c s s' := by
  unfold blockEntry at h
  split at h
  · cases h
  · obtain ⟨t, hforget, h⟩ := bind_eq_ok_iff.mp h
    cases h
    exact (grows_indent (.inl (Nat.le_refl _)) _ _).trans <| (grows_forgetKey hforget).trans <|
      (Grows.take t 1 _).trans (.same rfl rfl rfl rfl)

theorem grows_explicitKey (h : s.explicitKey = .ok s') : Grows c s s' := by
  unfold explicitKey at h
  split at h
  · cases h
  · obtain ⟨t, hforget, h⟩ := bind_eq_ok_iff.mp h
    cases h
    exact (grows_indent (.inl (Nat.le_refl _)) _ _).trans <| (grows_forgetKey hforget).trans <|
      (Grows.take t 1 _).trans (.same rfl rfl rfl rfl)

/-- Where a pending key proves to be one, tokens are put in front of it and not before. -/
theorem grows_mappingValue (h : s.mappingValue = .ok s') : Grows c s s' := by
  unfold mappingValue at h
  split at h
  · rename_i key hkey
    cases h
    have hpending : key ∈ s.pending := mem_pending.mpr (.inl hkey)
    refine (Grows.insert (.inr ⟨key, hpending, rfl⟩) .key).trans <|
      (grows_indent (s := s.emitAt key.before .key) (.inr ⟨key, hpending, rfl⟩) _ _).trans <|
        (Grows.take _ 1 .value).trans <| .fewer rfl rfl fun p hp => ?_
    exact mem_pending.mpr ((mem_pending.mp hp).elim nofun .inr)
  · split at h
    · cases h
    · cases h
      exact (grows_indent (.inl (Nat.le_refl _)) _ _).trans <|
        (Grows.take _ 1 _).trans (.same rfl rfl rfl rfl)

theorem grows_anchor {make : List Char → Token} (h : s.anchor make = .ok s') :
    Grows s.cursor s s' := by
  obtain ⟨t, hnote, h⟩ := bind_eq_ok_iff.mp h
  obtain ⟨⟨name, last⟩, -, h⟩ := bind_eq_ok_iff.mp h
  cases h
  exact (grows_noteKey hnote).trans <| (Grows.emit t _).trans (.same rfl rfl rfl rfl)

theorem grows_tag (h : s.tag = .ok s') : Grows s.cursor s s' := by
  obtain ⟨t, hnote, h⟩ := bind_eq_ok_iff.mp h
  obtain ⟨⟨token, last⟩, -, h⟩ := bind_eq_ok_iff.mp h
  cases h
  exact (grows_noteKey hnote).trans <| (Grows.emit t _).trans (.same rfl rfl rfl rfl)

theorem grows_blockScalar {folds : Bool} (h : s.blockScalar folds = .ok s') :
    Grows c s s' := by
  obtain ⟨t, hforget, h⟩ := bind_eq_ok_iff.mp h
  obtain ⟨⟨text, last⟩, -, h⟩ := bind_eq_ok_iff.mp h
  cases h
  exact (grows_forgetKey hforget).trans <| (Grows.emit t _).trans (.same rfl rfl rfl rfl)

theorem grows_quotedScalar {double : Bool} (h : s.quotedScalar double = .ok s') :
    Grows s.cursor s s' := by
  obtain ⟨t, hnote, h⟩ := bind_eq_ok_iff.mp h
  obtain ⟨⟨text, last⟩, -, h⟩ := bind_eq_ok_iff.mp h
  cases h
  exact (grows_noteKey hnote).trans <| (Grows.emit t _).trans (.same rfl rfl rfl rfl)

theorem grows_plainScalar (h : s.plainScalar = .ok s') : Grows s.cursor s s' := by
  obtain ⟨t, hnote, h⟩ := bind_eq_ok_iff.mp h
  obtain ⟨⟨text, broken, last⟩, -, h⟩ := bind_eq_ok_iff.mp h
  cases h
  exact (grows_noteKey hnote).trans <| (Grows.emit t _).trans (.same rfl rfl rfl rfl)

/-! ## Steps -/

/-- What reads a token that begins with `x`, which is no bracket, comma, quote or property. -/
def wordReader (inFlow : Bool) (x : Char) (r : List Char) : Scanner → Except Defect Scanner :=
  if x == '-' && atWordEnd r then blockEntry
  else if x == '?' && (inFlow || atWordEnd r) then explicitKey
  else if x == ':' && (inFlow || atWordEnd r) then mappingValue
  else if x == '|' && !inFlow then (blockScalar · false)
  else if x == '>' && !inFlow then (blockScalar · true)
  else if startsPlain inFlow x r then plainScalar
  else fun _ => .error .token

/-- What reads a token that begins with `x`. -/
def tokenReader (inFlow : Bool) (x : Char) (r : List Char) : Scanner → Except Defect Scanner :=
  match x with
  | '[' => (openFlow · .flowSequenceStart)
  | '{' => (openFlow · .flowMappingStart)
  | ']' => (closeFlow · .flowSequenceEnd)
  | '}' => (closeFlow · .flowMappingEnd)
  | ',' => flowEntry
  | '*' => (anchor · .reference)
  | '&' => (anchor · .anchor)
  | '!' => tag
  | '\'' => (quotedScalar · false)
  | '"' => (quotedScalar · true)
  | _ => wordReader inFlow x r

@[simp] theorem cursor_closeBlocks (closes : Nat → Bool) (blocks : List Nat) (s : Scanner) :
    (closeBlocks closes blocks s).cursor = s.cursor := by
  induction blocks generalizing s with
  | nil => rfl
  | cons column outer ih =>
      rw [closeBlocks]
      split
      · exact ih (s.emit .blockEnd)
      · rfl

@[simp] theorem cursor_unindent (s : Scanner) : s.unindent.cursor = s.cursor := by
  unfold unindent
  split
  · rfl
  · exact cursor_closeBlocks _ _ s

/-- At the end of the text the stream ends. -/
theorem fetch_nil (hrest : s.cursor.rest = []) : s.fetch = s.unindent.streamEnd := by
  unfold fetch
  simp only [cursor_unindent, hrest]

/-- What is fetched depends on where the cursor stands and on the next character. -/
theorem fetch_cons {x : Char} {r : List Char} (hrest : s.cursor.rest = x :: r) :
    s.fetch =
      if s.cursor.column == 0 && x == '%' then s.unindent.directive
      else if s.cursor.atMarker '-' then s.unindent.documentMarker .documentStart
      else if s.cursor.atMarker '.' then s.unindent.documentMarker .documentEnd
      else tokenReader s.unindent.inFlow x r s.unindent := by
  unfold fetch
  simp only [cursor_unindent, hrest]
  congr 3
  split
  all_goals try rfl
  -- no other character has a reader of its own
  have hword : ∀ inFlow, tokenReader inFlow x r = wordReader inFlow x r := by
    intro inFlow
    unfold tokenReader
    split
    all_goals first
      | contradiction
      | rfl
  rw [hword]
  unfold wordReader
  split_ifs <;> rfl

/-- Every reader of words adds tokens behind all others. -/
theorem grows_wordReader {inFlow : Bool} {x : Char} {r : List Char}
    (h : wordReader inFlow x r s = .ok s') : Grows s.cursor s s' := by
  unfold wordReader at h
  split_ifs at h
  · exact grows_blockEntry h
  · exact grows_explicitKey h
  · exact grows_mappingValue h
  · exact grows_blockScalar h
  · exact grows_blockScalar h
  · exact grows_plainScalar h

/-- Every reader of tokens leaves those that are certain. -/
theorem grows_tokenReader {inFlow : Bool} {x : Char} {r : List Char}
    (h : tokenReader inFlow x r s = .ok s') : Grows s.cursor s s' := by
  unfold tokenReader at h
  split at h
  · exact grows_openFlow h
  · exact grows_openFlow h
  · exact grows_closeFlow h
  · exact grows_closeFlow h
  · exact grows_flowEntry h
  · exact grows_anchor h
  · exact grows_anchor h
  · exact grows_tag h
  · exact grows_quotedScalar h
  · exact grows_quotedScalar h
  · exact grows_wordReader h

/-- A token that is fetched leaves those that are certain. -/
theorem grows_fetch (h : s.fetch = .ok s') : Grows s.cursor s s' := by
  refine (grows_unindent s).trans ?_
  cases hrest : s.cursor.rest with
  | nil =>
      rw [fetch_nil hrest] at h
      exact grows_streamEnd h
  | cons x r =>
      rw [fetch_cons hrest] at h
      split at h
      · exact grows_directive h
      · split at h
        · exact grows_documentMarker h
        · split at h
          · exact grows_documentMarker h
          · rw [← cursor_unindent s]
            exact grows_tokenReader h

/-- May this character stand in front of a token? -/
def isSpace (s : Scanner) (x : Char) : Bool :=
  x == ' ' || ((s.inFlow || !s.keyAllowed) && x == '\t')

/-- The place behind the mark that may open a line. -/
def behindMark (s : Scanner) : Cursor :=
  if s.cursor.column == 0 && s.cursor.headIs byteOrderMark then s.cursor.advance 1 else s.cursor

/-- The place behind the space and the comment that follow on the line of a scanner. -/
def behindSpace (s : Scanner) : Cursor := (s.behindMark.span s.isSpace).2.skipComment

/-- Space, comments and line breaks in front of a token are passed. -/
theorem toToken_succ (n : Nat) (s : Scanner) :
    toToken (n + 1) s =
      if s.behindSpace.rest.head?.any isBreak then
        toToken n { s with
          cursor := s.behindSpace.newline
          keyAllowed := s.keyAllowed || !s.inFlow }
      else { s with cursor := s.behindSpace } := rfl

/-- On the way to a token only the cursor moves, and keys may become allowed. -/
theorem exists_toToken_eq (n : Nat) (s : Scanner) :
    ∃ c allowed, toToken n s = { s with cursor := c, keyAllowed := allowed } := by
  induction n generalizing s with
  | zero => exact ⟨s.cursor, s.keyAllowed, rfl⟩
  | succ n ih =>
      rw [toToken_succ]
      split
      · exact ih _
      · exact ⟨_, _, rfl⟩

/-- A step gives up keys before and behind the space in front of a token. -/
theorem step_eq_ok_iff :
    s.step = .ok s' ↔ ∃ t u, s.dropStaleKeys = .ok t ∧
      (toToken t.cursor.steps t).dropStaleKeys = .ok u ∧ u.fetch = .ok s' := by
  unfold step
  rw [bind_eq_ok_iff]
  simp only [bind_eq_ok_iff, exists_and_left]

/-- On the way to a token none is lost. -/
theorem grows_toToken (n : Nat) (s : Scanner) : Grows c s (toToken n s) := by
  obtain ⟨last, allowed, heq⟩ := exists_toToken_eq n s
  rw [heq]
  exact .same rfl rfl rfl rfl

/-! ## Tokens that are certain -/

/-- The certain tokens are those in front of all pending keys. -/
theorem le_certain_iff : k ≤ s.certain ↔ k ≤ s.count ∧ ∀ p ∈ s.pending, k ≤ p.before := by
  unfold certain pending
  generalize s.key :: s.outerKeys = keys
  generalize s.count = count
  induction keys generalizing count with
  | nil => simp
  | cons key keys ih =>
      rw [List.foldl_cons, ih]
      cases key with
      | none => simp
      | some p =>
          rw [List.reduceOption_cons_of_some, List.forall_mem_cons, ← and_assoc, ← Nat.le_min]
          exact Iff.rfl

/-- The certain tokens are fixed. -/
theorem fixed_certain (hcounted : s.count = s.emitted.length) : s.Fixed s.certain := by
  obtain ⟨henough, hbefore⟩ := le_certain_iff.mp (Nat.le_refl s.certain)
  exact ⟨hcounted, henough, hbefore⟩

/-- A scanner as it is found when a step begins: without the keys that end too late. -/
def known (s : Scanner) : Scanner := s.dropStaleKeys.toOption.getD s

theorem grows_known (s : Scanner) : Grows c s s.known := by
  unfold known
  cases hdrop : s.dropStaleKeys with
  | error defect => exact .same rfl rfl rfl rfl
  | ok t => exact grows_dropStaleKeys hdrop

/-- A step leaves the certain tokens. -/
theorem grows_step (h : s.step = .ok s') : ∃ c, Grows c s.known s' := by
  obtain ⟨t, u, ht, hu, hfetch⟩ := step_eq_ok_iff.mp h
  have hknown : s.known = t := by
    unfold known
    rw [ht]
    rfl
  rw [hknown]
  exact ⟨u.cursor, (grows_toToken _ t).trans ((grows_dropStaleKeys hu).trans (grows_fetch hfetch))⟩

/-- Tokens are known before they are emitted and after. -/
theorem emitted_known (s : Scanner) : s.known.emitted = s.emitted := by
  unfold known
  cases hdrop : s.dropStaleKeys with
  | error defect => rfl
  | ok t =>
      rw [dropStaleKeys_eq hdrop]
      rfl

/-- The first tokens stay what they are to the end. -/
theorem take_prefix_run (hfixed : s.known.Fixed k) (n : Nat) :
    s.emitted.reverse.take k <+: (run n s).tokens := by
  induction n generalizing s with
  | zero => exact List.take_prefix _ _
  | succ n ih =>
      rw [run]
      cases hstep : s.step with
      | error defect =>
          have hcertain := le_certain_iff.mpr ⟨hfixed.enough, hfixed.before⟩
          exact List.take_prefix_take_left hcertain
      | ok s' =>
          obtain ⟨c, hgrows⟩ := grows_step hstep
          obtain ⟨hfixed', htake⟩ := hgrows.keeps k hfixed
          rw [← emitted_known, ← htake]
          dsimp only
          split
          · exact List.take_prefix _ _
          · exact ih ((grows_known (c := c) s').keeps k hfixed').1

end OperatorBundle.Yaml.Scanner
