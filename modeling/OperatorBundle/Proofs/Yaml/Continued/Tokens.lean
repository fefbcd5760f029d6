import OperatorBundle.Proofs.Yaml.Node.OfTokens

/-!
# Documents in streams that go on

Where one stream of tokens ends, or is broken off by a defect, another may go on, with the start of
a further document in the place of the end.  The first document of the one is the first document of
the other.
-/

namespace OperatorBundle.Yaml

/-- Does a sequence of tokens go on where another ends? -/
inductive Continues : List Token → List Token → Prop where
  /-- The first is broken off. -/
  | nil (ts : List Token) : Continues [] ts
  /-- The first ends, and a document of the second starts. -/
  | close (ts : List Token) : Continues [.streamEnd] (.documentStart :: ts)
  | cons (t : Token) {ts ts' : List Token} (h : Continues ts ts') : Continues (t :: ts) (t :: ts')

namespace Continues

variable {ts ts' : List Token}

/-- Tokens that are continued are no fewer. -/
theorem length_le (h : Continues ts ts') : ts.length ≤ ts'.length := by
  induction h with
  | nil ts => exact Nat.zero_le _
  | close ts => exact Nat.succ_le_succ (Nat.zero_le _)
  | cons t _ ih => exact Nat.succ_le_succ ih

/-- Tokens are continued behind the same tokens. -/
theorem append (lead : List Token) (h : Continues ts ts') :
    Continues (lead ++ ts) (lead ++ ts') := by
  induction lead with
  | nil => exact h
  | cons t lead ih => exact .cons t ih

/-- Tokens are continued by those behind them. -/
theorem of_isPrefix (h : ts <+: ts') : Continues ts ts' := by
  obtain ⟨behind, rfl⟩ := h
  have hnil := append ts (.nil behind)
  rwa [List.append_nil] at hnil

/-- Tokens are continued behind as many tokens. -/
theorem drop (h : Continues ts ts') (n : Nat) : Continues (ts.drop n) (ts'.drop n) := by
  induction n generalizing ts ts' with
  | zero => exact h
  | succ n ih =>
      cases h with
      | nil ts =>
          rw [List.drop_nil]
          exact .nil _
      | close ts =>
          rw [List.drop_succ_cons, List.drop_nil]
          exact .nil _
      | cons t h => exact ih h

end Continues

namespace TokenReader

/-! ## Readers -/

/-- What a reader takes from a stream, does another take it from every stream that goes on? -/
def Stable {α : Type} (r r' : TokenReader α) : Prop :=
  ∀ stream stream' : TokenStream, Continues stream.tokens stream'.tokens →
    ∀ a rest, r.run stream = .ok (a, rest) →
      ∃ rest', r'.run stream' = .ok (a, rest') ∧ Continues rest.tokens rest'.tokens

namespace Stable

variable {α β : Type} {t : Token}

/-- A reader that takes nothing is stable. -/
theorem pure (a : α) : Stable (pure a) (pure a) := by
  intro stream stream' hstream b rest h
  have hread : (Except.ok (a, stream) : Except Defect (α × TokenStream)) = .ok (b, rest) := h
  cases hread
  exact ⟨stream', rfl, hstream⟩

/-- A reader that fails is stable. -/
theorem throw (defect : Defect) (r' : TokenReader α) : Stable (throw defect) r' := by
  intro stream stream' hstream b rest h
  cases h

/-- One stable reader after the other is stable. -/
theorem bind {r r' : TokenReader α} {next next' : α → TokenReader β} (h : Stable r r')
    (hnext : ∀ a, Stable (next a) (next' a)) : Stable (r >>= next) (r' >>= next') := by
  intro stream stream' hstream b rest hrun
  obtain ⟨a, behind, ha, hb⟩ := run_bind_eq_ok_iff.mp hrun
  obtain ⟨behind', ha', hbehind⟩ := h stream stream' hstream a behind ha
  obtain ⟨rest', hb', hrest⟩ := hnext a behind behind' hbehind b rest hb
  exact ⟨rest', (run_bind_ok ha').trans hb', hrest⟩

/-- A choice that is the same in both streams. -/
theorem ite {p : Prop} [Decidable p] {yes yes' no no' : TokenReader α} (hyes : Stable yes yes')
    (hno : Stable no no') : Stable (if p then yes else no) (if p then yes' else no') := by
  by_cases hp : p
  · rw [if_pos hp, if_pos hp]
    exact hyes
  · rw [if_neg hp, if_neg hp]
    exact hno

theorem advance : Stable advance advance := by
  intro stream stream' hstream a rest h
  cases h
  exact ⟨_, rfl, hstream.drop 1⟩

/-- What comes next is the same in both streams, or the end of one and a further document of the
other. -/
theorem peek {next next' : Token → TokenReader α} (hsame : ∀ t, Stable (next t) (next' t))
    (hclose : Stable (next .streamEnd) (next' .documentStart)) :
    Stable (peek >>= next) (TokenReader.peek >>= next') := by
  rintro ⟨ts, defect⟩ ⟨ts', defect'⟩ hstream a rest h
  cases hstream with
  | nil => cases h
  | close ts' => exact hclose ⟨[.streamEnd], defect⟩ ⟨_, defect'⟩ (.close ts') a rest h
  | cons t hstream => exact hsame t ⟨_, defect⟩ ⟨_, defect'⟩ (.cons t hstream) a rest h

/-- To take a token is stable if it is not one of those at which texts differ. -/
theorem takes (hend : (.streamEnd == t) = false) (hstart : (.documentStart == t) = false) :
    Stable (takes t) (TokenReader.takes t) := by
  refine peek (fun t' => .ite (.bind .advance fun _ => .pure true) (.pure false)) ?_
  rw [hend, hstart]
  exact .pure false

/-- To expect a token is stable if it is not the end of the stream. -/
theorem expect (hend : (Token.streamEnd == t) = false) :
    Stable (expect t) (TokenReader.expect t) := by
  unfold TokenReader.expect TokenReader.takes
  rw [bind_assoc]
  refine peek (fun u => ?_) ?_
  · exact .bind (.ite (.bind .advance fun _ => .pure true) (.pure false)) fun taken =>
      .ite (.throw _ _) (.pure ())
  · rw [hend]
    exact .throw .arrangement _

end Stable

/-! ## Properties -/

theorem stable_fullTag (handles : Handles) (handle : List Char) (suffix : TagText) :
    Stable (fullTag handles handle suffix) (fullTag handles handle suffix) := by
  refine .ite (.pure _) ?_
  cases handles.lookup handle with
  | none => exact .throw _ _
  | some stem => exact .pure _

theorem stable_anchor : Stable anchor anchor := by
  refine .peek (fun t => ?_) (.pure none)
  cases t with
  | anchor name => exact .bind .advance fun _ => .pure _
  | _ => exact .pure none

theorem stable_tag (handles : Handles) : Stable (tag handles) (tag handles) := by
  refine .peek (fun t => ?_) (.pure none)
  cases t with
  | tag handle suffix =>
      exact .bind .advance fun _ => .bind (stable_fullTag handles handle suffix) fun _ => .pure _
  | _ => exact .pure none

/-- Anchor and tag of a node are read alike. -/
theorem stable_properties (handles : Handles) :
    Stable (properties handles) (properties handles) := by
  refine .bind stable_anchor fun name => ?_
  cases name with
  | some name => exact .bind (stable_tag handles) fun _ => .pure _
  | none =>
      refine .bind (stable_tag handles) fun tag => ?_
      cases tag with
      | some tag => exact .bind stable_anchor fun _ => .pure _
      | none => exact .pure _

/-! ## Nodes -/

/-- Are nodes and their parts read alike, with `n` and `n'` nested calls at most? -/
structure StableNodes (handles : Handles) (n n' : Nat) : Prop where
  node (block bare : Bool) : Stable (node handles block bare n) (node handles block bare n')
  nodeBefore (block bare : Bool) (ends : List Token)
    (hends : ends.contains .streamEnd = ends.contains .documentStart) :
    Stable (nodeBefore handles block bare ends n) (nodeBefore handles block bare ends n')
  blockItems : Stable (blockItems handles n) (blockItems handles n')
  bareItems : Stable (bareItems handles n) (bareItems handles n')
  blockEntries : Stable (blockEntries handles n) (blockEntries handles n')
  flowItems (first : Bool) : Stable (flowItems handles first n) (flowItems handles first n')
  flowPair : Stable (flowPair handles n) (flowPair handles n')
  flowEntries (first : Bool) : Stable (flowEntries handles first n) (flowEntries handles first n')

section Nodes

variable {handles : Handles} {n n' : Nat}

/-- What is read of a node that is neither a scalar nor a flow collection, if it begins with the
token `t`. -/
def blockContent (handles : Handles) (block bare : Bool) (n : Nat)
    (properties : Properties AnchorName) (t : Token) : TokenReader (Node AnchorName) := do
  if bare && t == .blockEntry then
    return .sequence properties (← bareItems handles n)
  if block && t == .blockSequenceStart then
    advance
    return .sequence properties (← blockItems handles n)
  if block && t == .blockMappingStart then
    advance
    return .mapping properties (← blockEntries handles n)
  if properties.anchor.isSome || properties.tag.isSome then
    return .empty properties
  throw .arrangement

/-- The content of a node is read alike if its nodes are. -/
theorem stable_blockContent (h : StableNodes handles n n') (block bare : Bool)
    (properties : Properties AnchorName) (t : Token) :
    Stable (blockContent handles block bare n properties t)
      (blockContent handles block bare n' properties t) :=
  .ite (.bind h.bareItems fun _ => .pure _) <|
    .ite (.bind .advance fun _ => .bind h.blockItems fun _ => .pure _) <|
      .ite (.bind .advance fun _ => .bind h.blockEntries fun _ => .pure _) <|
        .ite (.pure _) (.throw _ _)

/-- A node behind its properties is read alike if its nodes are. -/
theorem stable_content (h : StableNodes handles n n') (block bare : Bool)
    (properties : Properties AnchorName) :
    Stable (content handles block bare n properties)
      (content handles block bare n' properties) := by
  refine .peek (fun t => ?_) ?_
  · cases t with
    | scalar text plain => exact .bind .advance fun _ => .pure _
    | flowSequenceStart => exact .bind .advance fun _ => .bind (h.flowItems true) fun _ => .pure _
    | flowMappingStart => exact .bind .advance fun _ => .bind (h.flowEntries true) fun _ => .pure _
    | _ => exact stable_blockContent h block bare properties _
  · -- neither the end of the stream nor the start of a document opens a collection
    have hother : blockContent handles block bare n' properties .streamEnd =
        blockContent handles block bare n' properties .documentStart := rfl
    show Stable (blockContent handles block bare n properties .streamEnd)
      (blockContent handles block bare n' properties .documentStart)
    rw [← hother]
    exact stable_blockContent h block bare properties .streamEnd

/-- A node is read alike with one more level of nodes. -/
theorem stable_node (h : StableNodes handles n n') (block bare : Bool) :
    Stable (node handles block bare (n + 1)) (node handles block bare (n' + 1)) := by
  rw [node_eq, node_eq]
  have hrest : Stable (do content handles block bare n (← properties handles))
      (do content handles block bare n' (← properties handles)) :=
    .bind (stable_properties handles) fun properties => stable_content h block bare properties
  refine .peek (fun t => ?_) hrest
  cases t with
  | reference name => exact .bind .advance fun _ => .pure _
  | _ => exact hrest

/-- A node that may be missing is read alike. -/
theorem stable_nodeBefore (h : StableNodes handles n n') (block bare : Bool) (ends : List Token)
    (hends : ends.contains .streamEnd = ends.contains .documentStart) :
    Stable (nodeBefore handles block bare ends (n + 1))
      (nodeBefore handles block bare ends (n' + 1)) := by
  refine .peek (fun t => .ite (.pure _) (h.node block bare)) ?_
  rw [hends]
  exact .ite (.pure _) (h.node block bare)

/-- The items of a block are read alike. -/
theorem stable_blockItems (h : StableNodes handles n n') :
    Stable (blockItems handles (n + 1)) (blockItems handles (n' + 1)) := by
  refine .bind (.takes rfl rfl) fun ended => .ite (.pure _) ?_
  refine .bind (.expect rfl) fun _ => .bind (h.nodeBefore true false _ rfl) fun item => ?_
  exact .bind h.blockItems fun _ => .pure _

/-- Items without an indentation of their own are read alike. -/
theorem stable_bareItems (h : StableNodes handles n n') :
    Stable (bareItems handles (n + 1)) (bareItems handles (n' + 1)) := by
  refine .bind (.takes rfl rfl) fun dash => .ite (.pure _) ?_
  refine .bind (h.nodeBefore true false _ rfl) fun item => ?_
  exact .bind h.bareItems fun _ => .pure _

/-- The value of an entry may be left out, with its colon or without. -/
theorem stable_value (h : StableNodes handles n n') {block bare : Bool} {ends : List Token}
    (hends : ends.contains .streamEnd = ends.contains .documentStart) {α : Type}
    {next next' : Node AnchorName → TokenReader α}
    (hnext : ∀ value, Stable (next value) (next' value)) :
    Stable
      (do if ← takes .value then nodeBefore handles block bare ends n >>= next
          else pure .empty >>= next)
      (do if ← takes .value then nodeBefore handles block bare ends n' >>= next'
          else pure .empty >>= next') :=
  .bind (.takes rfl rfl) fun _ =>
    .ite (.bind (h.nodeBefore block bare ends hends) hnext) (.bind (.pure _) hnext)

/-- The entries of a block are read alike. -/
theorem stable_blockEntries (h : StableNodes handles n n') :
    Stable (blockEntries handles (n + 1)) (blockEntries handles (n' + 1)) := by
  refine .bind (.takes rfl rfl) fun ended => .ite (.pure _) ?_
  refine .bind (.expect rfl) fun _ => .bind (h.nodeBefore true true _ rfl) fun key => ?_
  exact stable_value h rfl fun value => .bind h.blockEntries fun _ => .pure _

/-- The items of a flow sequence are read alike. -/
theorem stable_flowItems (h : StableNodes handles n n') (first : Bool) :
    Stable (flowItems handles first (n + 1)) (flowItems handles first (n' + 1)) := by
  have hbehind : ∀ item : Node AnchorName,
      Stable (return item :: (← flowItems handles false n))
        (return item :: (← flowItems handles false n')) :=
    fun item => .bind (h.flowItems false) fun _ => .pure _
  have hitem : Stable
      (do
        if ← takes .flowSequenceEnd then return []
        let item ← if ← takes .key then flowPair handles n else node handles false false n
        return item :: (← flowItems handles false n))
      (do
        if ← takes .flowSequenceEnd then return []
        let item ← if ← takes .key then flowPair handles n' else node handles false false n'
        return item :: (← flowItems handles false n')) := by
    refine .bind (.takes rfl rfl) fun ended => .ite (.pure _) ?_
    exact .bind (.takes rfl rfl) fun key =>
      .ite (.bind h.flowPair hbehind) (.bind (h.node false false) hbehind)
  refine .bind (.takes rfl rfl) fun ended => .ite (.pure _) ?_
  exact .ite (.bind (.expect rfl) fun _ => hitem) hitem

/-- A single pair in a flow sequence is read alike. -/
theorem stable_flowPair (h : StableNodes handles n n') :
    Stable (flowPair handles (n + 1)) (flowPair handles (n' + 1)) := by
  have hvalue : ∀ key : Node AnchorName, Stable
      (do
        let value ←
          if ← takes .value then nodeBefore handles false false [.flowEntry, .flowSequenceEnd] n
          else pure .empty
        return Node.mapping {} [(key, value)])
      (do
        let value ←
          if ← takes .value then nodeBefore handles false false [.flowEntry, .flowSequenceEnd] n'
          else pure .empty
        return Node.mapping {} [(key, value)]) :=
    fun key => stable_value h rfl fun value => .pure _
  have hkey : Stable (node handles false false n >>= _) (node handles false false n' >>= _) :=
    .bind (h.node false false) hvalue
  exact .peek (fun t => .ite (.bind .advance fun _ => .bind (.pure _) hvalue) hkey) hkey

/-- The entries of a flow mapping are read alike. -/
theorem stable_flowEntries (h : StableNodes handles n n') (first : Bool) :
    Stable (flowEntries handles first (n + 1)) (flowEntries handles first (n' + 1)) := by
  have hbehind : ∀ entry : Node AnchorName × Node AnchorName,
      Stable (return entry :: (← flowEntries handles false n))
        (return entry :: (← flowEntries handles false n')) :=
    fun entry => .bind (h.flowEntries false) fun _ => .pure _
  have hentry : Stable
      (do
        if ← takes .flowMappingEnd then return []
        let entry ←
          if ← takes .key then
            let key ← nodeBefore handles false false [.value, .flowEntry, .flowMappingEnd] n
            let value ←
              if ← takes .value then nodeBefore handles false false [.flowEntry, .flowMappingEnd] n
              else pure .empty
            pure (key, value)
          else
            pure (← node handles false false n, .empty)
        return entry :: (← flowEntries handles false n))
      (do
        if ← takes .flowMappingEnd then return []
        let entry ←
          if ← takes .key then
            let key ← nodeBefore handles false false [.value, .flowEntry, .flowMappingEnd] n'
            let value ←
              if ← takes .value then nodeBefore handles false false [.flowEntry, .flowMappingEnd] n'
              else pure .empty
            pure (key, value)
          else
            pure (← node handles false false n', .empty)
        return entry :: (← flowEntries handles false n')) := by
    refine .bind (.takes rfl rfl) fun ended => .ite (.pure _) ?_
    refine .bind (.takes rfl rfl) fun key => .ite ?_ ?_
    · refine .bind (h.nodeBefore false false _ rfl) fun key => ?_
      exact stable_value h rfl fun value => .bind (.pure _) hbehind
    · exact .bind (h.node false false) fun key => .bind (.pure _) hbehind
  refine .bind (.takes rfl rfl) fun ended => .ite (.pure _) ?_
  exact .ite (.bind (.expect rfl) fun _ => hentry) hentry

end Nodes

/-- However many nested calls more are allowed, the nodes stay the same. -/
theorem stableNodes (handles : Handles) {n n' : Nat} (hn : n ≤ n') : StableNodes handles n n' := by
  induction n generalizing n' with
  | zero =>
      exact ⟨fun _ _ => .throw _ _, fun _ _ _ _ => .throw _ _, .throw _ _, .throw _ _, .throw _ _,
        fun _ => .throw _ _, .throw _ _, fun _ => .throw _ _⟩
  | succ n ih =>
      obtain ⟨n', rfl⟩ := Nat.exists_eq_add_one.mpr (Nat.lt_of_lt_of_le (Nat.succ_pos n) hn)
      have h := ih (Nat.le_of_succ_le_succ hn)
      exact ⟨stable_node h, stable_nodeBefore h, stable_blockItems h, stable_bareItems h,
        stable_blockEntries h, stable_flowItems h, stable_flowPair h, stable_flowEntries h⟩

/-! ## Documents -/

/-- Directives are read alike. -/
theorem stable_directives {n n' : Nat} (hn : n ≤ n') (versioned : Bool) (handles : Handles) :
    Stable (directives n versioned handles) (directives n' versioned handles) := by
  induction n generalizing n' versioned handles with
  | zero => exact .throw _ _
  | succ n ih =>
      obtain ⟨n', rfl⟩ := Nat.exists_eq_add_one.mpr (Nat.lt_of_lt_of_le (Nat.succ_pos n) hn)
      have h := @ih n' (Nat.le_of_succ_le_succ hn)
      refine .peek (fun t => ?_) (.pure handles)
      cases t with
      | versionDirective major minor => exact .ite (.throw _ _) (.bind .advance fun _ => h _ _)
      | tagDirective handle stem => exact .ite (.throw _ _) (.bind .advance fun _ => h _ _)
      | _ => exact .pure handles

/-- What is read behind the node of a document. -/
def documentTail (content : Node AnchorName) : TokenReader (Option (Node AnchorName)) := do
  discard (takes .documentEnd)
  return some content

/-- A document that begins with directives or the line `---`. -/
def markedDocument (steps : Nat) : TokenReader (Option (Node AnchorName)) := do
  let handles ← directives steps false []
  expect .documentStart
  if isOutside (← peek) then documentTail .empty
  else node (handles ++ Handles.standard) true false steps >>= documentTail

/-- The document that begins with the token `t`. -/
def documentFrom (steps : Nat) (t : Token) : TokenReader (Option (Node AnchorName)) :=
  match t with
  | .streamEnd => pure none
  | .versionDirective .. | .tagDirective .. | .documentStart => markedDocument steps
  | _ => node Handles.standard true false steps >>= documentTail

/-- A document depends on its first token. -/
theorem document_eq (steps : Nat) : document steps = peek >>= documentFrom steps := rfl

/-- What follows the content of a document is read alike. -/
theorem stable_documentTail (content : Node AnchorName) :
    Stable (documentTail content) (documentTail content) :=
  .bind (.bind (.takes rfl rfl) fun _ => .pure _) fun _ => .pure _

/-- A document is read alike from its first token on. -/
theorem stable_documentFrom {n n' : Nat} (hn : n ≤ n') (t : Token) :
    Stable (documentFrom n t) (documentFrom n' t) := by
  have hnode : ∀ handles, Stable (node handles true false n >>= documentTail)
      (node handles true false n' >>= documentTail) :=
    fun handles => .bind ((stableNodes handles hn).node true false) stable_documentTail
  have hmarked : Stable (markedDocument n) (markedDocument n') := by
    refine .bind (stable_directives hn false []) fun handles => .bind (.expect rfl) fun _ => ?_
    exact .peek (fun t => .ite (stable_documentTail _) (hnode _)) (stable_documentTail _)
  cases t with
  | streamEnd => exact .pure none
  | versionDirective major minor => exact hmarked
  | tagDirective handle stem => exact hmarked
  | documentStart => exact hmarked
  | _ => exact hnode _

/-- A first document is also the first document of a stream that goes on. -/
theorem document_continues {stream stream' rest : TokenStream} {node : Node AnchorName}
    {n n' : Nat} (hstream : Continues stream.tokens stream'.tokens) (hn : n ≤ n')
    (h : (document n).run stream = .ok (some node, rest)) :
    ∃ rest', (document n').run stream' = .ok (some node, rest') := by
  rcases stream with ⟨ts, defect⟩
  rcases stream' with ⟨ts', defect'⟩
  rw [document_eq] at h ⊢
  cases hstream with
  | nil => cases h
  | close ts' => cases h
  | cons t hstream =>
      obtain ⟨rest', hread, -⟩ :=
        stable_documentFrom hn t ⟨_, defect⟩ ⟨_, defect'⟩ (.cons t hstream) _ _ h
      exact ⟨rest', hread⟩

end TokenReader

/-- The first document of a stream that goes on. -/
theorem Node.ofStreamStart_continues {stream stream' : TokenStream} {node : Node AnchorName}
    (hstream : Continues stream.tokens stream'.tokens)
    (h : Node.ofStreamStart stream = .ok (some node)) :
    Node.ofStreamStart stream' = .ok (some node) := by
  have hsteps : stream.steps ≤ stream'.steps := by
    have hlength := hstream.length_le
    unfold TokenStream.steps
    omega
  unfold Node.ofStreamStart at h ⊢
  obtain ⟨rest, hread⟩ := run'_eq_ok_iff.mp h
  exact run'_eq_ok_iff.mpr (TokenReader.document_continues hstream hsteps hread)

end OperatorBundle.Yaml
