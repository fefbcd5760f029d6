import OperatorBundle.Proofs.Yaml.Spelling
import OperatorBundle.Yaml.Node.Link

/-!
# The node of a value

The tokens of a value are taken for the node that has its shape, whatever tokens follow.
-/

namespace OperatorBundle.Yaml

open Layout (Place)

namespace Value

/-! ## Nodes -/

/-- The characters of a tag with its exclamation mark. -/
def tagText (name : String) : TagText := ('!' :: Layout.tagBody name).map some

variable {α : Type}

mutual

/-- The node of a value behind a tag. -/
def nodeOf (tag : Option TagText) : Value → Node α
  | null => .scalar { tag } "null".toList true
  | bool b => .scalar { tag } (if b then "true" else "false").toList true
  | number n => .scalar { tag } n.text.toList true
  | string s => .scalar { tag } s.toList (Layout.style s.toList == .plain)
  | sequence vs => .sequence { tag } (nodesOfItems vs)
  | mapping es => .mapping { tag } (nodesOfEntries es)
  | tagged name v => v.nodeOf (some (tagText name))
termination_by structural v => v

/-- The nodes of the items of a sequence. -/
def nodesOfItems : List Value → List (Node α)
  | [] => []
  | v :: vs => v.nodeOf none :: nodesOfItems vs
termination_by structural vs => vs

/-- The nodes of the entries of a mapping. -/
def nodesOfEntries : List (Value × Value) → List (Node α × Node α)
  | [] => []
  | (k, v) :: es => (k.nodeOf none, v.nodeOf none) :: nodesOfEntries es
termination_by structural es => es

end

end Value

/-- Does this token stand in front of the node that it belongs to, or for another? -/
def Token.isProperty : Token → Bool
  | reference _ | anchor _ | tag .. => true
  | _ => false

/-- The tokens of a value without tag begin with its content. -/
theorem Value.tokens_eq_cons {v : Value} (hfree : v.isTagged = false) (place : Place)
    (tagged : Bool) : ∃ t ts, v.tokens place tagged = t :: ts ∧ t.isProperty = false := by
  cases v with
  | sequence vs =>
      cases vs with
      | nil => exact ⟨_, _, rfl, rfl⟩
      | cons v vs =>
          rw [tokens]
          simp only [List.isEmpty_cons, Bool.false_eq_true, if_false]
          split
          · exact ⟨_, _, rfl, rfl⟩
          · exact ⟨_, _, rfl, rfl⟩
  | mapping es => cases es <;> exact ⟨_, _, rfl, rfl⟩
  | tagged name v => cases hfree
  | _ => exact ⟨_, _, rfl, rfl⟩

/-- No value begins with a token that ends one, nor with a dash where it is not bare. -/
theorem Value.tokens_head (v : Value) (place : Place) (tagged : Bool) :
    ∃ t ts, v.tokens place tagged = t :: ts ∧ t ∉ [.key, .value, .blockEnd] ∧
      TokenReader.isOutside t = false ∧ (place.isBare tagged = false → t ≠ .blockEntry) := by
  cases v with
  | sequence vs =>
      cases vs with
      | nil => exact ⟨_, _, rfl, by decide, rfl, fun _ => by decide⟩
      | cons v vs =>
          rw [tokens]
          simp only [List.isEmpty_cons, Bool.false_eq_true, if_false]
          split
          · rename_i hbare
            refine ⟨.blockEntry, _, rfl, by decide, rfl, fun hno => ?_⟩
            rw [hno] at hbare
            cases hbare
          · exact ⟨.blockSequenceStart, _, rfl, by decide, rfl, fun _ => by decide⟩
  | mapping es =>
      cases es with
      | nil => exact ⟨_, _, rfl, by decide, rfl, fun _ => by decide⟩
      | cons e es => exact ⟨.blockMappingStart, _, rfl, by decide, rfl, fun _ => by decide⟩
  | tagged name v =>
      have hall : Property.tagToken name ∉ [.key, .value, .blockEnd] ∧
          TokenReader.isOutside (Property.tagToken name) = false ∧
          Property.tagToken name ≠ .blockEntry := by
        unfold Property.tagToken
        cases Layout.tagBody name <;> simp [TokenReader.isOutside]
      exact ⟨_, _, rfl, hall.1, hall.2.1, fun _ => hall.2.2⟩
  | _ => exact ⟨_, _, rfl, by simp, rfl, fun _ => by simp⟩

theorem Value.length_tokens_pos (v : Value) (place : Place) (tagged : Bool) :
    0 < (v.tokens place tagged).length := by
  rcases v.tokens_head place tagged with ⟨t, ts, htokens, _⟩
  rw [htokens]
  exact Nat.succ_pos _

namespace TokenReader

/-! ## Single tokens -/

variable {t : Token} {ts : List Token} {defect : Option Defect}

theorem run_peek : peek.run ⟨t :: ts, defect⟩ = .ok (t, ⟨t :: ts, defect⟩) := rfl

theorem run_advance : advance.run ⟨t :: ts, defect⟩ = .ok ((), ⟨ts, defect⟩) := rfl

/-- The expected token is taken where it comes next. -/
theorem run_takes_self : (takes t).run ⟨t :: ts, defect⟩ = .ok (true, ⟨ts, defect⟩) := by
  rw [takes, run_bind_ok run_peek, if_pos (beq_self_eq_true t)]
  rfl

/-- Another token is left where it is. -/
theorem run_takes_other {t' : Token} (h : t' ≠ t) :
    (takes t).run ⟨t' :: ts, defect⟩ = .ok (false, ⟨t' :: ts, defect⟩) := by
  rw [takes, run_bind_ok run_peek, if_neg (by rw [beq_iff_eq]; exact h)]
  rfl

theorem run_expect : (expect t).run ⟨t :: ts, defect⟩ = .ok ((), ⟨ts, defect⟩) := by
  rw [expect, run_bind_ok run_takes_self]
  rfl

/-! ## Properties -/

/-- What is read of a node behind its properties. -/
def content (handles : Handles) (block bare : Bool) (n : Nat) (properties : Properties AnchorName) :
    TokenReader (Node AnchorName) := do
  match ← peek with
  | .scalar text plain =>
      advance
      return .scalar properties text plain
  | .flowSequenceStart =>
      advance
      return .sequence properties (← flowItems handles true n)
  | .flowMappingStart =>
      advance
      return .mapping properties (← flowEntries handles true n)
  | t =>
      if bare && t == .blockEntry then
        return .sequence properties (← bareItems handles n)
      if block && t == .blockSequenceStart then
        advance
        return .sequence properties (← blockItems handles n)
      if block && t == .blockMappingStart then
        advance
        return .mapping properties (← blockEntries handles n)
      if properties.anchor.isSome || properties.tag.isSome then
        return .empty properties
      throw .arrangement

/-- A node is a reference, or properties and the content behind them. -/
theorem node_eq (handles : Handles) (block bare : Bool) (n : Nat) :
    node handles block bare (n + 1) = (do
      if let .reference name ← peek then
        advance
        return .reference name
      content handles block bare n (← properties handles)) := by
  rw [node]
  rfl

/-- Nothing stands in front of a node whose first token is of its content. -/
theorem run_node (handles : Handles) (block bare : Bool) (n : Nat) (h : t.isProperty = false) :
    (node handles block bare (n + 1)).run ⟨t :: ts, defect⟩ =
      (content handles block bare n {}).run ⟨t :: ts, defect⟩ := by
  rw [node_eq]
  cases t <;> first | rfl | cases h

/-- The token of a tag stands for the tag. -/
theorem exists_tagToken_eq (name : String) : ∃ handle suffix,
    Property.tagToken name = .tag handle suffix ∧
      ∀ s, (fullTag Handles.standard handle suffix).run s = .ok (Value.tagText name, s) := by
  unfold Property.tagToken Value.tagText
  cases Layout.tagBody name with
  | nil => exact ⟨[], [some '!'], rfl, fun s => rfl⟩
  | cons c body => exact ⟨['!'], _, rfl, fun s => rfl⟩

/-- A tag stands in front of a node. -/
theorem run_node_tag (name : String) (block bare : Bool) (n : Nat) (h : t.isProperty = false) :
    (node Handles.standard block bare (n + 1)).run ⟨Property.tagToken name :: t :: ts, defect⟩ =
      (content Handles.standard block bare n { tag := some (Value.tagText name) }).run
        ⟨t :: ts, defect⟩ := by
  rcases exists_tagToken_eq name with ⟨handle, suffix, htoken, hfull⟩
  have hanchor : anchor.run ⟨t :: ts, defect⟩ = .ok (none, ⟨t :: ts, defect⟩) := by
    cases t <;> first | rfl | cases h
  have hnone : anchor.run ⟨.tag handle suffix :: t :: ts, defect⟩ =
      .ok (none, ⟨.tag handle suffix :: t :: ts, defect⟩) := rfl
  have htag : (tag Handles.standard).run ⟨.tag handle suffix :: t :: ts, defect⟩ =
      .ok (some (Value.tagText name), ⟨t :: ts, defect⟩) := by
    rw [tag, run_bind_ok run_peek]
    simp only
    rw [run_bind_ok run_advance, run_bind_ok (hfull _)]
    rfl
  have hproperties : (properties Handles.standard).run ⟨.tag handle suffix :: t :: ts, defect⟩ =
      .ok ({ tag := some (Value.tagText name) }, ⟨t :: ts, defect⟩) := by
    rw [properties, run_bind_ok hnone]
    simp only
    rw [run_bind_ok htag]
    simp only
    rw [run_bind_ok hanchor]
    rfl
  rw [htoken, node_eq, run_bind_ok run_peek]
  simp only
  rw [run_bind_ok hproperties]

/-! ## Values -/

/-- Can what follows be told from further items of a sequence without indentation? -/
def EndsBare (T : List Token) : Prop := ∃ t ts, T = t :: ts ∧ t ≠ .blockEntry

/-- Are the tokens of a value taken for its content, behind whatever tag? -/
def ReadsContent (v : Value) : Prop :=
  ∀ {place tagged bare n tag T defect}, (place.isBare tagged = true → bare = true ∧ EndsBare T) →
    3 * (v.tokens place tagged).length ≤ n + 3 →
    (content Handles.standard true bare n { tag }).run ⟨v.tokens place tagged ++ T, defect⟩ =
      .ok (v.nodeOf tag, ⟨T, defect⟩)

/-- Are the tokens of a value taken for its node? -/
def ReadsNode (v : Value) : Prop :=
  ∀ {place bare n T defect}, (place.isBare true = true → bare = true ∧ EndsBare T) →
    3 * (v.tokens place false).length ≤ n + 2 →
    (node Handles.standard true bare n).run ⟨v.tokens place false ++ T, defect⟩ =
      .ok (v.nodeOf none, ⟨T, defect⟩)

/-- A sequence stands without indentation behind a tag if it does in its place. -/
theorem isBare_of_isBare {place : Place} {tagged : Bool} (h : place.isBare tagged = true) :
    place.isBare true = true := by
  cases place with
  | root => cases h
  | item => cases h
  | afterKey => rfl
  | entry => rfl

/-- Without a tag the content is the node. -/
theorem readsNode_of_content {v : Value} (hfree : v.isTagged = false) (h : ReadsContent v) :
    ReadsNode v := by
  intro place bare n T defect hbare hn
  rcases Value.tokens_eq_cons hfree place false with ⟨t, ts, htokens, ht⟩
  have hlength : 1 ≤ (v.tokens place false).length := by
    rw [htokens]
    exact Nat.succ_pos _
  cases n with
  | zero => omega
  | succ n =>
      rw [← h (fun hplace => hbare (isBare_of_isBare hplace)) hn, htokens]
      exact run_node _ _ _ _ ht

/-- Behind a tag comes the content of the tagged value. -/
theorem readsNode_tagged {v : Value} (name : String) (hfree : v.isTagged = false)
    (h : ReadsContent v) : ReadsNode (.tagged name v) := by
  intro place bare n T defect hbare hn
  rcases Value.tokens_eq_cons hfree place true with ⟨t, ts, htokens, ht⟩
  rw [Value.tokens, List.length_cons] at hn
  cases n with
  | zero => omega
  | succ n =>
      rw [Value.tokens, Value.nodeOf, ← h hbare (by omega : 3 * (v.tokens place true).length ≤ n + 3),
        htokens]
      exact run_node_tag name _ _ _ ht

/-! ## Leaves -/

/-- A leaf is one token, which is taken for its content. -/
theorem readsContent_leaf {v : Value} (h : v.IsLeaf) : ReadsContent v := by
  intro place tagged bare n tag T defect _ hn
  cases h with
  | noItems =>
      cases n with
      | zero =>
          have hn' : 3 * 2 ≤ 0 + 3 := hn
          omega
      | succ n => rfl
  | noEntries =>
      cases n with
      | zero =>
          have hn' : 3 * 2 ≤ 0 + 3 := hn
          omega
      | succ n => rfl
  | _ => rfl

/-! ## Collections -/

/-- A node that is there is no node that is left out. -/
theorem run_nodeBefore {v : Value} (place : Place) (bare : Bool) (ends : List Token) {n : Nat}
    (T : List Token) (defect : Option Defect)
    (hends : ∀ t, t ∉ [.key, .value, .blockEnd] → (place.isBare false = false → t ≠ .blockEntry) →
      t ∉ ends)
    (h : ReadsNode v) (hbare : place.isBare true = true → bare = true ∧ EndsBare T)
    (hn : 3 * (v.tokens place false).length ≤ n + 2) :
    (nodeBefore Handles.standard true bare ends (n + 1)).run ⟨v.tokens place false ++ T, defect⟩ =
      .ok (v.nodeOf none, ⟨T, defect⟩) := by
  rw [← h hbare hn]
  rcases v.tokens_head place false with ⟨t, ts, htokens, hmark, _, hdash⟩
  have hcontains : ends.contains t = false := by
    refine Bool.eq_false_iff.mpr fun hmem => ?_
    exact hends t hmark hdash (List.contains_iff_mem.mp hmem)
  rw [nodeBefore, htokens, List.cons_append, run_bind_ok run_peek, hcontains]
  rfl

/-- The items of a sequence between its brackets. -/
theorem run_blockItems {vs : List Value} (h : ∀ v ∈ vs, ReadsNode v) {n : Nat} {T : List Token}
    {defect : Option Defect} (hn : 3 * (Value.itemTokens vs).length ≤ n + 3) (hpos : 0 < n) :
    (blockItems Handles.standard n).run ⟨Value.itemTokens vs ++ .blockEnd :: T, defect⟩ =
      .ok (Value.nodesOfItems vs, ⟨T, defect⟩) := by
  induction vs generalizing n with
  | nil =>
      cases n with
      | zero => exact absurd hpos (Nat.lt_irrefl 0)
      | succ n =>
          rw [blockItems, Value.itemTokens, List.nil_append, run_bind_ok run_takes_self]
          rfl
  | cons v vs ih =>
      have hlength := v.length_tokens_pos .item false
      rw [Value.itemTokens, List.length_append, List.length_cons] at hn
      -- an item takes three steps: of the list, of the node that may be left out, of the node
      rcases Nat.exists_eq_add_of_le' (by omega : 2 ≤ n) with ⟨m, rfl⟩
      have hitem := run_nodeBefore (n := m) .item false [.blockEntry, .blockEnd]
        (Value.itemTokens vs ++ .blockEnd :: T) defect
        (fun t hmark hdash => by
          simp only [List.mem_cons, not_or, List.not_mem_nil] at hmark ⊢
          exact ⟨hdash rfl, hmark.2.2.1, fun hno => hno⟩)
        (h v List.mem_cons_self) (fun hbare => by cases hbare) (by omega)
      have htail := ih (fun w hw => h w (List.mem_cons_of_mem v hw)) (n := m + 1) (by omega)
        (Nat.succ_pos m)
      have htokens' : Value.itemTokens (v :: vs) ++ .blockEnd :: T =
          .blockEntry :: (v.tokens .item false ++ (Value.itemTokens vs ++ .blockEnd :: T)) := by
        rw [Value.itemTokens]
        simp
      rw [htokens', blockItems, run_bind_ok (run_takes_other (by decide))]
      simp only [Bool.false_eq_true, if_false]
      rw [run_bind_ok run_expect, run_bind_ok hitem, run_bind_ok htail]
      rfl

/-- The items of a sequence whose end is told by the token that follows. -/
theorem run_bareItems {vs : List Value} (h : ∀ v ∈ vs, ReadsNode v) {n : Nat} {T : List Token}
    (hT : EndsBare T) {defect : Option Defect} (hn : 3 * (Value.itemTokens vs).length ≤ n + 3)
    (hpos : 0 < n) :
    (bareItems Handles.standard n).run ⟨Value.itemTokens vs ++ T, defect⟩ =
      .ok (Value.nodesOfItems vs, ⟨T, defect⟩) := by
  induction vs generalizing n with
  | nil =>
      rcases hT with ⟨t, ts, rfl, ht⟩
      cases n with
      | zero => exact absurd hpos (Nat.lt_irrefl 0)
      | succ n =>
          rw [bareItems, Value.itemTokens, List.nil_append, run_bind_ok (run_takes_other ht)]
          rfl
  | cons v vs ih =>
      have hlength := v.length_tokens_pos .item false
      rw [Value.itemTokens, List.length_append, List.length_cons] at hn
      rcases Nat.exists_eq_add_of_le' (by omega : 2 ≤ n) with ⟨m, rfl⟩
      have hitem := run_nodeBefore (n := m) .item false [.blockEntry, .key, .value, .blockEnd]
        (Value.itemTokens vs ++ T) defect
        (fun t hmark hdash => by
          rw [List.mem_cons, not_or]
          exact ⟨hdash rfl, hmark⟩)
        (h v List.mem_cons_self) (fun hbare => by cases hbare) (by omega)
      have htail := ih (fun w hw => h w (List.mem_cons_of_mem v hw)) (n := m + 1) (by omega)
        (Nat.succ_pos m)
      have htokens' : Value.itemTokens (v :: vs) ++ T =
          .blockEntry :: (v.tokens .item false ++ (Value.itemTokens vs ++ T)) := by
        rw [Value.itemTokens]
        simp
      rw [htokens', bareItems, run_bind_ok run_takes_self]
      simp only [Bool.not_true, Bool.false_eq_true, if_false]
      rw [run_bind_ok hitem, run_bind_ok htail]
      rfl

/-- The entries of a mapping and its end do not begin with an item of a sequence. -/
theorem endsBare_entryTokens (es : Entries) (T : List Token) :
    EndsBare (Value.entryTokens es ++ .blockEnd :: T) := by
  cases es with
  | nil => exact ⟨.blockEnd, T, rfl, by decide⟩
  | cons e es => exact ⟨.key, _, rfl, by decide⟩

/-- The entries of a mapping. -/
theorem run_blockEntries {es : Entries} (h : ∀ e ∈ es, ReadsNode e.1 ∧ ReadsNode e.2) {n : Nat}
    {T : List Token} {defect : Option Defect} (hn : 3 * (Value.entryTokens es).length ≤ n + 3)
    (hpos : 0 < n) :
    (blockEntries Handles.standard n).run ⟨Value.entryTokens es ++ .blockEnd :: T, defect⟩ =
      .ok (Value.nodesOfEntries es, ⟨T, defect⟩) := by
  induction es generalizing n with
  | nil =>
      cases n with
      | zero => exact absurd hpos (Nat.lt_irrefl 0)
      | succ n =>
          rw [blockEntries, Value.entryTokens, List.nil_append, run_bind_ok run_takes_self]
          rfl
  | cons e es ih =>
      rcases e with ⟨k, v⟩
      have hreads := h (k, v) List.mem_cons_self
      rw [Value.entryTokens, List.length_append, List.length_append, List.length_cons,
        List.length_cons] at hn
      rcases Nat.exists_eq_add_of_le' (by omega : 2 ≤ n) with ⟨m, rfl⟩
      have hkey := run_nodeBefore (v := k) (n := m) .entry true [.key, .value, .blockEnd]
        (.value :: (v.tokens (if Layout.isInlineKey k then .afterKey else .entry) false ++
          (Value.entryTokens es ++ .blockEnd :: T))) defect
        (fun t hmark _ => hmark) hreads.1 (fun _ => ⟨rfl, .value, _, rfl, by decide⟩) (by omega)
      have hvalue := run_nodeBefore (v := v) (n := m)
        (if Layout.isInlineKey k then .afterKey else .entry) true [.key, .value, .blockEnd]
        (Value.entryTokens es ++ .blockEnd :: T) defect
        (fun t hmark _ => hmark) hreads.2 (fun _ => ⟨rfl, endsBare_entryTokens es T⟩) (by omega)
      have htail := ih (fun f hf => h f (List.mem_cons_of_mem (k, v) hf)) (n := m + 1) (by omega)
        (Nat.succ_pos m)
      have htokens : Value.entryTokens ((k, v) :: es) ++ .blockEnd :: T =
          .key :: (k.tokens .entry false ++ (.value :: (v.tokens (if Layout.isInlineKey k then
            .afterKey else .entry) false ++ (Value.entryTokens es ++ .blockEnd :: T)))) := by
        rw [Value.entryTokens]
        simp
      rw [htokens, blockEntries, run_bind_ok (run_takes_other (by decide))]
      simp only [Bool.false_eq_true, if_false]
      rw [run_bind_ok run_expect, run_bind_ok hkey, run_bind_ok run_takes_self]
      simp only [if_true]
      rw [run_bind_ok hvalue, run_bind_ok htail]
      rfl

/-- The content of a sequence. -/
theorem readsContent_sequence {v : Value} {vs : List Value} (h : ∀ w ∈ v :: vs, ReadsNode w) :
    ReadsContent (.sequence (v :: vs)) := by
  intro place tagged bare n tag T defect hbare hn
  have htokens : (Value.sequence (v :: vs)).tokens place tagged =
      if place.isBare tagged then Value.itemTokens (v :: vs)
      else Value.enclosed .blockSequenceStart (Value.itemTokens (v :: vs)) := rfl
  have hlength : 2 ≤ (Value.itemTokens (v :: vs)).length := by
    have hpos := v.length_tokens_pos .item false
    rw [Value.itemTokens, List.length_append, List.length_cons]
    omega
  rw [htokens] at hn ⊢
  -- without a token that opens it, the sequence is read up to what cannot be an item
  split at hn
  · rename_i hplace
    rcases hbare hplace with ⟨rfl, hT⟩
    have hpeek : peek.run ⟨Value.itemTokens (v :: vs) ++ T, defect⟩ =
        .ok (.blockEntry, ⟨Value.itemTokens (v :: vs) ++ T, defect⟩) := rfl
    have hitems : (bareItems Handles.standard n).run ⟨Value.itemTokens (v :: vs) ++ T, defect⟩ =
        .ok (Value.nodesOfItems (v :: vs), ⟨T, defect⟩) := run_bareItems h hT hn (by omega)
    rw [if_pos hplace, content, run_bind_ok hpeek]
    simp only [beq_self_eq_true, Bool.and_self, if_true]
    rw [run_bind_ok hitems]
    rfl
  · rename_i hplace
    rw [Value.enclosed, List.length_append, List.length_cons, List.length_singleton] at hn
    have hitems : (blockItems Handles.standard n).run
        ⟨Value.itemTokens (v :: vs) ++ .blockEnd :: T, defect⟩ =
          .ok (Value.nodesOfItems (v :: vs), ⟨T, defect⟩) := run_blockItems h (by omega) (by omega)
    have henclosed : Value.enclosed .blockSequenceStart (Value.itemTokens (v :: vs)) ++ T =
        .blockSequenceStart :: (Value.itemTokens (v :: vs) ++ .blockEnd :: T) := by
      simp [Value.enclosed]
    rw [if_neg hplace, henclosed, content, run_bind_ok run_peek]
    have hdash : (bare && Token.blockSequenceStart == .blockEntry) = false := Bool.and_false bare
    simp only [hdash, Bool.false_eq_true, if_false, beq_self_eq_true, Bool.and_self, if_true]
    rw [run_bind_ok run_advance, run_bind_ok hitems]
    rfl

/-- The content of a mapping. -/
theorem readsContent_mapping {e : Value × Value} {es : Entries}
    (h : ∀ f ∈ e :: es, ReadsNode f.1 ∧ ReadsNode f.2) : ReadsContent (.mapping (e :: es)) := by
  intro place tagged bare n tag T defect _ hn
  have htokens : (Value.mapping (e :: es)).tokens place tagged =
      Value.enclosed .blockMappingStart (Value.entryTokens (e :: es)) := rfl
  rw [htokens] at hn ⊢
  rw [Value.enclosed, List.length_append, List.length_cons, List.length_singleton] at hn
  have hlength : 1 ≤ (Value.entryTokens (e :: es)).length := Nat.succ_pos _
  have hentries : (blockEntries Handles.standard n).run
      ⟨Value.entryTokens (e :: es) ++ .blockEnd :: T, defect⟩ =
        .ok (Value.nodesOfEntries (e :: es), ⟨T, defect⟩) :=
    run_blockEntries h (by omega) (by omega)
  have henclosed : Value.enclosed .blockMappingStart (Value.entryTokens (e :: es)) ++ T =
      .blockMappingStart :: (Value.entryTokens (e :: es) ++ .blockEnd :: T) := by
    simp [Value.enclosed]
  rw [henclosed, content, run_bind_ok run_peek]
  have hdash : (bare && Token.blockMappingStart == .blockEntry) = false := Bool.and_false bare
  have hsequence : (true && Token.blockMappingStart == .blockSequenceStart) = false := rfl
  simp only [hdash, hsequence, Bool.false_eq_true, if_false, beq_self_eq_true, Bool.and_self,
    if_true]
  rw [run_bind_ok run_advance, run_bind_ok hentries]
  rfl

/-- The tokens of every proper value are taken for its node. -/
theorem reads_value {v : Value} (h : v.IsProper) :
    ReadsNode v ∧ (v.isTagged = false → ReadsContent v) := by
  have hleaf : ∀ {v : Value}, v.isTagged = false → v.IsLeaf →
      ReadsNode v ∧ (v.isTagged = false → ReadsContent v) := fun hfree hv =>
    ⟨readsNode_of_content hfree (readsContent_leaf hv), fun _ => readsContent_leaf hv⟩
  -- content is asked for only where no tag is before it, since tags do not follow tags
  induction h with
  | null => exact hleaf rfl .null
  | bool b => exact hleaf rfl (.bool b)
  | number => exact hleaf rfl (.number _)
  | string s => exact hleaf rfl (.string s)
  | @sequence vs _ ih =>
      cases vs with
      | nil => exact hleaf rfl .noItems
      | cons v vs =>
          have hcontent : ReadsContent (.sequence (v :: vs)) :=
            readsContent_sequence fun w hw => (ih w hw).1
          exact ⟨readsNode_of_content rfl hcontent, fun _ => hcontent⟩
  | @mapping es _ _ _ ihkeys ihvalues =>
      cases es with
      | nil => exact hleaf rfl .noEntries
      | cons e es =>
          have hcontent : ReadsContent (.mapping (e :: es)) :=
            readsContent_mapping fun f hf => ⟨(ihkeys f hf).1, (ihvalues f hf).1⟩
          exact ⟨readsNode_of_content rfl hcontent, fun _ => hcontent⟩
  | @tagged name v _ hfree _ ih =>
      exact ⟨readsNode_tagged name hfree (ih.2 hfree), fun htagged => by cases htagged⟩

end TokenReader

/-! ## Streams -/

/-- A document that begins with none of the marks around documents is a node. -/
theorem TokenReader.document_run {t : Token} {ts : List Token} {defect : Option Defect} (steps : Nat)
    (h : isOutside t = false) :
    (document steps).run ⟨t :: ts, defect⟩ = (do
      let content ← node Handles.standard true false steps
      discard (takes .documentEnd)
      return some content).run ⟨t :: ts, defect⟩ := by
  rw [document, run_bind_ok run_peek]
  cases t <;> first | rfl | cases h

/-- The stream of the tokens of a proper value holds the node of that value and no other. -/
theorem Node.ofStream_tokens {v : Value} (h : v.IsProper) :
    Node.ofStream ⟨v.tokens .root false ++ [.streamEnd], none⟩ = .ok (some (v.nodeOf none)) := by
  rcases v.tokens_head .root false with ⟨t, ts, htokens, _, hinside, _⟩
  have hsteps : ∀ s : TokenStream, s.tokens = v.tokens .root false ++ [.streamEnd] →
      3 * (v.tokens .root false).length ≤ s.steps + 2 := by
    intro s hs
    rw [TokenStream.steps, hs, List.length_append]
    omega
  unfold Node.ofStream
  generalize hn : TokenStream.steps _ = n
  have hnode : (TokenReader.node Handles.standard true false n).run
      ⟨v.tokens .root false ++ [.streamEnd], none⟩ =
        .ok (v.nodeOf none, ⟨[.streamEnd], none⟩) :=
    (TokenReader.reads_value h).1 (fun hbare => by cases hbare) (hn ▸ hsteps _ rfl)
  have htakes : (discard (TokenReader.takes .documentEnd)).run ⟨[.streamEnd], none⟩ =
      .ok ((), ⟨[.streamEnd], none⟩) := rfl
  have hdocument : (TokenReader.document n).run ⟨v.tokens .root false ++ [.streamEnd], none⟩ =
      .ok (some (v.nodeOf none), ⟨[.streamEnd], none⟩) := by
    rw [htokens, List.cons_append] at hnode ⊢
    rw [TokenReader.document_run n hinside, run_bind_ok hnode,
      run_bind_ok htakes]
    rfl
  have hend : (TokenReader.streamEnd n).run' ⟨[.streamEnd], none⟩ = .ok () := by
    cases n <;> rfl
  rw [hdocument, ok_bind]
  simp only
  rw [hend]
  rfl

end OperatorBundle.Yaml
