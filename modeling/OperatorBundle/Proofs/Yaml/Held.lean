import OperatorBundle.Proofs.Yaml.Access
import OperatorBundle.Proofs.Yaml.Proper

/-!
# Scalars in the text of a document

Where a plain scalar without a tag stands in what is written, and that looking there in the value that
is read finds what the scalar spells.
-/

namespace OperatorBundle.Yaml

namespace LinkedDocument

variable (document : LinkedDocument)

/-- The node that a node means: another one if it is an alias, and else itself. -/
inductive Means : Node Nat → Node Nat → Prop
  | reference {number : Nat} {node : Node Nat} (h : document.targets.lookup number = some node) :
      Means (.reference number) node
  | itself {node : Node Nat} (h : ∀ number, node ≠ .reference number) : Means node node

/-- Does a node lead by some steps to a plain scalar without a tag that is written so?  A step to a key
goes by a key that is this string. -/
inductive Holds (text : List Char) : Node Nat → List Step → Prop
  | here {anchor : Option Nat} : Holds text (.scalar { anchor } text true) []
  | key {name : String} {steps : List Step} {p q : Properties Nat} {plain : Bool}
      {keyText : List Char} {entries : List (Node Nat × Node Nat)} {key value target : Node Nat}
      (hentry : (key, value) ∈ entries) (hkey : document.Means key (.scalar q keyText plain))
      (hname : Value.ofScalar q.tag keyText plain = .ok (.string name))
      (hfree : q.tag.bind Value.ownTag? = none) (hvalue : document.Means value target)
      (h : Holds text target steps) : Holds text (.mapping p entries) (.key name :: steps)
  | item {position : Nat} {steps : List Step} {p : Properties Nat} {items : List (Node Nat)}
      {item target : Node Nat} (hitem : items[position]? = some item)
      (hmeans : document.Means item target) (h : Holds text target steps) :
      Holds text (.sequence p items) (.index position :: steps)

end LinkedDocument

/-- Does the text of a document hold a plain scalar without a tag, some steps away from its root? -/
def Holds (content : String) (steps : List Step) (text : List Char) : Prop :=
  ∃ (node : Node AnchorName) (document : LinkedDocument) (root : Node Nat),
    Node.ofStream (TokenStream.ofText content.toList) = .ok (some node) ∧
      LinkedDocument.ofNode node = .ok document ∧ document.Means document.root root ∧
        document.Holds text root steps

/-! ## What is found there -/

/-- A key that is a string finds its value, since no other entry has it. -/
theorem Entries.get?_of_mem {entries : Entries} {key : String} {v : Value}
    (hdistinct : Value.ofEntries.distinct (entries.map (·.1)) = true)
    (h : (.string key, v) ∈ entries) : entries.get? key = some v := by
  induction entries with
  | nil => exact absurd h List.not_mem_nil
  | cons entry entries ih =>
      obtain ⟨k, w⟩ := entry
      rw [List.map_cons, Value.ofEntries.distinct, Bool.and_eq_true, Bool.not_eq_true'] at hdistinct
      unfold get? at ih ⊢
      rw [List.find?_cons]
      rcases List.mem_cons.mp h with heq | hmem
      · cases heq
        rw [isKey_iff.mpr rfl]
        rfl
      · have hother : isKey key k = false := by
          refine Bool.eq_false_iff.mpr fun hkey => ?_
          rw [isKey_iff] at hkey
          subst hkey
          have hapart := List.any_eq_false.mp hdistinct.1 (.string key) (List.mem_map_of_mem hmem)
          exact hapart (by simp [Value.same])
        rw [hother]
        exact ih hdistinct.2 hmem

theorem Value.child?_withTag (tag : Option TagText) (v : Value) (step : Step) :
    (withTag tag v).child? step = v.child? step := by
  unfold withTag
  split
  · exact child?_tagged _ v step
  · rfl

namespace LinkedDocument

variable {document : LinkedDocument}

theorem Means.target_eq {node target found : Node Nat} {s s' : Nat} (h : document.Means node target)
    (hrun : (document.target node).run s = .ok (found, s')) : found = target := by
  cases h with
  | @reference number _ hlookup =>
      unfold LinkedDocument.target at hrun
      rw [run_bind_eq_ok_iff] at hrun
      obtain ⟨left, s₁, _, hrun⟩ := hrun
      cases left with
      | zero => cases hrun
      | succ n =>
          simp only [hlookup] at hrun
          cases hrun
          rfl
  | itself hself =>
      cases node with
      | reference number => exact absurd rfl (hself number)
      | scalar p text plain =>
          cases hrun
          rfl
      | sequence p items =>
          cases hrun
          rfl
      | mapping p entries =>
          cases hrun
          rfl

/-- What a node is composed to, by way of the node that it means. -/
theorem Means.standsFor {node target : Node Nat} {depth s s' : Nat} {v : Value}
    (h : document.Means node target)
    (hrun : (Value.ofNode document depth node).run s = .ok (v, s')) :
    ∃ s₁, Value.StandsFor document s' depth target s₁ v := by
  obtain ⟨found, s₁, htarget, hstands⟩ := Value.standsFor_of_ofNode hrun
  rw [h.target_eq htarget] at hstands
  exact ⟨s₁, hstands⟩

/-- The entry of a mapping that is composed. -/
theorem exists_entry {depth s s' : Nat} {entries : List (Node Nat × Node Nat)} {es : Entries}
    (hes : (entries.mapM (Value.ofEntry document depth)).run s = .ok (es, s')) {key value : Node Nat}
    (hentry : (key, value) ∈ entries) :
    ∃ k v s₁ s₂ s₃, (k, v) ∈ es ∧ (Value.ofNode document depth key).run s₁ = .ok (k, s₂) ∧
      (Value.ofNode document depth value).run s₂ = .ok (v, s₃) := by
  obtain ⟨i, hi⟩ := List.mem_iff_getElem?.mp hentry
  obtain ⟨hnone, _⟩ | ⟨entry, e, s₁, s₃, hsame, hmem, hrun⟩ := run_of_mapM hes i
  · rw [hi] at hnone
    cases hnone
  · rw [hi] at hsame
    cases hsame
    rw [Value.ofEntry, run_bind_eq_ok_iff] at hrun
    obtain ⟨k, s₂, hk, hrun⟩ := hrun
    rw [run_bind_eq_ok_iff] at hrun
    obtain ⟨v, s₄, hv, hrun⟩ := hrun
    cases hrun
    exact ⟨k, v, s₁, s₂, s₃, List.mem_of_getElem? hmem, hk, hv⟩

/-- A node that means a string without a tag of its own is composed to that string. -/
theorem Means.eq_string {node : Node Nat} {p : Properties Nat} {text : List Char} {plain : Bool}
    {name : String} {depth s s' : Nat} {v : Value} (h : document.Means node (.scalar p text plain))
    (hname : Value.ofScalar p.tag text plain = .ok (.string name))
    (hfree : p.tag.bind Value.ownTag? = none)
    (hrun : (Value.ofNode document depth node).run s = .ok (v, s')) : v = .string name := by
  obtain ⟨s₁, hstands⟩ := h.standsFor hrun
  cases hstands with
  | scalar hscalar =>
      rw [hname] at hscalar
      cases hscalar
      rw [Value.withTag, hfree]

/-- Where a plain scalar stands, what it spells is found in the value. -/
theorem Holds.follow? {text : List Char} {node : Node Nat} {steps : List Step}
    (h : document.Holds text node steps) {depth s s' : Nat} {v : Value}
    (hstands : Value.StandsFor document s' depth node s v) :
    ∃ w, v.follow? steps = some w ∧ Value.ofPlain text = .ok w := by
  -- the induction is on the way to the scalar; each step goes one collection deeper
  induction h generalizing depth s s' v with
  | here =>
      cases hstands with
      | scalar hscalar => exact ⟨_, rfl, hscalar⟩
  | @key name steps p q plain keyText entries key value target hentry hkey hname hfree hvalue _ ih =>
      cases hstands with
      | mapping hes hdistinct =>
          obtain ⟨k, w, s₁, s₂, s₃, hmem, hk, hw⟩ := exists_entry hes hentry
          obtain rfl := hkey.eq_string hname hfree hk
          obtain ⟨s₄, hbelow⟩ := hvalue.standsFor hw
          obtain ⟨found, hfound, hplain⟩ := ih hbelow
          refine ⟨found, ?_, hplain⟩
          have hchild : (Value.mapping _).child? (.key name) = some w :=
            Entries.get?_of_mem hdistinct hmem
          rw [Value.follow?, Value.child?_withTag, hchild]
          exact hfound
  | @item position steps p items item target hitem hmeans _ ih =>
      cases hstands with
      | sequence hvs =>
          obtain ⟨hnone, _⟩ | ⟨node, w, s₁, s₂, hnode, hw, hrun⟩ := run_of_mapM hvs position
          · rw [hitem] at hnone
            cases hnone
          · rw [hitem] at hnode
            cases hnode
            obtain ⟨s₃, hbelow⟩ := hmeans.standsFor hrun
            obtain ⟨found, hfound, hplain⟩ := ih hbelow
            refine ⟨found, ?_, hplain⟩
            have hchild : (Value.sequence _).child? (.index position) = some w := hw
            rw [Value.follow?, Value.child?_withTag, hchild]
            exact hfound

end LinkedDocument

/-- Where the text of a document holds a plain scalar, what it spells is found in what is read. -/
theorem Holds.follow? {content : String} {steps : List Step} {text : List Char} {v : Value}
    (h : Holds content steps text) (hread : read content = .ok v) :
    ∃ w, v.follow? steps = some w ∧ Value.ofPlain text = .ok w := by
  obtain ⟨node, document, root, hnode, hdocument, hmeans, hholds⟩ := h
  obtain ⟨content, hcontent, hread⟩ := bind_eq_ok_iff.mp hread
  rw [hnode] at hcontent
  cases hcontent
  obtain ⟨linked, hlinked, hread⟩ := bind_eq_ok_iff.mp hread
  rw [hdocument] at hlinked
  cases hlinked
  unfold Value.ofDocument at hread
  cases hrun : (Value.ofNode document Value.depthLimit document.root).run document.aliasLimit with
  | error defect =>
      rw [StateT.run'_eq, hrun] at hread
      cases hread
  | ok p =>
      rw [StateT.run'_eq, hrun] at hread
      cases hread
      obtain ⟨s, hstands⟩ := hmeans.standsFor hrun
      exact hholds.follow? hstands

end OperatorBundle.Yaml
