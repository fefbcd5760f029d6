import OperatorBundle.Proofs.Outcome
import OperatorBundle.Proofs.Yaml.Number
import OperatorBundle.Yaml.Document

/-!
# Proper values

The values that reading yields: numbers are such as documents hold, a mapping has no key twice, and
a tag has a name and stands on no other tag.
-/

namespace OperatorBundle.Yaml

namespace Value

/-- Does this value stand behind a tag? -/
def isTagged : Value → Bool
  | tagged .. => true
  | _ => false

/-- Is this a value as documents hold them? -/
inductive IsProper : Value → Prop where
  | null : IsProper null
  | bool (b : Bool) : IsProper (bool b)
  | number {n : Number} (h : n.IsKept) : IsProper (number n)
  | string (s : String) : IsProper (string s)
  | sequence {vs : List Value} (h : ∀ v ∈ vs, IsProper v) : IsProper (sequence vs)
  | mapping {es : Entries} (hdistinct : ofEntries.distinct (es.map (·.1)) = true)
      (hkeys : ∀ e ∈ es, IsProper e.1) (hvalues : ∀ e ∈ es, IsProper e.2) : IsProper (mapping es)
  | tagged {name : String} {v : Value} (hname : name ≠ "") (hfree : v.isTagged = false)
      (h : IsProper v) : IsProper (tagged name v)

/-! ## Scalars -/

/-- Is this a proper value that is neither a collection nor tagged? -/
inductive IsScalar : Value → Prop where
  | null : IsScalar null
  | bool (b : Bool) : IsScalar (bool b)
  | number {n : Number} (h : n.IsKept) : IsScalar (number n)
  | string (s : String) : IsScalar (string s)

theorem isScalar_fraction? {text : List Char} {v : Value}
    (h : (Number.fraction? text).map (fun x => number (.fraction x)) = some v) : v.IsScalar := by
  rcases Option.map_eq_some_iff.mp h with ⟨x, hx, rfl⟩
  exact .number (Number.fraction?_isCanonical hx)

/-- What is spelled like something else than a string is a scalar. -/
theorem isScalar_of_spelled? {text : List Char} {v : Value} (h : spelled? text = .ok (some v)) :
    v.IsScalar := by
  unfold spelled? at h
  simp only at h
  split at h
  · cases h
    exact .null
  split at h
  · cases h
    exact .bool _
  · split at h
    · rename_i hfit
      cases h
      exact .number hfit
    · cases h
    · exact isScalar_fraction? (Except.ok.inj h)
  · split at h
    · cases h
    · exact isScalar_fraction? (Except.ok.inj h)

theorem isScalar_of_ofPlain {text : List Char} {v : Value} (h : ofPlain text = .ok v) :
    v.IsScalar := by
  rcases bind_eq_ok_iff.mp h with ⟨found, hfound, hv⟩
  cases found with
  | none =>
      cases hv
      exact .string _
  | some w =>
      cases hv
      exact isScalar_of_spelled? hfound

theorem isScalar_of_ofCore {type : CoreType} {text : List Char} {v : Value}
    (h : ofCore type text = .ok v) : v.IsScalar := by
  unfold ofCore at h
  simp only at h
  split at h
  · rename_i w hfound
    cases h
    cases type with
    | null =>
        simp only at hfound
        split at hfound
        · cases hfound
          exact .null
        · cases hfound
    | bool =>
        rcases Option.map_eq_some_iff.mp hfound with ⟨b, _, rfl⟩
        exact .bool b
    | integer =>
        rcases Option.map_eq_some_iff.mp hfound with ⟨n, hn, rfl⟩
        have hfit := (Option.filter_eq_some_iff.mp hn).2
        exact .number (beq_iff_eq.mp hfit)
    | fraction => exact isScalar_fraction? hfound
  · cases h

theorem isScalar_of_ofScalar {tag : Option TagText} {text : List Char} {plain : Bool} {v : Value}
    (h : ofScalar tag text plain = .ok v) : v.IsScalar := by
  unfold ofScalar at h
  split at h
  · split at h
    · exact isScalar_of_ofPlain h
    · cases h
      exact .string _
  · split at h
    · exact isScalar_of_ofCore h
    · split at h
      · exact isScalar_of_ofPlain h
      · cases h
        exact .string _

/-! ## Tags -/

/-- Is this a proper value without a tag? -/
def IsProperUntagged (v : Value) : Prop := v.IsProper ∧ v.isTagged = false

theorem IsScalar.isProperUntagged {v : Value} (h : v.IsScalar) : v.IsProperUntagged := by
  cases h with
  | null => exact ⟨.null, rfl⟩
  | bool b => exact ⟨.bool b, rfl⟩
  | number hn => exact ⟨.number hn, rfl⟩
  | string s => exact ⟨.string s, rfl⟩

theorem ownTag?_ne_empty {tag : TagText} {name : String} (h : ownTag? tag = some name) :
    name ≠ "" := by
  unfold ownTag? at h
  rcases Option.bind_eq_some_iff.mp h with ⟨text, _, hname⟩
  have hne : ∀ c (r : List Char), String.ofList (c :: r) ≠ "" := by
    intro c r heq
    have hlist := congrArg String.toList heq
    rw [String.toList_ofList] at hlist
    cases hlist
  split at hname
  · cases hname
    decide
  · cases hname
    exact hne _ _
  · rename_i r hmark _ _
    cases hname
    cases r with
    | nil => exact absurd rfl hmark
    | cons c r => exact hne c r
  · cases hname

theorem isProper_withTag (tag : Option TagText) {v : Value} (h : v.IsProperUntagged) :
    (withTag tag v).IsProper := by
  unfold withTag
  split
  · rename_i name hname
    rcases Option.bind_eq_some_iff.mp hname with ⟨text, _, hname⟩
    exact .tagged (ownTag?_ne_empty hname) h.2 h.1
  · exact h.1

/-! ## Nodes -/

/-- The value of the entry of a node. -/
def ofEntry (document : LinkedDocument) (depth : Nat) :
    Node Nat × Node Nat → Composer (Value × Value)
  | (key, value) => return (← ofNode document depth key, ← ofNode document depth value)

/-- The ways in which a node, or the node that an alias means, comes to stand for a value. -/
inductive StandsFor (document : LinkedDocument) (s' : Nat) :
    Nat → Node Nat → Nat → Value → Prop where
  | scalar {depth s : Nat} {p : Properties Nat} {text : List Char} {plain : Bool} {v : Value}
      (h : ofScalar p.tag text plain = .ok v) :
      StandsFor document s' depth (.scalar p text plain) s (withTag p.tag v)
  | sequence {depth s : Nat} {p : Properties Nat} {items : List (Node Nat)} {vs : List Value}
      (h : (items.mapM (ofNode document depth)).run s = .ok (vs, s')) :
      StandsFor document s' (depth + 1) (.sequence p items) s (withTag p.tag (sequence vs))
  | mapping {depth s : Nat} {p : Properties Nat} {entries : List (Node Nat × Node Nat)}
      {es : Entries} (h : (entries.mapM (ofEntry document depth)).run s = .ok (es, s'))
      (hdistinct : ofEntries.distinct (es.map (·.1)) = true) :
      StandsFor document s' (depth + 1) (.mapping p entries) s (withTag p.tag (mapping es))

/-- A node is composed in one of three ways. -/
theorem standsFor_of_ofNode {document : LinkedDocument} {depth : Nat} {node : Node Nat} {s s' : Nat}
    {v : Value} (h : (ofNode document depth node).run s = .ok (v, s')) :
    ∃ target s₁, (document.target node).run s = .ok (target, s₁) ∧
      StandsFor document s' depth target s₁ v := by
  unfold ofNode at h
  rcases run_bind_eq_ok_iff.mp h with ⟨target, s₁, htarget, h⟩
  refine ⟨target, s₁, htarget, ?_⟩
  cases target with
  | reference number => cases h
  | scalar p text plain =>
      rcases run_bind_eq_ok_iff.mp h with ⟨w, s₂, hw, h⟩
      cases h
      exact .scalar (run_liftM_eq_ok hw).1
  | sequence p items =>
      cases depth with
      | zero => cases h
      | succ depth =>
          rcases run_bind_eq_ok_iff.mp h with ⟨vs, s₂, hvs, h⟩
          cases h
          exact .sequence hvs
  | mapping p entries =>
      cases depth with
      | zero => cases h
      | succ depth =>
          rcases run_bind_eq_ok_iff.mp h with ⟨es, s₂, hes, h⟩
          rcases run_bind_eq_ok_iff.mp h with ⟨w, s₃, hw, h⟩
          cases h
          rcases run_liftM_eq_ok hw with ⟨hentries, rfl⟩
          unfold ofEntries at hentries
          split at hentries
          · rename_i hdistinct
            cases hentries
            exact .mapping hes hdistinct
          · cases hentries

/-- What the members of a mapping stand for. -/
theorem forall_of_mapM_ofEntry {document : LinkedDocument} {depth : Nat} {P : Value → Prop}
    (h : ∀ node s v s', (ofNode document depth node).run s = .ok (v, s') → P v)
    {entries : List (Node Nat × Node Nat)} {s s' : Nat} {es : Entries}
    (hes : (entries.mapM (ofEntry document depth)).run s = .ok (es, s')) :
    ∀ e ∈ es, P e.1 ∧ P e.2 := by
  refine forall_of_mapM (fun entry s e s' hentry => ?_) hes
  rcases run_bind_eq_ok_iff.mp hentry with ⟨k, s₁, hk, hentry⟩
  rcases run_bind_eq_ok_iff.mp hentry with ⟨v, s₂, hv, hentry⟩
  cases hentry
  exact ⟨h _ _ _ _ hk, h _ _ _ _ hv⟩

/-- What a node stands for is a proper value. -/
theorem isProper_of_ofNode (document : LinkedDocument) {depth : Nat} {node : Node Nat} {s s' : Nat}
    {v : Value} (h : (ofNode document depth node).run s = .ok (v, s')) : v.IsProper := by
  -- the induction is on the depth left, not on the node: an alias leads back to a node that
  -- need not stand below it
  induction depth using Nat.strongRecOn generalizing node s v s' with
  | ind depth ih =>
      rcases standsFor_of_ofNode h with ⟨target, s₁, _, hstands⟩
      cases hstands with
      | scalar hscalar => exact isProper_withTag _ (isScalar_of_ofScalar hscalar).isProperUntagged
      | @sequence below _ _ _ _ hvs =>
          have hproper := forall_of_mapM
            (fun _ _ _ _ hrun => ih below (Nat.lt_succ_self below) hrun) hvs
          exact isProper_withTag _ ⟨.sequence hproper, rfl⟩
      | @mapping below _ _ _ _ hes hdistinct =>
          have hproper := forall_of_mapM_ofEntry
            (fun _ _ _ _ hrun => ih below (Nat.lt_succ_self below) hrun) hes
          exact isProper_withTag _ ⟨.mapping hdistinct (fun e he => (hproper e he).1)
            fun e he => (hproper e he).2, rfl⟩

/-- What a document stands for is a proper value. -/
theorem isProper_of_ofContent {content : Option (Node AnchorName)} {v : Value}
    (h : ofContent content = .ok v) : v.IsProper := by
  unfold ofContent at h
  cases content with
  | none =>
      cases h
      exact .null
  | some node =>
      rcases bind_eq_ok_iff.mp h with ⟨document, _, h⟩
      unfold ofDocument at h
      cases hrun : (ofNode document depthLimit document.root).run document.aliasLimit with
      | error defect =>
          rw [StateT.run'_eq, hrun] at h
          cases h
      | ok p =>
          rw [StateT.run'_eq, hrun] at h
          cases h
          exact isProper_of_ofNode document hrun

end Value

/-- What is read is a proper value. -/
theorem isProper_of_read {text : String} {v : Value} (h : read text = .ok v) : v.IsProper := by
  rcases bind_eq_ok_iff.mp h with ⟨content, _, hcontent⟩
  exact Value.isProper_of_ofContent hcontent

theorem isProper_of_readFirst {text : String} {v : Value} (h : readFirst text = .ok (some v)) :
    v.IsProper := by
  rcases bind_eq_ok_iff.mp h with ⟨w, hw, hsome⟩
  rcases bind_eq_ok_iff.mp hw with ⟨content, _, hcontent⟩
  have hv : w = v := by
    cases hnull : w.isNull with
    | true =>
        rw [hnull] at hsome
        cases hsome
    | false =>
        rw [hnull] at hsome
        exact Option.some.inj (Except.ok.inj hsome)
  exact hv ▸ Value.isProper_of_ofContent hcontent

end OperatorBundle.Yaml
