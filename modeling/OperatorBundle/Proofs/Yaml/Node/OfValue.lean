import OperatorBundle.Proofs.Yaml.Node.OfTokens
import OperatorBundle.Proofs.Yaml.Restorable

/-!
# The value of a node of a value

The node that has the shape of a value stands for that value: it holds no alias, and its scalars are
spelled so that their types can be told.
-/

namespace OperatorBundle.Yaml

/-! ## Links -/

namespace Node

/-- A value is written without anchors and aliases, so nothing is settled. -/
theorem run_link_nodeOf {v : Value} (h : v.IsProper) (tag : Option TagText) (s : AnchorNumbers) :
    (v.nodeOf tag).link.run s = .ok (v.nodeOf tag, s) := by
  induction h generalizing tag s with
  | null => rfl
  | bool b => rfl
  | number => rfl
  | string s => rfl
  | @sequence vs _ ih =>
      have hitems : ∀ (ws : List Value) (s : AnchorNumbers), (∀ w ∈ ws, w ∈ vs) →
          (linkItems (Value.nodesOfItems ws)).run s = .ok (Value.nodesOfItems ws, s) := by
        intro ws s hws
        induction ws with
        | nil => rfl
        | cons w ws ihws =>
            rw [Value.nodesOfItems, linkItems,
              run_bind_ok (ih w (hws w List.mem_cons_self) none s),
              run_bind_ok (ihws fun u hu => hws u (List.mem_cons_of_mem w hu))]
            rfl
      have hproperties : (linkProperties { tag }).run s = .ok ({ tag }, s) := rfl
      rw [Value.nodeOf, link, run_bind_ok hproperties, run_bind_ok (hitems vs s fun w hw => hw)]
      rfl
  | @mapping es _ _ _ ihkeys ihvalues =>
      have hentries : ∀ (fs : Entries) (s : AnchorNumbers), (∀ f ∈ fs, f ∈ es) →
          (linkEntries (Value.nodesOfEntries fs)).run s = .ok (Value.nodesOfEntries fs, s) := by
        intro fs s hfs
        induction fs with
        | nil => rfl
        | cons f fs ihfs =>
            rcases f with ⟨k, v⟩
            have hmem := hfs (k, v) List.mem_cons_self
            rw [Value.nodesOfEntries, linkEntries, run_bind_ok (ihkeys _ hmem none s),
              run_bind_ok (ihvalues _ hmem none s),
              run_bind_ok (ihfs fun e he => hfs e (List.mem_cons_of_mem (k, v) he))]
            rfl
      have hproperties : (linkProperties { tag }).run s = .ok ({ tag }, s) := rfl
      rw [Value.nodeOf, link, run_bind_ok hproperties, run_bind_ok (hentries es s fun f hf => hf)]
      rfl
  | tagged _ _ _ ih => exact ih _ s

end Node

/-- The document of a value is its node. -/
theorem LinkedDocument.ofNode_nodeOf {v : Value} (h : v.IsProper) : ∃ targets,
    LinkedDocument.ofNode (v.nodeOf none) = .ok { root := v.nodeOf none, targets } := by
  unfold LinkedDocument.ofNode
  rw [StateT.run'_eq, Node.run_link_nodeOf h]
  exact ⟨_, rfl⟩

namespace Value

/-! ## Scalars -/

theorem mapM_id_map_some (text : List Char) : (text.map some).mapM id = some text := by
  induction text with
  | nil => rfl
  | cons c text ih =>
      rw [List.map_cons, List.mapM_cons, ih]
      rfl

/-- No tag of a document's own demands a type. -/
theorem ofTag?_own (text : List Char) : CoreType.ofTag? (String.ofList ('!' :: text)) = none := by
  refine List.find?_eq_none.mpr fun type _ hsame => ?_
  have hhead : type.tag.toList.head? = some '!' := by
    rw [beq_iff_eq.mp hsame, String.toList_ofList]
    rfl
  cases type <;> exact absurd hhead (by decide)

/-- A tag of a document's own has no part in the type of a scalar. -/
theorem ofScalar_tagText (name : String) (text : List Char) (plain : Bool) :
    ofScalar (some (tagText name)) text plain = ofScalar none text plain := by
  have hcore : ((tagText name).mapM id).bind (CoreType.ofTag? ∘ String.ofList) = none := by
    rw [tagText, mapM_id_map_some]
    exact ofTag?_own _
  unfold ofScalar
  simp only [hcore]
  cases plain <;> rfl

/-- The text of a number that is kept is read as that number. -/
theorem ofScalar_number {n : Number} (h : n.IsKept) :
    ofScalar none n.text.toList true = .ok (number n) := by
  unfold ofScalar
  simp only [if_true]
  rw [ofPlain, Number.spelled?_text h]
  rfl

/-- What is written plain is spelled like nothing else. -/
theorem spelled?_of_plain {text : List Char} (h : Layout.style text = .plain) :
    spelled? text = .ok none := by
  have hclear : isAmbiguous text = false := by
    unfold Layout.style at h
    split at h
    · split at h <;> cases h
    · split at h
      · rename_i hplain
        exact Bool.not_eq_true' _ ▸ (Bool.and_eq_true_iff.mp hplain).2
      · split at h <;> cases h
  unfold isAmbiguous at hclear
  split at hclear
  · assumption
  · cases hclear

/-- A string comes back from the text that spells it. -/
theorem ofScalar_string (s : String) :
    ofScalar none s.toList (Layout.style s.toList == .plain) = .ok (string s) := by
  unfold ofScalar
  cases hplain : Layout.style s.toList == .plain with
  | false => simp only [Bool.false_eq_true, if_false, String.ofList_toList]
  | true =>
      simp only [if_true]
      rw [ofPlain, spelled?_of_plain (beq_iff_eq.mp hplain), ok_bind, Option.getD_none,
        String.ofList_toList]
      rfl

/-! ## Tags -/

/-- The tag that comes back from the text of a tag. -/
def restoredTag (name : String) : String :=
  match Layout.tagBody name with
  | [] => "!"
  | '!' :: c :: r => String.ofList (c :: r)
  | body => String.ofList body

/-- A printed tag is the value's own, under the name that is restored from it. -/
theorem ownTag?_tagText (name : String) : ownTag? (tagText name) = some (restoredTag name) := by
  unfold ownTag? tagText restoredTag
  rw [mapM_id_map_some]
  rcases Layout.tagBody name with _ | ⟨c, body⟩
  · rfl
  · by_cases hc : c = '!'
    · rw [hc]
      cases body <;> rfl
    · simp [hc]

/-- Of two exclamation marks in front of a tag at most one comes back. -/
theorem length_restoredTag_le {name : String} (h : Layout.tagBody name ≠ []) :
    (restoredTag name).toList.length ≤ (Layout.tagBody name).length := by
  unfold restoredTag
  split
  · rename_i hbody
    exact absurd hbody h
  · rename_i hbody
    rw [hbody, String.toList_ofList]
    exact Nat.le_succ _
  · rw [String.toList_ofList]

/-- A readable tag comes back as it was only if it is faithful. -/
theorem restoredTag_eq_iff {name : String} (hne : name ≠ "")
    (hreadable : Property.isReadableTag name = true) :
    restoredTag name = name ↔ isFaithfulTag name = true := by
  unfold Property.isReadableTag at hreadable
  unfold isFaithfulTag
  rw [Bool.or_eq_true, beq_iff_eq, Bool.and_eq_true, bne_iff_ne]
  cases hname : name.toList with
  | nil => exact absurd (String.toList_eq_nil_iff.mp hname) hne
  | cons c r =>
      have hback : String.ofList (c :: r) = name := by rw [← hname, String.ofList_toList]
      by_cases hc : c = '!'
      · -- the mark in front is taken for the one that all tags have
        subst hc
        have hbody : Layout.tagBody name = r := by
          unfold Layout.tagBody
          rw [hname]
          rfl
        constructor
        · intro hrestored
          refine .inl ?_
          cases r with
          | nil => exact hback.symm
          | cons d r =>
              have hle := length_restoredTag_le (by rw [hbody]; exact List.cons_ne_nil d r)
              rw [hrestored, hname, hbody] at hle
              exact absurd hle (Nat.not_succ_le_self _)
        · rintro (hmark | ⟨hhead, _⟩)
          · rw [hmark]
            rfl
          · exact absurd rfl hhead
      · have hbody : Layout.tagBody name = c :: r := by
          unfold Layout.tagBody
          rw [hname]
          simp [hc]
        constructor
        · intro _
          refine .inr ⟨fun hhead => hc (Option.some.inj hhead), ?_⟩
          rw [← hbody]
          exact hreadable
        · intro _
          unfold restoredTag
          simp [hbody, hc, hback]

/-- A tag of a document's own is put around the value that a node stands for without it. -/
theorem run_ofNode_tagText (document : LinkedDocument) (depth : Nat) {v : Value}
    (hfree : v.isTagged = false) (name : String) (s : Nat) :
    (ofNode document depth (v.nodeOf (some (tagText name)))).run s =
      ((ofNode document depth (v.nodeOf none)).run s).map fun p =>
        (withTag (some (tagText name)) p.1, p.2) := by
  have htarget : ∀ tag, (document.target (v.nodeOf tag)).run s = .ok (v.nodeOf tag, s) := by
    intro tag
    cases v with
    | tagged name v => cases hfree
    | _ => rfl
  -- a scalar is typed before the tag is put around it, and the tag has no part in the type
  have hscalar : ∀ (text : List Char) (plain : Bool),
      (∀ tag, (v.nodeOf tag : Node Nat) = .scalar { tag } text plain) →
      (ofNode document depth (v.nodeOf (some (tagText name)))).run s =
        ((ofNode document depth (v.nodeOf none)).run s).map fun p =>
          (withTag (some (tagText name)) p.1, p.2) := by
    intro text plain hnode
    unfold ofNode
    rw [run_bind_ok (htarget _), run_bind_ok (htarget _), hnode, hnode]
    simp only [ofScalar_tagText]
    cases ofScalar none text plain <;> rfl
  cases v with
  | sequence vs =>
      unfold ofNode
      rw [run_bind_ok (htarget _), run_bind_ok (htarget _), nodeOf, nodeOf]
      cases depth with
      | zero => rfl
      | succ depth =>
          simp only
          rw [StateT.run_bind, StateT.run_bind]
          cases ((nodesOfItems vs).mapM (ofNode document depth)).run s <;> rfl
  | mapping es =>
      unfold ofNode
      rw [run_bind_ok (htarget _), run_bind_ok (htarget _), nodeOf, nodeOf]
      cases depth with
      | zero => rfl
      | succ depth =>
          simp only
          rw [StateT.run_bind, StateT.run_bind]
          generalize StateT.run _ s = read
          cases read with
          | error defect => rfl
          | ok p =>
              rcases p with ⟨read, s'⟩
              simp only [ok_bind]
              cases ofEntries read <;> rfl
  | tagged name v => cases hfree
  | _ => exact hscalar _ _ fun _ => rfl

/-! ## Values -/

variable {document : LinkedDocument}

theorem nodesOfItems_eq (vs : List Value) :
    nodesOfItems vs = vs.map fun v => (v.nodeOf none : Node Nat) := by
  induction vs with
  | nil => rfl
  | cons v vs ih => rw [nodesOfItems, ih, List.map_cons]

theorem nodesOfEntries_eq (es : Entries) :
    nodesOfEntries es = es.map fun e => ((e.1.nodeOf none : Node Nat), e.2.nodeOf none) := by
  induction es with
  | nil => rfl
  | cons e es ih => rw [nodesOfEntries, ih, List.map_cons]

/-- Does the node of this value stand for it? -/
def IsRead (document : LinkedDocument) (depth s : Nat) (v : Value) : Prop :=
  (ofNode document depth (v.nodeOf none)).run s = .ok (v, s)

/-- A scalar node stands for its value where the scalar's text does. -/
theorem isRead_scalar {depth s : Nat} {v : Value} {text : List Char} {plain : Bool}
    (hnode : (v.nodeOf none : Node Nat) = .scalar {} text plain)
    (h : ofScalar none text plain = .ok v) : IsRead document depth s v := by
  have htarget : (document.target (.scalar {} text plain)).run s = .ok (.scalar {} text plain, s) :=
    rfl
  unfold IsRead ofNode
  rw [hnode, run_bind_ok htarget]
  simp only
  rw [h]
  rfl

/-- A sequence node stands for the sequence where its items do, one level deeper. -/
theorem isRead_sequence {depth s : Nat} {vs : List Value}
    (h : ∀ v ∈ vs, IsRead document depth s v) : IsRead document (depth + 1) s (sequence vs) := by
  have htarget : (document.target ((sequence vs).nodeOf none)).run s =
      .ok ((sequence vs).nodeOf none, s) := rfl
  have hitems : ((nodesOfItems vs).mapM (ofNode document depth)).run s = .ok (vs, s) := by
    rw [nodesOfItems_eq]
    exact run_mapM_map h
  unfold IsRead ofNode
  rw [run_bind_ok htarget, nodeOf]
  simp only
  rw [run_bind_ok hitems]
  rfl

/-- A mapping node stands for the mapping where its keys differ and its entries are read. -/
theorem isRead_mapping {depth s : Nat} {es : Entries}
    (hdistinct : ofEntries.distinct (es.map (·.1)) = true)
    (h : ∀ e ∈ es, IsRead document depth s e.1 ∧ IsRead document depth s e.2) :
    IsRead document (depth + 1) s (mapping es) := by
  have htarget : (document.target ((mapping es).nodeOf none)).run s =
      .ok ((mapping es).nodeOf none, s) := rfl
  have hread : ((nodesOfEntries es).mapM (ofEntry document depth)).run s = .ok (es, s) := by
    rw [nodesOfEntries_eq]
    refine run_mapM_map fun e he => ?_
    rw [ofEntry, run_bind_ok (h e he).1, run_bind_ok (h e he).2]
    rfl
  unfold IsRead ofNode
  rw [run_bind_ok htarget, nodeOf]
  refine (run_bind_ok hread).trans ?_
  rw [ofEntries, if_pos hdistinct]
  rfl

/-- A tagged node stands for the tagged value where the name is restored. -/
theorem isRead_tagged {depth s : Nat} {name : String} {v : Value} (hfree : v.isTagged = false)
    (hname : restoredTag name = name) (h : IsRead document depth s v) :
    IsRead document depth s (tagged name v) := by
  unfold IsRead
  rw [nodeOf, run_ofNode_tagText document depth hfree, h]
  simp only [Except.map, withTag, Option.bind_some, ownTag?_tagText, hname]

/-- The node of a proper value that is not too deep and whose tags come back stands for it. -/
theorem isRead_of_isProper {v : Value} (h : v.IsProper) {depth : Nat} (s : Nat)
    (hdepth : v.nesting ≤ depth) (htags : ∀ name ∈ v.tagNames, restoredTag name = name) :
    IsRead document depth s v := by
  induction h generalizing depth with
  | null => exact isRead_scalar rfl rfl
  | bool b => exact isRead_scalar rfl (by cases b <;> rfl)
  | number hn => exact isRead_scalar rfl (ofScalar_number hn)
  | string s => exact isRead_scalar rfl (ofScalar_string s)
  -- each collection uses up one level of the depth that is left
  | sequence _ ih =>
      cases depth with
      | zero => exact absurd hdepth (Nat.not_succ_le_zero _)
      | succ depth =>
          refine isRead_sequence fun v hv => ?_
          exact ih v hv (Nat.le_trans (nesting_le_of_mem hv) (Nat.le_of_succ_le_succ hdepth))
            fun name hname => htags name (mem_tagNames_sequence.mpr ⟨v, hv, hname⟩)
  | mapping hdistinct _ _ ihkeys ihvalues =>
      cases depth with
      | zero => exact absurd hdepth (Nat.not_succ_le_zero _)
      | succ depth =>
          refine isRead_mapping hdistinct fun e he => ?_
          have hle := nesting_le_of_mem_entries he
          have hbound := Nat.le_of_succ_le_succ hdepth
          exact ⟨ihkeys e he (Nat.le_trans hle.1 hbound)
              fun name hname => htags name (mem_tagNames_mapping.mpr ⟨e, he, .inl hname⟩),
            ihvalues e he (Nat.le_trans hle.2 hbound)
              fun name hname => htags name (mem_tagNames_mapping.mpr ⟨e, he, .inr hname⟩)⟩
  | tagged _ hfree _ ih =>
      exact isRead_tagged hfree (htags _ List.mem_cons_self)
        (ih hdepth fun name hname => htags name (List.mem_cons_of_mem _ hname))

/-! ## What comes back -/

/-- A tag does not nest. -/
theorem nesting_withTag (tag : Option TagText) (v : Value) : (withTag tag v).nesting = v.nesting := by
  unfold withTag
  split <;> rfl

theorem nestingOfItems_le {vs : List Value} {depth : Nat} (h : ∀ v ∈ vs, v.nesting ≤ depth) :
    nestingOfItems vs ≤ depth := by
  induction vs with
  | nil => exact Nat.zero_le depth
  | cons v vs ih =>
      rw [nestingOfItems]
      exact Nat.max_le.mpr ⟨h v List.mem_cons_self, ih fun w hw => h w (List.mem_cons_of_mem v hw)⟩

theorem nestingOfEntries_le {es : Entries} {depth : Nat}
    (h : ∀ e ∈ es, e.1.nesting ≤ depth ∧ e.2.nesting ≤ depth) : nestingOfEntries es ≤ depth := by
  induction es with
  | nil => exact Nat.zero_le depth
  | cons e es ih =>
      rcases e with ⟨k, v⟩
      rw [nestingOfEntries]
      exact Nat.max_le.mpr ⟨Nat.max_le.mpr (h (k, v) List.mem_cons_self),
        ih fun f hf => h f (List.mem_cons_of_mem (k, v) hf)⟩

/-- Nothing is read that is nested too deep. -/
theorem nesting_le_of_ofNode {depth : Nat} {node : Node Nat} {s s' : Nat} {v : Value}
    (h : (ofNode document depth node).run s = .ok (v, s')) : v.nesting ≤ depth := by
  -- on the depth and not on the value, which is only known once it is read
  induction depth using Nat.strongRecOn generalizing node s v s' with
  | ind depth ih =>
      rcases standsFor_of_ofNode h with ⟨target, s₁, _, hstands⟩
      cases hstands with
      | scalar hscalar =>
          rw [nesting_withTag]
          cases isScalar_of_ofScalar hscalar <;> exact Nat.zero_le depth
      | @sequence below _ _ _ _ hvs =>
          rw [nesting_withTag]
          exact Nat.succ_le_succ (nestingOfItems_le (forall_of_mapM
            (fun _ _ _ _ hrun => ih below (Nat.lt_succ_self below) hrun) hvs))
      | @mapping below _ _ _ _ hes _ =>
          rw [nesting_withTag]
          exact Nat.succ_le_succ (nestingOfEntries_le (forall_of_mapM_ofEntry
            (fun _ _ _ _ hrun => ih below (Nat.lt_succ_self below) hrun) hes))

/-- All tags of a value whose node stands for it come back. -/
theorem restoredTag_of_ofNode {v : Value} (h : v.IsProper) {depth s s' : Nat}
    (hrun : (ofNode document depth (v.nodeOf none)).run s = .ok (v, s')) :
    ∀ name ∈ v.tagNames, restoredTag name = name := by
  induction h generalizing depth s s' with
  | null => exact fun name hname => absurd hname List.not_mem_nil
  | bool b => exact fun name hname => absurd hname List.not_mem_nil
  | number => exact fun name hname => absurd hname List.not_mem_nil
  | string s => exact fun name hname => absurd hname List.not_mem_nil
  | @sequence vs _ ih =>
      rcases standsFor_of_ofNode hrun with ⟨target, s₁, htarget, hstands⟩
      cases htarget
      rw [nodeOf, nodesOfItems_eq] at hstands
      -- the members are read to themselves, so the induction reaches them
      generalize hv : sequence vs = v at hstands
      cases hstands with
      | sequence hitems =>
          cases Value.sequence.inj hv
          intro name hname
          rcases mem_tagNames_sequence.mp hname with ⟨w, hw, hname⟩
          rcases exists_run_of_mapM_map hitems w hw with ⟨s₁, s₂, hitem⟩
          exact ih w hw hitem name hname
  | @mapping es _ _ _ ihkeys ihvalues =>
      rcases standsFor_of_ofNode hrun with ⟨target, s₁, htarget, hstands⟩
      cases htarget
      rw [nodeOf, nodesOfEntries_eq] at hstands
      generalize hv : mapping es = v at hstands
      cases hstands with
      | mapping hentries _ =>
          cases Value.mapping.inj hv
          intro name hname
          rcases mem_tagNames_mapping.mp hname with ⟨e, he, hname⟩
          rcases exists_run_of_mapM_map hentries e he with ⟨s₁, s₂, hentry⟩
          rcases run_bind_eq_ok_iff.mp hentry with ⟨k, s₃, hkey, hentry⟩
          rcases run_bind_eq_ok_iff.mp hentry with ⟨v, s₄, hvalue, hentry⟩
          cases hentry
          rcases hname with hname | hname
          · exact ihkeys _ he hkey name hname
          · exact ihvalues _ he hvalue name hname
  | @tagged name v _ hfree _ ih =>
      rw [nodeOf, run_ofNode_tagText document depth hfree] at hrun
      cases hcontent : (ofNode document depth (v.nodeOf none)).run s with
      | error defect =>
          rw [hcontent] at hrun
          cases hrun
      | ok p =>
          rcases p with ⟨w, s₁⟩
          rw [hcontent] at hrun
          simp only [Except.map, withTag, Option.bind_some, ownTag?_tagText] at hrun
          rcases Value.tagged.inj (Prod.mk.inj (Except.ok.inj hrun)).1 with ⟨hname, rfl⟩
          intro name' hname'
          rcases List.mem_cons.mp hname' with rfl | hname'
          · exact hname
          · exact ih hcontent name' hname'

/-- The node of a proper value is composed to that value if, and only if, it is not too deep and its
tags come back. -/
theorem ofContent_nodeOf_iff {v : Value} (h : v.IsProper) :
    ofContent (some (v.nodeOf none)) = .ok v ↔
      v.nesting ≤ depthLimit ∧ ∀ name ∈ v.tagNames, restoredTag name = name := by
  rcases LinkedDocument.ofNode_nodeOf h with ⟨targets, hdocument⟩
  unfold ofContent
  simp only
  rw [hdocument, ok_bind, ofDocument, StateT.run'_eq]
  -- there are no aliases to be counted, so any limit will do
  generalize LinkedDocument.aliasLimit _ = s
  constructor
  · intro hread
    cases hrun : (ofNode ⟨v.nodeOf none, targets⟩ depthLimit (v.nodeOf none)).run s with
    | error defect =>
        rw [hrun] at hread
        cases hread
    | ok p =>
        rcases p with ⟨w, s'⟩
        rw [hrun] at hread
        cases hread
        exact ⟨nesting_le_of_ofNode hrun, restoredTag_of_ofNode h hrun⟩
  · rintro ⟨hdepth, htags⟩
    rw [isRead_of_isProper h s hdepth htags]
    rfl

end Value

end OperatorBundle.Yaml
