import OperatorBundle.Proofs.Yaml.Edit
import Mathlib.Data.Fintype.EquivFin

/-!
# Mappings without repeated keys

`Value.HasUniqueKeys` says of a value that in no mapping in it, at whatever depth, two keys are
equal.  Equality of keys is `Value.same`, which looks for each entry of one mapping among those of
the other and not the other way round; that it is symmetric all the same (`same_symm`) is owed to
the keys being unique further inside.  So a mapping is found to have unique keys when each key is
compared with the later ones only, which is what a reader does (`isHereditary_hasUniqueKeys`).
-/

namespace OperatorBundle

/-! ## Equal numbers -/

namespace Decimal.Binary64

/-- Is this a zero, of whatever sign? -/
def IsZero (x : Binary64) : Prop := ∃ negative exponent, x = finite negative 0 exponent

theorem same_iff {x y : Binary64} : x.same y = true ↔ x = y ∨ x.IsZero ∧ y.IsZero := by
  unfold same
  split
  · rename_i s e t f
    exact iff_of_true rfl (.inr ⟨⟨s, e, rfl⟩, ⟨t, f, rfl⟩⟩)
  · rename_i hother
    rw [beq_iff_eq]
    constructor
    · exact .inl
    · rintro (heq | ⟨⟨s, e, hx⟩, t, f, hy⟩)
      · exact heq
      · exact (hother s e t f hx hy).elim

end Decimal.Binary64

namespace Yaml

open Decimal (Binary64)

namespace Number

/-- Being taken for one another is symmetric. -/
theorem same_symm {n m : Number} (h : n.same m = true) : m.same n = true := by
  cases n with
  | integer a =>
      cases m with
      | integer b => exact beq_iff_eq.mpr (beq_iff_eq.mp h).symm
      | fraction y => cases h
  | fraction x =>
      cases m with
      | integer b => cases h
      | fraction y =>
          refine Binary64.same_iff.mpr ?_
          rcases Binary64.same_iff.mp h with heq | ⟨hx, hy⟩
          · exact .inl heq.symm
          · exact .inr ⟨hy, hx⟩

/-- Being taken for one another is transitive. -/
theorem same_trans {n m k : Number} (hnm : n.same m = true) (hmk : m.same k = true) :
    n.same k = true := by
  cases n with
  | integer a =>
      cases m with
      | integer b =>
          obtain rfl : a = b := beq_iff_eq.mp hnm
          exact hmk
      | fraction y => cases hnm
  | fraction x =>
      cases m with
      | integer b => cases hnm
      | fraction y =>
          cases k with
          | integer c => cases hmk
          | fraction z =>
              refine Binary64.same_iff.mpr ?_
              rcases Binary64.same_iff.mp hnm with rfl | ⟨hx, hy⟩
              · exact Binary64.same_iff.mp hmk
              · rcases Binary64.same_iff.mp hmk with rfl | ⟨_, hz⟩
                · exact .inr ⟨hx, hy⟩
                · exact .inr ⟨hx, hz⟩

end Number

namespace Value

/-! ## Unique keys -/

/-- Is the first value the second or a part of it: an item, a key, the value of a key, what stands
behind a tag, or a part of such a part? -/
inductive IsPartOf : Value → Value → Prop where
  | itself (v : Value) : IsPartOf v v
  | item {w v : Value} {vs : List Value} (hv : v ∈ vs) (h : IsPartOf w v) :
      IsPartOf w (sequence vs)
  | key {w : Value} {es : Entries} {e : Value × Value} (he : e ∈ es) (h : IsPartOf w e.1) :
      IsPartOf w (mapping es)
  | value {w : Value} {es : Entries} {e : Value × Value} (he : e ∈ es) (h : IsPartOf w e.2) :
      IsPartOf w (mapping es)
  | tagged {w v : Value} (name : String) (h : IsPartOf w v) : IsPartOf w (tagged name v)

/-- Are no two keys of a mapping equal, whichever of them is compared with the other? -/
def KeysDiffer (es : Entries) : Prop :=
  es.Pairwise fun e f => e.1.same f.1 = false ∧ f.1.same e.1 = false

/-- Has no mapping in a value, the value itself included, two equal keys? -/
def HasUniqueKeys (v : Value) : Prop :=
  ∀ es, (mapping es).IsPartOf v → KeysDiffer es

/-- A sequence repeats no key exactly when none of its items does. -/
theorem hasUniqueKeys_sequence_iff {vs : List Value} :
    (sequence vs).HasUniqueKeys ↔ ∀ v ∈ vs, v.HasUniqueKeys := by
  constructor
  · intro h v hv es hes
    exact h es (.item hv hes)
  · intro h es hes
    cases hes with
    | item hv hes => exact h _ hv es hes

/-- A mapping repeats no key exactly when its own keys differ and no key or value repeats one. -/
theorem hasUniqueKeys_mapping_iff {es : Entries} :
    (mapping es).HasUniqueKeys ↔
      KeysDiffer es ∧ ∀ e ∈ es, e.1.HasUniqueKeys ∧ e.2.HasUniqueKeys := by
  constructor
  · intro h
    refine ⟨h es (.itself _), fun e he => ⟨fun fs hfs => ?_, fun fs hfs => ?_⟩⟩
    · exact h fs (.key he hfs)
    · exact h fs (.value he hfs)
  · rintro ⟨hdiffer, hentries⟩ fs hfs
    cases hfs with
    | itself => exact hdiffer
    | key he hfs => exact (hentries _ he).1 fs hfs
    | value he hfs => exact (hentries _ he).2 fs hfs

/-- A tag does not matter to repeated keys. -/
theorem hasUniqueKeys_tagged_iff {name : String} {v : Value} :
    (tagged name v).HasUniqueKeys ↔ v.HasUniqueKeys := by
  constructor
  · intro h es hes
    exact h es (.tagged name hes)
  · intro h es hes
    cases hes with
    | tagged _ hes => exact h es hes

/-- What has no parts has no keys. -/
theorem hasUniqueKeys_of_isScalar {v : Value} (h : v.IsScalar) : v.HasUniqueKeys := by
  intro es hes
  cases h <;> cases hes

/-! ## Equal values -/

/-- Two sequences are taken for one another item by item. -/
theorem same_sequence_iff {vs ws : List Value} :
    (sequence vs).same (sequence ws) = true ↔ List.Forall₂ (fun v w => v.same w = true) vs ws := by
  show sameItems vs ws = true ↔ _
  induction vs generalizing ws with
  | nil => cases ws <;> simp [sameItems]
  | cons v vs ih => cases ws <;> simp [sameItems, ih]

/-- Two mappings are taken for one another when they are of one length and each entry of the first is
found in the second. -/
theorem same_mapping_iff {es fs : Entries} :
    (mapping es).same (mapping fs) = true ↔ es.length = fs.length ∧
      ∀ e ∈ es, ∃ f ∈ fs, e.1.same f.1 = true ∧ e.2.same f.2 = true := by
  have hentries : sameEntries es fs = true ↔
      ∀ e ∈ es, ∃ f ∈ fs, e.1.same f.1 = true ∧ e.2.same f.2 = true := by
    induction es with
    | nil => simp [sameEntries]
    | cons e es ih => simp [sameEntries, ih]
  show (es.length == fs.length && sameEntries es fs) = true ↔ _
  rw [Bool.and_eq_true, beq_iff_eq, hentries]

/-- How equal values are made. -/
inductive IsLike : Value → Value → Prop where
  | null : IsLike null null
  | bool (b : Bool) : IsLike (bool b) (bool b)
  | number {n m : Number} (h : n.same m = true) : IsLike (number n) (number m)
  | string (s : String) : IsLike (string s) (string s)
  | sequence {vs ws : List Value} (h : List.Forall₂ (fun v w => v.same w = true) vs ws) :
      IsLike (sequence vs) (sequence ws)
  | mapping {es fs : Entries} (hlength : es.length = fs.length)
      (hfound : ∀ e ∈ es, ∃ f ∈ fs, e.1.same f.1 = true ∧ e.2.same f.2 = true) :
      IsLike (mapping es) (mapping fs)
  | tagged (name : String) {v w : Value} (h : v.same w = true) :
      IsLike (tagged name v) (tagged name w)

theorem same_iff {v w : Value} : v.same w = true ↔ IsLike v w := by
  constructor
  · intro h
    cases v with
    | null =>
        cases w with
        | null => exact .null
        | _ => cases h
    | bool b =>
        cases w with
        | bool c => exact beq_iff_eq.mp h ▸ .bool b
        | _ => cases h
    | number n =>
        cases w with
        | number m => exact .number h
        | _ => cases h
    | string s =>
        cases w with
        | string t => exact beq_iff_eq.mp h ▸ .string s
        | _ => cases h
    | sequence vs =>
        cases w with
        | sequence ws => exact .sequence (same_sequence_iff.mp h)
        | _ => cases h
    | mapping es =>
        cases w with
        | mapping fs => exact .mapping (same_mapping_iff.mp h).1 (same_mapping_iff.mp h).2
        | _ => cases h
    | tagged name v =>
        cases w with
        | tagged name' w =>
            obtain ⟨hname, h⟩ := (Bool.and_eq_true _ _).mp h
            exact beq_iff_eq.mp hname ▸ .tagged name h
        | _ => cases h
  · intro h
    cases h with
    | null => rfl
    | bool b => exact beq_self_eq_true b
    | number h => exact h
    | string s => exact beq_self_eq_true s
    | sequence h => exact same_sequence_iff.mpr h
    | mapping hlength hfound => exact same_mapping_iff.mpr ⟨hlength, hfound⟩
    | tagged name h => exact (Bool.and_eq_true _ _).mpr ⟨beq_self_eq_true name, h⟩

/-! ## Equality of keys is an equivalence -/

/-- Where each of some things is related to one of as many others, and no two of them to the same
one, each of the others is related to one of them. -/
theorem exists_mem_of_pairwise {α β : Type} {R : α → β → Prop} {as : List α} {bs : List β}
    (hlength : as.length = bs.length) (htotal : ∀ a ∈ as, ∃ b ∈ bs, R a b)
    (hapart : as.Pairwise fun a a' => ∀ b, R a b → R a' b → False) :
    ∀ b ∈ bs, ∃ a ∈ as, R a b := by
  have hposition : ∀ i, ∃ j, R (as.get i) (bs.get j) := by
    intro i
    obtain ⟨b, hb, hrelated⟩ := htotal (as.get i) (List.get_mem as i)
    obtain ⟨j, rfl⟩ := List.get_of_mem hb
    exact ⟨j, hrelated⟩
  -- items that are apart are related to different items, and there are as many of these
  choose f hf using hposition
  have hinjective : Function.Injective f := by
    intro i j hsame
    have hboth : R (as.get j) (bs.get (f i)) := by
      rw [hsame]
      exact hf j
    rw [List.pairwise_iff_get] at hapart
    rcases lt_trichotomy i j with hlt | heq | hlt
    · exact (hapart i j hlt _ (hf i) hboth).elim
    · exact heq
    · exact (hapart j i hlt _ hboth (hf i)).elim
  have hsurjective : Function.Surjective f :=
    (Finite.injective_iff_surjective_of_equiv (finCongr hlength)).mp hinjective
  intro b hb
  obtain ⟨j, rfl⟩ := List.get_of_mem hb
  obtain ⟨i, rfl⟩ := hsurjective j
  exact ⟨as.get i, List.get_mem as i, hf i⟩

/-- Item by item, being taken for one another is transitive if it is on the items. -/
theorem forall₂_same_trans {us vs ws : List Value}
    (h : ∀ u ∈ us, ∀ {v w : Value}, u.same v = true → v.same w = true → u.same w = true)
    (huv : List.Forall₂ (fun v w => v.same w = true) us vs)
    (hvw : List.Forall₂ (fun v w => v.same w = true) vs ws) :
    List.Forall₂ (fun v w => v.same w = true) us ws := by
  induction huv generalizing ws with
  | nil => exact hvw
  | cons hfirst _ ih =>
      obtain ⟨hu, hus⟩ := List.forall_mem_cons.mp h
      cases hvw with
      | cons hsecond hrest => exact .cons (hu hfirst hsecond) (ih hus hrest)

/-- Item by item, being taken for one another is symmetric if it is on the items. -/
theorem forall₂_same_symm {vs ws : List Value}
    (h : ∀ v ∈ vs, ∀ {w : Value}, v.same w = true → w.same v = true)
    (hvw : List.Forall₂ (fun v w => v.same w = true) vs ws) :
    List.Forall₂ (fun v w => v.same w = true) ws vs := by
  induction hvw with
  | nil => exact .nil
  | cons hfirst _ ih =>
      obtain ⟨hv, hvs⟩ := List.forall_mem_cons.mp h
      exact .cons (hv hfirst) (ih hvs)

/-- Being taken for one another is transitive. -/
theorem same_trans {u v w : Value} (huv : u.same v = true) (hvw : v.same w = true) :
    u.same w = true := by
  induction u using inductionOnParts generalizing v w with
  | null =>
      cases same_iff.mp huv
      exact hvw
  | bool b =>
      cases same_iff.mp huv
      exact hvw
  | number n =>
      cases same_iff.mp huv with
      | number hnm =>
          cases same_iff.mp hvw with
          | number hmk => exact Number.same_trans hnm hmk
  | string s =>
      cases same_iff.mp huv
      exact hvw
  | sequence us ih =>
      cases same_iff.mp huv with
      | sequence hitems =>
          cases same_iff.mp hvw with
          | sequence hitems' =>
              have hall := forall₂_same_trans (fun u hu _ _ => ih u hu) hitems hitems'
              exact same_iff.mpr (.sequence hall)
  | mapping es ih =>
      cases same_iff.mp huv with
      | mapping hlength hfound =>
          cases same_iff.mp hvw with
          | mapping hlength' hfound' =>
              refine same_iff.mpr (.mapping (hlength.trans hlength') fun e he => ?_)
              -- the order of entries does not matter: what is found for an entry leads to a further one
              obtain ⟨f, hf, hkey, hvalue⟩ := hfound e he
              obtain ⟨g, hg, hkey', hvalue'⟩ := hfound' f hf
              exact ⟨g, hg, (ih e he).1 hkey hkey', (ih e he).2 hvalue hvalue'⟩
  | tagged name u ih =>
      cases same_iff.mp huv with
      | tagged _ hvalue =>
          cases same_iff.mp hvw with
          | tagged _ hvalue' => exact same_iff.mpr (.tagged name (ih hvalue hvalue'))

/-- Where keys are unique it does not matter which of two values is compared with the other. -/
theorem same_symm {v w : Value} (hv : v.HasUniqueKeys) (h : v.same w = true) :
    w.same v = true := by
  induction v using inductionOnParts generalizing w with
  | null =>
      cases same_iff.mp h
      exact h
  | bool b =>
      cases same_iff.mp h
      exact h
  | number n =>
      cases same_iff.mp h with
      | number hsame => exact Number.same_symm hsame
  | string s =>
      cases same_iff.mp h
      exact h
  | sequence vs ih =>
      cases same_iff.mp h with
      | sequence hitems =>
          rw [hasUniqueKeys_sequence_iff] at hv
          have hall := forall₂_same_symm (fun v hmem _ => ih v hmem (hv v hmem)) hitems
          exact same_iff.mpr (.sequence hall)
  | mapping es ih =>
      cases same_iff.mp h with
      | @mapping _ fs hlength hfound =>
          obtain ⟨hdiffer, hparts⟩ := hasUniqueKeys_mapping_iff.mp hv
          -- two entries found at the same place of the other mapping would have equal keys
          have hapart : es.Pairwise fun e e' => ∀ f : Value × Value,
              (e.1.same f.1 = true ∧ e.2.same f.2 = true) →
                (e'.1.same f.1 = true ∧ e'.2.same f.2 = true) → False := by
            refine hdiffer.imp_of_mem ?_
            intro e e' _ he' hdiffers f hf hf'
            have hback : f.1.same e'.1 = true := (ih e' he').1 (hparts e' he').1 hf'.1
            rw [same_trans hf.1 hback] at hdiffers
            cases hdiffers.1
          refine same_iff.mpr (.mapping hlength.symm fun f hf => ?_)
          obtain ⟨e, he, hkey, hvalue⟩ := exists_mem_of_pairwise hlength hfound hapart f hf
          exact ⟨e, he, (ih e he).1 (hparts e he).1 hkey, (ih e he).2 (hparts e he).2 hvalue⟩
  | tagged name v ih =>
      cases same_iff.mp h with
      | tagged _ hvalue =>
          exact same_iff.mpr (.tagged name (ih (hasUniqueKeys_tagged_iff.mp hv) hvalue))

/-! ## What keeps keys unique -/

/-- To compare each key with the later ones is enough. -/
theorem keysDiffer_iff {es : Entries} (h : ∀ e ∈ es, e.1.HasUniqueKeys) :
    KeysDiffer es ↔ ofEntries.distinct (es.map (·.1)) = true := by
  rw [Entries.distinct_iff, List.pairwise_map]
  constructor
  · intro hdiffer
    exact hdiffer.imp And.left
  · intro hdistinct
    refine hdistinct.imp_of_mem ?_
    intro e f _ hf hsame
    refine ⟨hsame, Bool.eq_false_iff.mpr fun hback => ?_⟩
    rw [same_symm (h f hf) hback] at hsame
    cases hsame

/-- Edits keep keys unique. -/
theorem isHereditary_hasUniqueKeys : IsHereditary HasUniqueKeys where
  string s := hasUniqueKeys_of_isScalar (.string s)
  sequence_iff _ := hasUniqueKeys_sequence_iff
  mapping_iff es := by
    rw [hasUniqueKeys_mapping_iff]
    constructor
    · rintro ⟨hdiffer, hentries⟩
      exact ⟨(keysDiffer_iff fun e he => (hentries e he).1).mp hdiffer, hentries⟩
    · rintro ⟨hdistinct, hentries⟩
      exact ⟨(keysDiffer_iff fun e he => (hentries e he).1).mpr hdistinct, hentries⟩
  of_tagged := hasUniqueKeys_tagged_iff.mp
  retagged _ _ hw _ := hasUniqueKeys_tagged_iff.mpr hw

/-- What is read has unique keys. -/
theorem IsProper.hasUniqueKeys {v : Value} (h : v.IsProper) : v.HasUniqueKeys := by
  induction h with
  | null => exact hasUniqueKeys_of_isScalar .null
  | bool b => exact hasUniqueKeys_of_isScalar (.bool b)
  | number hn => exact hasUniqueKeys_of_isScalar (.number hn)
  | string s => exact hasUniqueKeys_of_isScalar (.string s)
  | sequence _ ih => exact hasUniqueKeys_sequence_iff.mpr ih
  | mapping hdistinct _ _ ihkeys ihvalues =>
      exact (isHereditary_hasUniqueKeys.mapping_iff _).mpr
        ⟨hdistinct, fun e he => ⟨ihkeys e he, ihvalues e he⟩⟩
  | tagged _ _ _ ih => exact hasUniqueKeys_tagged_iff.mpr ih

end Value

end Yaml

end OperatorBundle
