import OperatorBundle.Proofs.Manifest.Source
import OperatorBundle.Proofs.Yaml.Access
import OperatorBundle.Proofs.Yaml.Path

/-!
# What the summary of a definition says

`OwnedCrd.Summarizes` says from which parts of a document a summary is taken, and
`OwnedCrd.IsFirstMissing` which of these is the first that is no text.  `OwnedCrd.ofDocument_decided`
says that a definition is summarized so, or else the first part that is missing is reported.  The
version that is chosen from a list is named by its position, which is written into a path and read
again; the two meet at the same item.
-/

namespace OperatorBundle

open Yaml (Value Number Step)

namespace Yaml.Value

/-- The texts of scalars.  A tagged value has none. -/
inductive HasText : Value → String → Prop where
  | string (s : String) : HasText (.string s) s
  | number (n : Number) : HasText (.number n) n.text
  | true : HasText (.bool true) "true"
  | false : HasText (.bool false) "false"

/-- The reader of a scalar's text finds exactly the texts a value has. -/
theorem scalarText?_eq_some_iff {v : Value} {text : String} :
    v.scalarText? = some text ↔ v.HasText text := by
  constructor
  · intro h
    cases v with
    | string s => exact Option.some.inj h ▸ .string s
    | number n => exact Option.some.inj h ▸ .number n
    | bool b => cases b <;> cases h <;> constructor
    | _ => cases h
  · rintro (_ | _)
    all_goals rfl

/-- Is this the text of the scalar some steps away? -/
def HasTextAt (v : Value) (steps : List Step) (text : String) : Prop :=
  ∃ found, v.follow? steps = some found ∧ found.HasText text

/-- A value has a text at some steps exactly when following them and reading the scalar gives it. -/
theorem hasTextAt_iff {v : Value} {steps : List Step} {text : String} :
    v.HasTextAt steps text ↔ (v.follow? steps).bind (·.scalarText?) = some text := by
  rw [Option.bind_eq_some_iff]
  exact exists_congr fun found => and_congr_right fun _ => scalarText?_eq_some_iff.symm

/-- A value has at most one text at given steps. -/
theorem HasTextAt.unique {v : Value} {steps : List Step} {text other : String}
    (h : v.HasTextAt steps text) (hother : v.HasTextAt steps other) : text = other := by
  rw [hasTextAt_iff] at h hother
  exact Option.some.inj (h.symm.trans hother)

end Yaml.Value

namespace OwnedCrd

/-! ## The parts of a definition -/

/-- The way to the name of a definition. -/
abbrev nameSteps : List Step := [.key "metadata", .key "name"]

/-- The way to the kind that it defines. -/
abbrev kindSteps : List Step := [.key "spec", .key "names", .key "kind"]

/-- The way to the version of a definition that has only one. -/
abbrev versionSteps : List Step := [.key "spec", .key "version"]

/-- The way to the versions of a definition that lists them. -/
abbrev versionsSteps : List Step := [.key "spec", .key "versions"]

/-- The way to the name of a listed version. -/
abbrev listedSteps (position : Nat) : List Step :=
  [.key "spec", .key "versions", .index position, .key "name"]

/-- The versions that a definition lists. -/
def Lists (document : Value) (items : List Value) : Prop :=
  (document.follow? versionsSteps).bind (·.asSequence?) = some items

/-- Is this version the one in which resources are stored?  It is a mapping, with tags or without, and
so is the truth value in it that says so. -/
def MarksStorage (item : Value) : Prop :=
  ∃ (entries : Yaml.Entries) (flag : Value), item.untagged = .mapping entries ∧
    entries.get? "storage" = some flag ∧ flag.untagged = .bool true

/-- The position of the version that is taken from a list. -/
inductive IsChosen (items : List Value) : Nat → Prop where
  /-- The first one in which resources are stored. -/
  | storage {position : Nat} {item : Value} (hitem : items[position]? = some item)
      (hmarked : MarksStorage item)
      (hfirst : ∀ earlier < position, ∀ other, items[earlier]? = some other → ¬ MarksStorage other) :
      IsChosen items position
  /-- If there is none, the first of all. -/
  | first (hnone : ∀ item ∈ items, ¬ MarksStorage item) : IsChosen items 0

/-- The way to the version of a definition, and how it is reported.  A list counts only where there is
nothing at all under the key of a single version. -/
inductive NamesVersion (document : Value) : List Step → String → Prop where
  | single {found : Value} (hfound : document.follow? versionSteps = some found) :
      NamesVersion document versionSteps "spec.version"
  | listed {items : List Value} {position : Nat} (habsent : document.follow? versionSteps = none)
      (hitems : Lists document items) (hchosen : IsChosen items position) :
      NamesVersion document (listedSteps position)
        ("spec.versions[" ++ toString position ++ "].name")

/-- Is this the summary of a definition? -/
structure Summarizes (crd : OwnedCrd) (document : Value) : Prop where
  name : document.HasTextAt nameSteps crd.name
  kind : document.HasTextAt kindSteps crd.kind
  version : ∃ steps field, NamesVersion document steps field ∧ document.HasTextAt steps crd.version
  description : crd.description = crd.kind
  displayName : crd.displayName = crd.kind

/-- The first part that a definition lacks. -/
inductive IsFirstMissing (document : Value) : String → Prop where
  | name (hname : ∀ text, ¬ document.HasTextAt nameSteps text) : IsFirstMissing document "metadata.name"
  | kind {name : String} (hname : document.HasTextAt nameSteps name)
      (hkind : ∀ text, ¬ document.HasTextAt kindSteps text) : IsFirstMissing document "spec.names.kind"
  | versions {name kind : String} (hname : document.HasTextAt nameSteps name)
      (hkind : document.HasTextAt kindSteps kind) (habsent : document.follow? versionSteps = none)
      (hnone : ∀ items, ¬ Lists document items) : IsFirstMissing document "spec.versions"
  | version {name kind field : String} {steps : List Step} (hname : document.HasTextAt nameSteps name)
      (hkind : document.HasTextAt kindSteps kind) (hversion : NamesVersion document steps field)
      (hnone : ∀ text, ¬ document.HasTextAt steps text) : IsFirstMissing document field

/-! ## The version that is chosen -/

/-- The reader of the storage flag recognises exactly the entries that mark storage. -/
theorem isStorage_iff {item : Value} : isStorage item = true ↔ MarksStorage item := by
  unfold isStorage MarksStorage
  rw [beq_iff_eq]
  simp only [Option.bind_eq_some_iff, Value.asMapping?_eq_some_iff, Value.asBool?_eq_some_iff]
  constructor
  · rintro ⟨flag, ⟨entries, hentries, hflag⟩, htrue⟩
    exact ⟨entries, flag, hentries, hflag, htrue⟩
  · rintro ⟨entries, flag, hentries, hflag, htrue⟩
    exact ⟨flag, ⟨entries, hentries, hflag⟩, htrue⟩

/-- The search finds the position that is chosen. -/
theorem isChosen_iff {items : List Value} {position : Nat} :
    IsChosen items position ↔ (items.findIdx? isStorage).getD 0 = position := by
  constructor
  · rintro (⟨hitem, hmarked, hfirst⟩ | hnone)
    · obtain ⟨hlt, rfl⟩ := List.getElem?_eq_some_iff.mp hitem
      have hfound : items.findIdx? isStorage = some position := by
        refine List.findIdx?_eq_some_iff_getElem.mpr ⟨hlt, isStorage_iff.mpr hmarked, ?_⟩
        intro earlier hearlier hstorage
        exact hfirst earlier hearlier _ (List.getElem?_eq_getElem _) (isStorage_iff.mp hstorage)
      rw [hfound]
      rfl
    · have hfound : items.findIdx? isStorage = none := by
        refine List.findIdx?_eq_none_iff.mpr fun item hitem => ?_
        exact Bool.eq_false_iff.mpr fun hstorage => hnone item hitem (isStorage_iff.mp hstorage)
      rw [hfound]
      rfl
  · -- without an entry marked for storage the first one is taken
    rintro rfl
    cases hfound : items.findIdx? isStorage with
    | none =>
        refine .first fun item hitem hmarked => ?_
        have hplain := List.findIdx?_eq_none_iff.mp hfound item hitem
        rw [isStorage_iff.mpr hmarked] at hplain
        cases hplain
    | some position =>
        obtain ⟨hlt, hstorage, hfirst⟩ := List.findIdx?_eq_some_iff_getElem.mp hfound
        refine .storage (List.getElem?_eq_getElem hlt) (isStorage_iff.mp hstorage) ?_
        intro earlier hearlier other hother hmarked
        obtain ⟨_, rfl⟩ := List.getElem?_eq_some_iff.mp hother
        exact hfirst earlier hearlier (isStorage_iff.mpr hmarked)

/-- A definition names its version in one place. -/
theorem NamesVersion.unique {document : Value} {steps others : List Step} {field other : String}
    (h : NamesVersion document steps field) (hother : NamesVersion document others other) :
    steps = others := by
  cases h with
  | single hfound =>
      cases hother with
      | single _ => rfl
      | listed habsent _ _ =>
          rw [hfound] at habsent
          cases habsent
  | listed habsent hitems hchosen =>
      cases hother with
      | single hfound =>
          rw [hfound] at habsent
          cases habsent
      | listed _ hitems' hchosen' =>
          obtain rfl := Option.some.inj (hitems.symm.trans hitems')
          rw [isChosen_iff] at hchosen hchosen'
          rw [← hchosen, ← hchosen']

/-- A position in a list that is not too long can be written into a path. -/
theorem IsChosen.lt_positionLimit {items : List Value} {position : Nat} (h : IsChosen items position)
    (hfits : items.length ≤ Yaml.Path.positionLimit) : position < Yaml.Path.positionLimit := by
  cases h with
  | storage hitem _ _ => exact Nat.lt_of_lt_of_le (List.getElem?_eq_some_iff.mp hitem).1 hfits
  | first _ => decide

/-! ## The paths to the parts -/

theorem steps?_name : Yaml.Path.steps? "metadata.name" = some nameSteps := by decide

theorem steps?_kind : Yaml.Path.steps? "spec.names.kind" = some kindSteps := by decide

theorem steps?_version : Yaml.Path.steps? "spec.version" = some versionSteps := by decide

theorem steps?_versions : Yaml.Path.steps? "spec.versions" = some versionsSteps := by decide

/-- The path of a listed version leads to the item at the position that is written in it. -/
theorem steps?_listed {position : Nat} (h : position < Yaml.Path.positionLimit) :
    Yaml.Path.steps? ("spec.versions[" ++ toString position ++ "].name") =
      some (listedSteps position) := by
  have htext : "spec.versions[" ++ toString position ++ "].name" =
      Yaml.Path.printed (listedSteps position) := by
    apply String.toList_injective
    simp [Yaml.Path.printed, Yaml.Path.printedBehind]
  have hposition : Yaml.Path.IsWritable (.index position) := h
  rw [htext]
  apply Yaml.Path.steps?_of_printed
  simpa [Yaml.Path.IsWritable] using hposition

/-- Requiring a scalar is following the path's steps, and naming source and path where nothing is
found. -/
theorem requireScalar_eq {document : Value} {path source : String} {steps : List Step}
    (hpath : Yaml.Path.steps? path = some steps) :
    Manifest.requireScalar document path source =
      Manifest.demand source path ((document.follow? steps).bind (·.scalarText?)) := by
  rw [Manifest.requireScalar, Value.lookup?_eq_follow? document hpath]

section

variable {document : Value} {source path field text : String} {steps : List Step} {crd : OwnedCrd}

/-- A document with a text at the path's steps is required successfully. -/
theorem requireScalar_eq_ok (hpath : Yaml.Path.steps? path = some steps)
    (h : document.HasTextAt steps text) : Manifest.requireScalar document path source = .ok text := by
  rw [requireScalar_eq hpath, Value.hasTextAt_iff.mp h]
  rfl

/-- A document without one is refused with the source and the path as written. -/
theorem requireScalar_eq_error (hpath : Yaml.Path.steps? path = some steps)
    (h : ∀ text, ¬ document.HasTextAt steps text) :
    Manifest.requireScalar document path source = .error (.missingField source path) := by
  rw [requireScalar_eq hpath]
  cases htext : (document.follow? steps).bind (·.scalarText?) with
  | none => rfl
  | some text => exact absurd (Value.hasTextAt_iff.mpr htext) (h text)

/-- The version is asked for where the definition names it. -/
theorem NamesVersion.version?_eq (h : NamesVersion document steps field)
    (hfits : ∀ items, Lists document items → items.length ≤ Yaml.Path.positionLimit) :
    Yaml.Path.steps? field = some steps ∧
      version? source document = Manifest.requireScalar document field source := by
  cases h with
  | single hfound =>
      refine ⟨steps?_version, if_pos ?_⟩
      rw [Value.lookup?_eq_follow? document steps?_version, hfound]
      rfl
  | @listed items position habsent hitems hchosen =>
      refine ⟨steps?_listed (hchosen.lt_positionLimit (hfits items hitems)), ?_⟩
      have hlisted : Manifest.requireSequence document "spec.versions" source = .ok items := by
        rw [Manifest.requireSequence, Value.lookup?_eq_follow? document steps?_versions]
        exact Manifest.demand_eq_ok_iff.mpr hitems
      rw [version?, Value.lookup?_eq_follow? document steps?_version, habsent, Option.isSome_none,
        if_neg (by decide), listedVersion, hlisted, ok_bind, isChosen_iff.mp hchosen]

/-- Without a version of its own and without a list of versions, the list is the missing field. -/
theorem version?_eq_error (habsent : document.follow? versionSteps = none)
    (hnone : ∀ items, ¬ Lists document items) :
    version? source document = .error (.missingField source "spec.versions") := by
  have hlisted : Manifest.requireSequence document "spec.versions" source =
      .error (.missingField source "spec.versions") := by
    rw [Manifest.requireSequence, Value.lookup?_eq_follow? document steps?_versions]
    cases hitems : (document.follow? versionsSteps).bind (·.asSequence?) with
    | none => rfl
    | some items => exact absurd hitems (hnone items)
  rw [version?, Value.lookup?_eq_follow? document steps?_version, habsent, Option.isSome_none,
    if_neg (by decide), listedVersion, hlisted]
  rfl

/-! ## Summaries -/

/-- A document that a summary describes is read as that summary. -/
theorem Summarizes.ofDocument_eq (h : crd.Summarizes document)
    (hfits : ∀ items, Lists document items → items.length ≤ Yaml.Path.positionLimit) :
    ofDocument source document = .ok crd := by
  obtain ⟨hname, hkind, ⟨steps, field, hnames, hversion⟩, hdescription, hdisplayName⟩ := h
  obtain ⟨hpath, hasked⟩ := hnames.version?_eq hfits
  rw [ofDocument, requireScalar_eq_ok steps?_name hname, requireScalar_eq_ok steps?_kind hkind, hasked,
    requireScalar_eq_ok hpath hversion, ← hdescription]
  cases crd
  cases hdescription
  cases hdisplayName
  rfl

/-- A document whose first missing field is known is refused with that field. -/
theorem IsFirstMissing.ofDocument_eq (h : IsFirstMissing document field)
    (hfits : ∀ items, Lists document items → items.length ≤ Yaml.Path.positionLimit) :
    ofDocument source document = .error (.missingField source field) := by
  cases h with
  | name hname =>
      rw [ofDocument, requireScalar_eq_error steps?_name hname]
      rfl
  | kind hname hkind =>
      rw [ofDocument, requireScalar_eq_ok steps?_name hname, requireScalar_eq_error steps?_kind hkind]
      rfl
  | versions hname hkind habsent hnone =>
      rw [ofDocument, requireScalar_eq_ok steps?_name hname, requireScalar_eq_ok steps?_kind hkind,
        version?_eq_error habsent hnone]
      rfl
  | version hname hkind hversion hnone =>
      obtain ⟨hpath, hasked⟩ := hversion.version?_eq hfits
      rw [ofDocument, requireScalar_eq_ok steps?_name hname, requireScalar_eq_ok steps?_kind hkind,
        hasked, requireScalar_eq_error hpath hnone]
      rfl

/-- Where there is no single version and a list, one of the list is chosen. -/
theorem exists_namesVersion (document : Value) :
    (∃ steps field, NamesVersion document steps field) ∨
      document.follow? versionSteps = none ∧ ∀ items, ¬ Lists document items := by
  cases hsingle : document.follow? versionSteps with
  | some found => exact .inl ⟨_, _, .single hsingle⟩
  | none =>
      by_cases hlisted : ∃ items, Lists document items
      · obtain ⟨items, hitems⟩ := hlisted
        exact .inl ⟨_, _, .listed hsingle hitems (isChosen_iff.mpr rfl)⟩
      · exact .inr ⟨rfl, fun items hitems => hlisted ⟨items, hitems⟩⟩

/-- A definition has a summary or lacks something. -/
theorem summarizes_or_isFirstMissing (document : Value) :
    (∃ crd, Summarizes crd document) ∨ ∃ field, IsFirstMissing document field := by
  by_cases hname : ∃ name, document.HasTextAt nameSteps name
  · obtain ⟨name, hname⟩ := hname
    by_cases hkind : ∃ kind, document.HasTextAt kindSteps kind
    · obtain ⟨kind, hkind⟩ := hkind
      obtain ⟨steps, field, hnames⟩ | ⟨habsent, hnone⟩ := exists_namesVersion document
      · by_cases hversion : ∃ version, document.HasTextAt steps version
        · obtain ⟨version, hversion⟩ := hversion
          exact .inl ⟨⟨name, kind, kind, kind, version⟩, hname, hkind, ⟨steps, field, hnames, hversion⟩,
            rfl, rfl⟩
        · exact .inr ⟨field, .version hname hkind hnames (not_exists.mp hversion)⟩
      · exact .inr ⟨_, .versions hname hkind habsent hnone⟩
    · exact .inr ⟨_, .kind hname (not_exists.mp hkind)⟩
  · exact .inr ⟨_, .name (not_exists.mp hname)⟩

end

/-- A definition is summarized exactly if none of the parts of its summary is missing, and the summary
says what stands in these parts; otherwise the first part that is missing is reported.  Positions are
words of 64 bits, so that no list has more items than there are positions. -/
theorem ofDocument_decided (source : String) {document : Value}
    (hfits : ∀ items, Lists document items → items.length ≤ Yaml.Path.positionLimit) :
    (∀ crd, ofDocument source document = .ok crd ↔ crd.Summarizes document) ∧
      ∀ e, ofDocument source document = .error e ↔
        ∃ field, IsFirstMissing document field ∧ e = .missingField source field := by
  have hok (crd : OwnedCrd) (h : crd.Summarizes document) : ofDocument source document = .ok crd :=
    h.ofDocument_eq hfits
  have herror (field : String) (h : IsFirstMissing document field) :
      ofDocument source document = .error (.missingField source field) := h.ofDocument_eq hfits
  -- a document has a summary or a first missing field, so that each outcome tells which
  constructor
  · intro crd
    refine ⟨fun h => ?_, hok crd⟩
    obtain ⟨other, hother⟩ | ⟨field, hfield⟩ := summarizes_or_isFirstMissing document
    · have hsame := (hok other hother).symm.trans h
      exact Except.ok.inj hsame ▸ hother
    · have hboth := (herror field hfield).symm.trans h
      cases hboth
  · intro e
    constructor
    · intro h
      obtain ⟨crd, hcrd⟩ | ⟨field, hfield⟩ := summarizes_or_isFirstMissing document
      · have hboth := (hok crd hcrd).symm.trans h
        cases hboth
      · have hsame := (herror field hfield).symm.trans h
        exact ⟨field, hfield, (Except.error.inj hsame).symm⟩
    · rintro ⟨field, hfield, rfl⟩
      exact herror field hfield

/-- A definition with many versions: the first is no mapping, the next has a text for its storage flag,
and two have the truth value. -/
def listedDefinition : Value :=
  .mapping [
    (.string "metadata", .mapping [(.string "name", .string "foos.example.com")]),
    (.string "spec", .tagged "s" (.mapping [
      (.string "names", .mapping [(.string "kind", .bool true)]),
      (.string "versions", .tagged "v" (.sequence [
        .string "storage",
        .mapping [(.string "name", .string "v1"), (.string "storage", .string "true")],
        .tagged "m" (.mapping
          [(.string "storage", .tagged "b" (.bool true)), (.string "name", .number (.integer 2))]),
        .mapping [(.string "storage", .bool true), (.string "name", .string "v3")]]))]))]

/-- The first version in which resources are stored is taken, and its name is a number. -/
theorem ofDocument_listed :
    (∀ items, Lists listedDefinition items → items.length ≤ Yaml.Path.positionLimit) ∧
      ofDocument "d" listedDefinition = .ok
        { name := "foos.example.com", description := "true", displayName := "true", kind := "true"
          version := "2" } := by
  have hlisted : ∃ items, Lists listedDefinition items ∧ items.length ≤ Yaml.Path.positionLimit ∧
      (items.findIdx? isStorage).getD 0 = 2 := ⟨_, rfl, by decide, by decide⟩
  obtain ⟨items, hitems, hlength, hposition⟩ := hlisted
  have hfits : ∀ other, Lists listedDefinition other → other.length ≤ Yaml.Path.positionLimit := by
    intro other hother
    exact Option.some.inj (hitems.symm.trans hother) ▸ hlength
  refine ⟨hfits, ((ofDocument_decided "d" hfits).1 _).mpr ⟨⟨_, rfl, .string _⟩, ⟨_, rfl, .true⟩, ?_, rfl, rfl⟩⟩
  exact ⟨_, _, .listed rfl hitems (isChosen_iff.mpr hposition), _, rfl, .number (.integer 2)⟩

end OwnedCrd

end OperatorBundle
