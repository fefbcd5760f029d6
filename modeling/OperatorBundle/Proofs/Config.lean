import Mathlib.Data.Option.Basic
import OperatorBundle.Config
import OperatorBundle.Proofs.Toml.Names

/-!
# Which configurations are read

A configuration is read from a document that gives strings under known keys only, none of them blank
(`Config.read_of_document`).  Each setting is then what is given for it, or else its default.
-/

namespace OperatorBundle

/-- A setting: the section and the key that it is given under, and where a configuration has it. -/
structure Setting where
  part : String
  key : String
  value : Config → String

/-- The entries of a section; none if it is missing. -/
def partOf (document : Toml.Table) (part : String) : Toml.Table :=
  match document.lookup part with
  | some (.table entries) => entries
  | _ => []

namespace Setting

/-- The name of a setting in messages. -/
def name (s : Setting) : String := s.part ++ "." ++ s.key

/-- All settings, in the order in which they are checked. -/
def all : List Setting :=
  [⟨"bundle", "name", fun c => c.bundle.name⟩,
   ⟨"bundle", "service_account", fun c => c.bundle.serviceAccount⟩,
   ⟨"bundle", "version_base", fun c => c.bundle.versionBase⟩,
   ⟨"inputs", "template", fun c => c.inputs.template⟩,
   ⟨"inputs", "crd_dir", fun c => c.inputs.crdDir⟩,
   ⟨"inputs", "crd_suffix", fun c => c.inputs.crdSuffix⟩,
   ⟨"inputs", "cluster_role", fun c => c.inputs.clusterRole⟩,
   ⟨"inputs", "operator", fun c => c.inputs.operator⟩]

/-- Is this string given for a setting? -/
def IsHeld (s : Setting) (document : Toml.Table) (text : String) : Prop :=
  (s.key, .string text) ∈ partOf document s.part

/-- Is something given for a setting that has no character but white space? -/
def IsHeldBlank (s : Setting) (document : Toml.Table) : Prop :=
  ∃ text, s.IsHeld document text ∧ ∀ c ∈ text.toList, Text.isBlank c = true

end Setting

/-- Does a document have no sections but the two of a configuration, and these no keys but those of
settings, with strings? -/
structure HoldsSettings (document : Toml.Table) : Prop where
  sections : ∀ e ∈ document, e.1 = "bundle" ∨ e.1 = "inputs"
  keys : ∀ part, part = "bundle" ∨ part = "inputs" → ∀ e ∈ partOf document part,
    ∃ s ∈ Setting.all, s.part = part ∧ s.key = e.1
  strings : ∀ part, part = "bundle" ∨ part = "inputs" → ∀ e ∈ partOf document part,
    ∃ text, e.2 = .string text

/-- Are the sections of a configuration tables where they are present? -/
def HoldsTables (document : Toml.Table) : Prop :=
  ∀ part v, part = "bundle" ∨ part = "inputs" → document.lookup part = some v →
    ∃ entries, v = .table entries

/-! ## Strings of a section -/

theorem Toml.Value.eq_string_of_string? {v : Toml.Value} {text : String}
    (h : v.string? = some text) : v = .string text := by
  cases v with
  | string t => exact congrArg Toml.Value.string (Option.some.inj h)
  | _ => cases h

/-- The entries that give strings under keys. -/
def Given.entries (given : Given) : Toml.Table := given.map fun e => (e.1, .string e.2)

/-- Settings are read from the first entry and from the others. -/
theorem settings?_cons_eq_some_iff {keys : List String} {key : String} {v : Toml.Value}
    {entries : Toml.Table} {given : Given} :
    (Toml.Value.table ((key, v) :: entries)).settings? keys = some given ↔
      ∃ text rest, key ∈ keys ∧ v = .string text ∧
        (Toml.Value.table entries).settings? keys = some rest ∧ given = (key, text) :: rest := by
  unfold Toml.Value.settings?
  simp only [List.mapM_cons, Option.bind_eq_bind, Option.bind_eq_some_iff, Option.pure_def]
  constructor
  · rintro ⟨first, hfirst, rest, hrest, h⟩
    split at hfirst
    · rename_i hkey
      obtain ⟨text, htext, rfl⟩ := Option.map_eq_some_iff.mp hfirst
      exact ⟨text, rest, List.contains_iff_mem.mp hkey, Toml.Value.eq_string_of_string? htext, hrest,
        (Option.some.inj h).symm⟩
    · cases hfirst
  · rintro ⟨text, rest, hkey, rfl, hrest, rfl⟩
    refine ⟨(key, text), ?_, rest, hrest, rfl⟩
    rw [if_pos (List.contains_iff_mem.mpr hkey)]
    rfl

/-- Settings are read from strings under known keys only. -/
theorem settings?_eq_some_iff {keys : List String} {entries : Toml.Table} {given : Given} :
    (Toml.Value.table entries).settings? keys = some given ↔
      entries = given.entries ∧ ∀ e ∈ given, e.1 ∈ keys := by
  induction entries generalizing given with
  | nil =>
      cases given with
      | nil => exact iff_of_true rfl ⟨rfl, nofun⟩
      | cons e given => exact iff_of_false nofun nofun
  | cons entry entries ih =>
      rw [settings?_cons_eq_some_iff]
      constructor
      · rintro ⟨text, (rest : Given), hkey, hv, hrest, rfl⟩
        obtain ⟨rfl, hkeys⟩ := ih.mp hrest
        have hentry : entry = (entry.1, .string text) := Prod.ext rfl hv
        exact ⟨congrArg (· :: rest.entries) hentry, List.forall_mem_cons.mpr ⟨hkey, hkeys⟩⟩
      · rintro ⟨heq, hkeys⟩
        cases given with
        | nil => cases heq
        | cons e given =>
            cases heq
            obtain ⟨hkey, hkeys⟩ := List.forall_mem_cons.mp hkeys
            exact ⟨e.2, given, hkey, rfl, ih.mpr ⟨rfl, hkeys⟩, rfl⟩

/-- What is found among the strings of a section is what its entries give. -/
theorem Given.get_of_mem {given : Given} (hnames : (given.map Prod.fst).Nodup) {key text : String}
    (hmem : (key, text) ∈ given) (default : String) : given.get key default = text := by
  unfold get
  rw [lookup_of_mem (List.pairwise_map.mp hnames) hmem]
  rfl

/-- What is not given has its default. -/
theorem Given.get_of_not_mem {given : Given} {key : String} (h : key ∉ given.map Prod.fst)
    (default : String) : given.get key default = default := by
  unfold get
  rw [lookup_eq_none_iff.mpr h]
  rfl

/-- The entries that strings make up are these strings. -/
theorem mem_entries_iff {given : Given} {key : String} {v : Toml.Value} :
    (key, v) ∈ given.entries ↔ ∃ text, v = .string text ∧ (key, text) ∈ given := by
  unfold Given.entries
  rw [List.mem_map]
  constructor
  · rintro ⟨⟨found, text⟩, hmem, heq⟩
    cases heq
    exact ⟨text, rfl, hmem⟩
  · rintro ⟨text, rfl, hmem⟩
    exact ⟨(key, text), hmem, rfl⟩

variable {document : Toml.Table} {names places : Given} {c : Config}

/-! ## Documents -/

/-- A section is read from strings under known keys only, and as these. -/
theorem section?_eq_some_iff {part : String} {keys : List String} {given : Given}
    (htable : ∀ v, document.lookup part = some v → ∃ entries, v = .table entries) :
    (section? document part keys) = some given ↔
      partOf document part = given.entries ∧ ∀ e ∈ given, e.1 ∈ keys := by
  unfold section? partOf
  cases hlookup : document.lookup part with
  | none =>
      simp only
      constructor
      · intro h
        cases h
        exact ⟨rfl, nofun⟩
      · rintro ⟨heq, _⟩
        rw [List.map_eq_nil_iff.mp heq.symm]
  | some v =>
      obtain ⟨entries, rfl⟩ := htable v hlookup
      exact settings?_eq_some_iff

/-- Do these strings make up the sections of a document, all under known keys? -/
structure Gives (document : Toml.Table) (names places : Given) : Prop where
  sections : ∀ e ∈ document, e.1 = "bundle" ∨ e.1 = "inputs"
  bundle : partOf document "bundle" = names.entries
  inputs : partOf document "inputs" = places.entries
  bundleKeys : ∀ e ∈ names, e.1 ∈ Identity.keys
  inputsKeys : ∀ e ∈ places, e.1 ∈ Inputs.keys

/-- A configuration is read from a document just if strings under known keys make it up. -/
theorem ofDocument?_eq_some_iff (htables : HoldsTables document) :
    Config.ofDocument? document = some c ↔
      ∃ names places, Gives document names places ∧ c = ⟨.ofGiven names, .ofGiven places⟩ := by
  have hbundle : ∀ given, section? document "bundle" Identity.keys = some given ↔ _ := fun _ =>
    (section?_eq_some_iff (htables "bundle" · (Or.inl rfl)))
  have hinputs : ∀ given, section? document "inputs" Inputs.keys = some given ↔ _ := fun _ =>
    (section?_eq_some_iff (htables "inputs" · (Or.inr rfl)))
  unfold Config.ofDocument?
  simp only [Option.bind_eq_bind, Option.bind_eq_some_iff, hbundle, hinputs, Option.pure_def,
    Option.guard_eq_some', List.all_eq_true, Bool.or_eq_true, beq_iff_eq, Option.some.injEq]
  constructor
  · rintro ⟨_, hsections, names, ⟨hbundle, hnames⟩, places, ⟨hinputs, hplaces⟩, rfl⟩
    exact ⟨names, places, ⟨hsections, hbundle, hinputs, hnames, hplaces⟩, rfl⟩
  · rintro ⟨names, places, ⟨hsections, hbundle, hinputs, hnames, hplaces⟩, rfl⟩
    exact ⟨(), hsections, names, ⟨hbundle, hnames⟩, places, ⟨hinputs, hplaces⟩, rfl⟩

/-- The keys of a section are those of its settings. -/
theorem exists_setting_iff {key : String} :
    ((∃ s ∈ Setting.all, s.part = "bundle" ∧ s.key = key) ↔ key ∈ Identity.keys) ∧
      ((∃ s ∈ Setting.all, s.part = "inputs" ∧ s.key = key) ↔ key ∈ Inputs.keys) := by
  simp [Setting.all, Identity.keys, Inputs.keys, eq_comm]

/-- What strings under known keys make up holds settings only. -/
theorem Gives.holdsSettings (h : Gives document names places) : HoldsSettings document := by
  refine ⟨h.sections, ?_, ?_⟩
  · rintro part (rfl | rfl) ⟨key, v⟩ he
    · rw [h.bundle] at he
      obtain ⟨text, _, hmem⟩ := mem_entries_iff.mp he
      exact exists_setting_iff.1.mpr (h.bundleKeys _ hmem)
    · rw [h.inputs] at he
      obtain ⟨text, _, hmem⟩ := mem_entries_iff.mp he
      exact exists_setting_iff.2.mpr (h.inputsKeys _ hmem)
  · rintro part (rfl | rfl) ⟨key, v⟩ he
    · rw [h.bundle] at he
      obtain ⟨text, hv, _⟩ := mem_entries_iff.mp he
      exact ⟨text, hv⟩
    · rw [h.inputs] at he
      obtain ⟨text, hv, _⟩ := mem_entries_iff.mp he
      exact ⟨text, hv⟩

/-- Entries with strings only are those that the strings make up. -/
theorem exists_entries_eq {entries : Toml.Table} (h : ∀ e ∈ entries, ∃ text, e.2 = .string text) :
    ∃ given : Given, entries = given.entries := by
  induction entries with
  | nil => exact ⟨[], rfl⟩
  | cons e entries ih =>
      obtain ⟨text, htext⟩ := h e List.mem_cons_self
      obtain ⟨given, hgiven⟩ := ih fun e' he' => h e' (List.mem_cons_of_mem e he')
      have hentry : e = (e.1, .string text) := Prod.ext rfl htext
      exact ⟨(e.1, text) :: given, by rw [hgiven, hentry]; rfl⟩

/-- Strings under known keys make up each document that holds settings only. -/
theorem HoldsSettings.exists_gives (h : HoldsSettings document) :
    ∃ names places, Gives document names places := by
  obtain ⟨names, hnames⟩ := exists_entries_eq (h.strings "bundle" (Or.inl rfl))
  obtain ⟨places, hplaces⟩ := exists_entries_eq (h.strings "inputs" (Or.inr rfl))
  refine ⟨names, places, h.sections, hnames, hplaces, ?_, ?_⟩
  · intro e he
    refine exists_setting_iff.1.mp (h.keys "bundle" (Or.inl rfl) (e.1, .string e.2) ?_)
    rw [hnames]
    exact mem_entries_iff.mpr ⟨_, rfl, he⟩
  · intro e he
    refine exists_setting_iff.2.mp (h.keys "inputs" (Or.inr rfl) (e.1, .string e.2) ?_)
    rw [hplaces]
    exact mem_entries_iff.mpr ⟨_, rfl, he⟩

/-- The sections of a document have each key once. -/
theorem nodup_partOf (h : Toml.Value.Distinct (.table document)) (part : String) :
    ((partOf document part).map Prod.fst).Nodup := by
  unfold partOf
  split
  · rename_i entries hlookup
    exact (h.once.of_lookup hlookup).once.1
  · exact List.nodup_nil

/-! ## Settings -/

variable {s : Setting}

/-- Every setting belongs to one of the two sections. -/
theorem Setting.part_cases (hs : s ∈ all) : s.part = "bundle" ∨ s.part = "inputs" := by
  revert s
  decide

/-- Every default has a character that is no white space. -/
theorem Setting.default_not_blank (hs : s ∈ all) : Text.allBlank (s.value {}) = false := by
  revert s
  decide

/-- Each setting is what is given for it, or its default. -/
theorem Gives.value_eq (h : Gives document names places) (hs : s ∈ Setting.all) :
    ∃ given, partOf document s.part = Given.entries given ∧
      s.value ⟨.ofGiven names, .ofGiven places⟩ = Given.get given s.key (s.value {}) := by
  have heach : s.value ⟨.ofGiven names, .ofGiven places⟩ =
      Given.get (if s.part = "bundle" then names else places) s.key (s.value {}) := by
    revert s
    simp only [Setting.all, List.forall_mem_cons, List.not_mem_nil, false_imp_iff, implies_true,
      and_true]
    exact ⟨rfl, rfl, rfl, rfl, rfl, rfl, rfl, rfl⟩
  rcases Setting.part_cases hs with hpart | hpart
  · rw [hpart, if_pos rfl] at heach
    exact ⟨names, hpart ▸ h.bundle, heach⟩
  · rw [hpart, if_neg (by decide)] at heach
    exact ⟨places, hpart ▸ h.inputs, heach⟩

theorem Config.settings_eq (c : Config) :
    c.settings = Setting.all.map fun s => (s.name, s.value c) := rfl

/-- A setting that is given is what is given for it. -/
theorem Gives.value_of_isHeld (h : Gives document names places)
    (hdistinct : Toml.Value.Distinct (.table document)) (hs : s ∈ Setting.all) {text : String}
    (hgiven : s.IsHeld document text) : s.value ⟨.ofGiven names, .ofGiven places⟩ = text := by
  obtain ⟨given, hpart, hvalue⟩ := h.value_eq hs
  have hnames := nodup_partOf hdistinct s.part
  unfold Setting.IsHeld at hgiven
  rw [hpart] at hgiven hnames
  obtain ⟨_, heq, hmem⟩ := mem_entries_iff.mp hgiven
  cases heq
  rw [Given.entries, List.map_map] at hnames
  rw [hvalue, Given.get_of_mem hnames hmem]

/-- A setting that is not given has its default. -/
theorem Gives.value_of_absent (h : Gives document names places) (hs : s ∈ Setting.all)
    (habsent : ∀ v, (s.key, v) ∉ partOf document s.part) :
    s.value ⟨.ofGiven names, .ofGiven places⟩ = s.value {} := by
  obtain ⟨given, hpart, hvalue⟩ := h.value_eq hs
  rw [hpart] at habsent
  rw [hvalue]
  refine Given.get_of_not_mem ?_ _
  intro hmem
  obtain ⟨⟨_, text⟩, hmem, rfl⟩ := List.mem_map.mp hmem
  exact habsent _ (mem_entries_iff.mpr ⟨text, rfl, hmem⟩)

/-- A setting is blank only if it is given so. -/
theorem Gives.isHeldBlank_iff (h : Gives document names places)
    (hdistinct : Toml.Value.Distinct (.table document)) (hs : s ∈ Setting.all) :
    s.IsHeldBlank document ↔ Text.allBlank (s.value ⟨.ofGiven names, .ofGiven places⟩) = true := by
  constructor
  · rintro ⟨text, hgiven, hblank⟩
    rw [h.value_of_isHeld hdistinct hs hgiven]
    exact List.all_eq_true.mpr hblank
  · intro hblank
    by_cases habsent : ∀ v, (s.key, v) ∉ partOf document s.part
    · -- a default is not blank
      rw [h.value_of_absent hs habsent, Setting.default_not_blank hs] at hblank
      cases hblank
    · obtain ⟨v, hmem⟩ := Classical.not_forall_not.mp habsent
      obtain ⟨text, rfl⟩ := h.holdsSettings.strings s.part (Setting.part_cases hs) _ hmem
      rw [h.value_of_isHeld hdistinct hs hmem] at hblank
      exact ⟨text, hmem, List.all_eq_true.mp hblank⟩

/-- A configuration is refused for its first blank setting. -/
theorem Config.check_eq_error {c : Config}
    (h : (Setting.all.find? fun s => Text.allBlank (s.value c)) = some s) :
    c.check = .error (.configuration (s.name ++ " must not be empty")) := by
  unfold check checkSettings
  split
  · rename_i hfound
    rw [settings_eq, List.find?_map, Option.map_eq_some_iff] at hfound
    obtain ⟨first, hfirst, heq⟩ := hfound
    have hsame : some s = some first := h.symm.trans hfirst
    cases hsame
    cases heq
    rfl
  · rename_i hfound
    rw [settings_eq, List.find?_map, Option.map_eq_none_iff] at hfound
    cases h.symm.trans hfound

/-- A configuration without blank settings is accepted. -/
theorem Config.check_eq_ok {c : Config}
    (h : (Setting.all.find? fun s => Text.allBlank (s.value c)) = none) : c.check = .ok () := by
  unfold check checkSettings
  split
  · rename_i hfound
    rw [settings_eq, List.find?_map, Option.map_eq_some_iff] at hfound
    obtain ⟨first, hfirst, _⟩ := hfound
    cases h.symm.trans hfirst
  · rfl

/-- What an understood document is read as. -/
theorem Gives.read_eq {text : String} (h : Gives document names places)
    (hread : Toml.read? text = some document) (htables : HoldsTables document) :
    Config.read text = do
      Config.check ⟨.ofGiven names, .ofGiven places⟩
      return ⟨.ofGiven names, .ofGiven places⟩ := by
  have hdocument := (ofDocument?_eq_some_iff htables).mpr ⟨names, places, h, rfl⟩
  unfold Config.read
  simp only [hread, hdocument]

/-- A document that does not hold settings only is refused. -/
theorem read_eq_error {text : String} (hread : Toml.read? text = some document)
    (htables : HoldsTables document) (h : ¬ HoldsSettings document) :
    Config.read text = .error (.configurationSyntax "a key is unknown or its value is no string") := by
  have hdocument : Config.ofDocument? document = none := by
    refine Option.eq_none_iff_forall_ne_some.mpr ?_
    intro c hc
    obtain ⟨names, places, hgives, _⟩ := (ofDocument?_eq_some_iff htables).mp hc
    exact h hgives.holdsSettings
  unfold Config.read
  simp only [hread, hdocument]
  rfl

/-- What is read from a document whose sections, where they are present, are tables.  There must be no
other section, no key but those of the settings, strings only, and none of them blank.  Each setting
is then what is given for it, unchanged, or else its default.  Of two causes for a refusal the blanks
count less, and the first blank setting is named. -/
theorem Config.read_of_document {text : String} (hread : Toml.read? text = some document)
    (htables : HoldsTables document) :
    ((∃ c, Config.read text = .ok c) ↔
      HoldsSettings document ∧ ∀ s ∈ Setting.all, ¬ s.IsHeldBlank document) ∧
    (∀ c, Config.read text = .ok c → ∀ s ∈ Setting.all,
      (∀ given, s.IsHeld document given → s.value c = given) ∧
      ((∀ v, (s.key, v) ∉ partOf document s.part) → s.value c = s.value {})) ∧
    (¬ HoldsSettings document → ∃ message, Config.read text = .error (.configurationSyntax message)) ∧
    (HoldsSettings document → ∀ before s after, Setting.all = before ++ s :: after →
      (∀ earlier ∈ before, ¬ earlier.IsHeldBlank document) → s.IsHeldBlank document →
      Config.read text = .error (.configuration (s.name ++ " must not be empty"))) := by
  have hdistinct := Toml.distinct_of_read? hread
  by_cases hsettings : HoldsSettings document
  · obtain ⟨names, places, hgives⟩ := hsettings.exists_gives
    have hreads := hgives.read_eq hread htables
    -- the settings as given are a configuration, which is then checked
    obtain ⟨c, hc⟩ : ∃ c : Config, c = ⟨.ofGiven names, .ofGiven places⟩ := ⟨_, rfl⟩
    have hblank : ∀ s ∈ Setting.all, (s.IsHeldBlank document ↔ Text.allBlank (s.value c) = true) :=
      fun s hs => hc ▸ hgives.isHeldBlank_iff hdistinct hs
    rw [← hc] at hreads
    refine ⟨?_, ?_, fun h => absurd hsettings h, ?_⟩
    · cases hfirst : Setting.all.find? fun s => Text.allBlank (s.value c) with
      | none =>
          rw [check_eq_ok hfirst] at hreads
          refine iff_of_true ⟨c, hreads⟩ ⟨hsettings, fun s hs hgiven => ?_⟩
          exact List.find?_eq_none.mp hfirst s hs ((hblank s hs).mp hgiven)
      | some s =>
          rw [check_eq_error hfirst] at hreads
          refine iff_of_false ?_ ?_
          · rintro ⟨c', hc'⟩
            rw [hreads] at hc'
            cases hc'
          · rintro ⟨_, hnone⟩
            have hs := List.mem_of_find?_eq_some hfirst
            have hempty := List.find?_some hfirst
            exact hnone s hs ((hblank s hs).mpr hempty)
    · intro c' hc' s hs
      rw [hreads, bind_eq_ok_iff] at hc'
      obtain ⟨_, _, hc'⟩ := hc'
      cases hc'
      rw [hc]
      exact ⟨fun given hgiven => hgives.value_of_isHeld hdistinct hs hgiven,
        hgives.value_of_absent hs⟩
    · intro _ before s after hall hbefore hgiven
      have hmem : ∀ s' ∈ before ++ s :: after, s' ∈ Setting.all := fun s' hs' => hall ▸ hs'
      have hfirst : Setting.all.find? (fun s => Text.allBlank (s.value c)) = some s := by
        refine List.find?_eq_some_iff_append.mpr ⟨?_, before, after, hall, ?_⟩
        · exact (hblank s (hmem s (List.mem_append_right _ List.mem_cons_self))).mp hgiven
        · intro earlier hearlier
          have hnot := hbefore earlier hearlier
          rw [hblank earlier (hmem earlier (List.mem_append_left _ hearlier))] at hnot
          rw [Bool.not_eq_true] at hnot
          rw [hnot]
          rfl
      rw [hreads, check_eq_error hfirst]
      rfl
  · have hreads := read_eq_error hread htables hsettings
    refine ⟨iff_of_false ?_ fun h => hsettings h.1, ?_, fun _ => ⟨_, hreads⟩,
      fun h => absurd h hsettings⟩
    · rintro ⟨c, hc⟩
      rw [hreads] at hc
      cases hc
    · intro c hc
      rw [hreads] at hc
      cases hc

end OperatorBundle
