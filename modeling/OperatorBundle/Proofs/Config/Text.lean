import Mathlib
import OperatorBundle.Proofs.Config.Understood
import OperatorBundle.Proofs.Toml.Statement

/-!
# Configurations as they are written

What is read from a text is said in terms of the statements that the grammar finds in it
(`Config.read_decided`).
-/

namespace OperatorBundle

open Toml (Statement Key Value placed target Item)

/-! ## Reading texts -/

variable {statements : List Statement} {limit : Nat} {text : String}

/-- A plain statement is a heading, a string or a table of strings. -/
theorem IsPlain.isFlat {s : Key × Statement} (h : IsPlain s) : s.2.IsFlat Toml.nestingLimit := by
  cases h with
  | heading => exact .table (Nat.le_of_ble_eq_true rfl)
  | inSection => exact .assignment (Nat.le_of_ble_eq_true rfl) (.string _)
  | dotted => exact .assignment (Nat.le_of_ble_eq_true rfl) (.string _)
  | inline _ hstrings => exact .assignment (Nat.le_of_ble_eq_true rfl) (.table hstrings)

/-- A text that is understood is read. -/
theorem IsUnderstood.exists_read (h : IsUnderstood statements)
    (htext : Toml.Grammar.Document limit text.toList statements) (htables : HasTables statements)
    (honce : IsDefinedOnce statements) :
    ∃ items, IsDocumentOf statements items ∧ Toml.read? text = some (Item.toTable items) := by
  have hkeys := htext.key_ne_nil
  have hplain := h.isPlain hkeys htables honce
  obtain ⟨items, hfollow⟩ := h.exists_follow? hkeys htables honce
  have hflat : ∀ s ∈ statements, s.IsFlat Toml.nestingLimit := by
    intro s hs
    obtain ⟨path, hplaced⟩ := Toml.exists_mem_placed hs
    exact (hplain _ hplaced).isFlat
  exact ⟨items, isDocumentOf_of_follow? hkeys htables hfollow, Toml.read?_eq (htext.flat_mono hflat) hfollow⟩

/-- A text that is no document is refused. -/
theorem read_eq_syntaxError_of_not_document
    (h : ∀ statements, ¬ Toml.Grammar.Document Toml.nestingLimit text.toList statements) :
    ∃ message, Config.read text = .error (.configurationSyntax message) := by
  have hread : Toml.read? text = none := by
    refine Option.eq_none_iff_forall_ne_some.mpr fun document hdocument => ?_
    obtain ⟨statements, _, htext, _⟩ := Toml.read?_eq_some_iff.mp hdocument
    exact h statements htext
  unfold Config.read
  simp only [hread]
  exact ⟨_, rfl⟩

/-- A text that is not understood is refused, whether it is read or not. -/
theorem read_eq_syntaxError (h : ¬ IsUnderstood statements)
    (htext : Toml.Grammar.Document limit text.toList statements) (htables : HasTables statements) :
    ∃ message, Config.read text = .error (.configurationSyntax message) := by
  cases hread : Toml.read? text with
  | none =>
      unfold Config.read
      simp only [hread]
      exact ⟨_, rfl⟩
  | some document =>
      obtain ⟨items, hfollow, rfl⟩ := Toml.exists_of_read? htext hread
      have hdocument := isDocumentOf_of_follow? htext.key_ne_nil htables hfollow
      have hsettings := mt (hdocument.holdsSettings_iff (Toml.distinct_of_read? hread)).mp h
      exact (Config.read_of_document hread hdocument.holdsTables).2.2.1 hsettings

/-! ## What a configuration is told from -/

/-- A configuration is what its settings are. -/
theorem Config.eq_of_values {c c' : Config} (h : ∀ s ∈ Setting.all, s.value c = s.value c') : c = c' := by
  obtain ⟨⟨_, _, _⟩, ⟨_, _, _, _, _⟩⟩ := c
  obtain ⟨⟨_, _, _⟩, ⟨_, _, _, _, _⟩⟩ := c'
  simpa [Setting.all, and_assoc] using h

/-- What a configuration must be if each of its settings is what is given for it, or its default. -/
theorem Config.eq_of_given {c c' : Config}
    (hc : ∀ s ∈ Setting.all, (∀ text, s.IsGiven statements text → s.value c = text) ∧
      ((∀ text, ¬ s.IsGiven statements text) → s.value c = s.value {}))
    (h : ∀ s ∈ Setting.all, s.IsGiven statements (s.value c') ∨
      (∀ e ∈ given statements, e.1 ≠ [s.part, s.key]) ∧ s.value c' = s.value {}) : c = c' := by
  refine eq_of_values fun s hs => ?_
  rcases h s hs with hgiven | ⟨habsent, hdefault⟩
  · exact (hc s hs).1 _ hgiven
  · rw [hdefault]
    exact (hc s hs).2 fun text hgiven => habsent _ (isGiven_iff_mem.mp hgiven) rfl

/-! ## Texts of each form -/

/-- A text with a dotted key and a section. -/
def sectionText : String := "# names\nbundle.name = \"op\"\n\n[inputs]\ncrd_dir = ' d '\n"

def sectionStatements : List Statement :=
  [.assignment ["bundle", "name"] (.string "op"), .table ["inputs"],
    .assignment ["crd_dir"] (.string " d ")]

/-- A text with an inline table. -/
def inlineText : String := "bundle = \x7b name = \"op\", version_base = \"\"\"\n2\"\"\" \x7d"

def inlineStatements : List Statement :=
  [.assignment ["bundle"] (.table [("name", .string "op"), ("version_base", .string "2")])]

/-- A text that gives a wide space only. -/
def blankText : String := "inputs.operator = \"\\u2003\""

def blankStatements : List Statement := [.assignment ["inputs", "operator"] (.string "\u2003")]

theorem document_sectionText :
    Toml.Grammar.Document Toml.nestingLimit sectionText.toList sectionStatements :=
  Toml.document_of_statements? (n := 60) (by cbv)

theorem document_inlineText :
    Toml.Grammar.Document Toml.nestingLimit inlineText.toList inlineStatements :=
  Toml.document_of_statements? (n := 60) (by cbv)

theorem document_blankText :
    Toml.Grammar.Document Toml.nestingLimit blankText.toList blankStatements :=
  Toml.document_of_statements? (n := 60) (by cbv)

theorem isPlain_sectionStatements : ∀ s ∈ placed [] sectionStatements, IsPlain s :=
  List.forall_mem_cons.mpr ⟨.dotted (Or.inl rfl) "name" "op", List.forall_mem_cons.mpr
    ⟨.heading [] (Or.inr rfl), List.forall_mem_singleton.mpr (.inSection (Or.inr rfl) "crd_dir" " d ")⟩⟩

theorem isPlain_inlineStatements : ∀ s ∈ placed [] inlineStatements, IsPlain s :=
  List.forall_mem_singleton.mpr <| .inline (Or.inl rfl) <|
    List.forall_mem_cons.mpr ⟨⟨"op", rfl⟩, List.forall_mem_singleton.mpr ⟨"2", rfl⟩⟩

theorem isPlain_blankStatements : ∀ s ∈ placed [] blankStatements, IsPlain s :=
  List.forall_mem_singleton.mpr (.dotted (Or.inr rfl) "operator" "\u2003")

theorem isDefinedOnce_sectionStatements : IsDefinedOnce sectionStatements := by
  intro part _
  -- the three statements are about two sections, of which only the second has a heading
  have hname : ∀ s ∈ placed [] (sectionStatements.drop 1),
      AreApart part ([], .assignment ["bundle", "name"] (.string "op")) s :=
    List.forall_mem_cons.mpr ⟨areApart_of_targets (by decide) (by decide),
      List.forall_mem_singleton.mpr (areApart_of_targets (by decide) (by decide))⟩
  exact .cons hname (.cons (List.forall_mem_singleton.mpr areApart_heading) (List.pairwise_singleton _ _))

/-- One statement clashes with no other. -/
theorem isDefinedOnce_singleton (key : Key) (v : Value) : IsDefinedOnce [.assignment key v] :=
  fun _ _ => List.pairwise_singleton _ _

/-- What is read from a text whose sections, where they are present, are tables that are defined once.
There must be no other section, no key but those of the settings, strings only, and none of them blank.
Each setting is then what is given for it, unchanged, or else its default, whichever way its section is
written.  Of two causes for a refusal the blanks count less, and the first blank setting is named. -/
theorem Config.read_decided (htext : Toml.Grammar.Document limit text.toList statements)
    (htables : HasTables statements) (honce : IsDefinedOnce statements) :
    ((∃ c, Config.read text = .ok c) ↔
      IsUnderstood statements ∧ ∀ s ∈ Setting.all, ¬ s.IsBlank statements) ∧
    (∀ c, Config.read text = .ok c → ∀ s ∈ Setting.all,
      (∀ given, s.IsGiven statements given → s.value c = given) ∧
      ((∀ given, ¬ s.IsGiven statements given) → s.value c = s.value {})) ∧
    (¬ IsUnderstood statements →
      ∃ message, Config.read text = .error (.configurationSyntax message)) ∧
    (IsUnderstood statements → ∀ before s after, Setting.all = before ++ s :: after →
      (∀ earlier ∈ before, ¬ earlier.IsBlank statements) → s.IsBlank statements →
      Config.read text = .error (.configuration (s.name ++ " must not be empty"))) := by
  by_cases hunderstood : IsUnderstood statements
  · -- what the statements give is what the document holds, and this decides what is read
    obtain ⟨items, hdocument, hread⟩ := hunderstood.exists_read htext htables honce
    have hdistinct := Toml.distinct_of_read? hread
    have hsettings := (hdocument.holdsSettings_iff hdistinct).mpr hunderstood
    have hgiven : ∀ s ∈ Setting.all, ∀ given,
        s.IsHeld (Item.toTable items) given ↔ s.IsGiven statements given := fun s hs given =>
      hdocument.mem_partOf_iff_isGiven hdistinct (Setting.part_cases hs)
    have hblank : ∀ s ∈ Setting.all, s.IsHeldBlank (Item.toTable items) ↔ s.IsBlank statements :=
      fun s hs => exists_congr fun given => and_congr_left' (hgiven s hs given)
    obtain ⟨hok, hvalues, _, herror⟩ := Config.read_of_document hread hdocument.holdsTables
    refine ⟨?_, ?_, fun h => absurd hunderstood h, ?_⟩
    · rw [hok, and_iff_right hsettings, and_iff_right hunderstood]
      exact forall₂_congr fun s hs => not_congr (hblank s hs)
    · intro c hc s hs
      obtain ⟨hheld, habsent⟩ := hvalues c hc s hs
      refine ⟨fun given h => hheld given ((hgiven s hs given).mpr h), fun h => habsent fun v hmem => ?_⟩
      obtain ⟨given, rfl⟩ := hsettings.strings s.part (Setting.part_cases hs) _ hmem
      exact h given ((hgiven s hs given).mp hmem)
    · intro _ before s after hall hbefore hs
      have hmem : ∀ s' ∈ before ++ s :: after, s' ∈ Setting.all := fun s' hs' => hall ▸ hs'
      refine herror hsettings before s after hall (fun earlier hearlier => ?_) ?_
      · exact mt (hblank earlier (hmem earlier (List.mem_append_left _ hearlier))).mp
          (hbefore earlier hearlier)
      · exact (hblank s (hmem s (List.mem_append_right _ List.mem_cons_self))).mpr hs
  · -- where the statements clash the text is refused as well, so that this needs no document
    have hreads := read_eq_syntaxError hunderstood htext htables
    refine ⟨iff_of_false ?_ fun h => hunderstood h.1, ?_, fun _ => hreads, fun h => absurd h hunderstood⟩
    · rintro ⟨c, hc⟩
      obtain ⟨message, hmessage⟩ := hreads
      rw [hmessage] at hc
      cases hc
    · intro c hc
      obtain ⟨message, hmessage⟩ := hreads
      rw [hmessage] at hc
      cases hc

/-- In the first text a dotted key gives `bundle.name`, and a section gives `inputs.crd_dir`, whose
blanks are kept; in the second an inline table gives `bundle.name` and `bundle.version_base`.  All other
settings have their defaults.  In the third a dotted key gives `inputs.operator` nothing but a space. -/
theorem Config.read_written :
    Config.read sectionText = .ok { bundle := { name := "op" }, inputs := { crdDir := " d " } } ∧
    Config.read inlineText = .ok { bundle := { name := "op", versionBase := "2" } } ∧
    Config.read blankText = .error (.configuration "inputs.operator must not be empty") := by
  refine ⟨?sections, ?inline, ?blank⟩
  case sections =>
    have hunderstood := isUnderstood_of_isPlain isPlain_sectionStatements (by decide)
    obtain ⟨hok, hvalues, _⟩ := read_decided document_sectionText
      (hasTables_of_isPlain isPlain_sectionStatements) isDefinedOnce_sectionStatements
    obtain ⟨c, hc⟩ := hok.mpr ⟨hunderstood, by decide⟩
    exact hc.trans (congrArg Except.ok (eq_of_given (hvalues c hc) (by decide)))
  case inline =>
    have hunderstood := isUnderstood_of_isPlain isPlain_inlineStatements (by decide)
    obtain ⟨hok, hvalues, _⟩ := read_decided document_inlineText
      (hasTables_of_isPlain isPlain_inlineStatements) (isDefinedOnce_singleton _ _)
    obtain ⟨c, hc⟩ := hok.mpr ⟨hunderstood, by decide⟩
    exact hc.trans (congrArg Except.ok (eq_of_given (hvalues c hc) (by decide)))
  case blank =>
    have hunderstood := isUnderstood_of_isPlain isPlain_blankStatements (by decide)
    obtain ⟨_, _, _, herror⟩ := read_decided document_blankText
      (hasTables_of_isPlain isPlain_blankStatements) (isDefinedOnce_singleton _ _)
    exact herror hunderstood Setting.all.dropLast _ [] rfl (by decide) (by decide)

end OperatorBundle
