import AsmOutline.Json.Reader
import AsmOutline.Proofs.SettingsKeys

/-! # Settings files

The settings of a file stand under the root key or are the whole file. They update the
defaults as any settings do, but a dialect that is not known is refused together with the
file. A file is refused for no other reason than that, or that it holds no JSON object.
-/
namespace AsmOutline.Settings
open Text

variable {read : FileReader} {readJson : JsonReader} {path : String} {file : Json} {fault : Fault}
  {settings : Settings}

/-- The part of a file that holds the settings. -/
def sectionOf (file : Json) : Json :=
  (file.field? rootKey).getD file

theorem field?_wrap (file : Json) : (wrap file).field? rootKey = some (sectionOf file) := by
  unfold wrap sectionOf
  cases hroot : file.field? rootKey with
  | none => rfl
  | some value => exact hroot

/-- What stands beside the root key has no effect. -/
theorem update_congr {a b : Json} (h : a.field? rootKey = b.field? rootKey) (settings : Settings) :
    settings.update a = settings.update b := by
  simp only [update, h]

/-- The defaults with the settings of a file. -/
def ofSection (part : Json) : Settings :=
  updated [some (.obj [(rootKey, part)])]

theorem update_wrap (file : Json) : update {} (wrap file) = ofSection (sectionOf file) := by
  apply update_congr
  rw [field?_wrap]
  rfl

/-- The reasons to refuse a file. -/
inductive Refuses (read : FileReader) (readJson : JsonReader) (path : String) : Fault → Prop
  | unreadable {cause : FileError} (hread : read path = .error cause) :
      Refuses read readJson path (.unreadable path cause)
  | notJson {text : Text} (hread : read path = .ok text) (hjson : readJson text = none) :
      Refuses read readJson path (.notJson path)
  | notObject {text : Text} {file : Json} (hread : read path = .ok text) (hjson : readJson text = some file)
      (hobject : file.isObject = false) : Refuses read readJson path (.notObject path)
  | unknownDialect {text : Text} {file value : Json} (hread : read path = .ok text)
      (hjson : readJson text = some file) (hobject : file.isObject = true)
      (hvalue : (sectionOf file).field? "dialect" = some value)
      (hunknown : ∀ dialect, ¬Form.dialect.Reads value dialect) :
      Refuses read readJson path (.unknownDialect path value)

/-- A dialect in the settings of a file is a known one. -/
def KnowsDialect (part : Json) : Prop :=
  ∀ value, part.field? "dialect" = some value → ∃ dialect, Form.dialect.Reads value dialect

/-- The files that are not refused, and what they give. -/
inductive Loads (read : FileReader) (readJson : JsonReader) (path : String) : Settings → Prop
  | intro {text : Text} {file : Json} (hread : read path = .ok text) (hjson : readJson text = some file)
      (hobject : file.isObject = true) (hknown : KnowsDialect (sectionOf file)) :
      Loads read readJson path (ofSection (sectionOf file))

theorem load_of_parse {text : Text} (hread : read path = .ok text) (hjson : readJson text = some file) :
    load read readJson path = ofJson path file := by
  rw [load, hread]
  dsimp only
  rw [hjson]

theorem ofJson_eq (path : String) (hobject : file.isObject = true) : ofJson path file =
    match (sectionOf file).field? "dialect" with
    | none => .ok (ofSection (sectionOf file))
    | some value =>
      if (Form.dialect.read value).isSome then .ok (ofSection (sectionOf file))
      else .error (.unknownDialect path value) := by
  rw [ofJson, if_pos hobject, field?_wrap, update_wrap]
  rfl

theorem Refuses.load_eq (h : Refuses read readJson path fault) : load read readJson path = .error fault := by
  cases h with
  | unreadable hread => rw [load, hread]
  | notJson hread hjson =>
    rw [load, hread]
    dsimp only
    rw [hjson]
  | notObject hread hjson hobject => rw [load_of_parse hread hjson, ofJson, hobject]; rfl
  | unknownDialect hread hjson hobject hvalue hunknown =>
    rw [load_of_parse hread hjson, ofJson_eq path hobject, hvalue]
    apply if_neg
    intro hsome
    obtain ⟨dialect, hdialect⟩ := Option.isSome_iff_exists.1 hsome
    exact hunknown dialect ((Form.dialect.read_iff _ dialect).1 hdialect)

theorem Loads.load_eq (h : Loads read readJson path settings) : load read readJson path = .ok settings := by
  cases h with
  | @intro text file hread hjson hobject hknown =>
    rw [load_of_parse hread hjson, ofJson_eq path hobject]
    cases hvalue : (sectionOf file).field? "dialect" with
    | none => rfl
    | some value =>
      obtain ⟨dialect, hdialect⟩ := hknown value hvalue
      exact if_pos (Option.isSome_of_eq_some ((Form.dialect.read_iff value dialect).2 hdialect))

theorem refuses_or_loads (read : FileReader) (readJson : JsonReader) (path : String) :
    (∃ fault, Refuses read readJson path fault) ∨ ∃ settings, Loads read readJson path settings := by
  cases hread : read path with
  | error cause => exact .inl ⟨_, .unreadable hread⟩
  | ok text =>
    cases hjson : readJson text with
    | none => exact .inl ⟨_, .notJson hread hjson⟩
    | some file =>
      cases hobject : file.isObject with
      | false => exact .inl ⟨_, .notObject hread hjson hobject⟩
      | true =>
        by_cases hknown : KnowsDialect (sectionOf file)
        · exact .inr ⟨_, .intro hread hjson hobject hknown⟩
        · unfold KnowsDialect at hknown
          push Not at hknown
          obtain ⟨value, hvalue, hunknown⟩ := hknown
          exact .inl ⟨_, .unknownDialect hread hjson hobject hvalue hunknown⟩

theorem load_outcome (read : FileReader) (readJson : JsonReader) (path : String) :
    (∀ fault, load read readJson path = .error fault ↔ Refuses read readJson path fault) ∧
      ∀ settings, load read readJson path = .ok settings ↔ Loads read readJson path settings :=
  outcome_iff (fun _ => Refuses.load_eq) (fun _ => Loads.load_eq) (refuses_or_loads read readJson path)

/-- Two files with the same settings give the same, wherever these stand. -/
theorem ofJson_congr {other : Json} (hfile : file.isObject = true) (hother : other.isObject = true)
    (h : sectionOf file = sectionOf other) (path : String) : ofJson path file = ofJson path other := by
  rw [ofJson_eq path hfile, ofJson_eq path hother, h]

/-- Every field holds the last value given for its key. -/
structure LastGiven (updates : List (Option Json)) (settings : Settings) : Prop where
  dialect : dialectKey.Last updates settings.dialect
  remarkMarkers : remarkMarkersKey.Last updates settings.remarkMarkers
  debounceMillis : debounceKey.Last updates settings.debounceMillis
  labelsEnabled : labelsKey.Last updates settings.labelsEnabled
  foldingEnabled : foldingKey.Last updates settings.folding.enabled
  maxLines : maxLinesKey.Last updates settings.folding.maxLines
  beginTag : beginTagKey.Last updates settings.folding.beginTag
  endTag : endTagKey.Last updates settings.folding.endTag
  collapsed : collapsedKey.Last updates settings.folding.collapsed

theorem lastGiven_updated (updates : List (Option Json)) : LastGiven updates (updated updates) where
  dialect := dialectKey.last_updated updates
  remarkMarkers := remarkMarkersKey.last_updated updates
  debounceMillis := debounceKey.last_updated updates
  labelsEnabled := labelsKey.last_updated updates
  foldingEnabled := foldingKey.last_updated updates
  maxLines := maxLinesKey.last_updated updates
  beginTag := beginTagKey.last_updated updates
  endTag := endTagKey.last_updated updates
  collapsed := collapsedKey.last_updated updates

/-- A name that is not known does not undo the one given before it. -/
example :
    let named (name : String) : Json := .obj [(rootKey, .obj [("dialect", .str name)])]
    (updated [some (named " NASM"), none, some (named "gas")]).dialect = .nasm := rfl

/-- The bounds that the settings keep. -/
structure Valid (settings : Settings) : Prop where
  debounceMillis : 50 ≤ settings.debounceMillis
  remarkMarkers : settings.remarkMarkers ≠ ""
  beginTag : settings.folding.beginTag ≠ ""
  endTag : settings.folding.endTag ≠ ""

theorem LastGiven.valid {updates : List (Option Json)} (h : LastGiven updates settings) : Valid settings where
  debounceMillis := by
    apply h.debounceMillis.holds (P := (50 ≤ ·))
    · decide
    · rintro _ millis ⟨n, _, rfl⟩
      exact Nat.le_max_left 50 n
  remarkMarkers := h.remarkMarkers.holds (P := (· ≠ "")) (by decide) fun _ _ hreads => hreads.2
  beginTag := h.beginTag.holds (P := (· ≠ "")) (by decide) fun _ _ hreads => hreads.2
  endTag := h.endTag.holds (P := (· ≠ "")) (by decide) fun _ _ hreads => hreads.2

/-- After any updates each field is the value given last for its key, and the settings are valid.
A file is refused for the listed reasons only and otherwise is one update of the defaults; whether
its settings stand under the root key or alone makes no difference. -/
theorem updates_and_files_last_given :
    (∀ updates, LastGiven updates (updated updates) ∧ Valid (updated updates)) ∧
      (∀ read readJson path,
        (∀ fault, load read readJson path = .error fault ↔ Refuses read readJson path fault) ∧
        ∀ settings, load read readJson path = .ok settings ↔ Loads read readJson path settings) ∧
      ∀ (bareRead wrappedRead : FileReader) (readJson : JsonReader) (path : String)
        (bareText wrappedText : Text) (bare wrapped : Json),
        bareRead path = .ok bareText → readJson bareText = some bare → bare.isObject = true →
        bare.field? rootKey = none →
        wrappedRead path = .ok wrappedText → readJson wrappedText = some wrapped →
        wrapped.field? rootKey = some bare → load bareRead readJson path = load wrappedRead readJson path := by
  refine ⟨fun updates => ?_, load_outcome, ?_⟩
  · exact ⟨lastGiven_updated updates, (lastGiven_updated updates).valid⟩
  · intro bareRead wrappedRead readJson path bareText wrappedText bare wrapped hb hbare hobject hnone hw
      hwrapped hroot
    have hwrappedObject : wrapped.isObject = true := Json.isObject_of_field? (Option.isSome_of_eq_some hroot)
    have hsame : sectionOf bare = sectionOf wrapped := by
      rw [sectionOf, sectionOf, hnone, hroot]
      rfl
    rw [load_of_parse hb hbare, load_of_parse hw hwrapped]
    exact ofJson_congr hobject hwrappedObject hsame path

/-- A file with a dialect, alone and under the root key. -/
theorem updates_and_files_of_nasm :
    let bare : FileReader := fun _ => .ok "\x7b\"dialect\": \" NASM\"\x7d".toList
    let wrapped : FileReader := fun _ => .ok "\x7b\"asmlens\": \x7b\"dialect\": \" NASM\"\x7d\x7d".toList
    load bare Json.parse? "a" = load wrapped Json.parse? "a" ∧
      ∃ settings, load bare Json.parse? "a" = .ok settings ∧ settings.dialect = .nasm := by
  intro bare wrapped
  obtain ⟨_, hfiles, hsame⟩ := updates_and_files_last_given
  let part : Json := .obj [("dialect", .str " NASM")]
  have hknown : KnowsDialect (sectionOf part) := by
    rintro value ⟨⟩
    exact ⟨.nasm, " NASM", rfl, rfl⟩
  have hloads : Loads bare Json.parse? "a" (ofSection part) :=
    @Loads.intro bare Json.parse? "a" _ part rfl rfl rfl hknown
  refine ⟨?_, ofSection part, ((hfiles bare Json.parse? "a").2 _).2 hloads, rfl⟩
  exact hsame bare wrapped Json.parse? "a" _ _ part (.obj [(rootKey, part)]) rfl rfl rfl rfl rfl rfl rfl

end AsmOutline.Settings
