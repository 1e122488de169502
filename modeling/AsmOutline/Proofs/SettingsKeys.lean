import AsmOutline.Proofs.ReadValues
import AsmOutline.Settings
import Mathlib.Data.List.Induction
import Mathlib.Tactic.Tauto

/-! # Settings by key

A key stands at one place below the root and takes values of one form. An update sets the
field of a key where it gives a value of that form there, and otherwise leaves the field
alone, whatever else it holds. After any number of updates each field is therefore the value
given last, or the default where none was given.
-/
namespace AsmOutline
open Text

namespace Json

/-- The value that a path of keys leads to. -/
def at? : List String → Json → Option Json
  | [], value => some value
  | key :: path, value => (value.field? key).bind (at? path)

theorem at?_pair (a b : String) (value : Json) : value.at? [a, b] = (value.field? a).bind (·.field? b) := by
  simp only [at?, Option.bind_fun_some]

theorem at?_triple (a b c : String) (value : Json) :
    value.at? [a, b, c] = ((value.field? a).bind (·.field? b)).bind (·.field? c) := by
  simp only [at?, Option.bind_fun_some, Option.bind_assoc]

end Json

namespace Settings

/-- The values that a key may take, and how they are read. -/
structure Form (α : Type) where
  Reads : Json → α → Prop
  read : Json → Option α
  read_iff : ∀ value a, read value = some a ↔ Reads value a

/-- The name of a known dialect. -/
def Form.dialect : Form Dialect where
  Reads value dialect := ∃ s, value = .str s ∧ sameLetters dialect.name.toList (trim s.toList) = true
  read value := dialect? (some value)
  read_iff value dialect := by
    rw [dialect?, Option.bind_some, Option.bind_eq_some_iff]
    simp only [Json.str?_eq_some_iff, Dialect.ofName?_eq_some_iff]

/-- A string that is not empty. -/
def Form.text : Form String where
  Reads value s := value = .str s ∧ s ≠ ""
  read value := nonEmpty? (some value)
  read_iff value s := by
    rw [nonEmpty?, Option.bind_some, Option.filter_eq_some_iff, Json.str?_eq_some_iff, decide_eq_true_eq]

/-- A whole number that is not negative. -/
def Form.count : Form Nat where
  Reads value n := value = .num (.natural n)
  read := Json.natural?
  read_iff _ _ := Json.natural?_eq_some_iff

/-- A number of milliseconds, raised to the least delay. -/
def Form.delay : Form Nat where
  Reads value millis := ∃ n, value = .num (.natural n) ∧ max 50 n = millis
  read value := value.natural?.map (max minDebounceMillis)
  read_iff value millis := by
    rw [Option.map_eq_some_iff]
    simp only [Json.natural?_eq_some_iff]
    rfl

def Form.flag : Form Bool where
  Reads value b := value = .bool b
  read := Json.bool?
  read_iff _ _ := Json.bool?_eq_some_iff

theorem dialect?_eq_bind (value : Option Json) : dialect? value = value.bind Form.dialect.read := by
  cases value <;> rfl

theorem nonEmpty?_eq_bind (value : Option Json) : nonEmpty? value = value.bind Form.text.read := by
  cases value <;> rfl

theorem delay_eq_bind (value : Option Json) :
    (value.bind Json.natural?).map (max minDebounceMillis) = value.bind Form.delay.read := by
  cases value <;> rfl

/-- A place below the root key, and the field that is set from there. -/
structure Key (α : Type) where
  path : List String
  form : Form α
  field : Settings → α
  field_update : ∀ (settings : Settings) (value : Json),
    field (settings.update value) = ((value.at? (rootKey :: path)).bind form.read).getD (field settings)

def dialectKey : Key Dialect where
  path := ["dialect"]
  form := .dialect
  field := dialect
  field_update settings value := by
    rw [Json.at?_pair, ← dialect?_eq_bind]
    rfl

def remarkMarkersKey : Key String where
  path := ["remarkMarkers"]
  form := .text
  field := remarkMarkers
  field_update settings value := by
    rw [Json.at?_pair, ← nonEmpty?_eq_bind]
    rfl

def debounceKey : Key Nat where
  path := ["debounceMs"]
  form := .delay
  field := debounceMillis
  field_update settings value := by
    rw [Json.at?_pair, ← delay_eq_bind]
    rfl

def labelsKey : Key Bool where
  path := ["labels", "enabled"]
  form := .flag
  field := labelsEnabled
  field_update settings value := by
    rw [Json.at?_triple]
    rfl

def foldingKey : Key Bool where
  path := ["folding", "enabled"]
  form := .flag
  field settings := settings.folding.enabled
  field_update settings value := by
    rw [Json.at?_triple]
    rfl

def maxLinesKey : Key Nat where
  path := ["folding", "maxLines"]
  form := .count
  field settings := settings.folding.maxLines
  field_update settings value := by
    rw [Json.at?_triple]
    rfl

def beginTagKey : Key String where
  path := ["folding", "beginTag"]
  form := .text
  field settings := settings.folding.beginTag
  field_update settings value := by
    rw [Json.at?_triple, ← nonEmpty?_eq_bind]
    rfl

def endTagKey : Key String where
  path := ["folding", "endTag"]
  form := .text
  field settings := settings.folding.endTag
  field_update settings value := by
    rw [Json.at?_triple, ← nonEmpty?_eq_bind]
    rfl

def collapsedKey : Key Bool where
  path := ["folding", "defaultCollapsed"]
  form := .flag
  field settings := settings.folding.collapsed
  field_update settings value := by
    rw [Json.at?_triple]
    rfl

/-- The settings after some updates of the defaults. -/
def updated (updates : List (Option Json)) : Settings :=
  updates.foldl updateFrom {}

theorem updated_concat (updates : List (Option Json)) (given : Option Json) :
    updated (updates ++ [given]) = (updated updates).updateFrom given :=
  List.foldl_append

namespace Key

variable {α : Type} {key : Key α} {updates : List (Option Json)} {given : Option Json} {a : α}

/-- An update that has a value of the right form for the key. -/
def Gives (key : Key α) (given : Option Json) (a : α) : Prop :=
  ∃ value found, given = some value ∧ value.at? (rootKey :: key.path) = some found ∧ key.form.Reads found a

/-- The value that the last update with one for the key gives, or the default. -/
inductive Last (key : Key α) : List (Option Json) → α → Prop
  | default {updates : List (Option Json)} (hnone : ∀ given ∈ updates, ∀ a, ¬key.Gives given a) :
      Last key updates (key.field {})
  | given (before : List (Option Json)) {given : Option Json} {later : List (Option Json)} {a : α}
      (hgives : key.Gives given a) (hnone : ∀ given ∈ later, ∀ b, ¬key.Gives given b) :
      Last key (before ++ given :: later) a

theorem gives_iff (key : Key α) (given : Option Json) (a : α) :
    key.Gives given a ↔
      (given.bind fun value => (value.at? (rootKey :: key.path)).bind key.form.read) = some a := by
  simp only [Gives, Option.bind_eq_some_iff, key.form.read_iff]
  tauto

theorem field_updateFrom (key : Key α) (settings : Settings) (given : Option Json) :
    key.field (settings.updateFrom given) =
      (given.bind fun value => (value.at? (rootKey :: key.path)).bind key.form.read).getD
        (key.field settings) := by
  cases given with
  | none => rfl
  | some value => exact key.field_update settings value

theorem Gives.field_eq (h : key.Gives given a) (settings : Settings) :
    key.field (settings.updateFrom given) = a := by
  rw [field_updateFrom, (key.gives_iff given a).1 h, Option.getD_some]

theorem field_eq_of_not_gives (h : ∀ a, ¬key.Gives given a) (settings : Settings) :
    key.field (settings.updateFrom given) = key.field settings := by
  have hnone : (given.bind fun value => (value.at? (rootKey :: key.path)).bind key.form.read) = none := by
    apply Option.eq_none_iff_forall_ne_some.2
    intro a ha
    exact h a ((key.gives_iff given a).2 ha)
  rw [field_updateFrom, hnone, Option.getD_none]

theorem Last.concat (h : key.Last updates a) (hnone : ∀ b, ¬key.Gives given b) :
    key.Last (updates ++ [given]) a := by
  have hlater {later : List (Option Json)} (hl : ∀ g ∈ later, ∀ b, ¬key.Gives g b) :
      ∀ g ∈ later ++ [given], ∀ b, ¬key.Gives g b :=
    List.forall_mem_append.2 ⟨hl, List.forall_mem_singleton.2 hnone⟩
  cases h with
  | default hall => exact .default (hlater hall)
  | given before hgives hl =>
    rw [List.append_assoc, List.cons_append]
    exact .given before hgives (hlater hl)

/-- Each field holds the last value given for its key. -/
theorem last_updated (key : Key α) (updates : List (Option Json)) :
    key.Last updates (key.field (updated updates)) := by
  -- from the end of the list, since the last update overrules the others
  induction updates using List.reverseRecOn with
  | nil => exact .default fun _ h => absurd h List.not_mem_nil
  | append_singleton updates given ih =>
    rw [updated_concat]
    by_cases hgiven : ∃ a, key.Gives given a
    · obtain ⟨a, ha⟩ := hgiven
      rw [ha.field_eq]
      exact .given updates ha fun _ h => absurd h List.not_mem_nil
    · have hnone := not_exists.1 hgiven
      rw [field_eq_of_not_gives hnone]
      exact ih.concat hnone

/-- What the default has and every value of the right form has, the field has too. -/
theorem Last.holds (h : key.Last updates a) {P : α → Prop} (hdefault : P (key.field {}))
    (hform : ∀ value b, key.form.Reads value b → P b) : P a := by
  cases h with
  | default _ => exact hdefault
  | given before hgives _ =>
    obtain ⟨_, found, _, _, hreads⟩ := hgives
    exact hform found a hreads

end Key

end Settings
end AsmOutline
