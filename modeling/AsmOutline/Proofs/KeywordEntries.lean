import AsmOutline.Keyword.Reader
import AsmOutline.Proofs.ReadValues
import Mathlib.Data.List.Forall2

/-! # Entries of keyword tables

An item of a list describes an entry, or it has a first fault: it is no object, it has no name,
no kind or one that is not known, or a dialect that is not known. A list is read if every item
describes an entry, and otherwise refused for the first item that describes none.
-/
namespace AsmOutline
open Text

namespace Keyword

variable {item : Json} {name : Text} {kind : Kind} {entry : Keyword} {fault : EntryFault}

/-- The name of an item, without the blanks around it. -/
def HasName (item : Json) (name : Text) : Prop :=
  ∃ s, item.field? "name" = some (.str s) ∧ trim s.toList = name ∧ name ≠ []

def HasKind (item : Json) (kind : Kind) : Prop :=
  ∃ s, item.field? "kind" = some (.str s) ∧ sameLetters kind.name.toList (trim s.toList) = true

/-- What is no string counts as no dialect. -/
def HasDialect (item : Json) : Option Dialect → Prop
  | none => ∀ s, item.field? "assembler" ≠ some (.str s)
  | some dialect => ∃ s, item.field? "assembler" = some (.str s) ∧
      sameLetters dialect.name.toList (trim s.toList) = true

/-- An item with all that an entry needs. -/
structure Describes (item : Json) (entry : Keyword) : Prop where
  name : ∃ name, HasName item name ∧ entry.name = upper name
  kind : HasKind item entry.kind
  dialect : HasDialect item entry.dialect
  instructionSet : entry.instructionSet =
    ((item.field? "arch").bind Json.str?).bind fun s => InstructionSet.ofName? s.toList
  description : entry.description = ((item.field? "description").bind Json.str?).getD ""

/-- An item with a fault, where all that is checked before is in order. -/
inductive Faulty (item : Json) : EntryFault → Prop
  | notObject (hobject : item.isObject = false) : Faulty item .notObject
  | noName (hobject : item.isObject = true) (hname : ∀ name, ¬HasName item name) : Faulty item .noName
  | noKind {name : Text} (hname : HasName item name) (hkind : ∀ s, item.field? "kind" ≠ some (.str s)) :
      Faulty item (.noKind (String.ofList name))
  | unknownKind {name : Text} {s : String} (hname : HasName item name)
      (hfield : item.field? "kind" = some (.str s)) (hkind : ∀ kind, ¬HasKind item kind) :
      Faulty item (.unknownKind (String.ofList name) s)
  | unknownDialect {name : Text} {kind : Kind} {s : String} (hname : HasName item name)
      (hkind : HasKind item kind) (hfield : item.field? "assembler" = some (.str s))
      (hdialect : ∀ dialect, ¬HasDialect item (some dialect)) :
      Faulty item (.unknownDialect (String.ofList name) s)

theorem name?_eq_some_iff : name? item = some name ↔ HasName item name := by
  rw [name?, Option.bind_eq_some_iff]
  simp only [Json.field?_str_iff]
  apply exists_congr
  intro s
  apply and_congr_right
  intro _
  by_cases hblank : trim s.toList = []
  · simp [hblank]
  · simp only [List.isEmpty_iff, hblank, if_false, Option.some.injEq]
    exact ⟨fun h => ⟨h, h ▸ hblank⟩, And.left⟩

theorem HasName.isObject (h : HasName item name) : item.isObject = true := by
  obtain ⟨s, hfield, _⟩ := h
  exact Json.isObject_of_field? (Option.isSome_of_eq_some hfield)

theorem HasKind.kindOf_eq (h : HasKind item kind) (name : Text) : kindOf name item = .ok kind := by
  obtain ⟨s, hfield, hs⟩ := h
  have hkind : Kind.ofName? s.toList = some kind := (Kind.ofName?_eq_some_iff _ kind).2 hs
  rw [kindOf, Json.field?_str_iff.2 hfield]
  dsimp only
  rw [hkind]

theorem HasDialect.dialectOf_eq {dialect : Option Dialect} (h : HasDialect item dialect) (name : Text) :
    dialectOf name item = .ok dialect := by
  cases dialect with
  | none => rw [dialectOf, Json.field?_not_str_iff.2 h]
  | some dialect =>
    obtain ⟨s, hfield, hs⟩ := h
    have hdialect : Dialect.ofName? s.toList = some dialect := (Dialect.ofName?_eq_some_iff _ dialect).2 hs
    rw [dialectOf, Json.field?_str_iff.2 hfield]
    dsimp only
    rw [hdialect]

theorem ofJson_of_name (h : HasName item name) : ofJson item = do
    let kind ← kindOf name item
    let dialect ← dialectOf name item
    return {
      name := upper name
      kind := kind
      instructionSet :=
        ((item.field? "arch").bind Json.str?).bind fun text => InstructionSet.ofName? text.toList
      dialect := dialect
      description := ((item.field? "description").bind Json.str?).getD "" } := by
  rw [ofJson, if_pos h.isObject, name?_eq_some_iff.2 h]

theorem Describes.ofJson_eq (h : Describes item entry) : ofJson item = .ok entry := by
  obtain ⟨name, hname, hupper⟩ := h.name
  rw [ofJson_of_name hname, h.kind.kindOf_eq, h.dialect.dialectOf_eq, ← hupper, ← h.instructionSet,
    ← h.description]
  rfl

theorem Faulty.ofJson_eq (h : Faulty item fault) : ofJson item = .error fault := by
  cases h with
  | notObject hobject => rw [ofJson, hobject]; rfl
  | noName hobject hname =>
    have hnone : name? item = none := by
      apply Option.eq_none_iff_forall_ne_some.2
      intro name hsome
      exact hname name (name?_eq_some_iff.1 hsome)
    rw [ofJson, if_pos hobject, hnone]
  | @noKind name hname hkind =>
    have hfails : kindOf name item = .error (.noKind (String.ofList name)) := by
      rw [kindOf, Json.field?_not_str_iff.2 hkind]
    rw [ofJson_of_name hname, hfails]
    rfl
  | @unknownKind name s hname hfield hkind =>
    have hunknown : Kind.ofName? s.toList = none := by
      apply Option.eq_none_iff_forall_ne_some.2
      intro kind hsome
      exact hkind kind ⟨s, hfield, (Kind.ofName?_eq_some_iff _ kind).1 hsome⟩
    have hfails : kindOf name item = .error (.unknownKind (String.ofList name) s) := by
      rw [kindOf, Json.field?_str_iff.2 hfield]
      dsimp only
      rw [hunknown]
    rw [ofJson_of_name hname, hfails]
    rfl
  | @unknownDialect name kind s hname hkind hfield hdialect =>
    have hunknown : Dialect.ofName? s.toList = none := by
      apply Option.eq_none_iff_forall_ne_some.2
      intro dialect hsome
      exact hdialect dialect ⟨s, hfield, (Dialect.ofName?_eq_some_iff _ dialect).1 hsome⟩
    have hfails : dialectOf name item = .error (.unknownDialect (String.ofList name) s) := by
      rw [dialectOf, Json.field?_str_iff.2 hfield]
      dsimp only
      rw [hunknown]
    rw [ofJson_of_name hname, hkind.kindOf_eq, hfails]
    rfl

theorem faulty_or_describes (item : Json) : (∃ fault, Faulty item fault) ∨ ∃ entry, Describes item entry := by
  -- each check supposes the ones before it, as the constructors of `Faulty` do
  cases hobject : item.isObject with
  | false => exact .inl ⟨_, .notObject hobject⟩
  | true =>
    by_cases hname : ∃ name, HasName item name
    · obtain ⟨name, hname⟩ := hname
      by_cases hkind : ∃ kind, HasKind item kind
      · obtain ⟨kind, hkind⟩ := hkind
        by_cases hdialect : ∃ dialect, HasDialect item dialect
        · obtain ⟨dialect, hdialect⟩ := hdialect
          exact .inr ⟨⟨upper name, kind, _, dialect, _⟩, ⟨name, hname, rfl⟩, hkind, hdialect, rfl, rfl⟩
        · have hall := not_exists.1 hdialect
          obtain ⟨s, hfield⟩ := Classical.not_forall_not.1 (hall none)
          exact .inl ⟨_, .unknownDialect hname hkind hfield fun dialect => hall (some dialect)⟩
      · by_cases hfield : ∃ s, item.field? "kind" = some (.str s)
        · obtain ⟨s, hfield⟩ := hfield
          exact .inl ⟨_, .unknownKind hname hfield (not_exists.1 hkind)⟩
        · exact .inl ⟨_, .noKind hname (not_exists.1 hfield)⟩
    · exact .inl ⟨_, .noName hobject (not_exists.1 hname)⟩

/-- The fault of the first item that describes no entry. -/
inductive FirstFault (items : List Json) : TableFault → Prop
  | intro {before later : List Json} {item : Json} {fault : EntryFault} (hitems : items = before ++ item :: later)
      (hbefore : ∀ earlier ∈ before, ∃ entry, Describes earlier entry) (hfault : Faulty item fault) :
      FirstFault items (.badEntry before.length fault)

variable {items before later : List Json} {entries : List Keyword}

theorem ofItems_of_describes (h : List.Forall₂ Describes items entries) (index : Nat) :
    ofItems index items = .ok entries := by
  induction h generalizing index with
  | nil => rfl
  | cons hentry _ ih => rw [ofItems, hentry.ofJson_eq, ih]; rfl

theorem ofItems_of_faulty (hbefore : ∀ earlier ∈ before, ∃ entry, Describes earlier entry)
    (hfault : Faulty item fault) (index : Nat) :
    ofItems index (before ++ item :: later) = .error (.badEntry (index + before.length) fault) := by
  induction before generalizing index with
  | nil => rw [List.nil_append, ofItems, hfault.ofJson_eq]; rfl
  | cons first before ih =>
    obtain ⟨⟨entry, hentry⟩, hrest⟩ := List.forall_mem_cons.1 hbefore
    rw [List.cons_append, ofItems, hentry.ofJson_eq, ih hrest, List.length_cons, Nat.add_right_comm,
      ← Nat.add_assoc]
    rfl

theorem firstFault_or_describes (items : List Json) :
    (∃ fault, FirstFault items fault) ∨ ∃ entries, List.Forall₂ Describes items entries := by
  induction items with
  | nil => exact .inr ⟨[], .nil⟩
  | cons item items ih =>
    rcases faulty_or_describes item with ⟨fault, hfault⟩ | ⟨entry, hentry⟩
    · exact .inl ⟨_, .intro (List.nil_append _).symm (List.forall_mem_nil _) hfault⟩
    · rcases ih with ⟨_, hfirst⟩ | ⟨entries, hentries⟩
      · obtain ⟨hitems, hbefore, hfault⟩ := hfirst
        have hbefore := List.forall_mem_cons.2 ⟨⟨entry, hentry⟩, hbefore⟩
        exact .inl ⟨_, .intro (congrArg (List.cons item) hitems) hbefore hfault⟩
      · exact .inr ⟨entry :: entries, .cons hentry hentries⟩

theorem ofItems_outcome (items : List Json) :
    (∀ fault, ofItems 0 items = .error fault ↔ FirstFault items fault) ∧
      ∀ entries, ofItems 0 items = .ok entries ↔ List.Forall₂ Describes items entries := by
  refine outcome_iff ?_ (fun _ h => ofItems_of_describes h 0) (firstFault_or_describes items)
  rintro _ ⟨rfl, hbefore, hfault⟩
  rw [ofItems_of_faulty hbefore hfault, Nat.zero_add]

end Keyword

/-- The entry that a fault of the table's contents is reported for, and the reason. -/
def TableFault.schema? : TableFault → Option (Nat × String)
  | noList => some (0, "missing 'keywords' array")
  | notList => some (0, "expected an object or array")
  | badEntry index fault => some (index, fault.message)
  | _ => none

theorem TableFault.message_of_schema? {fault : TableFault} {index : Nat} {reason : String}
    (h : fault.schema? = some (index, reason)) : fault.message = s!"keyword table entry {index}: {reason}" := by
  cases fault <;> cases h <;> rfl

namespace KeywordTable

/-- The list of a table is the whole value, or it stands under its key. -/
inductive Lists : Json → List Json → Prop
  | array (items : List Json) : Lists (.arr items) items
  | keywords {root : Json} {items : List Json} (h : root.field? "keywords" = some (.arr items)) : Lists root items

theorem Lists.entryList_eq {root : Json} {items : List Json} (h : Lists root items) :
    entryList root = .ok items := by
  cases h with
  | array => rfl
  | keywords hfield =>
    cases root with
    | obj fields => rw [entryList, hfield]
    | _ => cases hfield

theorem entryList_of_not_lists {root : Json} (h : ∀ items, ¬Lists root items) :
    ∃ fault reason, entryList root = .error fault ∧ fault.schema? = some (0, reason) := by
  unfold entryList
  split
  · next items => exact absurd (.array items) (h items)
  · split
    · next items hfield => exact absurd (.keywords hfield) (h items)
    · exact ⟨_, _, rfl, rfl⟩
  · exact ⟨_, _, rfl, rfl⟩

end KeywordTable
end AsmOutline
