import AsmOutline.Json
import AsmOutline.Keyword

/-! # Values that a reader knows

A reader accepts the values of one form and no others: a string, a number, a name. A name is
known in any letter case and with blanks around it, and the names of one type differ, so that a
text names one member at most. What a reader that may fail does is told by its reasons to fail
and by its results.
-/
namespace AsmOutline
open Text

/-- Where every reason to fail leads to its failure and every result to its success, and there
is always one of them, no others are left. -/
theorem outcome_iff {ε α : Type} {x : Except ε α} {Fails : ε → Prop} {Gives : α → Prop}
    (hfails : ∀ fault, Fails fault → x = .error fault) (hgives : ∀ a, Gives a → x = .ok a)
    (htotal : (∃ fault, Fails fault) ∨ ∃ a, Gives a) :
    (∀ fault, x = .error fault ↔ Fails fault) ∧ ∀ a, x = .ok a ↔ Gives a := by
  rcases htotal with ⟨fault, hfault⟩ | ⟨a, ha⟩
  · have hx := hfails fault hfault
    refine ⟨fun other => ⟨fun h => ?_, hfails other⟩, fun b => ⟨fun h => ?_, hgives b⟩⟩
    · exact Except.error.inj (hx.symm.trans h) ▸ hfault
    · cases hx.symm.trans h
  · have hx := hgives a ha
    refine ⟨fun fault => ⟨fun h => ?_, hfails fault⟩, fun b => ⟨fun h => ?_, hgives b⟩⟩
    · cases hx.symm.trans h
    · exact Except.ok.inj (hx.symm.trans h) ▸ ha

namespace Json

variable {value : Json}

theorem str?_eq_some_iff {s : String} : value.str? = some s ↔ value = .str s := by
  cases value <;> simp [str?]

theorem bool?_eq_some_iff {b : Bool} : value.bool? = some b ↔ value = .bool b := by
  cases value <;> simp [bool?]

theorem natural?_eq_some_iff {n : Nat} : value.natural? = some n ↔ value = .num (.natural n) := by
  unfold natural?
  split <;> simp_all

theorem isObject_of_field? {key : String} (h : (value.field? key).isSome) : value.isObject = true := by
  cases value with
  | obj fields => rfl
  | _ => cases h

/-- A field that holds a string. -/
theorem field?_str_iff {key s : String} :
    (value.field? key).bind str? = some s ↔ value.field? key = some (.str s) := by
  simp only [Option.bind_eq_some_iff, str?_eq_some_iff, exists_eq_right]

theorem field?_not_str_iff {key : String} :
    (value.field? key).bind str? = none ↔ ∀ s, value.field? key ≠ some (.str s) := by
  simp only [Option.eq_none_iff_forall_ne_some, ne_eq, field?_str_iff]

end Json

/-- To look for a name among all members finds the one that has it. -/
theorem find?_name_iff {α : Type} {name : α → Text} {members : List α} (hall : ∀ a, a ∈ members)
    (hlower : ∀ a, lower (name a) = name a) (hinj : Function.Injective name) (text : Text) (a : α) :
    (members.find? fun b => name b == lower (trim text)) = some a ↔ sameLetters (name a) (trim text) = true := by
  rw [sameLetters, hlower]
  constructor
  · intro h
    have hname := List.find?_some h
    exact hname
  · intro h
    cases hfound : members.find? fun b => name b == lower (trim text) with
    | none => exact absurd h (List.find?_eq_none.1 hfound a (hall a))
    | some b =>
      have hname := List.find?_some hfound
      exact congrArg some (hinj ((beq_iff_eq.1 hname).trans (beq_iff_eq.1 h).symm))

theorem Dialect.ofName?_eq_some_iff (text : Text) (dialect : Dialect) :
    ofName? text = some dialect ↔ sameLetters dialect.name.toList (trim text) = true := by
  apply find?_name_iff
  · intro a
    cases a <;> decide
  · intro a
    cases a <;> rfl
  · intro a b
    cases a <;> cases b <;> decide

theorem Keyword.Kind.ofName?_eq_some_iff (text : Text) (kind : Kind) :
    ofName? text = some kind ↔ sameLetters kind.name.toList (trim text) = true := by
  apply find?_name_iff
  · intro a
    cases a <;> decide
  · intro a
    cases a <;> rfl
  · intro a b
    cases a <;> cases b <;> decide

end AsmOutline
