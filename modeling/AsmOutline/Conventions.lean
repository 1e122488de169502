import AsmOutline.Text.Blank
import AsmOutline.Text.Letters

/-! # Lexical conventions of a line

Which characters start a remark, separate words, and cut a line into fragments.
Remark markers are kept in code point order without repeats, and none of them is blank.
-/
namespace AsmOutline
open Text

def insertSorted (c : Char) : List Char → List Char
  | [] => [c]
  | d :: ds => if c < d then c :: d :: ds else if c = d then d :: ds else d :: insertSorted c ds

theorem mem_insertSorted {c x : Char} {ds : List Char} : x ∈ insertSorted c ds ↔ x = c ∨ x ∈ ds := by
  induction ds with
  | nil => simp [insertSorted]
  | cons d ds ih =>
    unfold insertSorted
    split
    · simp
    · split
      · next h => subst h; simp
      · simp only [List.mem_cons, ih]
        exact or_left_comm

/-- The non-blank characters of a list, in order and without repeats. -/
def markerSet : List Char → List Char
  | [] => []
  | c :: cs => if isBlank c then markerSet cs else insertSorted c (markerSet cs)

theorem mem_markerSet {x : Char} {cs : List Char} : x ∈ markerSet cs ↔ x ∈ cs ∧ isBlank x = false := by
  induction cs with
  | nil => simp [markerSet]
  | cons c cs ih =>
    unfold markerSet
    split
    · next h =>
      rw [ih, List.mem_cons]
      exact ⟨fun hx => ⟨.inr hx.1, hx.2⟩, fun hx => hx.1.elim (fun he => by simp [he, h] at hx) (⟨·, hx.2⟩)⟩
    · next h =>
      rw [mem_insertSorted, ih, List.mem_cons]
      constructor
      · rintro (rfl | hx)
        · exact ⟨.inl rfl, by simpa using h⟩
        · exact ⟨.inr hx.1, hx.2⟩
      · rintro ⟨rfl | hx, hb⟩
        · exact .inl rfl
        · exact .inr ⟨hx, hb⟩

theorem markerSet_nonblank (cs : List Char) : (markerSet cs).any isBlank = false := by
  rw [List.any_eq_false]
  intro c h
  simp [(mem_markerSet.1 h).2]

structure Conventions where
  markers : List Char := ['#', ';']
  extraSeparators : List Char := []
  markers_nonblank : markers.any isBlank = false := by rfl
  deriving DecidableEq

namespace Conventions

instance : Inhabited Conventions := ⟨{}⟩

/-- An empty choice of markers stands for the default ones. -/
def ofMarkers (chars : List Char) : Conventions :=
  if markerSet chars = [] then {}
  else { markers := markerSet chars, markers_nonblank := markerSet_nonblank chars }

def addSeparators (rules : Conventions) (chars : List Char) : Conventions :=
  { rules with extraSeparators := rules.extraSeparators ++ chars }

def baseSeparators : List Char :=
  [',', '[', ']', '(', ')', '+', '-', '*', '{', '}', ':']

def isSeparator (rules : Conventions) (c : Char) : Bool :=
  isBlank c || baseSeparators.contains c || rules.extraSeparators.contains c

def isMarker (rules : Conventions) (c : Char) : Bool :=
  rules.markers.contains c

def isBoundary (rules : Conventions) (c : Char) : Bool :=
  rules.isSeparator c || isControl c || rules.isMarker c

/-- The characters that cut a line into fragments. -/
def isSplit (c : Char) : Bool :=
  isBlank c || [',', '+', '*', '[', ']'].contains c

/-- Offset of the first remark marker. -/
def remarkPos (rules : Conventions) : Text → Option Nat
  | [] => none
  | c :: cs => if rules.isMarker c then some 0 else (rules.remarkPos cs).map (c.utf8Size + ·)

/-- Whether the first character that is not blank starts a remark. -/
def isRemarkOnly (rules : Conventions) (line : Text) : Bool :=
  match line.dropWhile isBlank with
  | [] => false
  | c :: _ => rules.isMarker c

def isInRemark (rules : Conventions) (line : Text) (pos : Nat) : Bool :=
  match rules.remarkPos line with
  | none => false
  | some marker => marker ≤ pos

end Conventions
end AsmOutline
