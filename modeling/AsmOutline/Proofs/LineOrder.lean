import AsmOutline.Proofs.LabelDiagnostics
import Mathlib.Data.Fin.Rev
import Mathlib.Data.List.FinRange
import Mathlib.Logic.Equiv.Fin.Basic

/-! # Labels do not look at the order of lines

Without local labels every label is keyed by its own text, whatever stands above it. So where the
lines of a source change places, each label is mentioned as before on the new place of its line, and
the same of them are undefined or clash.
-/
namespace AsmOutline
open Text

namespace Source

variable {source : Source} {n : Nat}

/-- Where each line goes. What is no line of the source stays where it is. -/
def place {count : Nat} (σ : Equiv.Perm (Fin count)) : Equiv.Perm Nat :=
  σ.extendDomain Fin.equivSubtype

/-- The source with every line on its new place. -/
def rearrange (source : Source) (σ : Equiv.Perm (Fin source.lineCount)) : Source :=
  ⟨List.ofFn fun n => source.line (σ.symm n)⟩

variable (σ : Equiv.Perm (Fin source.lineCount))

theorem place_val (n : Fin source.lineCount) : place σ n = σ n :=
  σ.extendDomain_apply_image Fin.equivSubtype n

theorem place_of_le (h : source.lineCount ≤ n) : place σ n = n :=
  σ.extendDomain_apply_not_subtype Fin.equivSubtype (Nat.not_lt_of_le h)

@[simp] theorem lineCount_rearrange : (source.rearrange σ).lineCount = source.lineCount :=
  List.length_ofFn

@[simp] theorem line_rearrange (n : Nat) : (source.rearrange σ).line (place σ n) = source.line n := by
  by_cases hn : n < source.lineCount
  · have hplace : place σ n = σ ⟨n, hn⟩ := place_val σ ⟨n, hn⟩
    rw [hplace, line, rearrange]
    simp
  · have hle := Nat.le_of_not_lt hn
    rw [place_of_le σ hle, line_of_le hle, line_of_le (by rwa [lineCount_rearrange])]

/-- The new places of the lines are the lines in another order. -/
theorem map_place_perm : ((List.range source.lineCount).map (place σ)).Perm (List.range source.lineCount) := by
  have hplaces : (List.range source.lineCount).map (place σ) =
      ((List.finRange source.lineCount).map σ).map Fin.val := by
    rw [← List.map_coe_finRange_eq_range, List.map_map, List.map_map]
    exact List.map_congr_left fun n _ => place_val σ n
  rw [hplaces, ← List.map_coe_finRange_eq_range]
  exact σ.map_finRange_perm.map _

end Source

def Mention.moved {count : Nat} (σ : Equiv.Perm (Fin count)) (m : Mention) : Mention :=
  { m with line := Source.place σ m.line }

def Diagnostic.moved {count : Nat} (σ : Equiv.Perm (Fin count)) (d : Diagnostic) : Diagnostic :=
  { d with line := Source.place σ d.line }

namespace Source

variable {source : Source} (σ : Equiv.Perm (Fin source.lineCount))

theorem mentionsOn_rearrange (t : Tokenizer) (n : Nat) :
    (source.rearrange σ).mentionsOn t (place σ n) = (source.mentionsOn t n).map (Mention.moved σ) := by
  rw [mentionsOn, mentionsOn, line_rearrange, List.map_map]
  rfl

theorem mentions_rearrange (t : Tokenizer) :
    ((source.rearrange σ).mentions t).Perm ((source.mentions t).map (Mention.moved σ)) := by
  have hlines : (source.mentions t).map (Mention.moved σ) =
      ((List.range source.lineCount).map (place σ)).flatMap ((source.rearrange σ).mentionsOn t) := by
    rw [mentions, mentionsBefore, List.map_flatMap, List.flatMap_map]
    exact List.flatMap_congr fun n _ => (mentionsOn_rearrange σ t n).symm
  rw [hlines, mentions, mentionsBefore, lineCount_rearrange]
  exact (map_place_perm σ).symm.flatMap_right _

theorem exists_mention_rearrange (t : Tokenizer) {p : Mention → Prop} :
    (∃ m ∈ (source.rearrange σ).mentions t, p m) ↔ ∃ m ∈ source.mentions t, p (m.moved σ) := by
  simp [(mentions_rearrange σ t).mem_iff]

end Source

namespace Mention

variable {t : Tokenizer} {source : Source} {m : Mention}

theorem key_of_not_local (h : LabelRecord.isLocal (m.text source) = false) : m.key t source = m.text source := by
  unfold key
  cases m.parent? t source <;> simp [h]

section Moved

variable (σ : Equiv.Perm (Fin source.lineCount))
  (hglobal : ∀ m ∈ source.mentions t, LabelRecord.isLocal (m.text source) = false)

theorem text_moved (m : Mention) : (m.moved σ).text (source.rearrange σ) = m.text source := by
  rw [text, text, moved, Source.line_rearrange]

include hglobal

theorem key_moved (hm : m ∈ source.mentions t) : (m.moved σ).key t (source.rearrange σ) = m.key t source := by
  have hlocal := hglobal m hm
  rw [key_of_not_local hlocal, key_of_not_local (by rwa [text_moved]), text_moved]

theorem verdict_moved (hm : m ∈ source.mentions t) :
    (m.moved σ).verdict t (source.rearrange σ) = m.verdict t source := by
  have hkey (d : Mention) (hd : d ∈ source.mentions t) :
      (d.moved σ).key t (source.rearrange σ) = (m.moved σ).key t (source.rearrange σ) ↔
        d.key t source = m.key t source := by
    rw [key_moved σ hglobal hd, key_moved σ hglobal hm]
  have hline (d : Mention) : (d.moved σ).line ≠ (m.moved σ).line ↔ d.line ≠ m.line :=
    (Source.place σ).injective.ne_iff
  have hdefined : (∃ d ∈ (source.rearrange σ).mentions t, d.isDef ∧
        d.key t (source.rearrange σ) = (m.moved σ).key t (source.rearrange σ)) ↔
      ∃ d ∈ source.mentions t, d.isDef ∧ d.key t source = m.key t source := by
    rw [Source.exists_mention_rearrange]
    exact exists_congr fun d => and_congr_right fun hd => and_congr_right fun _ => hkey d hd
  have helsewhere : (∃ d ∈ (source.rearrange σ).mentions t, d.isDef ∧
        d.key t (source.rearrange σ) = (m.moved σ).key t (source.rearrange σ) ∧ d.line ≠ (m.moved σ).line) ↔
      ∃ d ∈ source.mentions t, d.isDef ∧ d.key t source = m.key t source ∧ d.line ≠ m.line := by
    rw [Source.exists_mention_rearrange]
    exact exists_congr fun d => and_congr_right fun hd => and_congr_right fun _ =>
      and_congr (hkey d hd) (hline d)
  simp only [verdict, hdefined, helsewhere]
  rfl

theorem diagnostic_moved (hm : m ∈ source.mentions t) :
    (m.moved σ).diagnostic t (source.rearrange σ) = (m.diagnostic t source).moved σ := by
  rw [diagnostic, key_moved σ hglobal hm, verdict_moved σ hglobal hm]
  rfl

end Moved
end Mention

namespace LabelIndex
open Mention

/-- Without local labels the diagnostics of a source whose lines change places are those of the
source, on the new places of their lines. -/
theorem diagnostics_rearrange (t : Tokenizer) (source : Source) (σ : Equiv.Perm (Fin source.lineCount))
    (hglobal : ∀ m ∈ source.mentions t, LabelRecord.isLocal (m.text source) = false) :
    (build t (source.rearrange σ)).diagnostics (source.rearrange σ).lineCount =
      sortStable inReadingOrder (((build t source).diagnostics source.lineCount).map (Diagnostic.moved σ)) := by
  have hmoved : ((source.mentions t).map (Mention.moved σ)).map (diagnostic t (source.rearrange σ)) =
      ((source.mentions t).map (diagnostic t source)).map (Diagnostic.moved σ) := by
    rw [List.map_map, List.map_map]
    exact List.map_congr_left fun m hm => diagnostic_moved σ hglobal hm
  have hkept (ds : List Diagnostic) : (ds.map (Diagnostic.moved σ)).filter (·.verdict ≠ .ok) =
      (ds.filter (·.verdict ≠ .ok)).map (Diagnostic.moved σ) := List.filter_map
  have hperm := ((Source.mentions_rearrange σ t).map (diagnostic t (source.rearrange σ))).filter (·.verdict ≠ .ok)
  rw [hmoved, hkept] at hperm
  rw [diagnostics_eq, diagnostics_eq]
  exact (sort_inReadingOrder hperm.symm (diagnostics_pairwise t (source.rearrange σ))).symm

/-- A call before its procedure, a label without a definition and one with two. -/
def unordered : Source :=
  ⟨["jmp later".toList, "twice:".toList, "jmp gone".toList, "later:".toList, "twice:".toList]⟩

theorem diagnostics_of_reversed :
    let t : Tokenizer := ⟨.ofEntries [{ name := "JMP".toList, kind := .jump }], {}⟩
    (∀ m ∈ unordered.mentions t, LabelRecord.isLocal (m.text unordered) = false) ∧
      unordered.rearrange Fin.revPerm = ⟨unordered.lines.reverse⟩ ∧
      (build t unordered).diagnostics unordered.lineCount =
        [⟨1, "twice".toList, .clash, 0, 5⟩, ⟨2, "gone".toList, .undefined, 4, 8⟩,
          ⟨4, "twice".toList, .clash, 0, 5⟩] ∧
      (build t (unordered.rearrange Fin.revPerm)).diagnostics (unordered.rearrange Fin.revPerm).lineCount =
        sortStable inReadingOrder
          (((build t unordered).diagnostics unordered.lineCount).map (Diagnostic.moved (Fin.revPerm (n := 5)))) := by
  intro t
  have hglobal : ∀ m ∈ unordered.mentions t, LabelRecord.isLocal (m.text unordered) = false := by
    decide +kernel
  refine ⟨hglobal, by decide, ?_, diagnostics_rearrange t unordered Fin.revPerm hglobal⟩
  rw [diagnostics_eq]
  decide +kernel

end LabelIndex
end AsmOutline
