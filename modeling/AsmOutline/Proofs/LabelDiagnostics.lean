import AsmOutline.Proofs.LabelKeys
import AsmOutline.Proofs.SortOrder
import Mathlib.Data.List.Perm.Basic

/-! # What is wrong with the labels of a source

A use is undefined when no definition has its key, and a definition clashes when another
line defines its key too. The index of a source reports exactly these mentions, each once
and in reading order, and gives every single token the same verdict.
-/
namespace AsmOutline
open Text

namespace Mention

def verdict (t : Tokenizer) (source : Source) (m : Mention) : Verdict :=
  match m.token.kind with
  | .labelUse =>
    if ∃ d ∈ source.mentions t, d.isDef ∧ d.key t source = m.key t source then .ok else .undefined
  | .labelDef =>
    if ∃ d ∈ source.mentions t, d.isDef ∧ d.key t source = m.key t source ∧ d.line ≠ m.line then .clash
    else .ok
  | _ => .ok

def diagnostic (t : Tokenizer) (source : Source) (m : Mention) : Diagnostic :=
  ⟨m.line, m.key t source, m.verdict t source, m.token.start, m.token.stop⟩

end Mention

namespace Source

variable {t : Tokenizer} {source : Source} {n : Nat} {a b m : Mention}

/-- Mentions of one line are told apart by where they start. -/
theorem mention_eq_of_start (ha : a ∈ source.mentionsOn t n) (hb : b ∈ source.mentionsOn t n)
    (h : a.token.start = b.token.start) : a = b := by
  have hline : a.line = b.line := by rw [line_of_mem_mentionsOn ha, line_of_mem_mentionsOn hb]
  rcases eq_or_rel_of_pairwise (mentionsOn_pairwise t source n) ha hb with heq | hlt | hlt
  · exact heq
  · unfold Mention.Precedes at hlt
    omega
  · unfold Mention.Precedes at hlt
    omega

theorem kind_of_mem_mentionsOn (h : m ∈ source.mentionsOn t n) :
    m.isDef = true ∧ m.token.kind = .labelDef ∨ m.isDef = false ∧ m.token.kind = .labelUse := by
  obtain ⟨token, hm, rfl⟩ := List.mem_map.1 h
  have hlabel : token.kind.isLabel = true := (List.mem_filter.1 hm).2
  cases hk : token.kind <;> simp_all [Mention.isDef, Token.Kind.isLabel]

end Source

theorem LineSets.contains_iff {sets : LineSets} (h : NoneEmpty sets) (name : Text) :
    sets.contains name = true ↔ ∃ line, line ∈ lines sets name := by
  rw [Std.ExtTreeMap.contains_eq_isSome_getElem?, getElem?_of_noneEmpty h]
  by_cases he : (lines sets name).isEmpty = true
  · rw [Std.ExtTreeSet.isEmpty_iff.1 he]
    simp
  · have hne : lines sets name ≠ ∅ := fun hempty => he (Std.ExtTreeSet.isEmpty_iff.2 hempty)
    obtain ⟨line, hline⟩ : ∃ line, line ∈ lines sets name := by
      cases hl : (lines sets name).toList with
      | nil => exact absurd (Std.ExtTreeSet.toList_eq_nil_iff.1 hl) hne
      | cons line rest =>
        refine ⟨line, Std.ExtTreeSet.mem_toList.1 ?_⟩
        rw [hl]
        exact List.mem_cons_self
    simp only [he, Bool.false_eq_true, if_false, Option.isSome_some, true_iff]
    exact ⟨line, hline⟩

theorem LineSets.one_lt_size_iff (set : Std.ExtTreeSet Nat) :
    1 < set.size ↔ ∃ a ∈ set, ∃ b ∈ set, a ≠ b := by
  have hdistinct := set.distinct_toList
  rw [← Std.ExtTreeSet.length_toList]
  simp only [← Std.ExtTreeSet.mem_toList]
  generalize set.toList = items at hdistinct ⊢
  rcases items with _ | ⟨a, _ | ⟨b, rest⟩⟩
  · simp
  · simp
  · have hab := (List.pairwise_cons.1 hdistinct).1 b List.mem_cons_self
    simp only [List.length_cons, Nat.lt_add_left_iff_pos, Nat.zero_lt_succ, true_iff]
    refine ⟨a, List.mem_cons_self, b, List.mem_cons_of_mem _ List.mem_cons_self, ?_⟩
    simpa using hab

namespace LabelIndex
open Mention

variable {t : Tokenizer} {source : Source} {m : Mention} {n line : Nat} {name : Text}

theorem mem_defLines : line ∈ (build t source).defs.lines name ↔
    ∃ d ∈ source.mentions t, d.isDef ∧ d.key t source = name ∧ d.line = line := by
  rw [(build_mirrors t source).defs.mem_iff, build_records]
  have hkept : (∃ record, kept (recordAt t source line) = some record ∧ name ∈ names record.defs) ↔
      name ∈ names (recordAt t source line).defs := by
    unfold kept
    by_cases he : (recordAt t source line).isEmpty = true
    · have hdefs : (recordAt t source line).defs = [] := by
        simpa using (Bool.and_eq_true_iff.1 he).1
      simp [he, hdefs, names]
    · simp [he]
  rw [hkept, (recordAt_sites t source line).1]
  constructor
  · intro h
    obtain ⟨found, hf, rfl⟩ := List.mem_map.1 h
    obtain ⟨d, hd, rfl⟩ := List.mem_map.1 hf
    obtain ⟨hd, hdef⟩ := List.mem_filter.1 hd
    have hline := Source.line_of_mem_mentionsOn hd
    exact ⟨d, Source.mem_mentions.2 (hline ▸ hd), hdef, rfl, hline⟩
  · rintro ⟨d, hd, hdef, rfl, rfl⟩
    refine List.mem_map.2 ⟨site t source d, List.mem_map.2 ⟨d, ?_, rfl⟩, rfl⟩
    exact List.mem_filter.2 ⟨Source.mem_mentions.1 hd, hdef⟩

theorem hasLabel_iff : (build t source).hasLabel name = true ↔
    ∃ d ∈ source.mentions t, d.isDef ∧ d.key t source = name := by
  rw [hasLabel, LineSets.contains_iff (build_mirrors t source).defs.noneEmpty]
  simp only [mem_defLines]
  constructor
  · rintro ⟨_, d, hd, hdef, hkey, _⟩
    exact ⟨d, hd, hdef, hkey⟩
  · rintro ⟨d, hd, hdef, hkey⟩
    exact ⟨d.line, d, hd, hdef, hkey, rfl⟩

/-- A name that some line defines clashes when another line defines it. -/
theorem hasClash_iff (hline : line ∈ (build t source).defs.lines name) :
    (build t source).hasClash name = true ↔
      ∃ d ∈ source.mentions t, d.isDef ∧ d.key t source = name ∧ d.line ≠ line := by
  rw [hasClash, decide_eq_true_iff, LineSets.one_lt_size_iff]
  constructor
  · rintro ⟨a, ha, b, hb, hab⟩
    -- of two different lines at most one is the given line
    obtain ⟨other, hother, hne⟩ : ∃ other ∈ (build t source).defs.lines name, other ≠ line := by
      by_cases he : a = line
      · exact ⟨b, hb, fun hb' => hab (he.trans hb'.symm)⟩
      · exact ⟨a, ha, he⟩
    obtain ⟨d, hd, hdef, hkey, rfl⟩ := mem_defLines.1 hother
    exact ⟨d, hd, hdef, hkey, hne⟩
  · rintro ⟨d, hd, hdef, hkey, hne⟩
    exact ⟨d.line, mem_defLines.2 ⟨d, hd, hdef, hkey, rfl⟩, line, hline, hne⟩

theorem verdict_key (h : m ∈ source.mentions t) :
    (build t source).verdict m.token.kind (m.key t source) = m.verdict t source := by
  rcases Source.kind_of_mem_mentionsOn (Source.mem_mentions.1 h) with ⟨hdef, hk⟩ | ⟨_, hk⟩
  · have hline : m.line ∈ (build t source).defs.lines (m.key t source) :=
      mem_defLines.2 ⟨m, h, hdef, rfl, rfl⟩
    simp only [Mention.verdict, LabelIndex.verdict, hk, hasClash_iff hline]
  · simp only [Mention.verdict, LabelIndex.verdict, hk, hasLabel_iff]

/-- The diagnostics of a line are those of its mentions, definitions before uses. -/
theorem recordDiagnostics_perm (t : Tokenizer) (source : Source) (n : Nat) :
    ((build t source).recordDiagnostics n (recordAt t source n)).Perm
      (((source.mentionsOn t n).map (diagnostic t source)).filter (·.verdict ≠ .ok)) := by
  obtain ⟨hdefs, huses⟩ := recordAt_sites t source n
  have hsame (kind : Token.Kind) (m : Mention) (hm : m ∈ source.mentionsOn t n) (hk : m.token.kind = kind) :
      (build t source).siteDiagnostic n kind (site t source m) = diagnostic t source m := by
    have hline := Source.line_of_mem_mentionsOn hm
    have hverdict := verdict_key (Source.mem_mentions.2 (hline ▸ hm))
    rw [hk] at hverdict
    simp only [siteDiagnostic, site, diagnostic, hverdict, hline]
  have hdefDiagnostics : (recordAt t source n).defs.map ((build t source).siteDiagnostic n .labelDef) =
      ((source.mentionsOn t n).filter isDef).map (diagnostic t source) := by
    rw [hdefs, List.map_map]
    apply List.map_congr_left
    intro m hm
    obtain ⟨hm, hdef⟩ := List.mem_filter.1 hm
    exact hsame .labelDef m hm (by simpa [isDef] using hdef)
  have huseDiagnostics : (recordAt t source n).uses.map ((build t source).siteDiagnostic n .labelUse) =
      ((source.mentionsOn t n).filter (!isDef ·)).map (diagnostic t source) := by
    rw [huses, List.map_map]
    apply List.map_congr_left
    intro m hm
    obtain ⟨hm, huse⟩ := List.mem_filter.1 hm
    apply hsame .labelUse m hm
    rcases Source.kind_of_mem_mentionsOn hm with ⟨hdef, _⟩ | ⟨_, hk⟩
    · simp [hdef] at huse
    · exact hk
  rw [recordDiagnostics, hdefDiagnostics, huseDiagnostics, ← List.map_append]
  exact ((List.filter_append_perm isDef _).map _).filter _

theorem diagnostics_perm (t : Tokenizer) (source : Source) :
    (((build t source).records.toList.filter (·.1 < source.lineCount)).flatMap fun entry =>
        (build t source).recordDiagnostics entry.1 entry.2).Perm
      (((source.mentions t).map (diagnostic t source)).filter (·.verdict ≠ .ok)) := by
  rw [records_before, List.filterMap_eq_flatMap_toList, List.flatMap_assoc, Source.mentions,
    Source.mentionsBefore, List.map_flatMap, List.filter_flatMap]
  apply List.Perm.flatMap_left
  intro n _
  have hline : ((build t source).records[n]?.map (n, ·)).toList.flatMap
      (fun entry => (build t source).recordDiagnostics entry.1 entry.2) =
      (build t source).recordDiagnostics n (recordAt t source n) := by
    rw [build_records, kept]
    by_cases he : (recordAt t source n).isEmpty = true
    · have hboth := Bool.and_eq_true_iff.1 he
      simp only [List.isEmpty_iff] at hboth
      simp [he, recordDiagnostics, hboth]
    · simp [he]
  rw [hline]
  exact recordDiagnostics_perm t source n

theorem diagnostics_pairwise (t : Tokenizer) (source : Source) :
    (((source.mentions t).map (diagnostic t source)).filter (·.verdict ≠ .ok)).Pairwise
      (fun a b => a.line < b.line ∨ a.line = b.line ∧ a.start < b.start) := by
  apply List.Pairwise.filter
  rw [List.pairwise_map]
  exact source.mentions_pairwise t

theorem inReadingOrder_iff (a b : Diagnostic) :
    inReadingOrder a b = true ↔ a.line < b.line ∨ a.line = b.line ∧ a.start ≤ b.start := by
  simp [inReadingOrder]

/-- Sorting brings diagnostics of different places into reading order. -/
theorem sort_inReadingOrder {found ds : List Diagnostic} (hp : found.Perm ds)
    (hd : ds.Pairwise (fun a b => a.line < b.line ∨ a.line = b.line ∧ a.start < b.start)) :
    sortStable inReadingOrder found = ds := by
  apply sortStable_eq_of_perm ?_ ?_ hp
  · apply hd.imp
    intro a b hab
    rw [← Bool.not_eq_true, inReadingOrder_iff, inReadingOrder_iff]
    omega
  · intro a b
    rw [inReadingOrder_iff, inReadingOrder_iff]
    omega
  · intro a b c
    rw [inReadingOrder_iff, inReadingOrder_iff, inReadingOrder_iff]
    omega

theorem diagnostics_eq (t : Tokenizer) (source : Source) :
    (build t source).diagnostics source.lineCount =
      ((source.mentions t).map (diagnostic t source)).filter (·.verdict ≠ .ok) :=
  sort_inReadingOrder (diagnostics_perm t source) (diagnostics_pairwise t source)

/-- A token is found under the key that its site has. -/
theorem siteAt?_start (h : m ∈ source.mentions t) :
    (build t source).records[m.line]?.bind (·.siteAt? m.token.start) = some (site t source m) := by
  obtain ⟨hdefs, huses⟩ := recordAt_sites t source m.line
  have hm := Source.mem_mentions.1 h
  have hsites : ∀ s, s ∈ (recordAt t source m.line).defs ++ (recordAt t source m.line).uses ↔
      ∃ o ∈ source.mentionsOn t m.line, site t source o = s := by
    intro s
    rw [hdefs, huses, ← List.map_append, List.mem_map]
    simp only [(List.filter_append_perm isDef (source.mentionsOn t m.line)).mem_iff]
  have hfind : (recordAt t source m.line).siteAt? m.token.start = some (site t source m) := by
    unfold LabelRecord.siteAt?
    cases hf : ((recordAt t source m.line).defs ++ (recordAt t source m.line).uses).find?
        (·.start == m.token.start) with
    | none =>
      have hnone := List.find?_eq_none.1 hf _ ((hsites _).2 ⟨m, hm, rfl⟩)
      simp [site] at hnone
    | some s =>
      obtain ⟨o, ho, rfl⟩ := (hsites s).1 (List.mem_of_find?_eq_some hf)
      have hstart : o.token.start = m.token.start := by simpa [site] using List.find?_some hf
      rw [Source.mention_eq_of_start ho hm hstart]
  rw [build_records, kept, if_neg, Option.bind_some, hfind]
  intro he
  have hboth := Bool.and_eq_true_iff.1 he
  simp only [List.isEmpty_iff] at hboth
  simp [LabelRecord.siteAt?, hboth] at hfind

theorem tokenVerdict_eq (h : m ∈ source.mentions t) :
    (build t source).tokenVerdict m.line m.token (source.line m.line) = m.verdict t source := by
  rw [tokenVerdict, siteAt?_start h]
  exact verdict_key h

end LabelIndex

theorem Diagnostic.dedup_of_nodup {ds : List Diagnostic} (h : ds.Nodup) : dedup ds = ds := by
  have hgo (seen : List Diagnostic) (hseen : ∀ d ∈ ds, d ∉ seen) : dedup.go seen ds = ds := by
    induction ds generalizing seen with
    | nil => rfl
    | cons d ds ih =>
      obtain ⟨hd, hds⟩ := List.nodup_cons.1 h
      rw [dedup.go, if_neg (hseen d List.mem_cons_self), ih hds]
      intro e he hmem
      rcases List.mem_cons.1 hmem with rfl | hmem
      · exact hd he
      · exact hseen e (List.mem_cons_of_mem _ he) hmem
  exact hgo [] (by simp)

namespace LabelIndex
open Mention

/-- The diagnostics of a source are sound and complete. -/
theorem diagnostics_of_mentions (t : Tokenizer) (source : Source) :
    (build t source).diagnostics source.lineCount =
        ((source.mentions t).map (diagnostic t source)).filter (·.verdict ≠ .ok) ∧
      ((build t source).diagnostics source.lineCount).Pairwise
        (fun a b => a.line < b.line ∨ a.line = b.line ∧ a.start < b.start) ∧
      (∀ m ∈ source.mentions t,
        (build t source).tokenVerdict m.line m.token (source.line m.line) = m.verdict t source) ∧
      Diagnostic.dedup ((build t source).diagnostics source.lineCount) =
        (build t source).diagnostics source.lineCount := by
  have hpairwise := diagnostics_pairwise t source
  rw [← diagnostics_eq] at hpairwise
  refine ⟨diagnostics_eq t source, hpairwise, fun m => tokenVerdict_eq, ?_⟩
  apply Diagnostic.dedup_of_nodup
  apply hpairwise.imp
  rintro a b hab rfl
  omega

end LabelIndex
end AsmOutline
