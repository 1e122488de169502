import AsmOutline.Proofs.LabelScope
import AsmOutline.Proofs.TokenOrder

/-! # Keys of labels in reading order

Read from the first line to the last, the label tokens of a source form one list. The key
of a token is decided by that list: a local label is keyed under the last non-local
definition before it. The sites in the index carry exactly these keys.
-/
namespace AsmOutline
open Text

/-- A label token, with the line it stands on. -/
structure Mention where
  line : Nat
  token : Token
  deriving DecidableEq

namespace Mention

def text (source : Source) (m : Mention) : Text :=
  m.token.text (source.line m.line)

def isDef (m : Mention) : Bool :=
  m.token.kind = .labelDef

/-- A definition that local labels after it are keyed under. -/
def isParent (source : Source) (m : Mention) : Bool :=
  m.isDef && !LabelRecord.isLocal (m.text source)

/-- Earlier in reading order. -/
def Precedes (a b : Mention) : Prop :=
  a.line < b.line ∨ a.line = b.line ∧ a.token.start < b.token.start

instance (a b : Mention) : Decidable (a.Precedes b) :=
  inferInstanceAs (Decidable (_ ∨ _))

theorem Precedes.asymm {a b : Mention} (h : a.Precedes b) : ¬b.Precedes a := by
  unfold Precedes at *
  omega

end Mention

namespace Source

def mentionsOn (t : Tokenizer) (source : Source) (n : Nat) : List Mention :=
  (t.labelTokens (source.line n)).map (Mention.mk n)

def mentionsBefore (t : Tokenizer) (source : Source) (n : Nat) : List Mention :=
  (List.range n).flatMap (source.mentionsOn t)

/-- The label tokens of a source. -/
def mentions (t : Tokenizer) (source : Source) : List Mention :=
  source.mentionsBefore t source.lineCount

variable {t : Tokenizer} {source : Source} {n : Nat} {m : Mention}

theorem line_of_mem_mentionsOn (h : m ∈ source.mentionsOn t n) : m.line = n := by
  obtain ⟨token, _, rfl⟩ := List.mem_map.1 h
  rfl

theorem mentionsOn_of_le (h : source.lineCount ≤ n) : source.mentionsOn t n = [] := by
  rw [mentionsOn, line_of_le h]
  rfl

theorem mem_mentions : m ∈ source.mentions t ↔ m ∈ source.mentionsOn t m.line := by
  constructor
  · intro h
    obtain ⟨n, _, hm⟩ := List.mem_flatMap.1 h
    rw [line_of_mem_mentionsOn hm]
    exact hm
  · intro h
    refine List.mem_flatMap.2 ⟨m.line, List.mem_range.2 ?_, h⟩
    apply Nat.lt_of_not_le
    intro hle
    rw [mentionsOn_of_le hle] at h
    cases h

theorem mentionsOn_pairwise (t : Tokenizer) (source : Source) (n : Nat) :
    (source.mentionsOn t n).Pairwise Mention.Precedes := by
  rw [mentionsOn, List.pairwise_map]
  apply (t.labelTokens_pairwise_start (source.line n)).imp
  intro a b hab
  exact .inr ⟨rfl, hab⟩

theorem mentions_pairwise (t : Tokenizer) (source : Source) :
    (source.mentions t).Pairwise Mention.Precedes := by
  refine List.pairwise_flatMap.2 ⟨fun n _ => mentionsOn_pairwise t source n, ?_⟩
  apply List.pairwise_lt_range.imp
  intro a b hab x hx y hy
  left
  rw [line_of_mem_mentionsOn hx, line_of_mem_mentionsOn hy]
  exact hab

theorem mentionsBefore_succ (t : Tokenizer) (source : Source) (n : Nat) :
    source.mentionsBefore t (n + 1) = source.mentionsBefore t n ++ source.mentionsOn t n := by
  simp [mentionsBefore, List.range_succ]

theorem mentions_split (h : n < source.lineCount) :
    ∃ after, source.mentions t = source.mentionsBefore t n ++ source.mentionsOn t n ++ after := by
  obtain ⟨k, hk⟩ := Nat.exists_eq_add_of_lt h
  refine ⟨((List.range k).map (n + 1 + ·)).flatMap (source.mentionsOn t), ?_⟩
  have hk' : source.lineCount = n + 1 + k := by omega
  rw [mentions, ← mentionsBefore_succ, hk', mentionsBefore, List.range_add, List.flatMap_append]
  rfl

end Source

namespace Mention

/-- The closest parent before a mention. -/
def parent? (t : Tokenizer) (source : Source) (m : Mention) : Option Mention :=
  ((source.mentions t).filter fun p => p.isParent source && decide (p.Precedes m)).getLast?

def key (t : Tokenizer) (source : Source) (m : Mention) : Text :=
  match m.parent? t source with
  | some parent =>
    if LabelRecord.isLocal (m.text source) then parent.text source ++ m.text source else m.text source
  | none => m.text source

/-- Where a label stands, under its key. -/
def site (t : Tokenizer) (source : Source) (m : Mention) : LabelSite :=
  ⟨m.key t source, m.token.start, m.token.stop⟩

/-- The last parent among some mentions. -/
def enclosing (source : Source) (ms : List Mention) : Option Text :=
  (ms.filter (isParent source)).getLast?.map (text source)

variable {t : Tokenizer} {source : Source} {m : Mention} {before after : List Mention}

theorem enclosing_append (before after : List Mention) :
    enclosing source (before ++ after) = (enclosing source after).or (enclosing source before) := by
  rw [enclosing, List.filter_append, List.getLast?_append, Option.map_or]
  rfl

/-- What a single definition leaves open. -/
theorem enclosing_singleton (source : Source) (m : Mention) :
    enclosing source [m] = if m.isDef then LabelRecord.opening (m.text source) else none := by
  cases hd : m.isDef <;> cases hl : LabelRecord.isLocal (m.text source) <;>
    simp [enclosing, isParent, hd, hl, LabelRecord.opening]

theorem enclosing_cons (source : Source) (m : Mention) (after : List Mention) :
    enclosing source (m :: after) =
      (enclosing source after).or (if m.isDef then LabelRecord.opening (m.text source) else none) := by
  rw [← enclosing_singleton, ← enclosing_append]
  rfl

/-- In reading order, what precedes a mention is what stands before it in the list. -/
theorem filter_precedes (h : (before ++ m :: after).Pairwise Precedes) :
    (before ++ m :: after).filter (fun p => decide (p.Precedes m)) = before := by
  obtain ⟨_, hafter, hcross⟩ := List.pairwise_append.1 h
  have hbefore : before.filter (fun p => decide (p.Precedes m)) = before := by
    rw [List.filter_eq_self]
    intro p hp
    exact decide_eq_true (hcross p hp m List.mem_cons_self)
  have hrest : (m :: after).filter (fun p => decide (p.Precedes m)) = [] := by
    rw [List.filter_eq_nil_iff]
    intro p hp
    have hnot : ¬p.Precedes m := by
      rcases List.mem_cons.1 hp with rfl | hp
      · exact fun hself => hself.asymm hself
      · exact ((List.pairwise_cons.1 hafter).1 p hp).asymm
    simpa using hnot
  rw [List.filter_append, hbefore, hrest, List.append_nil]

theorem key_eq (h : source.mentions t = before ++ m :: after) :
    m.key t source = LabelRecord.key (enclosing source before) (m.text source) := by
  have hparent : m.parent? t source = (before.filter (isParent source)).getLast? := by
    have hpairwise := source.mentions_pairwise t
    rw [h] at hpairwise
    rw [parent?, ← List.filter_filter, h, filter_precedes hpairwise]
  rw [key, enclosing, hparent]
  cases (before.filter (isParent source)).getLast? with
  | none => rfl
  | some parent => rfl

end Mention

namespace LabelRecord
open Mention

variable {t : Tokenizer} {source : Source} {n : Nat}

theorem ofTokens_opens_eq (source : Source) (n : Nat) (parent : Option Text) (tokens : List Token) :
    (ofTokens (source.line n) parent tokens).opens = enclosing source (tokens.map (Mention.mk n)) := by
  induction tokens generalizing parent with
  | nil => rfl
  | cons token tokens ih =>
    rw [ofTokens, List.map_cons, enclosing_cons]
    by_cases hd : token.kind = .labelDef
    · simp [hd, ih, isDef, text]
    · simp [hd, ih, isDef]

/-- If every token is keyed under the last parent before it, then so is every site. -/
theorem ofTokens_sites {parent : Option Text} {tokens : List Token}
    (h : ∀ before token after, tokens = before ++ token :: after →
      (Mention.mk n token).key t source =
        key ((enclosing source (before.map (Mention.mk n))).or parent) (token.text (source.line n))) :
    (ofTokens (source.line n) parent tokens).defs =
        ((tokens.map (Mention.mk n)).filter isDef).map (site t source) ∧
      (ofTokens (source.line n) parent tokens).uses =
        ((tokens.map (Mention.mk n)).filter (!isDef ·)).map (site t source) := by
  induction tokens generalizing parent with
  | nil => exact ⟨rfl, rfl⟩
  | cons token tokens ih =>
    have hkey : (Mention.mk n token).key t source = key parent (token.text (source.line n)) :=
      h [] token tokens rfl
    -- the parent that the scan goes on with is the one that the list gives
    have hnext : ∀ before later after, tokens = before ++ later :: after →
        (Mention.mk n later).key t source =
          key ((enclosing source (before.map (Mention.mk n))).or
            ((if token.kind = .labelDef then opening (token.text (source.line n)) else none).or parent))
            (later.text (source.line n)) := by
      intro before later after hsplit
      rw [h (token :: before) later after (by rw [hsplit]; rfl), List.map_cons, enclosing_cons,
        Option.or_assoc]
      simp [isDef, text]
    rw [ofTokens]
    by_cases hd : token.kind = .labelDef
    · simp only [hd, if_true] at hnext
      obtain ⟨hdefs, huses⟩ := ih hnext
      simp [hd, isDef, site, hdefs, huses, hkey]
    · simp only [hd, if_false, Option.none_or] at hnext
      obtain ⟨hdefs, huses⟩ := ih hnext
      simp [hd, isDef, site, hdefs, huses, hkey]

end LabelRecord

namespace LabelIndex
open Mention

variable {t : Tokenizer} {source : Source}

theorem parentAt_eq (t : Tokenizer) (source : Source) (n : Nat) :
    parentAt t source n = enclosing source (source.mentionsBefore t n) := by
  induction n with
  | zero => rfl
  | succ n ih =>
    rw [parentAt, ih, Source.mentionsBefore_succ, enclosing_append]
    congr 1
    exact LabelRecord.ofTokens_opens_eq source n none _

/-- The sites of a line are its mentions under their keys. -/
theorem recordAt_sites (t : Tokenizer) (source : Source) (n : Nat) :
    (recordAt t source n).defs = ((source.mentionsOn t n).filter isDef).map (site t source) ∧
      (recordAt t source n).uses = ((source.mentionsOn t n).filter (!isDef ·)).map (site t source) := by
  apply LabelRecord.ofTokens_sites
  intro before token after hsplit
  have hn : n < source.lineCount := by
    apply Nat.lt_of_not_le
    intro hle
    have hnone : t.labelTokens (source.line n) = [] := by
      rw [Source.line_of_le hle]
      rfl
    rw [hnone] at hsplit
    simp at hsplit
  obtain ⟨later, hmentions⟩ := Source.mentions_split (t := t) hn
  have hline : source.mentionsOn t n =
      before.map (Mention.mk n) ++ ⟨n, token⟩ :: after.map (Mention.mk n) := by
    rw [Source.mentionsOn, hsplit]
    simp
  rw [hline] at hmentions
  have hkey : source.mentions t = (source.mentionsBefore t n ++ before.map (Mention.mk n)) ++
      ⟨n, token⟩ :: (after.map (Mention.mk n) ++ later) := by
    rw [hmentions]
    simp
  rw [Mention.key_eq hkey, enclosing_append, parentAt_eq]
  rfl

end LabelIndex
end AsmOutline
