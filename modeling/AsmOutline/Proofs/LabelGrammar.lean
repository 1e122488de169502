import AsmOutline.Proofs.RemarkBlindness
import Mathlib.Data.List.TakeWhile

/-! # The grammar of label heads

A line has a label in one of two forms: blanks, a name and a colon, or blanks, `EXTRN` or
`EXTERN`, blanks, a name and a colon. The search for the label finds exactly these lines, for
every choice of markers and separators but one: where the colon itself starts a remark, there
is no label at all. A line has at most one such form.
-/
namespace AsmOutline
open Text

theorem Text.append_stop_inj {p : Char → Bool} {a b x y : Text} {c d : Char} (ha : ∀ e ∈ a, p e = true)
    (hb : ∀ e ∈ b, p e = true) (hc : p c = false) (hd : p d = false) (h : a ++ c :: x = b ++ d :: y) :
    a = b ∧ c = d ∧ x = y := by
  have hfront : a = b := by
    calc
      a = (a ++ c :: x).takeWhile p := by rw [takeWhile_append_stop hc, List.takeWhile_eq_self_iff.2 ha]
      _ = (b ++ d :: y).takeWhile p := by rw [h]
      _ = b := by rw [takeWhile_append_stop hd, List.takeWhile_eq_self_iff.2 hb]
  subst hfront
  exact ⟨rfl, List.cons.inj (List.append_cancel_left h)⟩

namespace Conventions

variable {rules : Conventions} {blanks word name gap rest after line : Text} {stop : Char}

/-- What may stand before the colon. -/
structure IsName (rules : Conventions) (name : Text) : Prop where
  nonempty : name ≠ []
  unseparated : ∀ c ∈ name, rules.isSeparator c = false
  unquoted : '"' ∉ name
  unmarked : ∀ c ∈ name, rules.isMarker c = false

theorem isName_iff : rules.IsName name ↔ name ≠ [] ∧ ∀ c ∈ name, rules.endsWord c = false := by
  constructor
  · intro h
    refine ⟨h.nonempty, fun c hc => ?_⟩
    have hquote : c ≠ '"' := fun he => h.unquoted (he ▸ hc)
    simp [endsWord, hquote, h.unmarked c hc, h.unseparated c hc]
  · rintro ⟨hne, hends⟩
    simp only [endsWord, Bool.or_eq_false_iff, beq_eq_false_iff_ne] at hends
    exact ⟨hne, fun c hc => (hends c hc).2, fun hq => (hends _ hq).1.1 rfl, fun c hc => (hends c hc).1.2⟩

instance (rules : Conventions) (name : Text) : Decidable (rules.IsName name) :=
  decidable_of_iff (name.isEmpty = false ∧ name.all (!rules.endsWord ·) = true) (by simp [isName_iff])

/-- The word that declares the name after it. -/
structure Declares (rules : Conventions) (word : Text) : Prop where
  spelled : lower word = "extrn".toList ∨ lower word = "extern".toList
  unseparated : ∀ c ∈ word, rules.isSeparator c = false
  unmarked : ∀ c ∈ word, rules.isMarker c = false

theorem isExtern_iff : isExtern word = true ↔ lower word = "extrn".toList ∨ lower word = "extern".toList := by
  have hshort : lower "EXTRN".toList = "extrn".toList := by decide
  have hlong : lower "EXTERN".toList = "extern".toList := by decide
  simp only [isExtern, isOneOf, sameLetters, List.any_cons, List.any_nil, Bool.or_false, Bool.or_eq_true,
    beq_iff_eq, hshort, hlong, eq_comm (b := lower word)]

theorem declares_iff : rules.Declares word ↔ isExtern word = true ∧ rules.IsName word := by
  constructor
  · rintro ⟨hspelled, hsep, hmark⟩
    have hspell := isExtern_iff.2 hspelled
    refine ⟨hspell, ?_, hsep, ?_, hmark⟩
    · rintro rfl
      revert hspell
      decide
    · -- a quote is in neither of the two words
      intro hquote
      have hfalse : isExtern word = false := isOneOf_eq_false hquote (by decide)
      rw [hspell] at hfalse
      cases hfalse
  · rintro ⟨hspell, hname⟩
    exact ⟨isExtern_iff.1 hspell, hname.unseparated, hname.unmarked⟩

instance (rules : Conventions) (word : Text) : Decidable (rules.Declares word) :=
  decidable_of_iff _ declares_iff.symm

theorem isBlank_of_isName (h : rules.IsName name) : ∀ c ∈ name, isBlank c = false := by
  intro c hc
  have hsep := h.unseparated c hc
  simp only [isSeparator, Bool.or_eq_false_iff] at hsep
  exact hsep.1.1

/-- Blanks and a word are read off the front of a text in one way only. -/
theorem lead_unique {blanks' word' rest' : Text} {stop' : Char} (hb : ∀ c ∈ blanks, isBlank c = true)
    (hw : rules.IsName word) (hs : rules.isSeparator stop = true) (hb' : ∀ c ∈ blanks', isBlank c = true)
    (hw' : rules.IsName word') (hs' : rules.isSeparator stop' = true)
    (h : blanks ++ (word ++ stop :: rest) = blanks' ++ (word' ++ stop' :: rest')) :
    blanks = blanks' ∧ word = word' ∧ stop = stop' ∧ rest = rest' := by
  have hbody : blanks = blanks' ∧ word ++ stop :: rest = word' ++ stop' :: rest' := by
    obtain ⟨c, cs, rfl⟩ := List.exists_cons_of_ne_nil hw.nonempty
    obtain ⟨d, ds, rfl⟩ := List.exists_cons_of_ne_nil hw'.nonempty
    have hc := isBlank_of_isName hw c List.mem_cons_self
    have hd := isBlank_of_isName hw' d List.mem_cons_self
    obtain ⟨hblanks, rfl, hrest⟩ := append_stop_inj hb hb' hc hd h
    exact ⟨hblanks, congrArg (c :: ·) hrest⟩
  have hins : ∀ e ∈ word, (!rules.isSeparator e) = true := by simpa using hw.unseparated
  have hins' : ∀ e ∈ word', (!rules.isSeparator e) = true := by simpa using hw'.unseparated
  exact ⟨hbody.1, append_stop_inj (p := (!rules.isSeparator ·)) hins hins' (by simp [hs]) (by simp [hs'])
    hbody.2⟩

/-- The first word of a text that starts with blanks and a word. -/
theorem firstWord_of_lead (hb : ∀ c ∈ blanks, isBlank c = true) (hw : rules.IsName word)
    (hs : rules.isSeparator stop = true) :
    rules.firstWord (blanks ++ (word ++ stop :: rest)) =
      if stop == '"' || rules.isMarker stop then .nothing
      else if stop == ':' then .label blanks word rest
      else if isBlank stop then .word blanks word (stop :: rest)
      else .nothing := by
  obtain ⟨hne, hins⟩ := isName_iff.1 hw
  have hends : (!rules.endsWord stop) = false := by simp [endsWord, hs]
  have hins' : ∀ c ∈ word, (!rules.endsWord c) = true := by simpa using hins
  have htake : (word ++ stop :: rest).takeWhile (!rules.endsWord ·) = word := by
    rw [takeWhile_append_stop hends, List.takeWhile_eq_self_iff.2 hins']
  have hdrop : (word ++ stop :: rest).dropWhile (!rules.endsWord ·) = stop :: rest := by
    rw [dropWhile_append_stop hends, List.dropWhile_eq_nil_iff.2 hins', List.nil_append]
  have hblanks : (blanks ++ (word ++ stop :: rest)).takeWhile isBlank = blanks ∧
      (blanks ++ (word ++ stop :: rest)).dropWhile isBlank = word ++ stop :: rest := by
    obtain ⟨c, cs, rfl⟩ := List.exists_cons_of_ne_nil hne
    have hc := isBlank_of_isName hw c List.mem_cons_self
    rw [List.cons_append, takeWhile_append_stop hc, dropWhile_append_stop hc,
      List.takeWhile_eq_self_iff.2 hb, List.dropWhile_eq_nil_iff.2 hb]
    exact ⟨rfl, rfl⟩
  have hempty : word.isEmpty = false := by simpa using hne
  simp only [firstWord, hblanks.1, hblanks.2, htake, hdrop, hempty, Bool.false_or]

theorem isSeparator_colon : rules.isSeparator ':' = true := by
  simp [isSeparator, baseSeparators]

theorem isSeparator_of_isBlank (h : isBlank stop = true) : rules.isSeparator stop = true := by
  simp [isSeparator, h]

theorem firstWord_colon (hb : ∀ c ∈ blanks, isBlank c = true) (hw : rules.IsName name)
    (hm : rules.isMarker ':' = false) :
    rules.firstWord (blanks ++ (name ++ ':' :: after)) = .label blanks name after := by
  rw [firstWord_of_lead hb hw isSeparator_colon]
  simp [hm]

theorem firstWord_blank (hb : ∀ c ∈ blanks, isBlank c = true) (hw : rules.IsName word)
    (hs : isBlank stop = true) :
    rules.firstWord (blanks ++ (word ++ stop :: rest)) = .word blanks word (stop :: rest) := by
  have hmarker : rules.isMarker stop = false := by
    by_contra hm
    have hblank := isBlank_of_isMarker (Bool.not_eq_false _ ▸ hm)
    rw [hs] at hblank
    cases hblank
  have hquote : stop ≠ '"' := by
    rintro rfl
    revert hs
    decide
  have hcolon : stop ≠ ':' := by
    rintro rfl
    revert hs
    decide
  rw [firstWord_of_lead hb hw (isSeparator_of_isBlank hs)]
  simp [hmarker, hquote, hcolon, hs]

end Conventions

/-- The two ways to write a line with a label, in pieces. -/
inductive LabelForm
  | plain (blanks name after : Text)
  | declared (blanks word gap name after : Text)
  deriving DecidableEq, Repr

namespace LabelForm

def text : LabelForm → Text
  | plain blanks name after => blanks ++ name ++ ':' :: after
  | declared blanks word gap name after => blanks ++ word ++ gap ++ name ++ ':' :: after

def head : LabelForm → LabelHead
  | plain blanks name after => ⟨blanks, name, after⟩
  | declared blanks word gap name after => ⟨blanks ++ word ++ gap, name, after⟩

/-- What the pieces may hold; after the colon anything may stand. -/
def Valid (rules : Conventions) : LabelForm → Prop
  | plain blanks name _ => (∀ c ∈ blanks, isBlank c = true) ∧ rules.IsName name
  | declared blanks word gap name _ =>
    (∀ c ∈ blanks, isBlank c = true) ∧ rules.Declares word ∧ gap ≠ [] ∧ (∀ c ∈ gap, isBlank c = true) ∧
      rules.IsName name

instance (rules : Conventions) : (form : LabelForm) → Decidable (form.Valid rules)
  | plain blanks name _ => decidable_of_iff (blanks.all isBlank = true ∧ rules.IsName name) (by simp [Valid])
  | declared blanks word gap name _ =>
    decidable_of_iff (blanks.all isBlank = true ∧ rules.Declares word ∧ gap.isEmpty = false ∧
      gap.all isBlank = true ∧ rules.IsName name) (by simp [Valid])

variable {rules : Conventions} {line : Text} {a b form : LabelForm}

theorem plain_ne_declared {blanks name after blanks' word gap name' after' : Text}
    (ha : (plain blanks name after).Valid rules) (hb : (declared blanks' word gap name' after').Valid rules) :
    (plain blanks name after).text ≠ (declared blanks' word gap name' after').text := by
  obtain ⟨hblanks, hword, hne, hgap, _⟩ := hb
  obtain ⟨c, cs, rfl⟩ := List.exists_cons_of_ne_nil hne
  have hc : isBlank c = true := hgap c List.mem_cons_self
  intro h
  simp only [text, List.append_assoc, List.cons_append] at h
  obtain ⟨_, _, rfl, _⟩ := Conventions.lead_unique ha.1 ha.2 Conventions.isSeparator_colon hblanks
    (Conventions.declares_iff.1 hword).2 (Conventions.isSeparator_of_isBlank hc) h
  revert hc
  decide

/-- Two forms of one line are the same, piece by piece. -/
theorem eq_of_text_eq (ha : a.Valid rules) (hb : b.Valid rules) (h : a.text = b.text) : a = b := by
  cases a with
  | plain blanks name after =>
    cases b with
    | plain blanks' name' after' =>
      simp only [text, List.append_assoc] at h
      obtain ⟨rfl, rfl, _, rfl⟩ := Conventions.lead_unique ha.1 ha.2 Conventions.isSeparator_colon
        hb.1 hb.2 Conventions.isSeparator_colon h
      rfl
    | declared blanks' word gap name' after' => exact absurd h (plain_ne_declared ha hb)
  | declared blanks word gap name after =>
    cases b with
    | plain blanks' name' after' => exact absurd h.symm (plain_ne_declared hb ha)
    | declared blanks' word' gap' name' after' =>
      obtain ⟨hblanks, hword, hne, hgap, hname⟩ := ha
      obtain ⟨hblanks', hword', hne', hgap', hname'⟩ := hb
      obtain ⟨c, cs, rfl⟩ := List.exists_cons_of_ne_nil hne
      obtain ⟨d, ds, rfl⟩ := List.exists_cons_of_ne_nil hne'
      simp only [text, List.append_assoc, List.cons_append] at h
      obtain ⟨rfl, rfl, rfl, hrest⟩ := Conventions.lead_unique hblanks (Conventions.declares_iff.1 hword).2
        (Conventions.isSeparator_of_isBlank (hgap c List.mem_cons_self)) hblanks'
        (Conventions.declares_iff.1 hword').2
        (Conventions.isSeparator_of_isBlank (hgap' d List.mem_cons_self)) h
      obtain ⟨rfl, rfl, _, rfl⟩ := Conventions.lead_unique (fun e he => hgap e (.tail _ he)) hname
        Conventions.isSeparator_colon (fun e he => hgap' e (.tail _ he)) hname'
        Conventions.isSeparator_colon hrest
      rfl

/-- The pieces are what the search for the label finds. -/
theorem labelHead?_text (hv : form.Valid rules) (hm : rules.isMarker ':' = false) :
    rules.labelHead? form.text = some form.head := by
  cases form with
  | plain blanks name after =>
    rw [text, head, List.append_assoc, Conventions.labelHead?, Conventions.firstWord_colon hv.1 hv.2 hm]
  | declared blanks word gap name after =>
    obtain ⟨hblanks, hword, hne, hgap, hname⟩ := hv
    obtain ⟨hspell, hfirst⟩ := Conventions.declares_iff.1 hword
    have hlabel : rules.firstWord (gap ++ (name ++ ':' :: after)) = .label gap name after :=
      Conventions.firstWord_colon hgap hname hm
    obtain ⟨c, cs, rfl⟩ := List.exists_cons_of_ne_nil hne
    have hline : (declared blanks word (c :: cs) name after).text =
        blanks ++ (word ++ c :: (cs ++ (name ++ ':' :: after))) := by
      simp [text]
    rw [hline, Conventions.labelHead?, Conventions.firstWord_blank hblanks hfirst (hgap c List.mem_cons_self)]
    dsimp only
    rw [if_pos hspell, ← List.cons_append, hlabel]
    rfl

end LabelForm

namespace Conventions

variable {rules : Conventions} {line : Text} {head : LabelHead}

theorem exists_form_of_labelHead? (h : rules.labelHead? line = some head) :
    rules.isMarker ':' = false ∧ ∃ form : LabelForm, form.Valid rules ∧ form.text = line ∧ form.head = head := by
  have hfirst := firstWord_spec rules line
  unfold labelHead? at h
  cases hw : rules.firstWord line with
  | label blanks name after =>
    rw [hw] at h hfirst
    cases h
    obtain ⟨rfl, hblanks, hname, hm⟩ := hfirst
    exact ⟨hm, .plain blanks name after, ⟨hblanks, isName_iff.2 hname⟩, rfl, rfl⟩
  | word blanks word rest =>
    have hsecond := firstWord_spec rules rest
    simp only [hw] at h hfirst
    obtain ⟨rfl, hblanks, hword, c, more, rfl, hc⟩ := hfirst
    split_ifs at h with hspell
    cases hg : rules.firstWord (c :: more) with
    | label gap name after =>
      rw [hg] at h hsecond
      cases h
      obtain ⟨hrest, hgap, hname, hm⟩ := hsecond
      have hne : gap ≠ [] := by
        -- otherwise the name would start with the blank `c`
        rintro rfl
        obtain ⟨d, ds, rfl⟩ := List.exists_cons_of_ne_nil hname.1
        obtain ⟨rfl, _⟩ := List.cons.inj hrest
        have hblank := isBlank_of_isName (isName_iff.2 hname) c List.mem_cons_self
        rw [hc] at hblank
        cases hblank
      refine ⟨hm, .declared blanks word gap name after, ⟨hblanks, ?_, hne, hgap, isName_iff.2 hname⟩, ?_, rfl⟩
      · exact declares_iff.2 ⟨hspell, isName_iff.2 hword⟩
      · rw [hrest]
        simp [LabelForm.text]
    | word _ _ _ => simp [hg] at h
    | nothing => simp [hg] at h
  | nothing => simp [hw] at h

/-- A line has a label exactly if it has one of the two forms and the colon is no remark
marker. The span of the label is that of the name, and the line has no other form. -/
theorem labelSpan?_iff_form (rules : Conventions) (line : Text) :
    (∀ span, rules.labelSpan? line = some span ↔ rules.isMarker ':' = false ∧
      ∃ form : LabelForm, form.Valid rules ∧ form.text = line ∧ form.head.span = span) ∧
    ∀ a b : LabelForm, a.Valid rules → a.text = line → b.Valid rules → b.text = line → a = b := by
  constructor
  · intro span
    rw [labelSpan?, Option.map_eq_some_iff]
    constructor
    · rintro ⟨head, hhead, rfl⟩
      obtain ⟨hm, form, hvalid, htext, rfl⟩ := exists_form_of_labelHead? hhead
      exact ⟨hm, form, hvalid, htext, rfl⟩
    · rintro ⟨hm, form, hvalid, rfl, rfl⟩
      exact ⟨form.head, form.labelHead?_text hvalid hm, rfl⟩
  · rintro a b ha rfl hb htext
    exact LabelForm.eq_of_text_eq ha hb htext.symm

end Conventions
end AsmOutline
