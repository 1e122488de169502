import AsmOutline.Document
import AsmOutline.Proofs.LabelEdits
import AsmOutline.Proofs.WorkerAnswers

/-! # Runs of a document

A document receives edits and resets, it is polled and flushed, and between any two of these
calls and between any two parts of one the threads of its workers take steps of their own.
Steps taken while a channel is being emptied count as taken before, by `Worker.drainAmid_eq`.
-/
namespace AsmOutline

namespace BackgroundStep

def ofLabels? : BackgroundStep → Option (Nat × Duration)
  | labels i elapsed => some (i, elapsed)
  | folding _ _ => none

def ofFolding? : BackgroundStep → Option (Nat × Duration)
  | labels _ _ => none
  | folding i elapsed => some (i, elapsed)

def elapsed : BackgroundStep → Duration
  | labels _ elapsed => elapsed
  | folding _ elapsed => elapsed

theorem quick_ofLabels {steps : List BackgroundStep} {limit : Duration}
    (hq : ∀ step ∈ steps, step.elapsed.exceeds limit = false) :
    ∀ p ∈ steps.filterMap ofLabels?, p.2.exceeds limit = false := by
  intro p hp
  obtain ⟨step, hs, he⟩ := List.mem_filterMap.1 hp
  cases step with
  | labels i elapsed =>
    cases he
    exact hq _ hs
  | folding i elapsed => cases he

theorem quick_ofFolding {steps : List BackgroundStep} {limit : Duration}
    (hq : ∀ step ∈ steps, step.elapsed.exceeds limit = false) :
    ∀ p ∈ steps.filterMap ofFolding?, p.2.exceeds limit = false := by
  intro p hp
  obtain ⟨step, hs, he⟩ := List.mem_filterMap.1 hp
  cases step with
  | labels i elapsed => cases he
  | folding i elapsed =>
    cases he
    exact hq _ hs

end BackgroundStep

def Gaps.Quick (gaps : Gaps) (limit : Duration) : Prop :=
  ∀ k, ∀ step ∈ gaps k, step.elapsed.exceeds limit = false

def Timing.Quick (timing : Timing) (limit : Duration) : Prop :=
  timing.labels.exceeds limit = false ∧ timing.folding.exceeds limit = false

namespace Document

/-- The threads of one worker do not meet those of the other. -/
theorem background_eq (doc : Document) (steps : List BackgroundStep) : doc.background steps =
    { doc with
      labelWorker := doc.labelWorker.advanceAll (steps.filterMap BackgroundStep.ofLabels?)
      foldWorker := doc.foldWorker.advanceAll (steps.filterMap BackgroundStep.ofFolding?) } := by
  induction steps generalizing doc with
  | nil => rfl
  | cons step steps ih =>
    have hstep : doc.background (step :: steps) = (doc.backgroundStep step).background steps := rfl
    rw [hstep, ih]
    cases step <;> rfl

inductive Move
  | edit (edit : Edit) (timing : Timing) (gaps : Gaps)
  | reset (timing : Timing) (gaps : Gaps)
  | poll (gaps : Gaps)
  | flush (timing : Timing) (gaps : Gaps)
  | background (step : BackgroundStep)

def move (doc : Document) : Move → Document
  | .edit edit timing gaps => doc.applyEdit edit timing gaps
  | .reset timing gaps => doc.reset timing gaps
  | .poll gaps => (doc.poll gaps).2
  | .flush timing gaps => doc.flush timing gaps
  | .background step => doc.background [step]

def run (doc : Document) (moves : List Move) : Document :=
  moves.foldl move doc

/-- What a document is asked to follow, apart from all timing. -/
inductive Request
  | edit (edit : Edit)
  | reset

def Move.request? : Move → Option Request
  | .edit change _ _ => some (.edit change)
  | .reset _ _ => some .reset
  | _ => none

def HonestRequests : Source → List Request → Prop
  | _, [] => True
  | source, .edit edit :: rest => edit.Honest source ∧ HonestRequests edit.source rest
  | source, .reset :: rest => HonestRequests source rest

/-- No clock shows more than the limit. -/
def Move.Quick (limit : Duration) : Move → Prop
  | .edit _ timing gaps => timing.Quick limit ∧ gaps.Quick limit
  | .reset timing gaps => timing.Quick limit ∧ gaps.Quick limit
  | .poll gaps => gaps.Quick limit
  | .flush timing gaps => timing.Quick limit ∧ gaps.Quick limit
  | .background step => step.elapsed.exceeds limit = false

/-- Along a run each worker only issues generations with higher numbers. -/
def Later (doc next : Document) : Prop :=
  doc.labelWorker.Later next.labelWorker ∧ doc.foldWorker.Later next.foldWorker

theorem Later.refl (doc : Document) : doc.Later doc :=
  ⟨.refl _, .refl _⟩

theorem Later.trans {doc next last : Document} (h : doc.Later next) (hn : next.Later last) :
    doc.Later last :=
  ⟨h.1.trans hn.1, h.2.trans hn.2⟩

/-- Generations count from one, so each worker has issued fewer than there are numbers. -/
def NumbersLeft (doc : Document) : Prop :=
  doc.labelWorker.latest < Worker.maxGeneration ∧ doc.foldWorker.latest < Worker.maxGeneration

instance (doc : Document) : Decidable doc.NumbersLeft :=
  inferInstanceAs (Decidable (_ ∧ _))

theorem Later.numbersLeft {doc next : Document} (h : doc.Later next) (hl : doc.labelWorker.Ordered)
    (hf : doc.foldWorker.Ordered) (hn : next.NumbersLeft) : doc.NumbersLeft :=
  ⟨Nat.lt_of_le_of_lt (h.1 hl).2 hn.1, Nat.lt_of_le_of_lt (h.2 hf).2 hn.2⟩

theorem later_background (doc : Document) (steps : List BackgroundStep) :
    doc.Later (doc.background steps) := by
  rw [background_eq]
  exact ⟨Worker.later_advanceAll _ _, Worker.later_advanceAll _ _⟩

theorem later_editLabels (doc : Document) (change : Edit) (timing : Timing) :
    doc.Later (doc.editLabels change timing) := by
  unfold editLabels
  split_ifs
  · exact ⟨Worker.later_submit _ _, .refl _⟩
  · exact .refl doc
  · exact .refl doc

theorem later_editFolding (doc : Document) (timing : Timing) : doc.Later (doc.editFolding timing) := by
  unfold editFolding
  split
  · exact .refl doc
  · split
    · exact ⟨.refl _, Worker.later_submit _ _⟩
    · exact ⟨.refl _, Worker.later_cancel _⟩

theorem later_pollLabels (doc : Document) : doc.Later doc.pollLabels.2 := by
  have hdrain := Worker.later_drain doc.labelWorker
  unfold pollLabels
  split
  · next hd =>
    rw [hd] at hdrain
    exact ⟨hdrain, .refl _⟩
  · next hd =>
    rw [hd] at hdrain
    exact ⟨hdrain, .refl _⟩

theorem later_pollFolding (doc : Document) : doc.Later doc.pollFolding.2 := by
  have hdrain := Worker.later_drain doc.foldWorker
  unfold pollFolding
  split
  · next hd =>
    rw [hd] at hdrain
    exact ⟨.refl _, hdrain⟩
  · next hd =>
    rw [hd] at hdrain
    exact ⟨.refl _, hdrain⟩

theorem later_flushLabels (doc : Document) (timing : Timing) : doc.Later (doc.flushLabels timing) := by
  unfold flushLabels
  split_ifs
  · exact ⟨Worker.later_cancel _, .refl _⟩
  · exact .refl doc

theorem later_flushFolding (doc : Document) (timing : Timing) : doc.Later (doc.flushFolding timing) := by
  unfold flushFolding
  split_ifs
  · exact ⟨.refl _, Worker.later_cancel _⟩
  · exact .refl doc

theorem later_poll (doc : Document) (gaps : Gaps) : doc.Later (doc.poll gaps).2 :=
  (later_pollLabels doc).trans ((later_background _ _).trans (later_pollFolding _))

theorem later_reset (doc : Document) (timing : Timing) (gaps : Gaps) :
    doc.Later (doc.reset timing gaps) := by
  have hlabels : doc.Later doc.cancelLabels := ⟨Worker.later_cancel _, .refl _⟩
  have hfolding (next : Document) : next.Later next.cancelFolding := ⟨.refl _, Worker.later_cancel _⟩
  have hresetLabels (next : Document) : next.Later (next.resetLabels timing) := ⟨.refl _, .refl _⟩
  have hresetFolding (next : Document) : next.Later (next.resetFolding timing) := ⟨.refl _, .refl _⟩
  have hcancelled := (hlabels.trans (later_background _ (gaps 0))).trans (hfolding _)
  have hlabelsReset := (hcancelled.trans (later_background _ (gaps 1))).trans (hresetLabels _)
  exact (hlabelsReset.trans (later_background _ (gaps 2))).trans (hresetFolding _)

theorem later_move (doc : Document) (m : Move) : doc.Later (doc.move m) := by
  cases m with
  | edit change timing gaps =>
    have hstart : doc.Later { doc with source := change.source } := ⟨.refl _, .refl _⟩
    have hlabels := hstart.trans (later_editLabels _ change timing)
    exact (hlabels.trans (later_background _ (gaps 0))).trans (later_editFolding _ timing)
  | reset timing gaps => exact later_reset doc timing gaps
  | poll gaps => exact later_poll doc gaps
  | flush timing gaps =>
    have hpoll := (later_poll doc gaps).trans (later_background _ (gaps 1))
    have hlabels := hpoll.trans (later_flushLabels _ timing)
    exact (hlabels.trans (later_background _ (gaps 2))).trans (later_flushFolding _ timing)
  | background step => exact later_background doc [step]

theorem later_run (doc : Document) (moves : List Move) : doc.Later (doc.run moves) := by
  induction moves generalizing doc with
  | nil => exact .refl doc
  | cons m moves ih => exact (later_move doc m).trans (ih _)

end Document
end AsmOutline
