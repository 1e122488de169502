import AsmOutline.Proofs.DocumentMoves
import AsmOutline.Proofs.DocumentSides

/-! # Background mode agrees with immediate mode

What the analyses of a document come to depends on its edits and resets only: as soon as
nothing is pending, a document in background mode shows what one in immediate mode shows.
-/
namespace AsmOutline.Document

theorem editLabels_cases (doc : Document) (change : Edit) (timing : Timing)
    (he : doc.labels.enabled = true) :
    (doc.settings.labelsEnabled = false ∧ doc.editLabels change timing = doc) ∨
      (doc.settings.labelsEnabled = true ∧ doc.mode = .background ∧
        doc.editLabels change timing = doc.submitLabels) ∨
      (doc.settings.labelsEnabled = true ∧ (doc.mode = .background → doc.labelWorker.pending = none) ∧
        doc.editLabels change timing = { doc with labels := doc.labels.onEdit change timing.labels }) := by
  unfold editLabels
  rw [he, Bool.and_true]
  cases hon : doc.settings.labelsEnabled with
  | false => exact .inl ⟨rfl, rfl⟩
  | true =>
    by_cases hc : doc.mode = .background ∧ (change.growth ≠ 0 ∨ doc.labelWorker.isPending = true)
    · exact .inr (.inl ⟨rfl, hc.1, by simp [hc]⟩)
    · refine .inr (.inr ⟨rfl, ?_, by simp [hc]⟩)
      intro hm
      have hnot : ¬doc.labelWorker.isPending = true := fun hp => hc ⟨hm, .inr hp⟩
      simpa [Worker.isPending] using hnot

theorem editFolding_cases (doc : Document) (timing : Timing) :
    (doc.mode = .immediate ∧
        doc.editFolding timing = { doc with folding := doc.folding.recompute doc.source timing.folding }) ∨
      (doc.mode = .background ∧ (doc.folding.checkSize doc.source).1 = true ∧
        doc.editFolding timing =
          { doc with
            foldWorker :=
              doc.foldWorker.submit (RegionSet.job doc.folding.rules doc.folding.tokenizer doc.source) }) ∨
      (doc.mode = .background ∧ (doc.folding.checkSize doc.source).1 = false ∧
        doc.editFolding timing =
          { doc with
            folding := (doc.folding.checkSize doc.source).2
            foldWorker := doc.foldWorker.cancel }) := by
  unfold editFolding
  cases hm : doc.mode with
  | immediate => exact .inl ⟨rfl, rfl⟩
  | background =>
    rcases FoldTracker.checkSize_cases doc.folding doc.source with ⟨_, _, hc⟩ | ⟨_, hc⟩ | ⟨_, _, hc⟩
    · exact .inr (.inl ⟨rfl, by rw [hc], by simp [hc]⟩)
    · exact .inr (.inr ⟨rfl, by rw [hc], by simp [hc]⟩)
    · exact .inr (.inr ⟨rfl, by rw [hc], by simp [hc]⟩)

/-- What the edits and resets so far decide for the folds: the source they belong to, and
the tracker without its regions. -/
structure Standing where
  source : Source
  folding : FoldTracker

/-- What a source decides for the folds of a document when it is opened. -/
def Standing.initial (table : KeywordTable) (settings : Settings) (source : Source) : Standing :=
  let tracker : FoldTracker :=
    { tokenizer := ⟨table, settings.conventions⟩
      rules := settings.foldRules
      limits := settings.speedLimits
      status := .initial settings.folding.enabled }
  ⟨source, (tracker.checkSize source).2.bare⟩

def Standing.after (on : Bool) (standing : Standing) : Request → Standing
  | .edit change => ⟨change.source, (standing.folding.checkSize change.source).2.bare⟩
  | .reset => ⟨standing.source, ((standing.folding.cleared on).checkSize standing.source).2.bare⟩

/-- The document shows the source, its labels and its folds, as the requests decide them. -/
structure Standing.ShownBy (standing : Standing) (t : Tokenizer) (settings : Settings) (doc : Document) :
    Prop where
  source_eq : doc.source = standing.source
  labels_eq : doc.labels =
    .holding t settings.speedLimits (.wanted t settings.labelsEnabled standing.source)
  folding_eq : doc.folding.bare = standing.folding
  published_eq : doc.folding.published =
    if standing.folding.isEnabled then standing.folding.regionSet standing.source else {}

/-- The document is in step with the requests it received. Within an edit the labels are
already those of the new source while the folds are still those of the old one. -/
structure InStep (t : Tokenizer) (settings : Settings) (notices : List Notice) (mode : DocumentMode)
    (source : Source) (standing : Standing) (doc : Document) : Prop where
  settings_eq : doc.settings = settings
  notices_eq : doc.notices = notices
  mode_eq : doc.mode = mode
  source_eq : doc.source = source
  labels : LabelSide t settings.speedLimits settings.labelsEnabled source doc.labels doc.labelWorker
  folding : FoldSide standing.source doc.folding doc.foldWorker
  bare_eq : doc.folding.bare = standing.folding
  limits_eq : doc.folding.limits = settings.speedLimits
  idle : mode = .immediate → doc.labelWorker.pending = none ∧ doc.foldWorker.pending = none

namespace InStep

variable {t : Tokenizer} {settings : Settings} {notices : List Notice} {mode : DocumentMode}
  {source : Source} {standing : Standing} {doc : Document} {timing : Timing}

theorem background {steps : List BackgroundStep} (h : InStep t settings notices mode source standing doc)
    (hq : ∀ step ∈ steps, step.elapsed.exceeds settings.speedLimits.threshold = false) :
    InStep t settings notices mode source standing (doc.background steps) := by
  have hfolding := BackgroundStep.quick_ofFolding hq
  rw [← h.limits_eq] at hfolding
  rw [background_eq]
  exact { h with
    labels := h.labels.advanceAll (BackgroundStep.quick_ofLabels hq)
    folding := h.folding.advanceAll hfolding
    idle := fun hm => by simpa using h.idle hm }

theorem editLabels {change : Edit} (h : InStep t settings notices mode standing.source standing doc)
    (hh : change.Honest standing.source) (hq : timing.Quick settings.speedLimits.threshold)
    (hl : mode = .background →
      (Document.editLabels { doc with source := change.source } change timing).labelWorker.latest <
        Worker.maxGeneration) :
    InStep t settings notices mode change.source standing
      (Document.editLabels { doc with source := change.source } change timing) := by
  obtain rfl := h.settings_eq
  obtain rfl := h.mode_eq
  have hside := h.labels
  rcases editLabels_cases { doc with source := change.source } change timing hside.enabled with
    ⟨hon, he⟩ | ⟨hon, hm, he⟩ | ⟨hon, hp, he⟩
  · have hon' : doc.settings.labelsEnabled = false := hon
    rw [he]
    rw [hon'] at hside
    exact { h with source_eq := rfl, labels := hon' ▸ hside.ignore }
  · have hon' : doc.settings.labelsEnabled = true := hon
    have hlatest := hl hm
    have htok : doc.labels.tokenizer = t := hside.tokenizer_eq
    rw [he] at hlatest ⊢
    simp only [submitLabels, tokenizer, htok] at hlatest ⊢
    rw [hon'] at hside
    exact { h with
      source_eq := rfl
      labels := hon' ▸ hside.submit hlatest
      idle := fun hi => by cases hm.symm.trans hi }
  · have hon' : doc.settings.labelsEnabled = true := hon
    have hidle : doc.labelWorker.pending = none := by
      cases hm : doc.mode with
      | immediate => exact (h.idle hm).1
      | background => exact hp hm
    rw [he]
    rw [hon'] at hside
    exact { h with source_eq := rfl, labels := hon' ▸ hside.editInPlace hidle hh hq.1 }

theorem editFolding (h : InStep t settings notices mode source standing doc)
    (hq : timing.Quick settings.speedLimits.threshold)
    (hl : mode = .background → (doc.editFolding timing).foldWorker.latest < Worker.maxGeneration) :
    InStep t settings notices mode source ⟨source, (standing.folding.checkSize source).2.bare⟩
      (doc.editFolding timing) := by
  obtain rfl := h.settings_eq
  obtain rfl := h.mode_eq
  obtain rfl := h.source_eq
  have hquick : timing.folding.exceeds doc.folding.limits.threshold = false := by
    rw [h.limits_eq]
    exact hq.2
  have hbare : (doc.folding.checkSize doc.source).2.bare =
      (standing.folding.checkSize doc.source).2.bare := by
    rw [FoldTracker.checkSize_bare, h.bare_eq]
  rcases editFolding_cases doc timing with ⟨hm, he⟩ | ⟨hm, hc, he⟩ | ⟨hm, hc, he⟩
  · have hidle := (h.idle hm).2
    rw [he]
    exact { h with
      folding := .recompute h.folding.serves hidle (fun hn => (h.folding.off hn).1) hquick
      bare_eq := (FoldTracker.recompute_bare hquick).trans hbare
      limits_eq := (FoldTracker.recompute_limits hquick).trans h.limits_eq }
  · have hsame : (doc.folding.checkSize doc.source).2 = doc.folding := by
      rcases FoldTracker.checkSize_cases doc.folding doc.source with ⟨_, _, hn⟩ | ⟨_, hn⟩ | ⟨_, _, hn⟩
      · rw [hn]
      · rw [hn]
      · rw [hn] at hc
        cases hc
    have hlatest := hl hm
    rw [hsame] at hbare
    rw [he] at hlatest ⊢
    exact { h with
      folding := h.folding.submit hc hlatest
      bare_eq := hbare
      idle := fun hi => by cases hm.symm.trans hi }
  · rw [he]
    exact { h with
      folding := h.folding.refuse hc
      bare_eq := hbare
      limits_eq := (FoldTracker.checkSize_limits _ _).trans h.limits_eq
      idle := fun hi => by cases hm.symm.trans hi }

theorem pollLabels (h : InStep t settings notices mode source standing doc) :
    InStep t settings notices mode source standing doc.pollLabels.2 := by
  unfold Document.pollLabels
  split
  · next d w hd =>
    have hside := h.labels.receive hd
    obtain ⟨_, _, hp, _⟩ := h.labels.serves.drain_some hd
    exact { h with labels := hside, idle := fun hm => ⟨hp, (h.idle hm).2⟩ }
  · next w hd =>
    have hside := h.labels.receiveNothing hd
    obtain ⟨hp, _⟩ := h.labels.serves.drain_none hd
    exact { h with labels := hside, idle := fun hm => ⟨hp.trans (h.idle hm).1, (h.idle hm).2⟩ }

theorem pollFolding (h : InStep t settings notices mode source standing doc) :
    InStep t settings notices mode source standing doc.pollFolding.2 := by
  unfold Document.pollFolding
  split
  · next d w hd =>
    obtain ⟨hside, hbare⟩ := h.folding.receive hd
    obtain ⟨_, hq, hp, _⟩ := h.folding.serves.drain_some hd
    exact { h with
      folding := hside
      bare_eq := hbare.trans h.bare_eq
      limits_eq := (FoldTracker.install_limits _ _ _).trans h.limits_eq
      idle := fun hm => ⟨(h.idle hm).1, hp⟩ }
  · next w hd =>
    have hside := h.folding.receiveNothing hd
    obtain ⟨hp, _⟩ := h.folding.serves.drain_none hd
    exact { h with folding := hside, idle := fun hm => ⟨(h.idle hm).1, hp.trans (h.idle hm).2⟩ }

theorem flushLabels (h : InStep t settings notices mode source standing doc)
    (hq : timing.Quick settings.speedLimits.threshold) :
    InStep t settings notices mode source standing (doc.flushLabels timing) := by
  unfold Document.flushLabels
  split_ifs with hp
  · obtain rfl := h.source_eq
    exact { h with labels := h.labels.flush hp hq.1, idle := fun hm => ⟨rfl, (h.idle hm).2⟩ }
  · exact h

theorem flushFolding (h : InStep t settings notices mode standing.source standing doc)
    (hq : timing.Quick settings.speedLimits.threshold) :
    InStep t settings notices mode standing.source standing (doc.flushFolding timing) := by
  have hquick : timing.folding.exceeds doc.folding.limits.threshold = false := by
    rw [h.limits_eq]
    exact hq.2
  unfold Document.flushFolding
  split_ifs with hp
  · obtain ⟨hside, hbare⟩ := h.folding.flush hp hquick
    rw [h.source_eq]
    exact { h with
      source_eq := rfl
      folding := hside
      bare_eq := hbare.trans h.bare_eq
      limits_eq := (FoldTracker.recompute_limits hquick).trans h.limits_eq
      idle := fun hm => ⟨(h.idle hm).1, rfl⟩ }
  · exact h

theorem reset {gaps : Gaps} (h : InStep t settings notices mode standing.source standing doc)
    (hq : timing.Quick settings.speedLimits.threshold) (hg : gaps.Quick settings.speedLimits.threshold) :
    InStep t settings notices mode standing.source (standing.after settings.folding.enabled .reset)
      (doc.reset timing gaps) := by
  obtain rfl := h.settings_eq
  have hquick : timing.folding.exceeds doc.folding.limits.threshold = false := by
    rw [h.limits_eq]
    exact hq.2
  have hfolding (k : Nat) := BackgroundStep.quick_ofFolding (hg k)
  rw [← h.limits_eq] at hfolding
  have hreset : (doc.folding.reset standing.source doc.settings.folding.enabled timing.folding).limits =
      doc.folding.limits := FoldTracker.reset_limits _ hquick
  have hlabelSide := h.labels.reset hq.1
  have hfoldSide : FoldSide standing.source
      (doc.folding.reset standing.source doc.settings.folding.enabled timing.folding)
      (doc.foldWorker.advanceAll ((gaps 0).filterMap BackgroundStep.ofFolding?)).cancel :=
    (h.folding.advanceAll (hfolding 0)).reset hquick
  rw [← hreset] at hfolding
  simp only [Document.reset, background_eq, cancelLabels, cancelFolding, resetLabels, resetFolding, h.source_eq]
  exact { h with
    source_eq := rfl
    labels := ((hlabelSide.advanceAll (BackgroundStep.quick_ofLabels (hg 0))).advanceAll
      (BackgroundStep.quick_ofLabels (hg 1))).advanceAll (BackgroundStep.quick_ofLabels (hg 2))
    folding := (hfoldSide.advanceAll (hfolding 1)).advanceAll (hfolding 2)
    bare_eq := (FoldTracker.reset_bare _ hquick).trans (by rw [Standing.after, ← h.bare_eq]; rfl)
    limits_eq := hreset.trans h.limits_eq
    idle := fun _ => by simp [Worker.cancel] }

theorem edit {change : Edit} {gaps : Gaps} (h : InStep t settings notices mode standing.source standing doc)
    (hh : change.Honest standing.source) (hq : timing.Quick settings.speedLimits.threshold)
    (hg : gaps.Quick settings.speedLimits.threshold)
    (hl : mode = .background → (doc.applyEdit change timing gaps).NumbersLeft) :
    InStep t settings notices mode change.source (standing.after settings.folding.enabled (.edit change))
      (doc.applyEdit change timing gaps) := by
  let labelled := Document.editLabels { doc with source := change.source } change timing
  have hmiddle : { doc with source := change.source }.Later labelled := later_editLabels _ _ _
  have hrest : labelled.Later (doc.applyEdit change timing gaps) :=
    (later_background _ (gaps 0)).trans (later_editFolding _ timing)
  have hlabels : InStep t settings notices mode change.source standing labelled := by
    apply h.editLabels hh hq
    intro hm
    have hordered := (hmiddle.1 h.labels.serves.toOrdered).1
    exact Nat.lt_of_le_of_lt (hrest.1 hordered).2 (hl hm).1
  exact (hlabels.background (hg 0)).editFolding hq fun hm => (hl hm).2

theorem poll {gaps : Gaps} (h : InStep t settings notices mode source standing doc)
    (hg : gaps.Quick settings.speedLimits.threshold) :
    InStep t settings notices mode source standing (doc.poll gaps).2 :=
  (h.pollLabels.background (hg 0)).pollFolding

theorem flush {gaps : Gaps} (h : InStep t settings notices mode standing.source standing doc)
    (hq : timing.Quick settings.speedLimits.threshold) (hg : gaps.Quick settings.speedLimits.threshold) :
    InStep t settings notices mode standing.source standing (doc.flush timing gaps) := by
  have hlabels := ((h.poll hg).background (hg 1)).flushLabels hq
  exact (hlabels.background (hg 2)).flushFolding hq

/-- What a run comes to depends on its requests alone. -/
theorem run {moves : List Move} (h : InStep t settings notices mode standing.source standing doc)
    (hh : HonestRequests standing.source (moves.filterMap Move.request?))
    (hq : ∀ m ∈ moves, m.Quick settings.speedLimits.threshold)
    (hl : mode = .background → (doc.run moves).NumbersLeft) :
    let last := (moves.filterMap Move.request?).foldl (Standing.after settings.folding.enabled) standing
    InStep t settings notices mode last.source last (doc.run moves) := by
  induction moves generalizing doc standing with
  | nil => exact h
  | cons m moves ih =>
    have hquick := hq m List.mem_cons_self
    have hlater := later_move doc m
    -- a number that is free at the end was free at every step before
    have hleft : mode = .background → (doc.move m).NumbersLeft := by
      intro hm
      have hlabels := (hlater.1 h.labels.serves.toOrdered).1
      have hfolding := (hlater.2 h.folding.serves.toOrdered).1
      exact (later_run (doc.move m) moves).numbersLeft hlabels hfolding (hl hm)
    have hrest : ∀ m ∈ moves, m.Quick settings.speedLimits.threshold := by
      intro later hm
      exact hq later (List.mem_cons_of_mem _ hm)
    cases m with
    | edit change timing gaps => exact ih (h.edit hh.1 hquick.1 hquick.2 hleft) hh.2 hrest hl
    | reset timing gaps => exact ih (h.reset hquick.1 hquick.2) hh hrest hl
    | poll gaps => exact ih (h.poll hquick) hh hrest hl
    | flush timing gaps => exact ih (h.flush hquick.1 hquick.2) hh hrest hl
    | background step =>
      have hstep : ∀ later ∈ [step], later.elapsed.exceeds settings.speedLimits.threshold = false := by
        intro later hm
        rw [List.mem_singleton.1 hm]
        exact hquick
      exact ih (h.background hstep) hh hrest hl

/-- A document that waits for nothing shows what its requests decide. -/
theorem shownBy (h : InStep t settings notices mode standing.source standing doc)
    (hp : doc.labelWorker.pending = none ∧ doc.foldWorker.pending = none) :
    standing.ShownBy t settings doc where
  source_eq := h.source_eq
  labels_eq := by rw [h.labels.holds, h.labels.settled hp.1]
  folding_eq := h.bare_eq
  published_eq := by rw [h.folding.published_eq hp.2, h.bare_eq]

end InStep

theorem isSettled_iff (doc : Document) :
    doc.isSettled = true ↔ doc.labelWorker.pending = none ∧ doc.foldWorker.pending = none := by
  simp [isSettled, Worker.isPending]

/-- Nothing is left pending by a flush, whatever the threads do meanwhile. -/
theorem isSettled_flush (doc : Document) (timing : Timing) (gaps : Gaps) :
    (doc.flush timing gaps).isSettled = true := by
  have hlabels (next : Document) : (next.flushLabels timing).labelWorker.pending = none := by
    unfold flushLabels
    split_ifs with hp
    · rfl
    · simpa [Worker.isPending] using hp
  have hfolding (next : Document) : (next.flushFolding timing).foldWorker.pending = none ∧
      (next.flushFolding timing).labelWorker = next.labelWorker := by
    unfold flushFolding
    split_ifs with hp
    · exact ⟨rfl, rfl⟩
    · exact ⟨by simpa [Worker.isPending] using hp, rfl⟩
  rw [isSettled_iff, flush]
  refine ⟨?_, (hfolding _).1⟩
  rw [(hfolding _).2, background_eq]
  simpa using hlabels _

theorem inStep_openWith (table : KeywordTable) (settings : Settings) (source : Source) (mode : DocumentMode)
    {timing : Timing} (hq : timing.Quick settings.speedLimits.threshold) :
    InStep ⟨table, settings.conventions⟩ settings (table.failure.map Notice.keywordsUnavailable).toList mode
      (Standing.initial table settings source).source (.initial table settings source)
      (openWith table settings source mode timing) where
  settings_eq := rfl
  notices_eq := rfl
  mode_eq := rfl
  source_eq := rfl
  labels := .opened settings.debounce settings.labelsEnabled source hq.1
  folding := .recompute (Worker.serves_new _ _ {}) rfl (fun _ => rfl) hq.2
  bare_eq := FoldTracker.recompute_bare hq.2
  limits_eq := FoldTracker.recompute_limits hq.2
  idle _ := ⟨rfl, rfl⟩

/-- Whatever the threads do and whenever they do it, a settled document in background mode
shows what a document in immediate mode shows after the same edits and resets. That is what these
decide, and every flush leaves the document settled. -/
theorem background_agrees_with_immediate (table : KeywordTable) (settings : Settings) (source : Source)
    (opening opening' : Timing) (moves moves' : List Move)
    (same : moves.filterMap Move.request? = moves'.filterMap Move.request?)
    (honest : HonestRequests source (moves.filterMap Move.request?))
    (quick : opening.Quick settings.speedLimits.threshold ∧
      ∀ m ∈ moves, m.Quick settings.speedLimits.threshold)
    (quick' : opening'.Quick settings.speedLimits.threshold ∧
      ∀ m ∈ moves', m.Quick settings.speedLimits.threshold)
    (left : ((openWith table settings source .background opening).run moves).NumbersLeft) :
    let doc := (openWith table settings source .background opening).run moves
    let twin := (openWith table settings source .immediate opening').run moves'
    let last := (moves.filterMap Move.request?).foldl (Standing.after settings.folding.enabled)
      (.initial table settings source)
    (doc.isSettled = true →
        doc.labels.index = twin.labels.index ∧ doc.folding.published = twin.folding.published ∧
          doc.labels.enabled = twin.labels.enabled ∧ doc.folding.status = twin.folding.status ∧
          doc.takeNotices.1 = twin.takeNotices.1) ∧
      twin.isSettled = true ∧ last.ShownBy ⟨table, settings.conventions⟩ settings twin ∧
      ∀ timing gaps, (doc.flush timing gaps).isSettled = true := by
  intro doc twin last
  have hdoc := (inStep_openWith table settings source .background quick.1).run honest quick.2 fun _ => left
  have htwin := (inStep_openWith table settings source .immediate quick'.1).run (same ▸ honest) quick'.2 nofun
  rw [← same] at htwin
  have hidle := htwin.idle rfl
  have htwinShown : last.ShownBy ⟨table, settings.conventions⟩ settings twin := htwin.shownBy hidle
  refine ⟨?_, (isSettled_iff twin).2 hidle, htwinShown, isSettled_flush doc⟩
  intro hsettled
  have hshown : last.ShownBy ⟨table, settings.conventions⟩ settings doc :=
    hdoc.shownBy ((isSettled_iff doc).1 hsettled)
  have hlabels : doc.labels = twin.labels := hshown.labels_eq.trans htwinShown.labels_eq.symm
  have hbare : doc.folding.bare = twin.folding.bare := hshown.folding_eq.trans htwinShown.folding_eq.symm
  have hstatus : doc.folding.bare.status = twin.folding.bare.status := by rw [hbare]
  have hraised : doc.folding.bare.notices = twin.folding.bare.notices := by rw [hbare]
  have hpublished : doc.folding.published = twin.folding.published :=
    hshown.published_eq.trans htwinShown.published_eq.symm
  refine ⟨by rw [hlabels], hpublished, by rw [hlabels], hstatus, ?_⟩
  simp only [takeNotices, LabelTracker.takeNotices, FoldTracker.takeNotices]
  rw [hdoc.notices_eq, htwin.notices_eq, hlabels]
  exact congrArg _ hraised

def tenSeconds : Settings :=
  { slowThreshold := ⟨0x4024000000000000⟩, slowWarning := ⟨0x3FC999999999999A⟩ }

def strayLocal : Source :=
  ⟨["a:".toList, "jmp .x".toList]⟩

/-- A rebuild is superseded while it runs, and the one that replaced it is waited for. -/
def supersededRebuild : List Move :=
  let grown : Source := ⟨["a:".toList, ".x:".toList, "jmp .x".toList]⟩
  let renamed : Source := ⟨["b:".toList, ".x:".toList, "jmp .x".toList]⟩
  [.edit ⟨⟨1, 2⟩, 1, grown⟩ {} .empty, .background (.labels 0 ⟨1⟩),
    .edit ⟨⟨0, 1⟩, 0, renamed⟩ {} fun _ => [.labels 0 ⟨1⟩]] ++
    List.replicate 5 (.background (.labels 0 ⟨1⟩)) ++ List.replicate 5 (.background (.folding 1 ⟨1⟩)) ++
    [.poll .empty]

theorem background_agrees_after_supersededRebuild :
    ((openWith .empty tenSeconds strayLocal .background {}).run supersededRebuild).isSettled = true ∧
      ((openWith .empty tenSeconds strayLocal .background {}).run supersededRebuild).labels.index =
        ((openWith .empty tenSeconds strayLocal .immediate {}).run
          (supersededRebuild.filter fun m => m.request?.isSome)).labels.index := by
  have hone : Duration.exceeds ⟨1⟩ tenSeconds.speedLimits.threshold = false := by decide
  have hquick : ∀ m ∈ supersededRebuild, m.Quick tenSeconds.speedLimits.threshold := by
    simp [supersededRebuild, Move.Quick, Gaps.Quick, Gaps.empty, Timing.Quick, BackgroundStep.elapsed, hone]
  have hhonest : HonestRequests strayLocal (supersededRebuild.filterMap Move.request?) := by
    refine ⟨fun hg => absurd hg (by decide), ?_, trivial⟩
    intro _ _ n hn
    cases n with
    | zero => exact absurd ⟨Nat.le_refl 0, Nat.zero_lt_one⟩ hn
    | succ n => rfl
  have hsettled :
      ((openWith .empty tenSeconds strayLocal .background {}).run supersededRebuild).isSettled = true := by
    decide +kernel
  have hagree := background_agrees_with_immediate .empty tenSeconds strayLocal {} {} supersededRebuild
    (supersededRebuild.filter fun m => m.request?.isSome) rfl hhonest ⟨⟨hone, hone⟩, hquick⟩
    ⟨⟨hone, hone⟩, fun m hm => hquick m (List.mem_filter.1 hm).1⟩ (by decide +kernel)
  exact ⟨hsettled, (hagree.1 hsettled).1⟩

end AsmOutline.Document
