import AsmOutline.Json
import AsmOutline.Number.Duration

/-! # Notices and speed limits

A notice tells once that an analysis is limited or switched off.
-/
namespace AsmOutline

inductive Notice.Kind
  | dataUnavailable
  | foldingDisabled
  | performanceExceeded
  deriving DecidableEq, Repr

def Notice.Kind.name : Notice.Kind → String
  | dataUnavailable => "data-unavailable"
  | foldingDisabled => "folding-disabled"
  | performanceExceeded => "performance-exceeded"

inductive Notice.Component
  | keywords
  | labels
  | folding
  deriving DecidableEq, Repr

def Notice.Component.name : Notice.Component → String
  | keywords => "keywords"
  | labels => "labels"
  | folding => "folding"

structure Notice where
  kind : Notice.Kind
  component : Notice.Component
  message : String
  deriving DecidableEq, Repr

namespace Notice

def keywordsUnavailable (reason : String) : Notice :=
  ⟨.dataUnavailable, .keywords, s!"keyword data unavailable, highlighting is limited: {reason}"⟩

def labelsTooSlow (elapsed : Duration) : Notice :=
  ⟨.performanceExceeded, .labels,
    s!"label analysis took {elapsed.tenthsText}s and was switched off for this document"⟩

def foldingTooSlow (elapsed : Duration) : Notice :=
  ⟨.performanceExceeded, .folding,
    s!"folding took {elapsed.tenthsText}s and was switched off for this document"⟩

def foldingTooLarge (lines limit : Nat) : Notice :=
  ⟨.foldingDisabled, .folding, s!"folding disabled: {lines} lines exceeds the limit of {limit}"⟩

def toJson (notice : Notice) : Json :=
  .ofFields [("kind", .str notice.kind.name), ("component", .str notice.component.name),
    ("message", .str notice.message)]

end Notice

/-- How long one computation may take before it is switched off, or only remarked on. -/
structure SpeedLimits where
  threshold : Duration := .ofParts 10 0
  warning : Duration := .ofMillis 200
  deriving DecidableEq, Repr

end AsmOutline
