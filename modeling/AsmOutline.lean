import AsmOutline.Conventions.Cursor
import AsmOutline.Main
import AsmOutline.Proofs.LabelMirror
import AsmOutline.Proofs.LabelScope
import AsmOutline.Proofs.LabelEdits
import AsmOutline.Proofs.DocumentSides
import AsmOutline.Proofs.DocumentModes
import AsmOutline.Proofs.LabelKeys
import AsmOutline.Proofs.SortOrder
import AsmOutline.Proofs.LabelDiagnostics
import AsmOutline.Proofs.RegionNesting
import AsmOutline.Proofs.RegionMatching
import AsmOutline.Proofs.TokenShape
import AsmOutline.Proofs.RemarkBlindness
import AsmOutline.Proofs.WorkerHistory
import AsmOutline.Proofs.RemarkLines
import AsmOutline.Proofs.LineCase
import AsmOutline.Proofs.LabelConsistency
import AsmOutline.Proofs.TrackerBreakers
import AsmOutline.Proofs.RegionGrowth
import AsmOutline.Proofs.JumpTargets
import AsmOutline.Proofs.LabelGrammar
import AsmOutline.Proofs.DeclarationFolds
import AsmOutline.Proofs.TextBytes
import AsmOutline.Proofs.NumeralForms
import AsmOutline.Proofs.RegisterNames
import AsmOutline.Proofs.LineOrder
import AsmOutline.Proofs.RoleOffsets
import AsmOutline.Proofs.RegionPlaces
import AsmOutline.Proofs.CursorWords
import AsmOutline.Proofs.PrecedingWord
import AsmOutline.Proofs.SkippedText
import AsmOutline.Proofs.TokenCover
import AsmOutline.Proofs.AnonymousNames
import AsmOutline.Proofs.LineEndings
import AsmOutline.Proofs.RegionDelta
import AsmOutline.Proofs.ReadValues
import AsmOutline.Proofs.SettingsKeys
import AsmOutline.Proofs.SettingsFiles
import AsmOutline.Proofs.ByteOrder
import AsmOutline.Proofs.KeywordEntries
import AsmOutline.Proofs.KeywordLookup
