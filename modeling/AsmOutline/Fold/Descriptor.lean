import AsmOutline.Fold.Region
import AsmOutline.Worker

/-! # Described regions -/
namespace AsmOutline
open Text

structure RegionDescriptor where
  region : Region
  description : Text
  preview : Text
  collapsed : Bool
  deriving DecidableEq, Repr

namespace RegionDescriptor

def maxPreviewLines : Nat := 40

/-- What follows the opening on its line, or the whole line when nothing does. -/
def describe (region : Region) (line : Text) : Text :=
  let rest := trim ((dropBytes? line region.previewOffset).getD [])
  if rest.isEmpty then trim line else rest

/-- The lines after the first, as far as the region, the source and the limit allow. -/
def previewLines (region : Region) (source : Source) : List Text :=
  ((source.lines.take (region.endLine + 1)).drop (region.startLine + 1)).take maxPreviewLines

def ofRegion (source : Source) (collapsed : Bool) (region : Region) : RegionDescriptor :=
  { region := region
    description := describe region (source.line region.startLine)
    preview := ['\n'].intercalate (previewLines region source)
    collapsed := collapsed }

end RegionDescriptor

structure RegionSet where
  regions : List Region := []
  descriptors : List RegionDescriptor := []
  deriving DecidableEq, Repr

namespace RegionSet

def ofSource (rules : FoldRules) (t : Tokenizer) (source : Source) : RegionSet :=
  let regions := Region.ofSource rules t source
  ⟨regions, regions.map (.ofRegion source rules.collapsed)⟩

def job (rules : FoldRules) (t : Tokenizer) (source : Source) : Job RegionSet :=
  .overLines source.lineCount (ofSource rules t source)

end RegionSet
end AsmOutline
