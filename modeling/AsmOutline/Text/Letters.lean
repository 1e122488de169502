import AsmOutline.Text.Bytes

/-! # ASCII letter case

Only the letters A to Z have a case here; every other character is left alone.
-/
namespace AsmOutline.Text

def upper (s : Text) : Text :=
  s.map Char.toUpper

def lower (s : Text) : Text :=
  s.map Char.toLower

def sameLetters (s t : Text) : Bool :=
  lower s == lower t

/-- Whether a word is one of `words` up to letter case. -/
def isOneOf (words : List String) (s : Text) : Bool :=
  words.any fun word => sameLetters word.toList s

end AsmOutline.Text
