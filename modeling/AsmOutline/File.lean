import AsmOutline.Text.Bytes

/-! # Files that may be unreadable -/
namespace AsmOutline

inductive FileError
  | missing
  | directory
  | notText
  | other (message : String)
  deriving DecidableEq, Repr

def FileError.message : FileError → String
  | missing => "No such file or directory (os error 2)"
  | directory => "Is a directory (os error 21)"
  | notText => "stream did not contain valid UTF-8"
  | other message => message

/-- What reading each path gives. -/
abbrev FileReader := String → Except FileError Text

end AsmOutline
