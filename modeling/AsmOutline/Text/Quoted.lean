import AsmOutline.Text.Shown

/-! # Quoted text

A text between double quotes. Quotes, backslashes and common control characters have an
escape of their own; a character that cannot be shown is written as its code point.
-/
namespace AsmOutline.Text

def codePoint (c : Char) : Text :=
  "\\u\x7b".toList ++ Nat.toDigits 16 c.toNat ++ ['\x7d']

def quoteChar (c : Char) : Text :=
  match c with
  | '"' => ['\\', '"']
  | '\\' => ['\\', '\\']
  | '\t' => ['\\', 't']
  | '\r' => ['\\', 'r']
  | '\n' => ['\\', 'n']
  | '\x00' => ['\\', '0']
  | _ => if isShown c then [c] else codePoint c

def quoted (s : Text) : Text :=
  '"' :: s.flatMap quoteChar ++ ['"']

end AsmOutline.Text
