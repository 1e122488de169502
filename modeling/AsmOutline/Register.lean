import AsmOutline.Text.Letters

/-! # Register names

`Register.names` lists every spelling in upper case. `Register.isName` decides the same
set, in any letter case, by its characters one after the other.
-/
namespace AsmOutline.Register
open Text

def names : List String := [
  "RAX", "EAX", "AX", "AL", "AH",
  "RBX", "EBX", "BX", "BL", "BH",
  "RCX", "ECX", "CX", "CL", "CH",
  "RDX", "EDX", "DX", "DL", "DH",
  "RSI", "ESI", "SI", "SIL",
  "RDI", "EDI", "DI", "DIL",
  "RBP", "EBP", "BP", "BPL",
  "RSP", "ESP", "SP", "SPL",
  "R8", "R8D", "R8W", "R8B",
  "R9", "R9D", "R9W", "R9B",
  "R10", "R10D", "R10W", "R10B",
  "R11", "R11D", "R11W", "R11B",
  "R12", "R12D", "R12W", "R12B",
  "R13", "R13D", "R13W", "R13B",
  "R14", "R14D", "R14W", "R14B",
  "R15", "R15D", "R15W", "R15B",
  "MM0", "MM1", "MM2", "MM3", "MM4", "MM5", "MM6", "MM7",
  "XMM0", "XMM1", "XMM2", "XMM3", "XMM4", "XMM5", "XMM6", "XMM7",
  "XMM8", "XMM9", "XMM10", "XMM11", "XMM12", "XMM13", "XMM14", "XMM15",
  "YMM0", "YMM1", "YMM2", "YMM3", "YMM4", "YMM5", "YMM6", "YMM7",
  "YMM8", "YMM9", "YMM10", "YMM11", "YMM12", "YMM13", "YMM14", "YMM15",
  "ZMM0", "ZMM1", "ZMM2", "ZMM3", "ZMM4", "ZMM5", "ZMM6", "ZMM7",
  "ZMM8", "ZMM9", "ZMM10", "ZMM11", "ZMM12", "ZMM13", "ZMM14", "ZMM15",
  "ZMM16", "ZMM17", "ZMM18", "ZMM19", "ZMM20", "ZMM21", "ZMM22", "ZMM23",
  "ZMM24", "ZMM25", "ZMM26", "ZMM27", "ZMM28", "ZMM29", "ZMM30", "ZMM31"]

def within (low high c : Char) : Bool :=
  low ≤ c && c ≤ high

def among (choices : String) (c : Char) : Bool :=
  choices.toList.contains c

/-- The wide general registers share their last two letters. -/
def isPair (c d : Char) : Bool :=
  match c with
  | 'A' | 'C' => d == 'X'
  | 'B' => among "XP" d
  | 'D' => among "XI" d
  | 'S' => among "IP" d
  | _ => false

def isUpperName : Text → Bool
  | [c, d] =>
    match c with
    | 'A' | 'C' => among "XHL" d
    | 'B' => among "XHLP" d
    | 'D' => among "XHLI" d
    | 'S' => among "IP" d
    | 'R' => among "89" d
    | _ => false
  | [c, d, e] =>
    match c with
    | 'R' =>
      match d with
      | '8' | '9' => among "DWB" e
      | '1' => within '0' '5' e
      | _ => isPair d e
    | 'E' => isPair d e
    | 'B' => d == 'P' && e == 'L'
    | 'S' => among "PI" d && e == 'L'
    | 'D' => d == 'I' && e == 'L'
    | 'M' => d == 'M' && within '0' '7' e
    | _ => false
  | [c, d, e, f] =>
    match c with
    | 'R' => d == '1' && within '0' '5' e && among "DWB" f
    | 'X' | 'Y' | 'Z' => d == 'M' && e == 'M' && within '0' '9' f
    | _ => false
  | [c, d, e, f, g] =>
    match c with
    | 'X' | 'Y' => d == 'M' && e == 'M' && f == '1' && within '0' '5' g
    | 'Z' =>
      d == 'M' && e == 'M' &&
        match f with
        | '1' | '2' => within '0' '9' g
        | '3' => among "01" g
        | _ => false
    | _ => false
  | _ => false

def isName (token : Text) : Bool :=
  isUpperName (upper token)

end AsmOutline.Register
