import AsmOutline.Text.Blank
import AsmOutline.Text.Letters

/-! # Assembler dialects and instruction sets

A dialect decides which directives open and close a block.
-/
namespace AsmOutline
open Text

inductive Dialect
  | masm
  | nasm
  deriving DecidableEq, Repr, Inhabited

namespace Dialect

def name : Dialect → String
  | masm => "masm"
  | nasm => "nasm"

def ofName? (text : Text) : Option Dialect :=
  [masm, nasm].find? fun dialect => dialect.name.toList == lower (trim text)

def openWords : Dialect → List String
  | masm => ["SEGMENT", "MACRO", "STRUCT", "STRUC", "IF", "WHILE", "PROC", ".IF", ".WHILE"]
  | nasm => ["STRUC", "ISTRUC", "%MACRO"]

def closeWords : Dialect → List String
  | masm => ["ENDS", "ENDP", "ENDM", ".ENDIF", ".ENDW", "ENDIF"]
  | nasm => ["ENDSTRUC", "IEND", "%ENDMACRO"]

def opens (dialect : Dialect) (word : Text) : Bool :=
  isOneOf dialect.openWords word

def closes (dialect : Dialect) (word : Text) : Bool :=
  isOneOf dialect.closeWords word

end Dialect

inductive InstructionSet
  | x86
  | x64
  | i686
  | mmx
  | sse
  | sse2
  | sse3
  | ssse3
  | sse41
  | sse42
  | avx
  | avx2
  | avx512
  deriving DecidableEq, Repr

namespace InstructionSet

def name : InstructionSet → String
  | x86 => "x86"
  | x64 => "x64"
  | i686 => "i686"
  | mmx => "mmx"
  | sse => "sse"
  | sse2 => "sse2"
  | sse3 => "sse3"
  | ssse3 => "ssse3"
  | sse41 => "sse41"
  | sse42 => "sse42"
  | avx => "avx"
  | avx2 => "avx2"
  | avx512 => "avx512"

/-- Every accepted spelling, in upper case. -/
def spellings : List (String × InstructionSet) := [
  ("X86", x86), ("8086", x86), ("386", x86),
  ("X64", x64), ("X86_64", x64), ("AMD64", x64),
  ("I686", i686), ("P6", i686),
  ("MMX", mmx),
  ("SSE", sse), ("SSE2", sse2), ("SSE3", sse3), ("SSSE3", ssse3),
  ("SSE41", sse41), ("SSE4.1", sse41), ("SSE42", sse42), ("SSE4.2", sse42),
  ("AVX", avx), ("AVX2", avx2), ("AVX512", avx512), ("AVX512F", avx512)]

def ofName? (text : Text) : Option InstructionSet :=
  (spellings.find? fun spelling => spelling.1.toList == upper (trim text)).map (·.2)

end InstructionSet
end AsmOutline
