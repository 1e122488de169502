import AsmOutline.Keyword

/-! # The built-in keyword table -/
namespace AsmOutline.KeywordTable

def builtinEntries : List Keyword := [
  ⟨"MOV".toList, .mnemonic, some .x86, none, "Move"⟩,
  ⟨"MOVZX".toList, .mnemonic, some .x86, none, "Move with zero-extend"⟩,
  ⟨"MOVSX".toList, .mnemonic, some .x86, none, "Move with sign-extension"⟩,
  ⟨"LEA".toList, .mnemonic, some .x86, none, "Load effective address"⟩,
  ⟨"ADD".toList, .mnemonic, some .x86, none, "Add"⟩,
  ⟨"ADC".toList, .mnemonic, some .x86, none, "Add with carry"⟩,
  ⟨"SUB".toList, .mnemonic, some .x86, none, "Subtract"⟩,
  ⟨"SBB".toList, .mnemonic, some .x86, none, "Integer subtraction with borrow"⟩,
  ⟨"MUL".toList, .mnemonic, some .x86, none, "Unsigned multiply"⟩,
  ⟨"IMUL".toList, .mnemonic, some .x86, none, "Signed multiply"⟩,
  ⟨"DIV".toList, .mnemonic, some .x86, none, "Unsigned divide"⟩,
  ⟨"IDIV".toList, .mnemonic, some .x86, none, "Signed divide"⟩,
  ⟨"INC".toList, .mnemonic, some .x86, none, "Increment by 1"⟩,
  ⟨"DEC".toList, .mnemonic, some .x86, none, "Decrement by 1"⟩,
  ⟨"NEG".toList, .mnemonic, some .x86, none, "Two's complement negation"⟩,
  ⟨"AND".toList, .mnemonic, some .x86, none, "Logical AND"⟩,
  ⟨"OR".toList, .mnemonic, some .x86, none, "Logical inclusive OR"⟩,
  ⟨"XOR".toList, .mnemonic, some .x86, none, "Logical exclusive OR"⟩,
  ⟨"NOT".toList, .mnemonic, some .x86, none, "One's complement negation"⟩,
  ⟨"SHL".toList, .mnemonic, some .x86, none, "Shift left"⟩,
  ⟨"SHR".toList, .mnemonic, some .x86, none, "Shift right"⟩,
  ⟨"SAR".toList, .mnemonic, some .x86, none, "Shift arithmetic right"⟩,
  ⟨"ROL".toList, .mnemonic, some .x86, none, "Rotate left"⟩,
  ⟨"ROR".toList, .mnemonic, some .x86, none, "Rotate right"⟩,
  ⟨"CMP".toList, .mnemonic, some .x86, none, "Compare two operands"⟩,
  ⟨"TEST".toList, .mnemonic, some .x86, none, "Logical compare"⟩,
  ⟨"PUSH".toList, .mnemonic, some .x86, none, "Push onto the stack"⟩,
  ⟨"POP".toList, .mnemonic, some .x86, none, "Pop from the stack"⟩,
  ⟨"RET".toList, .mnemonic, some .x86, none, "Return from procedure"⟩,
  ⟨"NOP".toList, .mnemonic, some .x86, none, "No operation"⟩,
  ⟨"INT".toList, .mnemonic, some .x86, none, "Call to interrupt procedure"⟩,
  ⟨"HLT".toList, .mnemonic, some .x86, none, "Halt"⟩,
  ⟨"CPUID".toList, .mnemonic, some .x86, none, "CPU identification"⟩,
  ⟨"XCHG".toList, .mnemonic, some .x86, none, "Exchange register/memory with register"⟩,
  ⟨"CMOVE".toList, .mnemonic, some .x86, none, "Conditional move if equal"⟩,
  ⟨"CMOVNE".toList, .mnemonic, some .x86, none, "Conditional move if not equal"⟩,
  ⟨"SETZ".toList, .mnemonic, some .x86, none, "Set byte if zero"⟩,
  ⟨"SETNZ".toList, .mnemonic, some .x86, none, "Set byte if not zero"⟩,
  ⟨"LEAVE".toList, .mnemonic, some .x86, none, "High level procedure exit"⟩,
  ⟨"ENTER".toList, .mnemonic, some .x86, none, "Make stack frame for procedure parameters"⟩,
  ⟨"REP".toList, .mnemonic, some .x86, none, "Repeat string operation prefix"⟩,
  ⟨"MOVSB".toList, .mnemonic, some .x86, none, "Move byte from string to string"⟩,
  ⟨"STOSB".toList, .mnemonic, some .x86, none, "Store byte string"⟩,
  ⟨"LODSB".toList, .mnemonic, some .x86, none, "Load byte string"⟩,
  ⟨"CLD".toList, .mnemonic, some .x86, none, "Clear direction flag"⟩,
  ⟨"STD".toList, .mnemonic, some .x86, none, "Set direction flag"⟩,
  ⟨"SYSCALL".toList, .mnemonic, some .x64, none, "Fast system call"⟩,
  ⟨"CDQE".toList, .mnemonic, some .x64, none, "Convert doubleword to quadword"⟩,
  ⟨"EMMS".toList, .mnemonic, some .mmx, none, "Empty MMX technology state"⟩,
  ⟨"PADDB".toList, .mnemonic, some .mmx, none, "Add packed byte integers"⟩,
  ⟨"MOVQ".toList, .mnemonic, some .mmx, none, "Move quadword"⟩,
  ⟨"MOVAPS".toList, .mnemonic, some .sse, none, "Move aligned packed single-precision values"⟩,
  ⟨"ADDPS".toList, .mnemonic, some .sse, none, "Add packed single-precision values"⟩,
  ⟨"MOVAPD".toList, .mnemonic, some .sse2, none, "Move aligned packed double-precision values"⟩,
  ⟨"PADDQ".toList, .mnemonic, some .sse2, none, "Add packed quadword integers"⟩,
  ⟨"PSHUFB".toList, .mnemonic, some .ssse3, none, "Packed shuffle bytes"⟩,
  ⟨"PMULLD".toList, .mnemonic, some .sse41, none, "Multiply packed signed dword integers"⟩,
  ⟨"CRC32".toList, .mnemonic, some .sse42, none, "Accumulate CRC32 value"⟩,
  ⟨"VADDPS".toList, .mnemonic, some .avx, none, "Add packed single-precision values"⟩,
  ⟨"VPADDD".toList, .mnemonic, some .avx2, none, "Add packed doubleword integers"⟩,
  ⟨"VPTERNLOGD".toList, .mnemonic, some .avx512, none, "Bitwise ternary logic"⟩,
  ⟨"JMP".toList, .jump, some .x86, none, "Jump"⟩,
  ⟨"CALL".toList, .jump, some .x86, none, "Call procedure"⟩,
  ⟨"JE".toList, .jump, some .x86, none, "Jump if equal"⟩,
  ⟨"JNE".toList, .jump, some .x86, none, "Jump if not equal"⟩,
  ⟨"JZ".toList, .jump, some .x86, none, "Jump if zero"⟩,
  ⟨"JNZ".toList, .jump, some .x86, none, "Jump if not zero"⟩,
  ⟨"JA".toList, .jump, some .x86, none, "Jump if above"⟩,
  ⟨"JAE".toList, .jump, some .x86, none, "Jump if above or equal"⟩,
  ⟨"JB".toList, .jump, some .x86, none, "Jump if below"⟩,
  ⟨"JBE".toList, .jump, some .x86, none, "Jump if below or equal"⟩,
  ⟨"JG".toList, .jump, some .x86, none, "Jump if greater"⟩,
  ⟨"JGE".toList, .jump, some .x86, none, "Jump if greater or equal"⟩,
  ⟨"JL".toList, .jump, some .x86, none, "Jump if less"⟩,
  ⟨"JLE".toList, .jump, some .x86, none, "Jump if less or equal"⟩,
  ⟨"JC".toList, .jump, some .x86, none, "Jump if carry"⟩,
  ⟨"JNC".toList, .jump, some .x86, none, "Jump if not carry"⟩,
  ⟨"JO".toList, .jump, some .x86, none, "Jump if overflow"⟩,
  ⟨"JNO".toList, .jump, some .x86, none, "Jump if not overflow"⟩,
  ⟨"JS".toList, .jump, some .x86, none, "Jump if sign"⟩,
  ⟨"JNS".toList, .jump, some .x86, none, "Jump if not sign"⟩,
  ⟨"JP".toList, .jump, some .x86, none, "Jump if parity"⟩,
  ⟨"JNP".toList, .jump, some .x86, none, "Jump if not parity"⟩,
  ⟨"JCXZ".toList, .jump, some .x86, none, "Jump if CX is zero"⟩,
  ⟨"JECXZ".toList, .jump, some .x86, none, "Jump if ECX is zero"⟩,
  ⟨"LOOP".toList, .jump, some .x86, none, "Loop according to ECX counter"⟩,
  ⟨"LOOPE".toList, .jump, some .x86, none, "Loop while equal"⟩,
  ⟨"LOOPNE".toList, .jump, some .x86, none, "Loop while not equal"⟩,
  ⟨"JRCXZ".toList, .jump, some .x64, none, "Jump if RCX is zero"⟩,
  ⟨"RAX".toList, .register, some .x64, none, "64-bit general purpose register"⟩,
  ⟨"RBX".toList, .register, some .x64, none, "64-bit general purpose register"⟩,
  ⟨"RCX".toList, .register, some .x64, none, "64-bit general purpose register"⟩,
  ⟨"RDX".toList, .register, some .x64, none, "64-bit general purpose register"⟩,
  ⟨"RSI".toList, .register, some .x64, none, "64-bit general purpose register"⟩,
  ⟨"RDI".toList, .register, some .x64, none, "64-bit general purpose register"⟩,
  ⟨"RBP".toList, .register, some .x64, none, "64-bit general purpose register"⟩,
  ⟨"RSP".toList, .register, some .x64, none, "64-bit general purpose register"⟩,
  ⟨"EAX".toList, .register, some .x86, none, "32-bit general purpose register"⟩,
  ⟨"EBX".toList, .register, some .x86, none, "32-bit general purpose register"⟩,
  ⟨"ECX".toList, .register, some .x86, none, "32-bit general purpose register"⟩,
  ⟨"EDX".toList, .register, some .x86, none, "32-bit general purpose register"⟩,
  ⟨"ESI".toList, .register, some .x86, none, "32-bit general purpose register"⟩,
  ⟨"EDI".toList, .register, some .x86, none, "32-bit general purpose register"⟩,
  ⟨"EBP".toList, .register, some .x86, none, "32-bit general purpose register"⟩,
  ⟨"ESP".toList, .register, some .x86, none, "32-bit general purpose register"⟩,
  ⟨"AX".toList, .register, some .x86, none, "16-bit general purpose register"⟩,
  ⟨"BX".toList, .register, some .x86, none, "16-bit general purpose register"⟩,
  ⟨"CX".toList, .register, some .x86, none, "16-bit general purpose register"⟩,
  ⟨"DX".toList, .register, some .x86, none, "16-bit general purpose register"⟩,
  ⟨"SI".toList, .register, some .x86, none, "16-bit general purpose register"⟩,
  ⟨"DI".toList, .register, some .x86, none, "16-bit general purpose register"⟩,
  ⟨"BP".toList, .register, some .x86, none, "16-bit general purpose register"⟩,
  ⟨"SP".toList, .register, some .x86, none, "16-bit general purpose register"⟩,
  ⟨"AL".toList, .register, some .x86, none, "8-bit general purpose register"⟩,
  ⟨"AH".toList, .register, some .x86, none, "8-bit general purpose register"⟩,
  ⟨"BL".toList, .register, some .x86, none, "8-bit general purpose register"⟩,
  ⟨"BH".toList, .register, some .x86, none, "8-bit general purpose register"⟩,
  ⟨"CL".toList, .register, some .x86, none, "8-bit general purpose register"⟩,
  ⟨"CH".toList, .register, some .x86, none, "8-bit general purpose register"⟩,
  ⟨"DL".toList, .register, some .x86, none, "8-bit general purpose register"⟩,
  ⟨"DH".toList, .register, some .x86, none, "8-bit general purpose register"⟩,
  ⟨"CS".toList, .register, some .x86, none, "Segment register"⟩,
  ⟨"DS".toList, .register, some .x86, none, "Segment register"⟩,
  ⟨"ES".toList, .register, some .x86, none, "Segment register"⟩,
  ⟨"FS".toList, .register, some .x86, none, "Segment register"⟩,
  ⟨"GS".toList, .register, some .x86, none, "Segment register"⟩,
  ⟨"SS".toList, .register, some .x86, none, "Segment register"⟩,
  ⟨"SEGMENT".toList, .directive, none, some .masm, "Defines a program segment"⟩,
  ⟨"ENDS".toList, .directive, none, some .masm, "Marks the end of a segment or structure"⟩,
  ⟨"PROC".toList, .directive, none, some .masm, "Marks the start of a procedure"⟩,
  ⟨"LABEL".toList, .directive, none, some .masm, "Defines a label with a type"⟩,
  ⟨"ENDP".toList, .directive, none, some .masm, "Marks the end of a procedure"⟩,
  ⟨"MACRO".toList, .directive, none, some .masm, "Marks a macro block"⟩,
  ⟨"ENDM".toList, .directive, none, some .masm, "Terminates a macro or repeat block"⟩,
  ⟨"STRUCT".toList, .directive, none, some .masm, "Declares a structure type"⟩,
  ⟨"IF".toList, .directive, none, some .masm, "Conditional assembly"⟩,
  ⟨"ENDIF".toList, .directive, none, some .masm, "Ends a conditional assembly block"⟩,
  ⟨"WHILE".toList, .directive, none, some .masm, "Repeats a block while the expression is true"⟩,
  ⟨".IF".toList, .directive, none, some .masm, "Generates conditional code"⟩,
  ⟨".ENDIF".toList, .directive, none, some .masm, "Ends a .if block"⟩,
  ⟨".WHILE".toList, .directive, none, some .masm, "Generates a conditional loop"⟩,
  ⟨".ENDW".toList, .directive, none, some .masm, "Ends a .while block"⟩,
  ⟨"EXTRN".toList, .directive, none, some .masm, "Declares an external symbol"⟩,
  ⟨"PUBLIC".toList, .directive, none, some .masm, "Makes a symbol visible to other modules"⟩,
  ⟨"ASSUME".toList, .directive, none, some .masm, "Binds segment registers to segments"⟩,
  ⟨"DB".toList, .directive, none, none, "Allocates bytes"⟩,
  ⟨"DW".toList, .directive, none, none, "Allocates words"⟩,
  ⟨"DD".toList, .directive, none, none, "Allocates doublewords"⟩,
  ⟨"DQ".toList, .directive, none, none, "Allocates quadwords"⟩,
  ⟨".DATA".toList, .directive, none, some .masm, "Starts the data segment"⟩,
  ⟨".CODE".toList, .directive, none, some .masm, "Starts the code segment"⟩,
  ⟨"END".toList, .directive, none, some .masm, "Marks the end of the module"⟩,
  ⟨"INCLUDE".toList, .directive, none, some .masm, "Inserts a source file"⟩,
  ⟨"EQU".toList, .directive, none, none, "Assigns a constant"⟩,
  ⟨"STRUC".toList, .directive, none, none, "Declares a structure type"⟩,
  ⟨"ISTRUC".toList, .directive, none, some .nasm, "Declares an instance of a structure"⟩,
  ⟨"IEND".toList, .directive, none, some .nasm, "Ends a structure instance"⟩,
  ⟨"ENDSTRUC".toList, .directive, none, some .nasm, "Ends a structure declaration"⟩,
  ⟨"%MACRO".toList, .directive, none, some .nasm, "Starts a multi-line macro"⟩,
  ⟨"%ENDMACRO".toList, .directive, none, some .nasm, "Ends a multi-line macro"⟩,
  ⟨"SECTION".toList, .directive, none, some .nasm, "Changes the current section"⟩,
  ⟨"GLOBAL".toList, .directive, none, some .nasm, "Exports a symbol"⟩,
  ⟨"EXTERN".toList, .directive, none, some .nasm, "Imports a symbol"⟩,
  ⟨"RESB".toList, .directive, none, some .nasm, "Reserves uninitialized bytes"⟩,
  ⟨"TIMES".toList, .directive, none, some .nasm, "Repeats an instruction or data"⟩,
  ⟨"BITS".toList, .directive, none, some .nasm, "Sets the target processor mode"⟩,
  ⟨"%DEFINE".toList, .directive, none, some .nasm, "Defines a single-line macro"⟩,
  ⟨"%INCLUDE".toList, .directive, none, some .nasm, "Inserts a source file"⟩,
  ⟨"BYTE".toList, .misc, none, none, "Byte-sized operand"⟩,
  ⟨"WORD".toList, .misc, none, none, "Word-sized operand"⟩,
  ⟨"DWORD".toList, .misc, none, none, "Doubleword-sized operand"⟩,
  ⟨"QWORD".toList, .misc, none, none, "Quadword-sized operand"⟩,
  ⟨"PTR".toList, .misc, none, none, "Pointer type override"⟩,
  ⟨"OFFSET".toList, .misc, none, none, "Offset of a symbol"⟩,
  ⟨"NEAR".toList, .misc, none, none, "Near distance"⟩,
  ⟨"FAR".toList, .misc, none, none, "Far distance"⟩]

def builtin : KeywordTable :=
  ofEntries builtinEntries

end AsmOutline.KeywordTable
