import Asm6502.Dialect.Keyword

/-!
# The stock vocabulary

The keywords of the assembler with the 6502 instruction set, all in lower case.
Lookups compare lowercase spellings, and an alias stands for the command it
abbreviates.
-/

namespace Asm6502
namespace Vocabulary

def mnemonics : List String := [
    "adc", "and", "asl", "bcc", "bcs", "beq", "bit", "bmi", "bne", "bpl",
    "brk", "bvc", "bvs", "clc", "cld", "cli", "clv", "cmp", "cpx", "cpy",
    "dec", "dex", "dey", "eor", "inc", "inx", "iny", "jmp", "jsr", "lda",
    "ldx", "ldy", "lsr", "nop", "ora", "pha", "php", "pla", "plp", "rol",
    "ror", "rti", "rts", "sbc", "sec", "sed", "sei", "sta", "stx", "sty",
    "tax", "tay", "tsx", "txa", "txs", "tya"]

def registers : List String := ["a", "x", "y"]

def pseudoFunctions : List String := [
    ".addrsize", ".bank", ".bankbyte", ".blank", ".cap", ".capability",
    ".concat", ".const", ".def", ".defined", ".definedmacro", ".hibyte",
    ".hiword", ".ident", ".ismnem", ".ismnemonic", ".left", ".lobyte",
    ".loword", ".match", ".max", ".mid", ".min", ".ref", ".referenced",
    ".right", ".sizeof", ".sprintf", ".start", ".string", ".strlen",
    ".tcount", ".xmatch"]

def pseudoVariables : List String := [
    ".asize", ".cpu", ".isize", ".paramcount", ".time", ".version"]

def dotOperators : List String := [
    ".mod", ".bitand", ".bitxor", ".shl", ".shr", ".bitor", ".and", ".or",
    ".xor", ".not", ".bitnot"]

def directives : List Directive := [
  ⟨".a16", .none, .plain⟩,
  ⟨".a8", .none, .plain⟩,
  ⟨".addr", .expressions, .plain⟩,
  ⟨".align", .expressions, .plain⟩,
  ⟨".asciiz", .expressions, .plain⟩,
  ⟨".assert", .expressions, .plain⟩,
  ⟨".autoimport", .toggle, .plain⟩,
  ⟨".bankbytes", .expressions, .plain⟩,
  ⟨".bss", .none, .plain⟩,
  ⟨".byte", .expressions, .plain⟩,
  ⟨".case", .toggle, .plain⟩,
  ⟨".charmap", .expressions, .plain⟩,
  ⟨".code", .none, .plain⟩,
  ⟨".condes", .expressions, .plain⟩,
  ⟨".constructor", .expressions, .plain⟩,
  ⟨".data", .none, .plain⟩,
  ⟨".dbg", .expressions, .plain⟩,
  ⟨".dbyt", .expressions, .plain⟩,
  ⟨".debuginfo", .toggle, .plain⟩,
  ⟨".define", .define, .plain⟩,
  ⟨".delmacro", .expressions, .plain⟩,
  ⟨".destructor", .expressions, .plain⟩,
  ⟨".dword", .expressions, .plain⟩,
  ⟨".else", .none, .branch⟩,
  ⟨".elseif", .expressions, .branch⟩,
  ⟨".end", .none, .plain⟩,
  ⟨".endenum", .none, .closes .enumeration⟩,
  ⟨".endif", .none, .closes .conditional⟩,
  ⟨".endmacro", .none, .closes .macroBody⟩,
  ⟨".endproc", .none, .closes .procedure⟩,
  ⟨".endrepeat", .none, .closes .repetition⟩,
  ⟨".endscope", .none, .closes .scope⟩,
  ⟨".endstruct", .none, .closes .record⟩,
  ⟨".endunion", .none, .closes .union⟩,
  ⟨".enum", .expressions, .opens .enumeration⟩,
  ⟨".error", .expressions, .plain⟩,
  ⟨".exitmacro", .none, .plain⟩,
  ⟨".export", .expressions, .plain⟩,
  ⟨".exportzp", .expressions, .plain⟩,
  ⟨".faraddr", .expressions, .plain⟩,
  ⟨".fatal", .expressions, .plain⟩,
  ⟨".feature", .words, .plain⟩,
  ⟨".fileopt", .expressions, .plain⟩,
  ⟨".forceimport", .expressions, .plain⟩,
  ⟨".global", .expressions, .plain⟩,
  ⟨".globalzp", .expressions, .plain⟩,
  ⟨".hibytes", .expressions, .plain⟩,
  ⟨".i16", .none, .plain⟩,
  ⟨".i8", .none, .plain⟩,
  ⟨".if", .expressions, .opens .conditional⟩,
  ⟨".ifblank", .expressions, .opens .conditional⟩,
  ⟨".ifconst", .expressions, .opens .conditional⟩,
  ⟨".ifdef", .expressions, .opens .conditional⟩,
  ⟨".ifnblank", .expressions, .opens .conditional⟩,
  ⟨".ifndef", .expressions, .opens .conditional⟩,
  ⟨".ifnref", .expressions, .opens .conditional⟩,
  ⟨".ifp02", .none, .opens .conditional⟩,
  ⟨".ifp4510", .none, .opens .conditional⟩,
  ⟨".ifp816", .none, .opens .conditional⟩,
  ⟨".ifpc02", .none, .opens .conditional⟩,
  ⟨".ifpdtv", .none, .opens .conditional⟩,
  ⟨".ifpsc02", .none, .opens .conditional⟩,
  ⟨".ifref", .expressions, .opens .conditional⟩,
  ⟨".import", .expressions, .plain⟩,
  ⟨".importzp", .expressions, .plain⟩,
  ⟨".incbin", .expressions, .plain⟩,
  ⟨".include", .expressions, .plain⟩,
  ⟨".interruptor", .expressions, .plain⟩,
  ⟨".list", .toggle, .plain⟩,
  ⟨".listbytes", .expressions, .plain⟩,
  ⟨".literal", .expressions, .plain⟩,
  ⟨".lobytes", .expressions, .plain⟩,
  ⟨".local", .expressions, .plain⟩,
  ⟨".localchar", .expressions, .plain⟩,
  ⟨".macpack", .words, .plain⟩,
  ⟨".macro", .macroHeader, .opens .macroBody⟩,
  ⟨".org", .expressions, .plain⟩,
  ⟨".out", .expressions, .plain⟩,
  ⟨".p02", .none, .plain⟩,
  ⟨".p4510", .none, .plain⟩,
  ⟨".p816", .none, .plain⟩,
  ⟨".pagelen", .expressions, .plain⟩,
  ⟨".pagelength", .expressions, .plain⟩,
  ⟨".pc02", .none, .plain⟩,
  ⟨".pdtv", .none, .plain⟩,
  ⟨".popcharmap", .none, .plain⟩,
  ⟨".popcpu", .none, .plain⟩,
  ⟨".popseg", .none, .plain⟩,
  ⟨".proc", .expressions, .opens .procedure⟩,
  ⟨".psc02", .none, .plain⟩,
  ⟨".pushcharmap", .none, .plain⟩,
  ⟨".pushcpu", .none, .plain⟩,
  ⟨".pushseg", .none, .plain⟩,
  ⟨".referto", .expressions, .plain⟩,
  ⟨".reloc", .none, .plain⟩,
  ⟨".repeat", .expressions, .opens .repetition⟩,
  ⟨".res", .expressions, .plain⟩,
  ⟨".rodata", .none, .plain⟩,
  ⟨".scope", .expressions, .opens .scope⟩,
  ⟨".segment", .expressions, .plain⟩,
  ⟨".set", .assignment, .plain⟩,
  ⟨".setcpu", .expressions, .plain⟩,
  ⟨".smart", .toggle, .plain⟩,
  ⟨".struct", .expressions, .opens .record⟩,
  ⟨".tag", .expressions, .plain⟩,
  ⟨".undefine", .expressions, .plain⟩,
  ⟨".union", .expressions, .opens .union⟩,
  ⟨".warning", .expressions, .plain⟩,
  ⟨".word", .expressions, .plain⟩,
  ⟨".zeropage", .none, .plain⟩]

/-- Short spellings and the commands they stand for. -/
def aliases : List (String × String) := [
  (".byt", ".byte"),
  (".delmac", ".delmacro"),
  (".endmac", ".endmacro"),
  (".exitmac", ".exitmacro"),
  (".fopt", ".fileopt"),
  (".mac", ".macro"),
  (".refto", ".referto"),
  (".undef", ".undefine")]

private def entries (keyword : Keyword) (names : List String) :
    List (Bytes × Keyword) :=
  names.map fun name => (Bytes.ascii name, keyword)

/-- Every command under its own name and under its aliases. -/
def commands : List (String × Directive) :=
  directives.map (fun command => (command.name, command)) ++
    aliases.filterMap fun (short, full) =>
      (directives.find? fun command => command.name == full).map (short, ·)

/-- Every keyword with its meaning. -/
def table : List (Bytes × Keyword) :=
  entries .mnemonic mnemonics ++ entries .register registers ++
    entries .pseudoFunction pseudoFunctions ++
    entries .pseudoVariable pseudoVariables ++
    entries .dotOperator dotOperators ++
    commands.map fun (name, command) => (Bytes.ascii name, .directive command)

end Vocabulary
end Asm6502
