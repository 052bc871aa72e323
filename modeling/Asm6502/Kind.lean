/-!
# Kinds of syntax elements

Every token and every node of a syntax tree carries one of these kinds.  Token
kinds are declared first and end with `eof`; node kinds follow.  The last kind
is reserved: no element of a tree carries it and no name leads to it.
-/

namespace Asm6502

/-- The closed set of token and node kinds, in declaration order. -/
inductive Kind where
  | whitespace | comment | lineContinuation | eol | hash | comma | colon
  | colon2 | colonEq | eq | leftParen | rightParen | leftBrace | rightBrace
  | leftBracket | rightBracket | plus | minus | star | slash | amp | amp2
  | pipe | pipe2 | caret | tilde | bang | lt | gt | ltEq | gtEq | ltGt | shl
  | shr | ident | localIdent | mnemonic | register | directiveKw | pseudoFnKw
  | pseudoVarKw | dotOpKw | dotIdent | number | char | string | unnamedRef
  | errorToken | eof | sourceFile | line | label | instruction | operand
  | directive | field | symbolAssignment | macroCall | macroArg
  | macroDefinition | conditional | scopeBlock | repeatBlock | structBlock
  | enumBlock | binaryExpr | unaryExpr | parenExpr | callExpr | numberLiteral
  | charLiteral | stringLiteral | identifier | member | localLabelRef
  | unnamedLabelRef | pseudoVar | errorNode | tombstone
deriving DecidableEq, Repr, Inhabited

namespace Kind

/-- Every kind, in declaration order. -/
def all : List Kind := [
  .whitespace, .comment, .lineContinuation, .eol, .hash, .comma, .colon,
  .colon2, .colonEq, .eq, .leftParen, .rightParen, .leftBrace, .rightBrace,
  .leftBracket, .rightBracket, .plus, .minus, .star, .slash, .amp, .amp2,
  .pipe, .pipe2, .caret, .tilde, .bang, .lt, .gt, .ltEq, .gtEq, .ltGt, .shl,
  .shr, .ident, .localIdent, .mnemonic, .register, .directiveKw, .pseudoFnKw,
  .pseudoVarKw, .dotOpKw, .dotIdent, .number, .char, .string, .unnamedRef,
  .errorToken, .eof, .sourceFile, .line, .label, .instruction, .operand,
  .directive, .field, .symbolAssignment, .macroCall, .macroArg,
  .macroDefinition, .conditional, .scopeBlock, .repeatBlock, .structBlock,
  .enumBlock, .binaryExpr, .unaryExpr, .parenExpr, .callExpr, .numberLiteral,
  .charLiteral, .stringLiteral, .identifier, .member, .localLabelRef,
  .unnamedLabelRef, .pseudoVar, .errorNode, .tombstone]

/-- The lowercase name that query patterns use. -/
def name : Kind → String
  | .whitespace => "whitespace"
  | .comment => "comment"
  | .lineContinuation => "line_continuation"
  | .eol => "eol"
  | .hash => "hash"
  | .comma => "comma"
  | .colon => "colon"
  | .colon2 => "colon2"
  | .colonEq => "colon_eq"
  | .eq => "eq"
  | .leftParen => "left_paren"
  | .rightParen => "right_paren"
  | .leftBrace => "left_brace"
  | .rightBrace => "right_brace"
  | .leftBracket => "left_bracket"
  | .rightBracket => "right_bracket"
  | .plus => "plus"
  | .minus => "minus"
  | .star => "star"
  | .slash => "slash"
  | .amp => "amp"
  | .amp2 => "amp2"
  | .pipe => "pipe"
  | .pipe2 => "pipe2"
  | .caret => "caret"
  | .tilde => "tilde"
  | .bang => "bang"
  | .lt => "lt"
  | .gt => "gt"
  | .ltEq => "lt_eq"
  | .gtEq => "gt_eq"
  | .ltGt => "lt_gt"
  | .shl => "shl"
  | .shr => "shr"
  | .ident => "ident"
  | .localIdent => "local_ident"
  | .mnemonic => "mnemonic"
  | .register => "register"
  | .directiveKw => "directive_kw"
  | .pseudoFnKw => "pseudo_fn_kw"
  | .pseudoVarKw => "pseudo_var_kw"
  | .dotOpKw => "dot_op_kw"
  | .dotIdent => "dot_ident"
  | .number => "number"
  | .char => "char"
  | .string => "string"
  | .unnamedRef => "unnamed_ref"
  | .errorToken => "error_token"
  | .eof => "eof"
  | .sourceFile => "source_file"
  | .line => "line"
  | .label => "label"
  | .instruction => "instruction"
  | .operand => "operand"
  | .directive => "directive"
  | .field => "field"
  | .symbolAssignment => "symbol_assignment"
  | .macroCall => "macro_call"
  | .macroArg => "macro_arg"
  | .macroDefinition => "macro_definition"
  | .conditional => "conditional"
  | .scopeBlock => "scope_block"
  | .repeatBlock => "repeat_block"
  | .structBlock => "struct_block"
  | .enumBlock => "enum_block"
  | .binaryExpr => "binary_expr"
  | .unaryExpr => "unary_expr"
  | .parenExpr => "paren_expr"
  | .callExpr => "call_expr"
  | .numberLiteral => "number_literal"
  | .charLiteral => "char_literal"
  | .stringLiteral => "string_literal"
  | .identifier => "identifier"
  | .member => "member"
  | .localLabelRef => "local_label_ref"
  | .unnamedLabelRef => "unnamed_label_ref"
  | .pseudoVar => "pseudo_var"
  | .errorNode => "error"
  | .tombstone => "tombstone"

/-- The declared spelling: the name in capitals. -/
def spelling (kind : Kind) : String :=
  String.ofList (kind.name.toList.map Char.toUpper)

def rank (kind : Kind) : Nat :=
  kind.ctorIdx

/-- Look a kind up by its lowercase name; the reserved kind has none. -/
def ofName? (name : String) : Option Kind :=
  all.find? fun kind => kind.name == name && kind != .tombstone

def ofSpelling? (spelling : String) : Option Kind :=
  all.find? fun kind => kind.spelling == spelling

def isToken (kind : Kind) : Bool :=
  kind.rank ≤ rank .eof

def isNode (kind : Kind) : Bool :=
  !kind.isToken && kind != .tombstone

/-- Layout that the grammar never looks at. -/
def isTrivia : Kind → Bool
  | .whitespace | .comment | .lineContinuation => true
  | _ => false

/-- Kinds that a wildcard in parentheses matches.  Punctuation, operators and
layout tokens are anonymous. -/
def isNamed (kind : Kind) : Bool :=
  kind.isNode ||
    match kind with
    | .comment | .ident | .localIdent | .mnemonic | .register | .directiveKw
    | .pseudoFnKw | .pseudoVarKw | .dotOpKw | .dotIdent | .number | .char
    | .string | .unnamedRef | .errorToken => true
    | _ => false

def isBlock : Kind → Bool
  | .macroDefinition | .conditional | .scopeBlock | .repeatBlock
  | .structBlock | .enumBlock => true
  | _ => false

/-- Nodes that own the trivia before their first token.  Every other node
starts at its first significant token, and the trivia before it belong to the
enclosing node. -/
def absorbsTrivia (kind : Kind) : Bool :=
  kind == .sourceFile || kind == .line || kind.isBlock

def isError : Kind → Bool
  | .errorNode | .errorToken => true
  | _ => false

def endsLine : Kind → Bool
  | .eol | .eof => true
  | _ => false

end Kind
end Asm6502
