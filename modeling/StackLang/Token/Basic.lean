import StackLang.Text.Position

/-! The tokens of the language: their kinds, the words that are not
identifiers, and the jumps with the comparisons they make. -/
namespace StackLang

open Text (Span)

inductive Jump where
  | jmp | je | jg | jge | jgz | jgez | jl | jle | jlz | jlez | jne | jnz | jz
  deriving DecidableEq, Repr, Inhabited

namespace Jump

def all : List Jump :=
  [.jmp, .je, .jg, .jge, .jgz, .jgez, .jl, .jle, .jlz, .jlez, .jne, .jnz, .jz]

def mnemonic : Jump → String
  | .jmp => "jmp"
  | .je => "je"
  | .jg => "jg"
  | .jge => "jge"
  | .jgz => "jgz"
  | .jgez => "jgez"
  | .jl => "jl"
  | .jle => "jle"
  | .jlz => "jlz"
  | .jlez => "jlez"
  | .jne => "jne"
  | .jnz => "jnz"
  | .jz => "jz"

def operands : Jump → Nat
  | .jmp => 0
  | .je | .jg | .jge | .jl | .jle | .jne => 2
  | .jgz | .jgez | .jlz | .jlez | .jnz | .jz => 1

/-- The C operator between the operands, or before zero if there is one operand. -/
def comparison? : Jump → Option String
  | .jmp => none
  | .je | .jz => some "=="
  | .jne | .jnz => some "!="
  | .jg | .jgz => some ">"
  | .jge | .jgez => some ">="
  | .jl | .jlz => some "<"
  | .jle | .jlez => some "<="

def ofMnemonic? (word : String) : Option Jump :=
  all.find? fun jump => jump.mnemonic == word

end Jump

inductive TokenKind where
  | leftParen | rightParen | leftBrace | rightBrace
  | colon | doubleColon | comma | ampersand | dollar
  | number | string | module
  | fnWord | useWord | constWord | localWord | deferWord | returnWord | breakWord | continueWord
  | endWord | forWord | loopWord | reduceWord
  | jump (which : Jump)
  | identifier | newLine | inlineC | commentBegin | commentEnd | endOfInput
  deriving DecidableEq, Repr, Inhabited

namespace TokenKind

def plain : List TokenKind :=
  [.leftParen, .rightParen, .leftBrace, .rightBrace, .colon, .doubleColon, .comma, .ampersand,
   .dollar, .number, .string, .module, .fnWord, .useWord, .constWord, .localWord, .deferWord, .returnWord, .breakWord,
   .continueWord, .endWord, .forWord, .loopWord, .reduceWord, .identifier, .newLine, .inlineC, .commentBegin,
   .commentEnd, .endOfInput]

def name : TokenKind → String
  | .leftParen => "l_paren"
  | .rightParen => "r_paren"
  | .leftBrace => "l_brace"
  | .rightBrace => "r_brace"
  | .colon => "colon"
  | .doubleColon => "double_colon"
  | .comma => "comma"
  | .ampersand => "ampersand"
  | .dollar => "dollar"
  | .number => "numeric_constant"
  | .string => "string_literal"
  | .module => "module"
  | .fnWord => "fn_signature"
  | .useWord => "use"
  | .constWord => "const"
  | .localWord => "local"
  | .deferWord => "defer"
  | .returnWord => "return"
  | .breakWord => "break"
  | .continueWord => "continue"
  | .endWord => "end"
  | .forWord => "for"
  | .loopWord => "loop"
  | .reduceWord => "reduce"
  | .jump which => which.mnemonic
  | .identifier => "identifier"
  | .newLine => "new_line"
  | .inlineC => "inline_c"
  | .commentBegin => "begin_scope_comment"
  | .commentEnd => "end_scope_comment"
  | .endOfInput => "eof"

def ofName? (name : String) : Option TokenKind :=
  plain.find? fun kind => kind.name == name

def description : TokenKind → String
  | .number => "numeric constant"
  | .string => "string literal"
  | .module => "module"
  | .identifier => "identifier"
  | .newLine => "new line"
  | .inlineC => "inline C block"
  | .commentBegin | .commentEnd => "comment"
  | .endOfInput => "end of input"
  | _ => "token"

def ofKeyword? : String → Option TokenKind
  | "fn" => some .fnWord
  | "use" => some .useWord
  | "const" => some .constWord
  | "local" => some .localWord
  | "defer" => some .deferWord
  | "return" => some .returnWord
  | "break" => some .breakWord
  | "continue" => some .continueWord
  | "end" => some .endWord
  | "for" => some .forWord
  | "loop" => some .loopWord
  | "reduce" => some .reduceWord
  | word => (Jump.ofMnemonic? word).map .jump

def isJump : TokenKind → Bool
  | .jump _ => true
  | _ => false

end TokenKind

structure Token where
  kind : TokenKind
  literal : String
  span : Span
  deriving DecidableEq, Repr, Inhabited

namespace Token

/-- A token as messages show it: some by their kind, all others by their text. -/
def shown (token : Token) : String :=
  match token.kind with
  | .newLine | .endOfInput | .inlineC | .module | .string | .commentBegin | .commentEnd =>
    token.kind.description
  | _ => "'" ++ token.literal ++ "'"

end Token

end StackLang
