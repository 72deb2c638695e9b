import StackLang.Path
import StackLang.Text.Position

/-! What can be wrong with the text of one source file, and where. -/
namespace StackLang

open Text (Position Span)

inductive Complaint where
  | unexpectedCharacter (character : Char)
  | moduleNotFound (name : String)
  | notUtf8
  | inlineNotOpened
  | inlineNotClosed
  | commentNotClosed
  | lineNotEnded (after found : String)
  | moduleExpected
  | identifierExpected (after : String)
  | parametersExpected (function : String)
  | parameterExpected (found : String)
  | bodyExpected (found : String)
  | numberExpected (constant : String)
  | declarationExpected (found : String)
  | loopNotClosed
  | bodyNotClosed
  | braceInBody
  | notInBody (word : String)
  | labelReserved (label : String)
  | callExpected
  | unexpected (word : String)
  | statementExpected (found : String)
  | argumentUnexpected (found : String)
  | boundsExpected
  | boundNotNumeric
  | jumpExpected
  | labelExpected (jump : String)
  | reductionExpected
  | reductionUnknown (name : String)
  | note (text : String)
  deriving DecidableEq, Repr

def quoted (text : String) : String := "'" ++ text ++ "'"

def Complaint.message : Complaint → String
  | .unexpectedCharacter character => "unexpected character " ++ quoted (String.singleton character)
  | .moduleNotFound name => "module not found: " ++ quoted name
  | .notUtf8 => "invalid UTF-8 in source file"
  | .inlineNotOpened => "expected '\x7b' after '__c'"
  | .inlineNotClosed => "unterminated inline C block"
  | .commentNotClosed => "unterminated comment"
  | .lineNotEnded after found => "expected new line after " ++ quoted after ++ ", found " ++ found
  | .moduleExpected => "expected module after 'use'"
  | .identifierExpected after => "expected identifier after " ++ quoted after
  | .parametersExpected function => "expected '(' after " ++ quoted function
  | .parameterExpected found => "expected parameter name, found " ++ found
  | .bodyExpected found => "expected '\x7b' before " ++ found
  | .numberExpected constant => "expected numeric constant after " ++ quoted constant
  | .declarationExpected found => "expected declaration, found " ++ found
  | .loopNotClosed => "missing 'end'"
  | .bodyNotClosed => "expected '\x7d' at end of input"
  | .braceInBody => "unexpected '\x7b' in function body"
  | .notInBody word => quoted word ++ " is not allowed inside a function body"
  | .labelReserved label => "label " ++ quoted label ++ " is a reserved C keyword"
  | .callExpected => "expected function call after 'defer'"
  | .unexpected word => "unexpected " ++ quoted word
  | .statementExpected found => "expected statement, found " ++ found
  | .argumentUnexpected found => "unexpected argument " ++ found
  | .boundsExpected => "expected start, step and end after 'for'"
  | .boundNotNumeric => "loop bounds must be numeric"
  | .jumpExpected => "expected jump"
  | .labelExpected jump => "expected 'label' after " ++ quoted jump
  | .reductionExpected => "expected reduction after 'reduce'"
  | .reductionUnknown name => "unknown reduction " ++ quoted name
  | .note text => text

structure SyntaxError where
  complaint : Complaint
  path : Path
  line : Nat
  column : Nat
  deriving DecidableEq, Repr

namespace SyntaxError

def atSpan (complaint : Complaint) (path : Path) (span : Span) : SyntaxError :=
  ⟨complaint, path, span.start.line, span.start.column⟩

def message (error : SyntaxError) : String := error.complaint.message

end SyntaxError

end StackLang
