import StackLang.Output.Lower
import StackLang.Report.Diagnostic

/-! What can go wrong in a build, and what is said about it. -/
namespace StackLang

/-- Why a file or directory could not be used. -/
inductive IoFailure where
  | system (error : OsError)
  /-- A directory could not be listed. -/
  | walk (path : Path) (error : OsError)
  deriving DecidableEq, Repr

def IoFailure.message : IoFailure → String
  | .system error => error.message
  | .walk path error => "IO error for operation on " ++ path.text ++ ": " ++ error.message

inductive BuildError where
  | source (error : SyntaxError)
  | analysis (error : SemanticError)
  | code (path : Path) (error : CodeError)
  /-- The C compiler could not be started. -/
  | notStarted (compiler : String) (error : OsError)
  /-- The C compiler failed. -/
  | failed (status : Nat) (errors : String)
  | io (path : Path) (failure : IoFailure)
  deriving DecidableEq, Repr

def placed (path : String) (line column : Nat) (message : String) : String :=
  path ++ ":" ++ toString line ++ ":" ++ toString column ++ ": " ++ message

namespace BuildError

def message : BuildError → String
  | .source error => placed error.path.text error.line error.column error.message
  | .analysis error => placed error.path error.line error.column error.message
  | .code path error => path.text ++ ": " ++ error.message
  | .notStarted compiler error => "cannot run " ++ quoted compiler ++ ": " ++ error.message
  | .failed _ errors => errors
  | .io path failure => path.text ++ ": " ++ failure.message

def diagnostic : BuildError → Diagnostic
  | .source error => ⟨error.message, some error.path.text, error.line, error.column⟩
  | .analysis error =>
    if error.line = 0 ∨ error.path = "" then ⟨error.message, none, 0, 0⟩
    else ⟨error.message, some error.path, error.line, error.column⟩
  | error => ⟨error.message, none, 0, 0⟩

end BuildError

end StackLang
