import StackLang.Build.Error
import StackLang.Settings.Basic
import StackLang.Text.CharClass

/-! The C compiler: the command that it is started with, and what becomes of its run. -/
namespace StackLang

structure Invocation where
  program : String
  arguments : List String
  deriving DecidableEq, Repr

/-- What starting a program does: it may not start, and it may change the files. -/
abbrev Shell := Files → Invocation → Except OsError Program × Files

namespace Files

/-- The program that a name without a slash leads to. -/
def commonProgram (name : String) : Except OsError Program :=
  if name = "true" then .ok {}
  else if name = "false" then .ok { status := 1 }
  else if name = "." ∨ name = ".." then .error .denied
  else if longestName < name.utf8ByteSize then .error .nameTooLong
  else .error .notFound

def start : Shell := fun files invocation =>
  let texts := invocation.program :: invocation.arguments
  let result :=
    if texts.any fun text => text.contains (Char.ofNat 0) then .error .nulInCommand
    else if invocation.program.contains '/' then files.program ⟨invocation.program⟩
    else commonProgram invocation.program
  (result, files)

end Files

def Program.exitCode (program : Program) : Nat := program.status % 256

namespace Settings

def arguments (settings : Settings) (directory : Path) (sources : List Path) (output : Path) :
    List String :=
  ["-o", output.text, "-I", directory.text] ++ sources.map (·.text) ++ ["-lm"] ++
    settings.runtime.defines.map (fun (name, value) => "-D" ++ name ++ "=" ++ value) ++
    settings.link.libraryPaths.flatMap (fun path => ["-L", path.text]) ++
    settings.link.libraries.flatMap fun library => ["-l", library]

def invocation (settings : Settings) (directory : Path) (sources : List Path) (output : Path) :
    Invocation :=
  ⟨settings.compiler.cc, settings.arguments directory sources output⟩

end Settings

def trimEnd (text : String) : String :=
  String.ofList (text.toList.reverse.dropWhile Text.isWhiteSpace).reverse

def link (shell : Shell) (settings : Settings) (files : Files) (directory : Path)
    (sources : List Path) (output : Path) : Except BuildError Unit × Files :=
  match shell files (settings.invocation directory sources output) with
  | (.error error, files) => (.error (.notStarted settings.compiler.cc error), files)
  | (.ok program, files) =>
    if program.exitCode = 0 then (.ok (), files)
    else (.error (.failed program.exitCode (trimEnd program.errors)), files)

end StackLang
