import StackLang.Build.Run
import StackLang.Command.Arguments
import StackLang.Report.Json
import StackLang.Settings.Load

/-! The command: what it does with its arguments, and all that can be seen of it. -/
namespace StackLang

def version : String := "0.3.0"

def versionText : String := "quadrate " ++ version ++ "\n"

def helpText : String :=
  "Quadrate

Usage: quadrate [OPTIONS] <SOURCES>...

Arguments:
  <SOURCES>...  Source files to compile

Options:
  -o, --output <FILE>         Output executable
      --run                   Run the executable after building it
      --save-temps            Keep the generated C sources
      --dump-tokens           Print the token stream of every unit as JSON and stop
      --stack-depth <N>       Value stack depth
      --mark-stack-depth <N>  Mark stack depth
  -l <LIB>                    Link against a library
  -L <DIR>                    Add a library search path
      --cc <CC>               C compiler to invoke
      --config <FILE>         Project configuration file (default: ./quadrate.toml when present)
      --no-colors             Disable colored diagnostics
  -v, --verbose               Enable verbose output
  -h, --help                  Print help
  -V, --version               Print version
"

structure CommandOutcome where
  status : Nat
  output : String := ""
  errors : String := ""
  files : Files

namespace Arguments

/-- The settings of a project with what the command line says instead. -/
def apply (arguments : Arguments) (settings : Settings) : Settings where
  compiler :=
    { settings.compiler with
      output := arguments.output.getD settings.compiler.output
      cc := arguments.cc.getD settings.compiler.cc
      saveTemps := arguments.saveTemps || settings.compiler.saveTemps }
  runtime :=
    { settings.runtime with
      stackDepth := arguments.stackDepth.getD settings.runtime.stackDepth
      markStackDepth := arguments.markStackDepth.getD settings.runtime.markStackDepth }
  link :=
    { libraries := settings.link.libraries ++ arguments.libraries
      libraryPaths := settings.link.libraryPaths ++ arguments.libraryPaths }

def settings (arguments : Arguments) (files : Files) : Except SettingsError Settings := do
  let settings ← match arguments.config with
    | some path => Settings.load files path
    | none => Settings.discover files
  return arguments.apply settings

end Arguments

/-! ### Tokens -/

def Text.Position.json (position : Text.Position) : JsonValue :=
  .object [("column", .number position.column), ("line", .number position.line),
    ("offset", .number position.offset)]

def Text.Span.json (span : Text.Span) : JsonValue :=
  .object [("end", span.stop.json), ("start", span.start.json)]

def TokenKind.json : TokenKind → JsonValue
  | .jump which => .object [("jump", .string which.mnemonic)]
  | kind => .string kind.name

def Token.json (token : Token) : JsonValue :=
  .object [("kind", token.kind.json), ("literal", .string token.literal),
    ("span", token.span.json)]

def SourceUnit.json (unit : SourceUnit) : JsonValue :=
  .object [("file", .string unit.path.text),
    ("module", (unit.importName.map .string).getD .null),
    ("tokens", .array (unit.tokens.map Token.json))]

def tokenDump (units : List SourceUnit) : String :=
  JsonValue.pretty 0 (.array (units.map SourceUnit.json)) ++ "\n"

/-! ### Running -/

def plainError (message : String) : String := "quadrate: error: " ++ message ++ "\n"

/-- An error in the settings is told with its cause, which the message has already. -/
def SettingsError.chain (error : SettingsError) : String :=
  match error with
  | .unreadable _ cause => error.message ++ ": " ++ cause.message
  | .invalid _ => error.message

def warningText (warnings : List BuildWarning) : String :=
  warnings.foldl (fun text warning => text ++ " WARN " ++ warning.message ++ "\n") ""

/-- The program that a build has made. A bare name is a file of the working directory. -/
def programPath (artifact : Path) : Path :=
  if !artifact.isAbsolute && artifact.parent? = some ⟨""⟩ then Path.join ⟨"."⟩ artifact.text
  else artifact

namespace Arguments

def errorText (arguments : Arguments) (files : Files) (error : BuildError) : String :=
  DiagnosticStyle.renderFrom { colors := !arguments.noColors } files error.diagnostic

def dump (arguments : Arguments) (environment : Environment) (files : Files) : CommandOutcome :=
  match (compile files { roots := environment.searchRoots } arguments.sources).1 with
  | .error error => { status := 1, errors := arguments.errorText files error, files }
  | .ok units => { status := 0, output := tokenDump units, files }

def start (shell : Shell) (artifact : Path) (warnings : String) (files : Files) :
    CommandOutcome :=
  let path := programPath artifact
  match shell files ⟨path.text, []⟩ with
  | (.error error, files) =>
    let message := "Failed to run: " ++ path.text ++ ": " ++ error.message
    { status := 1, errors := warnings ++ plainError message, files }
  | (.ok program, files) =>
    { status := program.exitCode, output := program.output, errors := warnings ++ program.errors
      files }

def buildWith (arguments : Arguments) (shell : Shell) (environment : Environment)
    (settings : Settings) (files : Files) : CommandOutcome :=
  let outcome := build shell settings files { roots := environment.searchRoots } arguments.sources
  let warnings := warningText outcome.warnings
  match outcome.result with
  | .error error =>
    { status := 1, errors := warnings ++ arguments.errorText outcome.files error
      files := outcome.files }
  | .ok artifact =>
    if arguments.run then start shell artifact warnings outcome.files
    else { status := 0, errors := warnings, files := outcome.files }

def perform (arguments : Arguments) (shell : Shell) (environment : Environment)
    (files : Files) : CommandOutcome :=
  match arguments.settings files with
  | .error error => { status := 1, errors := plainError error.chain, files }
  | .ok settings =>
    if arguments.dumpTokens then arguments.dump environment files
    else arguments.buildWith shell environment settings files

end Arguments

def Refusal.outcome (refusal : Refusal) (files : Files) : CommandOutcome :=
  match refusal with
  | .help => { status := 0, output := helpText, files }
  | .version => { status := 0, output := versionText, files }
  | .usage message => { status := 2, errors := "error: " ++ message ++ "\n", files }

def runCommand (shell : Shell) (environment : Environment) (files : Files)
    (texts : List String) : CommandOutcome :=
  match Arguments.parse texts with
  | .error refusal => refusal.outcome files
  | .ok arguments => arguments.perform shell environment files

end StackLang
