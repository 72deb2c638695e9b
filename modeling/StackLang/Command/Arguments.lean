import StackLang.Path

/-! The arguments of the command line. They are read from left to right, and the first one
that is wrong, or that asks for the help or the version, decides. -/
namespace StackLang

structure Arguments where
  sources : List Path := []
  output : Option Path := none
  run : Bool := false
  saveTemps : Bool := false
  dumpTokens : Bool := false
  stackDepth : Option Nat := none
  markStackDepth : Option Nat := none
  libraries : List String := []
  libraryPaths : List Path := []
  cc : Option String := none
  config : Option Path := none
  noColors : Bool := false
  verbose : Bool := false
  deriving DecidableEq, Repr

inductive ValueOption where
  | output | stackDepth | markStackDepth | library | libraryPath | cc | config
  deriving DecidableEq, Repr

inductive FlagOption where
  | run | saveTemps | dumpTokens | noColors | verbose | help | version
  deriving DecidableEq, Repr

inductive CommandOption where
  | value (which : ValueOption)
  | flag (which : FlagOption)
  deriving DecidableEq, Repr

namespace CommandOption

def ofWord? (word : String) : Option CommandOption :=
  [("output", value .output), ("run", .flag .run), ("save-temps", .flag .saveTemps),
    ("dump-tokens", .flag .dumpTokens), ("stack-depth", .value .stackDepth),
    ("mark-stack-depth", .value .markStackDepth), ("cc", .value .cc),
    ("config", .value .config), ("no-colors", .flag .noColors), ("verbose", .flag .verbose),
    ("help", .flag .help), ("version", .flag .version)].lookup word

def ofLetter? (letter : Char) : Option CommandOption :=
  [('o', value .output), ('l', .value .library), ('L', .value .libraryPath),
    ('v', .flag .verbose), ('h', .flag .help), ('V', .flag .version)].lookup letter

end CommandOption

/-- Why there is nothing to build. -/
inductive Refusal where
  | help
  | version
  | usage (message : String)
  deriving DecidableEq, Repr

/-- The digits of a number of 64 bits, maybe with a plus. -/
def depth? (text : String) : Option Nat :=
  let digits := match text.toList with
    | '+' :: rest => rest
    | all => all
  if digits = [] ∨ ¬digits.all Char.isDigit then none
  else
    let number := digits.foldl (fun total digit => total * 10 + (digit.toNat - '0'.toNat)) 0
    if number ≤ 18446744073709551615 then some number else none

def path? (text : String) : Option Path := if text = "" then none else some ⟨text⟩

namespace Arguments

def wrongValue {α : Type} (text : String) : Except Refusal α :=
  .error (.usage ("invalid value '" ++ text ++ "'"))

def repeated {α : Type} : Except Refusal α :=
  .error (.usage "an option cannot be used multiple times")

def once {α : Type} (present : Option α) (read : Option α) (text : String) :
    Except Refusal (Option α) :=
  match read, present with
  | none, _ => wrongValue text
  | some _, some _ => repeated
  | some value, none => .ok (some value)

def setValue (arguments : Arguments) (which : ValueOption) (text : String) :
    Except Refusal Arguments :=
  match which with
  | .output => return { arguments with output := ← once arguments.output (path? text) text }
  | .config => return { arguments with config := ← once arguments.config (path? text) text }
  | .cc => return { arguments with cc := ← once arguments.cc (some text) text }
  | .stackDepth =>
    return { arguments with stackDepth := ← once arguments.stackDepth (depth? text) text }
  | .markStackDepth =>
    return { arguments with markStackDepth := ← once arguments.markStackDepth (depth? text) text }
  | .library => .ok { arguments with libraries := arguments.libraries ++ [text] }
  | .libraryPath =>
    match path? text with
    | some path => .ok { arguments with libraryPaths := arguments.libraryPaths ++ [path] }
    | none => wrongValue text

def setFlag (arguments : Arguments) : FlagOption → Except Refusal Arguments
  | .run => if arguments.run then repeated else .ok { arguments with run := true }
  | .saveTemps =>
    if arguments.saveTemps then repeated else .ok { arguments with saveTemps := true }
  | .dumpTokens =>
    if arguments.dumpTokens then repeated else .ok { arguments with dumpTokens := true }
  | .noColors => if arguments.noColors then repeated else .ok { arguments with noColors := true }
  | .verbose => if arguments.verbose then repeated else .ok { arguments with verbose := true }
  | .help => .error .help
  | .version => .error .version

def addSource (arguments : Arguments) (text : String) : Except Refusal Arguments :=
  match path? text with
  | some path => .ok { arguments with sources := arguments.sources ++ [path] }
  | none => wrongValue text

/-- What is read so far, and the option whose value is the next argument. -/
abbrev Pending := Arguments × Option ValueOption

def unknown (text : String) : Except Refusal Pending :=
  .error (.usage ("unexpected argument '" ++ text ++ "' found"))

/-- The word of an option, and its value if an equals sign follows. -/
def word (arguments : Arguments) (text : List Char) : Except Refusal Pending :=
  let name := String.ofList (text.takeWhile (· ≠ '='))
  match CommandOption.ofWord? name, text.dropWhile (· ≠ '=') with
  | some (.value which), '=' :: value =>
    return (← arguments.setValue which (String.ofList value), none)
  | some (.value which), _ => .ok (arguments, some which)
  | some (.flag _), '=' :: value =>
    .error (.usage ("unexpected value '" ++ String.ofList value ++ "'"))
  | some (.flag which), _ => return (← arguments.setFlag which, none)
  | none, _ => unknown ("--" ++ name)

/-- What follows the letter of an option, without an equals sign in front. -/
def attached : List Char → String
  | '=' :: value => String.ofList value
  | value => String.ofList value

/-- Letters of options; what follows the letter of one that takes a value is its value. -/
def letters (arguments : Arguments) : List Char → Except Refusal Pending
  | [] => .ok (arguments, none)
  | letter :: rest =>
    match CommandOption.ofLetter? letter with
    | some (.flag which) => do letters (← arguments.setFlag which) rest
    | some (.value which) =>
      if rest = [] then .ok (arguments, some which)
      else do return (← arguments.setValue which (attached rest), none)
    | none => unknown ("-" ++ String.singleton letter)

def missingValue {α : Type} : Except Refusal α :=
  .error (.usage "a value is required for an option but none was supplied")

/-- Read the arguments behind some that are read. The value of an option does not start
with a dash, unless it is one. -/
def readFrom (arguments : Arguments) (pending : Option ValueOption) :
    List String → Except Refusal Arguments
  | [] => if pending.isSome then missingValue else .ok arguments
  | text :: rest =>
    match text.toList, pending with
    | ['-', '-'], none => rest.foldlM addSource arguments
    | '-' :: '-' :: name, none => do
      let (arguments, pending) ← arguments.word name
      readFrom arguments pending rest
    | '-' :: letter :: more, none => do
      let (arguments, pending) ← arguments.letters (letter :: more)
      readFrom arguments pending rest
    | '-' :: _ :: _, some _ => missingValue
    | _, some which => do readFrom (← arguments.setValue which text) none rest
    | _, none => do readFrom (← arguments.addSource text) none rest

def parse (texts : List String) : Except Refusal Arguments := do
  let arguments ← readFrom {} none texts
  if arguments.sources = [] then throw (.usage "SOURCES is required")
  return arguments

end Arguments

end StackLang
