import StackLang.Path

/-! The settings of a project, each with the value it has where nothing sets it. -/
namespace StackLang

structure CompilerSettings where
  /-- The program that compiles and links C. -/
  cc : String := "cc"
  output : Path := ⟨"a.out"⟩
  /-- The directory of the generated files. -/
  outputDirectory : Path := ⟨".qd_gen"⟩
  /-- Whether the generated files are kept. -/
  saveTemps : Bool := false
  deriving DecidableEq, Repr

/-- The sizes and the type of the cells of a program's stacks. -/
structure RuntimeSettings where
  stackDepth : Nat := 1024
  markStackDepth : Nat := 64
  realType : String := "double"
  stringLength : Nat := 1024
  deriving DecidableEq, Repr

structure LinkSettings where
  libraries : List String := []
  libraryPaths : List Path := []
  deriving DecidableEq, Repr

structure Settings where
  compiler : CompilerSettings := {}
  runtime : RuntimeSettings := {}
  link : LinkSettings := {}
  deriving DecidableEq, Repr

def RuntimeSettings.defines (settings : RuntimeSettings) : List (String × String) :=
  [("QD_STACK_DEPTH", toString settings.stackDepth),
    ("QD_MARK_STACK_DEPTH", toString settings.markStackDepth),
    ("__qd_real_t", settings.realType),
    ("QD_STRING_LENGTH", toString settings.stringLength)]

end StackLang
