import StackLang.Files.Basic
import StackLang.Settings.Basic
import StackLang.SyntaxError
import StackLang.Text.Utf8
import StackLang.Toml.Document

/-! Settings from a project file. A setting that the file does not have keeps its default,
and what the file has besides settings is left alone. -/
namespace StackLang

inductive SettingsError where
  | unreadable (path : Path) (error : OsError)
  | invalid (path : Path)
  deriving DecidableEq, Repr

def SettingsError.message : SettingsError → String
  | .unreadable path error => "cannot read config " ++ quoted path.text ++ ": " ++ error.message
  | .invalid path => "invalid config " ++ quoted path.text

def settingsFile : Path := ⟨"quadrate.toml"⟩

namespace Toml

def asString : Toml → Option String
  | .string content => some content
  | _ => none

def asPath (value : Toml) : Option Path := value.asString.map Path.mk

def asTruth : Toml → Option Bool
  | .truth holds => some holds
  | _ => none

def asNat : Toml → Option Nat
  | .integer (.ofNat number) => some number
  | _ => none

def asList {α : Type} (item : Toml → Option α) : Toml → Option (List α)
  | .array items => items.mapM item
  | .tables items => items.mapM fun fields => item (.table .defined fields)
  | _ => none

/-- The fields of a record, by their names or by their order. A date has none of them. -/
def asRecord (names : List String) : Toml → Option Fields
  | .table _ fields => some fields
  | .array items => some (names.zip items)
  | .tables items => some (names.zip (items.map (.table .defined)))
  | .moment => some []
  | _ => none

def Fields.setting {α : Type} (fields : Fields) (name : String) (read : Toml → Option α)
    (default : α) : Option α :=
  match fields.lookup name with
  | some value => read value
  | none => some default

end Toml

open Toml (asString asPath asTruth asNat asList asRecord)

def CompilerSettings.ofToml (value : Toml) : Option CompilerSettings := do
  let fields ← asRecord ["cc", "output", "output_dir", "save_temps"] value
  let default : CompilerSettings := {}
  return {
    cc := ← fields.setting "cc" asString default.cc
    output := ← fields.setting "output" asPath default.output
    outputDirectory := ← fields.setting "output_dir" asPath default.outputDirectory
    saveTemps := ← fields.setting "save_temps" asTruth default.saveTemps }

def RuntimeSettings.ofToml (value : Toml) : Option RuntimeSettings := do
  let fields ← asRecord ["stack_depth", "mark_stack_depth", "real_type", "string_length"] value
  let default : RuntimeSettings := {}
  return {
    stackDepth := ← fields.setting "stack_depth" asNat default.stackDepth
    markStackDepth := ← fields.setting "mark_stack_depth" asNat default.markStackDepth
    realType := ← fields.setting "real_type" asString default.realType
    stringLength := ← fields.setting "string_length" asNat default.stringLength }

def LinkSettings.ofToml (value : Toml) : Option LinkSettings := do
  let fields ← asRecord ["libraries", "library_paths"] value
  let default : LinkSettings := {}
  return {
    libraries := ← fields.setting "libraries" (asList asString) default.libraries
    libraryPaths := ← fields.setting "library_paths" (asList asPath) default.libraryPaths }

namespace Settings

def ofToml (fields : Toml.Fields) : Option Settings := do
  return {
    compiler := ← fields.setting "compiler" CompilerSettings.ofToml {}
    runtime := ← fields.setting "runtime" RuntimeSettings.ofToml {}
    link := ← fields.setting "link" LinkSettings.ofToml {} }

/-- The settings in a file that has to be there. -/
def load (files : Files) (path : Path) : Except SettingsError Settings :=
  match files.read path with
  | .error error => .error (.unreadable path error)
  | .ok content =>
    match Text.Utf8.decode? content with
    | none => .error (.unreadable path .notText)
    | some text =>
      match (Toml.parse text).bind ofToml with
      | some settings => .ok settings
      | none => .error (.invalid path)

def loadOrDefault (files : Files) (path : Path) : Except SettingsError Settings :=
  if files.exists? path then load files path else .ok {}

def discover (files : Files) : Except SettingsError Settings := loadOrDefault files settingsFile

end Settings

end StackLang
