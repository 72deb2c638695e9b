import StackLang.Output.Generate
import StackLang.Proofs.FileNames

/-! What the C preprocessor keeps of generated rows. Rows under the condition that a name is not
defined are left out where it is, with the conditions inside of them, and all other text is kept. -/
namespace StackLang

open Text (splitAt)

/-! ### Directives -/

namespace Row

/-- What a row is to the preprocessor. -/
inductive Directive where
  | ifUndefined (name : String)
  | define (name : String)
  | endIf
  | text
  deriving DecidableEq, Repr

def words (text : String) : List String := (splitAt ' ' text.toList).map String.ofList

def directive : Row → Directive
  | .line text =>
    match words text with
    | ["#ifndef", name] => .ifUndefined name
    | "#define" :: name :: _ => .define name
    | "#endif" :: _ => .endIf
    | _ => .text
  | _ => .text

theorem words_of_whole {text : String} (whole : ' ' ∉ text.toList) : words text = [text] := by
  rw [words, splitAt_of_not_mem whole, List.map_singleton, String.ofList_toList]

theorem words_of_toList {text word more : String} (whole : ' ' ∉ word.toList)
    (split : text.toList = word.toList ++ ' ' :: more.toList) :
    words text = word :: words more := by
  rw [words, split, splitAt_append_mark, splitAt_of_not_mem whole, List.map_append,
    List.map_singleton, String.ofList_toList]
  rfl

theorem directive_blank : blank.directive = .text := rfl

theorem directive_ifndef {name : String} (whole : ' ' ∉ name.toList) :
    (line ("#ifndef " ++ name)).directive = .ifUndefined name := by
  have first : words ("#ifndef " ++ name) = "#ifndef" :: words name :=
    words_of_toList (by decide) (by simp)
  rw [directive, first, words_of_whole whole]
  rfl

theorem directive_define {name : String} (whole : ' ' ∉ name.toList) :
    (line ("#define " ++ name)).directive = .define name := by
  have first : words ("#define " ++ name) = "#define" :: words name :=
    words_of_toList (by decide) (by simp)
  rw [directive, first, words_of_whole whole]
  rfl

theorem directive_define_value {name : String} (whole : ' ' ∉ name.toList) (value : String) :
    (line ("#define " ++ name ++ " " ++ value)).directive = .define name := by
  have first : words ("#define " ++ name ++ " " ++ value) =
      "#define" :: words (name ++ " " ++ value) :=
    words_of_toList (by decide) (by simp)
  have second : words (name ++ " " ++ value) = name :: words value :=
    words_of_toList whole (by simp)
  rw [directive, first, second]
  rfl

theorem directive_endif : (line "#endif").directive = .endIf := by decide

theorem directive_endif_comment (comment : String) :
    (line ("#endif /* " ++ comment ++ " */")).directive = .endIf := by
  have first : words ("#endif /* " ++ comment ++ " */") =
      "#endif" :: words ("/* " ++ comment ++ " */") :=
    words_of_toList (by decide) (by simp)
  rw [directive, first]
  rfl

theorem directive_include (name : String) : (includeRow name).directive = .text := by
  have first : words ("#include \"" ++ name ++ "\"") = "#include" :: words ("\"" ++ name ++ "\"") :=
    words_of_toList (by decide) (by simp)
  rw [includeRow, directive, first]
  rfl

theorem directive_declaration (global : Global) : (line global.declaration).directive = .text := by
  cases global with
  | function unit name =>
    have first : words (Global.function unit name).declaration =
        "void" :: words (CName.symbol unit name ++ "(int argc, ...);") :=
      words_of_toList (by decide) (by unfold Global.declaration; simp)
    rw [directive, first]
    rfl
  | constant unit name =>
    have first : words (Global.constant unit name).declaration =
        "extern" :: words ("const " ++ CName.real ++ " " ++ CName.symbol unit name ++ ";") :=
      words_of_toList (by decide) (by unfold Global.declaration; simp)
    rw [directive, first]
    rfl

end Row

/-! ### Conditions -/

/-- The rows that a preprocessor keeps, and the names that are defined behind them. Rows inside of
`skipped` conditions are left out; files that are included are left aside. -/
def preprocess (defined : List String) : (skipped : Nat) → List Row → List Row × List String
  | _, [] => ([], defined)
  | 0, row :: rows =>
    match row.directive with
    | .ifUndefined name => preprocess defined (if name ∈ defined then 1 else 0) rows
    | .define name => preprocess (name :: defined) 0 rows
    | .endIf => preprocess defined 0 rows
    | .text => (row :: (preprocess defined 0 rows).1, (preprocess defined 0 rows).2)
  | skipped + 1, row :: rows =>
    match row.directive with
    | .ifUndefined _ => preprocess defined (skipped + 2) rows
    | .endIf => preprocess defined skipped rows
    | _ => preprocess defined (skipped + 1) rows

/-- Behind the first rows nothing is kept of the second ones, of which something is kept without
them. -/
def Suppresses (first second : List Row) : Prop :=
  ∃ defined, (preprocess defined 0 second).1 ≠ [] ∧
    (preprocess (preprocess defined 0 first).2 0 second).1 = []

section Preprocess

variable {rows : List Row} {defines : List (String × String)}

theorem preprocess_text (plain : ∀ row ∈ rows, row.directive = .text) (defined : List String)
    (more : List Row) :
    preprocess defined 0 (rows ++ more) =
      (rows ++ (preprocess defined 0 more).1, (preprocess defined 0 more).2) := by
  induction rows with
  | nil => rfl
  | cons row rows ih =>
    obtain ⟨first, others⟩ := List.forall_mem_cons.mp plain
    simp only [List.cons_append, preprocess, first, ih others]

theorem skip_text (plain : ∀ row ∈ rows, row.directive = .text) (defined : List String)
    (skipped : Nat) (more : List Row) :
    preprocess defined (skipped + 1) (rows ++ more) = preprocess defined (skipped + 1) more := by
  induction rows with
  | nil => rfl
  | cons row rows ih =>
    obtain ⟨first, others⟩ := List.forall_mem_cons.mp plain
    simp only [List.cons_append, preprocess, first, ih others]

theorem skip_defineRows {name : String} (whole : ' ' ∉ name.toList) (value : String)
    (defined : List String) (skipped : Nat) (more : List Row) :
    preprocess defined (skipped + 1) (defineRows name value ++ more) =
      preprocess defined (skipped + 1) more := by
  simp only [defineRows, List.cons_append, List.nil_append, preprocess, Row.directive_ifndef whole,
    Row.directive_define_value whole, Row.directive_endif]

/-- A name that is defined already is not defined once more. -/
theorem preprocess_defineRows {name : String} (whole : ' ' ∉ name.toList) (value : String)
    (defined : List String) (more : List Row) :
    preprocess defined 0 (defineRows name value ++ more) =
      preprocess (if name ∈ defined then defined else name :: defined) 0 more := by
  split
  · next known =>
    simp only [defineRows, List.cons_append, List.nil_append, preprocess,
      Row.directive_ifndef whole, known, if_true, Row.directive_define_value whole,
      Row.directive_endif]
  · next unknown =>
    simp only [defineRows, List.cons_append, List.nil_append, preprocess,
      Row.directive_ifndef whole, unknown, if_false, Row.directive_define_value whole,
      Row.directive_endif]

theorem skip_defines (whole : ∀ pair ∈ defines, ' ' ∉ pair.1.toList) (defined : List String)
    (skipped : Nat) (more : List Row) :
    preprocess defined (skipped + 1)
        (defines.flatMap (fun pair => defineRows pair.1 pair.2) ++ more) =
      preprocess defined (skipped + 1) more := by
  induction defines with
  | nil => rfl
  | cons pair defines ih =>
    obtain ⟨first, others⟩ := List.forall_mem_cons.mp whole
    rw [List.flatMap_cons, List.append_assoc, skip_defineRows first, ih others]

theorem preprocess_defines (whole : ∀ pair ∈ defines, ' ' ∉ pair.1.toList) (defined : List String)
    (more : List Row) :
    ∃ known, (∀ name, name ∈ known ↔ name ∈ defined ∨ name ∈ defines.map Prod.fst) ∧
      preprocess defined 0
          (defines.flatMap (fun pair => defineRows pair.1 pair.2) ++ more) =
        preprocess known 0 more := by
  induction defines generalizing defined with
  | nil => exact ⟨defined, by simp, rfl⟩
  | cons pair defines ih =>
    obtain ⟨first, others⟩ := List.forall_mem_cons.mp whole
    obtain ⟨known, members, same⟩ :=
      ih others (if pair.1 ∈ defined then defined else pair.1 :: defined)
    refine ⟨known, fun name => ?_, ?_⟩
    · rw [members, List.map_cons, List.mem_cons]
      split <;> grind
    · rw [List.flatMap_cons, List.append_assoc, preprocess_defineRows first, same]

end Preprocess

end StackLang
