import StackLang.Proofs.References
import StackLang.Proofs.Resolution
import StackLang.Proofs.Tiling

/-! Where the words of a tree come from. Every name, number, text and piece of C code in the tree of
a file is the literal of one of its tokens, of the kind that the grammar asks for there; what a
scanner makes a token of that kind from is then known of the words in the tree. -/
namespace StackLang

open StackLang.Grammar StackLang.Parser

def Token.word (token : Token) : TokenKind × String := (token.kind, token.literal)

def Argument.words : Argument → List (TokenKind × String)
  | .number literal => [(.number, literal)]
  | .string text => [(.string, text)]
  | .named module name => (module.toList ++ [name]).map (.identifier, ·)
  | .address name => [(.identifier, name)]
  | .iterator => []

def Action.words : Action → List (TokenKind × String)
  | .importModule target => [(.module, target.path.text)]
  | .function name parameters => (name :: parameters).map (.identifier, ·)
  | .call name module arguments =>
    (Argument.named module name).words ++ arguments.flatMap Argument.words
  | .inlineC code => [(.inlineC, code)]
  | .constant name literal => [(.identifier, name), (.number, literal)]
  | .takeLocal name | .label name | .jump _ name => [(.identifier, name)]
  | .countedLoop start step stop => start.words ++ step.words ++ stop.words
  | _ => []

def Function.words (function : Function) : List (TokenKind × String) :=
  (function.name :: function.parameters).map (.identifier, ·) ++
    function.statements.flatMap fun statement => statement.action.words

/-! ### Words of the grammar -/

namespace Grammar

variable {tokens rest : List Token}

theorem words_of_suffix {words : List (TokenKind × String)} (behind : rest <:+ tokens)
    (inside : words ⊆ rest.map Token.word) : words ⊆ tokens.map Token.word :=
  List.Subset.trans inside (List.map_subset _ behind.subset)

theorem Name.words {module : Option String} {name : String}
    (spelled : Name tokens rest module name) :
    (Argument.named module name).words ⊆ tokens.map Token.word := by
  cases spelled with
  | plain seen => simp [Argument.words, Token.word, seen]
  | qualified qualifier _ seen => simp [Argument.words, Token.word, qualifier, seen]

theorem Operand.words {looped : Bool} {argument : Argument}
    (operand : Operand looped tokens rest argument) :
    argument.words ⊆ tokens.map Token.word := by
  cases operand with
  | named spelled => exact spelled.words
  | number seen | string seen | address _ seen => simp [Argument.words, Token.word, seen]
  | iterator => exact List.nil_subset _

theorem Operands.words {looped : Bool} {given : List Argument}
    (operands : Operands looped tokens rest given) :
    given.flatMap Argument.words ⊆ tokens.map Token.word := by
  induction operands with
  | done => exact List.nil_subset _
  | comma _ _ ih => exact words_of_suffix (List.suffix_cons _ _) ih
  | comment _ _ _ ih => exact words_of_suffix (List.suffix_append [_, _] _) ih
  | operand first _ ih =>
    rw [List.flatMap_cons, List.append_subset]
    exact ⟨first.words, words_of_suffix first.suffix ih⟩

theorem Call.words {looped : Bool} {action : Action} (called : Call looped tokens rest action) :
    action.words ⊆ tokens.map Token.word := by
  obtain ⟨spelled, operands, _⟩ := called
  rw [Action.words, List.append_subset]
  exact ⟨spelled.words, words_of_suffix spelled.suffix operands.words⟩

theorem Line.words {depth inner : Nat} {action : Action}
    (line : Line depth tokens rest action inner) : action.words ⊆ tokens.map Token.word := by
  cases line with
  | call called => exact called.words
  | inlineC seen => simp [Action.words, Token.word, seen]
  | label seen | jump _ seen | takeLocal _ seen => simp [Action.words, Token.word, seen]
  | countedLoop _ started stepped stopped =>
    have starts := started.operand.suffix
    have steps := stepped.operand.suffix.trans starts
    apply words_of_suffix (List.suffix_cons _ _)
    rw [Action.words, List.append_subset, List.append_subset]
    exact ⟨⟨started.operand.words, words_of_suffix starts stepped.operand.words⟩,
      words_of_suffix steps stopped.operand.words⟩
  | reduce | leave | pushIterator | breakLoop | continueLoop | endlessLoop | endLoop =>
    exact List.nil_subset _

theorem Item.words {depth inner : Nat} {item : BodyItem}
    (read : Item depth tokens rest item inner) :
    item.statement.action.words ⊆ tokens.map Token.word := by
  cases read with
  | plain line => exact line.words
  | deferred _ called => exact words_of_suffix (List.suffix_cons _ _) called.words

theorem Body.words {depth : Nat} {items : List BodyItem} (body : Body depth tokens rest items) :
    ∀ item ∈ items, item.statement.action.words ⊆ tokens.map Token.word := by
  induction body with
  | close => simp
  | blank skipped _ ih =>
    intro item member
    exact words_of_suffix skipped.suffix (ih item member)
  | item first _ ih =>
    refine List.forall_mem_cons.mpr ⟨first.words, ?_⟩
    intro item member
    exact words_of_suffix first.suffix (ih item member)

theorem Parameters.words {names : List String} (taken : Parameters tokens rest names) :
    names.map (TokenKind.identifier, ·) ⊆ tokens.map Token.word := by
  induction taken with
  | close => exact List.nil_subset _
  | blank _ _ ih => exact words_of_suffix (List.suffix_cons _ _) ih
  | name seen _ ih =>
    rw [List.map_cons, List.cons_subset]
    refine ⟨?_, words_of_suffix (List.suffix_cons _ _) ih⟩
    simp [Token.word, seen]

/-- The words of a declaration at the top of a file, and those of the function it declares. -/
theorem Declaration.words {statements : List Statement}
    (declared : Declaration tokens rest statements) :
    (∀ statement ∈ statements, statement.action.words ⊆ tokens.map Token.word) ∧
      ∀ function ∈ functionsOf statements, function.words ⊆ tokens.map Token.word := by
  cases declared with
  | blank => simp [functionsOf]
  | use _ found => simp [functionsOf, Action.words, Token.word, found]
  | constant _ named valued => simp [functionsOf, Action.words, Token.word, named, valued]
  | inlineC seen => simp [functionsOf, Action.words, Token.word, seen]
  | @function word name opening brace atNames behindNames inside _ names items _ _ _ named _ taken
      skipped _ body =>
    have heads : (name.literal :: names).map (TokenKind.identifier, ·) ⊆
        (word :: name :: opening :: atNames).map Token.word := by
      rw [List.map_cons, List.cons_subset]
      refine ⟨?_, words_of_suffix (List.suffix_append [_, _, _] _) taken.words⟩
      simp [Token.word, named]
    have behind : inside <:+ word :: name :: opening :: atNames :=
      ((List.suffix_cons _ _).trans (skipped.suffix.trans taken.suffix)).trans
        (List.suffix_append [_, _, _] _)
    constructor
    · simp only [List.forall_mem_cons]
      exact ⟨heads, List.nil_subset _, by simp⟩
    · simp only [functionsOf, List.forall_mem_singleton]
      rw [Function.words, List.append_subset]
      refine ⟨heads, ?_⟩
      intro spelled member
      obtain ⟨statement, among, here⟩ := List.mem_flatMap.mp member
      rw [mem_replay, List.mem_map] at among
      rcases among with earlier | ⟨item, listed, rfl⟩
      · cases earlier
      · exact words_of_suffix behind (body.words item listed) here

/-- Every word in the tree of a file is the literal of a token. -/
theorem File.words {statements : List Statement} (file : File tokens statements) :
    (∀ statement ∈ statements, statement.action.words ⊆ tokens.map Token.word) ∧
      ∀ function ∈ functionsOf statements, function.words ⊆ tokens.map Token.word := by
  induction file with
  | done => simp [functionsOf]
  | declaration first _ ih =>
    rw [first.functionsOf_append]
    constructor
    · refine List.forall_mem_append.mpr ⟨first.words.1, ?_⟩
      intro statement member
      exact words_of_suffix first.suffix (ih.1 statement member)
    · refine List.forall_mem_append.mpr ⟨first.words.2, ?_⟩
      intro function member
      exact words_of_suffix first.suffix (ih.2 function member)

end Grammar

/-! ### Words of a unit -/

def IsSpelled (word : TokenKind × String) : Prop :=
  word.1 ∉ [.module, .endOfInput] → ∃ lexeme, Lexeme.Spelled word.1 lexeme word.2.toList

namespace IsSpelled

variable {word : String}

theorem identifier (spelled : IsSpelled (.identifier, word)) : Lexeme.isIdentifier word = true := by
  obtain ⟨_, spelled⟩ := spelled (by simp)
  have named := spelled.isIdentifier
  rwa [String.ofList_toList] at named

theorem number (spelled : IsSpelled (.number, word)) : Lexeme.Numeral word.toList := by
  obtain ⟨_, spelled⟩ := spelled (by simp)
  exact spelled.told

theorem inlineC (spelled : IsSpelled (.inlineC, word)) : Text.Balanced word.toList := by
  obtain ⟨_, spelled⟩ := spelled (by simp)
  exact spelled.told

end IsSpelled

theorem SourceUnit.Compiled.token_spelled {unit : SourceUnit} (compiled : unit.Compiled) :
    ∀ token ∈ unit.tokens, IsSpelled token.word := by
  obtain ⟨blank, files, search, later, content, imports, done⟩ := compiled
  obtain ⟨tree, stream, scanned, _, rfl⟩ := SourceUnit.compile_ok done
  obtain ⟨source, _, tiled⟩ := TokenStream.tiled_of_ofBytes scanned
  intro token member plain
  simp only [Token.word, List.mem_cons, List.not_mem_nil, or_false, not_or] at plain
  obtain ⟨lexeme, _, _, meaning⟩ := tiled.covers token member plain.2
  cases meaning with
  | lexeme spelled literal =>
    refine ⟨lexeme, ?_⟩
    rw [Token.word, literal, String.toList_ofList]
    exact spelled
  | module _ _ _ imported => exact absurd imported plain.1

/-- Every word in the tree of a unit is spelled as what the tree takes it for. -/
theorem SourceUnit.Compiled.words_spelled {unit : SourceUnit} (compiled : unit.Compiled) :
    (∀ statement ∈ (unit.tree.map SourceTree.statements).getD [],
      ∀ word ∈ statement.action.words, IsSpelled word) ∧
      ∀ function ∈ functionsOf ((unit.tree.map SourceTree.statements).getD []),
        ∀ word ∈ function.words, IsSpelled word := by
  obtain ⟨tree, held, parsed, _⟩ := compiled.parsed
  have among {words : List (TokenKind × String)} (inside : words ⊆ unit.tokens.map Token.word) :
      ∀ word ∈ words, IsSpelled word := by
    intro word member
    obtain ⟨token, listed, rfl⟩ := List.mem_map.mp (inside member)
    exact compiled.token_spelled token listed
  rw [held]
  have file := (file_of_parse parsed).words
  constructor
  · intro statement member
    exact among (file.1 statement member)
  · intro function member
    exact among (file.2 function member)

end StackLang
