import StackLang.Tree.Parse

/-! The grammar of a file. Every shape stands between the tokens at its front and the tokens
behind it, and says which part of the tree it becomes; places in the source are left open. The
main result is that a tree is only ever made of tokens that have the shape of a file. -/
namespace StackLang.Grammar

open Text (Span)

/-- A line is ended by a line end, or by the brace behind it, which stays. -/
inductive LineEnd : List Token → List Token → Prop
  | newLine {token : Token} {rest : List Token} (seen : token.kind = .newLine) :
    LineEnd (token :: rest) rest
  | brace {token : Token} {rest : List Token} (seen : token.kind = .rightBrace) :
    LineEnd (token :: rest) (token :: rest)

inductive Blank : List Token → List Token → Prop
  | newLine {token : Token} {rest : List Token} (seen : token.kind = .newLine) :
    Blank (token :: rest) rest
  | comment {opening closing : Token} {rest : List Token} (opened : opening.kind = .commentBegin)
    (closed : closing.kind = .commentEnd) : Blank (opening :: closing :: rest) rest

inductive Name : List Token → List Token → Option String → String → Prop
  | plain {word : Token} {rest : List Token} (seen : word.kind = .identifier) :
    Name (word :: rest) rest none word.literal
  | qualified {first colons word : Token} {rest : List Token} (qualifier : first.kind = .identifier)
    (separated : colons.kind = .doubleColon) (seen : word.kind = .identifier) :
    Name (first :: colons :: word :: rest) rest (some first.literal) word.literal

/-- The iterator is an operand inside a loop only. -/
inductive Operand (looped : Bool) : List Token → List Token → Argument → Prop
  | number {token : Token} {rest : List Token} (seen : token.kind = .number) :
    Operand looped (token :: rest) rest (.number token.literal)
  | string {token : Token} {rest : List Token} (seen : token.kind = .string) :
    Operand looped (token :: rest) rest (.string token.literal)
  | named {tokens rest : List Token} {module : Option String} {name : String}
    (spelled : Name tokens rest module name) : Operand looped tokens rest (.named module name)
  | address {mark word : Token} {rest : List Token} (marked : mark.kind = .ampersand)
    (seen : word.kind = .identifier) :
    Operand looped (mark :: word :: rest) rest (.address word.literal)
  | iterator {token : Token} {rest : List Token} (seen : token.kind = .dollar)
    (inside : looped = true) : Operand looped (token :: rest) rest .iterator

inductive Operands (looped : Bool) : List Token → List Token → List Argument → Prop
  | done {rest : List Token} : Operands looped rest rest []
  | comma {token : Token} {tokens rest : List Token} {given : List Argument}
    (seen : token.kind = .comma) (more : Operands looped tokens rest given) :
    Operands looped (token :: tokens) rest given
  | comment {opening closing : Token} {tokens rest : List Token} {given : List Argument}
    (opened : opening.kind = .commentBegin) (closed : closing.kind = .commentEnd)
    (more : Operands looped tokens rest given) :
    Operands looped (opening :: closing :: tokens) rest given
  | operand {tokens middle rest : List Token} {argument : Argument} {given : List Argument}
    (first : Operand looped tokens middle argument) (more : Operands looped middle rest given) :
    Operands looped tokens rest (argument :: given)

inductive Call (looped : Bool) : List Token → List Token → Action → Prop
  | line {tokens middle behind rest : List Token} {module : Option String} {name : String}
    {given : List Argument} (spelled : Name tokens middle module name)
    (operands : Operands looped middle behind given) (ended : LineEnd behind rest) :
    Call looped tokens rest (.call name module given)

def isBound : Argument → Bool
  | .string _ | .address _ => false
  | .number _ | .named _ _ | .iterator => true

structure Bound (looped : Bool) (tokens rest : List Token) (argument : Argument) : Prop where
  operand : Operand looped tokens rest argument
  numeric : isBound argument = true

/-- A statement between two depths of loops. -/
inductive Line : Nat → List Token → List Token → Action → Nat → Prop
  | call {depth : Nat} {tokens rest : List Token} {action : Action}
    (called : Call (0 < depth) tokens rest action) : Line depth tokens rest action depth
  | inlineC {depth : Nat} {block : Token} {rest : List Token} (seen : block.kind = .inlineC) :
    Line depth (block :: rest) rest (.inlineC block.literal) depth
  | label {depth : Nat} {word colon : Token} {behind rest : List Token}
    (seen : word.kind = .identifier) (marked : colon.kind = .colon)
    (free : word.literal ∉ Parser.reservedLabels) (ended : LineEnd behind rest) :
    Line depth (word :: colon :: behind) rest (.label word.literal) depth
  | jump {depth : Nat} {word target : Token} {which : Jump} {behind rest : List Token}
    (seen : word.kind = .jump which) (aimed : target.kind = .identifier)
    (ended : LineEnd behind rest) :
    Line depth (word :: target :: behind) rest (.jump which target.literal) depth
  | takeLocal {depth : Nat} {word name : Token} {behind rest : List Token}
    (seen : word.kind = .localWord) (named : name.kind = .identifier)
    (ended : LineEnd behind rest) :
    Line depth (word :: name :: behind) rest (.takeLocal name.literal) depth
  | reduce {depth : Nat} {word name : Token} {reduction : Reduction} {behind rest : List Token}
    (seen : word.kind = .reduceWord) (named : name.kind = .identifier)
    (chosen : Reduction.ofName? name.literal = some reduction) (ended : LineEnd behind rest) :
    Line depth (word :: name :: behind) rest (.reduce reduction) depth
  | leave {depth : Nat} {word : Token} {behind rest : List Token}
    (seen : word.kind = .returnWord) (ended : LineEnd behind rest) :
    Line depth (word :: behind) rest .leave depth
  | pushIterator {depth : Nat} {word : Token} {behind rest : List Token}
    (seen : word.kind = .dollar) (inside : 0 < depth) (ended : LineEnd behind rest) :
    Line depth (word :: behind) rest .pushIterator depth
  | breakLoop {depth : Nat} {word : Token} {behind rest : List Token}
    (seen : word.kind = .breakWord) (inside : 0 < depth) (ended : LineEnd behind rest) :
    Line depth (word :: behind) rest .breakLoop depth
  | continueLoop {depth : Nat} {word : Token} {behind rest : List Token}
    (seen : word.kind = .continueWord) (inside : 0 < depth) (ended : LineEnd behind rest) :
    Line depth (word :: behind) rest .continueLoop depth
  | countedLoop {depth : Nat} {word : Token} {atStart atStep atStop behind rest : List Token}
    {start step stop : Argument} (seen : word.kind = .forWord)
    (started : Bound (0 < depth) atStart atStep start)
    (stepped : Bound (0 < depth) atStep atStop step)
    (stopped : Bound (0 < depth) atStop behind stop) (ended : LineEnd behind rest) :
    Line depth (word :: atStart) rest (.countedLoop start step stop) (depth + 1)
  | endlessLoop {depth : Nat} {word : Token} {behind rest : List Token}
    (seen : word.kind = .loopWord) (ended : LineEnd behind rest) :
    Line depth (word :: behind) rest .endlessLoop (depth + 1)
  | endLoop {depth : Nat} {word : Token} {behind rest : List Token}
    (seen : word.kind = .endWord) (ended : LineEnd behind rest) :
    Line (depth + 1) (word :: behind) rest .endLoop depth

open StackLang.Parser (BodyItem BodyStep)

inductive Item : Nat → List Token → List Token → BodyItem → Nat → Prop
  | plain {depth inner : Nat} {tokens rest : List Token} {statement : Statement}
    (line : Line depth tokens rest statement.action inner) :
    Item depth tokens rest (.plain statement) inner
  | deferred {depth : Nat} {word : Token} {tokens rest : List Token} {statement : Statement}
    (seen : word.kind = .deferWord) (called : Call false tokens rest statement.action) :
    Item depth (word :: tokens) rest (.deferred statement) depth

/-- The inside of a body with its closing brace, behind which no loop is open. -/
inductive Body : Nat → List Token → List Token → List BodyItem → Prop
  | close {brace : Token} {rest : List Token} (seen : brace.kind = .rightBrace) :
    Body 0 (brace :: rest) rest []
  | blank {depth : Nat} {tokens middle rest : List Token} {items : List BodyItem}
    (skipped : Blank tokens middle) (more : Body depth middle rest items) :
    Body depth tokens rest items
  | item {depth inner : Nat} {tokens middle rest : List Token} {item : BodyItem}
    {items : List BodyItem} (first : Item depth tokens middle item inner)
    (more : Body inner middle rest items) : Body depth tokens rest (item :: items)

inductive Parameters : List Token → List Token → List String → Prop
  | close {token : Token} {rest : List Token} (seen : token.kind = .rightParen) :
    Parameters (token :: rest) rest []
  | blank {token : Token} {tokens rest : List Token} {names : List String}
    (seen : token.kind = .newLine ∨ token.kind = .comma) (more : Parameters tokens rest names) :
    Parameters (token :: tokens) rest names
  | name {token : Token} {tokens rest : List Token} {names : List String}
    (seen : token.kind = .identifier) (more : Parameters tokens rest names) :
    Parameters (token :: tokens) rest (token.literal :: names)

inductive NewLines : List Token → List Token → Prop
  | done {rest : List Token} : NewLines rest rest
  | newLine {token : Token} {tokens rest : List Token} (seen : token.kind = .newLine)
    (more : NewLines tokens rest) : NewLines (token :: tokens) rest

inductive Declaration : List Token → List Token → List Statement → Prop
  | blank {tokens rest : List Token} (skipped : Blank tokens rest) : Declaration tokens rest []
  | use {word module : Token} {rest : List Token} {span : Span} (seen : word.kind = .useWord)
    (found : module.kind = .module) :
    Declaration (word :: module :: rest) rest
      [⟨.importModule ⟨⟨module.literal⟩, moduleName ⟨module.literal⟩⟩, span⟩]
  | constant {word name number : Token} {rest : List Token} {span : Span}
    (seen : word.kind = .constWord) (named : name.kind = .identifier)
    (valued : number.kind = .number) :
    Declaration (word :: name :: number :: rest) rest
      [⟨.constant name.literal number.literal, span⟩]
  | inlineC {block : Token} {rest : List Token} {span : Span} (seen : block.kind = .inlineC) :
    Declaration (block :: rest) rest [⟨.inlineC block.literal, span⟩]
  | function {word name opening brace : Token} {atNames behindNames inside rest : List Token}
    {names : List String} {items : List BodyItem} {declared defined : Span}
    (seen : word.kind = .fnWord) (named : name.kind = .identifier)
    (opened : opening.kind = .leftParen) (taken : Parameters atNames behindNames names)
    (skipped : NewLines behindNames (brace :: inside)) (entered : brace.kind = .leftBrace)
    (body : Body 0 inside rest items) :
    Declaration (word :: name :: opening :: atNames) rest
      [⟨.function name.literal names, declared⟩, ⟨.body (Parser.replay [] items), defined⟩]

/-- Nothing but an end of input is next. -/
def Finished (tokens : List Token) : Prop := ∀ token ∈ tokens.head?, token.kind = .endOfInput

/-- Declarations up to the first end of input, behind which anything can stand. -/
inductive File : List Token → List Statement → Prop
  | done {tokens : List Token} (finished : Finished tokens) : File tokens []
  | declaration {tokens middle : List Token} {statements others : List Statement}
    (first : Declaration tokens middle statements) (more : File middle others) :
    File tokens (statements ++ others)

end StackLang.Grammar
