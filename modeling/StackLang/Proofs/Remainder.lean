import StackLang.Proofs.Parsing
import StackLang.Proofs.Scanning

/-! What is left of the tokens behind a shape of the grammar is an end of what stood before it. The
tokens of a file hold an end of input in their last place only, so a file is read to its last
token. -/
namespace StackLang

namespace Grammar

variable {tokens rest : List Token}

theorem LineEnd.suffix (ended : LineEnd tokens rest) : rest <:+ tokens := by
  cases ended with
  | newLine => exact List.suffix_cons _ _
  | brace => exact List.suffix_rfl

theorem Blank.suffix (skipped : Blank tokens rest) : rest <:+ tokens := by
  cases skipped with
  | newLine => exact List.suffix_cons _ _
  | comment => exact List.suffix_append [_, _] _

theorem Name.suffix {module : Option String} {name : String}
    (spelled : Name tokens rest module name) : rest <:+ tokens := by
  cases spelled with
  | plain => exact List.suffix_cons _ _
  | qualified => exact List.suffix_append [_, _, _] _

theorem Operand.suffix {looped : Bool} {argument : Argument}
    (operand : Operand looped tokens rest argument) : rest <:+ tokens := by
  cases operand with
  | named spelled => exact spelled.suffix
  | address => exact List.suffix_append [_, _] _
  | number | string | iterator => exact List.suffix_cons _ _

theorem Operands.suffix {looped : Bool} {given : List Argument}
    (operands : Operands looped tokens rest given) : rest <:+ tokens := by
  induction operands with
  | done => exact List.suffix_rfl
  | comma _ _ ih => exact ih.trans (List.suffix_cons _ _)
  | comment _ _ _ ih => exact ih.trans (List.suffix_append [_, _] _)
  | operand first _ ih => exact ih.trans first.suffix

theorem Call.suffix {looped : Bool} {action : Action} (called : Call looped tokens rest action) :
    rest <:+ tokens := by
  obtain ⟨spelled, operands, ended⟩ := called
  exact ended.suffix.trans (operands.suffix.trans spelled.suffix)

theorem Line.suffix {depth inner : Nat} {action : Action}
    (line : Line depth tokens rest action inner) : rest <:+ tokens := by
  cases line with
  | call called => exact called.suffix
  | inlineC => exact List.suffix_cons _ _
  | countedLoop _ started stepped stopped ended =>
    have bounds := stopped.operand.suffix.trans
      (stepped.operand.suffix.trans started.operand.suffix)
    exact ended.suffix.trans (bounds.trans (List.suffix_cons _ _))
  | label _ _ _ ended | jump _ _ ended | takeLocal _ _ ended | reduce _ _ _ ended =>
    exact ended.suffix.trans (List.suffix_append [_, _] _)
  | leave _ ended | pushIterator _ _ ended | breakLoop _ _ ended | continueLoop _ _ ended
  | endlessLoop _ ended | endLoop _ ended =>
    exact ended.suffix.trans (List.suffix_cons _ _)

theorem Item.suffix {depth inner : Nat} {item : Parser.BodyItem}
    (read : Item depth tokens rest item inner) : rest <:+ tokens := by
  cases read with
  | plain line => exact line.suffix
  | deferred _ called => exact called.suffix.trans (List.suffix_cons _ _)

theorem Body.suffix {depth : Nat} {items : List Parser.BodyItem}
    (body : Body depth tokens rest items) : rest <:+ tokens := by
  induction body with
  | close => exact List.suffix_cons _ _
  | blank skipped _ ih => exact ih.trans skipped.suffix
  | item first _ ih => exact ih.trans first.suffix

theorem Parameters.suffix {names : List String} (taken : Parameters tokens rest names) :
    rest <:+ tokens := by
  induction taken with
  | close => exact List.suffix_cons _ _
  | blank _ _ ih | name _ _ ih => exact ih.trans (List.suffix_cons _ _)

theorem NewLines.suffix (skipped : NewLines tokens rest) : rest <:+ tokens := by
  induction skipped with
  | done => exact List.suffix_rfl
  | newLine _ _ ih => exact ih.trans (List.suffix_cons _ _)

theorem Declaration.suffix {statements : List Statement}
    (declared : Declaration tokens rest statements) : rest <:+ tokens := by
  cases declared with
  | blank skipped => exact skipped.suffix
  | use => exact List.suffix_append [_, _] _
  | constant => exact List.suffix_append [_, _, _] _
  | inlineC => exact List.suffix_cons _ _
  | function _ _ _ taken skipped _ body =>
    have inside := body.suffix.trans ((List.suffix_cons _ _).trans skipped.suffix)
    exact inside.trans (taken.suffix.trans (List.suffix_append [_, _, _] _))

end Grammar

/-- An end of input stands in the last place, if anywhere. -/
def EndsLast (tokens : List Token) : Prop := ∀ token ∈ tokens.dropLast, token.kind ≠ .endOfInput

theorem EndsLast.suffix {tokens rest : List Token} (ends : EndsLast tokens)
    (behind : rest <:+ tokens) : EndsLast rest := by
  obtain ⟨front, rfl⟩ := behind
  intro token member
  apply ends
  have more : rest ≠ [] := by
    rintro rfl
    cases member
  rw [List.dropLast_append_of_ne_nil more]
  exact List.mem_append_right _ member

/-- Where nothing but an end of input is next, nothing is behind it. -/
theorem EndsLast.finished {tokens : List Token} (ends : EndsLast tokens)
    (finished : Grammar.Finished tokens) :
    tokens = [] ∨ ∃ last : Token, last.kind = .endOfInput ∧ tokens = [last] := by
  match tokens with
  | [] => exact .inl rfl
  | [last] => exact .inr ⟨last, finished last rfl, rfl⟩
  | first :: second :: rest => exact absurd (finished first rfl) (ends first (by simp))

namespace Scanner

theorem next_ne_endOfInput {scanner behind : Scanner} {files : Files} {token : Token}
    (found : scanner.next files = (.ok (some token), behind)) : token.kind ≠ .endOfInput := by
  rcases next_cases found with closing | ⟨_, _, _, _, read, _⟩ | ⟨_, _, _, _, imported, _⟩
  · simp [closing]
  · exact (Lexeme.spelled_of_read read).kind_ne.1
  · simp [imported]

end Scanner

namespace TokenStream

theorem endsLast_ofBytes {files : Files} {search later : Search} {path : Path}
    {bytes : List UInt8} {stream : TokenStream}
    (scanned : ofBytes files search path bytes = (.ok stream, later)) :
    EndsLast stream.tokens := by
  obtain ⟨tokens, last, split, _, inside⟩ :=
    ofBytes_keeps (fun _ => True) (fun token => token.kind ≠ .endOfInput)
      (fun _ _ _ _ found => ⟨Scanner.next_ne_endOfInput found, trivial⟩) (fun _ => trivial) scanned
  intro token member
  rw [split, List.dropLast_concat] at member
  exact inside token member

end TokenStream

end StackLang
