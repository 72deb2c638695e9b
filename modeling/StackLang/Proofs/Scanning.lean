import StackLang.Proofs.Lexemes
import StackLang.Proofs.Outcome
import StackLang.SourceUnit

/-! What the scanner makes of a text, and a unit of a file. A token that is an identifier spells
one. -/
namespace StackLang

namespace Lexeme

/-- Whether a word can be a name: no word of the language, and not the one before C code. -/
def isIdentifier (word : String) : Bool :=
  match word.toList with
  | [] => false
  | first :: tail =>
    isWordStart first && tail.all isWordPart && (TokenKind.ofKeyword? word).isNone && word != "__c"

theorem isWordPart_of_isIdentifier {word : String} (named : isIdentifier word = true) {c : Char}
    (member : c ∈ word.toList) : isWordPart c = true := by
  unfold isIdentifier at named
  split at named
  · cases named
  · next first tail spelled =>
    simp only [Bool.and_eq_true, List.all_eq_true] at named
    rw [spelled] at member
    rcases List.mem_cons.mp member with rfl | later
    · exact isWordPart_of_isWordStart named.1.1.1
    · exact named.1.1.2 c later

theorem Spelled.isIdentifier {lexeme literal : List Char}
    (spelled : Spelled .identifier lexeme literal) :
    isIdentifier (String.ofList literal) = true := by
  obtain ⟨other, free, first, tail, rfl, starts, continues⟩ := spelled.told
  have parts : tail.all isWordPart = true := List.all_eq_true.mpr continues
  simp only [Lexeme.isIdentifier, String.toList_ofList, starts, parts, free, Option.isNone_none,
    Bool.and_self, Bool.true_and, bne_iff_ne]
  exact other

end Lexeme

namespace Scanner

/-- An awaited name becomes the file it means, and any other token stays as it is. -/
theorem settle_cases {scanner finished : Scanner} {files : Files} {token settled : Token}
    (done : scanner.settle files token = (.ok settled, finished)) :
    (settled = token ∧ finished.search = scanner.search) ∨ ∃ file,
      (token.kind = .string ∨ token.kind = .identifier) ∧
        scanner.search.resolve files scanner.path token.literal = (.ok file, finished.search) ∧
        settled = ⟨.module, file.text, token.span⟩ := by
  unfold settle at done
  dsimp only at done
  split at done
  · cases done; exact .inl ⟨rfl, rfl⟩
  · split at done
    · cases done; exact .inl ⟨rfl, rfl⟩
    · split at done
      · next named =>
        split at done
        · next file search resolved =>
          cases done
          exact .inr ⟨file, by simpa using named, resolved, rfl⟩
        · cases done
      · cases done; exact .inl ⟨rfl, rfl⟩

/-- A token is the end of a comment, a lexeme of the text, or a file that is imported. -/
theorem next_cases {scanner behind : Scanner} {files : Files} {token : Token}
    (found : scanner.next files = (.ok (some token), behind)) :
    token.kind = .commentEnd ∨
      (∃ first text literal extent, Lexeme.read first text = .token token.kind literal extent ∧
        token.literal = String.ofList literal) ∨
      ∃ name file later, scanner.search.resolve files scanner.path name = (.ok file, later) ∧
        token.kind = .module ∧ token.literal = file.text := by
  unfold next at found
  split at found
  · dsimp only [commentEnd] at found
    split at found <;> cases found
    exact .inl rfl
  · dsimp only at found
    split at found
    · cases found
    · next first text started =>
      cases read : Lexeme.read first text with
      | failure => rw [read] at found; cases found
      | token kind literal extent =>
        rw [read] at found
        dsimp only [take] at found
        split at found
        · cases found
        · next settled finished done =>
          cases found
          rcases settle_cases done with ⟨rfl, _⟩ | ⟨file, _, resolved, rfl⟩
          · exact .inr (.inl ⟨first, text, literal, extent, read, rfl⟩)
          · exact .inr (.inr ⟨_, file, _, resolved, rfl, rfl⟩)

theorem next_identifier {scanner behind : Scanner} {files : Files} {token : Token}
    (found : scanner.next files = (.ok (some token), behind)) (named : token.kind = .identifier) :
    Lexeme.isIdentifier token.literal = true := by
  rcases next_cases found with closing | ⟨_, _, _, _, read, spelled⟩ | ⟨_, _, _, _, imported, _⟩
  · rw [closing] at named; cases named
  · rw [named] at read
    rw [spelled]
    exact (Lexeme.spelled_of_read read).isIdentifier
  · rw [imported] at named; cases named

end Scanner

namespace TokenStream

/-- What every step of a scanner keeps holds of all tokens. -/
theorem scanAll_keeps {files : Files} {kept : Scanner → Prop} {holds : Token → Prop}
    (keeps : ∀ before token behind, kept before → before.next files = (.ok (some token), behind) →
      holds token ∧ kept behind)
    {scanner behind : Scanner} {tokens : List Token} (begun : kept scanner)
    (scanned : scanAll files scanner = (.ok tokens, behind)) : ∀ token ∈ tokens, holds token := by
  fun_induction scanAll files scanner generalizing tokens behind with
  | case1 => cases scanned
  | case2 => cases scanned; simp
  | case3 => cases scanned
  | case4 scanner token rest found more finished others ih =>
    cases scanned
    obtain ⟨here, later⟩ := keeps scanner token rest begun found
    exact List.forall_mem_cons.mpr ⟨here, ih later others⟩

/-- The tokens of a file are those that were scanned and an end of input behind them. -/
theorem ofBytes_keeps {files : Files} (kept : Scanner → Prop) (holds : Token → Prop)
    (keeps : ∀ before token behind, kept before → before.next files = (.ok (some token), behind) →
      holds token ∧ kept behind)
    {search later : Search} {path : Path} {bytes : List UInt8} {stream : TokenStream}
    (begun : ∀ text, kept (.ofText path text search))
    (scanned : ofBytes files search path bytes = (.ok stream, later)) :
    ∃ tokens last, stream.tokens = tokens ++ [last] ∧ last.kind = .endOfInput ∧
      ∀ token ∈ tokens, holds token := by
  unfold ofBytes at scanned
  split at scanned
  · cases scanned
  · unfold ofText at scanned
    split at scanned
    · cases scanned
    · next tokens behind all =>
      cases scanned
      exact ⟨tokens, _, rfl, rfl, scanAll_keeps keeps (begun _) all⟩

theorem ofBytes_identifier {files : Files} {search later : Search} {path : Path}
    {bytes : List UInt8} {stream : TokenStream}
    (scanned : ofBytes files search path bytes = (.ok stream, later)) :
    ∀ token ∈ stream.tokens, token.kind = .identifier →
      Lexeme.isIdentifier token.literal = true := by
  obtain ⟨tokens, last, split, ended, spelled⟩ :=
    ofBytes_keeps (fun _ => True)
      (fun token => token.kind = .identifier → Lexeme.isIdentifier token.literal = true)
      (fun _ _ _ _ found => ⟨Scanner.next_identifier found, trivial⟩) (fun _ => trivial) scanned
  intro token member named
  rw [split] at member
  rcases List.mem_append.mp member with inside | behind
  · exact spelled token inside named
  · rw [List.mem_singleton.mp behind, ended] at named
    cases named

end TokenStream

/-- A unit that is read keeps what it was asked for by, and its tree is that of its tokens. -/
theorem SourceUnit.compile_ok {blank unit : SourceUnit} {files : Files} {search later : Search}
    {content : List UInt8} {imports : List Path}
    (done : blank.compile files search content = (.ok (unit, imports), later)) :
    ∃ tree stream, TokenStream.ofBytes files search blank.path content = (.ok stream, later) ∧
      SourceTree.parse blank.path stream.tokens = .ok tree ∧
      unit = { blank with tokens := stream.tokens, tree := some tree } := by
  obtain ⟨read, behind⟩ := Prod.mk.inj done
  obtain ⟨stream, scanned, read⟩ := Outcome.bind_ok read
  obtain ⟨tree, parsed, read⟩ := Outcome.bind_ok read
  cases read
  exact ⟨tree, stream, Prod.ext scanned behind, parsed, rfl⟩

end StackLang
