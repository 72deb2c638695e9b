import StackLang.Proofs.Discovery
import StackLang.Proofs.Relexing

/-! Imports as the scanner and as the parser see them. The scanner makes a file of the name behind
`use` and remembers the file; the parser makes an import of every such token. Nowhere else does a
token stand for a file, and no such token is left out, so the files that were looked for are those
that the tree imports. -/
namespace StackLang

open Text (Position slice?)

def modulesOf (tokens : List Token) : List Path :=
  (tokens.filter fun token => token.kind = .module).map fun token => ⟨token.literal⟩

theorem modulesOf_append (front back : List Token) :
    modulesOf (front ++ back) = modulesOf front ++ modulesOf back := by
  simp [modulesOf]

@[simp]
theorem modulesOf_cons_of_ne {token : Token} (other : token.kind ≠ .module) (tokens : List Token) :
    modulesOf (token :: tokens) = modulesOf tokens := by
  simp [modulesOf, other]

@[simp]
theorem modulesOf_cons_of_eq {token : Token} (imported : token.kind = .module)
    (tokens : List Token) : modulesOf (token :: tokens) = ⟨token.literal⟩ :: modulesOf tokens := by
  simp [modulesOf, imported]

/-! ### Tokens behind `use` -/

/-- Tokens of which only the ones behind `use` are files, and these are no longer names. The first
one stands behind `use` if a file is awaited. -/
inductive Awaited : Bool → List Token → Prop
  | done {awaiting : Bool} : Awaited awaiting []
  | token {awaiting : Bool} {token : Token} {tokens : List Token}
    (announced : token.kind = .module → awaiting = true)
    (settled : awaiting = true → token.kind ∉ [.string, .identifier, .commentEnd])
    (more : Awaited (token.kind == .useWord) tokens) : Awaited awaiting (token :: tokens)

/-- What a token is told by is the token directly before it. -/
theorem Awaited.announced {awaiting : Bool} {front back : List Token} {token : Token}
    (awaited : Awaited awaiting (front ++ token :: back)) :
    (token.kind = .module →
        (front.getLast?.map fun before => before.kind == .useWord).getD awaiting = true) ∧
      ((front.getLast?.map fun before => before.kind == .useWord).getD awaiting = true →
        token.kind ∉ [.string, .identifier, .commentEnd]) := by
  induction front generalizing awaiting with
  | nil =>
    cases awaited with
    | token announced settled => exact ⟨announced, settled⟩
  | cons before front ih =>
    cases awaited with
    | token _ _ more =>
      have later := ih more
      rw [List.getLast?_cons]
      cases last : front.getLast? <;> rw [last] at later <;> exact later

namespace Scanner

variable {scanner behind finished : Scanner} {files : Files} {token settled : Token}

/-- A string or a word becomes a file if one is awaited, and every other token stays. A file is
awaited behind `use` only. -/
theorem settle_awaiting (lexeme : token.kind ≠ .module)
    (done : scanner.settle files token = (.ok settled, finished)) :
    finished.awaiting = (settled.kind == .useWord) ∧
      (settled.kind = .module → scanner.awaiting = true) ∧
      (scanner.awaiting = true → settled.kind ∉ [.string, .identifier]) ∧
      finished.imports = scanner.imports ++ modulesOf [settled] := by
  unfold settle at done
  dsimp only at done
  split at done
  · next importing =>
    cases done
    simp [importing, modulesOf]
  · next other =>
    split at done
    · next idle =>
      cases done
      simp_all [modulesOf]
    · next awaiting =>
      split at done
      · next named =>
        split at done
        · cases done
          simp_all [modulesOf]
        · cases done
      · next unnamed =>
        cases done
        simp_all [modulesOf]

/-- What a step does about imports. In a comment no file is awaited. -/
structure Marks (scanner : Scanner) (token : Token) (behind : Scanner) : Prop where
  calm : behind.commented = true → behind.awaiting = false
  awaiting : behind.awaiting = (token.kind == .useWord)
  announced : token.kind = .module → scanner.awaiting = true
  settled : scanner.awaiting = true → token.kind ∉ [.string, .identifier, .commentEnd]
  imports : behind.imports = scanner.imports ++ modulesOf [token]

theorem marks_of_next (calm : scanner.commented = true → scanner.awaiting = false)
    (found : scanner.next files = (.ok (some token), behind)) : scanner.Marks token behind := by
  cases commented : scanner.commented with
  | true =>
    have idle := calm commented
    rw [next, if_pos commented] at found
    dsimp only [commentEnd] at found
    split at found
    · cases found
    · cases found
      refine ⟨fun _ => idle, idle, ?_, ?_, ?_⟩
      · intro imported
        cases imported
      · intro awaiting
        rw [idle] at awaiting
        cases awaiting
      · exact (List.append_nil _).symm
  | false =>
    obtain ⟨first, more, kind, literal, extent, starts, read, done⟩ := next_lexeme commented found
    have lexeme := (Lexeme.spelled_of_read read).kind_ne.2
    have outside := Lexeme.read_ne_commentEnd read
    obtain ⟨awaiting, announced, settled, imports⟩ := settle_awaiting lexeme done
    have kept := settle_keeps done
    -- Settling leaves a token its kind, or makes it a file.
    have kinds : token.kind = kind ∨ token.kind = .module := by
      rcases settle_cases done with ⟨rfl, _⟩ | ⟨_, _, _, rfl⟩
      · exact .inl rfl
      · exact .inr rfl
    refine ⟨?_, awaiting, announced, ?_, imports⟩
    · intro entered
      rw [kept] at entered
      have opening : kind = .commentBegin := by simpa using entered
      rw [awaiting]
      rcases kinds with same | imported
      · rw [same, opening]
        rfl
      · rw [imported]
        rfl
    · intro awaited
      have unnamed := settled awaited
      rcases kinds with same | imported
      · rw [← same] at outside
        simp only [List.mem_cons, List.not_mem_nil, or_false, not_or] at unnamed ⊢
        exact ⟨unnamed.1, unnamed.2, outside⟩
      · rw [imported]
        decide

theorem imports_of_none (found : scanner.next files = (.ok none, behind)) :
    behind.imports = scanner.imports := by
  unfold next at found
  split at found
  · dsimp only [commentEnd] at found
    split at found <;> cases found
    rfl
  · dsimp only at found
    split at found
    · cases found
      rfl
    · repeat' split at found
      all_goals cases found

end Scanner

namespace TokenStream

theorem awaited_of_scanAll {files : Files} {scanner behind : Scanner} {tokens : List Token}
    (calm : scanner.commented = true → scanner.awaiting = false)
    (scanned : scanAll files scanner = (.ok tokens, behind)) :
    Awaited scanner.awaiting (tokens ++ [⟨.endOfInput, "", .point behind.here⟩]) ∧
      behind.imports = scanner.imports ++ modulesOf tokens := by
  fun_induction scanAll files scanner generalizing tokens behind with
  | case1 => cases scanned
  | case2 scanner last found =>
    cases scanned
    refine ⟨.token (by simp) (by simp) .done, ?_⟩
    exact (Scanner.imports_of_none found).trans (List.append_nil _).symm
  | case3 => cases scanned
  | case4 scanner token rest found more finished others ih =>
    cases scanned
    have marks := Scanner.marks_of_next calm found
    obtain ⟨awaited, imports⟩ := ih marks.calm others
    rw [marks.awaiting] at awaited
    refine ⟨.token marks.announced marks.settled awaited, ?_⟩
    rw [imports, marks.imports, List.append_assoc, ← modulesOf_append]
    rfl

theorem awaited_of_ofBytes {files : Files} {search later : Search} {path : Path}
    {bytes : List UInt8} {stream : TokenStream}
    (scanned : ofBytes files search path bytes = (.ok stream, later)) :
    Awaited false stream.tokens ∧ stream.imports = modulesOf stream.tokens := by
  unfold ofBytes at scanned
  split at scanned
  · cases scanned
  · unfold ofText at scanned
    split at scanned
    · cases scanned
    · next tokens behind all =>
      cases scanned
      obtain ⟨awaited, imports⟩ := awaited_of_scanAll (by simp [Scanner.ofText]) all
      refine ⟨awaited, ?_⟩
      rw [imports, modulesOf_append]
      exact (List.append_nil _).symm

/-! ### Names read on their own -/

/-- A text is one token, whatever scanner reads it. -/
def ReadsAs (lexeme : List Char) (kind : TokenKind) (literal : String) : Prop :=
  ∀ files search path, ∃ span behind,
    scanAll files (.ofText path lexeme search) = (.ok [⟨kind, literal, span⟩], behind)

/-- The text under a token is one token on its own. -/
def Spells (text : List Char) (token : Token) (kind : TokenKind) (literal : String) : Prop :=
  ∃ lexeme, slice? text token.span.start.offset token.span.stop.offset = some lexeme ∧
    ReadsAs lexeme kind literal

theorem readsAs_of_spelled {kind : TokenKind} {lexeme literal : List Char}
    (spelled : Lexeme.Spelled kind lexeme literal) (nonempty : lexeme ≠ [])
    (outside : kind ≠ .commentEnd) : ReadsAs lexeme kind (String.ofList literal) := by
  intro files search path
  obtain ⟨behind, scanned⟩ := scanAll_lexeme spelled nonempty outside files search path
  exact ⟨_, behind, scanned⟩

theorem ReadsAs.unique {lexeme : List Char} {kind other : TokenKind} {literal spelling : String}
    (reads : ReadsAs lexeme kind literal) (reads' : ReadsAs lexeme other spelling) :
    kind = other ∧ literal = spelling := by
  obtain ⟨_, _, scanned⟩ := reads ⟨[], []⟩ ⟨[], []⟩ ⟨""⟩
  obtain ⟨_, _, scanned'⟩ := reads' ⟨[], []⟩ ⟨[], []⟩ ⟨""⟩
  rw [scanned] at scanned'
  cases scanned'
  exact ⟨rfl, rfl⟩

theorem ReadsAs.ne_nil {lexeme : List Char} {kind : TokenKind} {literal : String}
    (reads : ReadsAs lexeme kind literal) : lexeme ≠ [] := by
  rintro rfl
  obtain ⟨_, _, scanned⟩ := reads ⟨[], []⟩ ⟨[], []⟩ ⟨""⟩
  have ended : (Scanner.ofText ⟨""⟩ [] ⟨[], []⟩).rest = [] := rfl
  obtain ⟨behind, nothing⟩ := Scanner.next_of_rest ended ⟨[], []⟩
  rw [scanAll_eq, nothing] at scanned
  cases scanned

section Tiled

variable {files : Files} {search : Search} {path : Path} {text : List Char} {place : Nat}
  {commented : Bool} {tokens : List Token} {token : Token}

theorem not_spells_of_endOfInput {means : Token → List Char → Prop}
    (tiled : Tiled means text place commented tokens) (member : token ∈ tokens)
    (ended : token.kind = .endOfInput) (kind : TokenKind) (literal : String) :
    ¬Spells text token kind literal := by
  rintro ⟨lexeme, cut, reads⟩
  -- An end of input covers no characters, and nothing is read from none.
  have width := Text.lt_of_slice? cut reads.ne_nil
  induction tiled with
  | ended _ _ _ start stop =>
    rw [List.mem_singleton.mp member, start, stop] at width
    exact Nat.lt_irrefl _ width
  | token _ inside _ _ _ _ ih =>
    rcases List.mem_cons.mp member with rfl | later
    · exact inside ended
    · exact ih later

/-- A token is what its text is on its own, or the file that this names. -/
theorem cases_of_spells (tiled : Tiled (Means files search path) text place commented tokens)
    (member : token ∈ tokens) (outside : token.kind ≠ .commentEnd) {kind : TokenKind}
    {literal : String} (spells : Spells text token kind literal) :
    (token.kind ≠ .module ∧ token.kind = kind) ∨ token.kind = .module ∧
      ∃ file, (search.resolve files path literal).1 = .ok file ∧ token.literal = file.text := by
  have inside : token.kind ≠ .endOfInput :=
    fun ended => not_spells_of_endOfInput tiled member ended kind literal spells
  obtain ⟨lexeme, cut, reads⟩ := spells
  obtain ⟨same, nonempty, covers, meaning⟩ := tiled.covers token member inside
  rw [cut] at covers
  cases covers
  cases meaning with
  | lexeme spelled =>
    exact .inl ⟨spelled.kind_ne.2, ((readsAs_of_spelled spelled nonempty outside).unique reads).1⟩
  | @module name file named spelled found imported said =>
    have other : name ≠ .commentEnd := by
      rcases named with rfl | rfl <;> decide
    have same := ((readsAs_of_spelled spelled nonempty other).unique reads).2
    rw [same] at found
    exact .inr ⟨imported, file, found, said⟩

theorem spells_of_module (tiled : Tiled (Means files search path) text place commented tokens)
    (member : token ∈ tokens) (imported : token.kind = .module) :
    ∃ kind literal, Spells text token kind literal ∧ (kind = .string ∨ kind = .identifier) := by
  obtain ⟨lexeme, nonempty, covers, meaning⟩ := tiled.covers token member (by simp [imported])
  cases meaning with
  | lexeme spelled => exact absurd imported spelled.kind_ne.2
  | @module name file named spelled =>
    have outside : name ≠ .commentEnd := by
      rcases named with rfl | rfl <;> decide
    exact ⟨name, _, ⟨lexeme, covers, readsAs_of_spelled spelled nonempty outside⟩, named⟩

end Tiled

end TokenStream

/-! ### Tokens of a tree -/

namespace Grammar

variable {tokens rest : List Token}

theorem LineEnd.modulesOf_eq (ended : LineEnd tokens rest) : modulesOf tokens = modulesOf rest := by
  cases ended with
  | newLine seen => simp [seen]
  | brace => rfl

theorem Blank.modulesOf_eq (skipped : Blank tokens rest) : modulesOf tokens = modulesOf rest := by
  cases skipped with
  | newLine seen => simp [seen]
  | comment opened closed => simp [opened, closed]

theorem Name.modulesOf_eq {module : Option String} {name : String}
    (spelled : Name tokens rest module name) : modulesOf tokens = modulesOf rest := by
  cases spelled with
  | plain seen => simp [seen]
  | qualified qualifier separated seen => simp [qualifier, separated, seen]

theorem Operand.modulesOf_eq {looped : Bool} {argument : Argument}
    (operand : Operand looped tokens rest argument) : modulesOf tokens = modulesOf rest := by
  cases operand with
  | named spelled => exact spelled.modulesOf_eq
  | address marked seen => simp [marked, seen]
  | number seen | string seen | iterator seen => simp [seen]

theorem Operands.modulesOf_eq {looped : Bool} {given : List Argument}
    (operands : Operands looped tokens rest given) : modulesOf tokens = modulesOf rest := by
  induction operands with
  | done => rfl
  | comma seen _ ih => simp [seen, ih]
  | comment opened closed _ ih => simp [opened, closed, ih]
  | operand first _ ih => exact first.modulesOf_eq.trans ih

theorem Call.modulesOf_eq {looped : Bool} {action : Action}
    (called : Call looped tokens rest action) : modulesOf tokens = modulesOf rest := by
  obtain ⟨spelled, operands, ended⟩ := called
  exact spelled.modulesOf_eq.trans (operands.modulesOf_eq.trans ended.modulesOf_eq)

theorem Line.modulesOf_eq {depth inner : Nat} {action : Action}
    (line : Line depth tokens rest action inner) : modulesOf tokens = modulesOf rest := by
  cases line with
  | call called => exact called.modulesOf_eq
  | inlineC seen => simp [seen]
  | countedLoop seen started stepped stopped ended =>
    simp [seen, started.operand.modulesOf_eq, stepped.operand.modulesOf_eq,
      stopped.operand.modulesOf_eq, ended.modulesOf_eq]
  | label seen second _ ended | jump seen second ended | takeLocal seen second ended
  | reduce seen second _ ended => simp [seen, second, ended.modulesOf_eq]
  | leave seen ended | pushIterator seen _ ended | breakLoop seen _ ended
  | continueLoop seen _ ended | endlessLoop seen ended | endLoop seen ended =>
    simp [seen, ended.modulesOf_eq]

theorem Item.modulesOf_eq {depth inner : Nat} {item : Parser.BodyItem}
    (read : Item depth tokens rest item inner) : modulesOf tokens = modulesOf rest := by
  cases read with
  | plain line => exact line.modulesOf_eq
  | deferred seen called => simp [seen, called.modulesOf_eq]

theorem Body.modulesOf_eq {depth : Nat} {items : List Parser.BodyItem}
    (body : Body depth tokens rest items) : modulesOf tokens = modulesOf rest := by
  induction body with
  | close seen => simp [seen]
  | blank skipped _ ih => exact skipped.modulesOf_eq.trans ih
  | item first _ ih => exact first.modulesOf_eq.trans ih

theorem Parameters.modulesOf_eq {names : List String} (taken : Parameters tokens rest names) :
    modulesOf tokens = modulesOf rest := by
  induction taken with
  | close seen => simp [seen]
  | blank seen _ ih => rcases seen with seen | seen <;> simp [seen, ih]
  | name seen _ ih => simp [seen, ih]

theorem NewLines.modulesOf_eq (skipped : NewLines tokens rest) :
    modulesOf tokens = modulesOf rest := by
  induction skipped with
  | done => rfl
  | newLine seen _ ih => simp [seen, ih]

/-- A declaration imports the files among its tokens. -/
theorem Declaration.modulesOf_eq {statements : List Statement}
    (declared : Declaration tokens rest statements) :
    modulesOf tokens = (importsOf statements).map (·.path) ++ modulesOf rest := by
  cases declared with
  | blank skipped => exact skipped.modulesOf_eq
  | use seen found => simp [seen, found, importsOf, Statement.import?]
  | constant seen named valued => simp [seen, named, valued, importsOf, Statement.import?]
  | inlineC seen => simp [seen, importsOf, Statement.import?]
  | function seen named opened taken skipped entered body =>
    simp [seen, named, opened, taken.modulesOf_eq, skipped.modulesOf_eq, entered,
      body.modulesOf_eq, importsOf, Statement.import?]

theorem File.modulesOf_eq {statements : List Statement} (file : File tokens statements)
    (ends : EndsLast tokens) : modulesOf tokens = (importsOf statements).map (·.path) := by
  induction file with
  | done finished =>
    rcases ends.finished finished with rfl | ⟨last, kind, rfl⟩
    · rfl
    · simp [kind, importsOf, StackLang.modulesOf]
  | declaration first _ ih =>
    rw [first.modulesOf_eq, ih (ends.suffix first.suffix)]
    simp [importsOf]

end Grammar

theorem SourceTree.imports_eq {path : Path} {tokens : List Token} {tree : SourceTree}
    (ends : EndsLast tokens) (parsed : SourceTree.parse path tokens = .ok tree) :
    tree.imports = (modulesOf tokens).map fun file => ⟨file, moduleName file⟩ := by
  have same : ∀ target ∈ tree.imports,
      (⟨target.path, moduleName target.path⟩ : Import) = target := by
    intro target among
    obtain ⟨token, _, _, rfl⟩ := (SourceTree.parse_named parsed).2 target among
    rfl
  rw [(file_of_parse parsed).modulesOf_eq ends, ← SourceTree.imports_of_parse parsed, List.map_map]
  exact ((List.map_congr_left same).trans (List.map_id _)).symm

/-- A module imported as a word and as a string, and a constant that has its name. -/
def importingText : List UInt8 := "use tool\nuse \"tool\"// tool\nconst tool 3\n".toUTF8.toList

end StackLang
