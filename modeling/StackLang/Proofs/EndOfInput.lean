import StackLang.Proofs.Acceptance

/-! The tokens that the parser looks at. A shape of the grammar holds no end of input, so it stays
what it is if something is changed behind the first one; and the parser accepts exactly the lists
whose tokens in front of the first end of input have the shape of a file. -/
namespace StackLang

/-- A change of lists of tokens that keeps every token but an end of input in its place. -/
def KeepsTokens (change : List Token → List Token) : Prop :=
  ∀ (token : Token) (rest : List Token), token.kind ≠ .endOfInput →
    change (token :: rest) = token :: change rest

namespace Grammar

variable {change : List Token → List Token} {tokens rest : List Token}

theorem LineEnd.changed (keeps : KeepsTokens change) (ended : LineEnd tokens rest) :
    LineEnd (change tokens) (change rest) := by
  cases ended with
  | newLine seen =>
    rw [keeps _ _ (by simp [seen])]
    exact .newLine seen
  | brace seen =>
    rw [keeps _ _ (by simp [seen])]
    exact .brace seen

theorem Blank.changed (keeps : KeepsTokens change) (skipped : Blank tokens rest) :
    Blank (change tokens) (change rest) := by
  cases skipped with
  | newLine seen =>
    rw [keeps _ _ (by simp [seen])]
    exact .newLine seen
  | comment opened closed =>
    rw [keeps _ _ (by simp [opened]), keeps _ _ (by simp [closed])]
    exact .comment opened closed

theorem Name.changed {module : Option String} {name : String} (keeps : KeepsTokens change)
    (spelled : Name tokens rest module name) : Name (change tokens) (change rest) module name := by
  cases spelled with
  | plain seen =>
    rw [keeps _ _ (by simp [seen])]
    exact .plain seen
  | qualified qualifier separated seen =>
    rw [keeps _ _ (by simp [qualifier]), keeps _ _ (by simp [separated]),
      keeps _ _ (by simp [seen])]
    exact .qualified qualifier separated seen

theorem Operand.changed {looped : Bool} {argument : Argument} (keeps : KeepsTokens change)
    (operand : Operand looped tokens rest argument) :
    Operand looped (change tokens) (change rest) argument := by
  cases operand with
  | number seen =>
    rw [keeps _ _ (by simp [seen])]
    exact .number seen
  | string seen =>
    rw [keeps _ _ (by simp [seen])]
    exact .string seen
  | named spelled => exact .named (spelled.changed keeps)
  | address marked seen =>
    rw [keeps _ _ (by simp [marked]), keeps _ _ (by simp [seen])]
    exact .address marked seen
  | iterator seen inside =>
    rw [keeps _ _ (by simp [seen])]
    exact .iterator seen inside

theorem Operands.changed {looped : Bool} {given : List Argument} (keeps : KeepsTokens change)
    (operands : Operands looped tokens rest given) :
    Operands looped (change tokens) (change rest) given := by
  induction operands with
  | done => exact .done
  | comma seen _ ih =>
    rw [keeps _ _ (by simp [seen])]
    exact .comma seen ih
  | comment opened closed _ ih =>
    rw [keeps _ _ (by simp [opened]), keeps _ _ (by simp [closed])]
    exact .comment opened closed ih
  | operand first _ ih => exact .operand (first.changed keeps) ih

theorem Call.changed {looped : Bool} {action : Action} (keeps : KeepsTokens change)
    (called : Call looped tokens rest action) :
    Call looped (change tokens) (change rest) action := by
  obtain ⟨spelled, operands, ended⟩ := called
  exact ⟨spelled.changed keeps, operands.changed keeps, ended.changed keeps⟩

theorem Bound.changed {looped : Bool} {argument : Argument} (keeps : KeepsTokens change)
    (bounded : Bound looped tokens rest argument) :
    Bound looped (change tokens) (change rest) argument :=
  ⟨bounded.operand.changed keeps, bounded.numeric⟩

theorem Line.changed {depth inner : Nat} {action : Action} (keeps : KeepsTokens change)
    (line : Line depth tokens rest action inner) :
    Line depth (change tokens) (change rest) action inner := by
  cases line with
  | call called => exact .call (called.changed keeps)
  | inlineC seen =>
    rw [keeps _ _ (by simp [seen])]
    exact .inlineC seen
  | label seen marked free ended =>
    rw [keeps _ _ (by simp [seen]), keeps _ _ (by simp [marked])]
    exact .label seen marked free (ended.changed keeps)
  | jump seen aimed ended =>
    rw [keeps _ _ (by simp [seen]), keeps _ _ (by simp [aimed])]
    exact .jump seen aimed (ended.changed keeps)
  | takeLocal seen named ended =>
    rw [keeps _ _ (by simp [seen]), keeps _ _ (by simp [named])]
    exact .takeLocal seen named (ended.changed keeps)
  | reduce seen named chosen ended =>
    rw [keeps _ _ (by simp [seen]), keeps _ _ (by simp [named])]
    exact .reduce seen named chosen (ended.changed keeps)
  | leave seen ended =>
    rw [keeps _ _ (by simp [seen])]
    exact .leave seen (ended.changed keeps)
  | pushIterator seen inside ended =>
    rw [keeps _ _ (by simp [seen])]
    exact .pushIterator seen inside (ended.changed keeps)
  | breakLoop seen inside ended =>
    rw [keeps _ _ (by simp [seen])]
    exact .breakLoop seen inside (ended.changed keeps)
  | continueLoop seen inside ended =>
    rw [keeps _ _ (by simp [seen])]
    exact .continueLoop seen inside (ended.changed keeps)
  | countedLoop seen started stepped stopped ended =>
    rw [keeps _ _ (by simp [seen])]
    exact .countedLoop seen (started.changed keeps) (stepped.changed keeps)
      (stopped.changed keeps) (ended.changed keeps)
  | endlessLoop seen ended =>
    rw [keeps _ _ (by simp [seen])]
    exact .endlessLoop seen (ended.changed keeps)
  | endLoop seen ended =>
    rw [keeps _ _ (by simp [seen])]
    exact .endLoop seen (ended.changed keeps)

theorem Item.changed {depth inner : Nat} {item : Parser.BodyItem} (keeps : KeepsTokens change)
    (read : Item depth tokens rest item inner) :
    Item depth (change tokens) (change rest) item inner := by
  cases read with
  | plain line => exact .plain (line.changed keeps)
  | deferred seen called =>
    rw [keeps _ _ (by simp [seen])]
    exact .deferred seen (called.changed keeps)

theorem Body.changed {depth : Nat} {items : List Parser.BodyItem} (keeps : KeepsTokens change)
    (body : Body depth tokens rest items) : Body depth (change tokens) (change rest) items := by
  induction body with
  | close seen =>
    rw [keeps _ _ (by simp [seen])]
    exact .close seen
  | blank skipped _ ih => exact .blank (skipped.changed keeps) ih
  | item first _ ih => exact .item (first.changed keeps) ih

theorem Parameters.changed {names : List String} (keeps : KeepsTokens change)
    (taken : Parameters tokens rest names) : Parameters (change tokens) (change rest) names := by
  induction taken with
  | close seen =>
    rw [keeps _ _ (by simp [seen])]
    exact .close seen
  | blank seen _ ih =>
    rw [keeps _ _ (by rcases seen with seen | seen <;> simp [seen])]
    exact .blank seen ih
  | name seen _ ih =>
    rw [keeps _ _ (by simp [seen])]
    exact .name seen ih

theorem NewLines.changed (keeps : KeepsTokens change) (skipped : NewLines tokens rest) :
    NewLines (change tokens) (change rest) := by
  induction skipped with
  | done => exact .done
  | newLine seen _ ih =>
    rw [keeps _ _ (by simp [seen])]
    exact .newLine seen ih

theorem Declaration.changed {statements : List Statement} (keeps : KeepsTokens change)
    (declared : Declaration tokens rest statements) :
    Declaration (change tokens) (change rest) statements := by
  cases declared with
  | blank skipped => exact .blank (skipped.changed keeps)
  | use seen found =>
    rw [keeps _ _ (by simp [seen]), keeps _ _ (by simp [found])]
    exact .use seen found
  | constant seen named valued =>
    rw [keeps _ _ (by simp [seen]), keeps _ _ (by simp [named]), keeps _ _ (by simp [valued])]
    exact .constant seen named valued
  | inlineC seen =>
    rw [keeps _ _ (by simp [seen])]
    exact .inlineC seen
  | function seen named opened taken skipped entered body =>
    have inside := skipped.changed keeps
    rw [keeps _ _ (by simp [entered])] at inside
    rw [keeps _ _ (by simp [seen]), keeps _ _ (by simp [named]), keeps _ _ (by simp [opened])]
    exact .function seen named opened (taken.changed keeps) inside entered (body.changed keeps)

theorem File.changed {statements : List Statement} (keeps : KeepsTokens change)
    (ends : ∀ tokens, Finished tokens → Finished (change tokens)) (file : File tokens statements) :
    File (change tokens) statements := by
  induction file with
  | done finished => exact .done (ends _ finished)
  | declaration first _ ih => exact .declaration (first.changed keeps) ih

end Grammar

def tokensBeforeEnd (tokens : List Token) : List Token :=
  tokens.takeWhile fun token => token.kind ≠ .endOfInput

theorem keepsTokens_tokensBeforeEnd : KeepsTokens tokensBeforeEnd := by
  intro token rest inside
  simp [tokensBeforeEnd, inside]

theorem keepsTokens_append (more : List Token) : KeepsTokens (· ++ more) :=
  fun _ _ _ => rfl

theorem tokensBeforeEnd_of_finished {tokens : List Token} (finished : Grammar.Finished tokens) :
    tokensBeforeEnd tokens = [] := by
  cases tokens with
  | nil => rfl
  | cons token rest =>
    have ended : token.kind = .endOfInput := finished token rfl
    simp [tokensBeforeEnd, ended]

theorem exists_tokensBeforeEnd_append (tokens : List Token) :
    ∃ more, Grammar.Finished more ∧ tokensBeforeEnd tokens ++ more = tokens := by
  refine ⟨tokens.dropWhile fun token => token.kind ≠ .endOfInput, ?_, List.takeWhile_append_dropWhile⟩
  intro token first
  have stopped := List.head?_dropWhile_not (fun token : Token => token.kind ≠ .endOfInput) tokens
  rw [Option.mem_def.mp first] at stopped
  simpa using stopped

theorem file_tokensBeforeEnd_iff (tokens : List Token) (statements : List Statement) :
    Grammar.File (tokensBeforeEnd tokens) statements ↔ Grammar.File tokens statements := by
  constructor
  · intro file
    obtain ⟨more, ended, parted⟩ := exists_tokensBeforeEnd_append tokens
    have ends : ∀ front, Grammar.Finished front → Grammar.Finished (front ++ more) := by
      intro front finished
      cases front with
      | nil => exact ended
      | cons token rest => exact finished
    have extended := file.changed (keepsTokens_append more) ends
    rwa [parted] at extended
  · intro file
    refine file.changed keepsTokens_tokensBeforeEnd fun front finished => ?_
    rw [tokensBeforeEnd_of_finished finished]
    simp [Grammar.Finished]

/-- A list of tokens is parsed exactly if its tokens in front of the first end of input are a file
of the grammar. -/
theorem tokens_are_parsed_iff_they_form_a_file (path : Path) (tokens : List Token) :
    (∃ tree, SourceTree.parse path tokens = .ok tree) ↔
      ∃ statements, Grammar.File (tokensBeforeEnd tokens) statements := by
  constructor
  · rintro ⟨tree, parsed⟩
    exact ⟨tree.statements, (file_tokensBeforeEnd_iff tokens _).mpr (file_of_parse parsed)⟩
  · rintro ⟨statements, file⟩
    exact parse_of_file ((file_tokensBeforeEnd_iff tokens statements).mp file)

end StackLang
