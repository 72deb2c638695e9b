import StackLang.Proofs.Scanning

/-! The identifiers of C code. A text without strings and comments is read a word at a time; where two
texts meet, no word is joined if one of them ends or starts with a sign, and no identifier is read
from a number. -/
namespace StackLang

open Lexeme (isDigit isWordPart isWordStart)

/-! ### Identifiers of a text -/

/-- A word of C, and whether it is applied: whether a parenthesis stands directly behind it. -/
structure Identifier where
  name : String
  applied : Bool
  deriving DecidableEq, Repr

/-- What the reading of a text has come to. -/
inductive Run where
  | gap
  | word (read : List Char)
  | number

def isNumberPart (c : Char) : Bool := isWordPart c || c == '.'

def identifiersFrom : Run → List Char → List Identifier
  | .gap, [] => []
  | .number, [] => []
  | .word read, [] => [⟨String.ofList read.reverse, false⟩]
  | .gap, c :: rest =>
    if isWordStart c then identifiersFrom (.word [c]) rest
    else identifiersFrom (if isDigit c then .number else .gap) rest
  | .number, c :: rest => identifiersFrom (if isNumberPart c then .number else .gap) rest
  | .word read, c :: rest =>
    if isWordPart c then identifiersFrom (.word (c :: read)) rest
    else ⟨String.ofList read.reverse, c == '('⟩ :: identifiersFrom .gap rest

theorem identifiersFrom_gap (c : Char) (rest : List Char) :
    identifiersFrom .gap (c :: rest) =
      if isWordStart c then identifiersFrom (.word [c]) rest
      else identifiersFrom (if isDigit c then .number else .gap) rest := rfl

theorem identifiersFrom_inNumber (c : Char) (rest : List Char) :
    identifiersFrom .number (c :: rest) =
      identifiersFrom (if isNumberPart c then .number else .gap) rest := rfl

theorem identifiersFrom_inWord (read : List Char) (c : Char) (rest : List Char) :
    identifiersFrom (.word read) (c :: rest) =
      if isWordPart c then identifiersFrom (.word (c :: read)) rest
      else ⟨String.ofList read.reverse, c == '('⟩ :: identifiersFrom .gap rest := rfl

/-- The identifiers of a text without strings and comments, in order. A number is none, and the
letters in it are not either. -/
def identifiers (text : String) : List Identifier := identifiersFrom .gap text.toList

theorem isWordPart_of_isNumberPart_eq_false {c : Char} (breaks : isNumberPart c = false) :
    isWordPart c = false := by
  simp only [isNumberPart, Bool.or_eq_false_iff] at breaks
  exact breaks.1

theorem isWordStart_of_isNumberPart_eq_false {c : Char} (breaks : isNumberPart c = false) :
    isWordStart c = false := by
  have part := isWordPart_of_isNumberPart_eq_false breaks
  cases starts : isWordStart c with
  | false => rfl
  | true => rw [Lexeme.isWordPart_of_isWordStart starts] at part; cases part

theorem isDigit_of_isNumberPart_eq_false {c : Char} (breaks : isNumberPart c = false) :
    isDigit c = false := by
  have part := isWordPart_of_isNumberPart_eq_false breaks
  simp only [isWordPart, Char.isAlphanum, Bool.or_eq_false_iff] at part
  exact part.1.2

/-- A character that no word and no number has parts the identifiers before it from those behind. -/
theorem identifiersFrom_append (run : Run) (front back : List Char) {c : Char}
    (breaks : isNumberPart c = false) :
    identifiersFrom run (front ++ c :: back) =
      identifiersFrom run (front ++ [c]) ++ identifiersFrom .gap back := by
  induction front generalizing run with
  | nil =>
    cases run with
    | gap =>
      simp only [List.nil_append, identifiersFrom_gap, isWordStart_of_isNumberPart_eq_false breaks,
        isDigit_of_isNumberPart_eq_false breaks]
      rfl
    | number =>
      simp only [List.nil_append, identifiersFrom_inNumber, breaks]
      rfl
    | word read =>
      simp only [List.nil_append, identifiersFrom_inWord,
        isWordPart_of_isNumberPart_eq_false breaks]
      rfl
  | cons first front ih =>
    cases run with
    | gap =>
      simp only [List.cons_append, identifiersFrom_gap]
      split
      · exact ih _
      · exact ih _
    | number => exact ih _
    | word read =>
      simp only [List.cons_append, identifiersFrom_inWord]
      split
      · exact ih _
      · rw [ih, List.cons_append]

theorem identifiersFrom_concat (run : Run) (text : List Char) {c : Char}
    (breaks : isNumberPart c = false) (plain : c ≠ '(') :
    identifiersFrom run (text ++ [c]) = identifiersFrom run text := by
  induction text generalizing run with
  | nil =>
    cases run with
    | gap =>
      rw [List.nil_append, identifiersFrom_gap, isWordStart_of_isNumberPart_eq_false breaks,
        isDigit_of_isNumberPart_eq_false breaks]
      rfl
    | number =>
      rw [List.nil_append, identifiersFrom_inNumber, breaks]
      rfl
    | word read =>
      rw [List.nil_append, identifiersFrom_inWord, isWordPart_of_isNumberPart_eq_false breaks,
        beq_false_of_ne plain]
      rfl
  | cons first text ih =>
    cases run with
    | gap =>
      simp only [List.cons_append, identifiersFrom_gap]
      split
      · exact ih _
      · exact ih _
    | number => exact ih _
    | word read =>
      simp only [List.cons_append, identifiersFrom_inWord]
      split
      · exact ih _
      · rw [ih]

/-- Whether a text ends a word or a number that stands in front of its end. -/
def endsApart (text : String) : Bool := text.toList.getLast?.any fun c => !isNumberPart c

/-- Whether a text ends a word or a number that stands in front of it, and does not apply it. -/
def startsApart (text : String) : Bool := text.toList.head?.any fun c => !isNumberPart c && c != '('

theorem endsApart_append (front : String) {back : String} (ends : endsApart back = true) :
    endsApart (front ++ back) = true := by
  simp only [endsApart, Option.any_eq_true, String.toList_append] at ends ⊢
  obtain ⟨c, last, breaks⟩ := ends
  exact ⟨c, by rw [List.getLast?_append, last]; rfl, breaks⟩

theorem identifiers_append {front : String} (ends : endsApart front = true) (back : String) :
    identifiers (front ++ back) = identifiers front ++ identifiers back := by
  simp only [endsApart, Option.any_eq_true, Bool.not_eq_true'] at ends
  obtain ⟨c, last, breaks⟩ := ends
  obtain ⟨before, spelled⟩ := List.getLast?_eq_some_iff.mp last
  rw [identifiers, identifiers, String.toList_append, spelled, List.append_assoc,
    List.singleton_append, identifiersFrom_append _ _ _ breaks]
  rfl

theorem identifiers_append_of_startsApart (front : String) {back : String}
    (ends : startsApart back = true) :
    identifiers (front ++ back) = identifiers front ++ identifiers back := by
  simp only [startsApart, Option.any_eq_true, Bool.and_eq_true, Bool.not_eq_true',
    bne_iff_ne] at ends
  obtain ⟨c, first, breaks, plain⟩ := ends
  obtain ⟨behind, spelled⟩ := List.head?_eq_some_iff.mp first
  have skipped : identifiersFrom .gap (c :: behind) = identifiersFrom .gap behind := by
    rw [identifiersFrom_gap, isWordStart_of_isNumberPart_eq_false breaks,
      isDigit_of_isNumberPart_eq_false breaks]
    rfl
  rw [identifiers, identifiers, identifiers, String.toList_append, spelled, skipped,
    identifiersFrom_append _ _ _ breaks, identifiersFrom_concat _ _ breaks plain]

/-- Whether a text parts what stands around it, and has no identifier itself. -/
def silent (text : String) : Bool :=
  startsApart text && endsApart text && (identifiers text).isEmpty

theorem identifiers_before (front : String) {back : String} (quiet : silent back = true) :
    identifiers (front ++ back) = identifiers front := by
  simp only [silent, Bool.and_eq_true, List.isEmpty_iff] at quiet
  rw [identifiers_append_of_startsApart front quiet.1.1, quiet.2, List.append_nil]

theorem identifiers_around (front : String) {middle : String} (quiet : silent middle = true)
    (back : String) :
    identifiers (front ++ middle ++ back) = identifiers front ++ identifiers back := by
  have before := identifiers_before front quiet
  simp only [silent, Bool.and_eq_true] at quiet
  rw [identifiers_append (endsApart_append front quiet.1.2), before]

theorem identifiers_intercalate (first : String) (texts : List String) :
    identifiers (", ".intercalate (first :: texts)) =
      identifiers first ++ texts.flatMap identifiers := by
  induction texts generalizing first with
  | nil => simp [String.intercalate_singleton]
  | cons second texts ih =>
    rw [String.intercalate_cons_cons, identifiers_around first rfl, ih, List.flatMap_cons]

/-! ### Numbers -/

theorem identifiersFrom_number {digits : List Char} (counted : ∀ c ∈ digits, isDigit c = true)
    (rest : List Char) :
    identifiersFrom .number (digits ++ rest) = identifiersFrom .number rest := by
  induction digits with
  | nil => rfl
  | cons c digits ih =>
    obtain ⟨digit, others⟩ := List.forall_mem_cons.mp counted
    have part : isNumberPart c = true := by simp [isNumberPart, Lexeme.isWordPart_of_isDigit digit]
    rw [List.cons_append, identifiersFrom_inNumber, part]
    exact ih others

theorem identifiersFrom_digits {digits : List Char} (some : digits ≠ [])
    (counted : ∀ c ∈ digits, isDigit c = true) (rest : List Char) :
    identifiersFrom .gap (digits ++ rest) = identifiersFrom .number rest := by
  obtain ⟨c, digits, rfl⟩ := List.exists_cons_of_ne_nil some
  obtain ⟨digit, others⟩ := List.forall_mem_cons.mp counted
  have unstarted : isWordStart c = false := by
    cases starts : isWordStart c with
    | false => rfl
    | true => rw [Lexeme.not_isDigit_of_isWordStart starts] at digit; cases digit
  rw [List.cons_append, identifiersFrom_gap, unstarted, digit]
  exact identifiersFrom_number others rest

theorem identifiersFrom_exponent {power : List Char} (raised : Lexeme.Exponent power) :
    identifiersFrom .number power = [] := by
  cases raised with
  | none => rfl
  | @power mark signs digits marked signed some counted =>
    have part : isNumberPart mark = true := by rcases marked with rfl | rfl <;> rfl
    have unsigned := identifiersFrom_number counted []
    have behind := identifiersFrom_digits some counted []
    rw [List.append_nil] at unsigned behind
    rw [identifiersFrom_inNumber, part]
    rcases signed with rfl | rfl | rfl
    · exact unsigned
    · exact behind
    · exact behind

theorem identifiers_of_numeral {literal : String} (numeral : Lexeme.Numeral literal.toList) :
    identifiers literal = [] := by
  unfold identifiers
  generalize literal.toList = text at numeral
  cases numeral with
  | @parts minus whole part power signed some counted pointed raised =>
    have behind : identifiersFrom .number (part ++ power) = [] := by
      have powered := identifiersFrom_exponent raised
      cases pointed with
      | none => exact powered
      | point places => exact (identifiersFrom_number places power).trans powered
    have unsigned : identifiersFrom .gap (whole ++ (part ++ power)) = [] :=
      (identifiersFrom_digits some counted _).trans behind
    rcases signed with rfl | rfl
    · exact unsigned
    · exact unsigned

theorem identifiers_toString (value : Nat) : identifiers (toString value) = [] := by
  have counted : ∀ c ∈ (toString value).toList, isDigit c = true :=
    fun _ member => Lexeme.isDigit_of_mem_toString member
  unfold identifiers
  generalize (toString value).toList = digits at counted
  by_cases none : digits = []
  · rw [none]
    rfl
  · rw [← List.append_nil digits, identifiersFrom_digits none counted]
    rfl

/-! ### Words -/

def Identifier.text (identifier : Identifier) : String :=
  if identifier.applied then identifier.name ++ "(" else identifier.name

def isWord (text : String) : Bool :=
  match text.toList with
  | [] => false
  | first :: tail => isWordStart first && tail.all isWordPart

theorem isWord_iff {text : String} : isWord text = true ↔
    ∃ first tail, text.toList = first :: tail ∧ isWordStart first = true ∧
      ∀ c ∈ tail, isWordPart c = true := by
  unfold isWord
  split
  · next empty => simp [empty]
  · next first tail spelled => simp [spelled]

theorem isWord_of_isIdentifier {name : String} (named : Lexeme.isIdentifier name = true) :
    isWord name = true := by
  unfold Lexeme.isIdentifier at named
  split at named
  · cases named
  · next first tail spelled =>
    simp only [Bool.and_eq_true, List.all_eq_true] at named
    exact isWord_iff.mpr ⟨first, tail, spelled, named.1.1⟩

theorem isWord_append {front back : String} (word : isWord front = true)
    (continues : ∀ c ∈ back.toList, isWordPart c = true) : isWord (front ++ back) = true := by
  obtain ⟨first, tail, spelled, starts, others⟩ := isWord_iff.mp word
  refine isWord_iff.mpr ⟨first, tail ++ back.toList, ?_, starts, ?_⟩
  · rw [String.toList_append, spelled, List.cons_append]
  · exact List.forall_mem_append.mpr ⟨others, continues⟩

theorem identifiersFrom_word {rest : List Char} (continues : ∀ c ∈ rest, isWordPart c = true)
    (read behind : List Char) :
    identifiersFrom (.word read) (rest ++ behind) =
      identifiersFrom (.word (rest.reverse ++ read)) behind := by
  induction rest generalizing read with
  | nil => rfl
  | cons c rest ih =>
    obtain ⟨part, others⟩ := List.forall_mem_cons.mp continues
    rw [List.cons_append, identifiersFrom_inWord, if_pos part, ih others, List.reverse_cons,
      List.append_assoc, List.singleton_append]

theorem Identifier.identifiers_text {identifier : Identifier}
    (word : isWord identifier.name = true) :
    identifiers identifier.text = [identifier] := by
  obtain ⟨name, applied⟩ := identifier
  obtain ⟨first, tail, spelled, starts, continues⟩ := isWord_iff.mp word
  dsimp only at spelled
  have whole : String.ofList (tail.reverse ++ [first]).reverse = name := by
    apply String.toList_inj.mp
    simp [spelled]
  have begins (behind : List Char) : identifiersFrom .gap (first :: tail ++ behind) =
      identifiersFrom (.word (tail.reverse ++ [first])) behind := by
    rw [List.cons_append, identifiersFrom_gap, if_pos starts, identifiersFrom_word continues]
  rw [← whole]
  cases applied with
  | false =>
    have plain := begins []
    rw [List.append_nil, ← spelled, ← whole] at plain
    exact plain
  | true =>
    have called := begins ['(']
    rw [← spelled, ← whole] at called
    rw [Identifier.text, if_pos rfl, identifiers, String.toList_append]
    exact called

end StackLang
