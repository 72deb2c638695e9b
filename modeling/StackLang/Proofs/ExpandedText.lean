import Mathlib.Algebra.Order.Ring.Int
import StackLang.Proofs.FileNames
import StackLang.Proofs.Tiling
import StackLang.Report.Diagnostic

/-! Characters that the scanner does not expect, and where they stand in the file. A text is a row
of parts: characters that stay, and directives that are replaced. The scanner counts its positions
behind the replacements, so a complaint is off by as much as the directives before it on its line
have grown. -/
namespace StackLang

open Text (Position Source splitAt)

/-! ### Lines of a text -/

namespace Text

theorem Position.through_of_inLine {run : List Char} (inLine : '\n' ∉ run) (place : Position) :
    (place.through run).line = place.line ∧
      (place.through run).column = place.column + run.length := by
  induction run generalizing place with
  | nil => exact ⟨rfl, rfl⟩
  | cons c run ih =>
    have other : c ≠ '\n' := fun lineEnd => inLine (lineEnd ▸ List.mem_cons_self)
    have later : '\n' ∉ run := fun member => inLine (List.mem_cons_of_mem c member)
    obtain ⟨line, column⟩ := ih later (place.past c)
    rw [Position.through_cons, line, column, Position.past, if_neg other]
    exact ⟨rfl, by simp only [List.length_cons]; omega⟩

theorem splitAt_cons_of_ne {mark c : Char} (other : c ≠ mark) (rest : List Char) :
    ∃ piece pieces, splitAt mark rest = piece :: pieces ∧
      splitAt mark (c :: rest) = (c :: piece) :: pieces := by
  cases split : splitAt mark rest with
  | nil => exact absurd split (splitAt_ne_nil mark rest)
  | cons piece pieces =>
    refine ⟨piece, pieces, rfl, ?_⟩
    rw [splitAt, if_neg other, split]

/-- A text goes on in the line that the text in front of it ends in. -/
theorem splitAt_append (front back : List Char) :
    ∃ above last piece pieces, splitAt '\n' back = piece :: pieces ∧
      splitAt '\n' (front ++ back) = above ++ (last ++ piece) :: pieces ∧
      front = above.flatMap (· ++ ['\n']) ++ last ∧
      (Position.start.through front).line = above.length + 1 ∧
      (Position.start.through front).column = last.length + 1 := by
  induction front using List.reverseRecOn generalizing back with
  | nil =>
    obtain ⟨piece, pieces, split⟩ := List.exists_cons_of_ne_nil (splitAt_ne_nil '\n' back)
    exact ⟨[], [], piece, pieces, split, split, rfl, rfl, rfl⟩
  | append_singleton front c ih =>
    rw [Position.through_append, List.append_assoc, List.singleton_append, Position.through_cons,
      Position.through_nil, Position.past]
    obtain ⟨above, last, piece, pieces, split, whole, parted, line, column⟩ := ih (c :: back)
    by_cases lineEnd : c = '\n'
    · subst lineEnd
      obtain ⟨piece', pieces', split'⟩ := List.exists_cons_of_ne_nil (splitAt_ne_nil '\n' back)
      rw [splitAt, if_pos rfl, split'] at split
      obtain ⟨rfl, rfl⟩ := List.cons.inj split
      refine ⟨above ++ [last], [], piece', pieces', split', ?_, ?_, ?_, ?_⟩
      · rw [whole]
        simp
      · rw [parted]
        simp
      · simp [line]
      · rfl
    · obtain ⟨piece', pieces', split', longer⟩ := splitAt_cons_of_ne lineEnd back
      rw [longer] at split
      obtain ⟨rfl, rfl⟩ := List.cons.inj split
      refine ⟨above, last ++ [c], piece', pieces', split', ?_, ?_, ?_, ?_⟩
      · rw [whole]
        simp
      · rw [parted, List.append_assoc]
      · simp [lineEnd, line]
      · simp [lineEnd, column]

/-- A character stands in the line and at the column that are reached in front of it. -/
theorem Source.line?_of_append (name : String) (front : List Char) {c : Char} (back : List Char)
    (inLine : c ≠ '\n') (visible : c ≠ '\r') :
    ∃ before after,
      (Source.mk name (String.ofList (front ++ c :: back))).line?
        (Position.start.through front).line = some (String.ofList (before ++ c :: after)) ∧
      (Position.start.through front).column = before.length + 1 := by
  obtain ⟨above, last, piece, pieces, split, whole, _, line, column⟩ :=
    splitAt_append front (c :: back)
  obtain ⟨after, _, _, longer⟩ := splitAt_cons_of_ne inLine back
  rw [longer] at split
  obtain ⟨rfl, rfl⟩ := List.cons.inj split
  -- Of the line only a carriage return at its end is left out, and the character is none.
  have shown : ∃ after', withoutReturn (last ++ c :: after) = last ++ c :: after' := by
    unfold withoutReturn
    split_ifs with ended
    · have some : after ≠ [] := by
        rintro rfl
        rw [List.getLast?_concat] at ended
        exact visible (Option.some.inj ended)
      refine ⟨after.dropLast, ?_⟩
      rw [List.dropLast_append_of_ne_nil (by simp), List.dropLast_cons_of_ne_nil some]
    · exact ⟨after, rfl⟩
  obtain ⟨after', shown⟩ := shown
  refine ⟨last, after', ?_, column⟩
  rw [line, Source.line?]
  simp [whole, shown]

end Text

/-! ### The parts of a text -/

namespace Expansion

def Directive.word : Directive → List Char
  | .line => "LINE".toList
  | .file => "FILE".toList

/-- A character that stays, or a directive on the line of a number. -/
inductive Part where
  | kept (c : Char)
  | replaced (directive : Directive) (number : Nat)
  deriving DecidableEq, Repr

namespace Part

def source : Part → List Char
  | .kept c => [c]
  | .replaced directive _ => '#' :: directive.word

def expanded (path : Path) : Part → List Char
  | .kept c => [c]
  | .replaced directive number => replacement path number directive

/-- How many characters longer a part gets. -/
def growth (path : Path) (part : Part) : Int :=
  (part.expanded path).length - part.source.length

end Part

def lineParts (number skipped : Nat) : List Char → List Part
  | [] => []
  | c :: rest =>
    match skipped with
    | fewer + 1 => lineParts number fewer rest
    | 0 =>
      if c = '#' then
        match directive? rest with
        | some directive => .replaced directive number :: lineParts number directive.extent rest
        | none => .kept c :: lineParts number 0 rest
      else .kept c :: lineParts number 0 rest

def partsFrom (number : Nat) : List (List Char) → List Part
  | [] => []
  | line :: lines => lineParts number 0 line ++ partsFrom (number + 1) lines

def parts (text : List Char) : List Part := partsFrom 1 (physicalLines text)

def lastLine (parts : List Part) : List Part :=
  (parts.reverse.takeWhile (· ≠ .kept '\n')).reverse

variable {path : Path}

theorem word_of_directive? {text : List Char} {directive : Directive}
    (starts : directive? text = some directive) :
    directive.word ++ text.drop directive.extent = text := by
  unfold directive? at starts
  split_ifs at starts with line file <;> cases starts
  · obtain ⟨rest, rfl⟩ := List.isPrefixOf_iff_prefix.mp (Bool.and_eq_true_iff.mp line).1
    rfl
  · obtain ⟨rest, rfl⟩ := List.isPrefixOf_iff_prefix.mp (Bool.and_eq_true_iff.mp file).1
    rfl

theorem source_lineParts (number skipped : Nat) (line : List Char) :
    (lineParts number skipped line).flatMap Part.source = line.drop skipped := by
  induction line generalizing skipped with
  | nil => cases skipped <;> rfl
  | cons c rest ih =>
    unfold lineParts
    split
    · rw [ih, List.drop_succ_cons]
    · have here := ih 0
      rw [List.drop_zero] at here ⊢
      split_ifs with sharp
      · split
        · next directive starts =>
          rw [List.flatMap_cons, ih, sharp]
          exact congrArg ('#' :: ·) (word_of_directive? starts)
        · exact congrArg (c :: ·) here
      · exact congrArg (c :: ·) here

theorem expanded_lineParts (path : Path) (number skipped : Nat) (line : List Char) :
    (lineParts number skipped line).flatMap (Part.expanded path) =
      expandLine path number skipped line := by
  fun_induction expandLine path number skipped line with
  | case1 => rw [lineParts, List.flatMap_nil]
  | case2 c rest fewer ih => exact ih
  | case3 rest directive starts ih =>
    simp only [lineParts, if_true, starts, List.flatMap_cons, ih]
    rfl
  | case4 rest starts ih =>
    simp only [lineParts, if_true, starts, List.flatMap_cons, ih]
    rfl
  | case5 c rest other ih =>
    simp only [lineParts, if_neg other, List.flatMap_cons, ih]
    rfl

theorem flatten_physicalLines (text : List Char) : (physicalLines text).flatten = text := by
  fun_induction physicalLines text with
  | case1 => rfl
  | case2 rest ih => exact congrArg ('\n' :: ·) ih
  | case3 c rest other none ih =>
    rw [none] at ih
    exact congrArg (c :: ·) ih
  | case4 c rest other line lines split ih =>
    rw [split] at ih
    exact congrArg (c :: ·) ih

theorem source_partsFrom (number : Nat) (lines : List (List Char)) :
    (partsFrom number lines).flatMap Part.source = lines.flatten := by
  induction lines generalizing number with
  | nil => rfl
  | cons line lines ih =>
    rw [partsFrom, List.flatMap_append, source_lineParts, ih, List.drop_zero, List.flatten_cons]

theorem expanded_partsFrom (path : Path) (number : Nat) (lines : List (List Char)) :
    (partsFrom number lines).flatMap (Part.expanded path) = expandLines path number lines := by
  induction lines generalizing number with
  | nil => rfl
  | cons line lines ih =>
    rw [partsFrom, List.flatMap_append, expanded_lineParts, ih, expandLines]

theorem source_parts (text : List Char) : (parts text).flatMap Part.source = text := by
  rw [parts, source_partsFrom, flatten_physicalLines]

theorem expanded_parts (path : Path) (text : List Char) :
    (parts text).flatMap (Part.expanded path) = expand path text :=
  expanded_partsFrom path 1 (physicalLines text)

/-- A character of a row of parts is a character of one of them. -/
theorem part_of_flatMap {spelled : Part → List Char} {parts : List Part} {front more : List Char}
    {c : Char} (whole : parts.flatMap spelled = front ++ c :: more) :
    ∃ before part behind shown rest, parts = before ++ part :: behind ∧
      spelled part = shown ++ c :: rest ∧ front = before.flatMap spelled ++ shown := by
  induction parts generalizing front with
  | nil => simp at whole
  | cons part parts ih =>
    rw [List.flatMap_cons, List.append_eq_append_iff] at whole
    rcases whole with ⟨later, rfl, others⟩ | ⟨later, here, others⟩
    · obtain ⟨before, part', behind, shown, rest, rfl, inside, rfl⟩ := ih others
      exact ⟨part :: before, part', behind, shown, rest, rfl, inside, by simp⟩
    · cases later with
      | nil =>
        obtain ⟨before, part', behind, shown, rest, rfl, inside, none⟩ :=
          @ih [] others.symm
        refine ⟨part :: before, part', behind, shown, rest, rfl, inside, ?_⟩
        rw [List.flatMap_cons, List.append_assoc, ← none, List.append_nil, here, List.append_nil]
      | cons first rest =>
        obtain ⟨rfl, _⟩ := List.cons.inj others
        exact ⟨[], part, parts, front, rest, rfl, here, rfl⟩

/-- Where one is behind a row of parts, if no line ends inside of a replacement. -/
theorem through_parts {spelled : Part → List Char} (kept : ∀ c, spelled (.kept c) = [c])
    (inLine : ∀ directive number, '\n' ∉ spelled (.replaced directive number))
    (parts : List Part) :
    (Position.start.through (parts.flatMap spelled)).line = parts.count (.kept '\n') + 1 ∧
      (Position.start.through (parts.flatMap spelled)).column =
        ((lastLine parts).flatMap spelled).length + 1 := by
  -- From the right, as the last line is what the last part belongs to.
  induction parts using List.reverseRecOn with
  | nil => exact ⟨rfl, rfl⟩
  | append_singleton parts part ih =>
    obtain ⟨line, column⟩ := ih
    rw [List.flatMap_append, List.flatMap_singleton, Position.through_append, List.count_append,
      lastLine, List.reverse_append, List.reverse_singleton, List.singleton_append]
    by_cases lineEnd : part = .kept '\n'
    · subst lineEnd
      rw [kept, List.takeWhile_cons_of_neg (by simp)]
      exact ⟨congrArg (· + 1) line, rfl⟩
    · have other : '\n' ∉ spelled part := by
        cases part with
        | kept c =>
          rw [kept, List.mem_singleton]
          rintro rfl
          exact lineEnd rfl
        | replaced directive number => exact inLine directive number
      obtain ⟨line', column'⟩ :=
        Position.through_of_inLine other (Position.start.through (parts.flatMap spelled))
      rw [List.takeWhile_cons_of_pos (by simpa using lineEnd), line', column', line, column,
        List.reverse_cons, List.flatMap_append, List.length_append, List.flatMap_singleton]
      refine ⟨?_, ?_⟩
      · simp [lineEnd]
      · rw [lastLine]
        omega

theorem inLine_source (directive : Directive) (number : Nat) :
    '\n' ∉ Part.source (.replaced directive number) := by
  change '\n' ∉ '#' :: directive.word
  cases directive <;> decide

theorem inLine_expanded (inLine : '\n' ∉ path.text.toList) (directive : Directive) (number : Nat) :
    '\n' ∉ Part.expanded path (.replaced directive number) := by
  cases directive with
  | line =>
    intro member
    exact absurd (Lexeme.isDigit_of_mem_toString member) (by decide)
  | file =>
    change '\n' ∉ literal path
    simp only [literal, List.cons_append, List.mem_cons, List.mem_append, List.mem_flatMap]
    rintro (quote | ⟨c, member, escaped⟩ | quote | none)
    · exact absurd quote (by decide)
    · split_ifs at escaped
      · obtain slash | rfl : '\n' = '\\' ∨ '\n' = c := by simpa using escaped
        · exact absurd slash (by decide)
        · exact inLine member
      · exact inLine (List.mem_singleton.mp escaped ▸ member)
    · exact absurd quote (by decide)
    · exact List.not_mem_nil none

theorem growth_parts (path : Path) (parts : List Part) :
    (((parts.flatMap (Part.expanded path)).length : Nat) : Int) =
      (parts.flatMap Part.source).length + (parts.map (Part.growth path)).sum := by
  induction parts with
  | nil => rfl
  | cons part parts ih =>
    simp only [List.flatMap_cons, List.length_append, List.map_cons, List.sum_cons, Part.growth]
    omega

/-- Replacements move what is behind them on their line. -/
theorem through_expanded {shown : List Char} (inLine : '\n' ∉ path.text.toList)
    (inLine' : '\n' ∉ shown) (parts : List Part) :
    let found := Position.start.through (parts.flatMap (Part.expanded path) ++ shown)
    let stands := Position.start.through (parts.flatMap Part.source)
    found.line = stands.line ∧ (found.column : Int) =
      stands.column + ((lastLine parts).map (Part.growth path)).sum + shown.length := by
  obtain ⟨line, column⟩ := through_parts (fun _ => rfl) (inLine_expanded inLine) parts
  obtain ⟨line', column'⟩ := through_parts (fun _ => rfl) inLine_source parts
  obtain ⟨same, moved⟩ := Position.through_of_inLine inLine'
    (Position.start.through (parts.flatMap (Part.expanded path)))
  have growth := growth_parts path (lastLine parts)
  intro found stands
  rw [← Position.through_append] at same moved
  constructor
  · exact same.trans (line.trans line'.symm)
  · rw [show found.column = _ from moved, show stands.column = _ from column', column]
    push_cast
    omega

end Expansion

/-! ### Complaints about characters -/

namespace Lexeme

/-- A character that is neither skipped nor ends a line nor belongs to a number. -/
structure Stray (c : Char) : Prop where
  notBlank : isBlank c = false
  inLine : c ≠ '\n'
  noDigit : isDigit c = false

theorem not_isBlank_behind_blanks {text rest : List Char} {c : Char}
    (parted : blanks false text ++ c :: rest = text) : isBlank c = false := by
  induction text with
  | nil => simp at parted
  | cons first text ih =>
    rw [blanks, if_neg Bool.false_ne_true] at parted
    split_ifs at parted with blank comment
    · exact ih (List.cons.inj parted).2
    · obtain ⟨behind, whole, _, ends⟩ := blanks_comment text
      have skipped : blanks true text ++ c :: rest = text := (List.cons.inj parted).2
      obtain rfl : c :: rest = behind := List.append_cancel_left (skipped.trans whole.symm)
      obtain rfl : c = '\n' := by simpa using ends
      rfl
    · obtain ⟨rfl, _⟩ := List.cons.inj parted
      exact Bool.eq_false_iff.mpr blank

theorem readWord_ne_unexpected (first c : Char) (text : List Char) (extent : Nat) :
    readWord first text ≠ .failure (.unexpectedCharacter c) extent := by
  have inlineC (text : List Char) (extent : Nat) :
      readInlineC text ≠ .failure (.unexpectedCharacter c) extent := by
    unfold readInlineC
    dsimp only
    repeat' split
    all_goals simp
  intro failed
  unfold readWord at failed
  dsimp only at failed
  split at failed
  · cases read : readInlineC (text.drop (wordTail text).length) with
    | token => rw [read] at failed; cases failed
    | failure complaint count =>
      rw [read] at failed
      cases failed
      exact inlineC _ _ read
  · cases failed

theorem read_unexpected {first c : Char} {text : List Char} {extent : Nat}
    (failed : read first text = .failure (.unexpectedCharacter c) extent) :
    first = c ∧ c ≠ '\n' ∧ isDigit c = false := by
  unfold read at failed
  split at failed
  · cases failed
  · next other =>
    split_ifs at failed with colon double comment number quote word
    · cases failed
    · cases failed
    · exact absurd failed (readWord_ne_unexpected first c text extent)
    · cases failed
      refine ⟨rfl, ?_, ?_⟩
      · rintro rfl
        exact absurd other (by decide)
      · rw [Bool.or_eq_true, not_or] at number
        exact Bool.eq_false_iff.mpr number.1

end Lexeme

namespace Expansion

variable {path : Path} {c : Char}

/-- A stray character of the expanded text has stayed, or stands in the path of the file. -/
theorem part_of_stray {part : Part} {shown rest : List Char} (stray : Lexeme.Stray c)
    (inside : part.expanded path = shown ++ c :: rest) :
    part = .kept c ∧ shown = [] ∨ ∃ number, part = .replaced .file number := by
  cases part with
  | kept other =>
    change [other] = shown ++ c :: rest at inside
    cases shown with
    | nil =>
      obtain ⟨rfl, _⟩ := List.cons.inj inside
      exact .inl ⟨rfl, rfl⟩
    | cons first shown => simp at inside
  | replaced directive number =>
    cases directive with
    | file => exact .inr ⟨number, rfl⟩
    | line =>
      change (toString number).toList = shown ++ c :: rest at inside
      have digit : Lexeme.isDigit c = true := by
        apply Lexeme.isDigit_of_mem_toString
        rw [inside]
        exact List.mem_append_right shown List.mem_cons_self
      rw [stray.noDigit] at digit
      cases digit

/-- A stray character that has stayed is in the line of the file, behind what is in front of it. -/
theorem line?_of_kept {source : List Char} {front back : List Part} (stray : Lexeme.Stray c)
    (split : parts source = front ++ .kept c :: back) (name : String) :
    let stands := Position.start.through (front.flatMap Part.source)
    ∃ before after, (Source.mk name (String.ofList source)).line? stands.line =
        some (String.ofList (before ++ c :: after)) ∧ stands.column = before.length + 1 := by
  have text : source = front.flatMap Part.source ++ c :: back.flatMap Part.source := by
    rw [← source_parts source, split, List.flatMap_append, List.flatMap_cons]
    rfl
  have visible : c ≠ '\r' := by
    rintro rfl
    exact absurd stray.notBlank (by decide)
  rw [text]
  exact Source.line?_of_append name _ _ stray.inLine visible

end Expansion

namespace Scanner

variable {files : Files} {scanner behind : Scanner} {error : SyntaxError} {c : Char}

theorem settle_ne_unexpected {token : Token}
    (failed : scanner.settle files token = (.error error, behind)) :
    error.complaint ≠ .unexpectedCharacter c := by
  unfold settle at failed
  dsimp only at failed
  repeat' split at failed
  all_goals cases failed
  simp [SyntaxError.atSpan]

/-- A scanner complains about a character where it starts to read it. -/
theorem next_unexpected (failed : scanner.next files = (.error error, behind))
    (about : error.complaint = .unexpectedCharacter c) :
    ∃ more, scanner.started.rest = c :: more ∧ Lexeme.Stray c ∧
      error = .atSpan (.unexpectedCharacter c) scanner.path (.point scanner.started.here) := by
  cases commented : scanner.commented with
  | true =>
    rw [next, if_pos commented] at failed
    cases failed
  | false =>
    rw [next, commented, if_neg Bool.false_ne_true] at failed
    dsimp only at failed
    split at failed
    · cases failed
    · next first more starts =>
      cases read : Lexeme.read first more with
      | failure complaint extent =>
        rw [read] at failed
        cases failed
        obtain rfl : complaint = .unexpectedCharacter c := about
        obtain ⟨rfl, inLine, noDigit⟩ := Lexeme.read_unexpected read
        obtain ⟨rest, parted, _⟩ := Lexeme.blanks_gap scanner.rest
        obtain rfl : rest = first :: more :=
          (Lexeme.drop_length_of_append parted).symm.trans starts
        exact ⟨more, starts, ⟨Lexeme.not_isBlank_behind_blanks parted, inLine, noDigit⟩, rfl⟩
      | token kind literal extent =>
        rw [read] at failed
        dsimp only [take] at failed
        split at failed
        · next unsettled =>
          cases failed
          exact absurd about (settle_ne_unexpected unsettled)
        · cases failed

end Scanner

namespace TokenStream

open Expansion

variable {files : Files} {search later : Search} {path : Path} {error : SyntaxError} {c : Char}

/-- Scanning ends with a complaint about a character at the position of the character. -/
theorem scanAll_unexpected {text : List Char} {scanner behind : Scanner}
    (reaches : scanner.Reaches files search path text)
    (failed : scanAll files scanner = (.error error, behind))
    (about : error.complaint = .unexpectedCharacter c) :
    ∃ front more, text = front ++ c :: more ∧ Lexeme.Stray c ∧
      error = .atSpan (.unexpectedCharacter c) path (.point (Position.start.through front)) := by
  fun_induction scanAll files scanner generalizing behind with
  | case1 scanner error' last found =>
    cases failed
    obtain ⟨more, starts, stray, stands⟩ := Scanner.next_unexpected found about
    obtain ⟨front, parted, here⟩ := reaches.started.place
    rw [starts] at parted
    rw [here, reaches.file] at stands
    exact ⟨front, more, parted.symm, stray, stands⟩
  | case2 => cases failed
  | case3 scanner token rest found error' finished others ih =>
    cases failed
    exact ih (reaches.finds found).reaches others
  | case4 => cases failed

theorem ofBytes_unexpected {bytes : List UInt8}
    (failed : ofBytes files search path bytes = (.error error, later))
    (about : error.complaint = .unexpectedCharacter c) :
    ∃ source front more, decode path bytes = .ok source ∧
      Expansion.expand path source = front ++ c :: more ∧ Lexeme.Stray c ∧
      error = .atSpan (.unexpectedCharacter c) path (.point (Position.start.through front)) := by
  unfold ofBytes at failed
  split at failed
  · next malformed =>
    cases failed
    unfold decode at malformed
    split at malformed <;> cases malformed
    cases about
  · next source read =>
    unfold ofText at failed
    split at failed
    · next all =>
      cases failed
      obtain ⟨front, more, whole, stray, stands⟩ :=
        scanAll_unexpected (Scanner.reaches_ofText files search path _) all about
      exact ⟨source, front, more, read, whole, stray, stands⟩
    · cases failed

/-- An unexpected character is reported where it stands in the expanded text. If the path has no line
end in it, that is its own line, and its column is off by as much as the directives before it on the
line have grown; the mark is below the character if they have not grown. -/
theorem complaints_stand_in_the_expanded_text {bytes : List UInt8}
    (failed : ofBytes files search path bytes = (.error error, later))
    (about : error.complaint = .unexpectedCharacter c) :
    ∃ source front part back shown rest, decode path bytes = .ok source ∧
      parts source = front ++ part :: back ∧ part.expanded path = shown ++ c :: rest ∧
      (part = .kept c ∨ ∃ number, part = .replaced .file number) ∧
      let found := Position.start.through (front.flatMap (Part.expanded path) ++ shown)
      let stands := Position.start.through (front.flatMap Part.source)
      let grown := ((lastLine front).map (Part.growth path)).sum
      error = ⟨.unexpectedCharacter c, path, found.line, found.column⟩ ∧
      ('\n' ∉ path.text.toList →
        error.line = stands.line ∧ (error.column : Int) = stands.column + grown + shown.length ∧
        (part = .kept c → ∃ before after,
          (Source.mk path.text (String.ofList source)).line? error.line =
            some (String.ofList (before ++ c :: after)) ∧
          stands.column = before.length + 1 ∧
          (grown = 0 → error.column = before.length + 1 ∧
            DiagnosticStyle.padding (String.ofList (before ++ c :: after)) error.column =
              String.ofList (before.map fun c => if c = '\t' then '\t' else ' ')))) := by
  obtain ⟨source, reached, more, read, whole, stray, complains⟩ := ofBytes_unexpected failed about
  rw [← expanded_parts] at whole
  obtain ⟨front, part, back, shown, rest, split, inside, rfl⟩ := part_of_flatMap whole
  have origin := part_of_stray stray inside
  refine ⟨source, front, part, back, shown, rest, read, split, inside, origin.imp_left And.left, ?_⟩
  intro found stands grown
  refine ⟨complains, fun inLine => ?_⟩
  have inLine' : '\n' ∉ shown := by
    rcases origin with ⟨_, rfl⟩ | ⟨number, rfl⟩
    · exact List.not_mem_nil
    · intro member
      exact inLine_expanded inLine .file number (inside ▸ List.mem_append_left _ member)
  obtain ⟨sameLine, moved⟩ := through_expanded inLine inLine' front
  have line : error.line = stands.line := complains ▸ sameLine
  have column : (error.column : Int) = stands.column + grown + shown.length := complains ▸ moved
  refine ⟨line, column, ?_⟩
  rintro rfl
  obtain ⟨_, rfl⟩ : _ ∧ shown = [] := origin.resolve_right (by simp)
  obtain ⟨before, after, inFile, standsAt⟩ := line?_of_kept stray split path.text
  refine ⟨before, after, line ▸ inFile, standsAt, ?_⟩
  intro level
  have here : error.column = before.length + 1 := by
    rw [level, show stands.column = _ from standsAt, List.length_nil] at column
    omega
  refine ⟨here, ?_⟩
  rw [here, DiagnosticStyle.padding]
  simp

theorem complaint_behind_a_line_number_is_misplaced :
    ∃ later before after,
      ofBytes ⟨[], []⟩ ⟨[], []⟩ ⟨"/src/main.qd"⟩ "#LINE @\n".toUTF8.toList =
        (.error ⟨.unexpectedCharacter '@', ⟨"/src/main.qd"⟩, 1, 3⟩, later) ∧
      (Source.mk "/src/main.qd" "#LINE @\n").line? 1 =
        some (String.ofList (before ++ '@' :: after)) ∧ before.length + 1 = 7 := by
  have answer : (ofBytes ⟨[], []⟩ ⟨[], []⟩ ⟨"/src/main.qd"⟩ "#LINE @\n".toUTF8.toList).1 =
      .error ⟨.unexpectedCharacter '@', ⟨"/src/main.qd"⟩, 1, 3⟩ := by decide +kernel
  have failed : ofBytes ⟨[], []⟩ ⟨[], []⟩ ⟨"/src/main.qd"⟩ "#LINE @\n".toUTF8.toList =
      (.error ⟨.unexpectedCharacter '@', ⟨"/src/main.qd"⟩, 1, 3⟩, _) := Prod.ext answer rfl
  obtain ⟨source, front, part, back, shown, rest, read, split, inside, origin, _, moved⟩ :=
    complaints_stand_in_the_expanded_text failed rfl
  have text : decode ⟨"/src/main.qd"⟩ "#LINE @\n".toUTF8.toList = .ok "#LINE @\n".toList := by
    decide +kernel
  obtain rfl := Except.ok.inj (text.symm.trans read)
  have row : parts "#LINE @\n".toList =
      [.replaced .line 1, .kept ' ', .kept '@', .kept '\n'] := by decide +kernel
  rw [row] at split
  obtain rfl : part = .kept '@' := by
    rcases origin with stayed | ⟨number, rfl⟩
    · exact stayed
    · have member : .replaced .file number ∈ front ++ .replaced .file number :: back := by simp
      rw [← split] at member
      simp at member
  obtain ⟨rfl, _⟩ : front = [.replaced .line 1, .kept ' '] ∧ back = [.kept '\n'] := by
    simpa [List.cons_eq_append_iff] using split
  obtain ⟨_, _, shows⟩ := moved (by decide)
  obtain ⟨before, after, inFile, column, _⟩ := shows rfl
  exact ⟨_, before, after, failed, inFile, column.symm⟩

end TokenStream

end StackLang
