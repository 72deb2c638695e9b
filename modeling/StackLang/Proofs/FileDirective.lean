import StackLang.Proofs.ExpandedText
import StackLang.Proofs.Separation

/-! The directive for the path of a file. It is replaced by a string literal in which quotes and
backslashes are escaped, but the scanner knows no escapes: a string goes up to the next quote, and its
characters are taken as they are. So the directive stands for its path if the path has no such
character. -/
namespace StackLang

open String (utf8Len)
open Text (slice?)

namespace Expansion

/-! ### Escapes -/

def isEscaped (c : Char) : Bool := c = '\\' || c = '"'

def escaped (text : List Char) : List Char :=
  text.flatMap fun c => if isEscaped c then ['\\', c] else [c]

theorem literal_eq (path : Path) : literal path = '"' :: (escaped path.text.toList ++ ['"']) := rfl

theorem length_escaped (text : List Char) :
    (escaped text).length = text.length + text.countP isEscaped := by
  induction text with
  | nil => rfl
  | cons c text ih =>
    rw [escaped, List.flatMap_cons, List.length_append, List.countP_cons]
    change _ + (escaped text).length = _
    rw [ih]
    split_ifs <;> simp <;> omega

theorem quote_mem_escaped {text : List Char} : '"' ∈ escaped text ↔ '"' ∈ text := by
  rw [escaped, List.mem_flatMap]
  constructor
  · rintro ⟨c, member, shown⟩
    split_ifs at shown
    · have same : '"' = c := by simpa using shown
      exact same ▸ member
    · exact List.mem_singleton.mp shown ▸ member
  · intro member
    exact ⟨'"', member, by decide⟩

theorem escaped_eq_self {text : List Char} (plain : ∀ c ∈ text, c ≠ '"' ∧ c ≠ '\\') :
    escaped text = text := by
  have kept : ∀ c ∈ text, (if isEscaped c then ['\\', c] else [c]) = [c] := by
    intro c member
    simp [isEscaped, plain c member]
  rw [escaped, List.flatMap_congr kept, List.flatMap_singleton']

/-- Up to its first quote an escaped text is the text itself only if nothing was escaped. -/
theorem takeWhile_escaped_eq_iff (text : List Char) :
    (escaped text).takeWhile (· ≠ '"') = text ↔ ∀ c ∈ text, c ≠ '"' ∧ c ≠ '\\' := by
  constructor
  · intro same
    have plain : '"' ∉ text := by
      intro member
      rw [← same] at member
      exact absurd (List.mem_takeWhile_imp member) (by simp)
    have all : (escaped text).takeWhile (· ≠ '"') = escaped text := by
      rw [List.takeWhile_eq_self_iff]
      intro c member
      simp only [ne_eq, decide_not, Bool.not_eq_true', decide_eq_false_iff_not]
      rintro rfl
      exact plain (quote_mem_escaped.mp member)
    have length := length_escaped text
    rw [← all, same] at length
    have none : text.countP isEscaped = 0 := by omega
    intro c member
    have other := List.countP_eq_zero.mp none c member
    simpa [isEscaped, and_comm] using other
  · intro plain
    rw [escaped_eq_self plain, List.takeWhile_eq_self_iff]
    intro c member
    simpa using (plain c member).1

/-! ### Expansion from left to right -/

/-- The same expansion without a split into lines, the lines being counted on the way. -/
def expandFrom (path : Path) (number skipped : Nat) : List Char → List Char
  | [] => []
  | c :: rest =>
    match skipped with
    | fewer + 1 => expandFrom path number fewer rest
    | 0 =>
      if c = '#' then
        match directive? rest with
        | some directive =>
          replacement path number directive ++ expandFrom path number directive.extent rest
        | none => c :: expandFrom path number 0 rest
      else c :: expandFrom path (if c = '\n' then number + 1 else number) 0 rest

theorem isPrefixOf_append {word : List Char} {d : Char}
    (letters : ∀ c ∈ word, Text.isWordCharacter c = true) (ends : Text.isWordCharacter d = false)
    (front rest : List Char) : word.isPrefixOf (front ++ d :: rest) = word.isPrefixOf front := by
  induction word generalizing front with
  | nil => rfl
  | cons c word ih =>
    obtain ⟨letter, letters⟩ := List.forall_mem_cons.mp letters
    cases front with
    | nil =>
      have other : c ≠ d := by
        rintro rfl
        rw [letter] at ends
        cases ends
      simp [List.isPrefixOf, other]
    | cons first front => rw [List.cons_append, List.isPrefixOf, List.isPrefixOf, ih letters]

theorem endsWord_append {d : Char} {count : Nat} {front : List Char}
    (ends : Text.isWordCharacter d = false) (long : count ≤ front.length) (rest : List Char) :
    endsWord count (front ++ d :: rest) = endsWord count front := by
  rw [endsWord, endsWord]
  rcases long.lt_or_eq with shorter | rfl
  · rw [List.getElem?_append_left shorter]
  · simp [ends]

/-- A directive is told by the characters up to the end of its word. -/
theorem directive?_append {d : Char} (ends : Text.isWordCharacter d = false)
    (front rest : List Char) : directive? (front ++ d :: rest) = directive? front := by
  have told {word : List Char} (letters : ∀ c ∈ word, Text.isWordCharacter c = true)
      (four : word.length = 4) :
      (word.isPrefixOf (front ++ d :: rest) && endsWord 4 (front ++ d :: rest)) =
        (word.isPrefixOf front && endsWord 4 front) := by
    rw [isPrefixOf_append letters ends]
    cases starts : word.isPrefixOf front with
    | false => rfl
    | true =>
      have long := (List.isPrefixOf_iff_prefix.mp starts).length_le
      rw [endsWord_append ends (four ▸ long)]
  have line : ∀ c ∈ "LINE".toList, Text.isWordCharacter c = true := by
    rw [← List.all_eq_true]
    rfl
  have file : ∀ c ∈ "FILE".toList, Text.isWordCharacter c = true := by
    rw [← List.all_eq_true]
    decide
  rw [directive?, directive?, told line rfl, told file rfl]

theorem extent_le {text : List Char} {directive : Directive}
    (starts : directive? text = some directive) :
    directive.extent ≤ text.length ∧ '\n' ∉ text.take directive.extent := by
  have parted := word_of_directive? starts
  have four : directive.word.length = directive.extent := by cases directive <;> rfl
  rw [← four]
  refine ⟨List.IsPrefix.length_le ⟨_, parted⟩, ?_⟩
  rw [Lexeme.take_length_of_append parted]
  cases directive <;> decide

theorem physicalLines_cons {c : Char} (inLine : c ≠ '\n') (rest : List Char) :
    physicalLines (c :: rest) =
      (c :: (physicalLines rest).headD []) :: (physicalLines rest).tail := by
  rw [physicalLines, if_neg inLine]
  cases physicalLines rest <;> rfl

/-- The first line of a text is all of it, or ends at the first line end. -/
theorem headD_physicalLines (text : List Char) :
    (physicalLines text).headD [] = text ∨
      ∃ run more, text = run ++ '\n' :: more ∧ (physicalLines text).headD [] = run ++ ['\n'] := by
  induction text with
  | nil => exact .inl rfl
  | cons c rest ih =>
    by_cases lineEnd : c = '\n'
    · subst lineEnd
      exact .inr ⟨[], rest, rfl, rfl⟩
    · rw [physicalLines_cons lineEnd, List.headD_cons]
      rcases ih with all | ⟨run, more, rfl, first⟩
      · exact .inl (congrArg (c :: ·) all)
      · exact .inr ⟨c :: run, more, rfl, congrArg (c :: ·) first⟩

theorem directive?_headD (text : List Char) :
    directive? ((physicalLines text).headD []) = directive? text := by
  have ends : Text.isWordCharacter '\n' = false := by decide +kernel
  rcases headD_physicalLines text with all | ⟨run, more, whole, first⟩
  · rw [all]
  · rw [first, whole, directive?_append ends, directive?_append ends]

theorem expandLines_eq_expandFrom (path : Path) (number skipped : Nat) (text : List Char)
    (inLine : '\n' ∉ text.take skipped) :
    expandLine path number skipped ((physicalLines text).headD []) ++
      expandLines path (number + 1) (physicalLines text).tail =
        expandFrom path number skipped text := by
  induction text generalizing number skipped with
  | nil => rfl
  | cons c rest ih =>
    have later (number : Nat) : expandLines path number (physicalLines rest) =
        expandFrom path number 0 rest := by
      rw [← ih number 0 (by simp)]
      cases physicalLines rest <;> rfl
    by_cases lineEnd : c = '\n'
    · subst lineEnd
      cases skipped with
      | succ fewer => simp at inLine
      | zero => exact congrArg ('\n' :: ·) (later (number + 1))
    · rw [physicalLines_cons lineEnd, List.headD_cons, List.tail_cons]
      cases skipped with
      | succ fewer =>
        rw [List.take_succ_cons, List.mem_cons, not_or] at inLine
        exact ih number fewer inLine.2
      | zero =>
        have here := ih number 0 (by simp)
        rw [expandLine, expandFrom, if_neg lineEnd, directive?_headD]
        split_ifs with sharp
        · cases starts : directive? rest with
          | none => exact congrArg (c :: ·) here
          | some directive =>
            dsimp only
            rw [List.append_assoc, ih number _ (extent_le starts).2]
        · exact congrArg (c :: ·) here

theorem expand_eq_expandFrom (path : Path) (text : List Char) :
    expand path text = expandFrom path 1 0 text := by
  rw [← expandLines_eq_expandFrom path 1 0 text (by simp), expand]
  cases physicalLines text <;> rfl

/-- What stands behind a character that ends words is expanded on its own. -/
theorem expandFrom_append {path : Path} {skipped : Nat} {front : List Char} {d : Char}
    (inside : skipped ≤ front.length) (ends : Text.isWordCharacter d = false) (number : Nat)
    (rest : List Char) :
    expandFrom path number skipped (front ++ d :: rest) =
      expandFrom path number skipped front ++
        expandFrom path (number + (front.drop skipped).count '\n') 0 (d :: rest) := by
  induction front generalizing number skipped with
  | nil =>
    obtain rfl : skipped = 0 := by simpa using inside
    rfl
  | cons c front ih =>
    cases skipped with
    | succ fewer => exact ih (Nat.le_of_succ_le_succ inside) number
    | zero =>
      rw [List.cons_append, expandFrom, expandFrom, List.drop_zero, List.count_cons]
      by_cases sharp : c = '#'
      · subst sharp
        rw [if_pos rfl, if_pos rfl, directive?_append ends]
        cases starts : directive? front with
        | none => exact congrArg ('#' :: ·) (ih (Nat.zero_le _) number)
        | some directive =>
          obtain ⟨long, inLine⟩ := extent_le starts
          -- No line ends inside of a directive.
          have lines : (front.drop directive.extent).count '\n' = front.count '\n' := by
            rw [← List.take_append_drop directive.extent front, List.count_append,
              List.count_eq_zero.mpr inLine, Nat.zero_add]
            simp
          dsimp only
          rw [ih long number, lines, List.append_assoc]
          rfl
      · rw [if_neg sharp, if_neg sharp, ih (Nat.zero_le _)]
        by_cases lineEnd : c = '\n'
        · subst lineEnd
          simp [Nat.add_right_comm, Nat.add_assoc]
        · simp [lineEnd]

/-- A directive for the path and a blank in its place. -/
theorem expand_directive (path : Path) (front : List Char) {back : List Char}
    (whole : endsWord 0 back = true) :
    ∃ behind, expand path (front ++ ' ' :: back) = expand path front ++ ' ' :: behind ∧
      expand path (front ++ '#' :: ("FILE".toList ++ back)) =
        expand path front ++ (literal path ++ behind) := by
  have starts : directive? ("FILE".toList ++ back) = some .file := by
    have other : "LINE".toList.isPrefixOf ("FILE".toList ++ back) = false := rfl
    have word : "FILE".toList.isPrefixOf ("FILE".toList ++ back) = true :=
      List.isPrefixOf_iff_prefix.mpr (List.prefix_append _ _)
    have ends : endsWord 4 ("FILE".toList ++ back) = true := whole
    rw [directive?, other, word, ends]
    rfl
  have same {d : Char} (ends : Text.isWordCharacter d = false) (rest : List Char) :=
    @expandFrom_append path 0 front d (Nat.zero_le _) ends 1 rest
  refine ⟨expandFrom path (1 + front.count '\n') 0 back, ?_, ?_⟩
  · rw [expand_eq_expandFrom, expand_eq_expandFrom, same (by decide +kernel)]
    rfl
  · rw [expand_eq_expandFrom, expand_eq_expandFrom, same (by decide +kernel)]
    refine congrArg (expandFrom path 1 0 front ++ ·) ?_
    rw [expandFrom, if_pos rfl, starts]
    rfl

end Expansion

/-! ### Places for values -/

namespace Lexeme

theorem blanks_run {run : List Char} (blank : ∀ c ∈ run, isBlank c = true) (more : List Char) :
    blanks false (run ++ more) = run ++ blanks false more := by
  induction run with
  | nil => rfl
  | cons c run ih =>
    obtain ⟨first, others⟩ := List.forall_mem_cons.mp blank
    rw [List.cons_append, blanks, if_neg Bool.false_ne_true, if_pos first, ih others,
      List.cons_append]

end Lexeme

namespace Scanner

variable {files : Files} {scanner : Scanner}

/-- Blanks in front of a token may be read before it. -/
theorem next_behind_blanks {run more : List Char} (outside : scanner.commented = false)
    (blank : ∀ c ∈ run, Lexeme.isBlank c = true) (starts : scanner.rest = run ++ more) :
    (scanner.consume run.length).next files = scanner.next files := by
  have rest : (scanner.consume run.length).rest = more := by
    rw [rest_consume, starts, List.drop_left]
  have same : (scanner.consume run.length).started = scanner.started := by
    rw [started, started, rest, starts, Lexeme.blanks_run blank, List.length_append,
      consume_consume]
  have outside' : (scanner.consume run.length).commented = false := outside
  rw [started, started] at same
  rw [next, next, outside, outside', same]
  rfl

theorem settle_idle {token : Token} (idle : scanner.awaiting = false) (other : token.kind ≠ .useWord) :
    scanner.settle files token = (.ok token, scanner) := by
  rw [settle, if_neg other, idle]
  rfl

theorem next_string {text : List Char} (outside : scanner.commented = false)
    (idle : scanner.awaiting = false) (starts : scanner.rest = '"' :: text) :
    ∃ token behind, scanner.next files = (.ok (some token), behind) ∧
      token.content = (.string, String.ofList (Lexeme.stringBody text)) ∧
      Alike behind (scanner.consume ((Lexeme.stringBody text).length + 2)) := by
  have begun : scanner.started = scanner.marked := by
    rw [started, starts]
    rfl
  have read : Lexeme.read '"' text =
      .token .string (Lexeme.stringBody text) ((Lexeme.stringBody text).length + 1) := rfl
  have starts' : scanner.started.rest = '"' :: text := by
    rw [begun]
    exact starts
  have rest : (scanner.started.consume ((Lexeme.stringBody text).length + 2)).rest =
      (scanner.consume ((Lexeme.stringBody text).length + 2)).rest := by
    rw [rest_consume, rest_consume, starts, starts']
  have found : scanner.next files = _ :=
    next_of_read outside starts' read (settle_idle idle (by simp))
  exact ⟨_, _, found, rfl, rfl, rest, rfl, outside.symm, rfl, rfl⟩

end Scanner

/-- The offset that some tokens at the front of a text reach. -/
def stopOf (tokens : List Token) : Nat :=
  (tokens.getLast?.map fun token => token.span.stop.offset).getD 0

/-- A place behind some tokens of a text where a value may stand. Since the last token there are
blanks only, and the token neither begins a comment nor announces a module. -/
structure OpenPlace (text : List Char) (before : List Token) (place : Nat) : Prop where
  blank : ∃ gap, slice? text (stopOf before) place = some gap ∧ ∀ c ∈ gap, Lexeme.isBlank c = true
  last : ∀ token ∈ before.getLast?, token.kind ≠ .commentBegin ∧ token.kind ≠ .useWord

namespace Scanner

variable {files : Files} {search : Search} {path : Path} {scanner : Scanner}

/-- What a scanner at the last token before a place still has before it. -/
theorem Reaches.rest_eq {front behind gap : List Char}
    (reaches : scanner.Reaches files search path (front ++ behind))
    (cut : slice? (front ++ behind) scanner.here.offset (utf8Len front) = some gap) :
    scanner.rest = gap ++ behind := by
  obtain ⟨read, parted, here⟩ := reaches.place
  have place : scanner.here.offset = utf8Len read := by rw [here, Text.Position.offset_start_through]
  rw [place] at cut
  rcases List.append_eq_append_iff.mp parted with ⟨more, rfl, rest⟩ | ⟨more, rfl, rest⟩
  · rw [List.append_assoc, Text.slice?_append] at cut
    rw [rest, Option.some.inj cut]
  · have none : more = [] := by
      have ordered := Text.le_of_slice? cut
      rw [String.utf8Len_append] at ordered
      exact String.utf8Len_eq_zero.mp (by omega)
    subst none
    have empty := Text.slice?_append front [] behind
    rw [List.append_nil] at cut empty
    rw [List.nil_append, cut] at empty
    rw [Option.some.inj empty]
    exact rest.symm

end Scanner

namespace TokenStream

variable {files : Files} {search : Search} {path : Path} {front behind : List Char}
  {before after : List Token} {finished : Scanner}

theorem last_kind {kind : TokenKind} (other : ∀ token ∈ before.getLast?, token.kind ≠ kind) :
    (before.getLast?.map fun token => token.kind == kind).getD false = false := by
  cases last : before.getLast? with
  | none => rfl
  | some token => simpa using other token last

/-- A blank at an open place, and something else in its stead. The tokens before it are the same, and
the scanner behind them has only blanks left in front of it. -/
theorem runs_to_place {d : Char} (apart : Lexeme.separates d = true)
    (scanned : scanAll files (.ofText path (front ++ ' ' :: behind) search) =
      (.ok (before ++ after), finished))
    (place : OpenPlace (front ++ ' ' :: behind) before (utf8Len front)) (more : List Char) :
    ∃ inner : Scanner, (∀ c ∈ inner.rest, Lexeme.isBlank c = true) ∧ inner.commented = false ∧
      inner.awaiting = false ∧ scanAll files (inner.onto (' ' :: behind)) = (.ok after, finished) ∧
      Scanner.Runs files (.ofText path (front ++ d :: more) search) before (inner.onto (d :: more)) := by
  obtain ⟨scanner, runs, rest⟩ := runs_of_scanAll scanned
  obtain ⟨gap, cut, blank⟩ := place.blank
  obtain ⟨reaches, offset, commented, awaiting⟩ :=
    runs.ends (Scanner.reaches_ofText files search path _) (fun _ => rfl)
  have left : scanner.rest = gap ++ ' ' :: behind := by
    apply reaches.rest_eq
    rw [offset]
    exact cut
  have runs : Scanner.Runs files ((Scanner.ofText path front search).onto (' ' :: behind)) before
      scanner := runs
  have room : behind.length < scanner.rest.length := by
    rw [left, List.length_append, List.length_cons]
    omega
  obtain ⟨inner, rfl, again⟩ := runs.onto (by decide) apart room more
  refine ⟨inner, ?_, ?_, ?_, rest, again⟩
  · have same : inner.rest = gap := List.append_cancel_right left
    rw [same]
    exact blank
  · exact commented.trans (last_kind fun token last => (place.last token last).1)
  · exact awaiting.trans (last_kind fun token last => (place.last token last).2)

/-- A string in the stead of the blank is the next token. -/
theorem next_at_place {inner : Scanner} (blank : ∀ c ∈ inner.rest, Lexeme.isBlank c = true)
    (outside : inner.commented = false) (idle : inner.awaiting = false) (text : List Char) :
    ∃ token rest, (inner.onto ('"' :: text)).next files = (.ok (some token), rest) ∧
      token.content = (.string, String.ofList (Lexeme.stringBody text)) ∧
      Scanner.Alike rest (((inner.onto ('"' :: text)).consume inner.rest.length).consume
        ((Lexeme.stringBody text).length + 2)) := by
  have starts : ((inner.onto ('"' :: text)).consume inner.rest.length).rest = '"' :: text :=
    List.drop_left
  obtain ⟨token, rest, found, content, alike⟩ :=
    @Scanner.next_string files ((inner.onto ('"' :: text)).consume inner.rest.length) text outside
      idle starts
  rw [@Scanner.next_behind_blanks files (inner.onto ('"' :: text)) inner.rest ('"' :: text) outside
    blank rfl] at found
  exact ⟨token, rest, found, content, alike⟩

/-- A string that ends where the blank stood leaves the other tokens as they are. -/
theorem scanAll_at_place {inner : Scanner} {body : List Char}
    (blank : ∀ c ∈ inner.rest, Lexeme.isBlank c = true) (outside : inner.commented = false)
    (idle : inner.awaiting = false) (plain : '"' ∉ body)
    (scanned : scanAll files (inner.onto (' ' :: behind)) = (.ok after, finished)) :
    ∃ tokens last, scanAll files (inner.onto ('"' :: (body ++ '"' :: behind))) = (.ok tokens, last) ∧
      tokens.map Token.content = (.string, String.ofList body) :: after.map Token.content ∧
      finished.imports = last.imports := by
  obtain ⟨token, rest, found, content, alike⟩ :=
    @next_at_place files _ blank outside idle (body ++ '"' :: behind)
  have whole : Lexeme.stringBody (body ++ '"' :: behind) = body :=
    Lexeme.stringBody_append plain (by simp)
  rw [whole] at content alike
  -- In both texts the scanner now has the same before it.
  let skipped := (inner.onto (' ' :: behind)).consume (inner.rest ++ [' ']).length
  have same : scanAll files skipped = scanAll files (inner.onto (' ' :: behind)) := by
    rw [scanAll_eq, scanAll_eq files (inner.onto (' ' :: behind)),
      @Scanner.next_behind_blanks files (inner.onto (' ' :: behind)) (inner.rest ++ [' ']) behind
        outside (by simpa [or_imp, forall_and] using ⟨blank, by decide⟩) (by simp [Scanner.onto])]
  have left : skipped.rest = behind := Lexeme.drop_length_of_append (by simp [Scanner.onto])
  have right : (((inner.onto ('"' :: (body ++ '"' :: behind))).consume inner.rest.length).consume
      (body.length + 2)).rest = behind := by
    have quoted : '"' :: (body ++ ['"']) ++ behind = '"' :: (body ++ '"' :: behind) := by simp
    have size : body.length + 2 = ('"' :: (body ++ ['"'])).length := by simp
    rw [Scanner.rest_consume, Scanner.rest_consume, Scanner.onto, List.drop_left, size]
    exact Lexeme.drop_length_of_append quoted
  have meets : Scanner.Alike skipped
      (((inner.onto ('"' :: (body ++ '"' :: behind))).consume inner.rest.length).consume
        (body.length + 2)) := ⟨rfl, left.trans right.symm, rfl, rfl, rfl, rfl⟩
  obtain ⟨tokens, last, scanned', others, imports⟩ :=
    scanAll_alike (meets.trans alike.symm) (same.trans scanned)
  refine ⟨token :: tokens, last, ?_, ?_, imports⟩
  · rw [scanAll_eq, found]
    dsimp only
    rw [scanned']
  · rw [List.map_cons, content, others]

/-- The tokens of a file are those of its expanded text and the end of input. -/
theorem scanAll_of_ofBytes {bytes : List UInt8} {source : List Char} {stream : TokenStream}
    {later : Search} (decoded : decode path bytes = .ok source)
    (scanned : ofBytes files search path bytes = (.ok stream, later)) :
    ∃ tokens finished, scanAll files (.ofText path (Expansion.expand path source) search) =
        (.ok tokens, finished) ∧
      stream.tokens = tokens ++ [⟨.endOfInput, "", .point finished.here⟩] ∧
      stream.imports = finished.imports := by
  rw [ofBytes, decoded] at scanned
  dsimp only [ofText] at scanned
  split at scanned
  · cases scanned
  · next tokens finished all =>
    cases scanned
    exact ⟨tokens, finished, all, rfl, rfl⟩

theorem ofBytes_of_scanAll {bytes : List UInt8} {source : List Char} {tokens : List Token}
    (decoded : decode path bytes = .ok source)
    (scanned : scanAll files (.ofText path (Expansion.expand path source) search) =
      (.ok tokens, finished)) :
    ofBytes files search path bytes =
      (.ok ⟨tokens ++ [⟨.endOfInput, "", .point finished.here⟩], finished.imports⟩,
        finished.search) := by
  rw [ofBytes, decoded]
  dsimp only [ofText]
  rw [scanned]

theorem offset_of_scanAll {text : List Char} {tokens : List Token}
    (scanned : scanAll files (.ofText path text search) = (.ok tokens, finished)) :
    finished.here.offset = utf8Len text := by
  rw [← List.append_nil tokens] at scanned
  obtain ⟨scanner, runs, rest⟩ := runs_of_scanAll scanned
  obtain ⟨reaches, _⟩ := runs.ends (Scanner.reaches_ofText files search path text) (fun _ => rfl)
  exact (reaches.ends (next_of_scanAll_nil rest)).1

/-- The end of input is not before an open place. -/
theorem parted_at_place {text : List Char} {tokens : List Token} {last : Token} {place : Nat}
    (inside : place < last.span.stop.offset) (parted : tokens ++ [last] = before ++ after)
    (opened : OpenPlace text before place) :
    ∃ between, tokens = before ++ between ∧ after = between ++ [last] := by
  rcases List.eq_nil_or_concat' after with rfl | ⟨between, token, rfl⟩
  · obtain ⟨gap, cut, _⟩ := opened.blank
    have ordered := Text.le_of_slice? cut
    rw [List.append_nil] at parted
    have stop : stopOf before = last.span.stop.offset := by simp [stopOf, ← parted]
    omega
  · rw [← List.append_assoc] at parted
    obtain ⟨rfl, same⟩ := List.append_inj' parted rfl
    exact ⟨between, rfl, by rw [List.cons.inj same |>.1]⟩

theorem scanAll_of_next {scanner middle : Scanner} {token : Token} {tokens : List Token}
    (found : scanner.next files = (.ok (some token), middle))
    (scanned : scanAll files scanner = (.ok tokens, finished)) :
    ∃ rest, tokens = token :: rest ∧ scanAll files middle = (.ok rest, finished) := by
  cases tokens with
  | nil =>
    rw [next_of_scanAll_nil scanned] at found
    cases found
  | cons first rest =>
    obtain ⟨behind, found', others⟩ := next_of_scanAll_cons scanned
    rw [found'] at found
    cases found
    exact ⟨rest, rfl, others⟩

theorem parted_of_runs {scanner middle : Scanner} {tokens : List Token}
    (runs : Scanner.Runs files scanner before middle)
    (scanned : scanAll files scanner = (.ok tokens, finished)) :
    ∃ rest, tokens = before ++ rest ∧ scanAll files middle = (.ok rest, finished) := by
  induction runs generalizing tokens with
  | here => exact ⟨tokens, rfl, scanned⟩
  | on found _ ih =>
    obtain ⟨others, rfl, later⟩ := scanAll_of_next found scanned
    obtain ⟨rest, rfl, last⟩ := ih later
    exact ⟨rest, rfl, last⟩

/-- A closed string at an open place is one token more. -/
theorem scanAll_with_string {body : List Char} (plain : '"' ∉ body)
    (scanned : scanAll files (.ofText path (front ++ ' ' :: behind) search) =
      (.ok (before ++ after), finished))
    (place : OpenPlace (front ++ ' ' :: behind) before (utf8Len front)) :
    ∃ tokens last, scanAll files (.ofText path (front ++ '"' :: (body ++ '"' :: behind)) search) =
        (.ok tokens, last) ∧
      tokens.map Token.content = before.map Token.content ++
        (.string, String.ofList body) :: after.map Token.content ∧
      finished.imports = last.imports := by
  obtain ⟨inner, blank, outside, idle, rest, runs⟩ :=
    @runs_to_place files search path _ _ _ _ _ '"' (by decide) scanned place (body ++ '"' :: behind)
  obtain ⟨tokens, last, scanned', contents, imports⟩ :=
    scanAll_at_place blank outside idle plain rest
  refine ⟨before ++ tokens, last, scanAll_of_runs runs scanned', ?_, imports⟩
  rw [List.map_append, contents]

/-- A quote at an open place starts a string that goes up to the next quote. -/
theorem content_at_quote {text : List Char} {tokens : List Token} {last : Scanner}
    (scanned : scanAll files (.ofText path (front ++ ' ' :: behind) search) =
      (.ok (before ++ after), finished))
    (place : OpenPlace (front ++ ' ' :: behind) before (utf8Len front))
    (scanned' : scanAll files (.ofText path (front ++ '"' :: text) search) = (.ok tokens, last)) :
    ∃ others, tokens.map Token.content = before.map Token.content ++
      (.string, String.ofList (Lexeme.stringBody text)) :: others := by
  obtain ⟨inner, blank, outside, idle, _, runs⟩ :=
    @runs_to_place files search path _ _ _ _ _ '"' (by decide) scanned place text
  obtain ⟨rest, rfl, later⟩ := parted_of_runs runs scanned'
  obtain ⟨token, middle, found, content, _⟩ := @next_at_place files _ blank outside idle text
  obtain ⟨others, rfl, _⟩ := scanAll_of_next found later
  refine ⟨others.map Token.content, ?_⟩
  rw [List.map_append, List.map_cons, content]

/-- An escaped text that is quoted at an open place has itself for its content only if nothing in it is
escaped. -/
theorem plain_of_content {text more : List Char} {tokens : List Token} {last : Scanner}
    {others : List (TokenKind × String)}
    (scanned : scanAll files (.ofText path (front ++ ' ' :: behind) search) =
      (.ok (before ++ after), finished))
    (place : OpenPlace (front ++ ' ' :: behind) before (utf8Len front))
    (scanned' : scanAll files
      (.ofText path (front ++ '"' :: (Expansion.escaped text ++ '"' :: more)) search) =
      (.ok tokens, last)) (ending : List Token)
    (contents : (tokens ++ ending).map Token.content =
      before.map Token.content ++ (.string, String.ofList text) :: others) :
    ∀ c ∈ text, c ≠ '"' ∧ c ≠ '\\' := by
  obtain ⟨others', contents'⟩ := content_at_quote scanned place scanned'
  rw [List.map_append, contents', List.append_assoc] at contents
  have literal := congrArg Prod.snd (List.cons.inj (List.append_cancel_left contents)).1
  have body : Lexeme.stringBody (Expansion.escaped text ++ '"' :: more) =
      (Expansion.escaped text).takeWhile (· ≠ '"') :=
    Lexeme.takeWhile_append_stop (by simp) _ _
  apply (Expansion.takeWhile_escaped_eq_iff text).mp
  rw [← body]
  exact String.ofList_injective literal

/-- The directive for the path of a file, at a place of a text where a value may stand and a blank in
its stead leaves a text that can be scanned. If the path has no quote, the directive is one string
more, in which backslashes are doubled, and all other tokens are those around the blank. It is the
path, and the only token more, exactly if the path has neither a quote nor a backslash. -/
theorem file_directive_is_the_path_iff_nothing_is_escaped {bytes blanked : List UInt8}
    {front back : List Char} {stream : TokenStream} {later : Search}
    (written : decode path bytes = .ok (front ++ '#' :: ("FILE".toList ++ back)))
    (whole : Expansion.endsWord 0 back = true)
    (replaced : decode path blanked = .ok (front ++ ' ' :: back))
    (scanned : ofBytes files search path blanked = (.ok stream, later))
    (parted : stream.tokens = before ++ after)
    (place : OpenPlace (Expansion.expand path (front ++ ' ' :: back)) before
      (utf8Len (Expansion.expand path front))) :
    ('"' ∉ path.text.toList → ∃ found later',
      ofBytes files search path bytes = (.ok found, later') ∧
      found.tokens.map Token.content = before.map Token.content ++
        (.string, String.ofList (Expansion.escaped path.text.toList)) :: after.map Token.content ∧
      found.imports = stream.imports) ∧
    ((∃ found later', ofBytes files search path bytes = (.ok found, later') ∧
      found.tokens.map Token.content =
        before.map Token.content ++ (.string, path.text) :: after.map Token.content) ↔
      ∀ c ∈ path.text.toList, c ≠ '"' ∧ c ≠ '\\') := by
  obtain ⟨tokens, finished, scanned, ended, imports⟩ := scanAll_of_ofBytes replaced scanned
  obtain ⟨behind, blank, directive⟩ := Expansion.expand_directive path front whole
  rw [blank] at scanned place
  have inside : utf8Len (Expansion.expand path front) < finished.here.offset := by
    rw [offset_of_scanAll scanned, String.utf8Len_append, String.utf8Len_cons]
    have size : ' '.utf8Size = 1 := rfl
    omega
  obtain ⟨between, rfl, closing⟩ := parted_at_place inside (ended.symm.trans parted) place
  have quoted : Expansion.literal path ++ behind =
      '"' :: (Expansion.escaped path.text.toList ++ '"' :: behind) := by
    simp [Expansion.literal_eq]
  rw [quoted] at directive
  have string : '"' ∉ path.text.toList → ∃ found later',
      ofBytes files search path bytes = (.ok found, later') ∧
      found.tokens.map Token.content = before.map Token.content ++
        (.string, String.ofList (Expansion.escaped path.text.toList)) :: after.map Token.content ∧
      found.imports = stream.imports := by
    intro plain
    obtain ⟨tokens, last, scanned', contents, same⟩ :=
      scanAll_with_string (mt Expansion.quote_mem_escaped.mp plain) scanned place
    rw [← directive] at scanned'
    refine ⟨_, _, ofBytes_of_scanAll written scanned', ?_, same.symm.trans imports.symm⟩
    rw [List.map_append, contents, List.append_assoc, List.cons_append, closing, List.map_append]
    rfl
  refine ⟨string, ?_, ?_⟩
  · rintro ⟨found, later', scanned', contents⟩
    obtain ⟨tokens, last, scanned', ended', _⟩ := scanAll_of_ofBytes written scanned'
    rw [directive] at scanned'
    rw [ended', ← @String.ofList_toList path.text] at contents
    exact plain_of_content scanned place scanned' _ contents
  · intro plain
    obtain ⟨found, later', scanned', contents, _⟩ := string fun quote => (plain _ quote).1 rfl
    rw [Expansion.escaped_eq_self plain, String.ofList_toList] at contents
    exact ⟨found, later', scanned', contents⟩

/-- A word at the start of a file. -/
def leadingWord : Token := ⟨.identifier, "prints", ⟨⟨1, 1, 0⟩, ⟨1, 7, 6⟩⟩⟩

/-- The rest of that file behind two blanks. -/
def closingTokens : List Token :=
  [⟨.newLine, "\n", ⟨⟨1, 9, 8⟩, ⟨2, 1, 9⟩⟩⟩, ⟨.endOfInput, "", ⟨⟨2, 1, 9⟩, ⟨2, 1, 9⟩⟩⟩]

theorem backslash_in_a_path_is_doubled :
    ∃ found later,
      ofBytes ⟨[], []⟩ ⟨[], []⟩ ⟨"/src/a\\b.qd"⟩ "prints #FILE\n".toUTF8.toList =
        (.ok found, later) ∧
      found.tokens.map Token.content =
        [(.identifier, "prints"), (.string, "/src/a\\\\b.qd"), (.newLine, "\n"), (.endOfInput, "")] ∧
      ¬∃ other later',
        ofBytes ⟨[], []⟩ ⟨[], []⟩ ⟨"/src/a\\b.qd"⟩ "prints #FILE\n".toUTF8.toList =
          (.ok other, later') ∧
        other.tokens.map Token.content =
          [(.identifier, "prints"), (.string, "/src/a\\b.qd"), (.newLine, "\n"),
            (.endOfInput, "")] := by
  have accepted : (ofBytes ⟨[], []⟩ ⟨[], []⟩ ⟨"/src/a\\b.qd"⟩
      "prints  \n".toUTF8.toList).1.toOption.map TokenStream.tokens =
        some ([leadingWord] ++ closingTokens) := by decide +kernel
  obtain ⟨stream, read, parted⟩ := Option.map_eq_some_iff.mp accepted
  have scanned : ofBytes ⟨[], []⟩ ⟨[], []⟩ ⟨"/src/a\\b.qd"⟩ "prints  \n".toUTF8.toList =
      (.ok stream, _) := Prod.ext (Outcome.eq_ok_of_toOption read) rfl
  have written : (decode ⟨"/src/a\\b.qd"⟩ "prints #FILE\n".toUTF8.toList).toOption =
      some ("prints ".toList ++ '#' :: ("FILE".toList ++ ['\n'])) := by decide +kernel
  have replaced : (decode ⟨"/src/a\\b.qd"⟩ "prints  \n".toUTF8.toList).toOption =
      some ("prints ".toList ++ ' ' :: ['\n']) := by decide +kernel
  have place : OpenPlace
      (Expansion.expand ⟨"/src/a\\b.qd"⟩ ("prints ".toList ++ ' ' :: ['\n'])) [leadingWord]
      (utf8Len (Expansion.expand ⟨"/src/a\\b.qd"⟩ "prints ".toList)) :=
    ⟨⟨[' '], by rfl, by simp [Lexeme.isBlank]⟩, by simp [leadingWord]⟩
  obtain ⟨plain, path⟩ := file_directive_is_the_path_iff_nothing_is_escaped
    (Outcome.eq_ok_of_toOption written) (by decide +kernel) (Outcome.eq_ok_of_toOption replaced)
    scanned parted place
  obtain ⟨found, later, directive, contents, _⟩ := plain (by simp)
  refine ⟨found, later, directive, contents.trans (by rfl), ?_⟩
  rintro ⟨other, later', scanned', contents'⟩
  have backslash := path.mp ⟨other, later', scanned', contents'⟩
  exact (backslash '\\' (by simp)).2 rfl

end TokenStream

end StackLang
