import Mathlib.Data.List.Nodup
import StackLang.Output.Support
import StackLang.Proofs.Collection
import StackLang.Proofs.FileNames
import StackLang.Proofs.Lexemes

/-! The C names of the functions and constants of a program. A unit and a name are joined by an
underscore, both may have underscores of their own, and the names of the machine, of local values
and of loop counts start in the same way; here it is said exactly which of them are the same. -/
namespace StackLang

open StackLang.Outcome

/-! ### Joined names -/

namespace CName

theorem symbol_toList (unit name : String) :
    (symbol unit name).toList = "__qd_".toList ++ (unit.toList ++ '_' :: name.toList) := by
  simp [symbol]

/-- The places at which a text can be cut into two with an underscore between them. -/
def cuts : List Char → List (List Char × List Char)
  | [] => []
  | c :: rest =>
    (if c = '_' then [([], rest)] else []) ++ (cuts rest).map fun cut => (c :: cut.1, cut.2)

theorem mem_cuts (text left right : List Char) :
    (left, right) ∈ cuts text ↔ text = left ++ '_' :: right := by
  induction text generalizing left with
  | nil => simp [cuts]
  | cons c rest ih =>
    cases left with
    | nil =>
      by_cases marked : c = '_' <;> simp [cuts, marked, eq_comm]
    | cons first left =>
      have later : (first :: left, right) ∈ (cuts rest).map (fun cut => (c :: cut.1, cut.2)) ↔
          c = first ∧ (left, right) ∈ cuts rest := by
        simp only [List.mem_map, Prod.exists, Prod.mk.injEq, List.cons.injEq]
        constructor
        · rintro ⟨_, _, member, ⟨rfl, rfl⟩, rfl⟩
          exact ⟨rfl, member⟩
        · rintro ⟨rfl, member⟩
          exact ⟨left, right, member, ⟨rfl, rfl⟩, rfl⟩
      rw [cuts, List.mem_append, later, ih]
      by_cases marked : c = '_' <;> simp [marked]

def owners (cName : String) : List (String × String) :=
  if "__qd_".toList.isPrefixOf cName.toList then
    (cuts (cName.toList.drop 5)).map fun cut => (String.ofList cut.1, String.ofList cut.2)
  else []

theorem mem_owners (unit name cName : String) :
    (unit, name) ∈ owners cName ↔ symbol unit name = cName := by
  unfold owners
  split
  · next starts =>
    obtain ⟨rest, spelled⟩ := List.isPrefixOf_iff_prefix.mp starts
    have behind : cName.toList.drop 5 = rest := by
      rw [← spelled]
      rfl
    rw [behind, ← String.toList_inj, symbol_toList, ← spelled, List.append_cancel_left_eq,
      @eq_comm _ _ rest, ← mem_cuts, List.mem_map]
    constructor
    · rintro ⟨⟨left, right⟩, member, same⟩
      obtain ⟨rfl, rfl⟩ := Prod.mk.inj same
      simpa using member
    · intro member
      exact ⟨_, member, by simp⟩
  · next other =>
    simp only [List.not_mem_nil, false_iff]
    rintro rfl
    apply other
    rw [List.isPrefixOf_iff_prefix, symbol_toList]
    exact List.prefix_append _ _

def textOwners (text : List Char) : List (String × String) :=
  if "__qd_".toList.isPrefixOf text then
    (cuts (text.drop 5)).map fun cut => (String.ofList cut.1, String.ofList cut.2)
  else []

theorem owners_ofList (text : List Char) : owners (String.ofList text) = textOwners text := by
  rw [owners, textOwners, @String.toList_ofList text]

end CName

def Support.declaredNames : List String :=
  (Support.headerLines.flatMap fun line =>
    match (line.toList.splitOnP fun c => !Lexeme.isWordPart c).map String.ofList with
    | "QD_PRIMITIVE" :: name :: _ => [CName.primitive name]
    | words => words.filter fun word => "__qd_".toList.isPrefixOf word.toList && word != "__qd_")

def machineOwners : List (String × String) :=
  [("real", "t"), ("stack", "ptr"), ("panic", "stack_underflow"), ("panic_stack", "underflow"),
    ("panic", "stack_overflow"), ("panic_stack", "overflow"), ("panic", "mark_overflow"),
    ("panic_mark", "overflow"), ("arg", "push"), ("arg", "pop"), ("push", "va"),
    ("pop", "string")]

def Support.namesAmong (words : List (List Char)) : List (List Char) :=
  if words.head? = some "QD_PRIMITIVE".toList ∧ words.tail ≠ [] then
    (words.tail.take 1).map ("__qd_".toList ++ ·)
  else words.filter fun word => "__qd_".toList.isPrefixOf word && word != "__qd_".toList

theorem Support.declaredNames_eq :
    Support.declaredNames = Support.headerLines.flatMap fun line =>
      (namesAmong (line.toList.splitOnP fun c => !Lexeme.isWordPart c)).map String.ofList := by
  unfold declaredNames
  congr 1
  funext line
  generalize line.toList.splitOnP (fun c => !Lexeme.isWordPart c) = words
  split
  · next name rest spelled =>
    obtain ⟨word, later, rfl, primitive, spelled⟩ := List.map_eq_cons_iff.mp spelled
    obtain ⟨text, later, rfl, rfl, -⟩ := List.map_eq_cons_iff.mp spelled
    have first : word = "QD_PRIMITIVE".toList := by rw [← primitive, String.toList_ofList]
    have joined : CName.primitive (String.ofList text) = String.ofList ("__qd_".toList ++ text) := by
      rw [String.ofList_append, String.ofList_toList, CName.primitive]
    simp only [namesAmong, first, joined, List.head?_cons, List.tail_cons, ne_eq, reduceCtorEq,
      not_false_eq_true, and_self, if_true, List.take_succ_cons, List.take_zero, List.map_cons,
      List.map_nil]
  · next other =>
    have plain : ¬ (words.head? = some "QD_PRIMITIVE".toList ∧ words.tail ≠ []) := by
      rintro ⟨first, more⟩
      obtain ⟨later, rfl⟩ := List.head?_eq_some_iff.mp first
      obtain ⟨name, later, rfl⟩ := List.exists_cons_of_ne_nil more
      exact other _ _ rfl
    rw [namesAmong, if_neg plain, List.filter_map]
    congr 1
    refine List.filter_congr fun word _ => ?_
    have same : (String.ofList word == "__qd_") = (word == "__qd_".toList) := by
      rw [Bool.eq_iff_iff, beq_iff_eq, beq_iff_eq, ← String.toList_inj, String.toList_ofList]
    rw [Function.comp_apply, @String.toList_ofList word, bne, bne, same]

theorem cons_eq_map_ofList {lines : List String} {text : List Char} {texts : List (List Char)}
    (spelled : lines = texts.map String.ofList) :
    String.ofList text :: lines = (text :: texts).map String.ofList := by
  rw [spelled, List.map_cons]

theorem machineOwners_eq :
    (Support.declaredNames.flatMap CName.owners).eraseDups = machineOwners := by
  -- The kernel is slow at taking the characters of a literal, so the header is spelled out first.
  obtain ⟨texts, spelled, owned⟩ : ∃ texts : List (List Char),
      Support.headerLines = texts.map String.ofList ∧
        (texts.flatMap fun text =>
          (Support.namesAmong (text.splitOnP fun c => !Lexeme.isWordPart c)).flatMap
            CName.textOwners).eraseDups = machineOwners := by
    apply Exists.intro
    constructor
    · repeat apply cons_eq_map_ofList
      exact List.map_nil.symm
    · decide +kernel
  rw [Support.declaredNames_eq, spelled, ← owned]
  simp only [List.flatMap_assoc, List.flatMap_map, CName.owners_ofList, String.toList_ofList]

theorem mem_declaredNames_iff (unit name : String) :
    CName.symbol unit name ∈ Support.declaredNames ↔ (unit, name) ∈ machineOwners := by
  rw [← machineOwners_eq, List.mem_eraseDups, List.mem_flatMap]
  constructor
  · intro member
    exact ⟨_, member, (CName.mem_owners unit name _).mpr rfl⟩
  · rintro ⟨cName, member, owned⟩
    rwa [(CName.mem_owners unit name cName).mp owned]

namespace CName

theorem underscore_append_ne {text : List Char} (unmarked : '_' ∉ text) (left right : List Char) :
    text ≠ left ++ '_' :: right := by
  rintro rfl
  exact unmarked (by simp)

theorem symbol_eq_slot_iff (unit name word : String) :
    symbol unit name = slot word ↔
      unit = "local" ∧ name = word ∨
        ∃ text, unit = "local" ++ "_" ++ text ∧ word = text ++ "_" ++ name := by
  have slotted : (slot word).toList = "__qd_".toList ++ ("local".toList ++ '_' :: word.toList) := by
    simp [slot]
  constructor
  · intro same
    have lists := congrArg String.toList same
    rw [symbol_toList, slotted, List.append_cancel_left_eq] at lists
    rcases underscore_cases lists with ⟨units, names⟩ | ⟨text, longer, behind⟩ | ⟨text, longer, _⟩
    · exact .inl ⟨String.toList_inj.mp units, String.toList_inj.mp names⟩
    · refine .inr ⟨String.ofList text, ?_, ?_⟩
      · apply String.toList_inj.mp
        rw [longer]
        simp
      · apply String.toList_inj.mp
        rw [behind]
        simp
    · exact absurd longer (underscore_append_ne (by decide) _ _)
  · rintro (⟨rfl, rfl⟩ | ⟨text, rfl, rfl⟩)
    · rfl
    · apply String.toList_inj.mp
      simp [symbol, slot]

theorem symbol_ne_iterator {unit name : String} (named : Lexeme.isIdentifier name = true)
    (depth : Nat) : symbol unit name ≠ iterator depth := by
  intro same
  have digits : ∀ c ∈ (toString depth).toList, c.isDigit = true := by
    intro c member
    exact Lexeme.isDigit_of_mem_toString member
  have counted : (iterator depth).toList =
      "__qd_".toList ++ ("iter".toList ++ '_' :: (toString depth).toList) := by
    simp [iterator]
  have lists := congrArg String.toList same
  rw [symbol_toList, counted, List.append_cancel_left_eq] at lists
  rcases underscore_cases lists with ⟨_, names⟩ | ⟨text, _, behind⟩ | ⟨text, longer, _⟩
  · -- A name starts with no digit.
    unfold Lexeme.isIdentifier at named
    split at named
    · cases named
    · next first tail spelled =>
      have numeric := digits first (by rw [← names, spelled]; exact List.mem_cons_self)
      have starts : Lexeme.isWordStart first = true := by
        simp only [Bool.and_eq_true] at named
        exact named.1.1.1
      have other : first.isDigit = false := Lexeme.not_isDigit_of_isWordStart starts
      rw [other] at numeric
      cases numeric
  · have marked := digits '_' (by rw [behind]; simp)
    cases marked
  · exact absurd longer (underscore_append_ne (by decide) _ _)

end CName

/-! ### Names of symbols -/

theorem beforeDoubleColon_append {front : List Char} (absent : ':' ∉ front) (rest : List Char) :
    beforeDoubleColon (front ++ ':' :: ':' :: rest) = front := by
  induction front with
  | nil => rfl
  | cons c front ih =>
    simp only [List.mem_cons, not_or] at absent
    rw [List.cons_append, beforeDoubleColon, ih absent.2]
    rintro _ rfl
    exact absurd rfl absent.1

theorem beforeDoubleColon_of_not_mem {text : List Char} (absent : ':' ∉ text) :
    beforeDoubleColon text = text := by
  induction text with
  | nil => rfl
  | cons c text ih =>
    simp only [List.mem_cons, not_or] at absent
    rw [beforeDoubleColon, ih absent.2]
    rintro _ rfl
    exact absurd rfl absent.1

theorem not_mem_of_isIdentifier {word : String} (named : Lexeme.isIdentifier word = true) :
    ':' ∉ word.toList := by
  unfold Lexeme.isIdentifier at named
  split at named
  · cases named
  · next first tail spelled =>
    simp only [Bool.and_eq_true, List.all_eq_true] at named
    rw [spelled]
    intro member
    rcases List.mem_cons.mp member with rfl | later
    · exact absurd named.1.1.1 (by decide)
    · exact absurd (named.1.1.2 ':' later) (by decide)

theorem Symbol.baseName_eq {symbol : Symbol} {module : Option String} {word : String}
    (spelled : symbol.name = qualify module word) (named : Lexeme.isIdentifier word = true) :
    symbol.baseName = word := by
  have absent : ':' ∉ word.toList.reverse := by simpa using not_mem_of_isIdentifier named
  rw [baseName, spelled]
  cases module with
  | none => rw [qualify, beforeDoubleColon_of_not_mem absent]; simp
  | some owner =>
    have reversed : (qualify (some owner) word).toList.reverse =
        word.toList.reverse ++ ':' :: ':' :: owner.toList.reverse := by
      simp [qualify]
    rw [reversed, beforeDoubleColon_append absent]
    simp

namespace Symbol

def cName (symbol : Symbol) : String := CName.symbol symbol.unit symbol.baseName

/-- A function other than the entry point, or a constant. -/
def IsExported (symbol : Symbol) : Prop :=
  symbol.kind = .function ∧ symbol.name ≠ entryPoint ∨ symbol.kind = .constant

/-- One name in a file that is asked for, and in an imported one whose unit has the same name. -/
structure Doubles (asked imported : Symbol) : Prop where
  unit : imported.unit = asked.unit
  plain : asked.name = asked.baseName
  qualified : imported.name = qualify (some asked.unit) asked.baseName

/-- What is behind an underscore in the name of one unit stands in front of one in the name of the
other symbol. -/
def Overlaps (longer shorter : Symbol) : Prop :=
  ∃ text, longer.unit = shorter.unit ++ "_" ++ text ∧
    shorter.baseName = text ++ "_" ++ longer.baseName

def SharesCName (first second : Symbol) : Prop :=
  first.Doubles second ∨ second.Doubles first ∨ first.Overlaps second ∨ second.Overlaps first

end Symbol

structure Exported (units : List SourceUnit) (symbol : Symbol) : Prop where
  named : Lexeme.isIdentifier symbol.baseName = true
  unscoped : symbol.scope = none
  origin : ∃ unit ∈ units, symbol.unit = unit.name ∧
    symbol.name = qualify unit.importName symbol.baseName

theorem exported_of_mem {units : List SourceUnit} (compiled : ∀ unit ∈ units, unit.Compiled)
    {table : SymbolTable} (analyzed : analyze units = .ok table) {symbol : Symbol}
    (member : symbol ∈ table.symbols) (exported : symbol.IsExported) : Exported units symbol := by
  rw [(symbols_of_analyze analyzed).1] at member
  obtain ⟨⟨unit, declaration⟩, listed, rfl⟩ := List.mem_map.mp member
  obtain ⟨owner, among, inside⟩ := List.mem_flatMap.mp listed
  obtain ⟨declared, here, same⟩ := List.mem_map.mp inside
  obtain ⟨rfl, rfl⟩ := Prod.mk.inj same
  have sited := sited_of_mem_declarations here
  have free : declared.kind.isScoped = false := by
    rcases exported with ⟨kind, _⟩ | kind
    · rw [show declared.kind = .function from kind]; rfl
    · rw [show declared.kind = .constant from kind]; rfl
  obtain ⟨unscoped, name⟩ := sited.exported free
  obtain ⟨_, _, _, identifiers⟩ := (compiled owner among).parsed
  have word := identifiers _ sited.inside sited.identifier
  have base : (symbolAt (owner, declared)).baseName = declared.site.literal :=
    Symbol.baseName_eq name word
  refine ⟨by rwa [base], unscoped, owner, among, rfl, ?_⟩
  rw [base]
  exact name

theorem Symbol.Doubles.cName_eq {asked imported : Symbol} (doubles : asked.Doubles imported)
    (named : Lexeme.isIdentifier asked.baseName = true) : asked.cName = imported.cName := by
  rw [cName, cName, doubles.unit, Symbol.baseName_eq doubles.qualified named]

theorem Symbol.Overlaps.cName_eq {longer shorter : Symbol} (overlaps : longer.Overlaps shorter) :
    longer.cName = shorter.cName := by
  obtain ⟨text, unit, name⟩ := overlaps
  apply String.toList_inj.mp
  rw [cName, cName, unit, name]
  simp [CName.symbol]

/-- Of two symbols with the same unit and name, one is asked for and the other is imported. -/
theorem Exported.doubles {units : List SourceUnit} {first second : Symbol}
    (left : Exported units first) (right : Exported units second) (apart : first.key ≠ second.key)
    (sameUnit : first.unit = second.unit) (sameName : first.baseName = second.baseName) :
    first.Doubles second ∨ second.Doubles first := by
  obtain ⟨unit, _, owned, name⟩ := left.origin
  obtain ⟨other, _, owned', name'⟩ := right.origin
  have differ : first.name ≠ second.name := by
    intro same
    apply apart
    rw [Symbol.key, Symbol.key, left.unscoped, right.unscoped, same]
  cases importName : unit.importName with
  | none =>
    rw [importName] at name
    cases importName' : other.importName with
    | none =>
      rw [importName'] at name'
      exact absurd (name.trans (sameName.trans name'.symm)) differ
    | some module =>
      have unitName : second.unit = module := by simp [owned', SourceUnit.name, importName']
      rw [importName', ← unitName, ← sameUnit, ← sameName] at name'
      exact .inl ⟨sameUnit.symm, name, name'⟩
  | some module =>
    have unitName : first.unit = module := by simp [owned, SourceUnit.name, importName]
    rw [importName, ← unitName] at name
    cases importName' : other.importName with
    | none =>
      rw [importName'] at name'
      rw [sameUnit, sameName] at name
      exact .inr ⟨sameUnit, name', name⟩
    | some module' =>
      have unitName' : second.unit = module' := by simp [owned', SourceUnit.name, importName']
      rw [importName', ← unitName', ← sameUnit, ← sameName] at name'
      exact absurd (name.trans name'.symm) differ

theorem Exported.cName_eq_iff {units : List SourceUnit} {first second : Symbol}
    (left : Exported units first) (right : Exported units second)
    (apart : first.key ≠ second.key) :
    first.cName = second.cName ↔ first.SharesCName second := by
  constructor
  · intro same
    have lists := congrArg String.toList same
    rw [Symbol.cName, Symbol.cName, CName.symbol_toList, CName.symbol_toList,
      List.append_cancel_left_eq] at lists
    have overlaps {longer shorter : Symbol} {text : List Char}
        (unit : longer.unit.toList = shorter.unit.toList ++ '_' :: text)
        (name : shorter.baseName.toList = text ++ '_' :: longer.baseName.toList) :
        longer.Overlaps shorter := by
      refine ⟨String.ofList text, String.toList_inj.mp ?_, String.toList_inj.mp ?_⟩
      · rw [unit]; simp
      · rw [name]; simp
    rcases underscore_cases lists with ⟨sameUnit, sameName⟩ | ⟨text, unit, name⟩ |
      ⟨text, unit, name⟩
    · rcases left.doubles right apart (String.toList_inj.mp sameUnit)
        (String.toList_inj.mp sameName) with doubles | doubles
      · exact .inl doubles
      · exact .inr (.inl doubles)
    · exact .inr (.inr (.inl (overlaps unit name)))
    · exact .inr (.inr (.inr (overlaps unit name)))
  · rintro (doubles | doubles | overlaps | overlaps)
    · exact doubles.cName_eq left.named
    · exact (doubles.cName_eq right.named).symm
    · exact overlaps.cName_eq
    · exact overlaps.cName_eq.symm

/-- When C names of an analysed program are the same. Two of its functions or constants share one
exactly if they are of one name in two units of one name, or if their unit and name are joined to
the same text at different underscores; one has the name of a part of the machine for twelve pairs
of unit and name only, and of a local value only in a unit whose name starts with `local`; none has
the name of a loop count. -/
theorem c_names_are_shared_exactly_by_overlapping_names {units : List SourceUnit}
    (compiled : ∀ unit ∈ units, unit.Compiled) {table : SymbolTable}
    (analyzed : analyze units = .ok table) :
    (∀ first ∈ table.symbols, ∀ second ∈ table.symbols, first.IsExported → second.IsExported →
      first ≠ second → (first.cName = second.cName ↔ first.SharesCName second)) ∧
    ∀ symbol ∈ table.symbols, symbol.IsExported →
      (symbol.cName ∈ Support.declaredNames ↔ (symbol.unit, symbol.baseName) ∈ machineOwners) ∧
      (∀ word, symbol.cName = CName.slot word ↔
        symbol.unit = "local" ∧ symbol.baseName = word ∨
          ∃ text, symbol.unit = "local" ++ "_" ++ text ∧
            word = text ++ "_" ++ symbol.baseName) ∧
      ∀ depth, symbol.cName ≠ CName.iterator depth := by
  have exported {symbol : Symbol} (member : symbol ∈ table.symbols)
      (known : symbol.IsExported) : Exported units symbol :=
    exported_of_mem compiled analyzed member known
  constructor
  · intro first member second member' known known' differ
    refine (exported member known).cName_eq_iff (exported member' known') ?_
    intro same
    exact differ (List.inj_on_of_nodup_map (symbols_of_analyze analyzed).2 member member' same)
  · intro symbol member known
    refine ⟨mem_declaredNames_iff _ _, CName.symbol_eq_slot_iff _ _, ?_⟩
    exact CName.symbol_ne_iterator (exported member known).named

theorem functions_of_two_modules_share_a_c_name :
    ∃ main left right machine table,
      (∀ unit ∈ [main, left, right, machine], unit.Compiled) ∧
      analyze [main, left, right, machine] = .ok table ∧
      ∃ first ∈ table.symbols, ∃ second ∈ table.symbols, ∃ third ∈ table.symbols,
        first.IsExported ∧ second.IsExported ∧ third.IsExported ∧
        first.name = "a::b_c" ∧ second.name = "a_b::c" ∧ first.cName = second.cName ∧
        third.name = "stack::ptr" ∧ third.cName ∈ Support.declaredNames := by
  let first : Symbol := ⟨"a::b_c", .function, "/src/main.qd", 1, 4, none, "a"⟩
  let second : Symbol := ⟨"a_b::c", .function, "/src/main.qd", 1, 4, none, "a_b"⟩
  let third : Symbol := ⟨"stack::ptr", .function, "/src/main.qd", 1, 4, none, "stack"⟩
  have accepted : (do
      let main ← unitOf none "fn main() {
a::b_c
a_b::c
stack::ptr
}
"
      let left ← unitOf (some "a") "fn b_c() {
}
"
      let right ← unitOf (some "a_b") "fn c() {
}
"
      let machine ← unitOf (some "stack") "fn ptr() {
}
"
      let table ← (analyze [main, left, right, machine]).toOption
      return [table.global? "a::b_c", table.global? "a_b::c", table.global? "stack::ptr"]) =
        some [some first, some second, some third] := by decide +kernel
  obtain ⟨main, readMain, accepted⟩ := Option.bind_eq_some_iff.mp accepted
  obtain ⟨left, readLeft, accepted⟩ := Option.bind_eq_some_iff.mp accepted
  obtain ⟨right, readRight, accepted⟩ := Option.bind_eq_some_iff.mp accepted
  obtain ⟨machine, readMachine, accepted⟩ := Option.bind_eq_some_iff.mp accepted
  obtain ⟨table, analyzed, accepted⟩ := Option.bind_eq_some_iff.mp accepted
  have analyzed := eq_ok_of_toOption analyzed
  have compiled : ∀ unit ∈ [main, left, right, machine], unit.Compiled := by
    simp [compiled_of_unitOf readMain, compiled_of_unitOf readLeft, compiled_of_unitOf readRight,
      compiled_of_unitOf readMachine]
  have found := Option.some.inj accepted
  simp only [List.cons.injEq, and_true] at found
  have member : first ∈ table.symbols := List.mem_of_find?_eq_some found.1
  have member' : second ∈ table.symbols := List.mem_of_find?_eq_some found.2.1
  have member'' : third ∈ table.symbols := List.mem_of_find?_eq_some found.2.2
  have known : first.IsExported := .inl ⟨rfl, by decide⟩
  have known' : second.IsExported := .inl ⟨rfl, by decide⟩
  have known'' : third.IsExported := .inl ⟨rfl, by decide⟩
  obtain ⟨pairs, each⟩ := c_names_are_shared_exactly_by_overlapping_names compiled analyzed
  have overlaps : second.Overlaps first := ⟨"b", by decide, by decide⟩
  refine ⟨main, left, right, machine, table, compiled, analyzed, first, member, second, member',
    third, member'', known, known', known'', rfl, rfl, ?_, rfl, ?_⟩
  · exact (pairs first member second member' known known' (by decide)).mpr
      (.inr (.inr (.inr overlaps)))
  · exact (each third member'' known'').1.mpr (by decide)

end StackLang
