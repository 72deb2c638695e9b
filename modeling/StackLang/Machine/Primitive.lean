/-! The words of the machine: functions of one cell, functions of two, and the words that
move cells, print them or stop. -/
namespace StackLang

inductive Unary where
  | neg | inc | dec | abs | not
  | sin | cos | tan | asin | acos | atan | sqrt | cbrt | sq | cb
  | ceil | floor | round | ln | log10 | exp | inv | fac
  deriving DecidableEq, Repr

/-- A function of the top two cells, the deeper one first. -/
inductive Binary where
  | add | sub | mul | div | mod
  | eq | neq | gt | gte | lt | lte | and | or | xor
  | pow | min | max
  deriving DecidableEq, Repr

inductive Primitive where
  | unary (which : Unary)
  | binary (which : Binary)
  | within
  | push | pop | drop | drop2 | dup | dup2 | dupd | swap | swap2 | swapd
  | over | over2 | nip | tuck | rot | pick | roll | clear | depth | mark
  | print | printv | prints | printsv | nl | read
  | error
  deriving DecidableEq, Repr

namespace Primitive

def named : List (String × Primitive) :=
  [("add", .binary .add), ("sub", .binary .sub), ("mul", .binary .mul), ("div", .binary .div),
    ("mod", .binary .mod), ("neg", .unary .neg), ("inc", .unary .inc), ("dec", .unary .dec),
    ("abs", .unary .abs),
    ("eq", .binary .eq), ("neq", .binary .neq), ("gt", .binary .gt), ("gte", .binary .gte),
    ("lt", .binary .lt), ("lte", .binary .lte), ("within", .within), ("and", .binary .and),
    ("or", .binary .or), ("not", .unary .not), ("xor", .binary .xor),
    ("push", .push), ("pop", .pop), ("drop", .drop), ("drop2", .drop2), ("dup", .dup),
    ("dup2", .dup2), ("dupd", .dupd), ("swap", .swap), ("swap2", .swap2), ("swapd", .swapd),
    ("over", .over), ("over2", .over2), ("nip", .nip), ("tuck", .tuck), ("rot", .rot),
    ("pick", .pick), ("roll", .roll), ("clear", .clear), ("depth", .depth), ("mark", .mark),
    ("sin", .unary .sin), ("cos", .unary .cos), ("tan", .unary .tan), ("asin", .unary .asin),
    ("acos", .unary .acos), ("atan", .unary .atan), ("sqrt", .unary .sqrt),
    ("cbrt", .unary .cbrt), ("sq", .unary .sq), ("cb", .unary .cb), ("ceil", .unary .ceil),
    ("floor", .unary .floor), ("round", .unary .round), ("ln", .unary .ln),
    ("log10", .unary .log10), ("exp", .unary .exp), ("pow", .binary .pow),
    ("min", .binary .min), ("max", .binary .max), ("inv", .unary .inv), ("fac", .unary .fac),
    ("print", .print), ("printv", .printv), ("prints", .prints), ("printsv", .printsv),
    ("nl", .nl), ("read", .read),
    ("error", .error)]

def ofName? (name : String) : Option Primitive := named.lookup name

def isName (name : String) : Bool := (ofName? name).isSome

end Primitive

end StackLang
