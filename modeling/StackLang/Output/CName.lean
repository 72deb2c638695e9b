import StackLang.Path
import StackLang.Text.CharClass

/-! The names of a program in C: of its symbols, of its files, and of the guards of its
headers. -/
namespace StackLang.CName

def real : String := "__qd_real_t"

def symbol (unit name : String) : String := "__qd_" ++ unit ++ "_" ++ name

def primitive (name : String) : String := "__qd_" ++ name

def slot (name : String) : String := "__qd_local_" ++ name

def iterator (depth : Nat) : String := "__qd_iter_" ++ toString depth

def fileStem (unit : String) (path : Path) : String := unit ++ "_" ++ path.stem?.getD ""

def header (unit : String) (path : Path) : String := fileStem unit path ++ ".h"

def source (unit : String) (path : Path) : String := fileStem unit path ++ ".c"

/-- The guard of the header of a file: its path, with an underscore for all but letters
and digits. -/
def guard (path : Path) : String :=
  "QD" ++ path.text.map (fun c => if Text.isAlphanumeric c then c.toUpper else '_') ++ "_H"

end StackLang.CName
