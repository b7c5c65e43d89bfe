import Spead.Bytes
import Spead.FloatingPoint

/-!
Settings as they are written: names with values that have no meaning yet.

`readRecord?` gives them one: every entry of a table sets the field of its name, and a table with
an unknown name or an unfit value is refused as a whole. A list stands for the fields in their
order; what becomes of the entries that no field is left for is up to the reader (`Surplus`).
-/

namespace Spead

/-- What becomes of the entries of a list that is longer than the record has fields. -/
inductive Surplus where
  /-- The list is refused as a whole. -/
  | refused
  /-- They say nothing. -/
  | ignored
  deriving DecidableEq, Repr

/-- Whether a list of so many entries may stand for a record of so many fields. -/
def Surplus.admits (surplus : Surplus) (entries fields : Nat) : Bool :=
  entries ≤ fields || surplus == .ignored

/-- A value as it is written in a configuration. -/
inductive SettingValue where
  | truth (value : Bool)
  | integer (value : Int)
  | real (value : Binary64)
  | text (value : String)
  | list (entries : List SettingValue)
  | table (entries : List (String × SettingValue))

namespace SettingValue

instance : Inhabited SettingValue := ⟨table []⟩

def below? (limit : Nat) : SettingValue → Option Nat
  | integer (.ofNat value) => if value < limit then some value else none
  | _ => none

def word? (value : SettingValue) : Option Nat :=
  value.below? wordLimit

/-- A floating-point number; a whole number stands for the nearest one. -/
def real? : SettingValue → Option Binary64
  | real value => some value
  | integer value => some (.ofDecimal (value < 0) value.natAbs 0)
  | _ => none

def text? : SettingValue → Option String
  | text value => some value
  | _ => none

def texts? : SettingValue → Option (List String)
  | list entries => entries.mapM text?
  | _ => none

def setFields? {record : Type} (set : record → String → SettingValue → Option record)
    (start : record) (entries : List (String × SettingValue)) : Option record :=
  entries.foldlM (fun current (name, value) => set current name value) start

/-- Read a record. A table names the fields that it sets; a list sets the fields of the given
names from the first one on. All other fields stay as they are. -/
def readRecord? {record : Type} (surplus : Surplus) (names : List String)
    (set : record → String → SettingValue → Option record) (start : record) :
    SettingValue → Option record
  | table entries => setFields? set start entries
  | list entries =>
      if surplus.admits entries.length names.length then
        setFields? set start (names.zip entries)
      else
        none
  | _ => none

end SettingValue

/-- A notation for the settings in a file. -/
class SettingsNotation where
  read? : String → Option SettingValue
  /-- Where nothing is written, nothing is set. -/
  read?_empty : read? "" = some (.table [])

end Spead
