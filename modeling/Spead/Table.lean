/-!
Finite maps.

A table holds its entries in ascending order of their keys, each key at most once.
-/

namespace Spead

structure Table (key value : Type) where
  entries : List (key × value) := []
  deriving DecidableEq, Repr

namespace Table

variable {key value : Type}

def empty : Table key value := {}

instance : Inhabited (Table key value) := ⟨empty⟩

def keys (table : Table key value) : List key :=
  table.entries.map Prod.fst

def values (table : Table key value) : List value :=
  table.entries.map Prod.snd

variable [DecidableEq key]

def get? (table : Table key value) (wanted : key) : Option value :=
  (table.entries.find? fun entry => entry.1 = wanted).map Prod.snd

def contains (table : Table key value) (wanted : key) : Bool :=
  table.entries.any fun entry => entry.1 = wanted

def erase (table : Table key value) (unwanted : key) : Table key value :=
  ⟨table.entries.filter fun entry => entry.1 ≠ unwanted⟩

variable [LT key] [DecidableLT key]

/-- Put an entry into ascending entries, in the place of one with the same key. -/
def insertEntry (entry : key × value) : List (key × value) → List (key × value)
  | [] => [entry]
  | head :: tail =>
      if head.1 < entry.1 then
        head :: insertEntry entry tail
      else if head.1 = entry.1 then
        entry :: tail
      else
        entry :: head :: tail

def put (table : Table key value) (changed : key) (content : value) : Table key value :=
  ⟨insertEntry (changed, content) table.entries⟩

end Table
end Spead
