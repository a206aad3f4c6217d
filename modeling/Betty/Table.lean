/-!
# Finite maps from names

A `Table` keeps its entries in increasing order of their names, each name once, so
that two tables with the same contents are equal whatever the order in which they
were filled.
-/

namespace Betty

/-- A finite map from names to values of type `α`. -/
structure Table (α : Type) where
  entries : List (String × α)

namespace Table

variable {α : Type}

/-- The table without entries. -/
def empty : Table α := ⟨[]⟩

instance : Inhabited (Table α) := ⟨empty⟩

/-- The value of a name, if it has one. -/
def get? (table : Table α) (name : String) : Option α :=
  (table.entries.find? fun entry => entry.1 == name).map Prod.snd

/-- Does the name have a value? -/
def contains (table : Table α) (name : String) : Bool :=
  (table.get? name).isSome

/-- Puts an entry at its place in a row of entries, instead of one with the same name
if there is one. -/
def insertEntry (name : String) (value : α) : List (String × α) → List (String × α)
  | [] => [(name, value)]
  | entry :: rest =>
    if entry.1 == name then (name, value) :: rest
    else if entry.1 < name then entry :: insertEntry name value rest
    else (name, value) :: entry :: rest

/-- Gives a name a value, whether it had one before or not. -/
def put (table : Table α) (name : String) (value : α) : Table α :=
  ⟨insertEntry name value table.entries⟩

end Table

end Betty
