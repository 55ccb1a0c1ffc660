/-!
# Tables

Association lists sorted by key, each key once. They list their entries in the
order of the keys, whatever the order in which these were inserted.
-/

namespace Discharge

/-- Entries sorted by key. -/
abbrev Table (α : Type) := List (String × α)

namespace Table

variable {α : Type}

/-- Insert an entry, or replace the one with the same key. -/
def insert (key : String) (value : α) : Table α → Table α
  | [] => [(key, value)]
  | (k, v) :: rest =>
    if key = k then (k, value) :: rest
    else if key < k then (key, value) :: (k, v) :: rest
    else (k, v) :: insert key value rest

def find? (t : Table α) (key : String) : Option α := t.lookup key

/-- There is an entry under the key. -/
def contains (t : Table α) (key : String) : Bool := (t.find? key).isSome

def keys (t : Table α) : List String := t.map (·.1)

/-- The values in the order of their keys. -/
def values (t : Table α) : List α := t.map (·.2)

end Table

end Discharge
