namespace Recalc.Toml

/-- How a table comes to be. -/
inductive Origin
  /-- A header names it. The table of the whole file counts as one of these. -/
  | header
  /-- A header names a table inside it. -/
  | parent
  /-- A dotted key leads through it. -/
  | dotted
  /-- It is written as a value. -/
  | literal
deriving DecidableEq, Repr

inductive Item
  | text (s : String)
  | int (n : Int)
  | float (x : Float)
  | bool (b : Bool)
  /-- A date, a time or both, as it is written. -/
  | moment (s : String)
  | list (items : List Item)
  | table (origin : Origin) (entries : List (String × Item))
  /-- The tables of a header that may be repeated. -/
  | tables (rows : List (List (String × Item)))

/-- Entries under their names, of which no two are the same. -/
abbrev Table := List (String × Item)

/-- A name, and the names of the tables that lead to it. -/
structure Key where
  path : List String
  name : String
deriving DecidableEq, Repr

/-- Whether the path stands in a header or is that of a key. -/
inductive PathKind
  | ofHeader
  | ofKey
deriving DecidableEq, Repr

namespace PathKind

/-- What the tables are that a path makes. -/
def made : PathKind → Origin
  | ofHeader => .parent
  | ofKey => .dotted

/-- Whether a path may lead through a table. No value is changed, and a key does not lead into a
table that a header has named. -/
def enters : PathKind → Origin → Bool
  | _, .literal => false
  | ofKey, .header => false
  | _, _ => true

end PathKind

namespace Table

/-- Put an item in the place of the one with its name, or else at the end. -/
def put (key : String) (item : Item) : Table → Table
  | [] => [(key, item)]
  | entry :: rest =>
    if entry.1 = key then (key, item) :: rest else entry :: put key item rest

/-- Change the table that a path leads to. Of repeated tables it leads into the last. -/
def change (kind : PathKind) (f : Origin → Table → Option Table) (origin : Origin) (t : Table) :
    List String → Option Table
  | [] => f origin t
  | key :: path =>
    match t.lookup key with
    | none => (change kind f kind.made [] path).map fun inner => t.put key (.table kind.made inner)
    | some (.table o inner) =>
      if kind.enters o then (change kind f o inner path).map fun inner => t.put key (.table o inner)
      else none
    | some (.tables rows) => do
      let inner ← change kind f .header (← rows.getLast?) path
      return t.put key (.tables (rows.dropLast ++ [inner]))
    | some _ => none

/-- Add an entry to a table. Its name is new, and a dotted key adds to the tables of dotted keys
only. -/
def add (key : Key) (item : Item) (origin : Origin) (t : Table) : Option Table :=
  t.change .ofKey
    (fun o inner =>
      if (o = .dotted ↔ key.path = []) ∨ (inner.lookup key.name).isSome then none
      else some (inner.put key.name item))
    origin key.path

/-- Begin the table of a header. No other header has named it. -/
def begin (key : Key) (t : Table) : Option Table :=
  t.change .ofHeader
    (fun _ outer =>
      match outer.lookup key.name with
      | none => some (outer.put key.name (.table .header []))
      | some (.table .parent inner) => some (outer.put key.name (.table .header inner))
      | some _ => none)
    .header key.path

/-- Begin one more table of a header that may be repeated. -/
def beginRow (key : Key) (t : Table) : Option Table :=
  t.change .ofHeader
    (fun _ outer =>
      match outer.lookup key.name with
      | none => some (outer.put key.name (.tables [[]]))
      | some (.tables rows) => some (outer.put key.name (.tables (rows ++ [[]])))
      | some _ => none)
    .header key.path

end Table

end Recalc.Toml
