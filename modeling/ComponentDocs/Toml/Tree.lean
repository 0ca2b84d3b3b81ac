import ComponentDocs.Toml.Value

/-!
The tables of a document while it is read.

A table is made by a header, by a dotted key, or implicitly on the way to a table
below it.  A header may name an implicit table once; a dotted key may go through
implicit tables and end in a table that dotted keys made.
-/

namespace ComponentDocs.Toml

inductive Origin where
  | header
  | dotted
  | implicit
  deriving DecidableEq, Repr

inductive Item where
  | value (value : Value)
  | table (origin : Origin) (entries : List (Text × Item))
  | tables (earlier : List (List (Text × Item))) (last : List (Text × Item))
  deriving Inhabited

abbrev Entries := List (Text × Item)

namespace Entries

def find? (entries : Entries) (key : Text) : Option Item :=
  entries.lookup key

def put (key : Text) (item : Item) : Entries → Entries
  | [] => [(key, item)]
  | (other, old) :: rest =>
      if other == key then (key, item) :: rest else (other, old) :: put key item rest

def change (action : Entries → Option Entries) : List Text → Entries → Option Entries
  | [], entries => action entries
  | key :: path, entries =>
      match entries.find? key with
      | none => (change action path []).map fun below => entries.put key (.table .implicit below)
      | some (.table origin below) =>
          (change action path below).map fun below => entries.put key (.table origin below)
      | some (.tables earlier last) =>
          (change action path last).map fun last => entries.put key (.tables earlier last)
      | some (.value _) => none

def openTable (key : Text) (entries : Entries) : Option Entries :=
  match entries.find? key with
  | none => some (entries.put key (.table .header []))
  | some (.table .implicit below) => some (entries.put key (.table .header below))
  | some _ => none

def openElement (key : Text) (entries : Entries) : Option Entries :=
  match entries.find? key with
  | none => some (entries.put key (.tables [] []))
  | some (.tables earlier last) => some (entries.put key (.tables (earlier ++ [last]) []))
  | some _ => none

def addValue (key : Text) (value : Value) (entries : Entries) : Option Entries :=
  match entries.find? key with
  | none => some (entries.put key (.value value))
  | some _ => none

/-- Put a new value under a dotted key.  `open?` says whether the table at hand takes
a value. -/
def addDotted (key : Text) (value : Value) (open? : Bool) : List Text → Entries → Option Entries
  | [], entries => if open? then entries.addValue key value else none
  | step :: path, entries =>
      match entries.find? step with
      | none =>
          (addDotted key value true path []).map fun below =>
            entries.put step (.table .dotted below)
      | some (.table .header _) | some (.value _) => none
      | some (.table origin below) =>
          (addDotted key value (origin == .dotted) path below).map fun below =>
            entries.put step (.table origin below)
      | some (.tables earlier last) =>
          (addDotted key value false path last).map fun last =>
            entries.put step (.tables earlier last)

end Entries

mutual

def Item.toValue : Item → Value
  | .value value => value
  | .table _ entries => .table (entriesToValues entries)
  | .tables earlier last => .list (tablesToValues earlier ++ [.table (entriesToValues last)])

def entriesToValues : List (Text × Item) → List (Text × Value)
  | [] => []
  | (key, item) :: rest => (key, item.toValue) :: entriesToValues rest

def tablesToValues : List (List (Text × Item)) → List Value
  | [] => []
  | entries :: rest => .table (entriesToValues entries) :: tablesToValues rest

end

end ComponentDocs.Toml
