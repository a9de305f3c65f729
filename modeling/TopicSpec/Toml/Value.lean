import TopicSpec.Double.Basic

/-! # TOML documents

The values of a document, and the building of its tables from key-value pairs and headers. Each
table is made in one way, and the way decides what may be added to it later. -/

namespace TopicSpec.Toml
set_option autoImplicit false

/-- How a table came to be. -/
inductive Origin where
  /-- By a header of its own. -/
  | header
  /-- On the way of a header to a deeper table; a header of its own may follow. -/
  | implied
  /-- On the way of a dotted key. -/
  | dotted
  /-- By braces; nothing can be added to it. -/
  | inline
  deriving DecidableEq

inductive Value where
  | string (text : String)
  | integer (n : Int)
  | float (x : Double)
  /-- A number beyond all integers or floats; a document may hold it where nobody asks for it. -/
  | overflow
  | boolean (b : Bool)
  /-- A date, a time or both, in standard form. -/
  | datetime (text : String)
  | array (items : List Value)
  /-- An array whose items are tables with headers. -/
  | tables (items : List Value)
  | table (origin : Origin) (entries : List (String × Value))

def Value.overflows : Value → Bool
  | .overflow => true
  | .array items | .tables items => items.attach.any fun ⟨item, _⟩ => item.overflows
  | .table _ entries => entries.attach.any fun ⟨entry, _⟩ => entry.2.overflows
  | _ => false
termination_by value => sizeOf value
decreasing_by
  all_goals simp_wf
  · have := List.sizeOf_lt_of_mem ‹_ ∈ items›
    omega
  · have := List.sizeOf_lt_of_mem ‹_ ∈ items›
    omega
  · have := List.sizeOf_lt_of_mem ‹_ ∈ entries›
    obtain ⟨key, value⟩ := entry
    simp at this ⊢
    omega

/-- The entries of a table, in the order of their appearance, with one entry to a key. -/
abbrev Entries : Type := List (String × Value)

abbrev Table : Type := Origin × Entries

namespace Table

def lookup (key : String) (entries : Entries) : Option Value :=
  (entries.find? (·.1 == key)).map (·.2)

def put (key : String) (value : Value) (entries : Entries) : Entries :=
  if entries.any (·.1 == key) then
    entries.map fun entry => if entry.1 == key then (key, value) else entry
  else entries ++ [(key, value)]

def toValue (table : Table) : Value := .table table.1 table.2

/-- Changes the table at a path, with the tables that are missing on the way. The last item stands
for an array of tables. A dotted key passes only through tables made by dotted keys, or on the way
of a header. -/
def alter (dotted : Bool) (change : Table → Option Table) : List String → Table → Option Table
  | [], table => change table
  | key :: path, (origin, entries) => do
    match lookup key entries with
    | none =>
      let inner ← alter dotted change path (if dotted then .dotted else .implied, [])
      return (origin, put key (toValue inner) entries)
    | some (.table innerOrigin innerEntries) =>
      guard (innerOrigin ≠ .inline)
      guard (!(dotted && innerOrigin = .header))
      let inner ← alter dotted change path (innerOrigin, innerEntries)
      return (origin, put key (toValue inner) entries)
    | some (.tables items) =>
      match items.getLast? with
      | some (.table innerOrigin innerEntries) =>
        let inner ← alter dotted change path (innerOrigin, innerEntries)
        return (origin, put key (.tables (items.dropLast ++ [toValue inner])) entries)
      | _ => none
    | some _ => none

/-- Adds an entry under a dotted key, whose last part is `key`. The table that takes it is made by
this key or another dotted one, unless it is the table at hand. -/
def insert (path : List String) (key : String) (value : Value) : Table → Option Table :=
  alter true (fun (origin, entries) => do
    guard ((origin = .dotted) = !path.isEmpty)
    guard (lookup key entries).isNone
    return (origin, entries ++ [(key, value)])) path

def openTable (path : List String) (key : String) : Table → Option Table :=
  alter false (fun (origin, entries) =>
    match lookup key entries with
    | none => some (origin, put key (.table .header []) entries)
    | some (.table .implied inner) => some (origin, put key (.table .header inner) entries)
    | some _ => none) path

def openItem (path : List String) (key : String) : Table → Option Table :=
  alter false (fun (origin, entries) =>
    match lookup key entries with
    | none => some (origin, put key (.tables [.table .header []]) entries)
    | some (.tables items) =>
      some (origin, put key (.tables (items ++ [.table .header []])) entries)
    | some _ => none) path

end Table

/-- The parts of a dotted key before its last one, and the last one. -/
structure Key where
  path : List String
  last : String

def Key.parts (key : Key) : List String := key.path ++ [key.last]

inductive Statement where
  | entry (key : Key) (value : Value)
  | header (key : Key)
  | itemHeader (key : Key)

/-- Performs the statements of a document, the entries going into the table of the last header. -/
def perform (current : List String) : List Statement → Table → Option Table
  | [], table => some table
  | .entry key value :: rest, table => do
    perform current rest (← table.alter false (Table.insert key.path key.last value) current)
  | .header key :: rest, table => do
    perform key.parts rest (← table.openTable key.path key.last)
  | .itemHeader key :: rest, table => do
    perform key.parts rest (← table.openItem key.path key.last)

def inlineTable (entries : List (Key × Value)) : Option Value := do
  let table ← entries.foldlM
    (fun (table : Table) (key, value) => table.insert key.path key.last value) (.inline, [])
  return table.toValue

end TopicSpec.Toml
