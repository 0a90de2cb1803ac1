/-!
# Settings trees

What a settings text says: values under keys, and tables of them. While the text is read a table
remembers how it came about, since that decides which later lines may add to it. A table opened by a
header takes keys until the next header; a table that a header merely passes through may still be
opened; one that a dotted key passes through may get further dotted keys; and one written inline is
closed.
-/

namespace BridgeKernel.Toml

/-- How a table came about. -/
inductive TableForm where
  /-- A header opened it. -/
  | opened
  /-- The header of a deeper table passes through it. -/
  | implied
  /-- A dotted key passes through it. -/
  | dotted
  /-- It is written between braces. -/
  | inline
deriving DecidableEq, Repr

/-- A value, a table, or a list of tables. -/
inductive Node where
  /-- A text. -/
  | text (value : String)
  /-- A whole number. -/
  | integer (value : Int)
  /-- A truth value. -/
  | boolean (value : Bool)
  /-- A number with a fraction or an exponent, as written. -/
  | decimal (written : List Char)
  /-- A date, a time or both, as written. -/
  | moment (written : List Char)
  /-- A list of values. -/
  | array (items : List Node)
  /-- Values under keys. -/
  | table (form : TableForm) (entries : List (String × Node))
  /-- Tables opened one after another under one header. -/
  | tables (elements : List (List (String × Node)))
deriving Inhabited

/-- Values under keys, in the order in which they were written. -/
abbrev Entries := List (String × Node)

namespace Entries

/-- The value of a key. -/
def find? (entries : Entries) (key : String) : Option Node := entries.lookup key

/-- The entries with the value of a key changed; a new key goes to the end. -/
def alter (key : String) (f : Option Node → Option Node) : Entries → Option Entries
  | [] => (f none).map fun node => [(key, node)]
  | (k, node) :: rest =>
    if k = key then (f (some node)).map fun changed => (k, changed) :: rest
    else (alter key f rest).map ((k, node) :: ·)

/-- A change of the last of a list of tables. -/
def alterLast (f : Entries → Option Entries) : List Entries → Option (List Entries)
  | [] => none
  | [last] => (f last).map ([·])
  | first :: rest => (alterLast f rest).map (first :: ·)

/-- A change of the table at a path, given the form of that table. Missing tables on the way come
about in the form `created`; a list of tables stands for its last; values and inline tables have
nothing below them. A dotted key does not pass through a table that a header opened. -/
def alterAt (created : TableForm) (f : TableForm → Entries → Option Entries) :
    List String → TableForm → Entries → Option Entries
  | [], form, entries => f form entries
  | key :: path, _, entries =>
    entries.alter key fun
      | none => (alterAt created f path created []).map (.table created)
      | some (.table .inline _) => none
      | some (.table form inner) =>
        if created = .dotted ∧ form = .opened then none
        else (alterAt created f path form inner).map (.table form)
      | some (.tables elements) =>
        (alterLast (alterAt created f path .opened) elements).map .tables
      | some _ => none

/-- The entries with a new key. -/
def add (key : String) (node : Node) (entries : Entries) : Option Entries :=
  entries.alter key fun
    | none => some node
    | some _ => none

/-- The entries with a value under a new key, which may be dotted. -/
def insert (path : List String) (key : String) (node : Node) (entries : Entries) : Option Entries :=
  if path.isEmpty then entries.add key node
  else
    entries.alterAt .dotted (fun form inner => if form = .dotted then inner.add key node else none)
      path .opened

/-- The entries with a table opened by a header; one that was merely passed through keeps what it
holds. -/
def openTable (path : List String) (key : String) (entries : Entries) : Option Entries :=
  entries.alterAt .implied (fun _ inner => inner.alter key fun
    | none => some (.table .opened [])
    | some (.table .implied held) => some (.table .opened held)
    | some _ => none) path .opened

/-- The entries with one more table in a list of tables. -/
def openElement (path : List String) (key : String) (entries : Entries) : Option Entries :=
  entries.alterAt .implied (fun _ inner => inner.alter key fun
    | none => some (.tables [[]])
    | some (.tables elements) => some (.tables (elements ++ [[]]))
    | some _ => none) path .opened

/-- The entries with a value under a key of the table that a header has opened. -/
def insertUnder (header path : List String) (key : String) (node : Node) (entries : Entries) :
    Option Entries :=
  entries.alterAt .implied (fun _ inner => inner.insert path key node) header .opened

end Entries

end BridgeKernel.Toml
