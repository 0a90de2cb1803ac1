import BridgeKernel.Toml.Lexical

/-!
# Settings texts

A text is a sequence of lines: a key with its value, the header of a table, or nothing. A key belongs
to the table of the last header above it.
-/

namespace BridgeKernel.Toml

open Scan

/-- An equals sign and a value after a key. -/
def keyValue (value : Scan Node) : Scan ((List String × String) × Node) := do
  let name ← key
  exactly ['=']
  blanks
  return (name, ← value)

/-- A list of values, each on as many lines as it likes. -/
def array (value : Scan Node) : Scan Node := do
  exactly ['[']
  let item : Scan Node := do
    filler
    let node ← value
    filler
    return node
  let items ← maybe (do
    let items ← separated item (exactly [','])
    let _ ← maybe (exactly [','])
    return items)
  filler
  exactly [']']
  return .array (items.getD [])

/-- A table between braces, on one line. -/
def inlineTable (value : Scan Node) : Scan Node := do
  exactly ['{']
  let entry := do
    let entry ← keyValue value
    blanks
    return entry
  let entries ← maybe (separated entry (exactly [',']))
  blanks
  exactly ['}']
  let table : Option Entries := (entries.getD []).foldlM
    (fun held entry => Entries.insert entry.1.1 entry.1.2 entry.2 held) []
  return .table .inline (← ofOption table)

/-- A value that holds others at most so many levels deep. -/
def valueWithin : Nat → Scan Node
  | 0 => scalar
  | depth + 1 => scalar <|> array (valueWithin depth) <|> inlineTable (valueWithin depth)

/-- A value. -/
def value : Scan Node := valueWithin maxDepth

/-- What a line says. -/
inductive Line where
  /-- Nothing. -/
  | empty
  /-- A key, which may be dotted, has a value. -/
  | entry (path : List String) (key : String) (value : Node)
  /-- The header of a table. -/
  | table (path : List String) (key : String)
  /-- The header of one more table in a list of tables. -/
  | element (path : List String) (key : String)

/-- One line. -/
def line : Scan Line := do
  blanks
  let said ←
    (do
      exactly ['[', '[']
      let (path, key) ← key
      exactly [']', ']']
      return Line.element path key) <|>
    (do
      exactly ['[']
      let (path, key) ← key
      exactly [']']
      return Line.table path key) <|>
    (do
      let ((path, key), value) ← keyValue value
      return Line.entry path key value) <|>
    return Line.empty
  lineEnd
  return said

/-- What the lines so far have said: the whole tree, and the path of the last header. -/
structure Reading where
  /-- The whole tree. -/
  root : Entries
  /-- The path of the table that takes further keys. -/
  current : List String

/-- What is said after one more line. -/
def Reading.step (r : Reading) : Line → Option Reading
  | .empty => some r
  | .entry path key value =>
    (r.root.insertUnder r.current path key value).map fun root => { r with root }
  | .table path key =>
    (r.root.openTable path key).map fun root => ⟨root, path ++ [key]⟩
  | .element path key =>
    (r.root.openElement path key).map fun root => ⟨root, path ++ [key]⟩

/-- The lines of a text, after a mark of its encoding. -/
def lines : Scan (List Line) := do
  let _ ← maybe (exactly ['\ufeff'])
  let lines ← many line
  blanks
  atEnd
  return lines

/-- The tree that a text describes. -/
def parse (text : String) : Option Entries := do
  let (lines, _) ← lines text.toList
  let reading ← lines.foldlM Reading.step ⟨[], []⟩
  return reading.root

end BridgeKernel.Toml
