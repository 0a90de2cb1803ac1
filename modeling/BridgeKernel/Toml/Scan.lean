/-!
# Scanning

A scan reads something at the front of a text and leaves the rest, or finds that it is not there.
-/

namespace BridgeKernel.Toml

/-- A reading of the front of a text. -/
abbrev Scan (α : Type) := StateT (List Char) Option α

namespace Scan

variable {α β : Type}

/-- Nothing, where the text ends. -/
def atEnd : Scan Unit := fun
  | [] => some ((), [])
  | _ :: _ => none

/-- One character of a class. -/
def char (p : Char → Bool) : Scan Char := fun
  | [] => none
  | c :: rest => if p c then some (c, rest) else none

/-- A given text. -/
def exactly (text : List Char) : Scan Unit := fun s =>
  if text.isPrefixOf s then some ((), s.drop text.length) else none

/-- All characters of a class up to the first other one. -/
def span (p : Char → Bool) : Scan (List Char) := fun s => some (s.takeWhile p, s.dropWhile p)

/-- A given number of characters of a class. -/
def chars (p : Char → Bool) (n : Nat) : Scan (List Char) := fun s =>
  if (s.take n).length = n ∧ (s.take n).all p then some (s.take n, s.drop n) else none

/-- Nothing, where a scan would find something. -/
def ahead (scan : Scan α) : Scan Unit := fun s => (scan s).map fun _ => ((), s)

/-- Something or nothing. -/
def maybe (scan : Scan α) : Scan (Option α) := fun s =>
  match scan s with
  | some (a, rest) => some (some a, rest)
  | none => some (none, s)

/-- A scan repeated at most so often, while it finds something and moves on. -/
def repeated (scan : Scan α) : Nat → Scan (List α)
  | 0, s => some ([], s)
  | n + 1, s =>
    match scan s with
    | none => some ([], s)
    | some (a, rest) =>
      if rest.length < s.length then
        (repeated scan n rest).map fun more => (a :: more.1, more.2)
      else some ([], s)

/-- A scan repeated as often as it finds something and moves on. -/
def many (scan : Scan α) : Scan (List α) := fun s => repeated scan s.length s

/-- One or more, with something between them. -/
def separated (scan : Scan α) (separator : Scan β) : Scan (List α) := do
  let first ← scan
  let more ← many (separator *> scan)
  return first :: more

/-- A scan with the text that it has read. -/
def written (scan : Scan α) : Scan (List Char × α) := fun s =>
  (scan s).map fun found => ((s.take (s.length - found.2.length), found.1), found.2)

/-- At least one. -/
def many1 (scan : Scan α) : Scan (List α) := do
  let first ← scan
  let more ← many scan
  return first :: more

/-- A value that is already known, if there is one. -/
def ofOption (a : Option α) : Scan α := fun s => a.map ((·, s))

end Scan

end BridgeKernel.Toml
