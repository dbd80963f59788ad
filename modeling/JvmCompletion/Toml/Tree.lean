import JvmCompletion.Toml.Value

/-!
# Building tables

The lines of a TOML document add to the tables of the document. A header opens a table, or a new
element of an array of tables, and the keys after it go there; a dotted key goes on from there. What
a line may add to is restricted, so that each table and each key is defined in one place:

* a key is given a value once;
* a header opens a table once, though one may come after headers of tables below it;
* a dotted key may add to tables that dotted keys made, and to those that are only there because a
  header opened one below them, which then can no longer be opened by a header;
* nothing is added to tables in braces and arrays in brackets once they are closed.

A path that leads through an array of tables goes on in its last element.
-/

namespace JvmCompletion.Toml

/-- The entries of a table. -/
abbrev Entries := List (String × Value)

/-- Changes the entry with a key, or adds one at the end. The change sees the value that is there,
and may refuse. -/
def change (key : String) (f : Option Value → Option Value) : Entries → Option Entries
  | [] => (f none).map fun v => [(key, v)]
  | (k, v) :: rest =>
    if k = key then (f (some v)).map fun v' => (k, v') :: rest
    else (change key f rest).map ((k, v) :: ·)

/-- A change to the entries of a table, given how the table came about. -/
abbrev TableChange := TableOrigin → Entries → Option Entries

/-- The origin of a table after a dotted key or a header has led through it; `none` if nothing can
be added to it that way. -/
def TableOrigin.through? (byDottedKey : Bool) : TableOrigin → Option TableOrigin
  | .header => if byDottedKey then none else some .header
  | .implied => if byDottedKey then some .dotted else some .implied
  | .dotted => some .dotted
  | .braces => none

/-- Changes the entries of a table that is found, or made, as a value: the last element of an array
of tables, or a table that is still open. -/
def throughValue (byDottedKey : Bool) (f : TableChange) : Option Value → Option Value
  | none =>
    let origin := if byDottedKey then .dotted else .implied
    (f origin []).map (.table origin)
  | some (.table found entries) => do
    let origin ← found.through? byDottedKey
    let changed ← f origin entries
    return .table origin changed
  | some (.array .headers elements) =>
    match elements.getLast? with
    | some (.table origin entries) =>
      (f origin entries).map fun changed =>
        .array .headers (elements.dropLast ++ [.table origin changed])
    | _ => none
  | some _ => none

/-- Changes the entries of the table that a path leads to, from a table given with its origin. -/
def along (byDottedKey : Bool) : List String → TableChange → TableChange
  | [], f => f
  | key :: path, f => fun _ entries =>
    change key (throughValue byDottedKey (along byDottedKey path f)) entries

/-- Gives a key a value, in the table that the rest of a dotted key leads to. -/
def assign (path : List String) (key : String) (value : Value) : TableChange :=
  along true path fun origin entries =>
    if origin = .dotted ↔ path ≠ [] then
      change key (fun | none => some value | some _ => none) entries
    else none

/-- Opens a table with a header. -/
def openTable (path : List String) (key : String) : TableChange :=
  along false path fun _ =>
    change key fun
      | none => some (.table .header [])
      | some (.table .implied entries) => some (.table .header entries)
      | some _ => none

/-- Opens a new element of an array of tables with a header. -/
def openElement (path : List String) (key : String) : TableChange :=
  along false path fun _ =>
    change key fun
      | none => some (.array .headers [.table .header []])
      | some (.array .headers elements) => some (.array .headers (elements ++ [.table .header []]))
      | some _ => none

end JvmCompletion.Toml
