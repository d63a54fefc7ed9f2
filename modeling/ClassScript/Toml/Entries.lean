import ClassScript.Toml.Value

/-!
# Tables of TOML documents

The tree of tables and values that a document describes. A path of keys leads into the tables on
its way; of tables in a row it leads into the last one.
-/

namespace ClassScript.Toml

/-- A value or table of a document. -/
inductive Item where
  /-- A value without parts. -/
  | scalar (s : Scalar)
  /-- A list of values. -/
  | array (items : List Item)
  /-- A table. -/
  | table (entries : List (String × Item))
  /-- Tables in a row: those before the last one, and the last one. -/
  | tables (before : List (List (String × Item))) (last : List (String × Item))
deriving Inhabited

/-- The contents of a table, in the order they are defined. -/
abbrev Entries := List (String × Item)

/-- Whether an item is a list of values. -/
def Item.isArray : Item → Bool
  | array _ => true
  | _ => false

/-- The table that a path goes on in behind an item. -/
def Item.inner? : Item → Option Entries
  | table entries => some entries
  | tables _ last => some last
  | _ => none

/-- An item with another table for a path to go on in. -/
def Item.withInner (inner : Entries) : Item → Item
  | tables before _ => tables before inner
  | _ => table inner

namespace Entries

/-- Puts an item in the place of the item of a key, or behind the others. -/
def put (es : Entries) (key : String) (item : Item) : Entries :=
  if es.any (·.1 = key) then es.map fun e => if e.1 = key then (key, item) else e
  else es ++ [(key, item)]

/-- The table that a path leads to. -/
def at? : List String → Entries → Option Entries
  | [], es => some es
  | key :: rest, es => do at? rest (← (← es.lookup key).inner?)

/-- Changes the table that a path leads to. -/
def modifyAt? (f : Entries → Entries) : List String → Entries → Option Entries
  | [], es => some (f es)
  | key :: rest, es => do
    let item ← es.lookup key
    return es.put key (item.withInner (← modifyAt? f rest (← item.inner?)))

/-- Puts an item at the end of a path, with new tables on the way where there are none. -/
def putAt? (es : Entries) (item : Item) (key : String) : List String → Option Entries
  | [] => some (es.put key item)
  | parent :: rest =>
    match es.lookup parent with
    | none => do return es.put parent (.table (← putAt? [] item key rest))
    | some (.table inner) => do return es.put parent (.table (← putAt? inner item key rest))
    | some _ => none

end Entries

end ClassScript.Toml
