import ClassScript.Toml.Entries

/-!
# Building TOML documents

The lines of a document are taken one after the other, and the tree of tables grows. Two marks on
paths decide what may be defined again. A path is *implied* if its table only arose on the way to
another one: it may be defined once more, and the table stays. A path is *listed* if the last value
that was written for it is a list: a further definition takes the place of what is there.

Values in braces count as tables of the document while they are read, so that the keys in them are
held to the same rules.
-/

namespace ClassScript.Toml

/-- A document that is being built. -/
structure Draft where
  /-- The tables so far. -/
  entries : Entries := []
  /-- The paths that are implied. -/
  implied : List (List String) := []
  /-- The paths that are listed. -/
  listed : List (List String) := []

/-- A step that builds a part of a document, or fails. -/
abbrev Build := StateT Draft Option

namespace Build

/-! ### Marks -/

/-- Marks a path as implied. -/
def imply (path : List String) : Build Unit :=
  modify fun d => { d with implied := path :: d.implied }

/-- Takes the mark of an implied path away. -/
def settle (path : List String) : Build Unit :=
  modify fun d => { d with implied := d.implied.filter (· != path) }

/-- The path that the kind of a value is noted for. An empty key adds nothing to the path, unless
there is no other. -/
def kindPath (context : List String) (key : String) : List String :=
  if key.isEmpty then if context.isEmpty then [key] else context else context ++ [key]

/-- Notes whether the value of a key is a list. -/
def note (context : List String) (key : String) (isList : Bool) : Build Unit :=
  modify fun d =>
    let path := kindPath context key
    let others := d.listed.filter (· != path)
    { d with listed := if isList then path :: others else others }

/-! ### Tables -/

/-- The table that a path leads to. -/
def tableAt (path : List String) : Build Entries := do (← get).entries.at? path

/-- Puts an item into the table that a path leads to. -/
def put (context : List String) (key : String) (item : Item) : Build Unit := do
  let d ← get
  set { d with entries := ← d.entries.modifyAt? (·.put key item) context }

/-- Defines a key of a table. -/
def define (context : List String) (key : String) (item : Item) : Build Unit := do
  let path := context ++ [key]
  if ((← tableAt context).lookup key).isNone then put context key item
  else if (← get).listed.contains path then
    settle path
    put context key item
  else if (← get).implied.contains path then settle path
  else failure

/-- Makes sure that every key of a path leads into a table. -/
def establish (context : List String) : List String → Build Unit
  | [] => return
  | key :: rest => do
    let path := context ++ [key]
    if ((← tableAt context).lookup key).isNone then
      imply path
      put context key (.table [])
    establish path rest

/-- Adds a table, and tables on the way to it. -/
def addTable (parents : List String) (key : String) : Build Unit := do
  establish [] parents
  define parents key (.table [])

/-- Adds a table to a row of tables, and tables on the way to it. -/
def addRow (parents : List String) (key : String) : Build Unit := do
  establish [] parents
  match (← tableAt parents).lookup key with
  | none => put parents key (.tables [] [])
  | some (.tables before last) => put parents key (.tables (before ++ [last]) [])
  | some _ => failure

/-- Adds the tables that the parts of a key lead through below a table. -/
def passThrough (context : List String) : List String → Build Unit
  | [] => return
  | key :: rest => do
    imply (context ++ [key])
    addTable context key
    passThrough (context ++ [key]) rest

/-! ### Values -/

/-- Defines a key with dots below a table; the item depends on where it stands. -/
def assign (context : List String) (key : Key) (value : List String → String → Build Item) :
    Build Item := do
  passThrough context key.parents
  let place := context ++ key.parents
  let item ← value place key.last
  define place key.last item
  note place key.last item.isArray
  return item

end Build

open Build

mutual

/-- The item of a value that stands at a key, right there or inside of a list. -/
def Value.build (inList : Bool) (context : List String) (key : String) : Value → Build Item
  | scalar s => return .scalar s
  | array items => do
    note context key true
    return .array (← buildItems context key items)
  | braces entries => do
    imply (context ++ [key])
    if inList then addRow context key else addTable context key
    return .table (← buildEntries (context ++ [key]) [] entries)

/-- The items of the values of a list. -/
def Value.buildItems (context : List String) (key : String) : List Value → Build (List Item)
  | [] => return []
  | value :: rest => do
    let item ← value.build true context key
    return item :: (← buildItems context key rest)

/-- The entries of a table in braces, behind those that are built already. -/
def Value.buildEntries (context : List String) (built : Entries) :
    List (Key × Value) → Build Entries
  | [] => return built
  | (key, value) :: rest => do
    let item ← assign context key fun place last => value.build false place last
    buildEntries context (← built.putAt? item key.last key.parents) rest

end

/-- Takes a line below the path of the last header; the answer is the path from then on. -/
def Line.build (context : List String) : Line → Build (List String)
  | header key => do
    addTable key.parents key.last
    note key.parts "" false
    return key.parts
  | rowHeader key => do
    addRow key.parents key.last
    note key.parts "" false
    return key.parts
  | assignment key value => do
    let _ ← assign context key fun place last => value.build false place last
    return context

/-- The table that the lines of a document describe. -/
def Entries.ofLines? (lines : List Line) : Option Entries := do
  let (_, draft) ← (lines.foldlM Line.build []).run {}
  return draft.entries

end ClassScript.Toml
