import ClassScript.Machine.Environment
import ClassScript.Machine.Sequence

/-!
# The store

Everything that can change while a program runs: scopes, fields of objects, lists, maps and
iterators. Maps hold their keys in insertion order next to a table of values.
-/

namespace ClassScript

/-- A map: its keys in insertion order, and the value of each key. -/
structure MapObject where
  /-- The keys. -/
  keys : Window
  /-- The values by key. -/
  entries : List (Value × Value) := []

namespace MapObject

/-- The value of a key. -/
def get? (m : MapObject) (key : Value) : Option Value :=
  (m.entries.find? (·.1.same key)).map Prod.snd

/-- The entries with a value for a key. -/
def put (m : MapObject) (key value : Value) : List (Value × Value) :=
  (key, value) :: m.entries.filter (!·.1.same key)

/-- The entries without a key. -/
def drop (m : MapObject) (key : Value) : List (Value × Value) :=
  m.entries.filter (!·.1.same key)

end MapObject

/-- What an iterator goes through next. -/
inductive Cursor where
  /-- The integers below a limit. -/
  | counting (next limit : Int64)
  /-- The characters of a text. -/
  | characters (rest : List Char)
  /-- The items of a list, from an index on, as they are when they are reached. -/
  | items (list index : Nat)
  /-- Collected arguments. -/
  | arguments (rest : List Value)
  /-- The keys that a map had, as far as they are present when they are reached. -/
  | entries (map : Nat) (keys : List Value)
  /-- Nothing any more. -/
  | done

/-- Everything that can change while a program runs. -/
structure Store where
  /-- The scopes. -/
  environments : Environments := {}
  /-- The fields of every object. -/
  fields : Array Bindings := #[]
  /-- The blocks that lists and maps keep their items in. -/
  blocks : Blocks := #[]
  /-- The lists. -/
  lists : Array Window := #[]
  /-- The maps. -/
  maps : Array MapObject := #[]
  /-- The iterators. -/
  iterators : Array Cursor := #[]
  /-- The identity of the next value. -/
  nextId : ObjectId := 0
  /-- The declarations so far, each with its scope and its name, the latest first. -/
  declared : List (ScopeId × String) := []

namespace Store

/-! ### Lists -/

/-- A new list of items. -/
def newList (s : Store) (items : List Value) : Store × Nat :=
  let (blocks, w) := s.blocks.push items
  let place := s.lists.size
  ({ s with blocks, lists := s.lists.push w }, place)

/-- The window of a list; where there is no list, an empty one of no block. -/
def list (s : Store) (l : Nat) : Window := s.lists[l]?.getD ⟨s.blocks.size, 0⟩

/-- The item at an index of a list. -/
def listGet? (s : Store) (l i : Nat) : Option Value := s.blocks.get? (s.list l) i

/-- Adds an item to a list. -/
def listAdd (s : Store) (l : Nat) (v : Value) : Store :=
  let w := s.list l
  let wider := s.blocks.widen w
  { s with blocks := s.blocks.add w v, lists := s.lists.set! l wider }

/-- Replaces the item at an index of a list. -/
def listSet (s : Store) (l i : Nat) (v : Value) : Store :=
  { s with blocks := s.blocks.write (s.list l).block i v }

/-- Drops the last item of a list. -/
def listPop (s : Store) (l : Nat) : Store :=
  let w := s.list l
  { s with lists := s.lists.set! l { w with length := w.length - 1 } }

/-! ### Maps -/

/-- A new map. -/
def newMap (s : Store) : Store × Nat :=
  let (blocks, w) := s.blocks.push []
  let place := s.maps.size
  ({ s with blocks, maps := s.maps.push { keys := w } }, place)

/-- A map; where there is none, an empty one of no block. -/
def map (s : Store) (m : Nat) : MapObject := s.maps[m]?.getD { keys := ⟨s.blocks.size, 0⟩ }

/-- The value of a key of a map. -/
def mapGet? (s : Store) (m : Nat) (key : Value) : Option Value := (s.map m).get? key

/-- The keys of a map in insertion order. -/
def mapKeys (s : Store) (m : Nat) : List Value := s.blocks.items (s.map m).keys

/-- Gives a key of a map a value; a new key goes behind the others. -/
def mapSet (s : Store) (m : Nat) (key value : Value) : Store :=
  let o := s.map m
  let entries := o.put key value
  if (o.get? key).isSome then { s with maps := s.maps.set! m { o with entries } }
  else
    let keys := s.blocks.widen o.keys
    { s with blocks := s.blocks.add o.keys key, maps := s.maps.set! m { keys, entries } }

/-- Takes a key out of a map. -/
def mapRemove (s : Store) (m : Nat) (key : Value) : Store :=
  let o := s.map m
  match (s.mapKeys m).findIdx? (·.same key) with
  | none => { s with maps := s.maps.set! m { o with entries := o.drop key } }
  | some i =>
    let (blocks, keys) := s.blocks.remove o.keys i
    { s with blocks, maps := s.maps.set! m { keys, entries := o.drop key } }

/-! ### Iterators -/

/-- A new iterator. -/
def newIterator (s : Store) (c : Cursor) : Store × Nat :=
  let place := s.iterators.size
  ({ s with iterators := s.iterators.push c }, place)

/-- The first of some keys that a map still has, with its value and the keys behind it. -/
def presentKey? (s : Store) (m : Nat) : List Value → Option (Value × Value × List Value)
  | [] => none
  | key :: rest =>
    match s.mapGet? m key with
    | some value => some (key, value, rest)
    | none => s.presentKey? m rest

/-- What a cursor yields, and where it goes. -/
inductive Advance where
  /-- An element. -/
  | element (v : Value) (next : Cursor)
  /-- A key with its value. -/
  | entry (key value : Value) (next : Cursor)
  /-- The end. -/
  | finished

/-- The next step of a cursor. -/
def advance (s : Store) : Cursor → Advance
  | .counting next limit =>
    if next < limit then .element (.int next) (.counting (next + 1) limit) else .finished
  | .characters [] => .finished
  | .characters (c :: rest) => .element (.string (String.singleton c)) (.characters rest)
  | .items l i =>
    match s.listGet? l i with
    | some v => .element v (.items l (i + 1))
    | none => .finished
  | .arguments [] => .finished
  | .arguments (v :: rest) => .element v (.arguments rest)
  | .entries m keys =>
    match s.presentKey? m keys with
    | some (key, value, rest) => .entry key value (.entries m rest)
    | none => .finished
  | .done => .finished

end Store

end ClassScript
