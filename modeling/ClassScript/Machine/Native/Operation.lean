import ClassScript.Machine.Native.Number
import ClassScript.Text.Case
import ClassScript.Text.Split

/-!
# Native operations

What the native methods, functions and constructors do. Operations that ask their elements for
equality or for a text run the program's code in between; a walk over a list or over the keys of
a map then goes on with the slots it started on.
-/

namespace ClassScript

namespace Exec

/-- The result of a computation that may fail without a place. -/
def ofExcept {α : Type} : Except Cause α → Exec α
  | .ok a => return a
  | .error cause => raise cause

end Exec

open Exec (raise fault read update allocate ofExcept newList newIterator)

/-- An argument that has to be an index below a length. -/
def indexArgument (method : String) (length : Nat) : Value → Except Cause Nat
  | .int i =>
    let i := i.toInt
    if 0 ≤ i && i < length then .ok i.toNat else .error (.indexOutOfRange i length)
  | v => .error (.wrongArgument method "Int" v.typeName)

/-- An argument that has to be a text. -/
def textArgument (method : String) : Value → Except Cause String
  | .string s => .ok s
  | v => .error (.wrongArgument method "String" v.typeName)

/-- Texts with commas between them. -/
def joined (parts : List String) : String := String.intercalate ", " parts

namespace Engine

variable (eng : Engine)

/-- The texts of the slots of a block, from an index on and a number of them, each read when its
turn comes. -/
def stringifySlots (block : Nat) : Nat → Nat → Exec (List String)
  | 0, _ => return []
  | count + 1, i => do
    match ← read (·.blocks.slot? block i) with
    | none => fault
    | some v =>
      let s ← eng.stringify v
      return s :: (← stringifySlots block count (i + 1))

/-- Whether one of the slots of a block, from an index on and a number of them, equals an item;
each is read when its turn comes. -/
def slotsContain (block : Nat) (item : Value) : Nat → Nat → Exec Bool
  | 0, _ => return false
  | count + 1, i => do
    match ← read (·.blocks.slot? block i) with
    | none => fault
    | some v => if ← eng.equal v item then return true else slotsContain block item count (i + 1)

/-- Whether two lists have equal items at a number of indices from one on. The lists are read as
they are when the turn of an index comes. -/
def listsEqual (a b : Nat) : Nat → Nat → Exec Bool
  | 0, _ => return true
  | count + 1, i => do
    match ← read (·.listGet? a i), ← read (·.listGet? b i) with
    | some v, some w => if ← eng.equal v w then listsEqual a b count (i + 1) else return false
    | _, _ => fault

/-- The texts of a map's entries, for the keys in the slots of a block, each read when its turn
comes and looked up after it was asked for its text. -/
def stringifyEntries (m block : Nat) : Nat → Nat → Exec (List String)
  | 0, _ => return []
  | count + 1, i => do
    match ← read (·.blocks.slot? block i) with
    | none => fault
    | some key =>
      let k ← eng.stringify key
      match ← read (·.mapGet? m key) with
      | none => fault
      | some value =>
        let v ← eng.stringify value
        return (k ++ ": " ++ v) :: (← stringifyEntries m block count (i + 1))

/-- What a method of every object does. -/
def runObject : Operation → Value → List Value → Exec Value
  | .objectEquals, self, [other] => return .bool (self.same other)
  | .objectIsTrue, _, [] => return .bool true
  | .objectIsNotTrue, self, [] => return .bool !(← eng.truthy self)
  | .objectToString, self, [] => return .string self.describe
  | .objectInit, _, [] => return .nil
  | _, _, _ => fault

/-- What a method of a plain value does. -/
def runPlain : Operation → Value → List Value → Exec Value
  | .nilIsTrue, .nil, [] => return .bool false
  | .nilToString, .nil, [] => return .string "nil"
  | .boolIsTrue, .bool b, [] => return .bool b
  | .boolIsNotTrue, .bool b, [] => return .bool !b
  | .boolEquals, .bool b, [other] => return .bool ((Value.bool b).same other)
  | .boolToString, .bool b, [] => return .string (Value.bool b).describe
  | .intArithmetic op, .int a, [v] => ofExcept (op.onInt a v)
  | .intNegate, .int a, [] => return .int (-a)
  | .intGreaterThan, .int a, [v] => .bool <$> ofExcept (intGreaterThan a v)
  | .intEquals, .int a, [v] => return .bool (intEquals a v)
  | .intIsTrue, .int a, [] => return .bool (a != 0)
  | .intToFloat, .int a, [] => return .float a.toFloat
  | .intToString, .int a, [] => return .string (Value.int a).describe
  | .intIterate, .int a, [] => newIterator (.counting 0 a)
  | .floatArithmetic op, .float x, [v] => ofExcept (op.onFloat x v)
  | .floatNegate, .float x, [] => return .float (-x)
  | .floatGreaterThan, .float x, [v] => .bool <$> ofExcept (floatGreaterThan x v)
  | .floatEquals, .float x, [v] => return .bool (floatEquals x v)
  | .floatIsTrue, .float x, [] => return .bool (x != 0)
  | .floatFloor, .float x, [] => return .float x.floor
  | .floatToInt, .float x, [] => return .int x.toInt64
  | .floatToString, .float x, [] => return .string (Value.float x).describe
  | _, _, _ => fault

/-- What a method of a text does. -/
def runText : Operation → Value → List Value → Exec Value
  | .stringAdd, .string s, [v] => return .string (s ++ (← ofExcept (textArgument "String.add" v)))
  | .stringLength, .string s, [] => return .int (Int64.ofNat s.length)
  | .stringGet, .string s, [v] => do
    let i ← ofExcept (indexArgument "String.get" s.length v)
    return .string (String.ofList (s.toList.drop i |>.take 1))
  | .stringContains, .string s, [v] =>
    return .bool (Text.contains s (← ofExcept (textArgument "String.contains" v)))
  | .stringSplit, .string s, [v] => do
    let separator ← ofExcept (textArgument "String.split" v)
    newList ((Text.split s separator).map .string)
  | .stringUpper, .string s, [] => return .string (Text.upper s)
  | .stringLower, .string s, [] => return .string (Text.lower s)
  | .stringEquals, .string s, [other] => return .bool ((Value.string s).same other)
  | .stringGreaterThan, .string s, [v] => do
    let other ← ofExcept (textArgument "String.greaterThan" v)
    return .bool (decide (other < s))
  | .stringIsTrue, .string s, [] => return .bool !s.isEmpty
  | .stringToString, .string s, [] => return .string s
  | .stringIterate, .string s, [] => newIterator (.characters s.toList)
  | _, _, _ => fault

/-- What a method of a list or of collected arguments does. -/
def runList : Operation → Value → List Value → Exec Value
  | .listAdd, .list l, [v] => do
    update (·.listAdd l v)
    return .nil
  | .listGet, .list l, [v] => do
    let i ← ofExcept (indexArgument "List.get" (← read (·.list l)).length v)
    -- The index is within the length, so there is an item in its slot.
    match ← read (·.listGet? l i) with
    | some item => return item
    | none => fault
  | .listSet, .list l, [v, item] => do
    let i ← ofExcept (indexArgument "List.set" (← read (·.list l)).length v)
    update (·.listSet l i item)
    return .nil
  | .listLength, .list l, [] => return .int (Int64.ofNat (← read (·.list l)).length)
  | .listPop, .list l, [] => do
    let length := (← read (·.list l)).length
    if length = 0 then raise .emptyList
    else
      match ← read (·.listGet? l (length - 1)) with
      | none => fault
      | some last =>
        update (·.listPop l)
        return last
  | .listContains, .list l, [item] => do
    let w ← read (·.list l)
    return .bool (← eng.slotsContain w.block item w.length 0)
  | .listEquals, .list l, [other] => do
    match other with
    | .list k =>
      let length := (← read (·.list l)).length
      if length = (← read (·.list k)).length then return .bool (← eng.listsEqual l k length 0)
      else return .bool false
    | _ => return .bool false
  | .listIterate, .list l, [] => newIterator (.items l 0)
  | .listToString, .list l, [] => do
    let w ← read (·.list l)
    return .string ("[" ++ joined (← eng.stringifySlots w.block w.length 0) ++ "]")
  | .varargsLength, .varargs _ items, [] => return .int (Int64.ofNat items.length)
  | .varargsGet, .varargs _ items, [v] => do
    let i ← ofExcept (indexArgument "Varargs.get" items.length v)
    match items[i]? with
    | some item => return item
    | none => fault
  | .varargsIterate, .varargs _ items, [] => newIterator (.arguments items)
  | .varargsToList, .varargs _ items, [] => newList items
  | .varargsToString, .varargs _ items, [] =>
    return .string ("(" ++ joined (← eng.stringifyAll items) ++ ")")
  | _, _, _ => fault

/-- What a method of a map, pair or iterator does. -/
def runMap : Operation → Value → List Value → Exec Value
  | .mapSet, .map m, [key, value] => do
    update (·.mapSet m key value)
    return .nil
  | .mapGet, .map m, [key] => do
    match ← read (·.mapGet? m key) with
    | some value => return value
    | none => raise (.keyNotFound key.describe)
  | .mapHas, .map m, [key] => return .bool (← read (·.mapGet? m key)).isSome
  | .mapRemove, .map m, [key] => do
    match ← read (·.mapGet? m key) with
    | none => raise (.keyNotFound key.describe)
    | some value =>
      update (·.mapRemove m key)
      return value
  | .mapLength, .map m, [] => return .int (Int64.ofNat (← read (·.map m)).keys.length)
  | .mapKeys, .map m, [] => do newList (← read (·.mapKeys m))
  | .mapIterate, .map m, [] => do newIterator (.entries m (← read (·.mapKeys m)))
  | .mapToString, .map m, [] => do
    let w := (← read (·.map m)).keys
    return .string ("\x7b" ++ joined (← eng.stringifyEntries m w.block w.length 0) ++ "\x7d")
  | .pairToString, .pair _ first second, [] =>
    return .string ("(" ++ joined (← eng.stringifyAll [first, second]) ++ ")")
  | .iteratorNext, .iterator i, [] => do
    let step ← read fun s => s.advance (s.iterators[i]?.getD .done)
    -- The iterator has moved on before its result is made.
    let move (c : Cursor) : Exec Unit := update fun s =>
      { s with iterators := s.iterators.set! i c }
    match step with
    | .element v next =>
      move next
      return .iteratorResult (← Exec.freshId) v false
    | .entry key value next =>
      move next
      let entry := Value.pair (← Exec.freshId) key value
      return .iteratorResult (← Exec.freshId) entry false
    | .finished =>
      move .done
      return .iteratorResult (← Exec.freshId) .nil true
  | .iteratorIterate, .iterator i, [] => return .iterator i
  | _, _, _ => fault

/-- What a native method does. -/
def run (op : Operation) (self : Value) (args : List Value) : Exec Value :=
  match op with
  | .objectEquals | .objectIsTrue | .objectIsNotTrue | .objectToString | .objectInit =>
    eng.runObject op self args
  | .stringAdd | .stringLength | .stringGet | .stringContains | .stringSplit | .stringUpper
  | .stringLower | .stringEquals | .stringGreaterThan | .stringIsTrue | .stringToString
  | .stringIterate => runText op self args
  | .listAdd | .listGet | .listSet | .listLength | .listPop | .listContains | .listEquals
  | .listIterate | .listToString | .varargsLength | .varargsGet | .varargsIterate | .varargsToList
  | .varargsToString => eng.runList op self args
  | .mapSet | .mapGet | .mapHas | .mapRemove | .mapLength | .mapKeys | .mapIterate | .mapToString
  | .pairToString | .iteratorNext | .iteratorIterate => eng.runMap op self args
  | _ => runPlain op self args

/-- Writes a line. -/
def printLine (line : String) : Exec Unit := do
  match (← get).output.failure with
  | some reason => raise (.brokenOutput reason)
  | none =>
    modify fun m => { m with output := { m.output with text := m.output.text ++ line ++ "\n" } }

/-- What a native function does. -/
def runFunction : NativeFunction → List Value → Exec Value
  | .print, [.varargs _ values] => do
    printLine (String.intercalate " " (← eng.stringifyAll values))
    return .nil
  | .clock, [] => return .float (← get).now
  | .typeOf, [v] => return .string v.typeName
  | _, _ => fault

/-- A new value of a native class. -/
def construct : NativeClass → List Value → Exec Value
  | .list, [.varargs _ items] => newList items
  | .map, [] => return .map (← allocate (·.newMap))
  | .pair, [first, second] => return .pair (← Exec.freshId) first second
  | .iteratorResult, [value, isEnd] => do
    match isEnd with
    | .bool b => return .iteratorResult (← Exec.freshId) value b
    | v => raise (.wrongArgument "IteratorResult" "Bool" v.typeName)
  | c, _ => raise (.notInstantiable c.name)

end Engine

end ClassScript
