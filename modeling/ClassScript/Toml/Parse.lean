import ClassScript.Toml.Document
import ClassScript.Toml.Quoted
import ClassScript.Toml.Scalar

/-!
# Reading TOML

A document is a row of headers and keys with values, one to a line. Lists and tables in braces may
go over several lines and end with a comma.
-/

namespace ClassScript.Toml

/-- Whether a character is a blank. -/
def isBlank (c : Char) : Bool := c = ' ' || c = '\t'

/-- Whether a character can be part of a key without quotes. -/
def isKeyChar (c : Char) : Bool := c.isAlphanum || c = '_' || c = '-'

/-- Whether a character can be part of a number, a date, a time or a truth value. -/
def isScalarChar (c : Char) : Bool :=
  c.isAlphanum || c = '_' || c = '-' || c = '+' || c = '.' || c = ':'

/-- The rest behind blanks. -/
def behindBlanks (cs : List Char) : List Char := cs.dropWhile isBlank

/-- The rest behind blanks, line ends and comments. -/
def behindLines (inComment : Bool) : List Char → List Char
  | [] => []
  | c :: rest =>
    if inComment then behindLines (c != '\n') rest
    else if c = '#' then behindLines true rest
    else if isSpace c then behindLines false rest
    else c :: rest

/-- The rest behind the end of the current line, in front of which only blanks and a comment
stand. -/
def lineEnd? (cs : List Char) : Option (List Char) :=
  match behindBlanks cs with
  | '#' :: rest => some ((rest.dropWhile (· != '\n')).drop 1)
  | '\n' :: rest | '\r' :: '\n' :: rest => some rest
  | [] => some []
  | _ => none

/-- One part of a key, and the rest. -/
def keyPart? (cs : List Char) : Option (String × List Char) :=
  match cs with
  | [] => none
  | c :: rest =>
    if c = '"' ∨ c = '\x27' then lineText? c rest
    else if isKeyChar c then
      some (String.ofList (cs.takeWhile isKeyChar), cs.dropWhile isKeyChar)
    else none

/-- A key with dots between its parts, and the rest. -/
def key? : Nat → List Char → Option (Key × List Char)
  | 0, _ => none
  | fuel + 1, cs => do
    let (part, rest) ← keyPart? (behindBlanks cs)
    match behindBlanks rest with
    | '.' :: rest =>
      let (key, rest) ← key? fuel rest
      return (key.below part, rest)
    | rest => return ({ parents := [], last := part }, rest)

/-- The run of characters of a value, and the rest. A blank may stand between a date and a time. -/
def scalarRun (cs : List Char) : List Char × List Char :=
  let run := cs.takeWhile isScalarChar
  match cs.dropWhile isScalarChar with
  | ' ' :: c :: rest =>
    if date? run = some [] && c.isDigit then
      let time := (c :: rest).takeWhile isScalarChar
      (run ++ ' ' :: time, (c :: rest).dropWhile isScalarChar)
    else (run, ' ' :: c :: rest)
  | rest => (run, rest)

mutual

/-- A value, and the rest. Every value takes a character, so that a bound on the nesting of calls
from the length of the document is never used up. -/
def value? : Nat → List Char → Option (Value × List Char)
  | 0, _ => none
  | fuel + 1, cs =>
    match behindBlanks cs with
    | '[' :: rest => do
      let (items, rest) ← array? fuel (behindLines false rest)
      return (.array items, rest)
    | '\x7b' :: rest => do
      let (entries, rest) ← braces? fuel (behindLines false rest)
      return (.braces entries, rest)
    | c :: rest =>
      if c = '"' ∨ c = '\x27' then do
        let (text, rest) ← text? c rest
        return (.scalar (.text text), rest)
      else do
        let (run, rest) := scalarRun (c :: rest)
        return (.scalar (← scalar? run), rest)
    | [] => none

/-- The values of a list up to its closing bracket, and the rest. -/
def array? : Nat → List Char → Option (List Value × List Char)
  | 0, _ => none
  | fuel + 1, cs =>
    match cs with
    | ']' :: rest => some ([], rest)
    | cs => do
      let (value, rest) ← value? fuel cs
      match behindLines false rest with
      | ',' :: rest =>
        let (values, rest) ← array? fuel (behindLines false rest)
        return (value :: values, rest)
      | ']' :: rest => return ([value], rest)
      | _ => none

/-- The keys and values of a table in braces up to the closing one, and the rest. -/
def braces? : Nat → List Char → Option (List (Key × Value) × List Char)
  | 0, _ => none
  | fuel + 1, cs =>
    match cs with
    | '\x7d' :: rest => some ([], rest)
    | cs => do
      let (key, rest) ← key? fuel cs
      let '=' :: rest := rest | none
      let (value, rest) ← value? fuel rest
      match behindLines false rest with
      | ',' :: rest =>
        let (entries, rest) ← braces? fuel (behindLines false rest)
        return ((key, value) :: entries, rest)
      | '\x7d' :: rest => return ([(key, value)], rest)
      | _ => none

end

/-- A header behind its opening brackets, and the rest behind its closing ones. -/
def header? (fuel : Nat) (brackets : List Char) (cs : List Char) : Option (Key × List Char) := do
  let (key, rest) ← key? fuel cs
  if brackets.isPrefixOf rest then some (key, rest.drop brackets.length) else none

/-- A line, and the rest behind what it says. -/
def line? (fuel : Nat) : List Char → Option (Line × List Char)
  | '[' :: '[' :: rest => do
    let (key, rest) ← header? fuel [']', ']'] rest
    return (.rowHeader key, rest)
  | '[' :: rest => do
    let (key, rest) ← header? fuel [']'] rest
    return (.header key, rest)
  | cs => do
    let (key, rest) ← key? fuel cs
    let '=' :: rest := rest | none
    let (value, rest) ← value? fuel rest
    return (.assignment key value, rest)

/-- The lines of a document. -/
def lines? : Nat → List Char → Option (List Line)
  | 0, _ => none
  | fuel + 1, cs =>
    match behindLines false cs with
    | [] => some []
    | cs => do
      let (line, rest) ← line? fuel cs
      return line :: (← lines? fuel (← lineEnd? rest))

/-- Whether a document has only characters that a document can have: of the control characters,
those that are blanks or end a line. -/
def isProper : List Char → Bool
  | [] => true
  | '\r' :: rest => rest.head? = some '\n' && isProper rest
  | c :: rest => (c = '\t' || c = '\n' || (' ' ≤ c && c != '\x7f')) && isProper rest

/-- The characters of a document without a byte order mark. -/
def withoutMark : List Char → List Char
  | '\ufeff' :: rest => rest
  | cs => cs

/-- The table that a document describes. -/
def parse? (document : String) : Option Entries :=
  let cs := withoutMark document.toList
  if isProper cs then do Entries.ofLines? (← lines? (2 * cs.length + 2) cs) else none

end ClassScript.Toml
