/-!
# Quoted texts in TOML

Texts in double quotes have escapes, texts in single quotes have none. Three quotes enclose a text
of several lines; up to two quotes may stand right before the closing ones, and three behind an
escaped backslash.
-/

namespace ClassScript.Toml

/-- The value of a hexadecimal digit. -/
def hexDigit? (c : Char) : Option Nat :=
  if c.isDigit then some (c.toNat - '0'.toNat)
  else if 'a' ≤ c ∧ c ≤ 'f' then some (c.toNat - 'a'.toNat + 10)
  else if 'A' ≤ c ∧ c ≤ 'F' then some (c.toNat - 'A'.toNat + 10)
  else none

/-- The character with a hexadecimal number, if there is one. -/
def codePoint? (digits : List Char) : Option Char := do
  let n := (← digits.mapM hexDigit?).foldl (fun n d => n * 16 + d) 0
  if n < 0xd800 ∨ (0xe000 ≤ n ∧ n < 0x110000) then some (Char.ofNat n) else none

/-- The character that a letter behind a backslash stands for. -/
def escaped? : Char → Option Char
  | 'b' => some '\x08'
  | 't' => some '\t'
  | 'n' => some '\n'
  | 'f' => some '\x0c'
  | 'r' => some '\r'
  | 'e' => some '\x1b'
  | '"' => some '"'
  | '\\' => some '\\'
  | _ => none

/-- Whether a character is a blank or ends a line. -/
def isSpace (c : Char) : Bool := c = ' ' || c = '\t' || c = '\n' || c = '\r'

/-- Whether only blanks stand before the end of the line. -/
def endsLine (cs : List Char) : Bool := (cs.takeWhile isSpace).contains '\n'

/-- The quotes before three closing ones, and the rest, where more than two quotes start; before the
closing ones stand no more quotes than `extra`. -/
def closing? (extra : Nat) (quote : Char) (cs : List Char) : Option (List Char × List Char) :=
  let run := cs.takeWhile (· = quote)
  if run.length ≤ 3 + extra then some (run.drop 3, cs.drop run.length) else none

/-- Whether three quotes start a list. -/
def startsThree (quote : Char) : List Char → Bool
  | a :: b :: c :: _ => a = quote && b = quote && c = quote
  | _ => false

/-- Puts a character in front of a text that is being read. -/
def consText (c : Char) : Option (List Char × List Char) → Option (List Char × List Char)
  | some (text, rest) => some (c :: text, rest)
  | none => none

/-- What stands right before the place where a text in double quotes is read on. -/
inductive Before where
  /-- Nothing that matters. -/
  | plain
  /-- A backslash at the end of a line; blanks and line ends are passed over. -/
  | brokenLine
  /-- An escaped backslash. -/
  | backslash
deriving DecidableEq

/-- How many quotes may stand right before the closing ones. -/
def Before.extraQuotes (before : Before) : Nat := if before = .backslash then 3 else 2

/-- Reads a text in double quotes behind the opening ones, and the rest. -/
def basic? (lines : Bool) (before : Before) : List Char → Option (List Char × List Char)
  | [] => none
  | '\\' :: 'x' :: a :: b :: rest => do
    let c ← codePoint? [a, b]
    consText c (basic? lines .plain rest)
  | '\\' :: 'u' :: a :: b :: c :: d :: rest => do
    let e ← codePoint? [a, b, c, d]
    consText e (basic? lines .plain rest)
  | '\\' :: 'U' :: a :: b :: c :: d :: e :: f :: g :: h :: rest => do
    let i ← codePoint? [a, b, c, d, e, f, g, h]
    consText i (basic? lines .plain rest)
  | '\\' :: c :: rest =>
    if lines && endsLine (c :: rest) then basic? lines .brokenLine rest
    else
      match escaped? c with
      | some e => consText e (basic? lines (if c = '\\' then .backslash else .plain) rest)
      | none => none
  | c :: rest =>
    if before = .brokenLine && isSpace c then basic? lines .brokenLine rest
    else if c = '"' then
      if !lines then some ([], rest)
      else if startsThree '"' (c :: rest) then closing? before.extraQuotes '"' (c :: rest)
      else consText c (basic? lines .plain rest)
    else if c = '\n' && !lines then none
    else consText c (basic? lines .plain rest)

/-- Reads a text in single quotes behind the opening ones, and the rest. -/
def literal? (lines : Bool) : List Char → Option (List Char × List Char)
  | [] => none
  | c :: rest =>
    if c = '\x27' then
      if !lines then some ([], rest)
      else if startsThree c (c :: rest) then closing? 2 c (c :: rest)
      else consText c (literal? lines rest)
    else if c = '\n' && !lines then none
    else consText c (literal? lines rest)

/-- The rest behind the end of a line right at the start, if there is one. -/
def behindFirstLineEnd : List Char → List Char
  | '\n' :: rest => rest
  | '\r' :: '\n' :: rest => rest
  | rest => rest

/-- Reads a text of one line behind its first quote. -/
def lineText? (quote : Char) (cs : List Char) : Option (String × List Char) := do
  let (text, rest) ← if quote = '"' then basic? false .plain cs else literal? false cs
  return (String.ofList text, rest)

/-- Reads a text behind its first quote. -/
def text? (quote : Char) (cs : List Char) : Option (String × List Char) :=
  if startsThree quote (quote :: cs) then do
    let content := behindFirstLineEnd (cs.drop 2)
    let (text, rest) ← if quote = '"' then basic? true .plain content else literal? true content
    return (String.ofList text, rest)
  else lineText? quote cs

end ClassScript.Toml
