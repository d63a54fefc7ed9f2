import ClassScript.Text.Quoted

/-!
# Flags

The flags in front of the arguments of the command. A flag starts with one or two dashes; its value
follows behind an equals sign or, unless it is a switch, as the next argument.
-/

namespace ClassScript.Command

/-- What the flags say. -/
structure Flags where
  /-- Whether to go on interactively. -/
  interactive : Bool := false
  /-- Whether to run no program. -/
  checkOnly : Bool := false
  /-- The path of the report, or nothing. -/
  report : String := ""
  /-- Whether to serve an editor. -/
  languageServer : Bool := false
  /-- The amount of logging, if it is given. -/
  verbosity : Option Int := none
  /-- Whether to skip the type checker. -/
  noTypecheck : Bool := false
deriving DecidableEq

/-- How a flag takes its value. -/
inductive FlagKind where
  /-- A truth value, which is true unless it is given. -/
  | switch (set : Bool → Flags → Flags)
  /-- A text. -/
  | text (set : String → Flags → Flags)
  /-- A number. -/
  | number (set : Int → Flags → Flags)

/-- The flags by their names. -/
def flagKinds : List (String × FlagKind) :=
  [("check", .switch fun checkOnly f => { f with checkOnly }),
   ("i", .switch fun interactive f => { f with interactive }),
   ("lsp", .switch fun languageServer f => { f with languageServer }),
   ("no-typecheck", .switch fun noTypecheck f => { f with noTypecheck }),
   ("report", .text fun report f => { f with report }),
   ("v", .number fun verbosity f => { f with verbosity := some verbosity })]

/-- Why the value of a flag is refused. -/
inductive ValueFault where
  /-- It has the wrong form. -/
  | form
  /-- It is too large. -/
  | range
deriving DecidableEq

/-- A reason in words. -/
def ValueFault.message : ValueFault → String
  | form => "parse error"
  | range => "value out of range"

/-- Why the flags are refused. -/
inductive FlagFault where
  /-- An argument has dashes and no name. -/
  | malformed (argument : String)
  /-- There is no flag of the name. -/
  | undefined (name : String)
  /-- The value of a switch is no truth value. -/
  | badSwitch (name value : String)
  /-- A flag has no value. -/
  | noValue (name : String)
  /-- The value of a flag is refused. -/
  | badValue (name value : String) (fault : ValueFault)
  /-- Help is asked for. -/
  | help
deriving DecidableEq

/-- A reason in words; asking for help needs none. -/
def FlagFault.message? : FlagFault → Option String
  | malformed argument => some ("bad flag syntax: " ++ argument)
  | undefined name => some ("flag provided but not defined: -" ++ name)
  | badSwitch name value =>
    some ("invalid boolean value " ++ Text.quote value ++ " for -" ++ name ++ ": "
      ++ ValueFault.form.message)
  | noValue name => some ("flag needs an argument: -" ++ name)
  | badValue name value fault =>
    some ("invalid value " ++ Text.quote value ++ " for flag -" ++ name ++ ": " ++ fault.message)
  | help => none

/-- The truth value that a text stands for. -/
def switchValue? (s : String) : Option Bool :=
  if ["1", "t", "T", "true", "TRUE", "True"].contains s then some true
  else if ["0", "f", "F", "false", "FALSE", "False"].contains s then some false
  else none

/-! ### Numbers -/

/-- The value of a digit. -/
def digitOf? (c : Char) : Option Nat :=
  if c.isDigit then some (c.toNat - '0'.toNat)
  else if c.isAlpha then some (c.toLower.toNat - 'a'.toNat + 10)
  else none

/-- A base and the digits behind its mark. A zero in front marks base eight. -/
def baseOf : List Char → Nat × List Char
  | ['0'] => (8, [])
  | '0' :: c :: rest =>
    if rest.isEmpty then (8, c :: rest)
    else match c.toLower with
      | 'b' => (2, rest)
      | 'o' => (8, rest)
      | 'x' => (16, rest)
      | _ => (8, c :: rest)
  | cs => (10, cs)

/-- Reads digits up to a limit; underscores are passed over. -/
def readDigits (base limit n : Nat) : List Char → Except ValueFault Nat
  | [] => .ok n
  | c :: rest =>
    if c = '_' then readDigits base limit n rest
    else match digitOf? c with
      | none => .error .form
      | some d =>
        if base ≤ d then .error .form
        else if limit < n * base + d then .error .range
        else readDigits base limit (n * base + d) rest

/-- Whether every underscore stands between two digits, given whether a digit or the mark of a base
stands in front. -/
def underscoresFit (hex : Bool) (afterDigit : Bool) : List Char → Bool
  | [] => true
  | ['_'] => false
  | '_' :: c :: rest =>
    afterDigit && (c.isDigit || (hex && (digitOf? c).any (· < 16)))
      && underscoresFit hex true rest
  | c :: rest => underscoresFit hex (c.isDigit || (hex && (digitOf? c).any (· < 16))) rest

/-- The 64-bit integer that a text stands for. -/
def numberValue (s : String) : Except ValueFault Int := do
  let (negative, cs) := match s.toList with
    | '-' :: rest => (true, rest)
    | '+' :: rest => (false, rest)
    | cs => (false, cs)
  if cs.isEmpty then throw .form
  let (base, digits) := baseOf cs
  let n ← readDigits base ((1 <<< 64) - 1) 0 digits
  -- Behind the mark of a base an underscore may come first.
  let marked := digits.length + 2 ≤ cs.length
  let plain := if marked then digits else cs
  if cs.contains '_' && !underscoresFit (base = 16) marked plain then throw .form
  if (if negative then 1 <<< 63 < n else 1 <<< 63 ≤ n) then throw .range
  return if negative then -n else n

/-! ### Arguments -/

/-- An argument that starts with a dash. -/
inductive Dashed where
  /-- Two dashes, behind which there are no flags. -/
  | stop
  /-- A flag with its value, if it has one. -/
  | flag (name : String) (value : Option String)
  /-- Dashes without a name. -/
  | malformed

/-- The flag that an argument is, if it is one. -/
def dashed? (argument : String) : Option Dashed :=
  match argument.toList with
  | '-' :: c :: rest =>
    let name := if c = '-' then rest else c :: rest
    if c = '-' ∧ rest.isEmpty then some .stop
    else
      match name with
      | [] => some .malformed
      | first :: others =>
        if first = '-' ∨ first = '=' then some .malformed
        else
          let value := others.dropWhile (· != '=')
          some (.flag (String.ofList (first :: others.takeWhile (· != '=')))
            (if value.isEmpty then none else some (String.ofList value.tail)))
  | _ => none

/-- Sets a switch. -/
def setSwitch (name : String) (set : Bool → Flags → Flags) (value : Option String) (f : Flags) :
    Except FlagFault Flags :=
  match value with
  | none => .ok (set true f)
  | some s =>
    match switchValue? s with
    | some b => .ok (set b f)
    | none => .error (.badSwitch name s)

/-- Sets a flag that is no switch. -/
def setValue (name : String) (kind : FlagKind) (value : String) (f : Flags) :
    Except FlagFault Flags :=
  match kind with
  | .switch set => setSwitch name set (some value) f
  | .text set => .ok (set value f)
  | .number set =>
    match numberValue value with
    | .ok n => .ok (set n f)
    | .error fault => .error (.badValue name value fault)

/-- Reads the flags in front of the arguments. -/
def parseFlags (f : Flags) : List String → Except FlagFault (Flags × List String)
  | [] => .ok (f, [])
  | argument :: rest =>
    match dashed? argument with
    | none => .ok (f, argument :: rest)
    | some .stop => .ok (f, rest)
    | some .malformed => .error (.malformed argument)
    | some (.flag name value) =>
      match flagKinds.lookup name with
      | none => .error (if name = "help" ∨ name = "h" then .help else .undefined name)
      | some (.switch set) => do parseFlags (← setSwitch name set value f) rest
      | some kind =>
        match value, rest with
        | some value, rest => do parseFlags (← setValue name kind value f) rest
        | none, value :: rest => do parseFlags (← setValue name kind value f) rest
        | none, [] => .error (.noValue name)

end ClassScript.Command
