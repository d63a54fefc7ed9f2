import ClassScript.Toml.Value

/-!
# Numbers and times in TOML

Which runs of characters are integers, floating-point numbers, dates and times. Single
underscores may stand between digits.
-/

namespace ClassScript.Toml

/-- The value of a digit in a base up to sixteen. -/
def digitValue? (base : Nat) (c : Char) : Option Nat :=
  let value :=
    if c.isDigit then some (c.toNat - '0'.toNat)
    else if 'a' ≤ c ∧ c ≤ 'f' then some (c.toNat - 'a'.toNat + 10)
    else if 'A' ≤ c ∧ c ≤ 'F' then some (c.toNat - 'A'.toNat + 10)
    else none
  value.filter (· < base)

/-- The digits of a number without the underscores, each of which stands between two digits. -/
def digits? (base : Nat) : List Char → Option (List Nat)
  | [] => none
  | [c] => (digitValue? base c).map ([·])
  | c :: '_' :: rest => do return (← digitValue? base c) :: (← digits? base rest)
  | c :: rest => do return (← digitValue? base c) :: (← digits? base rest)

/-- The number that digits stand for. -/
def ofDigits (base : Nat) (digits : List Nat) : Nat := digits.foldl (fun n d => n * base + d) 0

/-- The digits of a decimal number, which has no zero in front. -/
def wholeDigits? (cs : List Char) : Option (List Nat) := do
  let digits ← digits? 10 cs
  if digits.length > 1 ∧ digits.head? = some 0 then none else some digits

/-- A sign, which may be missing, and the rest. -/
def sign : List Char → Int × List Char
  | '+' :: rest => (1, rest)
  | '-' :: rest => (-1, rest)
  | rest => (1, rest)

/-- The integer that a run of characters stands for. -/
def integer? : List Char → Option Int
  | '0' :: 'x' :: rest => (digits? 16 rest).map fun ds => (ofDigits 16 ds : Int)
  | '0' :: 'o' :: rest => (digits? 8 rest).map fun ds => (ofDigits 8 ds : Int)
  | '0' :: 'b' :: rest => (digits? 2 rest).map fun ds => (ofDigits 2 ds : Int)
  | cs =>
    let (s, rest) := sign cs
    (wholeDigits? rest).map fun ds => s * (ofDigits 10 ds : Int)

/-- The exponent of a floating-point number. -/
def exponent? (cs : List Char) : Option Int :=
  let (s, rest) := sign cs
  (digits? 10 rest).map fun ds => s * (ofDigits 10 ds : Int)

/-- Whether a decimal number is small enough for a floating-point number. -/
def isInRange (digits : List Nat) (exponent : Int) : Bool :=
  let mantissa := ofDigits 10 digits
  if mantissa = 0 ∨ exponent < 0 then
    (Float.ofScientific mantissa true (min exponent.natAbs 100000)).isFinite
  else exponent ≤ 400 && (Float.ofScientific mantissa false exponent.toNat).isFinite

/-- Whether a run of characters is a floating-point number. -/
def isFloat (cs : List Char) : Bool :=
  let rest := (sign cs).2
  if rest = "inf".toList ∨ rest = "nan".toList then true
  else
    let isMark (c : Char) : Bool := c = 'e' || c = 'E'
    let mantissa := rest.takeWhile (!isMark ·)
    let tail := rest.dropWhile (!isMark ·)
    let whole := mantissa.takeWhile (· != '.')
    let point := mantissa.dropWhile (· != '.')
    let exponent := if tail.isEmpty then some 0 else exponent? tail.tail
    let fraction := if point.isEmpty then some [] else digits? 10 point.tail
    match wholeDigits? whole, fraction, exponent with
    | some ws, some fs, some e =>
      !(point.isEmpty && tail.isEmpty) && isInRange (ws ++ fs) (e - fs.length)
    | _, _, _ => false

/-- A number of two digits, and the rest. -/
def twoDigits? : List Char → Option (Nat × List Char)
  | a :: b :: rest => do return (10 * (← digitValue? 10 a) + (← digitValue? 10 b), rest)
  | _ => none

/-- The number of days of a month. -/
def daysOf (year month : Nat) : Nat :=
  if month = 2 then
    if year % 4 = 0 ∧ (year % 100 ≠ 0 ∨ year % 400 = 0) then 29 else 28
  else if [4, 6, 9, 11].contains month then 30
  else 31

/-- The rest behind a date. -/
def date? (cs : List Char) : Option (List Char) := do
  let (century, rest) ← twoDigits? cs
  let (year, rest) ← twoDigits? rest
  let '-' :: rest := rest | none
  let (month, rest) ← twoDigits? rest
  let '-' :: rest := rest | none
  let (day, rest) ← twoDigits? rest
  if 1 ≤ month ∧ month ≤ 12 ∧ 1 ≤ day ∧ day ≤ daysOf (100 * century + year) month then some rest
  else none

/-- The rest behind a fraction of a second, which may be missing. -/
def fraction : List Char → List Char
  | '.' :: c :: rest => if c.isDigit then rest.dropWhile Char.isDigit else '.' :: c :: rest
  | rest => rest

/-- The rest behind a time of day; the seconds may be missing. -/
def clock? (cs : List Char) : Option (List Char) := do
  let (hour, rest) ← twoDigits? cs
  let ':' :: rest := rest | none
  let (minute, rest) ← twoDigits? rest
  if hour < 24 ∧ minute < 60 then
    match rest with
    | ':' :: rest =>
      let (second, rest) ← twoDigits? rest
      if second < 60 then some (fraction rest) else none
    | rest => some rest
  else none

/-- Whether characters are the difference to universal time, or nothing. -/
def isOffset : List Char → Bool
  | [] => true
  | [c] => c = 'Z' || c = 'z'
  | c :: rest =>
    if c = '+' ∨ c = '-' then
      match twoDigits? rest with
      | some (hour, ':' :: rest) =>
        match twoDigits? rest with
        | some (minute, []) => hour ≤ 24 && minute ≤ 60
        | _ => false
      | _ => false
    else false

/-- Whether a run of characters is a date, a time of day, or both. -/
def isTime (cs : List Char) : Bool :=
  match date? cs with
  | some [] => true
  | some (c :: rest) =>
    (c = 'T' || c = 't' || c = ' ') && (clock? rest).any isOffset
  | none => clock? cs = some []

/-- The value that a run of characters stands for. -/
def scalar? (cs : List Char) : Option Scalar :=
  if cs = "true".toList then some (.flag true)
  else if cs = "false".toList then some (.flag false)
  else
    match integer? cs with
    | some n =>
      if Int64.minValue.toInt ≤ n ∧ n ≤ Int64.maxValue.toInt then some (.integer (Int64.ofInt n))
      else none
    | none => if isFloat cs then some .float else if isTime cs then some .time else none

end ClassScript.Toml
