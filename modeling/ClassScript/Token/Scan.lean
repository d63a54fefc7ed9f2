import ClassScript.Text.Letter
import ClassScript.Token.Basic

/-!
# Scanning

A source is cut into tokens from left to right. Blanks and comments separate tokens, each token
is the longest one that starts at its place, and the last token marks the end of the input. A
glyph that starts no token, a string without its closing quote and a number out of range become
illegal tokens, so that every source has a list of tokens.
-/

namespace ClassScript.Token

/-- A place in a source: line and column count from 1, and a column is one glyph wide. -/
structure Position where
  /-- The line. -/
  line : Nat
  /-- The column. -/
  column : Nat
deriving DecidableEq, Inhabited

namespace Position

/-- Where every source starts. -/
def start : Position := ⟨1, 1⟩

/-- The place behind a glyph. -/
def next (p : Position) (g : Glyph) : Position :=
  if g = .char '\n' then ⟨p.line + 1, 1⟩ else ⟨p.line, p.column + 1⟩

/-- The place behind a run of glyphs. -/
def after (p : Position) (gs : List Glyph) : Position := gs.foldl next p

end Position

/-! ### Character classes -/

/-- The blanks that separate tokens. -/
def isBlank (g : Glyph) : Bool :=
  g = .char ' ' || g = .char '\t' || g = .char '\n' || g = .char '\r'

/-- The digits of a number. -/
def isDigit (g : Glyph) : Bool := g.toChar.isDigit

/-- The glyphs a word may start with. -/
def isWordStart (g : Glyph) : Bool := g.toChar = '_' || Text.isLetter g.toChar

/-- The glyphs a word may go on with. -/
def isWordPart (g : Glyph) : Bool := isWordStart g || isDigit g

/-- Skips blanks and comments; in a comment, everything up to the end of the line. -/
def skip : Bool → Position → List Glyph → Position × List Glyph
  | _, p, [] => (p, [])
  | true, p, g :: rest => skip (g ≠ .char '\n') (p.next g) rest
  | false, p, g :: rest =>
    if isBlank g then skip false (p.next g) rest
    else if g = .char '#' then skip true (p.next g) rest
    else (p, g :: rest)

/-! ### One token -/

/-- A token cut from the front of a source. -/
structure Cut where
  /-- The lexical class. -/
  kind : Kind
  /-- What the token says it is. -/
  spelling : List Glyph
  /-- The value of a literal token. -/
  literal : Option Literal := none
  /-- The glyphs cut off. -/
  taken : List Glyph
  /-- The glyphs left. -/
  rest : List Glyph

/-- A token that says what it covers. -/
def Cut.plain (kind : Kind) (taken rest : List Glyph) : Cut :=
  { kind, spelling := taken, taken, rest }

/-- A token that says what is wrong with what it covers. -/
def Cut.illegal (complaint : String) (taken rest : List Glyph) : Cut :=
  { kind := .illegal, spelling := Glyph.ofString complaint, taken, rest }

/-- The kind of a token that is one glyph long whatever follows. -/
def punctuation? : Char → Option Kind
  | '(' => some .leftParen
  | ')' => some .rightParen
  | '\x7b' => some .leftBrace
  | '\x7d' => some .rightBrace
  | '[' => some .leftBracket
  | ']' => some .rightBracket
  | ',' => some .comma
  | ';' => some .semicolon
  | ':' => some .colon
  | '+' => some .plus
  | '-' => some .minus
  | '*' => some .star
  | '/' => some .slash
  | '%' => some .percent
  | _ => none

/-- The kinds of an operator alone and followed by an equals sign. -/
def comparison? : Char → Option (Kind × Kind)
  | '!' => some (.bang, .bangEqual)
  | '=' => some (.equal, .equalEqual)
  | '>' => some (.greater, .greaterEqual)
  | '<' => some (.less, .lessEqual)
  | _ => none

/-- What a backslash and the glyph behind it stand for; an unknown pair stands for itself. -/
def unescape (g : Glyph) : List Char :=
  match g.toChar with
  | 'n' => ['\n']
  | 't' => ['\t']
  | '"' => ['"']
  | '\\' => ['\\']
  | c => ['\\', c]

/-- The rest of a string behind its opening quote. -/
structure StringTail where
  /-- The characters the string stands for. -/
  value : List Char
  /-- The glyphs up to and with the closing quote. -/
  taken : List Glyph
  /-- The glyphs left. -/
  rest : List Glyph

/-- A string tail with more in front of it. -/
def StringTail.prepend (value : List Char) (taken : List Glyph) (t : StringTail) : StringTail :=
  { t with value := value ++ t.value, taken := taken ++ t.taken }

/-- Reads a string up to its closing quote, if it has one. -/
def stringTail? : List Glyph → Option StringTail
  | [] => none
  | [g] => if g = .char '"' then some ⟨[], [g], []⟩ else none
  | g :: h :: rest =>
    if g = .char '"' then some ⟨[], [g], h :: rest⟩
    else if g = .char '\\' then (stringTail? rest).map (·.prepend (unescape h) [g, h])
    else (stringTail? (h :: rest)).map (·.prepend [g.toChar] [g])

/-- Cuts a string behind its opening quote. -/
def cutString (quote : Glyph) (rest : List Glyph) : Cut :=
  match stringTail? rest with
  | none => .illegal "unterminated string" (quote :: rest) []
  | some t =>
    { Cut.plain .string (quote :: t.taken) t.rest with
      literal := some (.string (String.ofList t.value)) }

/-- The value of a run of decimal digits. -/
def digitsValue (digits : List Glyph) : Nat :=
  digits.foldl (fun n g => 10 * n + (g.toChar.toNat - '0'.toNat)) 0

/-- The largest integer that a literal can stand for. -/
def maxInteger : Nat := (1 <<< 63) - 1

/-- Cuts an integer of the given digits. -/
def cutInteger (digits rest : List Glyph) : Cut :=
  let value := digitsValue digits
  if value ≤ maxInteger then
    { Cut.plain .integer digits rest with literal := some (.int (Int64.ofNat value)) }
  else .illegal ("integer out of range: " ++ Glyph.text digits) digits rest

/-- Cuts a float of the given whole digits, point and fraction digits. -/
def cutFloat (whole : List Glyph) (point : Glyph) (fraction rest : List Glyph) : Cut :=
  let taken := whole ++ point :: fraction
  let value := Float.ofScientific (digitsValue (whole ++ fraction)) true fraction.length
  if value.isFinite then { Cut.plain .float taken rest with literal := some (.float value) }
  else .illegal ("invalid float: " ++ Glyph.text taken) taken rest

/-- Cuts a number. A float needs digits on both sides of its point, so that a member can be
read from an integer. -/
def cutNumber (src : List Glyph) : Cut :=
  let whole := src.takeWhile isDigit
  match src.dropWhile isDigit with
  | point :: rest =>
    let fraction := rest.takeWhile isDigit
    if point = .char '.' && !fraction.isEmpty then
      cutFloat whole point fraction (rest.dropWhile isDigit)
    else cutInteger whole (point :: rest)
  | [] => cutInteger whole []

/-- Cuts a word. -/
def cutWord (src : List Glyph) : Cut :=
  let word := src.takeWhile isWordPart
  .plain (.ofWord (Glyph.text word)) word (src.dropWhile isWordPart)

/-- Cuts the token at the front of a source that starts with neither a blank nor a comment. -/
def cut (g : Glyph) (rest : List Glyph) : Cut :=
  match punctuation? g.toChar with
  | some kind => .plain kind [g] rest
  | none =>
    match comparison? g.toChar with
    | some (alone, doubled) =>
      match rest with
      | e :: rest' => if e = .char '=' then .plain doubled [g, e] rest' else .plain alone [g] rest
      | [] => .plain alone [g] []
    | none =>
      if g = .char '.' then
        match rest with
        | .char '.' :: .char '.' :: rest' => .plain .ellipsis [g, g, g] rest'
        | _ => .plain .dot [g] rest
      else if g = .char '"' then cutString g rest
      else if isDigit g then cutNumber (g :: rest)
      else if isWordStart g then cutWord (g :: rest)
      else .illegal ("unexpected character: " ++ String.singleton g.toChar) [g] rest

/-! ### The rest is shorter -/

/-- Skipping leaves no more than there was. -/
theorem length_skip_le (comment : Bool) (p : Position) (src : List Glyph) :
    (skip comment p src).2.length ≤ src.length := by
  induction src generalizing comment p with
  | nil => cases comment <;> simp [skip]
  | cons g rest ih =>
    cases comment with
    | true => exact Nat.le_succ_of_le (ih _ _)
    | false =>
      simp only [skip]
      split
      · exact Nat.le_succ_of_le (ih _ _)
      · split
        · exact Nat.le_succ_of_le (ih _ _)
        · simp

/-- A string tail is a split of what it was read from. -/
theorem stringTail?_append {src : List Glyph} {t : StringTail} (h : stringTail? src = some t) :
    t.taken ++ t.rest = src := by
  fun_induction stringTail? src generalizing t with
  | case1 => simp at h
  | case2 => simp only [Option.some.injEq] at h; simp [← h]
  | case3 => simp at h
  | case4 => simp only [Option.some.injEq] at h; simp [← h]
  | case5 k rest _ ih =>
    obtain ⟨u, hu, rfl⟩ := Option.map_eq_some_iff.1 h
    simp [StringTail.prepend, ih hu]
  | case6 g k rest _ _ ih =>
    obtain ⟨u, hu, rfl⟩ := Option.map_eq_some_iff.1 h
    simp [StringTail.prepend, ih hu]

/-! ### What can be cut -/

/-- A run of digits: one digit at least. -/
structure IsRun (digits : List Glyph) : Prop where
  /-- There is a digit. -/
  ne_nil : digits ≠ []
  /-- There is nothing else. -/
  isDigit : ∀ g ∈ digits, isDigit g = true

/-- The digits at the front of a source, if there are any, are a run. -/
theorem isRun_takeWhile {src : List Glyph} (h : src.takeWhile isDigit ≠ []) :
    IsRun (src.takeWhile isDigit) := ⟨h, List.all_eq_true.1 List.all_takeWhile⟩

/-- What is cut from the front of a source: one case for each token that can start there, and one
for each way to be illegal. -/
inductive Cuts : Glyph → List Glyph → Cut → Prop
  /-- A sign that is a token whatever follows. -/
  | punctuation {g : Glyph} {rest : List Glyph} {kind : Kind} :
    punctuation? g.toChar = some kind → Cuts g rest (.plain kind [g] rest)
  /-- An operator without an equals sign behind it. -/
  | alone {g : Glyph} {rest : List Glyph} {kind doubled : Kind} :
    comparison? g.toChar = some (kind, doubled) → Cuts g rest (.plain kind [g] rest)
  /-- An operator with an equals sign. -/
  | doubled {g : Glyph} {rest : List Glyph} {alone kind : Kind} :
    comparison? g.toChar = some (alone, kind) →
      Cuts g (.char '=' :: rest) (.plain kind [g, .char '='] rest)
  /-- A dot. -/
  | dot {rest : List Glyph} : Cuts (.char '.') rest (.plain .dot [.char '.'] rest)
  /-- Three dots. -/
  | ellipsis {rest : List Glyph} :
    Cuts (.char '.') (.char '.' :: .char '.' :: rest)
      (.plain .ellipsis [.char '.', .char '.', .char '.'] rest)
  /-- A string. -/
  | string {rest : List Glyph} {t : StringTail} :
    stringTail? rest = some t →
      Cuts (.char '"') rest
        { Cut.plain .string (.char '"' :: t.taken) t.rest with
          literal := some (.string (String.ofList t.value)) }
  /-- A string without its closing quote takes all there is. -/
  | unterminated {rest : List Glyph} :
    Cuts (.char '"') rest (.illegal "unterminated string" (.char '"' :: rest) [])
  /-- An integer. -/
  | integer {g : Glyph} {rest digits rest' : List Glyph} :
    IsRun digits → digits ++ rest' = g :: rest →
      Cuts g rest
        { Cut.plain .integer digits rest' with
          literal := some (.int (Int64.ofNat (digitsValue digits))) }
  /-- An integer that is too large. -/
  | outOfRange {g : Glyph} {rest digits rest' : List Glyph} :
    IsRun digits → digits ++ rest' = g :: rest →
      Cuts g rest (.illegal ("integer out of range: " ++ Glyph.text digits) digits rest')
  /-- A float. -/
  | float {g : Glyph} {rest whole fraction rest' : List Glyph} {value : Float} :
    IsRun whole → IsRun fraction → whole ++ .char '.' :: fraction ++ rest' = g :: rest →
      Cuts g rest
        { Cut.plain .float (whole ++ .char '.' :: fraction) rest' with
          literal := some (.float value) }
  /-- A float that is too large. -/
  | infinite {g : Glyph} {rest whole fraction rest' : List Glyph} :
    IsRun whole → IsRun fraction → whole ++ .char '.' :: fraction ++ rest' = g :: rest →
      Cuts g rest
        (.illegal ("invalid float: " ++ Glyph.text (whole ++ .char '.' :: fraction))
          (whole ++ .char '.' :: fraction) rest')
  /-- A word. -/
  | word {g : Glyph} {rest : List Glyph} :
    isWordStart g = true → Cuts g rest (cutWord (g :: rest))
  /-- A glyph that starts nothing. -/
  | unexpected {g : Glyph} {rest : List Glyph} :
    Cuts g rest (.illegal ("unexpected character: " ++ String.singleton g.toChar) [g] rest)

/-- A run of digits is cut as an integer. -/
theorem cuts_cutInteger {g : Glyph} {rest digits rest' : List Glyph} (hdigits : IsRun digits)
    (h : digits ++ rest' = g :: rest) : Cuts g rest (cutInteger digits rest') := by
  unfold cutInteger
  dsimp only
  split
  · exact .integer hdigits h
  · exact .outOfRange hdigits h

/-- A number is cut with all the digits that follow. -/
theorem cuts_cutNumber {g : Glyph} (hg : isDigit g = true) (rest : List Glyph) :
    Cuts g rest (cutNumber (g :: rest)) := by
  have hwhole : IsRun ((g :: rest).takeWhile isDigit) := by
    refine isRun_takeWhile ?_
    rw [List.takeWhile_cons_of_pos hg]
    exact List.cons_ne_nil _ _
  have hsplit := List.takeWhile_append_dropWhile (p := isDigit) (l := g :: rest)
  unfold cutNumber
  split
  · -- A point with digits behind it makes a float; any other point is left.
    next point src hleft =>
    rw [hleft] at hsplit
    dsimp only
    split
    · next hpoint =>
      rw [Bool.and_eq_true, decide_eq_true_eq, Bool.not_eq_true', List.isEmpty_eq_false_iff]
        at hpoint
      obtain ⟨rfl, hfraction⟩ := hpoint
      have hall : (g :: rest).takeWhile isDigit ++ .char '.' :: src.takeWhile isDigit ++
          src.dropWhile isDigit = g :: rest := by
        rw [List.append_assoc, List.cons_append, List.takeWhile_append_dropWhile, hsplit]
      unfold cutFloat
      dsimp only
      split
      · exact .float hwhole (isRun_takeWhile hfraction) hall
      · exact .infinite hwhole (isRun_takeWhile hfraction) hall
    · exact cuts_cutInteger hwhole hsplit
  · next hleft =>
    rw [hleft] at hsplit
    exact cuts_cutInteger hwhole hsplit

/-- A token is cut in one of these ways. -/
theorem cuts_cut (g : Glyph) (rest : List Glyph) : Cuts g rest (cut g rest) := by
  unfold cut
  split
  · next hpunctuation => exact .punctuation hpunctuation
  · split
    · next hcomparison =>
      split
      · split
        · next hequal =>
          subst hequal
          exact .doubled hcomparison
        · exact .alone hcomparison
      · exact .alone hcomparison
    · split
      · next hdot =>
        subst hdot
        split
        · exact .ellipsis
        · exact .dot
      · split
        · next hquote =>
          subst hquote
          unfold cutString
          split
          · exact .unterminated
          · next htail => exact .string htail
        · split
          · next hdigit => exact cuts_cutNumber hdigit rest
          · split
            · next hstart => exact .word hstart
            · exact .unexpected

/-- What is cut off and what is left make up the source. -/
theorem Cuts.append {g : Glyph} {rest : List Glyph} {c : Cut} (h : Cuts g rest c) :
    c.taken ++ c.rest = g :: rest := by
  cases h with
  | punctuation | alone | doubled | dot | ellipsis | unexpected => rfl
  | string htail => exact congrArg (_ :: ·) (stringTail?_append htail)
  | unterminated => exact List.append_nil _
  | integer _ hsplit | outOfRange _ hsplit | float _ _ hsplit | infinite _ _ hsplit => exact hsplit
  | word => exact List.takeWhile_append_dropWhile

/-- Every token takes something. -/
theorem Cuts.taken_ne_nil {g : Glyph} {rest : List Glyph} {c : Cut} (h : Cuts g rest c) :
    c.taken ≠ [] := by
  cases h with
  | punctuation | alone | doubled | dot | ellipsis | unexpected | string | unterminated =>
    exact List.cons_ne_nil _ _
  | integer hdigits | outOfRange hdigits => exact hdigits.ne_nil
  | float hwhole | infinite hwhole => exact List.append_ne_nil_of_left_ne_nil hwhole.ne_nil _
  | word hstart =>
    show (g :: rest).takeWhile isWordPart ≠ []
    rw [List.takeWhile_cons_of_pos (by rw [isWordPart, hstart, Bool.true_or])]
    exact List.cons_ne_nil _ _

/-- A cut takes the front of a source and leaves the rest. -/
theorem cut_append (g : Glyph) (rest : List Glyph) :
    (cut g rest).taken ++ (cut g rest).rest = g :: rest := (cuts_cut g rest).append

/-- A token leaves less than there was. -/
theorem length_cut_rest_lt (g : Glyph) (rest : List Glyph) :
    (cut g rest).rest.length < (g :: rest).length := by
  have h := congrArg List.length (cut_append g rest)
  have := List.length_pos_iff.2 (cuts_cut g rest).taken_ne_nil
  simp only [List.length_append] at h
  omega

/-! ### The whole source -/

/-- The token made of a cut at a place. -/
def Cut.token (c : Cut) (p : Position) : Token :=
  { Token.ofSpelling c.kind c.spelling with
    literal := c.literal, line := p.line, column := p.column }

/-- The token that marks the end of the input. -/
def endToken (p : Position) : Token :=
  { kind := .eof, lexeme := "", spelling := [], line := p.line, column := p.column }

/-- The tokens of a source that starts at a place. -/
def scanFrom (p : Position) (src : List Glyph) : List Token :=
  match _h : skip false p src with
  | (q, []) => [endToken q]
  | (q, g :: rest) =>
    let c := cut g rest
    c.token q :: scanFrom (q.after c.taken) c.rest
termination_by src.length
decreasing_by
  have h₁ := length_skip_le false p src
  simp only [_h] at h₁
  have := length_cut_rest_lt g rest
  omega

/-- The part of a source in front of its first NUL character, which ends the input. -/
def untilNul (src : List Glyph) : List Glyph := src.takeWhile (· ≠ .char '\x00')

/-- The tokens of a source; the last one marks the end of the input. -/
def scan (src : List Glyph) : List Token := scanFrom .start (untilNul src)

/-- The tokens of a text. -/
def scanText (s : String) : List Token := scan (Glyph.ofString s)

end ClassScript.Token
