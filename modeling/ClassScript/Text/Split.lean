/-!
# Parts of texts

Finding a text inside another one, and cutting a text at a separator.
-/

namespace ClassScript.Text

/-- The rest of a list behind a given start, if it starts so. -/
def behind? : List Char → List Char → Option (List Char)
  | [], s => some s
  | _ :: _, [] => none
  | p :: ps, c :: cs => if p = c then behind? ps cs else none

/-- Whether a list occurs inside another one. -/
def occursIn (part : List Char) : List Char → Bool
  | [] => part.isEmpty
  | c :: rest => (behind? part (c :: rest)).isSome || occursIn part rest

/-- Whether a text contains another one. -/
def contains (s part : String) : Bool := occursIn part.toList s.toList

/-- Cuts a list at every occurrence of a separator, from left to right; `skip` characters of the
last occurrence are still to be passed over. -/
def cutAt (separator : List Char) : Nat → List Char → List Char → List (List Char)
  | _, current, [] => [current.reverse]
  | skip + 1, current, _ :: rest => cutAt separator skip current rest
  | 0, current, c :: rest =>
    if (behind? separator (c :: rest)).isSome then
      current.reverse :: cutAt separator (separator.length - 1) [] rest
    else cutAt separator 0 (c :: current) rest

/-- The parts of a text between the occurrences of a separator; an empty separator cuts it into
characters. -/
def split (s separator : String) : List String :=
  if separator.isEmpty then s.toList.map String.singleton
  else (cutAt separator.toList 0 [] s.toList).map String.ofList

end ClassScript.Text
