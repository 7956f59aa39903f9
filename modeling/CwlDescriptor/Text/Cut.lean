set_option autoImplicit false

/-!
# Cutting a text at a separator

Functions on lists of characters that take a text apart at one separating character.

## Main definitions

* `Text.splitOn`: all pieces between the separators.
* `Text.cutFirst`: the text before and after the first separator.
* `Text.afterLast`: the text after the last separator.
-/

namespace CwlDescriptor.Text

/-- The pieces of a text between the occurrences of `sep`; there is one more piece than there are
separators. -/
def splitOn (sep : Char) : List Char → List (List Char)
  | [] => [[]]
  | c :: rest =>
    if c = sep then [] :: splitOn sep rest
    else match splitOn sep rest with
      | [] => [[c]]
      | piece :: pieces => (c :: piece) :: pieces

/-- The text before and after the first `sep`, if there is one. -/
def cutFirst (sep : Char) (s : List Char) : Option (List Char × List Char) :=
  match s.span (· ≠ sep) with
  | (_, []) => none
  | (before, _ :: after) => some (before, after)

/-- The text after the last `sep`, or the whole text if there is none. -/
def afterLast (sep : Char) (s : List Char) : List Char :=
  (s.reverse.takeWhile (· ≠ sep)).reverse

/-- The text up to and including the last `sep`, or nothing if there is none. -/
def throughLast (sep : Char) (s : List Char) : List Char :=
  (s.reverse.dropWhile (· ≠ sep)).reverse

/-- The lower case form of the letters of the Latin alphabet without diacritics; every other
character stays. -/
def lower (s : List Char) : List Char :=
  s.map Char.toLower

end CwlDescriptor.Text
