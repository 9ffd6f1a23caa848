/-!
# Splitting a text

The parts of a text between the places where a separator stands.  There is always one part more than
there are separators, so parts may be empty.
-/

namespace SchemaLang

/-- The parts of a text between separators. -/
def partsBetween (separator : Char) : List Char → List (List Char)
  | [] => [[]]
  | c :: cs =>
    if c = separator then [] :: partsBetween separator cs
    else match partsBetween separator cs with
      | part :: parts => (c :: part) :: parts
      | [] => [[c]]

theorem partsBetween_ne_nil (separator : Char) (cs : List Char) :
    partsBetween separator cs ≠ [] := by
  cases cs with
  | nil => simp [partsBetween]
  | cons c cs =>
    unfold partsBetween
    split
    · simp
    · split <;> simp

end SchemaLang
