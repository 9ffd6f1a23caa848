/-!
# Misspelt names

`suggest` finds the candidate that a name is most likely a misspelling of: the one at the least
edit distance, if that is small for the length of the name.
-/

namespace SchemaLang.Spelling

/-- One row of the distance table after its first entry, from the entry to the left and the row
above. -/
def extendRow (c : Char) : Nat → List Char → List Nat → List Nat
  | left, b :: bs, diagonal :: above :: row =>
    let here := min (min (left + 1) (above + 1)) (diagonal + if b = c then 0 else 1)
    here :: extendRow c here bs (above :: row)
  | _, _, _ => []

/-- The row of the distance table below `row`, for one more character `c`. -/
def nextRow (bs : List Char) (row : List Nat) (c : Char) : List Nat :=
  let first := row.headD 0 + 1
  first :: extendRow c first bs row

/-- The least number of insertions, deletions and replacements of a character that lead from one
text to the other. -/
def editDistance (as bs : List Char) : Nat :=
  (as.foldl (nextRow bs) (List.range (bs.length + 1))).getLastD 0

/-- The largest distance at which a name is taken for a misspelling. -/
def tolerance (name : String) : Nat := max 2 (name.utf8ByteSize / 3)

/-- The first of the pairs whose distance is least. -/
def nearest : List (Nat × String) → Option (Nat × String)
  | [] => none
  | p :: ps =>
    match nearest ps with
    | some q => if q.1 < p.1 then some q else some p
    | none => some p

/-- The candidate that is closest to `name`, if any is close enough. -/
def suggest (name : String) (candidates : List String) : Option String :=
  let measured := candidates.map fun c => (editDistance name.toList c.toList, c)
  (nearest (measured.filter (·.1 ≤ tolerance name))).map Prod.snd

end SchemaLang.Spelling
