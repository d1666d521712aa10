/-!
# Edit distance

The number of single-character insertions, deletions and substitutions that lead from one word
to another. The distances from a word `s` to all suffixes of a target `t` form a row, the longest
suffix first; one more character in front of `s` turns its row into the next one, so the distance
takes `|s| · |t|` steps.
-/

namespace Calculus.Text

/-- The row of the empty word: every character of a suffix has to be inserted. -/
def firstRow : List Char → List Nat
  | [] => [0]
  | _ :: t => (t.length + 1) :: firstRow t

/-- The row of `c :: s`, from the row of `s`. -/
def nextRow (c : Char) : List Char → List Nat → List Nat
  | d :: t, skipped :: row =>
    let rest := nextRow c t row
    let delete := skipped + 1
    let insert := rest.headD 0 + 1
    let replace := row.headD 0 + if c = d then 0 else 1
    min (min delete insert) replace :: rest
  | _, row => row.map (· + 1)

/-- The edit distance between two words. -/
def editDistance (s t : List Char) : Nat :=
  (s.foldr (fun c row => nextRow c t row) (firstRow t)).headD 0

end Calculus.Text
