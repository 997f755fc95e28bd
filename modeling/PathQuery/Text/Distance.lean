/-! The number of single-character edits between two texts. -/

namespace PathQuery.Text

/-- The distances of a text that ends in `c`, from those without it: `corner` and `row` are the
old distances to each beginning of the second text, `left` the new distance just computed. -/
def distanceRow (c : Char) : List Char → Nat → List Nat → Nat → List Nat
  | d :: ds, corner, up :: row, left =>
    let best := min (min (left + 1) (up + 1)) (if c == d then corner else corner + 1)
    best :: distanceRow c ds up row best
  | _, _, _, _ => []

/-- Distances between the text read so far, of length `n`, and each beginning of `t`. -/
def distances (t : List Char) : List Char → Nat → List Nat → List Nat
  | [], n, row => n :: row
  | c :: cs, n, row => distances t cs (n + 1) (distanceRow c t n row (n + 1))

def editDistance (s t : String) : Nat :=
  let t := t.toList
  (distances t s.toList 0 (List.range' 1 t.length)).getLastD 0

end PathQuery.Text
