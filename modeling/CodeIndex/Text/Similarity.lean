/-!
# Similar words

The similarity of two words counts the characters that they share at about the same place, and
takes off half of those that come in another order. It is a fraction between 0 and 1, in thirds of
the shares of both words and of the characters in order.

* `similarity` : the fraction;
* `mostSimilar?` : the best candidate above seven tenths.
-/

namespace CodeIndex.Text

/-- The first place from `low` up to but without `high` that holds `c` and is not taken. -/
def findFree (c : Char) (low high : Nat) (word : List Char) (taken : List Nat) : Option Nat :=
  (List.range word.length).find? fun j =>
    low ≤ j && j < high && word[j]? = some c && !taken.contains j

/-- The places in both words that are matched, as pairs, by the places in the first word. Places
may differ by `reach`. -/
def matchedPlaces (reach : Nat) (a b : List Char) : List (Nat × Nat) :=
  (List.range a.length).foldl (fun found i =>
    match a[i]? with
    | none => found
    | some c =>
      match findFree c (i - reach) (i + reach + 1) b (found.map (·.2)) with
      | some j => found ++ [(i, j)]
      | none => found) []

/-- How far apart places may be that match in words of these lengths. -/
def reachOf (m n : Nat) : Nat := max m n / 2 - 1

/-- The similarity of two words, as numerator and denominator. -/
def similarity (a b : List Char) : Nat × Nat :=
  let m := a.length
  let n := b.length
  if m = 0 ∧ n = 0 then (1, 1)
  else
    let pairs := matchedPlaces (reachOf m n) a b
    let k := pairs.length
    if k = 0 then (0, 1)
    else
      let shared := pairs.map fun p => a[p.1]?
      let sharedBack := ((pairs.map (·.2)).mergeSort fun i j => i ≤ j).map fun j => b[j]?
      let moved := ((shared.zip sharedBack).filter fun (x, y) => x ≠ y).length / 2
      (k * k * n + k * k * m + (k - moved) * m * n, 3 * k * m * n)

/-- Whether a fraction is at most another one. -/
def fractionLe (x y : Nat × Nat) : Bool := x.1 * y.2 ≤ y.1 * x.2

/-- The candidate most similar to a word, if it is so by more than seven tenths; the last one of
equals. -/
def mostSimilar? {α : Type} (word : String) (name : α → String) (candidates : List α) :
    Option α :=
  (candidates.foldl (fun best c =>
    let s := similarity word.toList (name c).toList
    if fractionLe s (7, 10) then best
    else
      match best with
      | some (t, d) => if fractionLe t s then some (s, c) else some (t, d)
      | none => some (s, c)) (none : Option ((Nat × Nat) × α))).map (·.2)

end CodeIndex.Text
