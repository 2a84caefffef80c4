import Mathlib.Data.List.Basic
import Cave.Model.Types

/-!
# Paths

`parsePath` cuts a path into the bucket chain and the key. It takes the key with
`strings.LastIndex` and a slice, and the buckets with `strings.Split`; the two
are modelled as Go computes them, on the characters of the path. `strings.Split`
with a one-character separator is `List.splitOn`: `n` separators give `n + 1`
pieces, empty ones included, and the empty string gives one empty piece.
-/

namespace Cave

/-- `strings.LastIndex(s, string(c))`: where `c` last occurs in `s`, or -1. -/
def lastIndex (c : Char) : List Char → Int
  | [] => -1
  | x :: xs =>
    let i := lastIndex c xs
    if 0 ≤ i then i + 1 else if x = c then 0 else -1

/-- `strings.Split(s, "/")`. -/
def split (s : String) : List String := (s.data.splitOn '/').map String.mk

/-- `strings.Join(elems, sep)`. -/
def join (elems : List String) (sep : String) : String :=
  ⟨sep.data.intercalate (elems.map String.data)⟩

/-- `parsePath`: the bucket chain and the key of a path. -/
def parsePath (path : String) : List String × String :=
  let last : String := ⟨path.data.drop (lastIndex '/' path.data + 1).toNat⟩
  if last = path then ([], last)
  else
    let paths := split path
    (paths.dropLast, last)

example : parsePath "" = ([], "") := by decide
example : parsePath "a/b/" = (["a", "b"], "") := by decide

end Cave
