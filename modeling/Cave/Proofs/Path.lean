import Mathlib.Data.List.Infix
import Cave.Model.Path

/-!
# What `parsePath` addresses

`parsePath` finds the key by `strings.LastIndex` and the buckets by
`strings.Split`. The two agree: the pieces of the split are the buckets followed
by the key (`split_eq_parsePath`), so a path is its buckets and key joined with
`/` again, and two paths that address the same bucket chain and key are the
same path (`parsePath_injective`).

The store's laws also need the paths below a path `p`: a path starts with
`p ++ "/"` exactly when its bucket chain runs through all of `p`'s pieces, the
key included (`slash_prefix_iff`). Deleting the bucket `p` names removes the
leaves of exactly those paths.
-/

namespace Cave

theorem modifyHead_append {f : α → α} {xs : List α} (ys : List α) (h : xs ≠ []) :
    (xs ++ ys).modifyHead f = xs.modifyHead f ++ ys := by
  cases xs with
  | nil => exact absurd rfl h
  | cons => rfl

/-- A separator ends one piece and begins the next. -/
theorem splitOn_append_cons (c : Char) (xs ys : List Char) :
    (xs ++ c :: ys).splitOn c = xs.splitOn c ++ ys.splitOn c := by
  induction xs with
  | nil => simp [List.splitOn]
  | cons x xs ih =>
    simp only [List.cons_append, List.splitOn] at ih ⊢
    rw [List.splitOnP_cons, List.splitOnP_cons, ih]
    split
    · rfl
    · exact modifyHead_append _ (List.splitOnP_ne_nil _ _)

theorem splitOn_of_not_mem {c : Char} {s : List Char} (h : c ∉ s) : s.splitOn c = [s] :=
  List.splitOnP_eq_single _ _ fun x hx he => h (by simpa [beq_iff_eq.mp he] using hx)

/-- `strings.LastIndex` finds the last separator, or reports that there is
none. -/
theorem lastIndex_spec (c : Char) (s : List Char) :
    (c ∉ s ∧ lastIndex c s = -1) ∨
      ∃ pre last, s = pre ++ c :: last ∧ c ∉ last ∧ lastIndex c s = pre.length := by
  induction s with
  | nil => exact .inl ⟨List.not_mem_nil c, rfl⟩
  | cons x xs ih =>
    rcases ih with ⟨hc, hi⟩ | ⟨pre, last, rfl, hc, hi⟩
    · by_cases hx : x = c
      · subst hx; exact .inr ⟨[], xs, rfl, hc, by simp [lastIndex, hi]⟩
      · exact .inl ⟨by simp [hc, Ne.symm hx], by simp [lastIndex, hi, hx]⟩
    · exact .inr ⟨x :: pre, last, rfl, hc, by
      simp only [lastIndex, hi, List.length_cons, Int.natCast_add, Int.ofNat_one]; exact if_pos (by omega)⟩

/-- `parsePath`'s fast path and its split agree: the pieces are the buckets and
then the key. -/
theorem split_eq_parsePath (p : String) : split p = (parsePath p).1 ++ [(parsePath p).2] := by
  rcases lastIndex_spec '/' p.data with ⟨hc, hi⟩ | ⟨pre, last, hp, hc, hi⟩
  · simp [parsePath, split, hi, splitOn_of_not_mem hc]
  · have hs : p.data.splitOn '/' = pre.splitOn '/' ++ [last] := by
      rw [hp, splitOn_append_cons, splitOn_of_not_mem hc]
    have hd : p.data.drop (lastIndex '/' p.data + 1).toNat = last := by
      rw [hi, hp]; simp
    have hne : (⟨last⟩ : String) ≠ p := fun h => by
      have := congrArg (fun s : String => s.data.length) h
      simp [hp] at this
      omega
    simp only [parsePath, hd, hne, if_false, split, hs, List.map_append, List.map_cons,
      List.map_nil, List.dropLast_concat]

theorem split_ne_nil (p : String) : split p ≠ [] := by
  simp [split_eq_parsePath p]

theorem data_eq_intercalate (p : String) :
    p.data = ['/'].intercalate ((split p).map String.data) := by
  simp [split, Function.comp_def, List.intercalate_splitOn]

/-- Distinct paths never address the same bucket chain and key. -/
theorem parsePath_injective : Function.Injective parsePath := fun p q h =>
  String.ext (by rw [data_eq_intercalate p, data_eq_intercalate q, split_eq_parsePath p,
    split_eq_parsePath q, h])

theorem parsePath_snd_data (p : String) :
    (parsePath p).2.data = p.data.drop (lastIndex '/' p.data + 1).toNat := by
  simp only [parsePath]; split_ifs <;> rfl

/-- The key is what follows the last `/`, so it holds none. -/
theorem slash_not_mem_key (p : String) : '/' ∉ (parsePath p).2.data := by
  rw [parsePath_snd_data]
  rcases lastIndex_spec '/' p.data with ⟨hc, hi⟩ | ⟨pre, last, hp, hc, hi⟩
  · simpa [hi] using hc
  · rw [hi, hp]; simpa using hc

/-- `parsePath` is the `strings.Split` of the path cut before its last piece;
the key holds no `/`, joining the pieces gives the path back, and no two paths
are cut alike. -/
theorem parsePath_agrees_with_split :
    (∀ path, parsePath path =
        ((split path).dropLast, (split path).getLast (split_ne_nil path)) ∧
      '/' ∉ (parsePath path).2.data ∧
      join ((parsePath path).1 ++ [(parsePath path).2]) "/" = path) ∧
    Function.Injective parsePath := by
  refine ⟨fun p => ⟨?_, slash_not_mem_key p, ?_⟩, parsePath_injective⟩
  · simp only [split_eq_parsePath, List.dropLast_concat, List.getLast_append_singleton]
  · exact String.ext (by rw [data_eq_intercalate p, split_eq_parsePath p]; rfl)

theorem intercalate_append (sep : List α) :
    ∀ (xs ys : List (List α)), xs ≠ [] → ys ≠ [] →
      sep.intercalate (xs ++ ys) = sep.intercalate xs ++ sep ++ sep.intercalate ys
  | [], _, hx, _ => absurd rfl hx
  | [a], b :: ys, _, _ => by simp [List.intercalate]
  | a :: a' :: xs, ys, _, hy => by
    have ih := intercalate_append sep (a' :: xs) ys (List.cons_ne_nil _ _) hy
    simp only [List.intercalate, List.cons_append, List.intersperse_cons₂,
      List.flatten_cons] at ih ⊢
    rw [ih]; simp

theorem split_slash (p r : String) : split (p ++ "/" ++ r) = split p ++ split r := by
  simp [split, String.data_append, splitOn_append_cons]

/-- A path ending in `/` names the bucket chain of its pieces and the empty
key. -/
theorem parsePath_slash (q : String) : parsePath (q ++ "/") = (split q, "") := by
  have hs : split (q ++ "/") = split q ++ [""] := by simpa using split_slash q ""
  have h := split_eq_parsePath (q ++ "/")
  rw [hs] at h
  obtain ⟨h₁, h₂⟩ := List.append_inj' h rfl
  exact Prod.ext h₁.symm (List.singleton_inj.mp h₂).symm

/-- A path starts with `p ++ "/"` exactly when its bucket chain runs through all
of `p`'s pieces. -/
theorem slash_prefix_iff (p q : String) :
    (p ++ "/").data <+: q.data ↔ split p <+: (parsePath q).1 := by
  constructor
  · rintro ⟨r, hr⟩
    obtain rfl : q = p ++ "/" ++ ⟨r⟩ := String.ext (by simp [← hr])
    have hs := split_eq_parsePath (p ++ "/" ++ ⟨r⟩)
    rw [split_slash, ← List.dropLast_append_getLast (split_ne_nil ⟨r⟩),
      ← List.append_assoc] at hs
    have := congrArg List.dropLast hs
    simp only [List.dropLast_concat] at this
    exact ⟨_, this⟩
  · rintro ⟨t, ht⟩
    have hq : q.data = p.data ++ ['/'] ++
        ['/'].intercalate ((t ++ [(parsePath q).2]).map String.data) := by
      rw [data_eq_intercalate q, split_eq_parsePath q, ← ht, List.append_assoc, List.map_append,
        intercalate_append ['/'] ((split p).map String.data)
          ((t ++ [(parsePath q).2]).map String.data) (by simpa using split_ne_nil p)
          (by simp), ← data_eq_intercalate p]
    exact ⟨_, by rw [hq, String.data_append]⟩

end Cave
