import Mathlib.Data.List.Infix
import Cave.Model.Bolt

/-!
# Reading the bucket tree after a write

Everything the engine reads from the tree goes through `entry`: a bucket lookup,
a value lookup, and through them the walk down a path. So the effect of every
write is first stated on `entry` (`entry_insert`, `entry_erase`), and the leaf a
path reaches, `leaf?`, is then followed through the writes the engine makes:
a value written or removed at the end of a walk, a bucket removed, and the
rebuilding of the parents when a handle is written back.

The last is `leaf?_descend`, the fact the map laws of the store rest on: after
`descend` reached a bucket and the caller wrote a new version of it, a path
below that bucket reads the new version, and every other path reads what it
read before. A bucket the walk created reads as empty before and after, so it
changes no leaf.
-/

namespace Cave.Bucket

variable {b : Bucket} {k j : String}

@[simp] theorem keyLt_self : ∀ a : List Char, keyLt a a = false
  | [] => rfl
  | _ :: a => by simp [keyLt, keyLt_self a]

theorem entry_insert (b : Bucket) (k : String) (n : Node) (j : String) :
    (b.insert k n).entry j = if k = j then some n else b.entry j := by
  induction b with
  | nil => rfl
  | cons e es ih =>
    obtain ⟨k', n'⟩ := e
    by_cases hlt : keyLt k.data k'.data
    · simp [insert, entry, hlt]
    · by_cases h : k' = k
      · subst h; by_cases hj : k' = j <;> simp [insert, entry, hlt, hj]
      · by_cases hj : k' = j
        · subst hj; simp [insert, entry, hlt, h, Ne.symm h]
        · simp [insert, entry, hlt, h, hj, ih]

theorem entry_erase (b : Bucket) (k j : String) :
    (b.erase k).entry j = if k = j then none else b.entry j := by
  induction b with
  | nil => simp [erase, entry]
  | cons e es ih =>
    obtain ⟨k', n'⟩ := e
    by_cases h : k' = k
    · subst h
      by_cases hj : k' = j
      · subst hj; simp [erase, ih]
      · simp [erase, entry, ih, hj]
    · by_cases hj : k' = j
      · subst hj; simp [erase, entry, h, Ne.symm h]
      · simp [erase, entry, h, hj, ih]

theorem bucket_insert (b : Bucket) (k : String) (n : Node) (q : String) :
    (b.insert k n).bucket q = if k = q then n.bucket? else b.bucket q := by
  simp only [bucket, entry_insert]; split <;> rfl

theorem get_insert (b : Bucket) (k : String) (n : Node) (q : String) :
    (b.insert k n).get q = if k = q then n.value? else b.get q := by
  simp only [get, entry_insert]; split <;> rfl

theorem bucket_erase (b : Bucket) (k q : String) :
    (b.erase k).bucket q = if k = q then none else b.bucket q := by
  simp only [bucket, entry_erase]; split <;> rfl

theorem get_erase (b : Bucket) (k q : String) :
    (b.erase k).get q = if k = q then none else b.get q := by
  simp only [get, entry_erase]; split <;> rfl

@[simp] theorem walk_nil (b : Bucket) : b.walk [] = some b := rfl

@[simp] theorem walk_cons (b : Bucket) (q : String) (qs : List String) :
    b.walk (q :: qs) = (b.bucket q).bind fun c => c.walk qs := rfl

@[simp] theorem leaf?_nil (b : Bucket) (j : String) : b.leaf? [] j = b.get j := rfl

@[simp] theorem leaf?_cons (b : Bucket) (q : String) (qs : List String) (j : String) :
    b.leaf? (q :: qs) j = (b.bucket q).bind fun c => c.leaf? qs j := by
  simp only [leaf?, walk_cons]; cases b.bucket q <;> rfl

@[simp] theorem leaf?_empty (qs : List String) (j : String) :
    Bucket.leaf? [] qs j = none := by
  cases qs <;> rfl

/-- A value written over a key that held no bucket: only that key's leaf
changes. -/
theorem leaf?_insert_value (hk : b.bucket k = none) (v : Bytes) (qs : List String) :
    (b.insert k (.value v)).leaf? qs j = if qs = [] ∧ k = j then some v else b.leaf? qs j := by
  cases qs with
  | nil => by_cases h : k = j <;> simp [get_insert, h, Node.value?]
  | cons q qs =>
    by_cases h : k = q
    · subst h; simp [bucket_insert, Node.bucket?, hk]
    · simp [bucket_insert, h]

/-- A key that held no bucket removed: only that key's leaf changes. -/
theorem leaf?_erase_value (hk : b.bucket k = none) (qs : List String) :
    (b.erase k).leaf? qs j = if qs = [] ∧ k = j then none else b.leaf? qs j := by
  cases qs with
  | nil => by_cases h : k = j <;> simp [get_erase, h]
  | cons q qs =>
    by_cases h : k = q
    · subst h; simp [bucket_erase, hk]
    · simp [bucket_erase, h]

/-- A bucket removed: every leaf below it is gone, the rest stay. -/
theorem leaf?_erase_bucket (hk : b.get k = none) (qs : List String) :
    (b.erase k).leaf? qs j = if qs.head? = some k then none else b.leaf? qs j := by
  cases qs with
  | nil => by_cases h : k = j <;> simp_all [get_erase]
  | cons q qs =>
    by_cases h : k = q
    · subst h; simp [bucket_erase]
    · simp [bucket_erase, h, Ne.symm h]

theorem put_ok {b b' : Bucket} {k : String} {v : Bytes} (h : b.put k v = .ok b') :
    b.bucket k = none ∧ b' = b.insert k (.value v) := by
  simp only [put] at h
  split at h; · cases h
  split at h; · cases h
  split at h; · cases h
  split at h
  · cases h
  · next hk => cases h; exact ⟨by simp only [bucket]; cases he : b.entry k with
      | none => rfl
      | some n => cases n <;> simp_all [Node.bucket?], rfl⟩

theorem delete_ok {b b' : Bucket} {k : String} (h : b.delete k = .ok b') :
    b.bucket k = none ∧ b' = b.erase k := by
  simp only [delete] at h
  split at h
  · cases h
  · next hk => cases h; exact ⟨by simp only [bucket]; cases he : b.entry k with
      | none => rfl
      | some n => cases n <;> simp_all [Node.bucket?], rfl⟩

theorem deleteBucket_ok {b b' : Bucket} {k : String} (h : b.deleteBucket k = .ok b') :
    b.get k = none ∧ b' = b.erase k := by
  simp only [deleteBucket] at h
  split at h
  · next c hk => cases h; exact ⟨by simp [get, hk, Node.value?], rfl⟩
  · cases h
  · split at h <;> cases h

/-- A handle one level down, written back: `c` is the bucket under `p` as the
walk found or made it, and `set'` writes a new version of a bucket below `c`
into `c`. -/
theorem leaf?_insert_child {p : String} {c : Bucket} {ps : List String}
    {set' : Bucket → Bucket} (hget : b.get p = none)
    (hc : ∀ qs j, c.leaf? qs j = b.leaf? (p :: qs) j)
    (hset : ∀ d' qs j, (set' d').leaf? qs j =
      if ps <+: qs then d'.leaf? (qs.drop ps.length) j else c.leaf? qs j)
    (d' : Bucket) (qs : List String) (j : String) :
    (b.insert p (.bucket (set' d'))).leaf? qs j =
      if p :: ps <+: qs then d'.leaf? (qs.drop (ps.length + 1)) j else b.leaf? qs j := by
  cases qs with
  | nil => by_cases h : p = j <;> simp_all [get_insert, Node.value?]
  | cons q qs =>
    by_cases h : p = q
    · subst h; simp [bucket_insert, Node.bucket?, hset, hc, List.cons_prefix_cons]
    · simp [bucket_insert, h, List.cons_prefix_cons]

end Cave.Bucket

namespace Cave

open Bucket

theorem child_ok {b c : Bucket} {p : String} {create : Bool} (h : b.child p create = .ok c) :
    b.get p = none ∧ ∀ qs j, c.leaf? qs j = b.leaf? (p :: qs) j := by
  cases create with
  | false =>
    simp only [Bucket.child, Bool.false_eq_true, if_false] at h
    split at h
    · next hb =>
      cases h
      simp only [bucket] at hb
      cases he : b.entry p with
      | none => simp [he] at hb
      | some n => cases n <;> simp_all [Bucket.get, Node.bucket?, Node.value?, bucket]
    · cases h
  | true =>
    simp only [Bucket.child, if_true, createBucketIfNotExists] at h
    split at h
    · cases h
    · split at h <;> cases h <;> simp_all [Bucket.get, bucket, Node.bucket?, Node.value?]

theorem child_false {b : Bucket} {p : String} :
    b.child p false = match b.bucket p with
      | some c => .ok c
      | none => .error (.error (.bucketNotExist p)) := rfl

theorem descend_cons_ok {create : Bool} {p : String} {ps : List String} {b d : Bucket}
    {set : Bucket → Bucket} (h : descend create (p :: ps) b = .ok (d, set)) :
    ∃ c set', b.child p create = .ok c ∧ descend create ps c = .ok (d, set') ∧
      set = fun d' => b.insert p (.bucket (set' d')) := by
  cases hc : b.child p create with
  | error e => simp [descend, hc, bind, Except.bind] at h
  | ok c =>
    cases hd : descend create ps c with
    | error e => simp [descend, hc, hd, bind, Except.bind] at h
    | ok r =>
      simp only [descend, hc, hd, bind, Except.bind, pure, Except.pure, Except.ok.injEq,
        Prod.mk.injEq] at h
      exact ⟨c, r.2, rfl, by rw [hd, ← h.1], h.2.symm⟩

theorem descend_cons_error {create : Bool} {p : String} {ps : List String} {b : Bucket}
    {f : Fault} (h : descend create (p :: ps) b = .error f) :
    b.child p create = .error f ∨ ∃ c, b.child p create = .ok c ∧ descend create ps c = .error f := by
  cases hc : b.child p create with
  | error e => simp [descend, hc, bind, Except.bind] at h; simp [h]
  | ok c =>
    cases hd : descend create ps c with
    | error e => simp [descend, hc, hd, bind, Except.bind] at h; simp [hd, h]
    | ok r => simp [descend, hc, hd, bind, Except.bind, pure, Except.pure] at h

/-- `descend` reached `d`, and `set` writes a new version `d'` back: the paths
through `d` read `d'`, the others read what they read before. -/
theorem leaf?_descend {create : Bool} :
    ∀ {ps : List String} {b d : Bucket} {set : Bucket → Bucket},
    descend create ps b = .ok (d, set) → ∀ d' qs j,
      (set d').leaf? qs j = if ps <+: qs then d'.leaf? (qs.drop ps.length) j else b.leaf? qs j
  | [], b, d, set, h => by
    simp only [descend, Except.ok.injEq, Prod.mk.injEq] at h
    obtain ⟨rfl, rfl⟩ := h
    simp
  | p :: ps, b, d, set, h => by
    obtain ⟨c, set', hc, hd, rfl⟩ := descend_cons_ok h
    obtain ⟨hget, hchild⟩ := child_ok hc
    exact leaf?_insert_child hget hchild (leaf?_descend hd)

/-- The bucket `descend` reaches reads as its start reads below the names. -/
theorem leaf?_descend_reached {create : Bool} :
    ∀ {ps : List String} {b d : Bucket} {set : Bucket → Bucket},
    descend create ps b = .ok (d, set) → ∀ rest j, d.leaf? rest j = b.leaf? (ps ++ rest) j
  | [], b, d, set, h => by
    simp only [descend, Except.ok.injEq, Prod.mk.injEq] at h
    obtain ⟨rfl, rfl⟩ := h
    simp
  | p :: ps, b, d, set, h => by
    obtain ⟨c, set', hc, hd, -⟩ := descend_cons_ok h
    intro rest j
    rw [leaf?_descend_reached hd, (child_ok hc).2]
    rfl

/-- Without `create`, `descend` is the walk. -/
theorem descend_false_ok :
    ∀ {ps : List String} {b d : Bucket} {set : Bucket → Bucket},
    descend false ps b = .ok (d, set) → b.walk ps = some d
  | [], b, d, set, h => by
    simp only [descend, Except.ok.injEq, Prod.mk.injEq] at h
    simp [h.1]
  | p :: ps, b, d, set, h => by
    obtain ⟨c, set', hc, hd, -⟩ := descend_cons_ok h
    rw [child_false] at hc
    split at hc
    · next hb => cases hc; simp [hb, descend_false_ok hd]
    · cases hc

/-- Without `create`, `descend` fails exactly when the walk does, with an
error and never a panic. -/
theorem descend_false_error :
    ∀ {ps : List String} {b : Bucket} {f : Fault},
    descend false ps b = .error f → b.walk ps = none ∧ ∃ e, f = .error e
  | [], b, f, h => by simp [descend] at h
  | p :: ps, b, f, h => by
    rcases descend_cons_error h with hc | ⟨c, hc, hd⟩
    · rw [child_false] at hc
      split at hc
      · cases hc
      · next hb => cases hc; simp [hb]
    · rw [child_false] at hc
      split at hc
      · next hb =>
        cases hc
        obtain ⟨hw, he⟩ := descend_false_error hd
        simp [hb, hw, he]
      · cases hc

end Cave
