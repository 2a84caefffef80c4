import Cave.Proofs.Runs

/-!
# Every bucket keeps its keys in order

`bbolt` keeps the keys of every bucket in increasing byte order, and its
cursor walks them in that order: `GetKeys` lists them so, and `enumerateBucket`
builds its map from them. The model keeps a bucket as the list of its entries,
and `insert` writes in order; `Sorted` says that every bucket of a tree, at
every depth, has its keys strictly increasing.

`keyLt` is a strict total order on keys (`keyLt_trans`, `keyLt_of_not_keyLt`),
so `insert` keeps a bucket ordered and `erase` cannot break the order. A write
transaction changes the tree only by those two, one level down a chain of
buckets each of which it writes back with `insert`: `descend_sorted` carries the
order up that chain. Every update keeps the order, and every reachable store
has it, with the root bucket `kv` in place (`tidy_run`).
-/

namespace Cave

open Go Bucket

/-! ## The order of keys -/

namespace Bucket

theorem keyLt_trans : ∀ {a b c : List Char}, keyLt a b = true → keyLt b c = true → keyLt a c = true
  | [], _ :: _, _ :: _, _, _ => rfl
  | x :: as, y :: bs, z :: cs, h₁, h₂ => by
    simp only [keyLt] at h₁ h₂ ⊢
    by_cases hxy : x = y
    · subst hxy
      by_cases hxz : x = z
      · subst hxz; simp only [if_true] at h₁ h₂ ⊢; exact keyLt_trans h₁ h₂
      · simpa [hxz] using h₂
    · by_cases hyz : y = z
      · subst hyz; simpa [hxy] using h₁
      · have hxz : x ≠ z := fun h => by subst h; simp_all; omega
        simp only [hxy, hyz, hxz, if_false, decide_eq_true_eq] at h₁ h₂ ⊢
        omega
  | [], [], _, h, _ | _ :: _, [], _, h, _ | _, _ :: _, [], _, h => by simp [keyLt] at h

theorem keyLt_of_not_keyLt : ∀ {a b : List Char}, a ≠ b → keyLt a b = false → keyLt b a = true
  | [], [], h, _ => absurd rfl h
  | [], _ :: _, _, h => by simp [keyLt] at h
  | _ :: _, [], _, _ => rfl
  | x :: as, y :: bs, hne, h => by
    simp only [keyLt] at h ⊢
    by_cases hxy : x = y
    · subst hxy
      simp only [if_true] at h ⊢
      exact keyLt_of_not_keyLt (fun e => hne (by rw [e])) h
    · have : x.toNat ≠ y.toNat := fun e => hxy (Char.ext (UInt32.toNat.inj e))
      simp only [hxy, Ne.symm hxy, if_false, decide_eq_false_iff_not, decide_eq_true_eq] at h ⊢
      omega

theorem ne_of_keyLt {a b : List Char} (h : keyLt a b = true) : a ≠ b := by
  rintro rfl; simp at h

/-- The entries of a bucket in strictly increasing byte order of their keys. -/
def Ordered (b : Bucket) : Prop := b.Pairwise fun e f => keyLt e.1.data f.1.data

theorem mem_insert {b : Bucket} {k : String} {n : Node} {e : String × Node}
    (h : e ∈ b.insert k n) : e = (k, n) ∨ e ∈ b := by
  induction b with
  | nil => simpa [insert] using h
  | cons f es ih =>
    simp only [insert] at h
    split at h
    · simpa using h
    · split at h
      · rcases List.mem_cons.mp h with rfl | h
        · exact .inl rfl
        · exact .inr (List.mem_cons_of_mem _ h)
      · rcases List.mem_cons.mp h with rfl | h
        · exact .inr (List.mem_cons_self _ _)
        · exact (ih h).imp id (List.mem_cons_of_mem _)

theorem ordered_insert {b : Bucket} (hb : Ordered b) (k : String) (n : Node) :
    Ordered (b.insert k n) := by
  induction b with
  | nil => exact List.pairwise_singleton _ _
  | cons f es ih =>
    obtain ⟨k', n'⟩ := f
    obtain ⟨hf, hes⟩ := List.pairwise_cons.mp hb
    simp only [insert]
    split
    · next hlt =>
      refine List.Pairwise.cons ?_ hb
      rintro e (_ | ⟨_, he⟩)
      · exact hlt
      · exact keyLt_trans hlt (hf e he)
    · split
      · next heq => subst heq; exact List.Pairwise.cons hf hes
      · next hlt hne =>
        have hk : keyLt k'.data k.data := keyLt_of_not_keyLt
          (fun e => hne (String.ext e).symm) (by simpa using hlt)
        refine List.Pairwise.cons (fun e he => ?_) (ih hes)
        rcases mem_insert he with rfl | he
        · exact hk
        · exact hf e he

theorem erase_sublist (b : Bucket) (k : String) : (b.erase k).Sublist b := by
  induction b with
  | nil => exact List.Sublist.slnil
  | cons f es ih =>
    simp only [erase]
    split
    · exact ih.cons f
    · exact ih.cons₂ f

theorem ordered_erase {b : Bucket} (hb : Ordered b) (k : String) : Ordered (b.erase k) :=
  hb.sublist (erase_sublist b k)

end Bucket

/-! ## Sorted trees -/

mutual

/-- Every bucket of the tree under a node keeps its keys in order. -/
def Node.Sorted : Node → Prop
  | .value _ => True
  | .bucket es => Sorted es

/-- Every bucket of the tree keeps its keys in order: the keys of `b` itself,
and every nested bucket below it. -/
def Sorted : Bucket → Prop
  | [] => True
  | (k, n) :: es => (∀ e ∈ es, keyLt k.data e.1.data) ∧ n.Sorted ∧ Sorted es

end

@[simp] theorem sorted_nil : Sorted [] := trivial

@[simp] theorem sorted_cons {k : String} {n : Node} {es : Bucket} :
    Sorted ((k, n) :: es) ↔ (∀ e ∈ es, keyLt k.data e.1.data) ∧ n.Sorted ∧ Sorted es := by
  rw [Sorted]

@[simp] theorem Node.sorted_bucket {es : Bucket} : (Node.bucket es).Sorted ↔ Cave.Sorted es := by
  rw [Node.Sorted]

@[simp] theorem Node.sorted_value {v : Bytes} : (Node.value v).Sorted := by
  rw [Node.Sorted]; trivial

theorem Sorted.ordered : ∀ {b : Bucket}, Sorted b → Ordered b
  | [], _ => List.Pairwise.nil
  | (_, _) :: _, h => by
    rw [sorted_cons] at h
    exact List.Pairwise.cons h.1 h.2.2.ordered

theorem Sorted.node {b : Bucket} {e : String × Node} (hb : Sorted b) (he : e ∈ b) : e.2.Sorted := by
  induction b with
  | nil => cases he
  | cons f es ih =>
    obtain ⟨k, n⟩ := f
    rw [sorted_cons] at hb
    rcases List.mem_cons.mp he with rfl | he
    · exact hb.2.1
    · exact ih hb.2.2 he

/-- A bucket is sorted when its keys are in order and every node in it is. -/
theorem sorted_of {b : Bucket} (ho : Ordered b) (hn : ∀ e ∈ b, e.2.Sorted) : Sorted b := by
  induction b with
  | nil => trivial
  | cons f es ih =>
    obtain ⟨k, n⟩ := f
    obtain ⟨hk, hes⟩ := List.pairwise_cons.mp ho
    exact sorted_cons.mpr ⟨hk, hn _ (List.mem_cons_self _ _),
      ih hes fun e he => hn e (List.mem_cons_of_mem _ he)⟩

theorem Sorted.entry {b : Bucket} (hb : Sorted b) {k : String} {n : Node} (h : b.entry k = some n) :
    n.Sorted := by
  induction b with
  | nil => cases h
  | cons f es ih =>
    obtain ⟨k', n'⟩ := f
    rw [sorted_cons] at hb
    simp only [Bucket.entry] at h
    split at h
    · cases h; exact hb.2.1
    · exact ih hb.2.2 h

theorem Sorted.bucket {b c : Bucket} (hb : Sorted b) {k : String} (h : b.bucket k = some c) :
    Sorted c := by
  simp only [Bucket.bucket, Option.bind_eq_some] at h
  obtain ⟨n, hn, hc⟩ := h
  cases n with
  | value => cases hc
  | bucket es => cases hc; exact Node.sorted_bucket.mp (hb.entry hn)

theorem Sorted.walk {b : Bucket} (hb : Sorted b) :
    ∀ {path : List String} {d : Bucket}, b.walk path = some d → Sorted d
  | [], _, h => by cases h; exact hb
  | q :: path, d, h => by
    simp only [walk_cons, Option.bind_eq_some] at h
    obtain ⟨c, hc, hw⟩ := h
    exact (hb.bucket hc).walk hw

theorem Sorted.insert {b : Bucket} (hb : Sorted b) (k : String) {n : Node} (hn : n.Sorted) :
    Sorted (b.insert k n) :=
  sorted_of (ordered_insert hb.ordered k n) fun e he => by
    rcases mem_insert he with rfl | he
    · exact hn
    · exact hb.node he

theorem Sorted.erase {b : Bucket} (hb : Sorted b) (k : String) : Sorted (b.erase k) :=
  sorted_of (ordered_erase hb.ordered k) fun _ he => hb.node ((erase_sublist b k).subset he)

/-! ## Writes keep the order -/

/-- What `child` hands over: the bucket under `p`, or a new empty one. -/
theorem child_eq {b c : Bucket} {p : String} {create : Bool} (h : b.child p create = .ok c) :
    b.bucket p = some c ∨ c = [] := by
  cases create with
  | false =>
    rw [child_false] at h
    split at h
    · next hb => cases h; exact .inl hb
    · cases h
  | true =>
    simp only [Bucket.child, if_true, createBucketIfNotExists] at h
    split at h
    · cases h
    · split at h
      · next c' he => cases h; exact .inl (by simp [Bucket.bucket, he, Node.bucket?])
      · cases h
      · cases h; exact .inr rfl

/-- `descend` reaches a sorted bucket from a sorted one, and writing a sorted
bucket back leaves the start sorted. -/
theorem descend_sorted {create : Bool} :
    ∀ {ps : List String} {b d : Bucket} {set : Bucket → Bucket},
    descend create ps b = .ok (d, set) → Sorted b →
      Sorted d ∧ ∀ d', Sorted d' → Sorted (set d')
  | [], b, d, set, h, hb => by
    simp only [descend, Except.ok.injEq, Prod.mk.injEq] at h
    obtain ⟨rfl, rfl⟩ := h
    exact ⟨hb, fun _ h => h⟩
  | p :: ps, b, d, set, h, hb => by
    obtain ⟨c, set', hc, hd, rfl⟩ := descend_cons_ok h
    have hcs : Sorted c := (child_eq hc).elim hb.bucket fun h => h ▸ sorted_nil
    obtain ⟨hds, hset⟩ := descend_sorted hd hcs
    exact ⟨hds, fun d' hd' => hb.insert p (Node.sorted_bucket.mpr (hset d' hd'))⟩

theorem getBuckets_sorted {db d : Bucket} {bs : List String} {root : String} {c : Bool}
    {set : Bucket → Bucket} (h : getBuckets db bs root c = .ok (d, set)) (hdb : Sorted db) :
    Sorted d ∧ ∀ d', Sorted d' → Sorted (set d') := by
  obtain ⟨b, set', hb, hd, rfl⟩ := getBuckets_ok h
  obtain ⟨hds, hset⟩ := descend_sorted hd (hdb.bucket hb)
  exact ⟨hds, fun d' hd' => hdb.insert root (Node.sorted_bucket.mpr (hset d' hd'))⟩

/-- A write transaction whose one change to the bucket it reaches keeps that
bucket sorted keeps the database sorted. -/
theorem writeTx_sorted {db db' : Bucket} {bs : List String} {root : String} {c : Bool}
    {f : Bucket → Except Error Bucket} (hf : ∀ d d', f d = .ok d' → Sorted d → Sorted d')
    (h : writeTx bs root c f db = .ok db') (hdb : Sorted db) : Sorted db' := by
  obtain ⟨d, set, d', hg, hd, rfl⟩ := writeTx_ok h
  obtain ⟨hds, hset⟩ := getBuckets_sorted hg hdb
  exact hset d' (hf d d' hd hds)

/-- What every reachable database looks like: the root bucket `kv` is there,
and every bucket keeps its keys in order. -/
structure Tidy (db : Bucket) : Prop where
  kv : (db.bucket "kv").isSome
  sorted : Sorted db

theorem tidy_commit {db : Bucket} {bs : List String} {root : String} {c : Bool}
    {f : Bucket → Except Error Bucket} (hf : ∀ d d', f d = .ok d' → Sorted d → Sorted d')
    (hdb : Tidy db) : Tidy (commit (writeTx bs root c f db) db) := by
  cases h : writeTx bs root c f db with
  | error _ => exact hdb
  | ok db' =>
    obtain ⟨d, set, d', hg, -, rfl⟩ := writeTx_ok h
    have hkv : ((set d').bucket "kv").isSome := by
      obtain ⟨b, set', hb, -, rfl⟩ := getBuckets_ok hg
      by_cases hr : root = "kv"
      · simp [hr, bucket_insert, Node.bucket?]
      · simpa [bucket_insert, hr] using hdb.kv
    exact ⟨hkv, writeTx_sorted hf h hdb.sorted⟩

theorem tidy_stable (J : Json) : UpdateStable J Tidy := by
  intro root u db hdb
  unfold applyUpdate
  split
  · split
    · exact tidy_commit (fun d d' h hd => by
        obtain ⟨-, rfl⟩ := put_ok h; exact hd.insert _ Node.sorted_value) hdb
    · exact hdb
  · exact tidy_commit (fun d d' h hd => by obtain ⟨-, rfl⟩ := delete_ok h; exact hd.erase _) hdb
  · exact tidy_commit (fun d d' h hd => by
      obtain ⟨-, rfl⟩ := deleteBucket_ok h; exact hd.erase _) hdb
  · exact hdb

theorem tidy_newKV : Tidy (newKV []).db :=
  ⟨rfl, show Sorted [("_system", .bucket []), ("kv", .bucket [])] by simp [keyLt]⟩

/-- Every reachable store has the root bucket `kv` and keeps every bucket in
order. -/
theorem tidy_run (J : Json) (net : Cluster) (C : Crypto) (ops : List Op) :
    Tidy (Op.run J net C (newKV []) ops).db :=
  Op.run_stable net (tidy_stable J) C tidy_newKV ops

end Cave
