import Mathlib.Data.List.Dedup
import Cave.Proofs.Order
import Cave.Proofs.Loop

/-!
# Updates to unrelated paths commute

A replicated update acts along one path of the store. It walks the buckets its
key names, creating them for a `put:key`, and sets or removes one entry of the
last. Seen from any bucket on that path it changes one entry and leaves the
others alone, and whether it fails there, and what it writes, depends on that
entry only. Two updates whose paths part at some bucket therefore change
different entries of it, and each finds below its own entry what it would have
found without the other. A sorted bucket is determined by what it answers for
each key (`Ordered.ext`), so the two orders leave the same store.

The argument is made once for a write seen at an entry (`atKey`), once for a
walk into the bucket under an entry (`inChild`), and then along the two paths by
induction (`pathWrite_comm`). The engine's write transactions are such writes
(`commit_writeTx`), and so is every replicated update (`applyUpdate_eq`). Every
such update is moreover idempotent. So the update loop of a node that receives
put and delete updates on unrelated paths ends in the same store whatever the
order in which they arrive and however often each arrives
(`updateLoop_order_free`).
-/

namespace Cave

open Go Bucket

/-! ## Writes seen at one entry -/

/-- The bucket `b` with the entry `k` set to `o`: written, or removed for
`none`. -/
def Bucket.setEntry (b : Bucket) (k : String) : Option Node → Bucket
  | some n => b.insert k n
  | none => b.erase k

/-- What a write leaves: its result, or what was there when it fails and its
transaction rolls back. -/
def settle (P : α → Option α) (a : α) : α := (P a).getD a

/-- The write `w` at the entry `k` of a bucket; it fails where `w` fails. -/
def atKey (k : String) (w : Option Node → Option (Option Node)) (b : Bucket) : Option Bucket :=
  (w (b.entry k)).map (b.setEntry k)

/-- The bucket a walk finds at the entry `n`: the nested bucket, or with `create`
a new empty one where there is none, as `CreateBucketIfNotExists` gives it. -/
def childAt (create : Bool) (n : String) : Option Node → Option Bucket
  | some (.bucket c) => if create ∧ n = "" then none else some c
  | some (.value _) => none
  | none => if create ∧ n ≠ "" then some [] else none

/-- The write `P` on the bucket a walk finds at an entry, written back there. -/
def inChild (create : Bool) (n : String) (P : Bucket → Option Bucket) (e : Option Node) :
    Option (Option Node) :=
  (childAt create n e).bind fun c => (P c).map fun c' => some (.bucket c')

/-- The write `w` at the key `k` of the bucket that the walk down `names`
reaches. -/
def pathWrite (create : Bool) (w : Option Node → Option (Option Node)) (k : String) :
    List String → Bucket → Option Bucket
  | [] => atKey k w
  | n :: names => atKey n (inChild create n (pathWrite create w k names))

/-- `Put(k, v)` seen at its entry: the value, unless the key or the value is out
of bounds or `k` names a bucket. -/
def putAt (k : String) (v : Bytes) : Option Node → Option (Option Node)
  | some (.bucket _) => none
  | _ => if k = "" ∨ Bucket.maxKeySize < k.utf8ByteSize ∨ Bucket.maxValueSize < v.length then none
    else some (some (.value v))

/-- `Delete(k)` seen at its entry. -/
def deleteAt : Option Node → Option (Option Node)
  | some (.bucket _) => none
  | _ => some none

/-- `DeleteBucket(k)` seen at its entry. -/
def deleteBucketAt : Option Node → Option (Option Node)
  | some (.bucket _) => some none
  | _ => none

/-- A node of the tree under an entry is sorted, if there is one. -/
def OptSorted : Option Node → Prop
  | some n => n.Sorted
  | none => True

/-- `P` keeps `S`: what it leaves from a value `S` admits, `S` admits. -/
def Preserves (S : α → Prop) (P : α → Option α) : Prop := ∀ a, S a → S (settle P a)

/-- `P` after `Q` leaves what `Q` after `P` leaves, from every value `S` admits. -/
def Commutes (S : α → Prop) (P Q : α → Option α) : Prop :=
  ∀ a, S a → settle P (settle Q a) = settle Q (settle P a)

/-- `P` twice leaves what `P` once leaves, from every value `S` admits. -/
def Idem (S : α → Prop) (P : α → Option α) : Prop := ∀ a, S a → settle P (settle P a) = settle P a

theorem Commutes.symm {S : α → Prop} {P Q : α → Option α} (h : Commutes S P Q) : Commutes S Q P :=
  fun a ha => (h a ha).symm

/-! ## The engine's writes are such writes -/

/-- The bucket method `f` acts on the entry `k` alone, as `w` says. -/
def ActsAt (k : String) (w : Option Node → Option (Option Node))
    (f : Bucket → Except Error Bucket) : Prop :=
  ∀ b, (f b).toOption = atKey k w b

theorem put_actsAt (k : String) (v : Bytes) : ActsAt k (putAt k v) fun b => b.put k v := by
  intro b
  simp only [Bucket.put, atKey]
  cases h : b.entry k with
  | none =>
    simp only [putAt]
    split_ifs <;> simp_all [Except.toOption, Bucket.setEntry]
    omega
  | some n =>
    cases n <;> simp only [putAt] <;> split_ifs <;> simp_all [Except.toOption, Bucket.setEntry]
    omega

theorem delete_actsAt (k : String) : ActsAt k deleteAt fun b => b.delete k := by
  intro b
  simp only [Bucket.delete, atKey]
  cases h : b.entry k with
  | none => rfl
  | some n => cases n <;> rfl

theorem deleteBucket_actsAt (k : String) : ActsAt k deleteBucketAt fun b => b.deleteBucket k := by
  intro b
  simp only [Bucket.deleteBucket, atKey]
  cases h : b.entry k with
  | none => simp only [deleteBucketAt]; split <;> rfl
  | some n => cases n <;> rfl

theorem child_toOption (b : Bucket) (n : String) (c : Bool) :
    (b.child n c).toOption = childAt c n (b.entry n) := by
  cases c with
  | false =>
    rw [child_false]
    cases h : b.entry n with
    | none => simp [Bucket.bucket, h, childAt, Except.toOption]
    | some m => cases m <;> simp [Bucket.bucket, h, childAt, Except.toOption, Node.bucket?]
  | true =>
    simp only [Bucket.child, if_true, Bucket.createBucketIfNotExists]
    by_cases hn : n = ""
    · cases h : b.entry n with
      | none => simp [hn, h, childAt, Except.toOption, Except.mapError]
      | some m => cases m <;> simp_all [childAt, Except.toOption, Except.mapError]
    · cases h : b.entry n with
      | none => simp [hn, h, childAt, Except.toOption, Except.mapError]
      | some m => cases m <;> simp [hn, h, childAt, Except.toOption, Except.mapError]

/-- The database a write transaction leaves is what its result, as an option,
leaves. -/
theorem commit_eq_settle (r : Except Fault Bucket) (db : Bucket) : commit r db = r.toOption.getD db := by
  cases r <;> rfl

@[simp] theorem toOption_ok (a : α) : (Except.ok a : Except ε α).toOption = some a := rfl

theorem ok_bind (a : α) (f : α → Except ε β) : (Except.ok a >>= f) = f a := rfl

@[simp] theorem toOption_pure (a : α) : (pure a : Except ε α).toOption = some a := rfl

theorem toOption_bind (x : Except ε α) (f : α → Except ε β) :
    (x >>= f).toOption = x.toOption.bind fun a => (f a).toOption := by
  cases x <;> rfl

theorem toOption_mapError (x : Except ε α) (g : ε → ε') : (x.mapError g).toOption = x.toOption := by
  cases x <;> rfl

/-- The loop of `getBuckets` followed by the method `f` and the write-back of
the handle, through any further write-back `g`, is the walk of `pathWrite`. -/
theorem descend_pathWrite {k : String} {w : Option Node → Option (Option Node)}
    {f : Bucket → Except Error Bucket} (hf : ActsAt k w f) (create : Bool) :
    ∀ (names : List String) (b : Bucket) (g : Bucket → Bucket),
      ((descend create names b >>= fun r => (f r.1).mapError .error >>= fun d => pure (g (r.2 d))) :
        Except Fault Bucket).toOption = (pathWrite create w k names b).map g
  | [], b, g => by
    simp only [descend, toOption_bind, toOption_mapError, toOption_ok, toOption_pure, hf b,
      Option.some_bind, pathWrite]
    cases atKey k w b <;> rfl
  | n :: names, b, g => by
    have hc := child_toOption b n create
    cases h : b.child n create with
    | error e =>
      rw [h] at hc
      simp only [descend, h, pathWrite, atKey, inChild, ← hc]
      rfl
    | ok c =>
      rw [h] at hc
      calc _ = ((descend create names c >>= fun r => (f r.1).mapError .error >>= fun d =>
                pure (g (b.insert n (.bucket (r.2 d))))) : Except Fault Bucket).toOption := by
            simp only [descend, h, ok_bind]; cases descend create names c <;> rfl
        _ = _ := by
          refine (descend_pathWrite hf create names c fun d => g (b.insert n (.bucket d))).trans ?_
          simp [pathWrite, atKey, inChild, ← hc, Option.map_map, Function.comp_def,
            Bucket.setEntry]

theorem bucket_eq_childAt (b : Bucket) (n : String) : b.bucket n = childAt false n (b.entry n) := by
  rw [← child_toOption, child_false]; cases b.bucket n <;> rfl

/-- A write transaction of `writeTx`'s shape is the write `pathWrite` makes
under the root bucket, rolled back where it fails. -/
theorem commit_writeTx {k : String} {w : Option Node → Option (Option Node)}
    {f : Bucket → Except Error Bucket} (hf : ActsAt k w f) (names : List String) (root : String)
    (create : Bool) (db : Bucket) :
    commit (writeTx names root create f db) db =
      settle (atKey root (inChild false root (pathWrite create w k names))) db := by
  rw [commit_eq_settle, settle]
  congr 1
  have hc := bucket_eq_childAt db root
  cases h : db.bucket root with
  | none => simp only [writeTx, getBuckets, h, atKey, inChild, ← hc]; rfl
  | some c =>
    calc _ = ((descend create names c >>= fun r => (f r.1).mapError .error >>= fun d =>
              pure (db.insert root (.bucket (r.2 d)))) : Except Fault Bucket).toOption := by
          simp only [writeTx, getBuckets, h]; cases descend create names c <;> rfl
      _ = _ := by
        refine (descend_pathWrite hf create names c fun d => db.insert root (.bucket d)).trans ?_
        simp [atKey, inChild, ← hc, h, Option.map_map, Function.comp_def, Bucket.setEntry]

/-! ## A sorted bucket is what it answers -/

theorem entry_eq_none_of_keyLt {b : Bucket} {k : String}
    (h : ∀ e ∈ b, keyLt k.data e.1.data = true) : b.entry k = none := by
  induction b with
  | nil => rfl
  | cons e es ih =>
    obtain ⟨k', n⟩ := e
    have hk : k' ≠ k := by rintro rfl; simpa using h _ (List.mem_cons_self _ _)
    rw [Bucket.entry, if_neg hk]
    exact ih fun f hf => h f (List.mem_cons_of_mem _ hf)

/-- An ordered bucket holds nothing under a key below its first. -/
theorem entry_cons_of_keyLt {k j : String} {n : Node} {t : Bucket} (ho : Ordered ((k, n) :: t))
    (hj : keyLt j.data k.data = true) : Bucket.entry ((k, n) :: t) j = none :=
  entry_eq_none_of_keyLt fun e he => by
    rcases List.mem_cons.mp he with rfl | he
    · exact hj
    · exact keyLt_trans hj (List.rel_of_pairwise_cons ho he)

/-- Two ordered buckets that answer every key alike are the same list. -/
theorem Bucket.Ordered.ext : ∀ {b₁ b₂ : Bucket}, Ordered b₁ → Ordered b₂ →
    (∀ k, b₁.entry k = b₂.entry k) → b₁ = b₂
  | [], [], _, _, _ => rfl
  | [], (k, _) :: _, _, _, h => by simpa [Bucket.entry] using h k
  | (k, _) :: _, [], _, _, h => by simpa [Bucket.entry] using h k
  | (k₁, n₁) :: t₁, (k₂, n₂) :: t₂, h₁, h₂, h => by
    have hk : k₁ = k₂ := by
      by_contra hne
      have hd : k₁.data ≠ k₂.data := fun hd => hne (String.ext hd)
      cases hlt : keyLt k₁.data k₂.data
      · have h' := h k₂
        rw [entry_cons_of_keyLt h₁ (keyLt_of_not_keyLt hd hlt)] at h'
        simp [Bucket.entry] at h'
      · have h' := h k₁
        rw [entry_cons_of_keyLt h₂ hlt] at h'
        simp [Bucket.entry] at h'
    subst hk
    have hn : n₁ = n₂ := by simpa [Bucket.entry] using h k₁
    subst hn
    congr 1
    refine Bucket.Ordered.ext h₁.of_cons h₂.of_cons fun j => ?_
    by_cases hj : k₁ = j
    · subst hj
      rw [entry_eq_none_of_keyLt fun _ => List.rel_of_pairwise_cons h₁,
        entry_eq_none_of_keyLt fun _ => List.rel_of_pairwise_cons h₂]
    · simpa [Bucket.entry, hj] using h j

theorem entry_setEntry (b : Bucket) (k : String) (o : Option Node) (j : String) :
    (b.setEntry k o).entry j = if k = j then o else b.entry j := by
  cases o <;> simp [Bucket.setEntry, Bucket.entry_erase, Bucket.entry_insert]

theorem optSorted_entry {b : Bucket} (hb : Sorted b) (k : String) : OptSorted (b.entry k) := by
  cases h : b.entry k with
  | none => trivial
  | some n => exact hb.entry h

theorem Sorted.setEntry {b : Bucket} (hb : Sorted b) (k : String) {o : Option Node}
    (ho : OptSorted o) : Sorted (b.setEntry k o) := by
  cases o with
  | none => exact hb.erase k
  | some n => exact hb.insert k ho

/-! ## Writes at one entry -/

section AtKey

variable {k k₁ k₂ : String} {w w₁ w₂ : Option Node → Option (Option Node)}

/-- A write at `k` changes the entry `k` as the write says, and no other. -/
theorem entry_settle_atKey (b : Bucket) (j : String) :
    (settle (atKey k w) b).entry j = if k = j then settle w (b.entry k) else b.entry j := by
  simp only [settle, atKey]
  cases w (b.entry k) with
  | none => split <;> simp_all
  | some o => simp [entry_setEntry]

theorem atKey_preserves (hw : Preserves OptSorted w) : Preserves Sorted (atKey k w) := fun b hb => by
  have ho := hw _ (optSorted_entry hb k)
  simp only [settle, atKey] at ho ⊢
  cases h : w (b.entry k) with
  | none => exact hb
  | some o => rw [h] at ho; exact hb.setEntry k ho

/-- Writes at two keys commute; writes at one key commute when the writes of the
entry do. -/
theorem atKey_comm (hw₁ : Preserves OptSorted w₁) (hw₂ : Preserves OptSorted w₂)
    (hk : k₁ = k₂ → Commutes OptSorted w₁ w₂) : Commutes Sorted (atKey k₁ w₁) (atKey k₂ w₂) :=
  fun b hb => by
    refine Bucket.Ordered.ext (atKey_preserves hw₁ _ (atKey_preserves hw₂ b hb)).ordered
      (atKey_preserves hw₂ _ (atKey_preserves hw₁ b hb)).ordered fun j => ?_
    simp only [entry_settle_atKey]
    by_cases h₁ : k₁ = j <;> by_cases h₂ : k₂ = j
    · subst h₁ h₂; simp [hk rfl _ (optSorted_entry hb _)]
    · subst h₁; simp [h₂, Ne.symm h₂]
    · subst h₂; simp [h₁, Ne.symm h₁]
    · simp [h₁, h₂]

theorem atKey_idem (hw : Preserves OptSorted w) (hi : Idem OptSorted w) : Idem Sorted (atKey k w) :=
  fun b hb => by
    refine Bucket.Ordered.ext (atKey_preserves hw _ (atKey_preserves hw b hb)).ordered
      (atKey_preserves hw b hb).ordered fun j => ?_
    simp only [entry_settle_atKey]
    split_ifs with h
    · simp [hi _ (optSorted_entry hb _)]
    · rfl

end AtKey

/-! ## Writes inside the bucket under an entry -/

section InChild

variable {c c₁ c₂ : Bool} {n : String} {P P₁ P₂ : Bucket → Option Bucket}

theorem settle_inChild_bucket (x : Bucket) :
    settle (inChild c n P) (some (.bucket x)) =
      if c ∧ n = "" then some (.bucket x) else some (.bucket (settle P x)) := by
  simp only [settle, inChild, childAt]
  split_ifs
  · rfl
  · rw [Option.some_bind]; cases P x <;> rfl

theorem settle_inChild_value (v : Bytes) : settle (inChild c n P) (some (.value v)) = some (.value v) :=
  rfl

/-- Under an absent entry a creating walk writes a new bucket, unless the write
in it fails and the transaction rolls the creation back. -/
theorem settle_inChild_none :
    settle (inChild c n P) none = if c ∧ n ≠ "" then (P []).map .bucket else none := by
  simp only [settle, inChild, childAt]
  split_ifs
  · rw [Option.some_bind]; cases P [] <;> rfl
  · rfl

/-- `CreateBucketIfNotExists("")` fails whatever the entry holds, so such a walk
changes nothing. -/
theorem settle_inChild_empty (hc : c = true) (hn : n = "") (e : Option Node) :
    settle (inChild c n P) e = e := by
  subst hc hn
  rcases e with _ | (_ | _) <;> simp [settle_inChild_none, settle_inChild_bucket, settle_inChild_value]

theorem inChild_preserves (hP : Preserves Sorted P) : Preserves OptSorted (inChild c n P)
  | none, _ => by
    rw [settle_inChild_none]
    split_ifs
    · cases h : P [] with
      | none => trivial
      | some y => simpa [OptSorted, settle, h] using hP [] trivial
    · trivial
  | some (.value v), _ => trivial
  | some (.bucket x), hx => by
    rw [settle_inChild_bucket]
    split_ifs
    · exact hx
    · exact Node.sorted_bucket.mpr (hP x (Node.sorted_bucket.mp hx))

/-- Under an absent entry, a walk that can create a bucket there writes the
empty bucket as its inner write leaves it, if that write succeeds. -/
theorem settle_inChild_none_of (hz : ¬(c = true ∧ n = "")) :
    settle (inChild c n P) none =
      if c = true ∧ (P []).isSome then some (.bucket (settle P [])) else none := by
  rw [settle_inChild_none]
  cases c <;> cases h : P [] <;> simp_all [settle]

/-- A walk that creates nothing, or whose inner write fails on the empty bucket,
leaves the empty bucket alone when it is asked to. -/
theorem settle_nil_of (h : c = false → settle P [] = []) (ha : ¬(c = true ∧ (P []).isSome)) :
    settle P [] = [] := by
  cases c with
  | false => exact h rfl
  | true => simp_all [settle]

/-- Two walks into the bucket under one entry commute when the writes inside it
do, and when a walk that does not create leaves an empty bucket alone where the
other creates: that is what it finds in a bucket the other has just made. -/
theorem inChild_comm (hP : Commutes Sorted P₁ P₂)
    (h₁ : c₁ = false → c₂ = true → settle P₁ [] = [])
    (h₂ : c₂ = false → c₁ = true → settle P₂ [] = []) :
    Commutes OptSorted (inChild c₁ n P₁) (inChild c₂ n P₂) := by
  intro e he
  by_cases hz₁ : c₁ = true ∧ n = ""
  · simp only [settle_inChild_empty hz₁.1 hz₁.2]
  by_cases hz₂ : c₂ = true ∧ n = ""
  · simp only [settle_inChild_empty hz₂.1 hz₂.2]
  rcases e with _ | (v | x)
  · have h0 := hP [] trivial
    simp only [settle_inChild_none_of hz₁, settle_inChild_none_of hz₂]
    by_cases a₁ : c₁ = true ∧ (P₁ []).isSome <;> by_cases a₂ : c₂ = true ∧ (P₂ []).isSome
    · rw [if_pos a₁, if_pos a₂, settle_inChild_bucket, settle_inChild_bucket, if_neg hz₁,
        if_neg hz₂, h0]
    · rw [if_pos a₁, if_neg a₂, settle_inChild_none_of hz₁, if_pos a₁, settle_inChild_bucket,
        if_neg hz₂, ← h0, settle_nil_of (fun hc => h₂ hc a₁.1) a₂]
    · rw [if_neg a₁, if_pos a₂, settle_inChild_none_of hz₂, if_pos a₂, settle_inChild_bucket,
        if_neg hz₁, h0, settle_nil_of (fun hc => h₁ hc a₂.1) a₁]
    · rw [if_neg a₁, if_neg a₂, settle_inChild_none_of hz₁, settle_inChild_none_of hz₂,
        if_neg a₁, if_neg a₂]
  · rfl
  · simp only [settle_inChild_bucket, hz₁, hz₂, if_false, hP x he]

theorem inChild_idem (hi : Idem Sorted P) :
    Idem OptSorted (inChild c n P) := by
  intro e he
  by_cases hz : c = true ∧ n = ""
  · simp only [settle_inChild_empty hz.1 hz.2]
  rcases e with _ | (v | x)
  · rw [settle_inChild_none_of hz]
    split_ifs with ha
    · rw [settle_inChild_bucket, if_neg hz, hi [] trivial]
    · rw [settle_inChild_none_of hz, if_neg ha]
  · rfl
  · simp only [settle_inChild_bucket, hz, if_false, hi x he]

end InChild

/-! ## The writes at the end of a path -/

theorem putAt_preserves (k : String) (v : Bytes) : Preserves OptSorted (putAt k v)
  | none, _ => by simp only [settle, putAt]; split_ifs <;> trivial
  | some (.value _), _ => by simp only [settle, putAt]; split_ifs <;> trivial
  | some (.bucket _), he => he

theorem putAt_idem (k : String) (v : Bytes) : Idem OptSorted (putAt k v)
  | none, _ => by simp only [settle, putAt]; split_ifs <;> rfl
  | some (.value _), _ => by simp only [settle, putAt]; split_ifs <;> rfl
  | some (.bucket _), _ => rfl

theorem deleteAt_preserves : Preserves OptSorted deleteAt
  | none, _ | some (.value _), _ => trivial
  | some (.bucket _), he => he

theorem deleteAt_idem : Idem OptSorted deleteAt
  | none, _ | some (.value _), _ | some (.bucket _), _ => rfl

theorem deleteBucketAt_preserves : Preserves OptSorted deleteBucketAt
  | none, _ | some (.bucket _), _ => trivial
  | some (.value _), he => he

theorem deleteBucketAt_idem : Idem OptSorted deleteBucketAt
  | none, _ | some (.value _), _ | some (.bucket _), _ => rfl

/-! ## Writes along a path -/

/-- The write a walk makes at the end of its path, with whether the walk creates
the buckets it misses. It keeps the tree sorted and is idempotent, and where the
walk creates nothing it writes nothing at an absent key. -/
structure Leaf where
  create : Bool
  write : Option Node → Option (Option Node)
  preserves : Preserves OptSorted write
  idem : Idem OptSorted write
  none_of : create = false → settle write none = none

/-- The write `l` at `key` in the bucket the walk down `names` reaches, under the
root bucket `root`, which the walk never creates. -/
def Leaf.run (l : Leaf) (root : String) (names : List String) (key : String) :
    Bucket → Option Bucket :=
  atKey root (inChild false root (pathWrite l.create l.write key names))

section PathWrites

variable {c c₁ c₂ : Bool} {k k₁ k₂ : String} {w w₁ w₂ : Option Node → Option (Option Node)}

theorem pathWrite_preserves (hw : Preserves OptSorted w) :
    ∀ names, Preserves Sorted (pathWrite c w k names)
  | [] => atKey_preserves hw
  | _ :: names => atKey_preserves (inChild_preserves (pathWrite_preserves hw names))

theorem pathWrite_idem (hw : Preserves OptSorted w) (hi : Idem OptSorted w) :
    ∀ names, Idem Sorted (pathWrite c w k names)
  | [] => atKey_idem hw hi
  | _ :: names =>
    atKey_idem (inChild_preserves (pathWrite_preserves hw names)) (inChild_idem (pathWrite_idem hw hi names))

/-- A walk that creates nothing, in the empty bucket, finds nothing and writes
nothing. -/
theorem pathWrite_nil (hc : c = false) (hw : settle w none = none) :
    ∀ names, settle (pathWrite c w k names) [] = []
  | [] => by
    simp only [settle, pathWrite, atKey, Bucket.entry] at hw ⊢
    cases h : w none with
    | none => rfl
    | some o => rw [h] at hw; cases hw; rfl
  | n :: _ => by subst hc; rfl

/-- Writes along two paths of which neither is a prefix of the other commute:
the paths part at some bucket, where they write different entries. -/
theorem pathWrite_comm (hw₁ : Preserves OptSorted w₁) (hw₂ : Preserves OptSorted w₂)
    (hn₁ : c₁ = false → settle w₁ none = none) (hn₂ : c₂ = false → settle w₂ none = none) :
    ∀ names₁ names₂, ¬names₁ ++ [k₁] <+: names₂ ++ [k₂] → ¬names₂ ++ [k₂] <+: names₁ ++ [k₁] →
      Commutes Sorted (pathWrite c₁ w₁ k₁ names₁) (pathWrite c₂ w₂ k₂ names₂)
  | [], [], h, _ => atKey_comm hw₁ hw₂ fun hk => absurd (by simp [hk]) h
  | [], _ :: r, h, _ =>
    atKey_comm hw₁ (inChild_preserves (pathWrite_preserves hw₂ r)) fun hk => absurd (by simp [hk]) h
  | _ :: r, [], _, h =>
    atKey_comm (inChild_preserves (pathWrite_preserves hw₁ r)) hw₂ fun hk => absurd (by simp [hk]) h
  | n₁ :: r₁, n₂ :: r₂, h, h' =>
    atKey_comm (inChild_preserves (pathWrite_preserves hw₁ r₁))
      (inChild_preserves (pathWrite_preserves hw₂ r₂)) fun hk => by
        subst hk
        simp only [List.cons_append, List.cons_prefix_cons, true_and] at h h'
        exact inChild_comm (pathWrite_comm hw₁ hw₂ hn₁ hn₂ r₁ r₂ h h')
          (fun hc _ => pathWrite_nil hc (hn₁ hc) r₁) (fun hc _ => pathWrite_nil hc (hn₂ hc) r₂)

end PathWrites

namespace Leaf

variable (root : String)

theorem run_preserves (l : Leaf) (names : List String) (key : String) :
    Preserves Sorted (l.run root names key) :=
  atKey_preserves (inChild_preserves (pathWrite_preserves l.preserves names))

theorem run_idem (l : Leaf) (names : List String) (key : String) : Idem Sorted (l.run root names key) :=
  atKey_idem (inChild_preserves (pathWrite_preserves l.preserves names))
    (inChild_idem (pathWrite_idem l.preserves l.idem names))

/-- Two writes under one root bucket commute when neither path is a prefix of
the other. -/
theorem run_comm (l₁ l₂ : Leaf) {names₁ names₂ : List String} {k₁ k₂ : String}
    (h₁ : ¬names₁ ++ [k₁] <+: names₂ ++ [k₂]) (h₂ : ¬names₂ ++ [k₂] <+: names₁ ++ [k₁]) :
    Commutes Sorted (l₁.run root names₁ k₁) (l₂.run root names₂ k₂) :=
  atKey_comm (inChild_preserves (pathWrite_preserves l₁.preserves names₁))
    (inChild_preserves (pathWrite_preserves l₂.preserves names₂)) fun _ =>
      inChild_comm (pathWrite_comm l₁.preserves l₂.preserves l₁.none_of l₂.none_of
        names₁ names₂ h₁ h₂) (fun _ h => nomatch h) (fun _ h => nomatch h)

end Leaf

/-! ## Replicated updates -/

/-- The write a replicated update makes at its key: `put:key` walks down
creating the buckets it misses and puts the marshalled envelope; the deletes
walk down creating nothing. An update whose envelope does not marshal, or of
another type, writes nothing. -/
def updateLeaf (J : Json) (u : KVUpdate) : Option Leaf :=
  match u.updateType with
  | "put:key" => match J.marshalObject u.value with
    | .ok bobj =>
      let k := (parsePath u.key).2
      some ⟨true, putAt k bobj, putAt_preserves k bobj, putAt_idem k bobj, nofun⟩
    | .error _ => none
  | "delete:key" => some ⟨false, deleteAt, deleteAt_preserves, deleteAt_idem, fun _ => rfl⟩
  | "delete:bucket" =>
    some ⟨false, deleteBucketAt, deleteBucketAt_preserves, deleteBucketAt_idem, fun _ => rfl⟩
  | _ => none

/-- An update is the write of its leaf along the path of its key, rolled back
where it fails. -/
theorem applyUpdate_eq (J : Json) (root : String) (u : KVUpdate) (db : Bucket) :
    applyUpdate J root u db = match updateLeaf J u with
      | some l => settle (l.run root (parsePath u.key).1 (parsePath u.key).2) db
      | none => db := by
  unfold applyUpdate updateLeaf
  split <;> rename_i ht <;> simp only [ht]
  · cases J.marshalObject u.value with
    | ok bobj => exact commit_writeTx (put_actsAt _ _) _ _ _ _
    | error => rfl
  · exact commit_writeTx (delete_actsAt _) _ _ _ _
  · exact commit_writeTx (deleteBucket_actsAt _) _ _ _ _

/-- Neither key's path is a prefix of the other's: no bucket on the path of the
one is the other's key or lies below it. -/
def Unrelated (p q : String) : Prop := ¬split p <+: split q ∧ ¬split q <+: split p

instance (p q : String) : Decidable (Unrelated p q) := inferInstanceAs (Decidable (_ ∧ _))

section Updates

variable (J : Json) (root : String)

/-- Every update keeps every bucket of the store in order. -/
theorem sorted_stable : UpdateStable J Sorted := fun root u db hdb => by
  rw [applyUpdate_eq]
  split
  · exact Leaf.run_preserves root _ _ _ db hdb
  · exact hdb

/-- An update applied twice leaves what it leaves once. -/
theorem applyUpdate_idem (u : KVUpdate) {db : Bucket} (hdb : Sorted db) :
    applyUpdate J root u (applyUpdate J root u db) = applyUpdate J root u db := by
  simp only [applyUpdate_eq]
  cases updateLeaf J u with
  | none => rfl
  | some l => exact Leaf.run_idem root l _ _ db hdb

/-- Two updates on unrelated keys leave the same store in either order. -/
theorem applyUpdate_comm {u₁ u₂ : KVUpdate} (h : Unrelated u₁.key u₂.key) {db : Bucket}
    (hdb : Sorted db) :
    applyUpdate J root u₁ (applyUpdate J root u₂ db) = applyUpdate J root u₂ (applyUpdate J root u₁ db) := by
  simp only [Unrelated, split_eq_parsePath] at h
  simp only [applyUpdate_eq]
  cases updateLeaf J u₁ <;> cases updateLeaf J u₂
  · rfl
  · rfl
  · rfl
  · exact Leaf.run_comm root _ _ h.1 h.2 db hdb

/-- A put and a delete in one bucket: the delete fails before the put has made
the bucket and removes nothing after, so both orders leave the put's store. -/
example :
    applyUpdate Codec.json "kv" ⟨"put:key", "a/x", ⟨Time.zero, false, [1], [], false⟩⟩
        (applyUpdate Codec.json "kv" ⟨"delete:key", "a/y", .empty⟩ (newKV []).db) =
      applyUpdate Codec.json "kv" ⟨"delete:key", "a/y", .empty⟩
        (applyUpdate Codec.json "kv" ⟨"put:key", "a/x", ⟨Time.zero, false, [1], [], false⟩⟩
          (newKV []).db) := by
  decide

end Updates

/-! ## Folds of commuting steps -/

/-- A fold whose steps keep `S`, and whose distinct steps commute from every
value `S` admits, does not depend on the order of its steps. -/
theorem foldl_perm_of_comm {S : σ → Prop} {f : σ → α → σ} (hS : ∀ z a, S z → S (f z a)) :
    ∀ {l l' : List α}, l.Perm l' → (∀ a ∈ l, ∀ b ∈ l, a ≠ b → ∀ z, S z → f (f z a) b = f (f z b) a) →
      ∀ {z : σ}, S z → l.foldl f z = l'.foldl f z := by
  intro l l' h
  induction h with
  | nil => exact fun _ _ _ => rfl
  | cons x _ ih =>
    exact fun hc z hz => ih (fun a ha b hb => hc a (.tail _ ha) b (.tail _ hb)) (hS z x hz)
  | swap x y t =>
    intro hc z hz
    by_cases hxy : x = y
    · subst hxy; rfl
    · exact congrArg (fun z => t.foldl f z) (hc y (by simp) x (by simp) (Ne.symm hxy) z hz)
  | trans h₁ _ ih₁ ih₂ =>
    exact fun hc z hz => (ih₁ hc hz).trans
      (ih₂ (fun a ha b hb => hc a (h₁.symm.subset ha) b (h₁.symm.subset hb)) hz)

/-! ## Runs of updates

A run of replicated updates on pairwise unrelated keys leaves a store that
depends only on which updates it holds: each absorbs a later copy of itself
(`applyAll_absorb`), so duplicates go (`applyAll_dedup`), and the order does not
matter (`applyAll_perm`). -/

section Runs

variable (J : Json) (root : String) {G : List KVUpdate}
  (hG : ∀ a ∈ G, ∀ b ∈ G, a ≠ b → Unrelated a.key b.key)
include hG

theorem applyAll_absorb {w : KVUpdate} :
    ∀ {A : List KVUpdate}, A ⊆ G → w ∈ A → ∀ {db : Bucket}, Sorted db →
      applyAll J root A (applyUpdate J root w db) = applyAll J root A db
  | y :: t, hs, hw, db, hdb => by
    have hy := hs (List.mem_cons_self y t)
    rw [applyAll_cons, applyAll_cons]
    by_cases hwy : w = y
    · rw [hwy, applyUpdate_idem J root y hdb]
    · have hwt := (List.mem_cons.mp hw).resolve_left hwy
      rw [applyUpdate_comm J root (hG y hy w (hs (List.mem_cons_of_mem y hwt)) (Ne.symm hwy)) hdb]
      exact applyAll_absorb (fun x hx => hs (List.mem_cons_of_mem y hx)) hwt
        (sorted_stable J root y db hdb)

theorem applyAll_dedup :
    ∀ {A : List KVUpdate}, A ⊆ G → ∀ {db : Bucket}, Sorted db →
      applyAll J root A db = applyAll J root A.dedup db
  | [], _, _, _ => rfl
  | x :: t, hs, db, hdb => by
    have ht : t ⊆ G := fun y hy => hs (List.mem_cons_of_mem x hy)
    by_cases hx : x ∈ t
    · rw [List.dedup_cons_of_mem hx, applyAll_cons, applyAll_absorb J root hG ht hx hdb]
      exact applyAll_dedup ht hdb
    · rw [List.dedup_cons_of_not_mem hx, applyAll_cons, applyAll_cons]
      exact applyAll_dedup ht (sorted_stable J root x db hdb)

theorem applyAll_perm {A B : List KVUpdate} (h : A.Perm B) (hA : A ⊆ G) {db : Bucket}
    (hdb : Sorted db) : applyAll J root A db = applyAll J root B db :=
  foldl_perm_of_comm (fun z a hz => sorted_stable J root a z hz) h
    (fun a ha b hb hab _ hz => applyUpdate_comm J root (hG b (hA hb) a (hA ha) (Ne.symm hab)) hz) hdb

/-- Two runs of updates drawn from `G` that hold the same updates leave the same
store, whatever their order and however often each update occurs. -/
theorem applyAll_members {A B : List KVUpdate} (hA : A ⊆ G) (hAB : ∀ w, w ∈ A ↔ w ∈ B)
    {db : Bucket} (hdb : Sorted db) : applyAll J root A db = applyAll J root B db := by
  have hB : B ⊆ G := fun w hw => hA ((hAB w).mpr hw)
  rw [applyAll_dedup J root hG hA hdb, applyAll_dedup J root hG hB hdb]
  exact applyAll_perm J root hG
    ((List.perm_ext_iff_of_nodup (List.nodup_dedup A) (List.nodup_dedup B)).mpr fun w => by
      simp only [List.mem_dedup, hAB])
    (fun w hw => hA (List.mem_dedup.mp hw)) hdb

end Runs

/-! ## The update loop -/

/-- Two carried updates that may be applied in either order: one update, or two
on unrelated keys. -/
def Swappable : Option KVUpdate → Option KVUpdate → Prop
  | some u, some u' => u = u' ∨ Unrelated u.key u'.key
  | _, _ => False

instance decSwappable : ∀ a b, Decidable (Swappable a b)
  | some u, some u' => inferInstanceAs (Decidable (u = u' ∨ Unrelated u.key u'.key))
  | none, _ => isFalse nofun
  | some _, none => isFalse nofun

/-- Messages an update loop may take in any order and any number of times: each
carries a replicated update, and any two carry one update or two on unrelated
keys. -/
def Independent (J : Json) (ms : List Message) : Prop :=
  ∀ m ∈ ms, ∀ m' ∈ ms, Swappable (carried J m) (carried J m')

instance decIndependent (J : Json) (ms : List Message) : Decidable (Independent J ms) :=
  inferInstanceAs (Decidable (∀ m ∈ ms, ∀ m' ∈ ms, _))


/-- A node's update loop, fed put and delete updates any two of which are the
same update or name unrelated keys, ends in the same state whatever the order
in which the messages arrive and however often each arrives. -/
theorem updateLoop_order_free (J : Json) (net : Cluster) (c : Claim) {ms ms' : List Message}
    (hms : Independent J ms) (hset : ∀ m, m ∈ ms ↔ m ∈ ms') {p : KV} (hp : Sorted p.db) :
    updateLoop J net c ms p = updateLoop J net c ms' p := by
  have hc : ∀ m ∈ ms, (carried J m).isSome := fun m hm => by
    have h := hms m hm m hm
    revert h
    cases carried J m
    exacts [False.elim, fun _ => rfl]
  have hG : ∀ a ∈ ms.filterMap (carried J), ∀ b ∈ ms.filterMap (carried J), a ≠ b →
      Unrelated a.key b.key := by
    simp only [List.mem_filterMap]
    rintro a ⟨m, hm, ha⟩ b ⟨m', hm', hb⟩ hab
    have h := hms m hm m' hm'
    rw [ha, hb] at h
    exact h.resolve_left hab
  rw [updateLoop_carried J net c hc, updateLoop_carried J net c fun m h => hc m ((hset m).mpr h),
    applyAll_members J "kv" hG (B := ms'.filterMap (carried J)) (List.Subset.refl _)
      (fun w => by simp only [List.mem_filterMap, hset]) hp]

end Cave
