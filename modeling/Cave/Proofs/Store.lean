import Cave.Proofs.Calls
import Cave.Proofs.Path
import Cave.Model.Codec

/-!
# The store is a map from paths to envelopes

Under a root bucket, `GetObject` reads the store as a function of the path. The
three write transactions change that function as a map would: `PutObject` sets
one path, `DeleteKey` clears one, and `DeleteBucket` clears every path below
the bucket it names. Nothing else moves: the bucket chain a `PutObject` creates
holds no leaf, and a path that does not run through the written key reads what
it read before.

Each law is first a statement about leaves (`leaf?_putObjectTx` and its two
siblings, from `leaf?_getBuckets_write`), then about `readObject`, where
`parsePath_injective` turns "the same bucket chain and key" into "the same
path" and `slash_prefix_iff` turns "below the bucket" into "starts with
`p ++ "/"`". A read of a missing leaf decodes no bytes, and the `Json`
contract makes that `unexpected end of JSON input`.
-/

namespace Cave

open Go Bucket

theorem writeTx_ok {db db' : Bucket} {bs : List String} {root : String} {c : Bool}
    {f : Bucket → Except Error Bucket} (h : writeTx bs root c f db = .ok db') :
    ∃ d set d', getBuckets db bs root c = .ok (d, set) ∧ f d = .ok d' ∧ db' = set d' := by
  cases hg : getBuckets db bs root c with
  | error e => simp [writeTx, hg, bind, Except.bind] at h
  | ok r =>
    obtain ⟨d, set⟩ := r
    cases hf : f d with
    | error e => simp [writeTx, hg, hf, bind, Except.bind, Except.mapError] at h
    | ok d' =>
      simp [writeTx, hg, hf, bind, Except.bind, Except.mapError, pure, Except.pure] at h
      exact ⟨d, set, d', rfl, hf, h.symm⟩

theorem prefix_drop_eq_nil_iff {l qs : List String} :
    (l <+: qs ∧ qs.drop l.length = []) ↔ qs = l := by
  constructor
  · rintro ⟨⟨t, rfl⟩, h⟩
    simp at h
    simp [h]
  · rintro rfl
    simp

theorem prefix_drop_head_iff (l qs : List String) (k : String) :
    (l <+: qs ∧ (qs.drop l.length).head? = some k) ↔ l ++ [k] <+: qs := by
  constructor
  · rintro ⟨⟨t, rfl⟩, h⟩
    cases t with
    | nil => simp at h
    | cons x t => simp at h; subst h; exact ⟨t, by simp⟩
  · rintro ⟨t, rfl⟩
    exact ⟨⟨[k] ++ t, by simp⟩, by simp⟩

section Leaves

variable {db db' : Bucket} {bs : List String} {k root : String}

theorem leaf?_putObjectTx {bobj : Bytes} (h : putObjectTx bs k bobj root db = .ok db')
    (qs : List String) (j : String) :
    db'.leaf? qs j = if qs = root :: bs ∧ k = j then some bobj else db.leaf? qs j := by
  obtain ⟨d, set, d', hg, hp, rfl⟩ := writeTx_ok h
  obtain ⟨hk, rfl⟩ := put_ok hp
  rw [leaf?_getBuckets_write hg _ fun rest j => leaf?_insert_value hk bobj rest]
  by_cases hq : qs = root :: bs
  · subst hq; simp
  · have : ¬(root :: bs <+: qs ∧ qs.drop (bs.length + 1) = []) :=
      fun h' => hq (prefix_drop_eq_nil_iff.mp h')
    split <;> simp_all

theorem leaf?_deleteKeyTx (h : deleteKeyTx bs k root db = .ok db') (qs : List String) (j : String) :
    db'.leaf? qs j = if qs = root :: bs ∧ k = j then none else db.leaf? qs j := by
  obtain ⟨d, set, d', hg, hp, rfl⟩ := writeTx_ok h
  obtain ⟨hk, rfl⟩ := delete_ok hp
  rw [leaf?_getBuckets_write hg _ fun rest j => leaf?_erase_value hk rest]
  by_cases hq : qs = root :: bs
  · subst hq; simp
  · have : ¬(root :: bs <+: qs ∧ qs.drop (bs.length + 1) = []) :=
      fun h' => hq (prefix_drop_eq_nil_iff.mp h')
    split <;> simp_all

theorem leaf?_deleteBucketTx (h : deleteBucketTx bs k root db = .ok db') (qs : List String)
    (j : String) : db'.leaf? qs j = if root :: bs ++ [k] <+: qs then none else db.leaf? qs j := by
  obtain ⟨d, set, d', hg, hp, rfl⟩ := writeTx_ok h
  obtain ⟨hk, rfl⟩ := deleteBucket_ok hp
  have hiff := prefix_drop_head_iff (root :: bs) qs k
  rw [List.length_cons] at hiff
  rw [leaf?_getBuckets_write hg _ fun rest j => leaf?_erase_bucket hk rest]
  by_cases hc : root :: bs ++ [k] <+: qs
  · obtain ⟨hp, hh⟩ := hiff.mpr hc
    rw [if_pos hc, if_pos hp, if_pos hh]
  · rw [if_neg hc]
    split
    · next hp => rw [if_neg fun hh => hc (hiff.mp ⟨hp, hh⟩)]
    · rfl

end Leaves

section Reads

variable (J : Json) {db db' : Bucket} {root : String}

theorem readObject_of_bucket (hb : (db.bucket root).isSome) (q : String) :
    readObject J db q root = ((J.unmarshalObject
      ((db.leaf? (root :: (parsePath q).1) (parsePath q).2).getD [])).mapError .json).mapError
        .error := by
  obtain ⟨b, hb⟩ := Option.isSome_iff_exists.mp hb
  simp [readObject, hb]

/-- The read of a path whose leaf is missing. -/
def readMissing : Except Fault KVObject := .error (.error (.json "unexpected end of JSON input"))

/-- Two databases with the root bucket and the same leaf at a path read the
same there. -/
theorem readObject_congr {q : String} (hb : (db.bucket root).isSome)
    (hb' : (db'.bucket root).isSome)
    (h : db'.leaf? (root :: (parsePath q).1) (parsePath q).2 =
      db.leaf? (root :: (parsePath q).1) (parsePath q).2) :
    readObject J db' q root = readObject J db q root := by
  rw [readObject_of_bucket J hb', readObject_of_bucket J hb, h]

theorem readObject_missing {q : String} (hb : (db.bucket root).isSome)
    (h : db.leaf? (root :: (parsePath q).1) (parsePath q).2 = none) :
    readObject J db q root = readMissing := by
  rw [readObject_of_bucket J hb, h]
  simp [J.unmarshalObject_nil, Except.mapError, readMissing]

theorem readObject_putObjectTx {v : KVObject} {bobj : Bytes} {p : String}
    (hm : J.marshalObject v = .ok bobj)
    (h : putObjectTx (parsePath p).1 (parsePath p).2 bobj root db = .ok db') (q : String) :
    readObject J db' q root = if q = p then .ok v.stripMonotonic else readObject J db q root := by
  obtain ⟨d, set, d', hg, -, hdb⟩ := writeTx_ok h
  obtain ⟨hb, hb'⟩ := bucket_getBuckets hg d'
  rw [← hdb] at hb'
  split
  · next hq =>
    subst hq
    rw [readObject_of_bucket J hb', leaf?_putObjectTx h]
    simp [J.unmarshalObject_marshalObject hm, Except.mapError]
  · next hq =>
    refine readObject_congr J hb hb' ?_
    rw [leaf?_putObjectTx h]
    have : ¬((parsePath q).1 = (parsePath p).1 ∧ (parsePath p).2 = (parsePath q).2) :=
      fun ⟨h1, h2⟩ => hq (parsePath_injective (Prod.ext h1 h2.symm))
    simp [this]

theorem readObject_deleteKeyTx {p : String}
    (h : deleteKeyTx (parsePath p).1 (parsePath p).2 root db = .ok db') (q : String) :
    readObject J db' q root = if q = p then readMissing else readObject J db q root := by
  obtain ⟨d, set, d', hg, -, hdb⟩ := writeTx_ok h
  obtain ⟨hb, hb'⟩ := bucket_getBuckets hg d'
  rw [← hdb] at hb'
  split
  · next hq => subst hq; exact readObject_missing J hb' (by simp [leaf?_deleteKeyTx h])
  · next hq =>
    refine readObject_congr J hb hb' ?_
    rw [leaf?_deleteKeyTx h]
    have : ¬((parsePath q).1 = (parsePath p).1 ∧ (parsePath p).2 = (parsePath q).2) :=
      fun ⟨h1, h2⟩ => hq (parsePath_injective (Prod.ext h1 h2.symm))
    simp [this]

theorem readObject_deleteBucketTx {p : String}
    (h : deleteBucketTx (parsePath p).1 (parsePath p).2 root db = .ok db') (q : String) :
    readObject J db' q root =
      if (p ++ "/").data <+: q.data then readMissing else readObject J db q root := by
  obtain ⟨d, set, d', hg, -, hdb⟩ := writeTx_ok h
  obtain ⟨hb, hb'⟩ := bucket_getBuckets hg d'
  rw [← hdb] at hb'
  have hiff : root :: (parsePath p).1 ++ [(parsePath p).2] <+: root :: (parsePath q).1 ↔
      (p ++ "/").data <+: q.data := by
    rw [slash_prefix_iff, split_eq_parsePath, List.cons_append, List.cons_prefix_cons]
    simp
  split
  · next hq => exact readObject_missing J hb' (by rw [leaf?_deleteBucketTx h, if_pos (hiff.mpr hq)])
  · next hq =>
    refine readObject_congr J hb hb' ?_
    rw [leaf?_deleteBucketTx h, if_neg fun h' => hq (hiff.mp h')]

end Reads

/-- Under the root bucket `kv`, the store is a map from paths to envelopes: a
committed `PutObject` sets one path (and `Get` after `Put` gives the bytes
back), a committed `DeleteKey` clears one path, a committed `DeleteBucket`
clears every path below the bucket, and every other path reads as before. -/
theorem store_map_laws (J : Json) (net : Cluster) (s : KV) (p : String) :
    (∀ v secret e bobj db', J.marshalObject v = .ok bobj →
      putObjectTx (parsePath p).1 (parsePath p).2 bobj "kv" s.db = .ok db' → ∀ q,
        (getObject J q "kv" (putObject J net p v "kv" secret e s).2).1 =
          if q = p then .ok v.stripMonotonic else (getObject J q "kv" s).1) ∧
    (∀ now b secret e bobj db', J.marshalObject ⟨now, secret, b, [], !J.valid b⟩ = .ok bobj →
      putObjectTx (parsePath p).1 (parsePath p).2 bobj "kv" s.db = .ok db' →
        (get J p "kv" (put J net now p b "kv" secret e s).2).1 = .ok b) ∧
    (∀ e db', deleteKeyTx (parsePath p).1 (parsePath p).2 "kv" s.db = .ok db' → ∀ q,
        (getObject J q "kv" (deleteKey J net p "kv" e s).2).1 =
          if q = p then readMissing else (getObject J q "kv" s).1) ∧
    (∀ e db', deleteBucketTx (parsePath p).1 (parsePath p).2 "kv" s.db = .ok db' → ∀ q,
        (getObject J q "kv" (deleteBucket J net p "kv" e s).2).1 =
          if (p ++ "/").data <+: q.data then readMissing else (getObject J q "kv" s).1) := by
  refine ⟨fun v secret e bobj db' hm hc q => ?_, fun now b secret e bobj db' hm hc => ?_,
    fun e db' hc q => ?_, fun e db' hc q => ?_⟩
  · simp only [getObject_apply, putObject_db, hm, hc, commit]
    exact readObject_putObjectTx J hm hc q
  · simp only [put, get_apply, putObject_db, hm, hc, commit, readObject_putObjectTx J hm hc p]
    rfl
  · simp only [getObject_apply, deleteKey, deleteWith_db, hc, commit]
    exact readObject_deleteKeyTx J hc q
  · simp only [getObject_apply, deleteBucket, deleteWith_db, hc, commit]
    exact readObject_deleteBucketTx J hc q

theorem store_map_laws_fresh :
    (∃ bobj db', Codec.json.marshalObject ⟨Time.zero, false, [7], [], false⟩ = .ok bobj ∧
      putObjectTx ["a"] "b" bobj "kv" (newKV []).db = .ok db') ∧
    (getObject Codec.json "a/b" "kv" (putObject Codec.json ⟨fun _ => none⟩ "a/b"
      ⟨Time.zero, false, [7], [], false⟩ "kv" false [] (newKV [])).2).1 =
        .ok ⟨Time.zero, false, [7], [], false⟩ :=
  ⟨⟨_, _, rfl, rfl⟩, by
    simpa using (store_map_laws Codec.json ⟨fun _ => none⟩ (newKV []) "a/b").1
      ⟨Time.zero, false, [7], [], false⟩ false [] _ _ rfl rfl "a/b"⟩

end Cave
