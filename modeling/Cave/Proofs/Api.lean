import Cave.Proofs.Replication
import Cave.Proofs.Store
import Cave.Model.Api

/-!
# Deleting over HTTP

`DELETE /api/v1/kv/{path}` is meant to delete a bucket when the path ends in
`/` and a key otherwise. `kvDeleteHandler` calls `DeleteBucket` for the first
kind and, when that returns nil, carries on into `DeleteKey` as well; and
`DeleteBucket` of `a/` parses to the bucket chain `[a]` and the key `""`, so it
asks bucket `a` for a child bucket with the empty name.

`kvDeleteHandler_slash` follows the first kind of request through both calls:
whenever it answers 200 it has emitted two events. `kvDeleteHandler_frame`
bounds what any DELETE of `p` can remove: the object at `p` and those under
`p/`. For `p = q/` the second are the objects under a bucket with the empty
name, so every object `q/r` stays (`bucket_delete_keeps_children`). The two
closed theorems at the end run the handler on a store holding `a/b`.
-/

namespace Cave

open Go

section Handlers

variable (J : Json) (net : Cluster)

/-- A delete that returns nil with emission on has emitted its event. -/
theorem deleteWith_ok_emits {t : String}
    {tx : List String → String → String → Bucket → Except Fault Bucket} {key root : String} {s : KV}
    (h : (deleteWith J net t tx key root [] s).1 = .ok ()) :
    ∃ d, J.marshalUpdate ⟨t, key, .empty⟩ = .ok d ∧
      (deleteWith J net t tx key root [] s).2.sent = s.sent ++ [⟨"update", d, "KVUpdate"⟩] := by
  obtain ⟨d, hd⟩ := marshalUpdate_ok J (show KVObject.empty.inRange = true by decide) t key
  refine ⟨d, hd, ?_⟩
  rw [deleteWith_apply] at h ⊢
  split at h
  · cases h
  · simp only [List.headD_nil, if_true, emitEvent_state J net hd]
  · simp only [List.headD_nil, if_true, emitEvent_state J net hd]

/-- A DELETE on a path ending in `/` that answers 200 has emitted a
`delete:bucket` and then a `delete:key` event for the path. -/
theorem kvDeleteHandler_slash {r : Request} (hs : hasSuffix (trimPath r.path kvPrefix) "/" = true)
    {s : KV} (h : (kvDeleteHandler J net r s).1 = .ok ⟨200, .message "ok"⟩) :
    ∃ d₁ d₂, (kvDeleteHandler J net r s).2.sent =
        s.sent ++ [⟨"update", d₁, "KVUpdate"⟩, ⟨"update", d₂, "KVUpdate"⟩] ∧
      J.marshalUpdate ⟨"delete:bucket", trimPath r.path kvPrefix, .empty⟩ = .ok d₁ ∧
      J.marshalUpdate ⟨"delete:key", trimPath r.path kvPrefix, .empty⟩ = .ok d₂ := by
  simp only [kvDeleteHandler, deleteBucket, deleteKey, hs, if_true, bind_apply, capture_apply]
    at h ⊢
  cases hb : deleteWith J net "delete:bucket" deleteBucketTx (trimPath r.path kvPrefix) "kv" [] s with
  | mk rb s₁ =>
    rw [hb] at h
    rcases rb with (e | m) | ⟨⟩
    · simp only at h; split at h <;> simp at h
    · simp at h
    · obtain ⟨d₁, hd₁, hs₁⟩ := deleteWith_ok_emits J net (congrArg Prod.fst hb)
      rw [hb] at hs₁
      simp only [bind_apply, capture_apply] at h ⊢
      cases hk : deleteWith J net "delete:key" deleteKeyTx (trimPath r.path kvPrefix) "kv" [] s₁ with
      | mk rk s₂ =>
        rw [hk] at h
        rcases rk with (e | m) | ⟨⟩
        · simp at h
        · simp at h
        · obtain ⟨d₂, hd₂, hs₂⟩ := deleteWith_ok_emits J net (congrArg Prod.fst hk)
          rw [hk] at hs₂
          simp only at hs₁ hs₂
          exact ⟨d₁, d₂, by simp [hs₂, hs₁], hd₁, hd₂⟩

/-- `DeleteKey` of `p` changes the read of no other path. -/
theorem deleteKey_frame {p q : String} (hq : q ≠ p) (v : Except Fault KVObject) (e : List Bool) :
    Keeps (fun db => readObject J db q "kv" = v) (deleteKey J net p "kv" e) := fun s hs => by
  simp only [deleteKey, deleteWith_db]
  cases h : deleteKeyTx (parsePath p).1 (parsePath p).2 "kv" s.db with
  | error _ => exact hs
  | ok db' => rw [commit, readObject_deleteKeyTx J h, if_neg hq]; exact hs

/-- `DeleteBucket` of `p` changes the read of no path outside `p/`. -/
theorem deleteBucket_frame {p q : String} (hq : ¬(p ++ "/").data <+: q.data)
    (v : Except Fault KVObject) (e : List Bool) :
    Keeps (fun db => readObject J db q "kv" = v) (deleteBucket J net p "kv" e) := fun s hs => by
  simp only [deleteBucket, deleteWith_db]
  cases h : deleteBucketTx (parsePath p).1 (parsePath p).2 "kv" s.db with
  | error _ => exact hs
  | ok db' => rw [commit, readObject_deleteBucketTx J h, if_neg hq]; exact hs

/-- `kvDeleteHandler` keeps whatever both of its deletes keep. -/
theorem kvDeleteHandler_keeps_of {I : Bucket → Prop} (r : Request)
    (hb : Keeps I (deleteBucket J net (trimPath r.path kvPrefix) "kv" []))
    (hk : Keeps I (deleteKey J net (trimPath r.path kvPrefix) "kv" [])) :
    Keeps I (kvDeleteHandler J net r) := by
  unfold kvDeleteHandler
  dsimp only
  refine Keeps.bind ?_ fun a => ?_
  · split
    · exact Keeps.capture hb
    · exact Keeps.pure _
  · split
    · split <;> exact Keeps.pure _
    · exact Keeps.bind_pure (Keeps.capture hk) fun a => by split <;> exact ⟨_, rfl⟩

/-- A DELETE of `p` changes the read of no path but `p` and those under `p/`. -/
theorem kvDeleteHandler_frame (r : Request) (s : KV) {q : String}
    (hq : q ≠ trimPath r.path kvPrefix) (hq' : ¬(trimPath r.path kvPrefix ++ "/").data <+: q.data) :
    (getObject J q "kv" (kvDeleteHandler J net r s).2).1 = (getObject J q "kv" s).1 := by
  simp only [getObject_apply]
  exact kvDeleteHandler_keeps_of J net r (deleteBucket_frame J net hq' _ _)
    (deleteKey_frame J net hq _ _) s rfl

/-- For every bucket path `q`, a DELETE of `q/` leaves in place every object
`q/r` whose name `r` does not start with `/`: all that a bucket delete was
meant to remove. -/
theorem bucket_delete_keeps_children (r : Request) (s : KV) {q : String}
    (hp : trimPath r.path kvPrefix = q ++ "/") (c : Char) (cs : List Char) (hc : c ≠ '/') :
    (getObject J (q ++ "/" ++ ⟨c :: cs⟩) "kv" (kvDeleteHandler J net r s).2).1 =
      (getObject J (q ++ "/" ++ ⟨c :: cs⟩) "kv" s).1 := by
  refine kvDeleteHandler_frame J net r s ?_ ?_ <;> rw [hp]
  · intro h
    have := congrArg String.length h
    simp at this
  · intro h
    simp only [String.data_append, List.append_assoc, List.prefix_append_right_inj,
      List.singleton_append, List.cons_prefix_cons, true_and] at h
    exact hc h.1.symm

end Handlers

theorem bucket_delete_emits_twice :
    (kvHandler Codec.json ⟨fun _ => none⟩ Codec.box Time.zero
        ⟨"DELETE", "/api/v1/kv/a/", fun _ => "", .ok []⟩
        (putObject Codec.json ⟨fun _ => none⟩ "a/b" ⟨Time.zero, false, [7], [], false⟩ "kv" false
          [false] (newKV [])).2).1 = .ok ⟨200, .message "ok"⟩ ∧
    (kvHandler Codec.json ⟨fun _ => none⟩ Codec.box Time.zero
        ⟨"DELETE", "/api/v1/kv/a/", fun _ => "", .ok []⟩
        (putObject Codec.json ⟨fun _ => none⟩ "a/b" ⟨Time.zero, false, [7], [], false⟩ "kv" false
          [false] (newKV [])).2).2.sent.length = 2 := by
  have h : (kvHandler Codec.json ⟨fun _ => none⟩ Codec.box Time.zero
      ⟨"DELETE", "/api/v1/kv/a/", fun _ => "", .ok []⟩
      (putObject Codec.json ⟨fun _ => none⟩ "a/b" ⟨Time.zero, false, [7], [], false⟩ "kv" false
        [false] (newKV [])).2).1 = .ok ⟨200, .message "ok"⟩ := by decide
  obtain ⟨d₁, d₂, hs, -⟩ := kvDeleteHandler_slash Codec.json _ (by decide) h
  refine ⟨h, ?_⟩
  simp only [kvHandler, hs]
  rfl

theorem bucket_delete_keeps_bucket :
    (kvHandler Codec.json ⟨fun _ => none⟩ Codec.box Time.zero
        ⟨"DELETE", "/api/v1/kv/a/", fun _ => "", .ok []⟩
        (putObject Codec.json ⟨fun _ => none⟩ "a/b" ⟨Time.zero, false, [7], [], false⟩ "kv" false
          [false] (newKV [])).2).1 = .ok ⟨200, .message "ok"⟩ ∧
    (getObject Codec.json "a/b" "kv" (kvHandler Codec.json ⟨fun _ => none⟩ Codec.box Time.zero
        ⟨"DELETE", "/api/v1/kv/a/", fun _ => "", .ok []⟩
        (putObject Codec.json ⟨fun _ => none⟩ "a/b" ⟨Time.zero, false, [7], [], false⟩ "kv" false
          [false] (newKV [])).2).2).1 = .ok ⟨Time.zero, false, [7], [], false⟩ :=
  ⟨by decide, (bucket_delete_keeps_children Codec.json _ ⟨"DELETE", "/api/v1/kv/a/", fun _ => "", .ok []⟩ _
    (q := "a") (by decide) 'b' [] (by decide)).trans (by decide)⟩

end Cave
