import Cave.Proofs.Calls
import Cave.Model.Codec
import Cave.Model.Node

/-!
# Replication

A node replicates a mutation by handing the transport the update record the
call built, and every peer applies it through `handleUpdate`. This file says
what an update means and checks the apply path against the calls that emit.

* **What an update means.** `applyUpdate` is the write transaction an update
  stands for under a root bucket: the one `PutObject`, `DeleteKey` or
  `DeleteBucket` ran for it.

* **What a call leaves for replication.** `Replicates` says it: no message
  (and, with emission on, no change to the database), or one `update` message
  whose update means exactly the change the call made. It holds of
  `PutObject`, of the two deletes, and of `Lock` and `Unlock`, which replicate
  as `put:key` of the rewritten envelope.

* **The apply path.** `handleUpdate_replicated`: a peer that decodes such a
  message runs the same transaction, because decoding gives back the envelope
  less its monotonic clock readings, which `Marshal` never writes.

* **Local mutations.** `Mutation` lists the calls a node makes on its own
  store; `apply_replays_mutation` puts the two halves together.
-/

namespace Cave

open Go

/-! ## What an update means -/

/-- The update types a node emits: `PutObject` (and `Lock` and `Unlock` through
it) emits `put:key`, and the deletes `delete:key` and `delete:bucket`. -/
def replicatedTypes : List String := ["put:key", "delete:key", "delete:bucket"]

/-- The write transaction update `u` stands for under the root bucket `root`,
and the database it leaves. -/
def applyUpdate (J : Json) (root : String) (u : KVUpdate) (db : Bucket) : Bucket :=
  match u.updateType with
  | "put:key" => match J.marshalObject u.value with
    | .ok bobj => commit (putObjectTx (parsePath u.key).1 (parsePath u.key).2 bobj root db) db
    | .error _ => db
  | "delete:key" => commit (deleteKeyTx (parsePath u.key).1 (parsePath u.key).2 root db) db
  | "delete:bucket" => commit (deleteBucketTx (parsePath u.key).1 (parsePath u.key).2 root db) db
  | _ => db

/-- What a call from `s` to `s'` leaves for replication: no message and, if it
was asked to emit, no change; or one `update` message whose update means the
change. -/
def Replicates (J : Json) (root : String) (emit : Bool) (s s' : KV) : Prop :=
  (s'.sent = s.sent ∧ (emit = true → s'.db = s.db)) ∨
  ∃ u data, s'.sent = s.sent ++ [⟨"update", data, "KVUpdate"⟩] ∧ J.marshalUpdate u = .ok data ∧
    u.updateType ∈ replicatedTypes ∧ s'.db = applyUpdate J root u s.db

theorem Replicates.of_true {J : Json} {root : String} {s s' : KV}
    (h : Replicates J root true s s') (emit : Bool) : Replicates J root emit s s' :=
  h.imp (fun h => ⟨h.1, fun _ => h.2 rfl⟩) id

theorem replicates_rfl (J : Json) (root : String) (emit : Bool) (s : KV) :
    Replicates J root emit s s :=
  .inl ⟨rfl, fun _ => rfl⟩

section Calls

variable (J : Json) (net : Cluster)

theorem inRange_of_marshalObject {v : KVObject} {bobj : Bytes}
    (h : J.marshalObject v = .ok bobj) : v.inRange = true := by
  rw [← J.marshalObject_isOk, h]; rfl

theorem marshalUpdate_ok {v : KVObject} (h : v.inRange = true) (t key : String) :
    ∃ data, J.marshalUpdate ⟨t, key, v⟩ = .ok data := by
  have hr := J.marshalUpdate_isOk ⟨t, key, v⟩
  cases hm : J.marshalUpdate ⟨t, key, v⟩ with
  | ok data => exact ⟨data, rfl⟩
  | error _ => simp_all [Except.isOk, Except.toBool]

theorem putObject_applyUpdate (key : String) (v : KVObject) (root : String) (secret : Bool)
    (e : List Bool) (s : KV) :
    (putObject J net key v root secret e s).2.db = applyUpdate J root ⟨"put:key", key, v⟩ s.db := by
  rw [putObject_db]; unfold applyUpdate; cases J.marshalObject v <;> rfl

theorem deleteKey_applyUpdate (key root : String) (e : List Bool) (s : KV) :
    (deleteKey J net key root e s).2.db = applyUpdate J root ⟨"delete:key", key, .empty⟩ s.db :=
  deleteWith_db J net _ _ key root e s

theorem deleteBucket_applyUpdate (key root : String) (e : List Bool) (s : KV) :
    (deleteBucket J net key root e s).2.db =
      applyUpdate J root ⟨"delete:bucket", key, .empty⟩ s.db :=
  deleteWith_db J net _ _ key root e s

theorem lock_applyUpdate (c : Claim) (key root : String) (e : List Bool) (s : KV) :
    (lock J net c key root e s).2.db = match readObject J s.db key root with
      | .error _ => s.db
      | .ok obj => applyUpdate J root
          ⟨"put:key", key, { obj with locks := obj.locks ++ [c.lockOn key root] }⟩ s.db := by
  rw [lock_apply]
  cases readObject J s.db key root with
  | error _ => rfl
  | ok obj => exact putObject_applyUpdate J net key _ root _ [true] s

theorem unlock_applyUpdate (l : Lock) (e : List Bool) (s : KV) :
    (unlock J net l e s).2.db = match readObject J s.db l.key l.root with
      | .error _ => s.db
      | .ok obj =>
        let i := lockIndex l.lockId obj.locks
        if i < 0 then s.db
        else applyUpdate J l.root ⟨"put:key", l.key,
          { obj with locks := obj.locks.take i.toNat ++ obj.locks.drop (i.toNat + 1) }⟩ s.db := by
  rw [unlock_apply]
  cases readObject J s.db l.key l.root with
  | error _ => rfl
  | ok obj =>
    dsimp only
    split
    · rfl
    · exact putObject_applyUpdate J net _ _ _ _ [true] s

theorem emitEvent_state {t key : String} {v : KVObject} {data : Bytes}
    (h : J.marshalUpdate ⟨t, key, v⟩ = .ok data) (s : KV) :
    (emitEvent J net t key v s).2 = { s with sent := s.sent ++ [⟨"update", data, "KVUpdate"⟩] } := by
  simp only [emitEvent_apply, h, emit_apply]

theorem emitEvent_replicates {t key : String} {v : KVObject} {data : Bytes}
    (h : J.marshalUpdate ⟨t, key, v⟩ = .ok data) (ht : t ∈ replicatedTypes) (root : String)
    (emit : Bool) (s : KV) {db : Bucket} (hdb : db = applyUpdate J root ⟨t, key, v⟩ s.db) :
    Replicates J root emit s (emitEvent J net t key v { s with db }).2 := by
  rw [emitEvent_state J net h]
  exact .inr ⟨_, data, rfl, h, ht, hdb⟩

theorem putObject_replicates (key : String) (v : KVObject) (root : String) (secret : Bool)
    (e : List Bool) (s : KV) :
    Replicates J root (e.headD true) s (putObject J net key v root secret e s).2 := by
  cases hm : J.marshalObject v with
  | error _ => simp only [putObject_apply, hm]; exact replicates_rfl J root _ s
  | ok bobj =>
    cases hc : putObjectTx (parsePath key).1 (parsePath key).2 bobj root s.db with
    | error _ => simp only [putObject_apply, hm, hc]; exact replicates_rfl J root _ s
    | ok db =>
      obtain ⟨data, hd⟩ := marshalUpdate_ok J (inRange_of_marshalObject J hm) "put:key" key
      simp only [putObject_apply, hm, hc]
      cases e.headD true
      · exact .inl ⟨rfl, fun h => nomatch h⟩
      · exact emitEvent_replicates J net hd (by decide) root true s
          (by simp [applyUpdate, hm, hc, commit])

theorem deleteWith_replicates (t : String) (ht : t ∈ replicatedTypes)
    (tx : List String → String → String → Bucket → Except Fault Bucket) (key root : String)
    (htx : ∀ db, applyUpdate J root ⟨t, key, .empty⟩ db =
      commit (tx (parsePath key).1 (parsePath key).2 root db) db)
    (e : List Bool) (s : KV) :
    Replicates J root (e.headD true) s (deleteWith J net t tx key root e s).2 := by
  obtain ⟨data, hd⟩ := marshalUpdate_ok J (show KVObject.empty.inRange = true by decide) t key
  cases hc : tx (parsePath key).1 (parsePath key).2 root s.db with
  | error f =>
    cases f
    · simp only [deleteWith_apply, hc]
      cases e.headD true
      · exact replicates_rfl J root _ s
      · exact emitEvent_replicates J net hd ht root true s (by rw [htx, hc]; rfl)
    · simp only [deleteWith_apply, hc]; exact replicates_rfl J root _ s
  | ok db =>
    simp only [deleteWith_apply, hc]
    cases e.headD true
    · exact .inl ⟨rfl, fun h => nomatch h⟩
    · exact emitEvent_replicates J net hd ht root true s (by rw [htx, hc]; rfl)

theorem deleteKey_replicates (key root : String) (e : List Bool) (s : KV) :
    Replicates J root (e.headD true) s (deleteKey J net key root e s).2 :=
  deleteWith_replicates J net "delete:key" (by decide) deleteKeyTx key root (fun _ => rfl) e s

theorem deleteBucket_replicates (key root : String) (e : List Bool) (s : KV) :
    Replicates J root (e.headD true) s (deleteBucket J net key root e s).2 :=
  deleteWith_replicates J net "delete:bucket" (by decide) deleteBucketTx key root (fun _ => rfl) e s

/-- With emission on, a delete reports what the transport answered and not
what its transaction did: a transaction that failed still emits its update,
which always encodes (`marshalUpdate_ok`), and the call returns nil when the
transport does. -/
theorem deleteWith_failed_emits (t : String)
    (tx : List String → String → String → Bucket → Except Fault Bucket) (key root : String)
    {s : KV} {err : Error} (hc : tx (parsePath key).1 (parsePath key).2 root s.db = .error (.error err))
    {data : Bytes} (hd : J.marshalUpdate ⟨t, key, .empty⟩ = .ok data)
    (hn : net.answer s.sent.length = none) :
    deleteWith J net t tx key root [] s =
      (.ok (), { s with sent := s.sent ++ [⟨"update", data, "KVUpdate"⟩] }) := by
  simp only [deleteWith_apply, hc, List.headD_nil, if_true, emitEvent_apply, hd, emit_apply, hn]

theorem delete_failure_unreported :
    deleteKey Codec.json ⟨fun _ => none⟩ "x/y" "kv" [] (newKV []) =
      (.ok (), ⟨(newKV []).db,
        [⟨"update", Codec.update.enc ⟨"delete:key", "x/y", .empty⟩, "KVUpdate"⟩]⟩) ∧
    deleteBucket Codec.json ⟨fun _ => none⟩ "a" "kv" [] (newKV []) =
      (.ok (), ⟨(newKV []).db,
        [⟨"update", Codec.update.enc ⟨"delete:bucket", "a", .empty⟩, "KVUpdate"⟩]⟩) :=
  ⟨deleteWith_failed_emits Codec.json _ "delete:key" deleteKeyTx "x/y" "kv" (s := newKV []) rfl rfl rfl,
    deleteWith_failed_emits Codec.json _ "delete:bucket" deleteBucketTx "a" "kv" (s := newKV []) rfl rfl
      rfl⟩

/-- `Lock` replicates, whatever it was asked: it writes through `PutObject` with
emission on. -/
theorem lock_replicates (c : Claim) (key root : String) (e : List Bool) (s : KV) :
    Replicates J root true s (lock J net c key root e s).2 := by
  rw [lock_apply]
  cases readObject J s.db key root with
  | error _ => exact replicates_rfl J root true s
  | ok obj => exact putObject_replicates J net key _ root _ [true] s

theorem unlock_replicates (l : Lock) (e : List Bool) (s : KV) :
    Replicates J l.root true s (unlock J net l e s).2 := by
  rw [unlock_apply]
  cases readObject J s.db l.key l.root with
  | error _ => exact replicates_rfl J _ true s
  | ok obj =>
    dsimp only
    split
    · exact replicates_rfl J _ true s
    · exact putObject_replicates J net _ _ _ _ [true] s

/-! ## The apply path -/

/-- A peer that receives an update a call emitted runs the transaction the
update stands for, under `kv`. -/
theorem handleUpdate_replicated {u : KVUpdate} {msg : Message}
    (hd : J.marshalUpdate u = .ok msg.data) (hu : u.updateType ∈ replicatedTypes)
    (c : Claim) (p : KV) :
    (handleUpdate J net c msg p).2.db = applyUpdate J "kv" u p.db := by
  have hm := J.unmarshalUpdate_marshalUpdate hd
  obtain ⟨t, key, v⟩ := u
  simp only [replicatedTypes, List.mem_cons, List.mem_singleton, List.not_mem_nil,
    or_false] at hu
  rcases hu with rfl | rfl | rfl
  · simp only [handleUpdate, hm, Except.mapError, bind_apply, ofJson_apply, putObject_db,
      KVUpdate.stripMonotonic_updateType, KVUpdate.stripMonotonic_key,
      KVUpdate.stripMonotonic_value, J.marshalObject_stripMonotonic]
    unfold applyUpdate
    cases J.marshalObject v <;> rfl
  · simp [handleUpdate, hm, Except.mapError, deleteKey, deleteWith_db, applyUpdate]
  · simp [handleUpdate, hm, Except.mapError, deleteBucket, deleteWith_db, applyUpdate]

/-- A `lock:create` update that takes effect on a node is emitted again: `Lock`
hands `PutObject` emission on, whatever `handleUpdate` handed it. -/
theorem handleUpdate_lock_emits {msg : Message} {key : String} {v : KVObject}
    (hu : J.unmarshalUpdate msg.data = .ok ⟨"lock:create", key, v⟩) (c : Claim) (p : KV)
    (hdb : (handleUpdate J net c msg p).2.db ≠ p.db) :
    ∃ data, (handleUpdate J net c msg p).2.sent = p.sent ++ [⟨"update", data, "KVUpdate"⟩] := by
  have hs : (handleUpdate J net c msg p).2 = (lock J net c key "kv" [false] p).2 := by
    simp only [handleUpdate, bind_apply, ofJson_apply, hu, Except.mapError]
    split
    · next r _ h => rw [h]; rcases r with ⟨_, _ | _⟩ <;> rfl
    · simp_all
  rw [hs] at hdb ⊢
  rcases lock_replicates J net c key "kv" [false] p with ⟨-, h⟩ | ⟨_, data, h, -⟩
  · exact absurd (h rfl) hdb
  · exact ⟨data, h⟩

theorem lock_create_reemitted :
    (handleUpdate Codec.json ⟨fun _ => none⟩ ⟨"n", "l", "a", Time.zero, Time.zero⟩
      ⟨"update", Codec.update.enc ⟨"lock:create", "k", .empty⟩, "KVUpdate"⟩
      (putObject Codec.json ⟨fun _ => none⟩ "k" .empty "kv" false [false] (newKV [])).2).2.sent.length
      = 1 := by
  obtain ⟨data, h⟩ := @handleUpdate_lock_emits Codec.json ⟨fun _ => none⟩
    ⟨"update", Codec.update.enc ⟨"lock:create", "k", .empty⟩, "KVUpdate"⟩ "k" .empty rfl
    ⟨"n", "l", "a", Time.zero, Time.zero⟩
    (putObject Codec.json ⟨fun _ => none⟩ "k" .empty "kv" false [false] (newKV [])).2 (by decide)
  rw [h]
  rfl

/-- A `lock:delete` update runs `Unlock` of the lock its envelope's data
decodes to. -/
theorem handleUpdate_unlock {msg : Message} {key : String} {v : KVObject} {l : Lock}
    (hu : J.unmarshalUpdate msg.data = .ok ⟨"lock:delete", key, v⟩)
    (hl : J.unmarshalLock v.data = .ok l) (c : Claim) (p : KV) :
    handleUpdate J net c msg p = unlock J net l [false] p := by
  simp only [handleUpdate, bind_apply, ofJson_apply, hu, hl, Except.mapError]

/-- `Unlock` of a lock id the envelope does not hold panics: the search leaves
the index at -1, and the slice expression is out of bounds. -/
theorem unlock_absent_panics {l : Lock} {obj : KVObject} {s : KV}
    (hr : readObject J s.db l.key l.root = .ok obj) (ha : ∀ x ∈ obj.locks, x.lockId ≠ l.lockId)
    (e : List Bool) :
    unlock J net l e s = (.error (.panic "runtime error: slice bounds out of range [:-1]"), s) := by
  have hn : obj.locks.findIdx? (fun x => x.lockId = l.lockId) = none := by
    simpa using ha
  have hi : lockIndex l.lockId obj.locks = -1 := by simp only [lockIndex, hn]
  rw [unlock_apply, hr]
  simp only [hi]
  rfl

theorem unlock_absent_lock_panics :
    (handleUpdate Codec.json ⟨fun _ => none⟩ ⟨"n", "l", "a", Time.zero, Time.zero⟩
      ⟨"update", Codec.update.enc ⟨"lock:delete", "k",
        ⟨Time.zero, false, Codec.lock.enc (Claim.lockOn ⟨"n", "l", "a", Time.zero, Time.zero⟩ "k" "kv"),
          [], false⟩⟩, "KVUpdate"⟩
      (putObject Codec.json ⟨fun _ => none⟩ "k" .empty "kv" false [false] (newKV [])).2).1 =
      .error (.panic "runtime error: slice bounds out of range [:-1]") := by
  rw [@handleUpdate_unlock Codec.json _ ⟨"update", Codec.update.enc ⟨"lock:delete", "k",
      ⟨Time.zero, false, Codec.lock.enc (Claim.lockOn ⟨"n", "l", "a", Time.zero, Time.zero⟩ "k" "kv"),
        [], false⟩⟩, "KVUpdate"⟩ _ _ _ rfl rfl]
  exact congrArg Prod.fst (unlock_absent_panics Codec.json _ (by rfl) (by decide) _)

end Calls

/-! ## Local mutations -/

namespace Mutation

theorem run_lock_state (J : Json) (net : Cluster) (e : List Bool) (c : Claim) (key root : String)
    (s : KV) : ((lock c key root).run J net e s).2 = (Cave.lock J net c key root e s).2 := by
  simp only [run, bind_apply]; split <;> simp_all

/-- Every local mutation leaves what `Replicates` says. -/
theorem run_replicates (J : Json) (net : Cluster) (e : List Bool) (m : Mutation) (s : KV) :
    Replicates J m.root (e.headD true) s (m.run J net e s).2 := by
  cases m with
  | put now key value root secret => exact putObject_replicates J net key _ root secret e s
  | putObject key v root secret => exact putObject_replicates J net key v root secret e s
  | deleteKey => exact deleteKey_replicates J net _ _ e s
  | deleteBucket => exact deleteBucket_replicates J net _ _ e s
  | lock c key root =>
    rw [run_lock_state]; exact (lock_replicates J net c key root e s).of_true _
  | unlock l => exact (unlock_replicates J net l e s).of_true _

end Mutation

/-- Replication simulates the local mutation: the message a mutation under `kv`
emits takes a peer that holds the same store to the store the mutation left,
whatever the mutation returned. -/
theorem apply_replays_mutation (J : Json) (net net' : Cluster) (c : Claim) (m : Mutation)
    (e : List Bool) (s p : KV) (msg : Message) (hroot : m.root = "kv")
    (hemit : (m.run J net e s).2.sent = s.sent ++ [msg]) (hp : p.db = s.db) :
    (handleUpdate J net' c msg p).2.db = (m.run J net e s).2.db := by
  rcases m.run_replicates J net e s with ⟨hs, -⟩ | ⟨u, data, hs, hd, hu, hdb⟩
  · rw [hs] at hemit
    exact absurd (congrArg List.length hemit) (by simp)
  · rw [hs, List.append_cancel_left_eq, List.singleton_inj] at hemit
    subst hemit
    rw [handleUpdate_replicated J net' hd hu, hdb, hp, hroot]

theorem apply_replays_put_fresh :
    (handleUpdate Codec.json ⟨fun _ => none⟩ ⟨"n", "l", "a", Time.zero, Time.zero⟩
        ⟨"update", Codec.update.enc ⟨"put:key", "a/b", ⟨Time.zero, false, [7], [], false⟩⟩,
          "KVUpdate"⟩ (newKV [])).2.db =
      ((Mutation.put Time.zero "a/b" [7] "kv" false).run Codec.json ⟨fun _ => none⟩ []
        (newKV [])).2.db :=
  apply_replays_mutation Codec.json _ _ _ _ [] _ _ _ rfl (by decide) rfl

end Cave
