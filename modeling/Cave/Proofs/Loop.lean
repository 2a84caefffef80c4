import Cave.Proofs.Replication
import Cave.Proofs.Store

/-!
# The update loop

`start` hands each message of the `updates` channel to `handleUpdate` and goes
on after an error it returns. A panic has no `recover` on its way up: it ends
the process, and the loop with it (`updateLoop`).

The messages a node emits carry replicated updates (`carried`): `put:key`,
`delete:key` and `delete:bucket`. On such a message `handleUpdate` runs the
update's write transaction under `kv` and nothing else. That transaction panics
only where `kv` itself is missing, since every other failure on its way is an
error returned; and on a store without `kv` no update under `kv` writes
anything. So whether the loop stops early or not, it leaves the start store
with the carried updates applied in turn (`updateLoop_carried`): a stop happens
on a store that none of the later updates would have changed.
-/

namespace Cave

open Go

/-! ## Calls on a store with its root bucket

On a node whose root bucket exists nothing the engine does panics: the walks of
`getBuckets` fail with errors, and the encoders, the transport and the bucket
methods return theirs. -/

/-- A result that is not a panic: a value, or an error returned. -/
def NoPanic (r : Except Fault α) : Prop := ∀ m, r ≠ .error (.panic m)

theorem child_noPanic (b : Bucket) (name : String) (create : Bool) :
    NoPanic (b.child name create) := fun m h => by
  cases create
  · rw [child_false] at h; split at h <;> cases h
  · revert h
    simp only [Bucket.child, if_true]
    cases b.createBucketIfNotExists name <;> simp [Except.mapError]

theorem descend_noPanic {create : Bool} : ∀ {ps : List String} {b : Bucket},
    NoPanic (descend create ps b)
  | [], _, _, h => by simp [descend] at h
  | _ :: _, _, m, h =>
    (descend_cons_error h).elim (child_noPanic _ _ _ m) fun ⟨_, _, hd⟩ => descend_noPanic m hd

section Engine

variable {db : Bucket} {root : String} (hb : (db.bucket root).isSome)
include hb

theorem getBuckets_noPanic (bs : List String) (c : Bool) : NoPanic (getBuckets db bs root c) :=
  fun m h => (getBuckets_error h).elim (fun ⟨hn, _⟩ => by simp [hn] at hb)
    fun ⟨_, _, hd⟩ => descend_noPanic m hd

theorem writeTx_noPanic (bs : List String) (c : Bool) (f : Bucket → Except Error Bucket) :
    NoPanic (writeTx bs root c f db) := fun m h => by
  rcases hg : getBuckets db bs root c with e | ⟨d, set⟩
  · simp only [writeTx, hg, bind, Except.bind, Except.error.injEq] at h
    exact getBuckets_noPanic hb bs c m (h ▸ hg)
  · cases hf : f d <;>
      simp [writeTx, hg, hf, bind, Except.bind, Except.mapError, pure, Except.pure] at h

theorem readObject_noPanic (J : Json) (key : String) : NoPanic (readObject J db key root) :=
  fun m h => by
    rw [readObject_of_bucket J hb] at h
    simp only [Except.mapError] at h
    split at h <;> simp_all

end Engine

section Calls

variable (J : Json) (net : Cluster) (C : Crypto) {s : KV}

theorem emitEvent_noPanic (t key : String) (v : KVObject) (s : KV) :
    NoPanic (emitEvent J net t key v s).1 := fun m => by
  rw [emitEvent_apply]
  split
  · simp
  · rw [emit_apply]; split <;> simp

variable {root : String} (hb : (s.db.bucket root).isSome)
include hb

theorem get_noPanic (key : String) : NoPanic (get J key root s).1 := fun m h => by
  rw [get_apply] at h
  cases hr : readObject J s.db key root with
  | ok _ => simp [hr, Except.map] at h
  | error f =>
    simp only [hr, Except.map, Except.error.injEq] at h
    exact readObject_noPanic hb J key m (h ▸ hr)

theorem putObject_noPanic (key : String) (v : KVObject) (secret : Bool) (e : List Bool) :
    NoPanic (putObject J net key v root secret e s).1 := fun m h => by
  rw [putObject_apply] at h
  split at h
  · simp at h
  · split at h
    · next f hw =>
      obtain rfl : f = .panic m := by simpa using h
      exact writeTx_noPanic hb _ _ _ m hw
    · split at h
      · exact emitEvent_noPanic J net _ _ _ _ m h
      · simp at h

theorem put_noPanic (now : Time) (key : String) (value : Bytes) (secret : Bool) (e : List Bool) :
    NoPanic (put J net now key value root secret e s).1 :=
  putObject_noPanic J net hb key _ secret e

/-- The deletes: a write transaction that walks without creating, then the
event. -/
theorem deleteWith_noPanic (t key : String) (f : String → Bucket → Except Error Bucket)
    (e : List Bool) :
    NoPanic (deleteWith J net t (fun bs k root => writeTx bs root false (f k)) key root e s).1 :=
  fun m h => by
    rw [deleteWith_apply] at h
    split at h
    · next m' hp => exact writeTx_noPanic hb _ _ _ m' hp
    all_goals
      split at h
      · exact emitEvent_noPanic J net _ _ _ _ m h
      · simp at h

theorem deleteKey_noPanic (key : String) (e : List Bool) :
    NoPanic (deleteKey J net key root e s).1 :=
  deleteWith_noPanic J net hb "delete:key" key (fun k b => b.delete k) e

theorem deleteBucket_noPanic (key : String) (e : List Bool) :
    NoPanic (deleteBucket J net key root e s).1 :=
  deleteWith_noPanic J net hb "delete:bucket" key (fun k b => b.deleteBucket k) e

end Calls
/-! ## Updates in turn -/

section Updates

variable {J : Json} {root : String}

/-- The updates of `A` applied in turn under `root`. -/
def applyAll (J : Json) (root : String) (A : List KVUpdate) (db : Bucket) : Bucket :=
  A.foldl (fun db u => applyUpdate J root u db) db

@[simp] theorem applyAll_nil (db : Bucket) : applyAll J root [] db = db := rfl

@[simp] theorem applyAll_cons (u : KVUpdate) (A : List KVUpdate) (db : Bucket) :
    applyAll J root (u :: A) db = applyAll J root A (applyUpdate J root u db) := rfl

theorem applyAll_append (A B : List KVUpdate) (db : Bucket) :
    applyAll J root (A ++ B) db = applyAll J root B (applyAll J root A db) :=
  List.foldl_append _ _ _ _

theorem applyAll_concat (A : List KVUpdate) (u : KVUpdate) (db : Bucket) :
    applyAll J root (A ++ [u]) db = applyUpdate J root u (applyAll J root A db) :=
  List.foldl_concat _ _ _ _

/-- Under a missing root bucket a write transaction gets the nil bucket from
`getBuckets` and panics. -/
theorem writeTx_of_missing {db : Bucket} (h : db.bucket root = none) (bs : List String) (c : Bool)
    (f : Bucket → Except Error Bucket) : writeTx bs root c f db = .error nilBucket := by
  simp [writeTx, getBuckets, h, bind, Except.bind]

/-- Under a missing root bucket no update writes anything. -/
theorem applyUpdate_of_missing {db : Bucket} (h : db.bucket root = none) (u : KVUpdate) :
    applyUpdate J root u db = db := by
  unfold applyUpdate
  split
  · split <;> simp only [putObjectTx, writeTx_of_missing h, commit]
  · simp only [deleteKeyTx, writeTx_of_missing h, commit]
  · simp only [deleteBucketTx, writeTx_of_missing h, commit]
  · rfl

theorem applyAll_of_missing {db : Bucket} (h : db.bucket root = none) :
    ∀ A : List KVUpdate, applyAll J root A db = db
  | [] => rfl
  | u :: A => by rw [applyAll_cons, applyUpdate_of_missing h, applyAll_of_missing h A]

end Updates

/-- A replicated update and its copy without monotonic clock readings write the
same bytes. -/
theorem applyUpdate_stripMonotonic (J : Json) (root : String) (u : KVUpdate) (db : Bucket) :
    applyUpdate J root u.stripMonotonic db = applyUpdate J root u db := by
  simp only [applyUpdate, KVUpdate.stripMonotonic_updateType, KVUpdate.stripMonotonic_key,
    KVUpdate.stripMonotonic_value, J.marshalObject_stripMonotonic]

/-! ## Messages that carry an update -/

/-- The replicated update a message carries, if it decodes to one. -/
def carried (J : Json) (m : Message) : Option KVUpdate :=
  match J.unmarshalUpdate m.data with
  | .ok u => if u.updateType ∈ replicatedTypes then some u else none
  | .error _ => none

section Carried

variable (J : Json)

theorem carried_of_marshal {u : KVUpdate} {data : Bytes} (hd : J.marshalUpdate u = .ok data)
    (hu : u.updateType ∈ replicatedTypes) (m : Message) (hm : m.data = data) :
    carried J m = some u.stripMonotonic := by
  simp [carried, hm, J.unmarshalUpdate_marshalUpdate hd, hu]

end Carried

/-- A message that carries a replicated update makes no store with its `kv`
bucket panic: `handleUpdate` runs `PutObject`, `DeleteKey` or `DeleteBucket`
under `kv`. -/
theorem handleUpdate_noPanic (J : Json) (net : Cluster) {m : Message} {u : KVUpdate}
    (hc : carried J m = some u) {s : KV} (hb : (s.db.bucket "kv").isSome) (c : Claim) :
    NoPanic (handleUpdate J net c m s).1 := by
  unfold carried at hc
  split at hc
  · next w hd =>
    split_ifs at hc with hu
    obtain ⟨t, key, v⟩ := w
    simp only [replicatedTypes, List.mem_cons, List.mem_singleton, List.not_mem_nil, or_false] at hu
    rcases hu with rfl | rfl | rfl <;>
      simp only [handleUpdate, hd, bind_apply, ofJson_apply, Except.mapError]
    · exact putObject_noPanic J net hb key v _ _
    · exact deleteKey_noPanic J net hb key _
    · exact deleteBucket_noPanic J net hb key _
  · cases hc


section Loop

variable (J : Json) (net : Cluster) (c : Claim)

/-- A message that decodes to a replicated update makes `handleUpdate` apply the
update under `kv` and send nothing: emission is off. -/
theorem handleUpdate_apply {msg : Message} {u : KVUpdate} (hd : J.unmarshalUpdate msg.data = .ok u)
    (hu : u.updateType ∈ replicatedTypes) (p : KV) :
    (handleUpdate J net c msg p).2 = { p with db := applyUpdate J "kv" u p.db } := by
  obtain ⟨t, key, v⟩ := u
  simp only [replicatedTypes, List.mem_cons, List.mem_singleton, List.not_mem_nil, or_false] at hu
  rcases hu with rfl | rfl | rfl
  · simp only [handleUpdate, hd, bind_apply, ofJson_apply, Except.mapError, putObject_apply,
      applyUpdate]
    cases J.marshalObject v with
    | error => rfl
    | ok bobj => cases h : putObjectTx (parsePath key).1 (parsePath key).2 bobj "kv" p.db <;> simp [h, commit]
  · simp only [handleUpdate, hd, bind_apply, ofJson_apply, Except.mapError, deleteKey,
      deleteWith_apply, applyUpdate]
    split <;> rename_i h <;> simp [h, commit]
  · simp only [handleUpdate, hd, bind_apply, ofJson_apply, Except.mapError, deleteBucket,
      deleteWith_apply, applyUpdate]
    split <;> rename_i h <;> simp [h, commit]

theorem handleUpdate_carried {msg : Message} {u : KVUpdate} (h : carried J msg = some u) (p : KV) :
    (handleUpdate J net c msg p).2 = { p with db := applyUpdate J "kv" u p.db } := by
  unfold carried at h
  split at h
  · next hd => split_ifs at h with hu; cases h; exact handleUpdate_apply J net c hd hu p
  · cases h

/-- `handleUpdate` panics on a message carrying a replicated update only on a
store without `kv`. -/
theorem missing_of_panicked {m : Message} {u : KVUpdate} (hc : carried J m = some u) {p : KV}
    (h : panicked (handleUpdate J net c m p).1 = true) : p.db.bucket "kv" = none := by
  cases hb : p.db.bucket "kv" with
  | none => rfl
  | some _ =>
    have hn := handleUpdate_noPanic J net hc (s := p) (by simp [hb]) c
    rcases hr : (handleUpdate J net c m p).1 with (_ | t) | _ <;> rw [hr] at h <;>
      simp only [panicked, Bool.false_eq_true] at h
    exact absurd hr (hn t)

/-- An update loop fed messages that each carry a replicated update applies
those updates in turn, whether or not it stops early. -/
theorem updateLoop_carried : ∀ {ms : List Message}, (∀ m ∈ ms, (carried J m).isSome) → ∀ p : KV,
    updateLoop J net c ms p = { p with db := applyAll J "kv" (ms.filterMap (carried J)) p.db }
  | [], _, _ => rfl
  | m :: ms, hc, p => by
    obtain ⟨u, hu⟩ := Option.isSome_iff_exists.mp (hc m (List.mem_cons_self m ms))
    rw [updateLoop, List.filterMap_cons_some hu, applyAll_cons]
    split
    · next hp =>
      rw [handleUpdate_carried J net c hu, applyAll_of_missing (by
        rw [applyUpdate_of_missing (missing_of_panicked J net c hu hp)]
        exact missing_of_panicked J net c hu hp)]
    · rw [updateLoop_carried (fun m' h => hc m' (List.mem_cons_of_mem m h)),
        handleUpdate_carried J net c hu]

/-- One more message emitted for a replicated update, after messages that carry
replicated updates: the loop applies it after the others. -/
theorem updateLoop_snoc {msgs : List Message} (hc : ∀ m ∈ msgs, (carried J m).isSome)
    {u : KVUpdate} {data : Bytes} (hd : J.marshalUpdate u = .ok data)
    (hu : u.updateType ∈ replicatedTypes) (p : KV) :
    (updateLoop J net c (msgs ++ [⟨"update", data, "KVUpdate"⟩]) p).db =
      applyUpdate J "kv" u (updateLoop J net c msgs p).db := by
  have hm := carried_of_marshal J hd hu ⟨"update", data, "KVUpdate"⟩ rfl
  rw [updateLoop_carried J net c hc, updateLoop_carried J net c (fun m h => by
    rcases List.mem_append.mp h with h | h
    · exact hc m h
    · rw [List.mem_singleton.mp h, hm]; rfl)]
  simp only [List.filterMap_append, List.filterMap_cons_some hm, List.filterMap_nil,
    applyAll_concat, applyUpdate_stripMonotonic]

end Loop

end Cave
