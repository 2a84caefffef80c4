import Cave.Proofs.Api

/-!
# Runs of the write paths

A node's store changes only through the calls that reach a write transaction:
a request on the KV router, a multi-query entry, `Lock` and `Unlock` over the
plugin RPC, and an update from a peer. `Op` lists them, and a reachable state
is what a list of them leaves behind a freshly opened store, up to the first
panic that ends the process (`Op.fatal`).

The handlers are checked once, for any property `I` of the database: each keeps
`I` when the engine methods it calls do (`kvHandler_keeps_of`,
`Op.call_keeps_of`); the read paths keep every property. Two kinds of `I` then
follow. One holds only for what the engine is handed (`EnvelopeInv`, next
file). The other survives every update applied under every root
(`UpdateStable`); since every write of the engine is an applied update
(`Replication.lean`), such an `I` holds of every reachable state as soon as it
holds of the fresh store (`Op.run_stable`).
-/

namespace Cave

open Go

/-- The calls that write a node's store: a request on the KV router, a
multi-query `PUT`/`POST` or `DELETE` entry, `Lock` and `Unlock` over the plugin
RPC, and an update from a peer. -/
inductive Op where
  | http (now : Time) (r : Request)
  | post (now : Time) (q : QueryObject)
  | delete (q : QueryObject)
  | lock (c : Claim) (key root : String)
  | unlock (l : Lock)
  | apply (c : Claim) (msg : Message)

namespace Op

/-- The call an op makes. -/
def call (J : Json) (net : Cluster) (C : Crypto) : Op → Go Unit
  | http now r => do let _ ← kvHandler J net C now r
  | post now q => do let _ ← doPOST J net C now q
  | delete q => do let _ ← doDELETE J net q
  | lock c key root => do let _ ← Cave.lock J net c key root []
  | unlock l => Cave.unlock J net l []
  | apply c msg => handleUpdate J net c msg

/-- Whether a panic of the op's call ends the process. `net/http` recovers the
panic of a request's goroutine and goes on serving; the goroutines of a
multi-query batch, of the plugin RPC and of the update loop recover nothing. -/
def fatal : Op → Bool
  | http _ _ => false
  | _ => true

/-- The node after `ops`, one after another, up to an op whose panic ends the
process: the node stays as that op left it. -/
def run (J : Json) (net : Cluster) (C : Crypto) : KV → List Op → KV
  | s, [] => s
  | s, op :: ops =>
    let r := op.call J net C s
    if panicked r.1 && op.fatal then r.2 else run J net C r.2 ops

end Op

section Handlers

variable {J : Json} {net : Cluster} {C : Crypto} {I : Bucket → Prop}

theorem getObject_keeps (key root : String) : Keeps I (getObject J key root) :=
  Keeps.of_db fun s => by rw [getObject_apply]

theorem getKeys_keeps (key root : String) : Keeps I (getKeys key root) :=
  Keeps.of_db fun _ => rfl

theorem get_keeps (key root : String) : Keeps I (get J key root) :=
  Keeps.bind_pure (getObject_keeps _ _) fun _ => ⟨_, rfl⟩

/-- `kvGetHandler` only reads. -/
theorem kvGetHandler_keeps (r : Request) : Keeps I (kvGetHandler J C r) := by
  unfold kvGetHandler treeHandler
  dsimp only
  split
  · exact Keeps.bind_pure (Keeps.capture (Keeps.view _)) fun a => by split <;> exact ⟨_, rfl⟩
  · split
    · refine Keeps.bind_pure (Keeps.capture (getKeys_keeps _ _)) fun a => ?_
      split
      · exact ⟨_, rfl⟩
      · split <;> exact ⟨_, rfl⟩
    · refine Keeps.bind_pure (Keeps.capture (get_keeps _ _)) fun a => ?_
      split
      · exact ⟨_, rfl⟩
      · split
        · exact ⟨_, rfl⟩
        · split
          · split <;> exact ⟨_, rfl⟩
          · exact ⟨_, rfl⟩

/-- `Put` as the write handlers call it: under `kv`, emission on, and with a
secret value that came out of `encrytJSON`. -/
def PutKeeps (J : Json) (net : Cluster) (C : Crypto) (I : Bucket → Prop) : Prop :=
  ∀ now key value secret, (secret = true → ∃ x, C.encrytJSON x = .ok value) →
    Keeps I (put J net now key value "kv" secret [])

theorem kvPutHandler_keeps_of (hput : PutKeeps J net C I) (now : Time) (r : Request) :
    Keeps I (kvPutHandler J net C now r) := by
  unfold kvPutHandler
  dsimp only
  split
  · exact Keeps.pure _
  · next buf _ =>
    split
    · exact Keeps.pure _
    · next data hd =>
      refine Keeps.bind_pure (Keeps.capture (hput _ _ _ _ (fun hs => ⟨.bytes buf, ?_⟩)))
        fun a => by split <;> exact ⟨_, rfl⟩
      simpa [of_decide_eq_true hs] using hd

theorem doPOST_keeps_of (hput : PutKeeps J net C I) (now : Time) (q : QueryObject) :
    Keeps I (doPOST J net C now q) := by
  unfold doPOST
  dsimp only
  split
  · exact Keeps.pure _
  · next data hd =>
    refine Keeps.bind_pure (Keeps.capture (hput _ _ _ _ (fun hs => ⟨.text q.value, ?_⟩)))
      fun a => by split <;> exact ⟨_, rfl⟩
    simpa [hs] using hd

theorem doDELETE_keeps_of (hk : ∀ key, Keeps I (deleteKey J net key "kv" [])) (q : QueryObject) :
    Keeps I (doDELETE J net q) :=
  Keeps.bind_pure (Keeps.capture (hk _)) fun a => by split <;> exact ⟨_, rfl⟩

theorem kvHandler_keeps_of (hput : PutKeeps J net C I)
    (hb : ∀ key, Keeps I (deleteBucket J net key "kv" []))
    (hk : ∀ key, Keeps I (deleteKey J net key "kv" [])) (now : Time) (r : Request) :
    Keeps I (kvHandler J net C now r) := by
  unfold kvHandler
  split
  · exact kvGetHandler_keeps r
  · exact kvPutHandler_keeps_of hput now r
  · exact kvDeleteHandler_keeps_of J net r (hb _) (hk _)
  · exact Keeps.pure _

/-- An op keeps `I` when every engine method it may call does. -/
theorem Op.call_keeps_of (hput : PutKeeps J net C I)
    (hb : ∀ key, Keeps I (deleteBucket J net key "kv" []))
    (hk : ∀ key, Keeps I (deleteKey J net key "kv" []))
    (hl : ∀ c key root, Keeps I (Cave.lock J net c key root []))
    (hu : ∀ l, Keeps I (Cave.unlock J net l [])) {op : Op}
    (ha : ∀ c msg, op = .apply c msg → Keeps I (handleUpdate J net c msg)) :
    Keeps I (op.call J net C) := by
  cases op with
  | http now r => exact Keeps.bind_pure (kvHandler_keeps_of hput hb hk now r) fun _ => ⟨_, rfl⟩
  | post now q => exact Keeps.bind_pure (doPOST_keeps_of hput now q) fun _ => ⟨_, rfl⟩
  | delete q => exact Keeps.bind_pure (doDELETE_keeps_of hk q) fun _ => ⟨_, rfl⟩
  | lock c key root => exact Keeps.bind_pure (hl c key root) fun _ => ⟨_, rfl⟩
  | unlock l => exact hu l
  | apply c msg => exact ha c msg rfl

/-- The induction over a run: what every op of it keeps holds at its end. -/
theorem Op.run_keeps {s : KV} (hs : I s.db) :
    ∀ {ops : List Op}, (∀ op ∈ ops, Keeps I (op.call J net C)) → I (Op.run J net C s ops).db
  | [], _ => hs
  | op :: ops, h => by
    have h₁ := h op (List.mem_cons_self op ops) s hs
    unfold Op.run
    dsimp only
    split
    · exact h₁
    · exact Op.run_keeps h₁ fun op' h' => h op' (List.mem_cons_of_mem op h')

end Handlers

/-! ## Properties every update keeps -/

/-- A property of databases that every update keeps, whatever its root. -/
def UpdateStable (J : Json) (I : Bucket → Prop) : Prop :=
  ∀ root u db, I db → I (applyUpdate J root u db)

section Stable

variable {J : Json} (net : Cluster) {I : Bucket → Prop} (hI : UpdateStable J I)
include hI

theorem putObject_stable (key : String) (v : KVObject) (root : String) (secret : Bool)
    (e : List Bool) : Keeps I (putObject J net key v root secret e) := fun s hs => by
  rw [putObject_applyUpdate]; exact hI _ _ _ hs

theorem put_stable (now : Time) (key : String) (value : Bytes) (root : String) (secret : Bool)
    (e : List Bool) : Keeps I (put J net now key value root secret e) :=
  putObject_stable net hI key _ root secret e

theorem deleteKey_stable (key root : String) (e : List Bool) :
    Keeps I (deleteKey J net key root e) := fun s hs => by
  rw [deleteKey_applyUpdate]; exact hI _ _ _ hs

theorem deleteBucket_stable (key root : String) (e : List Bool) :
    Keeps I (deleteBucket J net key root e) := fun s hs => by
  rw [deleteBucket_applyUpdate]; exact hI _ _ _ hs

theorem lock_stable (c : Claim) (key root : String) (e : List Bool) :
    Keeps I (lock J net c key root e) := fun s hs => by
  rw [lock_applyUpdate]; split
  · exact hs
  · exact hI _ _ _ hs

theorem unlock_stable (l : Lock) (e : List Bool) : Keeps I (unlock J net l e) := fun s hs => by
  rw [unlock_applyUpdate]; split
  · exact hs
  · dsimp only; split
    · exact hs
    · exact hI _ _ _ hs

theorem handleUpdate_stable (c : Claim) (msg : Message) : Keeps I (handleUpdate J net c msg) := by
  refine Keeps.ofJson_bind fun u _ => ?_
  split
  · exact putObject_stable net hI _ _ _ _ _
  · exact deleteKey_stable net hI _ _ _
  · exact deleteBucket_stable net hI _ _ _
  · exact Keeps.bind (lock_stable net hI c _ _ _) fun ⟨_, err⟩ => Keeps.check err
  · exact Keeps.ofJson_bind fun l _ => unlock_stable net hI l _
  · exact Keeps.pure _

/-- A property every update keeps holds after every run from a state where it
held. -/
theorem Op.run_stable (C : Crypto) {s : KV} (hs : I s.db) (ops : List Op) :
    I (Op.run J net C s ops).db :=
  Op.run_keeps hs fun _ _ =>
    Op.call_keeps_of (fun _ _ _ _ _ => put_stable net hI _ _ _ _ _ _)
      (fun _ => deleteBucket_stable net hI _ _ _) (fun _ => deleteKey_stable net hI _ _ _)
      (fun _ _ _ => lock_stable net hI _ _ _ _) (fun _ => unlock_stable net hI _ _)
      fun _ _ _ => handleUpdate_stable net hI _ _

end Stable

end Cave
