import Cave.Model.Path
import Cave.Model.Go

/-!
# The KV engine

The methods of `KV` in `kv.go`, each a call on a node. `J` is `encoding/json` and
`net` the cluster transport; both are fixed for a node. A method's trailing
`e ...bool` is the list `e`, read as `e[0]` when present, true otherwise.

Each mutation runs one closure in one write transaction and emits afterwards,
outside it. The closures are separate definitions (`putObjectTx`,
`deleteKeyTx`, ...), so that what a transaction does to the database can be
stated apart from what the call around it returns and emits. `Lock` and
`Unlock` read the envelope in one transaction and write it in another, through
`PutObject`, to which they pass `true` whatever they were given.
-/

namespace Cave

open Go

/-- `getBuckets`: the root bucket `root`, then the walk down `buckets`; returned
with the handle's write-back into the database. A missing root bucket is a nil
`*bbolt.Bucket`, which panics at its first use. -/
def getBuckets (db : Bucket) (buckets : List String) (root : String) (create : Bool) :
    Except Fault (Bucket × (Bucket → Bucket)) :=
  match db.bucket root with
  | none => .error nilBucket
  | some b => do
    let (d, set) ← descend create buckets b
    pure (d, fun d' => db.insert root (.bucket (set d')))

/-- The closure `newKV` runs when it opens the database: the root buckets `kv`
and `_system`. -/
def newKVTx (db : Bucket) : Except Fault Bucket := do
  let kv ← (db.createBucketIfNotExists "kv").mapError .error
  let db := db.insert "kv" (.bucket kv)
  let sys ← (db.createBucketIfNotExists "_system").mapError .error
  pure (db.insert "_system" (.bucket sys))

/-- The node `newKV` makes from the database file `db`; the transaction's
error is not checked. -/
def newKV (db : Bucket) : KV := ⟨Go.commit (newKVTx db) db, []⟩

/-- The write closures of `PutObject`, `DeleteKey` and `DeleteBucket` share one
shape: `getBuckets`, one method of the bucket it returns, and nil. -/
def writeTx (buckets : List String) (root : String) (create : Bool)
    (f : Bucket → Except Error Bucket) (db : Bucket) : Except Fault Bucket := do
  let (b, set) ← getBuckets db buckets root create
  let b ← (f b).mapError .error
  pure (set b)

/-- The closure of `PutObject`: the chain created, then `b.Put(k, bobj)`. -/
def putObjectTx (buckets : List String) (k : String) (bobj : Bytes) (root : String) :
    Bucket → Except Fault Bucket :=
  writeTx buckets root true fun b => b.put k bobj

/-- The closure of `GetObject`: the bytes it captures, nil for a missing leaf. -/
def getObjectTx (buckets : List String) (k : String) (root : String) (db : Bucket) :
    Except Fault Bytes := do
  let (b, _) ← getBuckets db buckets root false
  pure ((b.get k).getD [])

/-- The closure of `GetKeys`: the entries of the bucket, a `/` after each
nested bucket. A key naming no bucket leaves the cursor's bucket nil. -/
def getKeysTx (buckets : List String) (k : String) (root : String) (db : Bucket) :
    Except Fault (List String) := do
  let (b, _) ← getBuckets db buckets root false
  let bkt ← if k = "" then pure b else match b.bucket k with
    | some c => pure c
    | none => throw nilBucket
  pure (bkt.map fun (ea, n) => ea ++ match n with
    | .bucket _ => "/"
    | .value _ => "")

/-- `m[k] = v` on a Go map, the map held as its entries in the order their keys
were first set. The maps `enumerateBucket` builds have the shape of buckets, and
`Node` serves for their values: `.value` is a `json.RawMessage`, `.bucket` a
nested map. -/
def setKey : List (String × Node) → String → Node → List (String × Node)
  | [], k, v => [(k, v)]
  | (k', v') :: m, k, v => if k' = k then (k, v) :: m else (k', v') :: setKey m k v

mutual

/-- What `enumerateBucket` puts under a key of the cursor: the nested bucket
enumerated in its turn, or the value as its raw bytes. -/
def Node.enumerate : Node → Node
  | .bucket c => .bucket (enumerateBucket c [])
  | .value v => .value v

/-- The loop of `enumerateBucket` over the cursor, from the map `tree` built so
far. -/
def enumerateBucket : Bucket → List (String × Node) → List (String × Node)
  | [], tree => tree
  | (ea, n) :: es, tree => enumerateBucket es (setKey tree ea n.enumerate)

end

/-- The closure of `GetTree`: the bucket the walk reaches, enumerated. -/
def getTreeTx (buckets : List String) (root : String) (db : Bucket) :
    Except Fault (List (String × Node)) := do
  let (b, _) ← getBuckets db buckets root false
  pure (enumerateBucket b [])

/-- The closure of `DeleteKey`: `b.Delete(k)`. -/
def deleteKeyTx (buckets : List String) (k : String) (root : String) :
    Bucket → Except Fault Bucket :=
  writeTx buckets root false fun b => b.delete k

/-- The closure of `DeleteBucket`: `b.DeleteBucket(k)`. -/
def deleteBucketTx (buckets : List String) (k : String) (root : String) :
    Bucket → Except Fault Bucket :=
  writeTx buckets root false fun b => b.deleteBucket k

section Methods

variable (J : Json) (net : Cluster)

/-- `emitEvent`: the update, marshalled, handed to the transport as an `update`
message. -/
def emitEvent (t key : String) (value : KVObject) : Go Unit := do
  let update ← ofJson (J.marshalUpdate ⟨t, key, value⟩)
  emit net ⟨"update", update, "KVUpdate"⟩

/-- `PutObject`. Its `secret` argument is not read. -/
def putObject (key : String) (value : KVObject) (root : String) (secret : Bool)
    (e : List Bool) : Go Unit := do
  let emit := e.headD true
  let (buckets, k) := parsePath key
  let bobj ← ofJson (J.marshalObject value)
  update (putObjectTx buckets k bobj root)
  if emit then emitEvent J net "put:key" key value

/-- `Put`: the bytes in a fresh envelope. Whether they parse as JSON decides
`plaintext`; the data is the same bytes either way. -/
def put (now : Time) (key : String) (value : Bytes) (root : String) (secret : Bool)
    (e : List Bool) : Go Unit :=
  let isPlain := !J.valid value
  putObject J net key ⟨now, secret, value, [], isPlain⟩ root secret e

/-- `GetObject`. The read transaction's own error is lost: `err` is reassigned
by the decoding of the captured bytes, which stay empty. -/
def getObject (key root : String) : Go KVObject := do
  let (buckets, k) := parsePath key
  let r ← capture (view (getObjectTx buckets k root))
  let bobj := match r with
    | .ok v => v
    | .error _ => []
  ofJson (J.unmarshalObject bobj)

/-- `Get`. -/
def get (key root : String) : Go Bytes := do
  let o ← getObject J key root
  pure o.data

/-- `GetKeys`. -/
def getKeys (key root : String) : Go (List String) :=
  let (buckets, k) := parsePath key
  view (getKeysTx buckets k root)

/-- `GetTree`: the tree of `root`. `parsePath("")` gives no bucket and the
empty key, so the walk stops at the root. A missing root is a nil bucket, which
the enumeration dereferences. -/
def getTree (root : String) : Go (List (String × Node)) :=
  let (buckets, k) := parsePath ""
  let buckets := if k ≠ "" then buckets ++ [k] else buckets
  view (getTreeTx buckets root)

/-- The body `DeleteKey` and `DeleteBucket` share: the closure `tx` in one write
transaction, then the event `t`. When it emits, the transaction's error is
replaced by the emit's. -/
def deleteWith (t : String) (tx : List String → String → String → Bucket → Except Fault Bucket)
    (key root : String) (e : List Bool) : Go Unit := do
  let emit := e.headD true
  let (buckets, k) := parsePath key
  let err ← capture (update (tx buckets k root))
  if emit then emitEvent J net t key KVObject.empty
  else ofError err

/-- `DeleteKey`. -/
def deleteKey (key root : String) (e : List Bool) : Go Unit :=
  deleteWith J net "delete:key" deleteKeyTx key root e

/-- `DeleteBucket`. -/
def deleteBucket (key root : String) (e : List Bool) : Go Unit :=
  deleteWith J net "delete:bucket" deleteBucketTx key root e

/-- What `Lock` draws from outside on each call: `machineid.ID()`, whose error is
dropped, a fresh `uuid.New()`, the cluster node's address, and its two readings
of `time.Now()`. -/
structure Claim where
  nodeId : String
  lockId : String
  nodeAddress : String
  claimNow : Time
  expireNow : Time
deriving Repr, DecidableEq

/-- `5 * time.Minute`, in nanoseconds. -/
def lockTTL : Int := 300000000000

/-- The `Lock` record `Lock` builds for `key` under `root`. -/
def Claim.lockOn (c : Claim) (key root : String) : Lock :=
  ⟨key, root, c.lockId, c.nodeId, c.nodeAddress, c.claimNow, c.expireNow.add lockTTL⟩

/-- `Lock`: the lock built first, then the envelope read, the lock appended and
the envelope written back. The lock is returned with the error of the read or
the write, nil or not. -/
def lock (c : Claim) (key root : String) (e : List Bool) : Go (Lock × Option Error) := do
  let l := c.lockOn key root
  let err ← capture do
    let obj ← getObject J key root
    let obj := { obj with locks := obj.locks ++ [l] }
    putObject J net key obj root obj.secret [true]
  pure (l, match err with
    | .ok () => none
    | .error err => some err)

/-- The `for idx, l := range obj.Locks` search of `Unlock`: the first position
holding lock id `id`, or -1. -/
def lockIndex (id : String) (locks : List Lock) : Int :=
  match locks.findIdx? fun l => l.lockId = id with
  | some i => i
  | none => -1

/-- A Go run-time panic. -/
def runtimePanic (text : String) : Go α := fun s => (.error (.panic text), s)

/-- `append(s[:index], s[index+1:]...)`: the slice without position `index`. A
negative `index` is outside the slice's bounds, and Go panics. -/
def removeAt (s : List Lock) (index : Int) : Go (List Lock) :=
  if index < 0 then runtimePanic ("runtime error: slice bounds out of range [:" ++ toString index ++ "]")
  else pure (s.take index.toNat ++ s.drop (index.toNat + 1))

/-- `Unlock`: the envelope read, the lock dropped, the envelope written back. -/
def unlock (lock : Lock) (e : List Bool) : Go Unit := do
  let obj ← getObject J lock.key lock.root
  let index := lockIndex lock.lockId obj.locks
  let locks ← removeAt obj.locks index
  let obj := { obj with locks }
  putObject J net lock.key obj lock.root obj.secret [true]

/-- `handleUpdate`: one message of the `updates` channel applied to the store,
under `kv` and with emission off. An unknown type is logged and dropped. -/
def handleUpdate (c : Claim) (msg : Message) : Go Unit := do
  let kvu ← ofJson (J.unmarshalUpdate msg.data)
  match kvu.updateType with
  | "put:key" => putObject J net kvu.key kvu.value "kv" kvu.value.secret [false]
  | "delete:key" => deleteKey J net kvu.key "kv" [false]
  | "delete:bucket" => deleteBucket J net kvu.key "kv" [false]
  | "lock:create" => do
    let (_, err) ← lock J net c kvu.key "kv" [false]
    check err
  | "lock:delete" => do
    let l ← ofJson (J.unmarshalLock kvu.value.data)
    unlock J net l [false]
  | _ => pure ()

end Methods

end Cave
