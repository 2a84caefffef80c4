/-!
# The records of the KV engine

`kv.go` stores `KVObject` envelopes, replicates `KVUpdate` records and embeds
`Lock` records in envelopes; `types.go` gives the cluster `Message`. They are
declared here with the fields the modelled code reads or writes, next to the
errors the engine returns and the two collaborators whose code is not in the
repository: `encoding/json`, given by the contract the engine relies on, and the
crypto box behind `encrytJSON` and `decryptJSON`.

Go strings are Lean strings. The data model admits UTF-8 paths only, so a path is
a list of characters, and cutting at the byte `/` is cutting at the character
`/`. Byte slices are lists of bytes, with nil and empty identified: no code here
tells them apart.
-/

namespace Cave

/-- A byte slice. -/
abbrev Bytes := List UInt8

/-- `time.Time`: nanoseconds since January 1 of year 1 UTC, the zone offset in
seconds, and the monotonic clock reading that `time.Now` attaches. -/
structure Time where
  wall : Int
  offset : Int
  mono : Option Int
deriving Repr, DecidableEq

namespace Time

/-- The zero `time.Time`. -/
def zero : Time := ⟨0, 0, none⟩

/-- `t.Add(d)`, `d` in nanoseconds: both clock readings move. -/
def add (t : Time) (d : Int) : Time := ⟨t.wall + d, t.offset, t.mono.map (· + d)⟩

/-- `t.Round(0)`: the time less its monotonic reading, which `MarshalJSON`
never writes. -/
def stripMonotonic (t : Time) : Time := { t with mono := none }

/-- `MarshalJSON` accepts the years 0 to 9999 of the time's own zone. -/
def inRange (t : Time) : Bool :=
  let l := t.wall + t.offset * 1000000000
  (-366) * 86400 * 1000000000 ≤ l && l < 3652059 * 86400 * 1000000000

end Time

/-- `Lock`: an advisory claim on a key. `root` is the Go field `Prefix`, the
root bucket the key lives under. -/
structure Lock where
  key : String
  root : String
  lockId : String
  nodeId : String
  nodeAddress : String
  claimTime : Time
  expireTime : Time
deriving Repr, DecidableEq

/-- `KVObject`: the envelope stored at every leaf. -/
structure KVObject where
  lastUpdated : Time
  secret : Bool
  data : Bytes
  locks : List Lock
  plaintext : Bool
deriving Repr, DecidableEq

/-- `KVUpdate`: the record a mutation is replicated as. -/
structure KVUpdate where
  updateType : String
  key : String
  value : KVObject
deriving Repr, DecidableEq

/-- `KVObject{}`. -/
def KVObject.empty : KVObject := ⟨Time.zero, false, [], [], false⟩

def Lock.stripMonotonic (l : Lock) : Lock :=
  { l with claimTime := l.claimTime.stripMonotonic,
           expireTime := l.expireTime.stripMonotonic }

def KVObject.stripMonotonic (v : KVObject) : KVObject :=
  { v with lastUpdated := v.lastUpdated.stripMonotonic,
           locks := v.locks.map Lock.stripMonotonic }

def KVUpdate.stripMonotonic (u : KVUpdate) : KVUpdate :=
  { u with value := u.value.stripMonotonic }

/-- Every timestamp of the envelope can be marshalled. -/
def KVObject.inRange (v : KVObject) : Bool :=
  v.lastUpdated.inRange && v.locks.all fun l => l.claimTime.inRange && l.expireTime.inRange

@[simp] theorem KVObject.stripMonotonic_secret (v : KVObject) :
    v.stripMonotonic.secret = v.secret := rfl

@[simp] theorem KVObject.stripMonotonic_data (v : KVObject) :
    v.stripMonotonic.data = v.data := rfl

@[simp] theorem KVObject.stripMonotonic_locks (v : KVObject) :
    v.stripMonotonic.locks = v.locks.map Lock.stripMonotonic := rfl

@[simp] theorem KVUpdate.stripMonotonic_updateType (u : KVUpdate) :
    u.stripMonotonic.updateType = u.updateType := rfl

@[simp] theorem KVUpdate.stripMonotonic_key (u : KVUpdate) :
    u.stripMonotonic.key = u.key := rfl

@[simp] theorem KVUpdate.stripMonotonic_value (u : KVUpdate) :
    u.stripMonotonic.value = u.value.stripMonotonic := rfl

/-! ## Errors -/

/-- The errors `bbolt` hands back to this program. -/
inductive BoltError where
  | bucketNotFound
  | incompatibleValue
  | keyRequired
  | bucketNameRequired
  | keyTooLarge
  | valueTooLarge
deriving Repr, DecidableEq

/-- `err.Error()` of the `bbolt` errors. -/
def BoltError.text : BoltError → String
  | .bucketNotFound => "bucket not found"
  | .incompatibleValue => "incompatible value"
  | .keyRequired => "key required"
  | .bucketNameRequired => "bucket name required"
  | .keyTooLarge => "key too large"
  | .valueTooLarge => "value too large"

/-- An `error` value as the engine returns it. -/
inductive Error where
  /-- `getBuckets` found no bucket `name` on the walk. -/
  | bucketNotExist (name : String)
  | bolt (e : BoltError)
  | json (text : String)
  | cluster (text : String)
  | crypto (text : String)
  /-- Reading a request body failed. -/
  | read (text : String)
deriving Repr, DecidableEq

/-- `err.Error()`. -/
def Error.text : Error → String
  | .bucketNotExist b => "Bucket " ++ b ++ " does not exist"
  | .bolt e => e.text
  | .json t | .cluster t | .crypto t | .read t => t

/-- How a call ends when it does not return normally: it returns an error, or it
panics, and the panic unwinds the goroutine through every caller. -/
inductive Fault where
  | error (e : Error)
  | panic (text : String)
deriving Repr, DecidableEq

/-- Results compare by their error or their value, so that a run's result can
be decided. -/
instance decEqExcept [DecidableEq ε] [DecidableEq α] : DecidableEq (Except ε α)
  | .error a, .error b => decidable_of_iff (a = b) ⟨congrArg _, Except.error.inj⟩
  | .ok a, .ok b => decidable_of_iff (a = b) ⟨congrArg _, Except.ok.inj⟩
  | .error _, .ok _ => isFalse nofun
  | .ok _, .error _ => isFalse nofun

/-! ## Collaborators outside the repository -/

/-- What the engine relies on from `encoding/json` for the records it
serialises. `Marshal` fails exactly on a timestamp outside the years 0 to 9999;
`Unmarshal` gives back what was marshalled less the monotonic clock readings,
and rejects empty input. -/
structure Json where
  marshalObject : KVObject → Except String Bytes
  marshalUpdate : KVUpdate → Except String Bytes
  unmarshalObject : Bytes → Except String KVObject
  unmarshalUpdate : Bytes → Except String KVUpdate
  unmarshalLock : Bytes → Except String Lock
  /-- `json.Unmarshal` into a `json.RawMessage` succeeds: one JSON value. -/
  valid : Bytes → Bool
  marshalObject_isOk (v : KVObject) : (marshalObject v).isOk = v.inRange
  marshalUpdate_isOk (u : KVUpdate) : (marshalUpdate u).isOk = u.value.inRange
  marshalObject_stripMonotonic (v : KVObject) :
    marshalObject v.stripMonotonic = marshalObject v
  unmarshalObject_marshalObject {v : KVObject} {b : Bytes} :
    marshalObject v = .ok b → unmarshalObject b = .ok v.stripMonotonic
  unmarshalUpdate_marshalUpdate {u : KVUpdate} {b : Bytes} :
    marshalUpdate u = .ok b → unmarshalUpdate b = .ok u.stripMonotonic
  unmarshalObject_nil : unmarshalObject [] = .error "unexpected end of JSON input"

/-- The value `encrytJSON` is given: its argument is an `interface{}`, and the
handlers pass it either the request body or a query's string value. -/
inductive Plain where
  | bytes (b : Bytes)
  | text (s : String)
deriving Repr, DecidableEq

/-- The crypto box under the node's shared key. Its contract is that what it
encrypts it can decrypt. -/
structure Crypto where
  encrytJSON : Plain → Except String Bytes
  decryptJSON : Bytes → Except String Bytes
  decryptJSON_encrytJSON {x : Plain} {c : Bytes} :
    encrytJSON x = .ok c → (decryptJSON c).isOk

/-- A cluster message (`Message`, types.go) with the fields this program sets or
reads; the transport fills in the epoch, id and origin. -/
structure Message where
  type : String
  data : Bytes
  dataType : String
deriving Repr, DecidableEq

/-- The cluster transport as the engine sees it: its answer to the `n`-th `Emit`
call of the node, `none` standing for nil. -/
structure Cluster where
  answer : Nat → Option String

end Cave
