import Cave.Model.Types

/-!
# The bucket tree of `bbolt`

The engine keeps its data in `bbolt`, an embedded ordered key-value store whose
buckets nest: a key of a bucket holds either a value or a bucket. The library is
not part of the repository; this file gives the part of it the engine calls,
with the errors its documentation names, as functions on the tree.

A `*bbolt.Bucket` is a handle into the database that the engine mutates in
place. Here a handle is the bucket together with the function that writes a new
version of it back into the database, rebuilding the chain of parents above it
(`getBuckets`). A write transaction commits the rebuilt database if its closure
returns nil and keeps the old one otherwise, so a bucket created on the way to a
failed `Put` is never seen.

Keys are kept in order, as the B+tree keeps them: for UTF-8 strings the order of
characters is the order of bytes that `bytes.Compare` uses.
-/

namespace Cave

/-- A node of the tree: a value, or a nested bucket with its entries in key
order. -/
inductive Node where
  | value (v : Bytes)
  | bucket (es : List (String × Node))
deriving Repr

mutual

/-- Equality of nodes, decided entry by entry. -/
def Node.decEq : (a b : Node) → Decidable (a = b)
  | .value v, .value w =>
    if h : v = w then isTrue (h ▸ rfl) else isFalse fun e => by cases e; exact h rfl
  | .bucket es, .bucket fs =>
    match Node.decEqEntries es fs with
    | isTrue h => isTrue (h ▸ rfl)
    | isFalse h => isFalse fun e => by cases e; exact h rfl
  | .value _, .bucket _ => isFalse fun e => by cases e
  | .bucket _, .value _ => isFalse fun e => by cases e

/-- Equality of entry lists. -/
def Node.decEqEntries : (a b : List (String × Node)) → Decidable (a = b)
  | [], [] => isTrue rfl
  | (k, n) :: es, (k', n') :: fs =>
    if hk : k = k' then
      match Node.decEq n n', Node.decEqEntries es fs with
      | isTrue hn, isTrue he => isTrue (by subst hk hn he; rfl)
      | isFalse hn, _ => isFalse fun e => by cases e; exact hn rfl
      | _, isFalse he => isFalse fun e => by cases e; exact he rfl
    else isFalse fun e => by cases e; exact hk rfl
  | [], _ :: _ => isFalse fun e => by cases e
  | _ :: _, [] => isFalse fun e => by cases e

end

instance : DecidableEq Node := Node.decEq

/-- The bucket a node is, if it is one. -/
def Node.bucket? : Node → Option (List (String × Node))
  | .bucket es => some es
  | .value _ => none

/-- The value a node is, if it is one. -/
def Node.value? : Node → Option Bytes
  | .value v => some v
  | .bucket _ => none

/-- A bucket: its entries. The database itself is the bucket of the root
buckets. -/
abbrev Bucket := List (String × Node)

namespace Bucket

/-- The node under `k`: the cursor's `seek` landing on `k`. -/
def entry : Bucket → String → Option Node
  | [], _ => none
  | (k', n) :: es, k => if k' = k then some n else entry es k

/-- `Bucket(name)`: the nested bucket `name`; nil if absent or a value. -/
def bucket (b : Bucket) (name : String) : Option Bucket := (b.entry name).bind Node.bucket?

/-- `Get(key)`: the value under `key`; nil if absent or a bucket. -/
def get (b : Bucket) (key : String) : Option Bytes := (b.entry key).bind Node.value?

/-- `bytes.Compare(a, b) < 0` on UTF-8 keys: the order of code points. -/
def keyLt : List Char → List Char → Bool
  | [], [] => false
  | [], _ :: _ => true
  | _ :: _, [] => false
  | a :: as, b :: bs => if a = b then keyLt as bs else a.toNat < b.toNat

/-- Write `n` under `k`, in key order, in place of what `k` held. -/
def insert : Bucket → String → Node → Bucket
  | [], k, n => [(k, n)]
  | (k', n') :: es, k, n =>
    if keyLt k.data k'.data then (k, n) :: (k', n') :: es
    else if k' = k then (k, n) :: es
    else (k', n') :: insert es k n

/-- Remove the entry `k`. -/
def erase : Bucket → String → Bucket
  | [], _ => []
  | (k', n) :: es, k => if k' = k then erase es k else (k', n) :: erase es k

/-- `bbolt.MaxKeySize`, in bytes. -/
def maxKeySize : Nat := 32768

/-- `bbolt.MaxValueSize`, in bytes. -/
def maxValueSize : Nat := 2147483646

/-- `Put(key, value)`. -/
def put (b : Bucket) (key : String) (value : Bytes) : Except Error Bucket :=
  if key = "" then .error (.bolt .keyRequired)
  else if maxKeySize < key.utf8ByteSize then .error (.bolt .keyTooLarge)
  else if maxValueSize < value.length then .error (.bolt .valueTooLarge)
  else match b.entry key with
    | some (.bucket _) => .error (.bolt .incompatibleValue)
    | _ => .ok (b.insert key (.value value))

/-- `Delete(key)`: an absent key is no error. -/
def delete (b : Bucket) (key : String) : Except Error Bucket :=
  match b.entry key with
  | some (.bucket _) => .error (.bolt .incompatibleValue)
  | _ => .ok (b.erase key)

/-- `DeleteBucket(key)`, with everything below it. Its cursor seeks the empty
key in an empty bucket to the nil key, which compares equal to it and carries
no bucket flag. -/
def deleteBucket (b : Bucket) (key : String) : Except Error Bucket :=
  match b.entry key with
  | some (.bucket _) => .ok (b.erase key)
  | some (.value _) => .error (.bolt .incompatibleValue)
  | none =>
    if key.isEmpty && b.isEmpty then .error (.bolt .incompatibleValue)
    else .error (.bolt .bucketNotFound)

/-- `CreateBucketIfNotExists(key)`: the bucket `key`, new and empty if there was
none; the parent receives it when the handle is written back. -/
def createBucketIfNotExists (b : Bucket) (key : String) : Except Error Bucket :=
  if key = "" then .error (.bolt .bucketNameRequired)
  else match b.entry key with
    | some (.bucket c) => .ok c
    | some (.value _) => .error (.bolt .incompatibleValue)
    | none => .ok []

/-- The bucket reached from `b` through the nested buckets `path`. -/
def walk (b : Bucket) : List String → Option Bucket
  | [] => some b
  | name :: rest => (b.bucket name).bind fun c => walk c rest

/-- The value under `key` in the bucket at `path`. -/
def leaf? (b : Bucket) (path : List String) (key : String) : Option Bytes :=
  (b.walk path).bind fun c => c.get key

end Bucket

/-- The runtime's panic for a method called on a nil `*bbolt.Bucket`. -/
def nilBucket : Fault := .panic "runtime error: invalid memory address or nil pointer dereference"

/-- One name of the loop of `getBuckets`: `CreateBucketIfNotExists(name)` when
`create`, `Bucket(name)` otherwise, which fails on nil. -/
def Bucket.child (b : Bucket) (name : String) (create : Bool) : Except Fault Bucket :=
  if create then (b.createBucketIfNotExists name).mapError .error
  else match b.bucket name with
    | some c => .ok c
    | none => .error (.error (.bucketNotExist name))

/-- The loop of `getBuckets` below its first bucket: the bucket the names lead
to, creating the missing ones when `create`, and how to write a new version of
it back into the bucket the loop started from. -/
def descend (create : Bool) : List String → Bucket → Except Fault (Bucket × (Bucket → Bucket))
  | [], b => .ok (b, id)
  | name :: rest, b => do
    let c ← b.child name create
    let (d, set) ← descend create rest c
    pure (d, fun d' => b.insert name (.bucket (set d')))

end Cave
