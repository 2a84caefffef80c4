import Cave.Model.KV

/-!
# A node: its goroutines and its update loop, and a cluster of nodes

The HTTP framework runs each request in a goroutine of its own, a multi-query
batch runs one per entry, and plugins call in over RPC: so the mutations of
one node run side by side. `Mutation` names them with their arguments, and
`Mutation.run` is the call as a whole.

What the goroutines share is the database, whose transactions bbolt runs one
at a time, and the transport, whose `Emit` calls land in one order. So a
mutation is a short sequence of atomic steps: `PutObject` and the deletes take
a write transaction and then emit; `Lock` and `Unlock` first take a read
transaction, then write through `PutObject`. Everything else a goroutine does
(marshalling, the lock search) touches nothing shared and is folded into the
step before or after it. `Phase` is where a goroutine stands between two
steps, `Mutation.step` the next step, and `interleave` a schedule of them.

The peer side is `updateLoop`: the loop of `start`, which hands each message of
the `updates` channel to `handleUpdate` in turn and goes on after an error. A
panic there ends the process: nothing on the loop's stack recovers it. In a
cluster each node runs both at once: `clusterStep` lets one goroutine of one
node take its next step, or hands the loop of one node a message another has
emitted; a node whose loop panicked takes no step after.

A goroutine's step panics only where the call's root bucket is missing (the
nil bucket of `getBuckets`) or where `Unlock` finds no lock with its id; the
step then leaves the goroutine finished and the store as it was.
-/

namespace Cave

open Go

/-- The mutations a node makes on its own store, with the arguments callers
give: `Put` from the HTTP handlers and the multi-query tasks, the deletes from
the handlers, and all of them over the plugin RPC. -/
inductive Mutation where
  | put (now : Time) (key : String) (value : Bytes) (root : String) (secret : Bool)
  | putObject (key : String) (value : KVObject) (root : String) (secret : Bool)
  | deleteKey (key root : String)
  | deleteBucket (key root : String)
  | lock (c : Claim) (key root : String)
  | unlock (l : Lock)
deriving Repr, DecidableEq

/-- A call: a mutation and the emit flags its caller passed (none from the HTTP
handlers, `false` from the update loop). -/
abbrev Call := Mutation × List Bool

namespace Mutation

/-- The root bucket a mutation writes under. -/
def root : Mutation → String
  | put _ _ _ root _ | putObject _ _ root _ | deleteKey _ root | deleteBucket _ root
  | lock _ _ root => root
  | unlock l => l.root

/-- The call, with the emit flags `e`. -/
def run (J : Json) (net : Cluster) (e : List Bool) : Mutation → Go Unit
  | put now key value root secret => Cave.put J net now key value root secret e
  | putObject key v root secret => Cave.putObject J net key v root secret e
  | deleteKey key root => Cave.deleteKey J net key root e
  | deleteBucket key root => Cave.deleteBucket J net key root e
  | lock c key root => do let _ ← Cave.lock J net c key root e
  | unlock l => Cave.unlock J net l e

/-- The node after the calls `cs` run one at a time, in order. -/
def runs (J : Json) (net : Cluster) : List Call → KV → KV
  | [], s => s
  | (m, e) :: cs, s => runs J net cs (m.run J net e s).2

end Mutation

/-! ## Atomic steps -/

/-- Where a goroutine running a mutation stands between two atomic steps. -/
inductive Phase where
  | start
  /-- `Lock` or `Unlock` between its read transaction and its write, holding
  the envelope it read. -/
  | read (obj : KVObject)
  /-- Between a write transaction and the emit of update `u`. -/
  | wrote (u : KVUpdate)
  | finished
deriving Repr, DecidableEq

section Steps

variable (J : Json) (net : Cluster)

/-- The write transaction of `PutObject` for envelope `v`: nothing if `v` does
not marshal or the transaction fails, the emit still to come otherwise. -/
def putStep (key : String) (v : KVObject) (root : String) (e : List Bool) (s : KV) : Phase × KV :=
  match J.marshalObject v with
  | .error _ => (.finished, s)
  | .ok bobj =>
    match putObjectTx (parsePath key).1 (parsePath key).2 bobj root s.db with
    | .error _ => (.finished, s)
    | .ok db => (if e.headD true then .wrote ⟨"put:key", key, v⟩ else .finished, { s with db })

/-- The write transaction `tx` of a delete that emits `t`: the emit comes after
it, failed or not, unless it panicked. -/
def deleteStep (t : String) (tx : List String → String → String → Bucket → Except Fault Bucket)
    (key root : String) (e : List Bool) (s : KV) : Phase × KV :=
  let next : Phase := if e.headD true then .wrote ⟨t, key, .empty⟩ else .finished
  match tx (parsePath key).1 (parsePath key).2 root s.db with
  | .error (.panic _) => (.finished, s)
  | .error (.error _) => (next, s)
  | .ok db => (next, { s with db })

/-- The read transaction of `Lock` and `Unlock`: their `GetObject`. -/
def readStep (key root : String) (s : KV) : Phase × KV :=
  match getObject J key root s with
  | (.error _, s) => (.finished, s)
  | (.ok obj, s) => (.read obj, s)

/-- The next atomic step of a goroutine running `m` with emit flags `e`. -/
def Mutation.step (e : List Bool) : Mutation → Phase → KV → Phase × KV
  | _, .finished, s => (.finished, s)
  | _, .wrote u, s => (.finished, (emitEvent J net u.updateType u.key u.value s).2)
  | .put now key value root secret, .start, s =>
    putStep J key ⟨now, secret, value, [], !J.valid value⟩ root e s
  | .putObject key v root _, .start, s => putStep J key v root e s
  | .deleteKey key root, .start, s => deleteStep "delete:key" deleteKeyTx key root e s
  | .deleteBucket key root, .start, s => deleteStep "delete:bucket" deleteBucketTx key root e s
  | .lock _ key root, .start, s => readStep J key root s
  | .unlock l, .start, s => readStep J l.key l.root s
  | .lock c key root, .read obj, s =>
    putStep J key { obj with locks := obj.locks ++ [c.lockOn key root] } root [true] s
  | .unlock l, .read obj, s =>
    let i := lockIndex l.lockId obj.locks
    if i < 0 then (.finished, s)
    else putStep J l.key { obj with locks := obj.locks.take i.toNat ++ obj.locks.drop (i.toNat + 1) }
      l.root [true] s
  | _, .read _, s => (.finished, s)

/-- `n` steps of one goroutine on its own. -/
def Mutation.stepN (e : List Bool) (m : Mutation) : Nat → Phase → KV → Phase × KV
  | 0, p, s => (p, s)
  | n + 1, p, s =>
    let r := m.step J net e p s
    m.stepN e n r.1 r.2

/-- Goroutines on one node, each running a call and standing somewhere in it. -/
abbrev Threads := List (Call × Phase)

/-- Goroutine `i` takes its next atomic step. -/
def schedStep (i : Nat) (ts : Threads) (s : KV) : Threads × KV :=
  match ts[i]? with
  | some (c, p) =>
    let r := c.1.step J net c.2 p s
    (ts.set i (c, r.1), r.2)
  | none => (ts, s)

/-- The node after the schedule `sched`: each entry names the goroutine that
takes the next atomic step. -/
def interleave : List Nat → Threads → KV → Threads × KV
  | [], ts, s => (ts, s)
  | i :: sched, ts, s =>
    let r := schedStep J net i ts s
    interleave sched r.1 r.2

/-- The update loop of `start`: each message to `handleUpdate`, in order. An
error is logged and the loop goes on; a panic has no `recover` on its way up
and ends the process, and the node stays as the panicking call left it. -/
def updateLoop (c : Claim) : List Message → KV → KV
  | [], p => p
  | m :: ms, p =>
    let r := handleUpdate J net c m p
    if panicked r.1 then r.2 else updateLoop c ms r.2

end Steps

/-! ## A cluster

Each node of a cluster runs its goroutines and its update loop side by side,
and the loop of each takes the messages the others emit. A cluster takes one
atomic step at a time: a goroutine of a node takes its next step, or the loop
of a node hands `handleUpdate` one message that some node has emitted. -/

/-- A node of a cluster: the claim its loop hands to `Lock`, its goroutines, its
store, the messages its update loop has taken from `updates` so far, and
whether its process still runs. -/
structure Member where
  claim : Claim
  threads : Threads
  node : KV
  handled : List Message
  up : Bool

/-- A step of a cluster. -/
inductive Event where
  /-- Goroutine `i` of node `n` takes its next atomic step. -/
  | run (n i : Nat)
  /-- The update loop of node `n` handles message `j` of those node `k` emitted. -/
  | deliver (n k j : Nat)
deriving Repr, DecidableEq

section Nodes

variable (J : Json) (net : Cluster)

/-- The cluster after event `ev`; an event that names no node or no message,
or a node whose process has ended, changes nothing. A panic of `handleUpdate`
ends the node. -/
def clusterStep (ns : List Member) : Event → List Member
  | .run n i =>
    match ns[n]? with
    | some x =>
      if x.up then
        let r := schedStep J net i x.threads x.node
        ns.set n { x with threads := r.1, node := r.2 }
      else ns
    | none => ns
  | .deliver n k j =>
    match ns[n]?, (ns[k]?).bind fun y => y.node.sent[j]? with
    | some x, some m =>
      if x.up then
        let r := handleUpdate J net x.claim m x.node
        ns.set n { x with node := r.2, handled := x.handled ++ [m], up := !panicked r.1 }
      else ns
    | _, _ => ns

/-- The cluster after the events `evs`, one after another. -/
def clusterRun : List Event → List Member → List Member
  | [], ns => ns
  | ev :: evs, ns => clusterRun evs (clusterStep J net ns ev)

end Nodes

end Cave
