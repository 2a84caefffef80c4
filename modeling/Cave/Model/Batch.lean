import Cave.Model.Api

/-!
# The multi-query batch

`multiQueryHandler` goes through the entries of a batch and starts one
goroutine per entry whose verb names a worker (`doGET`, `doPOST`, `doDELETE`);
an entry with any other verb it answers itself. Every answer goes into the
channel `result`, buffered to the size of the batch. The handler then polls the
length of the channel every millisecond; once the channel holds as many answers
as the batch has entries it closes it and drains it into the response.

The handler and its workers are the actors of one configuration, `Batch`, and
a schedule names the actor that moves next, as in `Node.lean`: 0 the handler,
`j + 1` the `j`-th worker it started. A worker's call on the engine is one
step: its transaction is atomic, and the emit that follows is taken in the
same step. A send blocks while the buffer is full and panics on a closed
channel; a panic in a goroutine ends the process, and the actor that panicked
is `crashed`.

The decoding of the request body and the encoding of the response are left
out: the batch is the decoded list of entries, and the response is the record
`json.Marshal` is handed, which holds strings, booleans and a slice and cannot
fail to encode.
-/

namespace Cave

open Go

/-- Modelled from the spec: the multi-query response `{ id, query,
query_errors }`. -/
structure MultiQuery where
  id : String
  query : List QueryObject
  queryErrors : Bool
deriving Repr, DecidableEq

/-- The goroutines `multiQueryHandler` starts. -/
inductive Worker where
  | get
  | post
  | delete
deriving Repr, DecidableEq

/-- The `switch` on `strings.ToUpper(q.Verb)`. `upper` is `strings.ToUpper`,
whose Unicode case tables are outside the repository. -/
def worker (upper : String → String) (verb : String) : Option Worker :=
  match upper verb with
  | "GET" => some .get
  | "PUT" => some .post
  | "POST" => some .post
  | "DELETE" => some .delete
  | _ => none

/-- The entry the handler answers itself, for a verb that names no worker. -/
def invalidVerb (q : QueryObject) : QueryObject :=
  { q with error := "Verb " ++ q.verb ++ " is not a valid operation" }

/-- A worker's call on the engine; `now` is the `time.Now()` of its `Put`. -/
def Worker.call (J : Json) (net : Cluster) (C : Crypto) (now : Time) :
    Worker → QueryObject → Go QueryObject
  | .get, q => doGET J C q
  | .post, q => doPOST J net C now q
  | .delete, q => doDELETE J net q

/-- A worker goroutine: started with its entry, then holding the answer it is
to send, then done. -/
inductive Task where
  | ready (w : Worker) (q : QueryObject) (now : Time)
  | sending (q : QueryObject)
  | sent (q : QueryObject)
  | crashed (text : String)
deriving Repr, DecidableEq

/-- The channel `result`: its buffer, oldest first, and whether it is closed. -/
structure Chan where
  buf : List QueryObject
  closed : Bool
deriving Repr, DecidableEq

/-- Where the handler stands. -/
inductive Handler where
  /-- In the loop over the batch, with the entries `rest` still to go. -/
  | spawn (rest : List QueryObject)
  /-- In the polling loop. -/
  | poll
  /-- The poll saw enough answers; `close(result)` comes next. -/
  | closing
  /-- In `for r := range result`, with the response built so far. -/
  | drain (rq : MultiQuery)
  /-- It has answered with a status and the response. -/
  | done (status : Nat) (rq : MultiQuery)
  /-- It panicked. -/
  | crashed (text : String)
deriving Repr, DecidableEq

/-- The handler, its channel of capacity `size`, the workers it started in the
order it started them, and the node they all call. -/
structure Batch where
  size : Nat
  handler : Handler
  chan : Chan
  tasks : List Task
  node : KV

/-- A batch just decoded: `make(chan QueryObject, len(mq.Query))`, nothing
started. -/
def Batch.start (qs : List QueryObject) (s : KV) : Batch :=
  ⟨qs.length, .spawn qs, ⟨[], false⟩, [], s⟩

/-- `result <- q` on a channel of capacity `size`: `none` while it blocks. -/
def Chan.send (ch : Chan) (size : Nat) (q : QueryObject) : Option (Except String Chan) :=
  if ch.closed then some (.error "send on closed channel")
  else if ch.buf.length < size then some (.ok { ch with buf := ch.buf ++ [q] })
  else none

section Steps

variable (J : Json) (net : Cluster) (C : Crypto) (upper : String → String) (clock : Nat → Time)
  (id : String)

/-- `multiQueryHandler`, one step at a time: a turn of its loop over the batch,
of its polling loop, or of its drain. `clock j` is the time the `j`-th worker's
`Put` reads, and `id` the `uuid.New()` of the response. -/
def multiQueryHandler (b : Batch) : Batch :=
  match b.handler with
  | .spawn [] => { b with handler := .poll }
  | .spawn (q :: rest) =>
    match worker upper q.verb with
    | some w =>
      { b with handler := .spawn rest, tasks := b.tasks ++ [.ready w q (clock b.tasks.length)] }
    | none =>
      match b.chan.send b.size (invalidVerb q) with
      | some (.ok chan) => { b with handler := .spawn rest, chan }
      | some (.error text) => { b with handler := .crashed text }
      | none => b
  | .poll => if b.size ≤ b.chan.buf.length then { b with handler := .closing } else b
  | .closing => { b with handler := .drain ⟨id, [], false⟩, chan := { b.chan with closed := true } }
  | .drain rq =>
    match b.chan.buf with
    | r :: buf =>
      { b with
        handler := .drain { rq with queryErrors := rq.queryErrors || r.error ≠ "",
                                    query := rq.query ++ [r] },
        chan := { b.chan with buf } }
    | [] =>
      if b.chan.closed then { b with handler := .done (if rq.queryErrors then 400 else 200) rq }
      else b
  | .done _ _ | .crashed _ => b

/-- A worker's next step: its call on the engine, then its send. A worker
writes every error it meets into its entry; what ends it otherwise is a
panic. -/
def taskStep (t : Task) (b : Batch) : Task × Batch :=
  match t with
  | .ready w q now =>
    match w.call J net C now q b.node with
    | (.ok q', node) => (.sending q', { b with node })
    | (.error (.panic text), node) => (.crashed text, { b with node })
    | (.error (.error e), node) => (.crashed e.text, { b with node })
  | .sending q =>
    match b.chan.send b.size q with
    | some (.ok chan) => (.sent q, { b with chan })
    | some (.error text) => (.crashed text, b)
    | none => (t, b)
  | .sent _ | .crashed _ => (t, b)

/-- Actor `a` takes its next step: 0 the handler, `j + 1` the `j`-th worker. -/
def Batch.step (b : Batch) : Nat → Batch
  | 0 => multiQueryHandler upper clock id b
  | j + 1 =>
    match b.tasks[j]? with
    | some t =>
      let r := taskStep J net C t b
      { r.2 with tasks := r.2.tasks.set j r.1 }
    | none => b

/-- The batch after the schedule `sched`. -/
def Batch.run : Batch → List Nat → Batch
  | b, [] => b
  | b, a :: sched => Batch.run (b.step J net C upper clock id a) sched

end Steps

end Cave
