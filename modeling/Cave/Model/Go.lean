import Cave.Model.Bolt

/-!
# Calls on a node

A node is its database and the messages it has handed to the cluster transport.
The engine's methods are Go calls on a node, `Go α`: each may change the node and
then return a value, return an error, or panic. Unlike an exception monad, a
returned error keeps what the call did before it, as in Go: a `PutObject` whose
transaction committed and whose emit failed returns the error with the new
database in place.

The database is touched only inside transactions. `update` runs a closure on the
database and keeps its result only if it returns nil, which is how `bbolt`
commits or rolls back; `view` runs a read-only closure. The transport is reached
through `emit`, which records the message and returns the transport's answer.
-/

namespace Cave

/-- A node: its database and every message handed to the cluster transport,
oldest first. -/
structure KV where
  db : Bucket
  sent : List Message
deriving Repr, DecidableEq

/-- A Go call on a node. -/
def Go (α : Type) : Type := KV → Except Fault α × KV

namespace Go

/-- Return `a` and change nothing. -/
protected def pure (a : α) : Go α := fun s => (.ok a, s)

/-- Run `x`, then `f` on its value; an error or a panic of `x` ends the call. -/
protected def bind (x : Go α) (f : α → Go β) : Go β := fun s =>
  match x s with
  | (.ok a, s') => f a s'
  | (.error e, s') => (.error e, s')

instance : Monad Go where
  pure := Go.pure
  bind := Go.bind

/-- `return err`. -/
def fail (e : Error) : Go α := fun s => (.error (.error e), s)

/-- `return err` for an error value that may be nil. -/
def ofError : Except Error α → Go α
  | .ok a => pure a
  | .error e => fail e

/-- `if err != nil { return err }`. -/
def check : Option Error → Go Unit
  | some err => fail err
  | none => pure ()

/-- An `encoding/json` call: its error is returned. -/
def ofJson (r : Except String α) : Go α := ofError (r.mapError .json)

/-- `err := f()`: a returned error is captured as a value, a panic keeps
unwinding. -/
def capture (x : Go α) : Go (Except Error α) := fun s =>
  match x s with
  | (.ok a, s') => (.ok (.ok a), s')
  | (.error (.error e), s') => (.ok (.error e), s')
  | (.error (.panic m), s') => (.error (.panic m), s')

/-- Whether a call ended in a panic. -/
def panicked : Except Fault α → Bool
  | .error (.panic _) => true
  | _ => false

/-- `db.Update(fn)`: one write transaction; committed when `fn` returns nil,
rolled back otherwise. -/
def update (fn : Bucket → Except Fault Bucket) : Go Unit := fun s =>
  match fn s.db with
  | .ok db => (.ok (), { s with db })
  | .error e => (.error e, s)

/-- The database a write transaction leaves: its result if it committed. -/
def commit (r : Except Fault Bucket) (db : Bucket) : Bucket :=
  match r with
  | .ok db' => db'
  | .error _ => db

/-- `db.View(fn)`: one read transaction. -/
def view (fn : Bucket → Except Fault α) : Go α := fun s => (fn s.db, s)

/-- `Cluster.Emit`: the message goes to the transport, which answers. -/
def emit (net : Cluster) (m : Message) : Go Unit := fun s =>
  let s' := { s with sent := s.sent ++ [m] }
  match net.answer s.sent.length with
  | none => (.ok (), s')
  | some t => (.error (.error (.cluster t)), s')

@[simp] theorem pure_apply (a : α) (s : KV) : (pure a : Go α) s = (.ok a, s) := rfl

@[simp] theorem bind_apply (x : Go α) (f : α → Go β) (s : KV) :
    (x >>= f) s = match x s with
      | (.ok a, s') => f a s'
      | (.error e, s') => (.error e, s') := rfl

@[simp] theorem bind_def (x : Go α) (f : α → Go β) (s : KV) :
    Go.bind x f s = match x s with
      | (.ok a, s') => f a s'
      | (.error e, s') => (.error e, s') := rfl

@[simp] theorem capture_apply (x : Go α) (s : KV) :
    capture x s = match x s with
      | (.ok a, s') => (.ok (.ok a), s')
      | (.error (.error e), s') => (.ok (.error e), s')
      | (.error (.panic m), s') => (.error (.panic m), s') := rfl

@[simp] theorem ofError_apply (r : Except Error α) (s : KV) :
    ofError r s = (r.mapError .error, s) := by
  cases r <;> rfl

@[simp] theorem ofJson_apply (r : Except String α) (s : KV) :
    ofJson r s = ((r.mapError .json).mapError .error, s) := ofError_apply _ _

@[simp] theorem fail_apply (e : Error) (s : KV) : (fail e : Go α) s = (.error (.error e), s) := rfl

@[simp] theorem update_apply (fn : Bucket → Except Fault Bucket) (s : KV) :
    update fn s = match fn s.db with
      | .ok db => (.ok (), { s with db })
      | .error e => (.error e, s) := rfl

@[simp] theorem view_apply (fn : Bucket → Except Fault α) (s : KV) :
    view fn s = (fn s.db, s) := rfl

end Go

end Cave
