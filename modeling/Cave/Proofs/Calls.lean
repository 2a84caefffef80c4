import Cave.Model.KV
import Cave.Proofs.Bolt

/-!
# Each method in closed form

One lemma per method of the engine says what a call does to a node: which
transaction it runs, whether that transaction commits, and what is emitted
afterwards. The later files cite these and never unfold a method.

`getBuckets` comes first, since every transaction starts with it: on success it
reached the bucket the path names (or made it), and writing the handle back
changes the leaves below that bucket and nothing else (`leaf?_getBuckets`). A
read goes through `readObject`, the envelope `GetObject` decodes from a
database: the leaf the path reaches, or nothing, and a panic when the root
bucket is missing.
-/

namespace Cave

open Go Bucket

section GetBuckets

variable {db d : Bucket} {bs : List String} {root : String} {c : Bool}
  {set : Bucket → Bucket}

theorem getBuckets_ok (h : getBuckets db bs root c = .ok (d, set)) :
    ∃ b set', db.bucket root = some b ∧ descend c bs b = .ok (d, set') ∧
      set = fun d' => db.insert root (.bucket (set' d')) := by
  unfold getBuckets at h
  split at h
  · cases h
  · next b hb =>
    cases hd : descend c bs b with
    | error e => simp [hd, bind, Except.bind] at h
    | ok r =>
      simp only [hd, bind, Except.bind, pure, Except.pure, Except.ok.injEq, Prod.mk.injEq] at h
      exact ⟨b, r.2, hb, by rw [hd, ← h.1], h.2.symm⟩

theorem getBuckets_error {f : Fault} (h : getBuckets db bs root c = .error f) :
    (db.bucket root = none ∧ f = nilBucket) ∨
      ∃ b, db.bucket root = some b ∧ descend c bs b = .error f := by
  unfold getBuckets at h
  split at h
  · next hb => cases h; exact .inl ⟨hb, rfl⟩
  · next b hb =>
    cases hd : descend c bs b with
    | error e => simp [hd, bind, Except.bind] at h; exact .inr ⟨b, hb, by rw [hd, h]⟩
    | ok r => simp [hd, bind, Except.bind, pure, Except.pure] at h

theorem root_child {b : Bucket} (hb : db.bucket root = some b) : db.child root false = .ok b := by
  simp [child_false, hb]

/-- The bucket `getBuckets` reached reads as the database below the path. -/
theorem leaf?_getBuckets_reached (h : getBuckets db bs root c = .ok (d, set))
    (rest : List String) (j : String) : d.leaf? rest j = db.leaf? (root :: (bs ++ rest)) j := by
  obtain ⟨b, set', hb, hd, -⟩ := getBuckets_ok h
  rw [leaf?_descend_reached hd, ← (child_ok (root_child hb)).2]

/-- Writing a handle back: the leaves below the reached bucket are those of its
new version, the others are unchanged. -/
theorem leaf?_getBuckets (h : getBuckets db bs root c = .ok (d, set)) (d' : Bucket)
    (qs : List String) (j : String) :
    (set d').leaf? qs j =
      if root :: bs <+: qs then d'.leaf? (qs.drop (bs.length + 1)) j else db.leaf? qs j := by
  obtain ⟨b, set', hb, hd, rfl⟩ := getBuckets_ok h
  obtain ⟨hget, hchild⟩ := child_ok (root_child hb)
  exact leaf?_insert_child hget hchild (leaf?_descend hd) d' qs j

theorem bucket_getBuckets (h : getBuckets db bs root c = .ok (d, set)) (d' : Bucket) :
    (db.bucket root).isSome ∧ ((set d').bucket root).isSome := by
  obtain ⟨b, set', hb, -, rfl⟩ := getBuckets_ok h
  simp [hb, bucket_insert, Node.bucket?]

/-- A write through a handle, leaf by leaf: if the new version of the reached
bucket changes each leaf by `F`, the database changes the leaves below it by
`F` and keeps the rest. -/
theorem leaf?_getBuckets_write (h : getBuckets db bs root c = .ok (d, set)) {d' : Bucket}
    (F : List String → String → Option Bytes → Option Bytes)
    (hd' : ∀ rest j, d'.leaf? rest j = F rest j (d.leaf? rest j)) (qs : List String) (j : String) :
    (set d').leaf? qs j =
      if root :: bs <+: qs then F (qs.drop (bs.length + 1)) j (db.leaf? qs j)
      else db.leaf? qs j := by
  rw [leaf?_getBuckets h]
  split
  · next hp =>
    obtain ⟨t, rfl⟩ := hp
    rw [hd', leaf?_getBuckets_reached h]
    simp
  · rfl

end GetBuckets

/-- What `GetObject` decodes from a database: the leaf the path reaches, or no
bytes at all, and a nil-bucket panic when the root bucket is missing. -/
def readObject (J : Json) (db : Bucket) (key root : String) : Except Fault KVObject :=
  match db.bucket root with
  | none => .error nilBucket
  | some _ => ((J.unmarshalObject
      ((db.leaf? (root :: (parsePath key).1) (parsePath key).2).getD [])).mapError .json).mapError
        .error

section Methods

variable (J : Json) (net : Cluster)

theorem emit_apply (m : Message) (s : KV) :
    emit net m s = (match net.answer s.sent.length with
      | none => .ok ()
      | some t => .error (.error (.cluster t)), { s with sent := s.sent ++ [m] }) := by
  cases h : net.answer s.sent.length <;> simp [emit, h]

theorem emitEvent_apply (t key : String) (v : KVObject) (s : KV) :
    emitEvent J net t key v s = match J.marshalUpdate ⟨t, key, v⟩ with
      | .error m => (.error (.error (.json m)), s)
      | .ok u => emit net ⟨"update", u, "KVUpdate"⟩ s := by
  cases h : J.marshalUpdate ⟨t, key, v⟩ <;> simp [emitEvent, h, Except.mapError]

theorem getObject_apply (key root : String) (s : KV) :
    getObject J key root s = (readObject J s.db key root, s) := by
  cases hg : getBuckets s.db (parsePath key).1 root false with
  | ok r =>
    obtain ⟨d, set⟩ := r
    have hb := (bucket_getBuckets hg d).1
    obtain ⟨b, hb'⟩ := Option.isSome_iff_exists.mp hb
    have hr := leaf?_getBuckets_reached hg [] (parsePath key).2
    simp only [leaf?_nil, List.append_nil] at hr
    simp [getObject, getObjectTx, hg, readObject, hb', ← hr, bind, Except.bind, pure,
      Except.pure]
  | error f =>
    rcases getBuckets_error hg with ⟨hb, rfl⟩ | ⟨b, hb, hd⟩
    · simp [getObject, getObjectTx, hg, capture, readObject, hb, bind, Except.bind, nilBucket]
    · obtain ⟨hw, e, rfl⟩ := descend_false_error hd
      have hl : s.db.leaf? (root :: (parsePath key).1) (parsePath key).2 = none := by
        simp [leaf?, hb, hw]
      simp [getObject, getObjectTx, hg, capture, readObject, hb, hl, bind, Except.bind]

theorem putObject_apply (key : String) (v : KVObject) (root : String) (secret : Bool)
    (e : List Bool) (s : KV) :
    putObject J net key v root secret e s = match J.marshalObject v with
      | .error m => (.error (.error (.json m)), s)
      | .ok bobj => match putObjectTx (parsePath key).1 (parsePath key).2 bobj root s.db with
        | .error f => (.error f, s)
        | .ok db =>
          (if e.headD true then emitEvent J net "put:key" key v else pure ()) { s with db } := by
  cases hm : J.marshalObject v with
  | error m => simp [putObject, hm, Except.mapError]
  | ok bobj =>
    cases hc : putObjectTx (parsePath key).1 (parsePath key).2 bobj root s.db <;>
      simp [putObject, hm, hc, Except.mapError]

theorem deleteWith_apply (t : String)
    (tx : List String → String → String → Bucket → Except Fault Bucket) (key root : String)
    (e : List Bool) (s : KV) :
    deleteWith J net t tx key root e s =
      match tx (parsePath key).1 (parsePath key).2 root s.db with
      | .error (.panic m) => (.error (.panic m), s)
      | .error (.error err) =>
        if e.headD true then emitEvent J net t key .empty s else (.error (.error err), s)
      | .ok db =>
        if e.headD true then emitEvent J net t key .empty { s with db }
        else (.ok (), { s with db }) := by
  cases hc : tx (parsePath key).1 (parsePath key).2 root s.db with
  | ok db => rcases e with _ | ⟨_ | _, e⟩ <;> simp [deleteWith, hc, capture, Except.mapError]
  | error f =>
    cases f <;> rcases e with _ | ⟨_ | _, e⟩ <;> simp [deleteWith, hc, capture, Except.mapError]

theorem emitEvent_db (t key : String) (v : KVObject) (s : KV) :
    (emitEvent J net t key v s).2.db = s.db := by
  rw [emitEvent_apply]; split <;> simp [emit_apply]

theorem putObject_db (key : String) (v : KVObject) (root : String) (secret : Bool)
    (e : List Bool) (s : KV) :
    (putObject J net key v root secret e s).2.db = match J.marshalObject v with
      | .ok bobj => commit (putObjectTx (parsePath key).1 (parsePath key).2 bobj root s.db) s.db
      | .error _ => s.db := by
  rw [putObject_apply]
  cases J.marshalObject v with
  | error m => rfl
  | ok bobj =>
    dsimp only
    cases putObjectTx (parsePath key).1 (parsePath key).2 bobj root s.db with
    | error _ => rfl
    | ok db => dsimp only [commit]; split <;> simp [emitEvent_db]

theorem deleteWith_db (t : String)
    (tx : List String → String → String → Bucket → Except Fault Bucket) (key root : String)
    (e : List Bool) (s : KV) :
    (deleteWith J net t tx key root e s).2.db =
      commit (tx (parsePath key).1 (parsePath key).2 root s.db) s.db := by
  rw [deleteWith_apply]
  split <;> simp_all [commit] <;> split <;> simp [emitEvent_db]

theorem get_apply (key root : String) (s : KV) :
    get J key root s = ((readObject J s.db key root).map KVObject.data, s) := by
  simp only [get, bind_apply, getObject_apply]
  cases readObject J s.db key root <;> rfl

/-- Go's `return a, err` after `err := f()`: the error `f` returned, nil or
not, goes with `a`; a panic of `f` keeps unwinding. -/
def withErr (a : α) : Except Fault Unit → Except Fault (α × Option Error)
  | .ok () => .ok (a, none)
  | .error (.error err) => .ok (a, some err)
  | .error (.panic m) => .error (.panic m)

theorem lock_apply (c : Claim) (key root : String) (e : List Bool) (s : KV) :
    lock J net c key root e s =
      let r : Except Fault Unit × KV := match readObject J s.db key root with
        | .error f => (.error f, s)
        | .ok obj => putObject J net key { obj with locks := obj.locks ++ [c.lockOn key root] } root
          obj.secret [true] s
      (withErr (c.lockOn key root) r.1, r.2) := by
  simp only [lock, bind_apply, capture_apply, getObject_apply]
  cases readObject J s.db key root with
  | error f => cases f <;> rfl
  | ok obj =>
    dsimp only
    rcases putObject J net key _ root obj.secret [true] s with ⟨(_ | _) | _, _⟩ <;> rfl

theorem unlock_apply (l : Lock) (e : List Bool) (s : KV) :
    unlock J net l e s = match readObject J s.db l.key l.root with
      | .error f => (.error f, s)
      | .ok obj =>
        let i := lockIndex l.lockId obj.locks
        if i < 0 then
          (.error (.panic ("runtime error: slice bounds out of range [:" ++ toString i ++ "]")), s)
        else putObject J net l.key
          { obj with locks := obj.locks.take i.toNat ++ obj.locks.drop (i.toNat + 1) } l.root
          obj.secret [true] s := by
  simp only [unlock, bind_apply, getObject_apply]
  cases readObject J s.db l.key l.root with
  | error f => rfl
  | ok obj =>
    by_cases h : lockIndex l.lockId obj.locks < 0 <;> simp [removeAt, h, runtimePanic]

end Methods

/-! ## Computations that keep a property of the database -/

/-- The Go computation `x` keeps the property `I` of the database, from every
state. -/
def Keeps (I : Bucket → Prop) (x : Go α) : Prop :=
  ∀ s, I s.db → I (x s).2.db

namespace Keeps

variable {I : Bucket → Prop}

theorem of_db {x : Go α} (h : ∀ s, (x s).2.db = s.db) : Keeps I x :=
  fun s hi => (h s).symm ▸ hi

theorem pure (a : α) : Keeps I (pure a : Go α) := of_db fun _ => rfl

theorem view (fn : Bucket → Except Fault α) : Keeps I (view fn) := of_db fun _ => rfl

theorem ofError (r : Except Error α) : Keeps I (ofError r) := of_db fun s => by simp

theorem check (err : Option Error) : Keeps I (check err) := of_db fun _ => by cases err <;> rfl

theorem bind {x : Go α} {f : α → Go β} (hx : Keeps I x) (hf : ∀ a, Keeps I (f a)) :
    Keeps I (x >>= f) := by
  intro s hi
  have := hx s hi
  rw [bind_apply]
  split
  · next h => rw [h] at this; exact hf _ _ this
  · next h => rw [h] at this; exact this

/-- A `bind` after a decoding runs its continuation on the decoded value only. -/
theorem ofJson_bind {r : Except String α} {f : α → Go β} (hf : ∀ a, r = .ok a → Keeps I (f a)) :
    Keeps I (ofJson r >>= f) := by
  cases r with
  | error _ => exact of_db fun _ => rfl
  | ok a => exact fun s hi => hf a rfl s hi

theorem capture {x : Go α} (hx : Keeps I x) : Keeps I (capture x) := by
  intro s hi
  rw [capture_apply]
  have := hx s hi
  split <;> simp_all

/-- A computation that only answers keeps what the one before it kept. -/
theorem bind_pure {x : Go α} {f : α → Go β} (hx : Keeps I x)
    (hf : ∀ a, ∃ b, f a = (Pure.pure b : Go β)) : Keeps I (x >>= f) :=
  bind hx fun a => by obtain ⟨b, hb⟩ := hf a; rw [hb]; exact Keeps.pure b

end Keeps

end Cave
