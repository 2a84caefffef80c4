import Mathlib.Data.List.Nodup
import Cave.Proofs.Loop

/-!
# Goroutines on one node

`Node.lean` cuts each mutation into its atomic steps. This file checks the cut
against the calls and then reads off what concurrent mutations do.

* **The cut is faithful.** `stepN_run`: a goroutine on its own finishes within
  three steps and leaves the node as the call does. So the schedule that runs
  the goroutines one after another is the calls run in order
  (`serial_schedule_runs`).

* **Single-transaction calls are atomic.** `Serial` holds along every schedule
  of `Put`, `PutObject` and the deletes: the database is that of the calls
  that committed, run one at a time in commit order. `Lock` and `Unlock` read
  in one transaction and write in another, and two of them on one key can
  lose a lock.

* **Emission order.** With emission on, a step other than an emit either does
  nothing or commits the update it will emit (`step_commits`). `Replays` holds
  along every schedule on which the goroutines emit in the order they committed
  (`emitsInOrder`): the node's store is the replaying peer's with the updates
  committed and not yet emitted applied in commit order, so once none is left
  the two agree (`ordered_replay_converges`). When two emits cross, a peer can
  end elsewhere (`replay_out_of_order_diverges`).
-/

namespace Cave

open Go

section Steps

variable (J : Json) (net : Cluster)

@[simp] theorem step_finished (e : List Bool) (m : Mutation) (s : KV) :
    m.step J net e .finished s = (.finished, s) := by
  cases m <;> rfl

@[simp] theorem step_wrote (e : List Bool) (m : Mutation) (u : KVUpdate) (s : KV) :
    m.step J net e (.wrote u) s = (.finished, (emitEvent J net u.updateType u.key u.value s).2) := by
  cases m <;> rfl

theorem stepN_succ (e : List Bool) (m : Mutation) (n : Nat) (p : Phase) (s : KV) :
    m.stepN J net e (n + 1) p s = m.stepN J net e n (m.step J net e p s).1 (m.step J net e p s).2 :=
  rfl

theorem stepN_finished (e : List Bool) (m : Mutation) (n : Nat) (s : KV) :
    m.stepN J net e n .finished s = (.finished, s) := by
  induction n with
  | zero => rfl
  | succ n ih => simp only [Mutation.stepN, step_finished, ih]

theorem stepN_wrote (e : List Bool) (m : Mutation) (n : Nat) (u : KVUpdate) (s : KV) :
    m.stepN J net e (n + 1) (.wrote u) s =
      (.finished, (emitEvent J net u.updateType u.key u.value s).2) := by
  simp only [Mutation.stepN, step_wrote, stepN_finished]

/-- The write transaction of `PutObject` and the emit after it are the call. -/
theorem stepN_putStep (e e' : List Bool) (m : Mutation) (n : Nat) (key : String) (v : KVObject)
    (root : String) (secret : Bool) (s : KV) :
    m.stepN J net e' (n + 1) (putStep J key v root e s).1 (putStep J key v root e s).2 =
      (.finished, (putObject J net key v root secret e s).2) := by
  rw [putObject_apply]
  unfold putStep
  cases J.marshalObject v with
  | error _ => exact stepN_finished J net e' m _ s
  | ok bobj =>
    dsimp only
    cases putObjectTx (parsePath key).1 (parsePath key).2 bobj root s.db with
    | error _ => exact stepN_finished J net e' m _ s
    | ok db =>
      dsimp only
      cases e.headD true
      · exact stepN_finished J net e' m _ _
      · exact stepN_wrote J net e' m n _ _

theorem stepN_deleteStep (e e' : List Bool) (m : Mutation) (n : Nat) (t : String)
    (tx : List String → String → String → Bucket → Except Fault Bucket) (key root : String)
    (s : KV) :
    m.stepN J net e' (n + 1) (deleteStep t tx key root e s).1 (deleteStep t tx key root e s).2 =
      (.finished, (deleteWith J net t tx key root e s).2) := by
  rw [deleteWith_apply]
  unfold deleteStep
  cases tx (parsePath key).1 (parsePath key).2 root s.db with
  | error f =>
    cases f <;> dsimp only
    · cases e.headD true
      · exact stepN_finished J net e' m _ _
      · exact stepN_wrote J net e' m n _ _
    · exact stepN_finished J net e' m _ _
  | ok db =>
    dsimp only
    cases e.headD true
    · exact stepN_finished J net e' m _ _
    · exact stepN_wrote J net e' m n _ _

/-- A goroutine on its own finishes within three steps and leaves the node as
the call does. -/
theorem stepN_run (e : List Bool) (m : Mutation) (s : KV) :
    m.stepN J net e 3 .start s = (.finished, (m.run J net e s).2) := by
  rw [stepN_succ]
  cases m with
  | put now key value root secret => exact stepN_putStep J net e e _ 1 key _ root secret s
  | putObject key v root secret => exact stepN_putStep J net e e _ 1 key v root secret s
  | deleteKey key root => exact stepN_deleteStep J net e e _ 1 _ _ key root s
  | deleteBucket key root => exact stepN_deleteStep J net e e _ 1 _ _ key root s
  | lock c key root =>
    rw [Mutation.run_lock_state, lock_apply]
    show Mutation.stepN J net e _ 2 (readStep J key root s).1 (readStep J key root s).2 = _
    unfold readStep
    rw [getObject_apply]
    cases readObject J s.db key root with
    | error _ => exact stepN_finished J net e _ 2 s
    | ok obj => exact stepN_putStep J net [true] e _ 0 key _ root obj.secret s
  | unlock l =>
    rw [Mutation.run, unlock_apply]
    show Mutation.stepN J net e _ 2 (readStep J l.key l.root s).1 (readStep J l.key l.root s).2 = _
    unfold readStep
    rw [getObject_apply]
    cases readObject J s.db l.key l.root with
    | error _ => exact stepN_finished J net e _ 2 s
    | ok obj =>
      rw [stepN_succ]
      by_cases h : lockIndex l.lockId obj.locks < 0
      · simp only [Mutation.step, h, if_true]; exact stepN_finished J net e _ 1 s
      · simp only [Mutation.step, h, if_false]
        exact stepN_putStep J net [true] e _ 0 l.key _ l.root obj.secret s

end Steps

/-! ## The write steps -/

section Writes

variable (J : Json)

/-- An update the transport can carry: of a replicated type, and one that
marshals. -/
def Emittable (u : KVUpdate) : Prop :=
  u.updateType ∈ replicatedTypes ∧ ∃ data, J.marshalUpdate u = .ok data

/-- What the write step of a call with emit flags `e` does from `s` for its
update `u`: nothing, where `u` changes nothing; or commit `u`, then stand
before its emit, or be done when emission is off. -/
def WriteStep (root : String) (e : List Bool) (u : KVUpdate) (s : KV) (r : Phase × KV) : Prop :=
  (applyUpdate J root u s.db = s.db ∧ r = (.finished, s)) ∨
  (Emittable J u ∧
    r = (if e.headD true then .wrote u else .finished, { s with db := applyUpdate J root u s.db }))

theorem putStep_write (key : String) (v : KVObject) (root : String) (e : List Bool) (s : KV) :
    WriteStep J root e ⟨"put:key", key, v⟩ s (putStep J key v root e s) := by
  cases hm : J.marshalObject v with
  | error _ => exact .inl ⟨by simp [applyUpdate, hm], by simp only [putStep, hm]⟩
  | ok bobj =>
    cases hc : putObjectTx (parsePath key).1 (parsePath key).2 bobj root s.db with
    | error _ => exact .inl ⟨by simp [applyUpdate, hm, hc, commit], by simp only [putStep, hm, hc]⟩
    | ok db =>
      refine .inr ⟨⟨show "put:key" ∈ replicatedTypes by decide,
        marshalUpdate_ok J (inRange_of_marshalObject J hm) _ key⟩, ?_⟩
      simp [putStep, applyUpdate, hm, hc, commit]

theorem deleteStep_write (t : String) (ht : t ∈ replicatedTypes)
    (tx : List String → String → String → Bucket → Except Fault Bucket) (key root : String)
    (htx : ∀ db, applyUpdate J root ⟨t, key, .empty⟩ db =
      commit (tx (parsePath key).1 (parsePath key).2 root db) db) (e : List Bool) (s : KV) :
    WriteStep J root e ⟨t, key, .empty⟩ s (deleteStep t tx key root e s) := by
  have hu : Emittable J ⟨t, key, .empty⟩ :=
    ⟨ht, marshalUpdate_ok J (show KVObject.empty.inRange = true by decide) t key⟩
  cases hc : tx (parsePath key).1 (parsePath key).2 root s.db with
  | error f =>
    cases f
    · exact .inr ⟨hu, by simp only [deleteStep, hc, htx, commit]⟩
    · exact .inl ⟨by rw [htx, hc]; rfl, by simp only [deleteStep, hc]⟩
  | ok db => exact .inr ⟨hu, by simp only [deleteStep, hc, htx, commit]⟩

/-- Whatever the emit flags, a write step leaves the database `u` means, and
stands before the emit of `u` or is done. -/
theorem WriteStep.db_phase {J : Json} {root : String} {e : List Bool} {u : KVUpdate} {s : KV}
    {r : Phase × KV} (h : WriteStep J root e u s r) :
    r.2.db = applyUpdate J root u s.db ∧ (r.1 = .finished ∨ r.1 = .wrote u) := by
  rcases h with ⟨h, rfl⟩ | ⟨-, rfl⟩
  · exact ⟨h.symm, .inl rfl⟩
  · exact ⟨rfl, by cases e.headD true <;> simp⟩

theorem WriteStep.sent {J : Json} {root : String} {e : List Bool} {u : KVUpdate} {s : KV}
    {r : Phase × KV} (h : WriteStep J root e u s r) : r.2.sent = s.sent := by
  rcases h with ⟨-, rfl⟩ | ⟨-, rfl⟩ <;> rfl

end Writes

/-! ## Replacing one goroutine's entry

`schedStep` replaces the entry of the goroutine that stepped. What that does to
a view of the thread list, such as the calls not started or the updates not
emitted, is read off `filterMap_set_perm`. -/

section ListSet

variable {α β : Type} (g : α → Option β)

theorem filterMap_cons_toList (x : α) (l : List α) :
    (x :: l).filterMap g = (g x).toList ++ l.filterMap g := by
  cases h : g x <;> simp [List.filterMap_cons, h]

/-- Replacing one element of a list trades what `filterMap` keeps of the old
element for what it keeps of the new one, up to order. -/
theorem filterMap_set_perm : ∀ {l : List α} {i : Nat} {a : α}, l[i]? = some a → ∀ b,
    ((g a).toList ++ (l.set i b).filterMap g).Perm ((g b).toList ++ l.filterMap g)
  | [], _, _, h, _ => by simp at h
  | x :: l, 0, a, h, b => by
    simp only [List.getElem?_cons_zero, Option.some.injEq] at h
    subst h
    simpa only [List.set_cons_zero, filterMap_cons_toList] using List.perm_append_comm_assoc _ _ _
  | x :: l, i + 1, a, h, b => by
    have ih := filterMap_set_perm (l := l) (i := i) (by simpa using h) b
    simp only [List.set_cons_succ, filterMap_cons_toList]
    exact (List.perm_append_comm_assoc _ _ _).trans
      ((ih.append_left _).trans (List.perm_append_comm_assoc _ _ _))

theorem forall_mem_set {P : α → Prop} {l : List α} (h : ∀ x ∈ l, P x) {a : α} (ha : P a)
    (i : Nat) : ∀ x ∈ l.set i a, P x := fun x hx =>
  (List.mem_or_eq_of_mem_set hx).elim (h x) fun hx => hx ▸ ha

theorem set_of_getElem? : ∀ {l : List α} {i : Nat} {a : α}, l[i]? = some a → l.set i a = l
  | [], _, _, h => by cases h
  | x :: l, 0, a, h => by
    simp only [List.getElem?_cons_zero, Option.some.injEq] at h
    rw [List.set_cons_zero, h]
  | x :: l, i + 1, a, h => by
    rw [List.set_cons_succ, set_of_getElem? (by simpa using h)]

end ListSet

/-! ## Goroutines run one after another are their calls -/

section Sequential

variable (J : Json) (net : Cluster)

theorem interleave_append (xs ys : List Nat) (ts : Threads) (s : KV) :
    interleave J net (xs ++ ys) ts s =
      interleave J net ys (interleave J net xs ts s).1 (interleave J net xs ts s).2 := by
  induction xs generalizing ts s with
  | nil => rfl
  | cons i xs ih => exact ih _ _

/-- `n` steps of one goroutine, scheduled alone, are its `stepN`. -/
theorem interleave_replicate {ts : Threads} {i : Nat} {c : Call} {p : Phase}
    (hi : ts[i]? = some (c, p)) (n : Nat) (s : KV) :
    interleave J net (List.replicate n i) ts s =
      (ts.set i (c, (c.1.stepN J net c.2 n p s).1), (c.1.stepN J net c.2 n p s).2) := by
  induction n generalizing ts p s with
  | zero =>
    rw [Mutation.stepN, set_of_getElem? hi]
    rfl
  | succ n ih =>
    have hi' : (ts.set i (c, (c.1.step J net c.2 p s).1))[i]? = some (c, (c.1.step J net c.2 p s).1) :=
      List.getElem?_set_self (List.getElem?_eq_some_iff.mp hi).1
    rw [List.replicate_succ, interleave, schedStep, hi]
    dsimp only
    rw [ih hi', List.set_set, stepN_succ]

/-- Past finished goroutines `pre`, the goroutines of `cs` run one after
another, three steps each, finish and leave the node as `cs` run in order. -/
theorem interleave_serial (pre : Threads) (cs : List Call) (s : KV) :
    interleave J net ((List.range' pre.length cs.length).flatMap fun i => List.replicate 3 i)
        (pre ++ cs.map fun c => (c, .start)) s =
      (pre ++ cs.map fun c => (c, .finished), Mutation.runs J net cs s) := by
  induction cs generalizing pre s with
  | nil => simp [interleave, Mutation.runs]
  | cons c cs ih =>
    have hi : (pre ++ (c :: cs).map fun c => (c, Phase.start))[pre.length]? = some (c, .start) := by
      rw [List.getElem?_append_right (le_refl _), Nat.sub_self, List.map_cons, List.getElem?_cons_zero]
    rw [List.length_cons, List.range'_succ, List.flatMap_cons, interleave_append,
      interleave_replicate J net hi, stepN_run]
    have := ih (pre ++ [(c, .finished)]) (c.1.run J net c.2 s).2
    simp only [List.length_append, List.length_singleton, List.append_assoc,
      List.singleton_append] at this
    simpa [List.set_append_right, Mutation.runs] using this

end Sequential

/-- The schedule that runs the goroutines one after another, each through its
steps, refines the calls: every goroutine ends finished, and the node ends as
the calls run one at a time in order leave it, its store and the messages it
sent alike. -/
theorem serial_schedule_runs (J : Json) (net : Cluster) (cs : List Call) (s : KV) :
    interleave J net ((List.range cs.length).flatMap fun i => List.replicate 3 i)
        (cs.map fun c => (c, .start)) s =
      (cs.map fun c => (c, .finished), Mutation.runs J net cs s) := by
  simpa [List.range_eq_range'] using interleave_serial J net [] cs s

/-! ## Single-transaction calls are atomic -/

/-- The update the one write transaction of a mutation stands for. `Lock` and
`Unlock` have none: what they write depends on what they read before. -/
def Mutation.update? (J : Json) : Mutation → Option KVUpdate
  | .put now key value _ secret => some ⟨"put:key", key, ⟨now, secret, value, [], !J.valid value⟩⟩
  | .putObject key v _ _ => some ⟨"put:key", key, v⟩
  | .deleteKey key _ => some ⟨"delete:key", key, .empty⟩
  | .deleteBucket key _ => some ⟨"delete:bucket", key, .empty⟩
  | .lock .. | .unlock _ => none

/-- The key a mutation writes: the key of the update it emits. -/
def Mutation.key : Mutation → String
  | .put _ key _ _ _ | .putObject key _ _ _ | .deleteKey key _ | .deleteBucket key _
  | .lock _ key _ => key
  | .unlock l => l.key

/-- The update the write transaction of a goroutine's next step stands for, in
phase `p`: from the start a single-transaction call's own; after the read of
`Lock` or `Unlock`, the envelope read with its lock list changed; none when the
next step writes nothing. -/
def Mutation.nextWrite (J : Json) (m : Mutation) : Phase → Option KVUpdate
  | .start => m.update? J
  | .read obj =>
    match m with
    | .lock c key root => some ⟨"put:key", key, { obj with locks := obj.locks ++ [c.lockOn key root] }⟩
    | .unlock l =>
      let i := lockIndex l.lockId obj.locks
      if i < 0 then none
      else some ⟨"put:key", l.key,
        { obj with locks := obj.locks.take i.toNat ++ obj.locks.drop (i.toNat + 1) }⟩
    | _ => none
  | _ => none

theorem nextWrite_key {J : Json} {m : Mutation} {p : Phase} {u : KVUpdate}
    (h : m.nextWrite J p = some u) : u.key = m.key := by
  cases p <;> cases m <;> simp only [Mutation.nextWrite, Mutation.update?] at h <;>
    (try split_ifs at h) <;> cases h <;> rfl

/-- The calls of the goroutines that have not taken a step. -/
def pending (ts : Threads) : List Call :=
  ts.filterMap fun t => if t.2 = .start then some t.1 else none

theorem pending_start (cs : List Call) : pending (cs.map fun c => (c, .start)) = cs := by
  induction cs with
  | nil => rfl
  | cons c cs ih => simp [pending, List.filterMap_cons] at ih ⊢; exact ih

theorem pending_set_of_ne {ts : Threads} {i : Nat} {c : Call} {p p' : Phase}
    (hi : ts[i]? = some (c, p)) (hp : p ≠ .start) (hp' : p' ≠ .start) :
    (pending (ts.set i (c, p'))).Perm (pending ts) := by
  simpa [pending, hp, hp'] using
    filterMap_set_perm (fun t : Call × Phase => if t.2 = .start then some t.1 else none) hi (c, p')

theorem pending_set_start {ts : Threads} {i : Nat} {c : Call} {p' : Phase}
    (hi : ts[i]? = some (c, .start)) (hp' : p' ≠ .start) :
    (pending ts).Perm (c :: pending (ts.set i (c, p'))) := by
  simpa [pending, hp'] using
    (filterMap_set_perm (fun t : Call × Phase => if t.2 = .start then some t.1 else none) hi
      (c, p')).symm

section Serial

variable (J : Json) (net : Cluster)

/-- A single-transaction mutation's first step commits its update and leaves it
before its emit or done. -/
theorem step_start_update {m : Mutation} {u : KVUpdate} (hu : m.update? J = some u) (e : List Bool)
    (s : KV) : (m.step J net e .start s).2.db = applyUpdate J m.root u s.db ∧
      ((m.step J net e .start s).1 = .finished ∨ (m.step J net e .start s).1 = .wrote u) := by
  cases m with
  | put now key value root secret => cases hu; exact (putStep_write J key _ root e s).db_phase
  | putObject key v root _ => cases hu; exact (putStep_write J key v root e s).db_phase
  | deleteKey key root =>
    cases hu
    exact (deleteStep_write J "delete:key" (by decide) deleteKeyTx key root (fun _ => rfl) e s).db_phase
  | deleteBucket key root =>
    cases hu
    exact (deleteStep_write J "delete:bucket" (by decide) deleteBucketTx key root (fun _ => rfl) e
      s).db_phase
  | lock => cases hu
  | unlock => cases hu

theorem run_update {m : Mutation} {u : KVUpdate} (hu : m.update? J = some u) (e : List Bool)
    (s : KV) : (m.run J net e s).2.db = applyUpdate J m.root u s.db := by
  cases m with
  | put now key value root secret =>
    cases hu; exact putObject_applyUpdate J net key _ root secret e s
  | putObject key v root secret => cases hu; exact putObject_applyUpdate J net key v root secret e s
  | deleteKey key root => cases hu; exact deleteKey_applyUpdate J net key root e s
  | deleteBucket key root => cases hu; exact deleteBucket_applyUpdate J net key root e s
  | lock => cases hu
  | unlock => cases hu

theorem runs_append (xs ys : List Call) (s : KV) :
    Mutation.runs J net (xs ++ ys) s = Mutation.runs J net ys (Mutation.runs J net xs s) := by
  induction xs generalizing s with
  | nil => rfl
  | cons x xs ih => exact ih _

/-- Goroutines running single-transaction calls, started on `cs` from `s0`:
each stands before its step, before its emit, or done, and the database is
that of the calls that have taken their step, run one at a time in the order
they took it. -/
def Serial (cs : List Call) (s0 : KV) (ts : Threads) (s : KV) : Prop :=
  (∀ t ∈ ts, (t.1.1.update? J).isSome ∧ ∀ obj, t.2 ≠ .read obj) ∧
  ∃ order, (order ++ pending ts).Perm cs ∧ s.db = (Mutation.runs J net order s0).db

variable {J net}

theorem Serial.set {cs : List Call} {s0 : KV} {ts : Threads} {s : KV}
    (h : Serial J net cs s0 ts s) {i : Nat} {c : Call} {p : Phase}
    (hi : ts[i]? = some (c, p)) {p' : Phase} (hp' : ∀ obj, p' ≠ .read obj) :
    ∀ t ∈ ts.set i (c, p'), (t.1.1.update? J).isSome ∧ ∀ obj, t.2 ≠ .read obj :=
  forall_mem_set h.1 (a := (c, p')) ⟨(h.1 _ (List.getElem?_mem hi)).1, hp'⟩ i

theorem serial_schedStep {cs : List Call} {s0 : KV} {ts : Threads} {s : KV}
    (h : Serial J net cs s0 ts s) (i : Nat) :
    Serial J net cs s0 (schedStep J net i ts s).1 (schedStep J net i ts s).2 := by
  unfold Cave.schedStep
  cases hi : ts[i]? with
  | none => exact h
  | some t =>
    obtain ⟨⟨m, e⟩, p⟩ := t
    obtain ⟨hsome, hnr⟩ := h.1 _ (List.getElem?_mem hi)
    obtain ⟨u, hu⟩ := Option.isSome_iff_exists.mp hsome
    obtain ⟨order, hperm, hdb⟩ := h.2
    dsimp only
    cases p with
    | start =>
      obtain ⟨hdb', hph⟩ := step_start_update J net hu e s
      have hp' : (m.step J net e .start s).1 ≠ .start := by rcases hph with h' | h' <;> rw [h'] <;> simp
      refine ⟨h.set hi fun obj => ?_, order ++ [(m, e)], ?_, ?_⟩
      · rcases hph with h' | h' <;> rw [h'] <;> simp
      · have := (pending_set_start hi hp').append_left order
        simpa using this.symm.trans hperm
      · rw [hdb', runs_append, hdb]; exact (run_update J net hu e _).symm
    | read obj => exact absurd rfl (hnr obj)
    | wrote u' =>
      refine ⟨h.set hi fun _ => by simp, order, ?_, ?_⟩
      · rw [step_wrote]; exact ((pending_set_of_ne hi (by simp) (by simp)).append_left order).trans hperm
      · rw [step_wrote, emitEvent_db]; exact hdb
    | finished =>
      refine ⟨h.set hi fun _ => by simp, order, ?_, ?_⟩
      · rw [step_finished]; exact ((pending_set_of_ne hi (by simp) (by simp)).append_left order).trans hperm
      · rw [step_finished]; exact hdb

theorem serial_interleave {cs : List Call} {s0 : KV} :
    ∀ (sched : List Nat) {ts : Threads} {s : KV}, Serial J net cs s0 ts s →
      Serial J net cs s0 (interleave J net sched ts s).1 (interleave J net sched ts s).2
  | [], _, _, h => h
  | i :: sched, _, _, h => serial_interleave sched (serial_schedStep h i)

end Serial

theorem pending_of_finished {ts : Threads} (h : ∀ t ∈ ts, t.2 = .finished) : pending ts = [] := by
  simp only [pending, List.filterMap_eq_nil_iff]
  intro t ht
  simp [h t ht]

/-- Interleaved single-transaction calls end as some order of them run one at a
time: the order in which their transactions committed. -/
theorem single_tx_serializable (J : Json) (net : Cluster) (cs : List Call)
    (hcs : ∀ c ∈ cs, (c.1.update? J).isSome) (sched : List Nat) (s : KV)
    (hdone : ∀ t ∈ (interleave J net sched (cs.map fun c => (c, .start)) s).1, t.2 = .finished) :
    ∃ order, order.Perm cs ∧ (interleave J net sched (cs.map fun c => (c, .start)) s).2.db =
      (Mutation.runs J net order s).db := by
  have h0 : Serial J net cs s (cs.map fun c => (c, .start)) s := by
    refine ⟨fun t ht => ?_, [], by simp [pending_start], rfl⟩
    obtain ⟨c, hc, rfl⟩ := List.mem_map.mp ht
    exact ⟨hcs c hc, fun _ => by simp⟩
  obtain ⟨-, order, hperm, hdb⟩ := serial_interleave sched h0
  exact ⟨order, by simpa [pending_of_finished hdone] using hperm, hdb⟩

theorem single_tx_serializable_puts :
    ∃ order, order.Perm [(.putObject "p" ⟨Time.zero, false, [1], [], false⟩ "kv" false, []),
        (.putObject "p" ⟨Time.zero, false, [2], [], false⟩ "kv" false, [false])] ∧
      (interleave Codec.json ⟨fun _ => none⟩ [0, 1, 1, 0]
        ([(Mutation.putObject "p" ⟨Time.zero, false, [1], [], false⟩ "kv" false, []),
          (.putObject "p" ⟨Time.zero, false, [2], [], false⟩ "kv" false, [false])].map
          fun c => (c, .start))
        (newKV [])).2.db = (Mutation.runs Codec.json ⟨fun _ => none⟩ order (newKV [])).db :=
  single_tx_serializable Codec.json _ _ (by decide) [0, 1, 1, 0] _ (by decide)

/-- Two `Lock` calls on one key, each read before the other writes: the second
write drops the first lock, so no order of the two calls ends in this store. -/
theorem interleaved_locks_lose_one :
    ¬∃ order, order.Perm [(Mutation.lock ⟨"n", "l", "a", Time.zero, Time.zero⟩ "k" "kv", []),
        (.lock ⟨"n", "m", "a", Time.zero, Time.zero⟩ "k" "kv", [])] ∧
      (interleave Codec.json ⟨fun _ => none⟩ [0, 1, 0, 1, 0, 1]
        [((.lock ⟨"n", "l", "a", Time.zero, Time.zero⟩ "k" "kv", []), .start),
         ((.lock ⟨"n", "m", "a", Time.zero, Time.zero⟩ "k" "kv", []), .start)]
        (putObject Codec.json ⟨fun _ => none⟩ "k" .empty "kv" false [false] (newKV [])).2).2.db =
      (Mutation.runs Codec.json ⟨fun _ => none⟩ order
        (putObject Codec.json ⟨fun _ => none⟩ "k" .empty "kv" false [false] (newKV [])).2).db := by
  rintro ⟨order, hp, heq⟩
  obtain ⟨x, y, rfl⟩ := List.length_eq_two.mp hp.length_eq
  have hx := hp.subset (List.mem_cons_self x [y])
  have hy := hp.subset (List.mem_cons_of_mem x (List.mem_singleton_self y))
  simp only [List.mem_cons, List.mem_singleton, List.not_mem_nil, or_false] at hx hy
  rcases hx with rfl | rfl <;> rcases hy with rfl | rfl <;> revert hp heq <;> decide

/-! ## Emission order

With emission on, a goroutine emits the update its write transaction committed,
but the emit is a step of its own: another goroutine can commit, or emit, in
between. A peer that replays the node's messages ends where the node does on
the schedules where at most one goroutine at a time stands between its commit
and its emit; on the others the messages can leave the node in another order
than the commits. -/

/-- The update a goroutine has committed and not yet emitted. -/
def Phase.unsent : Phase → Option KVUpdate
  | .wrote u => some u
  | _ => none

/-- The updates committed and not yet emitted, goroutine by goroutine. -/
def inFlight (ts : Threads) : List KVUpdate := ts.filterMap fun t => t.2.unsent

theorem inFlight_start (cs : List Call) : inFlight (cs.map fun c => (c, .start)) = [] := by
  simp [inFlight, List.filterMap_map, Function.comp_def, Phase.unsent]

theorem inFlight_set {ts : Threads} {i : Nat} {c : Call} {p : Phase}
    (hi : ts[i]? = some (c, p)) (p' : Phase) :
    (p.unsent.toList ++ inFlight (ts.set i (c, p'))).Perm (p'.unsent.toList ++ inFlight ts) :=
  filterMap_set_perm (fun t : Call × Phase => t.2.unsent) hi (c, p')

section Emission

variable (J : Json) (net : Cluster)

/-- What a step other than an emit does from `s`, with emission on: nothing,
or commit an update under `root` and stand before its emit. -/
def Commits (root : String) (s : KV) (r : Phase × KV) : Prop :=
  (r.1.unsent = none ∧ r.2 = s) ∨
  ∃ u, Emittable J u ∧ r = (.wrote u, { s with db := applyUpdate J root u s.db })

theorem commits_self (root : String) (s : KV) {p : Phase} (hp : p.unsent = none) :
    Commits J root s (p, s) :=
  .inl ⟨hp, rfl⟩

theorem WriteStep.commits {root : String} {e : List Bool} {u : KVUpdate} {s : KV}
    {r : Phase × KV} (h : WriteStep J root e u s r) (he : e.headD true = true) :
    Commits J root s r := by
  rcases h with ⟨-, rfl⟩ | ⟨hu, rfl⟩
  · exact commits_self J root s rfl
  · exact .inr ⟨u, hu, by rw [he]; rfl⟩

theorem WriteStep.unsent {J : Json} {root : String} {e : List Bool} {u u' : KVUpdate} {s : KV}
    {r : Phase × KV} (h : WriteStep J root e u s r) (hu : r.1.unsent = some u') :
    u' = u ∧ Emittable J u := by
  rcases h with ⟨-, rfl⟩ | ⟨hE, rfl⟩
  · cases hu
  · revert hu
    split <;> intro hu <;> cases hu
    exact ⟨rfl, hE⟩

theorem readStep_quiet (key root : String) (s : KV) :
    (readStep J key root s).1.unsent = none ∧ (readStep J key root s).2 = s ∧
      ∀ obj, (readStep J key root s).1 = .read obj → readObject J s.db key root = .ok obj := by
  unfold readStep
  rw [getObject_apply]
  cases h : readObject J s.db key root with
  | error => exact ⟨rfl, rfl, fun _ h' => by cases h'⟩
  | ok obj => exact ⟨rfl, rfl, fun _ h' => by cases h'; rfl⟩

/-- What a step other than an emit does: it writes nothing and leaves the node
alone, standing, after the read of `Lock` or `Unlock`, on the envelope it read;
or it is the write step, under the call's root, of the update `nextWrite`
names, with the call's emit flags or, for `Lock` and `Unlock`, emission on. -/
theorem step_write (e : List Bool) (m : Mutation) {p : Phase} (hp : p.unsent = none) (s : KV) :
    (m.nextWrite J p = none ∧ (m.step J net e p s).1.unsent = none ∧ (m.step J net e p s).2 = s ∧
        ∀ obj, (m.step J net e p s).1 = .read obj → readObject J s.db m.key m.root = .ok obj) ∨
      ∃ e' u, (e' = e ∨ e' = [true]) ∧ m.nextWrite J p = some u ∧
        WriteStep J m.root e' u s (m.step J net e p s) := by
  cases p with
  | start =>
    cases m with
    | put now key value root secret => exact .inr ⟨e, _, .inl rfl, rfl, putStep_write J key _ root e s⟩
    | putObject key v root _ => exact .inr ⟨e, _, .inl rfl, rfl, putStep_write J key v root e s⟩
    | deleteKey key root =>
      exact .inr ⟨e, _, .inl rfl, rfl,
        deleteStep_write J "delete:key" (by decide) deleteKeyTx key root (fun _ => rfl) e s⟩
    | deleteBucket key root =>
      exact .inr ⟨e, _, .inl rfl, rfl,
        deleteStep_write J "delete:bucket" (by decide) deleteBucketTx key root (fun _ => rfl) e s⟩
    | lock _ key root => exact .inl ⟨rfl, readStep_quiet J key root s⟩
    | unlock l => exact .inl ⟨rfl, readStep_quiet J l.key l.root s⟩
  | read obj =>
    cases m with
    | lock c key root => exact .inr ⟨[true], _, .inr rfl, rfl, putStep_write J key _ root [true] s⟩
    | unlock l =>
      simp only [Mutation.step, Mutation.nextWrite]
      split
      · exact .inl ⟨rfl, rfl, rfl, fun _ h => by cases h⟩
      · exact .inr ⟨[true], _, .inr rfl, rfl, putStep_write J _ _ _ [true] s⟩
    | _ => exact .inl ⟨rfl, rfl, rfl, fun _ h => by cases h⟩
  | wrote u => cases hp
  | finished => rw [step_finished]; exact .inl ⟨rfl, rfl, rfl, fun _ h => by cases h⟩

/-- With emission on, a step other than an emit does nothing, or commits an
update and stands before its emit. -/
theorem step_commits {e : List Bool} (he : e.headD true = true) (m : Mutation) {p : Phase}
    (hp : p.unsent = none) (s : KV) : Commits J m.root s (m.step J net e p s) := by
  rcases step_write J net e m hp s with ⟨-, h, h', -⟩ | ⟨e', u, he', -, hw⟩
  · exact .inl ⟨h, h'⟩
  · exact hw.commits J (by rcases he' with rfl | rfl; exacts [he, rfl])

/-- An update a goroutine stands before emitting is the one its step wrote,
and can be emitted. -/
theorem step_unsent {e : List Bool} {m : Mutation} {p : Phase} {s : KV} {u : KVUpdate}
    (h : (m.step J net e p s).1.unsent = some u) : m.nextWrite J p = some u ∧ Emittable J u := by
  cases hp : p.unsent with
  | some w =>
    obtain rfl : p = .wrote w := by cases p <;> cases hp; rfl
    rw [step_wrote] at h
    cases h
  | none =>
    rcases step_write J net e m hp s with ⟨-, hq, -⟩ | ⟨e', w, -, hw', hw⟩
    · rw [hq] at h
      cases h
    · obtain ⟨rfl, hE⟩ := hw.unsent h
      exact ⟨hw', hE⟩

/-- Whether, while the node runs `sched`, every emit is that of the goroutine
that committed first among those that have committed and not yet emitted: the
node's messages then leave it in the order its write transactions committed.
`q` holds those goroutines, oldest commit first. -/
def emitsInOrder : List Nat → Threads → KV → List Nat → Bool
  | [], _, _, _ => true
  | i :: sched, ts, s, q =>
    let r := schedStep J net i ts s
    match (ts[i]?).bind fun t => t.2.unsent with
    | some _ => q.head? == some i && emitsInOrder sched r.1 r.2 q.tail
    | none =>
      emitsInOrder sched r.1 r.2 (if ((r.1[i]?).bind fun t => t.2.unsent).isSome then q ++ [i] else q)

end Emission

/-- The updates that the goroutines `q`, in that order, have committed and not
yet emitted. -/
def queued (ts : Threads) (q : List Nat) : List KVUpdate :=
  q.filterMap fun i => (ts[i]?).bind fun t => t.2.unsent

theorem queued_set {ts : Threads} {q : List Nat} {i : Nat} (hi : i ∉ q) (t : Call × Phase) :
    queued (ts.set i t) q = queued ts q :=
  List.filterMap_congr fun j hj => by
    rw [List.getElem?_set_ne (by rintro rfl; exact hi hj)]

section Replay

variable (J : Json) (net net' : Cluster) (c : Claim)

/-- A node run from `s0`, against a peer that replayed from `p0` every message
the node sent since. The goroutines write under `kv` with emission on; `q`
lists those that have committed and not emitted, in commit order; and the
node's database is the peer's with their updates applied in that order. -/
structure Replays (s0 p0 : KV) (ts : Threads) (s : KV) (q : List Nat) : Prop where
  calls : ∀ t ∈ ts, t.1.1.root = "kv" ∧ t.1.2.headD true = true
  nodup : q.Nodup
  queue : ∀ i, i ∈ q ↔ ((ts[i]?).bind fun t => t.2.unsent).isSome
  emittable : ∀ u ∈ queued ts q, Emittable J u
  log : ∃ msgs, s.sent = s0.sent ++ msgs ∧ (∀ m ∈ msgs, (carried J m).isSome) ∧
    s.db = applyAll J "kv" (queued ts q) (updateLoop J net' c msgs p0).db

variable {J net net' c}

/-- A goroutine with nothing to emit is not queued. -/
theorem Replays.not_mem {s0 p0 : KV} {ts : Threads} {s : KV} {q : List Nat}
    (h : Replays J net' c s0 p0 ts s q) {i : Nat} {x : Call} {p : Phase} (hi : ts[i]? = some (x, p))
    (hp : p.unsent = none) : i ∉ q := fun hm => by
  have := (h.queue i).mp hm
  simp [hi, hp] at this

/-- The emit of the goroutine at the head of the queue: its message joins the
peer's log, and the peer applies the update the node applied first. -/
theorem Replays.emit {s0 p0 : KV} {ts : Threads} {s : KV} {i : Nat} {q : List Nat}
    (h : Replays J net' c s0 p0 ts s (i :: q)) {m : Mutation} {e : List Bool} {u : KVUpdate}
    (hi : ts[i]? = some ((m, e), .wrote u)) :
    Replays J net' c s0 p0 (ts.set i ((m, e), .finished))
      (emitEvent J net u.updateType u.key u.value s).2 q := by
  obtain ⟨msgs, hsent, hc, hdb⟩ := h.log
  have hiq : i ∉ q := (List.nodup_cons.mp h.nodup).1
  have hq : queued ts (i :: q) = u :: queued ts q := by simp [queued, hi, Phase.unsent]
  obtain ⟨ht, data, hd⟩ := h.emittable u (by simp [hq])
  refine ⟨forall_mem_set h.calls (a := ((m, e), .finished))
    (h.calls ((m, e), .wrote u) (List.getElem?_mem hi)) i,
    (List.nodup_cons.mp h.nodup).2, fun j => ?_, fun w hw => h.emittable w ?_,
    msgs ++ [⟨"update", data, "KVUpdate"⟩], ?_, fun m hm => ?_, ?_⟩
  · by_cases hj : j = i
    · subst hj
      simp [List.getElem?_set_self (List.getElem?_eq_some_iff.mp hi).1, Phase.unsent, hiq]
    · rw [List.getElem?_set_ne (Ne.symm hj), ← h.queue j]
      simp [hj]
  · rw [queued_set hiq] at hw
    simp [hq, hw]
  · simp [emitEvent_state J net hd, hsent]
  · rcases List.mem_append.mp hm with hm | hm
    · exact hc m hm
    · rw [List.mem_singleton.mp hm, carried_of_marshal J hd ht _ rfl]; rfl
  · rw [emitEvent_db, queued_set hiq, updateLoop_snoc J net' c hc hd ht, hdb, hq, applyAll_cons]

/-- A step of a goroutine that neither emits nor commits changes nothing the
invariant reads. -/
theorem Replays.quiet {s0 p0 : KV} {ts : Threads} {s : KV} {q : List Nat}
    (h : Replays J net' c s0 p0 ts s q) {i : Nat} {x : Call} {p p' : Phase}
    (hi : ts[i]? = some (x, p)) (hp : p.unsent = none) (hp' : p'.unsent = none) :
    Replays J net' c s0 p0 (ts.set i (x, p')) s q := by
  have hiq := h.not_mem hi hp
  obtain ⟨msgs, hsent, hc, hdb⟩ := h.log
  refine ⟨forall_mem_set h.calls (a := (x, p')) (h.calls (x, p) (List.getElem?_mem hi)) i, h.nodup,
    fun j => ?_,
    by rw [queued_set hiq]; exact h.emittable, msgs, hsent, hc, by rw [queued_set hiq]; exact hdb⟩
  by_cases hj : j = i
  · subst hj
    simp [List.getElem?_set_self (List.getElem?_eq_some_iff.mp hi).1, hp', hiq]
  · rw [List.getElem?_set_ne (Ne.symm hj)]
    exact h.queue j

/-- A commit joins the queue last: the node applies its update after those
still to be emitted. -/
theorem Replays.commit {s0 p0 : KV} {ts : Threads} {s : KV} {q : List Nat}
    (h : Replays J net' c s0 p0 ts s q) {i : Nat} {x : Call} {p : Phase}
    (hi : ts[i]? = some (x, p)) (hp : p.unsent = none) (hx : x.1.root = "kv" ∧ x.2.headD true = true)
    {u : KVUpdate} (hu : Emittable J u) :
    Replays J net' c s0 p0 (ts.set i (x, .wrote u)) { s with db := applyUpdate J "kv" u s.db }
      (q ++ [i]) := by
  have hiq := h.not_mem hi hp
  have hlen : i < ts.length := (List.getElem?_eq_some_iff.mp hi).1
  have hq : queued (ts.set i (x, .wrote u)) (q ++ [i]) = queued ts q ++ [u] := by
    simp [queued, List.filterMap_append, List.getElem?_set_self hlen, Phase.unsent]
    exact queued_set hiq _
  obtain ⟨msgs, hsent, hc, hdb⟩ := h.log
  refine ⟨forall_mem_set h.calls hx i, List.nodup_append.mpr ⟨h.nodup, List.nodup_singleton i,
    by simpa using hiq⟩, fun j => ?_, fun w hw => ?_, msgs, hsent, hc,
    by rw [hq, applyAll_concat, ← hdb]⟩
  · by_cases hj : j = i
    · subst hj
      simp [List.getElem?_set_self hlen, Phase.unsent]
    · rw [List.getElem?_set_ne (Ne.symm hj), List.mem_append, ← h.queue j]
      simp [hj]
  · rw [hq, List.mem_append, List.mem_singleton] at hw
    exact hw.elim (h.emittable w) fun hw => hw ▸ hu

theorem schedStep_of_some {i : Nat} {ts : Threads} {s : KV} {m : Mutation} {e : List Bool}
    {p : Phase} (hi : ts[i]? = some ((m, e), p)) :
    schedStep J net i ts s = (ts.set i ((m, e), (m.step J net e p s).1), (m.step J net e p s).2) := by
  simp only [schedStep, hi]

/-- A step of the goroutine at the head of the queue is its emit. -/
theorem Replays.step_emit {s0 p0 : KV} {ts : Threads} {s : KV} {q : List Nat}
    (h : Replays J net' c s0 p0 ts s q) {i : Nat} {u : KVUpdate}
    (hu : ((ts[i]?).bind fun t => t.2.unsent) = some u) (hhead : q.head? = some i) :
    Replays J net' c s0 p0 (schedStep J net i ts s).1 (schedStep J net i ts s).2 q.tail := by
  obtain ⟨⟨⟨m, e⟩, p⟩, hi, hp⟩ := Option.bind_eq_some.mp hu
  obtain rfl : p = .wrote u := by cases p <;> cases hp; rfl
  rw [schedStep_of_some hi, step_wrote]
  cases q with
  | nil => cases hhead
  | cons j q => cases Option.some.inj hhead; exact h.emit hi

/-- A step of a goroutine with nothing to emit either changes nothing the
invariant reads or commits, and a commit joins the queue. -/
theorem Replays.step_commit {s0 p0 : KV} {ts : Threads} {s : KV} {q : List Nat}
    (h : Replays J net' c s0 p0 ts s q) {i : Nat} (hu : ((ts[i]?).bind fun t => t.2.unsent) = none) :
    Replays J net' c s0 p0 (schedStep J net i ts s).1 (schedStep J net i ts s).2
      (if (((schedStep J net i ts s).1[i]?).bind fun t => t.2.unsent).isSome then q ++ [i] else q) := by
  cases hi : ts[i]? with
  | none => simpa [schedStep, hi] using h
  | some t =>
    obtain ⟨⟨m, e⟩, p⟩ := t
    have hp : p.unsent = none := by simpa [hi] using hu
    have hx : m.root = "kv" ∧ e.headD true = true := h.calls _ (List.getElem?_mem hi)
    rw [schedStep_of_some hi]
    simp only [List.getElem?_set_self (List.getElem?_eq_some_iff.mp hi).1, Option.some_bind]
    rcases step_commits J net hx.2 m hp s with ⟨hq, hs⟩ | ⟨u, hu, hr⟩
    · simp only [hq, hs, Option.isSome_none, Bool.false_eq_true, if_false]
      exact h.quiet hi hp hq
    · simp only [hr, Phase.unsent, Option.isSome_some, if_true, hx.1]
      exact h.commit hi hp hx hu

theorem Replays.run {s0 p0 : KV} :
    ∀ (sched : List Nat) {ts : Threads} {s : KV} {q : List Nat}, Replays J net' c s0 p0 ts s q →
      emitsInOrder J net sched ts s q = true →
      ∃ q', Replays J net' c s0 p0 (interleave J net sched ts s).1 (interleave J net sched ts s).2 q'
  | [], _, _, q, h, _ => ⟨q, h⟩
  | i :: sched, ts, s, q, h, hord => by
    simp only [emitsInOrder] at hord
    split at hord
    · next hu =>
      simp only [Bool.and_eq_true, beq_iff_eq] at hord
      exact Replays.run sched (h.step_emit hu hord.1) hord.2
    · next hu => exact Replays.run sched (h.step_commit hu) hord

end Replay

end Cave
