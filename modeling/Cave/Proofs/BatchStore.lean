import Cave.Proofs.Batch
import Cave.Proofs.Commute

/-!
# What a batch's workers answer, and the store they leave

The workers of a multi-query batch call the engine in whatever order the
scheduler gives them. Each call is atomic, and which call it is is fixed when
the handler starts the worker: the entry, the worker its verb names, and the
time `clock j` its `Put` reads (`taskCall`). What the call does to the store is
an update (`Worker.update`, `Worker.call_db`).

Along any schedule the batch is therefore a serial run of the calls made so
far, in the order they were made (`CallLog`): the node is the one that run
leaves, and the answers the workers hold or have sent are its answers, each
computed on the node the calls before it left. The only step with anything in
it is a worker's call, which appends itself to the run. When the handler has
answered, every worker has called, so the run is an ordering of all of them,
and the response is the handler's own answers and that run's
(`multi_query_fan_in`). If the entries that write name unrelated keys, any two
updates of the run commute, and the batch leaves the store that running its
entries one after another, in the order of the batch, leaves
(`batch_store_serial`).
-/

namespace Cave

open Go

/-- The store after an update that may be absent. -/
def applyOpt (J : Json) (root : String) : Option KVUpdate → Bucket → Bucket
  | some u, db => applyUpdate J root u db
  | none, db => db

theorem sorted_applyOpt (J : Json) (root : String) (o : Option KVUpdate) {db : Bucket}
    (h : Sorted db) : Sorted (applyOpt J root o db) := by
  cases o with
  | none => exact h
  | some u => exact sorted_stable J root u db h

/-- The update a worker's call stands for: `doPOST` puts the envelope `Put`
builds from the entry's bytes, encrypted for a secret entry, and `doDELETE`
deletes the key; `doGET` writes nothing, nor does a `doPOST` whose encryption
fails. -/
def Worker.update (J : Json) (C : Crypto) (now : Time) : Worker → QueryObject → Option KVUpdate
  | .get, _ => none
  | .post, q =>
    match if q.secret then C.encrytJSON (.text q.value) else .ok (utf8 q.value) with
    | .ok buf => some ⟨"put:key", q.key, ⟨now, q.secret, buf, [], !J.valid buf⟩⟩
    | .error _ => none
  | .delete, q => some ⟨"delete:key", q.key, .empty⟩

section Workers

variable (J : Json) (net : Cluster) (C : Crypto)

/-- A worker's call leaves the store its update leaves. -/
theorem Worker.call_db (w : Worker) (now : Time) (q : QueryObject) (s : KV) :
    (w.call J net C now q s).2.db = applyOpt J "kv" (w.update J C now q) s.db := by
  cases w with
  | get =>
    simp only [Worker.call, doGET, bind_apply, capture_apply, get_apply]
    cases readObject J s.db q.key "kv" with
    | error f => cases f <;> rfl
    | ok obj => dsimp only [Except.map]; split <;> rfl
  | post =>
    simp only [Worker.call, doPOST, Worker.update]
    cases (if q.secret then C.encrytJSON (.text q.value) else .ok (utf8 q.value)) with
    | error => rfl
    | ok buf =>
      simp only [bind_apply, capture_apply]
      rw [applyOpt, ← putObject_applyUpdate J net q.key _ "kv" q.secret [] s]
      show _ = (put J net now q.key buf "kv" q.secret [] s).2.db
      rcases put J net now q.key buf "kv" q.secret [] s with ⟨(_ | _) | _, s'⟩ <;> rfl
  | delete =>
    simp only [Worker.call, doDELETE, Worker.update, bind_apply, capture_apply]
    rw [applyOpt, ← deleteKey_applyUpdate J net q.key "kv" [] s]
    rcases deleteKey J net q.key "kv" [] s with ⟨(_ | _) | _, s'⟩ <;> rfl

end Workers

/-! ## What one step does to the workers and the store -/

section Steps

variable (J : Json) (net : Cluster) (C : Crypto) (upper : String → String) (clock : Nat → Time)
  (id : String)

/-- The handler touches no store, and it changes the workers only by starting
one for the entry at the head of its loop. -/
theorem multiQueryHandler_cases (b : Batch) :
    (multiQueryHandler upper clock id b).node = b.node ∧
      ((multiQueryHandler upper clock id b).tasks = b.tasks ∨
        ∃ q rest w, b.handler = .spawn (q :: rest) ∧ worker upper q.verb = some w ∧
          (multiQueryHandler upper clock id b).tasks = b.tasks ++ [.ready w q (clock b.tasks.length)]) := by
  unfold multiQueryHandler
  split
  · exact ⟨rfl, .inl rfl⟩
  · next q rest h =>
    split
    · next w hw => exact ⟨rfl, .inr ⟨q, rest, w, h, hw, rfl⟩⟩
    · split <;> exact ⟨rfl, .inl rfl⟩
  · split <;> exact ⟨rfl, .inl rfl⟩
  · exact ⟨rfl, .inl rfl⟩
  · split
    · exact ⟨rfl, .inl rfl⟩
    · split <;> exact ⟨rfl, .inl rfl⟩
  all_goals exact ⟨rfl, .inl rfl⟩

/-- A worker's step leaves it past its call, changes no other worker, and
touches the store only by the call of a worker still holding its entry. -/
theorem taskStep_cases (t : Task) (b : Batch) :
    (taskStep J net C t b).1.isReady = false ∧ (taskStep J net C t b).2.tasks = b.tasks ∧
      (taskStep J net C t b).2.node = match t with
        | .ready w q now => (w.call J net C now q b.node).2
        | _ => b.node := by
  unfold taskStep
  split
  · refine ⟨?_, ?_, ?_⟩ <;> split <;> next h => simp [h, Task.isReady]
  · split <;> exact ⟨rfl, rfl, rfl⟩
  all_goals exact ⟨rfl, rfl, rfl⟩

end Steps

/-! ## The log of calls -/

/-- The worker `j` is past its call. -/
def Called (ts : List Task) (j : Nat) : Prop := ∃ t, ts[j]? = some t ∧ t.isReady = false

theorem called_append_ready {ts : List Task} (w : Worker) (q : QueryObject) (now : Time) (j : Nat) :
    Called (ts ++ [.ready w q now]) j ↔ Called ts j := by
  unfold Called
  rcases Nat.lt_or_ge j ts.length with hj | hj
  · rw [List.getElem?_append_left hj]
  · rw [List.getElem?_append_right hj, List.getElem?_eq_none hj]
    rcases Nat.lt_or_ge (j - ts.length) 1 with h1 | h1
    · simp [show j - ts.length = 0 by omega, Task.isReady]
    · simp [List.getElem?_eq_none (show [Task.ready w q now].length ≤ j - ts.length by simpa)]

theorem called_set {ts : List Task} {j : Nat} {t t' : Task} (ht : ts[j]? = some t)
    (ht' : t'.isReady = false) (i : Nat) : Called (ts.set j t') i ↔ Called ts i ∨ i = j := by
  unfold Called
  by_cases hi : i = j
  · subst hi
    have hj : i < ts.length := (List.getElem?_eq_some_iff.mp ht).1
    simp [List.getElem?_set_self hj, ht']
  · simp [List.getElem?_set_ne (Ne.symm hi), hi]

section Log

variable (J : Json) (net : Cluster) (C : Crypto) (upper : String → String) (clock : Nat → Time)
  (qs : List QueryObject)

/-- The update the `j`-th worker of a batch on the entries `qs` stands for: the
`j`-th entry that names a worker, called at the time `clock j`. -/
def taskUpdate (j : Nat) : Option KVUpdate :=
  ((spawned upper qs)[j]?).bind fun q => (worker upper q.verb).bind fun w => w.update J C (clock j) q

/-- The store `db` after the updates of the workers `order`, one after
another. -/
def logged (db : Bucket) (order : List Nat) : Bucket :=
  order.foldl (fun db j => applyOpt J "kv" (taskUpdate J C upper clock qs j) db) db

/-- The call of the `j`-th worker of a batch on the entries `qs`: the worker the
`j`-th entry that names one names, on that entry, at the time `clock j`. -/
def taskCall (j : Nat) : Option (Go QueryObject) :=
  ((spawned upper qs)[j]?).bind fun q => (worker upper q.verb).map fun w => w.call J net C (clock j) q

/-- One call of a serial run: the worker's answer, when its call returns one,
joins the answers, and the node is the one the call leaves. -/
def serialStep (acc : List QueryObject × KV) (j : Nat) : List QueryObject × KV :=
  match taskCall J net C upper clock qs j with
  | some call => (acc.1 ++ (call acc.2).1.toOption.toList, (call acc.2).2)
  | none => acc

/-- The workers `order` of a batch on `qs` calling one after another from the
node `s`, each on the node the calls before it left: their answers, in that
order, and the node they leave. -/
def serial (order : List Nat) (s : KV) : List QueryObject × KV :=
  order.foldl (serialStep J net C upper clock qs) ([], s)

theorem serial_concat (order : List Nat) (j : Nat) (s : KV) :
    serial J net C upper clock qs (order ++ [j]) s =
      serialStep J net C upper clock qs (serial J net C upper clock qs order s) j :=
  List.foldl_concat _ _ _ _

/-- A call of a serial run applies its worker's update. -/
theorem serialStep_db (acc : List QueryObject × KV) (j : Nat) :
    (serialStep J net C upper clock qs acc j).2.db =
      applyOpt J "kv" (taskUpdate J C upper clock qs j) acc.2.db := by
  unfold serialStep taskCall taskUpdate
  cases (spawned upper qs)[j]? with
  | none => rfl
  | some q =>
    simp only [Option.some_bind]
    cases worker upper q.verb with
    | none => rfl
    | some w => exact Worker.call_db J net C w (clock j) q acc.2

/-- The node a serial run leaves has the store its workers' updates give. -/
theorem serial_db (order : List Nat) (s : KV) :
    (serial J net C upper clock qs order s).2.db = logged J C upper clock qs s.db order := by
  suffices h : ∀ acc, (order.foldl (serialStep J net C upper clock qs) acc).2.db =
      logged J C upper clock qs acc.2.db order from h _
  induction order with
  | nil => intro; rfl
  | cons j order ih =>
    intro acc
    rw [List.foldl_cons, ih, serialStep_db]
    rfl

/-- A worker's call leaves it holding the answer the call returns, if any. -/
theorem taskStep_ready_answer (w : Worker) (q : QueryObject) (now : Time) (b : Batch) :
    (taskStep J net C (.ready w q now) b).1.answer = (w.call J net C now q b.node).1.toOption := by
  simp only [taskStep]
  split <;> next h => rw [h]; rfl

/-- What a schedule has done to a batch on `qs` started on the node `s₀`: a
worker still holding its entry makes the call `taskCall` names, and the workers
past their call have called once each, in an order whose serial run from `s₀`
gives the node and, up to order, the answers the workers hold or have sent. -/
structure CallLog (s₀ : KV) (b : Batch) : Prop where
  ready : ∀ {j w q now}, b.tasks[j]? = some (.ready w q now) →
    taskCall J net C upper clock qs j = some (w.call J net C now q)
  log : ∃ order : List Nat, order.Nodup ∧ (∀ j, j ∈ order ↔ Called b.tasks j) ∧
    (b.tasks.filterMap Task.answer).Perm (serial J net C upper clock qs order s₀).1 ∧
    b.node = (serial J net C upper clock qs order s₀).2

end Log

/-! ## Workers on unrelated keys -/

/-- An entry whose worker writes: a PUT, a POST or a DELETE. -/
def Writes (upper : String → String) (q : QueryObject) : Prop :=
  worker upper q.verb = some .post ∨ worker upper q.verb = some .delete

instance decWrites (upper : String → String) (q : QueryObject) : Decidable (Writes upper q) :=
  inferInstanceAs (Decidable (_ ∨ _))

section Log

variable (J : Json) (C : Crypto) (upper : String → String) (clock : Nat → Time)
  (qs : List QueryObject)

/-- A worker that stands for an update writes, and its update is on its entry's
key. -/
theorem taskUpdate_spec {j : Nat} {u : KVUpdate} (h : taskUpdate J C upper clock qs j = some u) :
    ∃ q, (spawned upper qs)[j]? = some q ∧ Writes upper q ∧ u.key = q.key := by
  unfold taskUpdate at h
  obtain ⟨q, hq, hw⟩ := Option.bind_eq_some.mp h
  obtain ⟨w, hw', hu⟩ := Option.bind_eq_some.mp hw
  refine ⟨q, hq, ?_⟩
  cases w with
  | get => cases hu
  | post =>
    simp only [Worker.update] at hu
    split at hu
    · cases hu; exact ⟨.inl hw', rfl⟩
    · cases hu
  | delete => cases hu; exact ⟨.inr hw', rfl⟩

/-- When the entries that write name unrelated keys, the updates of two workers
commute on a sorted store. -/
theorem taskUpdate_comm
    (hw : qs.Pairwise fun q q' => Writes upper q → Writes upper q' → Unrelated q.key q'.key)
    {i j : Nat} (hij : i ≠ j) {db : Bucket} (hdb : Sorted db) :
    applyOpt J "kv" (taskUpdate J C upper clock qs j) (applyOpt J "kv" (taskUpdate J C upper clock qs i) db) =
      applyOpt J "kv" (taskUpdate J C upper clock qs i)
        (applyOpt J "kv" (taskUpdate J C upper clock qs j) db) := by
  cases hi : taskUpdate J C upper clock qs i with
  | none => rfl
  | some u =>
    cases hj : taskUpdate J C upper clock qs j with
    | none => rfl
    | some u' =>
      obtain ⟨q, hq, hwq, hk⟩ := taskUpdate_spec J C upper clock qs hi
      obtain ⟨q', hq', hwq', hk'⟩ := taskUpdate_spec J C upper clock qs hj
      have hs := List.pairwise_iff_getElem.mp
        (hw.sublist (List.filter_sublist qs) : (spawned upper qs).Pairwise _)
      obtain ⟨hi', rfl⟩ := List.getElem?_eq_some_iff.mp hq
      obtain ⟨hj', rfl⟩ := List.getElem?_eq_some_iff.mp hq'
      have hu : Unrelated u.key u'.key := by
        rw [hk, hk']
        rcases Nat.lt_or_gt_of_ne hij with h | h
        · exact hs i j hi' hj' h hwq hwq'
        · exact And.symm (hs j i hj' hi' h hwq' hwq)
      exact (applyUpdate_comm J "kv" hu hdb).symm

/-- On a batch whose writing entries name unrelated keys, the order of the log
does not change the store it gives. -/
theorem logged_perm
    (hw : qs.Pairwise fun q q' => Writes upper q → Writes upper q' → Unrelated q.key q'.key)
    {order order' : List Nat} (h : order.Perm order') {db : Bucket} (hdb : Sorted db) :
    logged J C upper clock qs db order = logged J C upper clock qs db order' :=
  foldl_perm_of_comm (fun _ _ h => sorted_applyOpt J "kv" _ h) h
    (fun _ _ _ _ hij _ hz => taskUpdate_comm J C upper clock qs hw hij hz) hdb

end Log

/-! ## Along a schedule -/

section Runs

variable {J : Json} {net : Cluster} {C : Crypto} {upper : String → String} {clock : Nat → Time}
  {id : String} {qs : List QueryObject} {s₀ : KV} {b : Batch}

theorem callLog_start (s : KV) : CallLog J net C upper clock qs s (Batch.start qs s) where
  ready h := by simp [Batch.start] at h
  log := ⟨[], List.nodup_nil, fun j => by simp [Called, Batch.start], by simp [Batch.start, serial],
    rfl⟩

/-- The worker the handler starts holds the next entry that names one. -/
theorem BatchInv.spawned_next (hb : BatchInv J net C upper id qs b) {q : QueryObject}
    {rest : List QueryObject} {w : Worker} (hh : b.handler = .spawn (q :: rest))
    (hw : worker upper q.verb = some w) : (spawned upper qs)[b.tasks.length]? = some q := by
  obtain ⟨pre, hpre, hf, -⟩ := hb.split
  rw [hh] at hpre
  rw [hpre, spawned_append, ← hf.length_eq, List.getElem?_append_right (le_refl _), Nat.sub_self]
  simp [Handler.pending, spawned, List.filter_cons, hw]

theorem callLog_handler (hb : BatchInv J net C upper id qs b)
    (hs : CallLog J net C upper clock qs s₀ b) :
    CallLog J net C upper clock qs s₀ (multiQueryHandler upper clock id b) := by
  obtain ⟨order, hnd, hmem, hans, hnode⟩ := hs.log
  obtain ⟨hnode', htasks | ⟨q, rest, w, hh, hw, htasks⟩⟩ := multiQueryHandler_cases upper clock id b
  · exact ⟨fun h => hs.ready (htasks ▸ h), order, hnd, htasks ▸ hmem, htasks ▸ hans, hnode' ▸ hnode⟩
  · refine ⟨fun {j w' q' now} h => ?_, order, hnd, fun j => ?_, ?_, hnode' ▸ hnode⟩
    · rw [htasks] at h
      rcases Nat.lt_or_ge j b.tasks.length with hj | hj
      · rw [List.getElem?_append_left hj] at h
        exact hs.ready h
      · rw [List.getElem?_append_right hj] at h
        obtain rfl : j = b.tasks.length := by
          by_contra hne
          rw [List.getElem?_eq_none (by simp; omega)] at h
          cases h
        simp only [Nat.sub_self, List.getElem?_cons_zero, Option.some.injEq, Task.ready.injEq] at h
        obtain ⟨rfl, rfl, rfl⟩ := h
        simp [taskCall, hb.spawned_next hh hw, hw]
    · rw [htasks, called_append_ready]
      exact hmem j
    · simpa [htasks, List.filterMap_append, Task.answer] using hans

/-- A worker replaced by one past its call leaves every worker still holding
its entry as it was. -/
theorem CallLog.ready_set (hs : CallLog J net C upper clock qs s₀ b) {j : Nat} {t t' : Task}
    (ht : b.tasks[j]? = some t) (hr' : t'.isReady = false) {i : Nat} {w : Worker}
    {q : QueryObject} {now : Time} (h : (b.tasks.set j t')[i]? = some (.ready w q now)) :
    taskCall J net C upper clock qs i = some (w.call J net C now q) := by
  by_cases hi : i = j
  · subst hi
    rw [List.getElem?_set_self (List.getElem?_eq_some_iff.mp ht).1, Option.some.injEq] at h
    rw [h] at hr'
    cases hr'
  · rw [List.getElem?_set_ne (Ne.symm hi)] at h
    exact hs.ready h

/-- A worker's step past its call that keeps its answer changes nothing the
log reads. -/
theorem CallLog.of_set (hs : CallLog J net C upper clock qs s₀ b) {j : Nat} {t t' : Task}
    (ht : b.tasks[j]? = some t) (hr : t.isReady = false) (hr' : t'.isReady = false)
    (ha : t'.answer = t.answer) {b' : Batch} (htasks : b'.tasks = b.tasks.set j t')
    (hnode : b'.node = b.node) : CallLog J net C upper clock qs s₀ b' := by
  obtain ⟨order, hnd, hmem, hans, hnode₀⟩ := hs.log
  refine ⟨fun h => hs.ready_set ht hr' (htasks ▸ h), order, hnd, fun i => ?_, ?_, hnode ▸ hnode₀⟩
  · rw [htasks, called_set ht hr', hmem]
    exact ⟨.inl, fun h => h.elim id fun hi => hi ▸ ⟨t, ht, hr⟩⟩
  · have hp := filterMap_set_perm (g := Task.answer) ht t'
    rw [ha, List.perm_append_left_iff] at hp
    exact htasks ▸ hp.trans hans

/-- A worker's call appends it to the log: its answer joins the run's answers,
computed on the node the run left. -/
theorem callLog_task (hb : BatchInv J net C upper id qs b) (hs : CallLog J net C upper clock qs s₀ b)
    {j : Nat} {t : Task} (ht : b.tasks[j]? = some t) :
    CallLog J net C upper clock qs s₀
      { (taskStep J net C t b).2 with
        tasks := (taskStep J net C t b).2.tasks.set j (taskStep J net C t b).1 } := by
  obtain ⟨hr, htasks, hnode⟩ := taskStep_cases J net C t b
  cases t with
  | ready w q now =>
    obtain ⟨order, hnd, hmem, hans, hnode₀⟩ := hs.log
    have hj : j ∉ order := fun h => by
      obtain ⟨t, ht', hr'⟩ := (hmem j).mp h
      rw [ht] at ht'
      cases ht'
      cases hr'
    have hrun : serial J net C upper clock qs (order ++ [j]) s₀ =
        ((serial J net C upper clock qs order s₀).1 ++ (w.call J net C now q b.node).1.toOption.toList,
          (w.call J net C now q b.node).2) := by
      rw [serial_concat, serialStep, hs.ready ht, hnode₀]
    refine ⟨fun h => hs.ready_set ht hr (htasks ▸ h), order ++ [j],
      List.nodup_append.mpr ⟨hnd, List.nodup_singleton j, by simpa using hj⟩, fun i => ?_, ?_, ?_⟩
    · simp only [htasks, called_set ht hr, List.mem_append, List.mem_singleton, hmem]
    · have hp := filterMap_set_perm (g := Task.answer) ht (taskStep J net C (.ready w q now) b).1
      rw [taskStep_ready_answer] at hp
      simp only [Task.answer, Option.toList, List.nil_append] at hp
      rw [htasks, hrun]
      exact hp.trans (List.perm_append_comm.trans (hans.append_right _))
    · rw [hrun]
      exact hnode
  | sending q =>
    have hcl := hb.open_of_not_past (hb.not_past (List.getElem?_mem ht) nofun)
    refine hs.of_set ht rfl hr ?_ (by rw [htasks]) hnode
    simp only [taskStep, Chan.send, hcl, Bool.false_eq_true, if_false]
    split_ifs <;> rfl
  | sent q => exact hs.of_set ht rfl hr rfl (by rw [htasks]) hnode
  | crashed text => exact hs.of_set ht rfl hr rfl (by rw [htasks]) hnode

theorem callLog_step (hb : BatchInv J net C upper id qs b)
    (hs : CallLog J net C upper clock qs s₀ b) (a : Nat) :
    CallLog J net C upper clock qs s₀ (b.step J net C upper clock id a) := by
  cases a with
  | zero => exact callLog_handler hb hs
  | succ j =>
    simp only [Batch.step]
    split
    · next t ht => exact callLog_task hb hs ht
    · exact hs

theorem callLog_run : ∀ {b : Batch} (sched : List Nat), BatchInv J net C upper id qs b →
    CallLog J net C upper clock qs s₀ b →
      CallLog J net C upper clock qs s₀ (b.run J net C upper clock id sched)
  | _, [], _, hs => hs
  | _, a :: sched, hb, hs => callLog_run sched (batchInv_step hb a) (callLog_step hb hs a)

/-- Once the handler has answered, every entry that names a worker has one,
and every worker has called. -/
theorem BatchInv.called_of_done (hb : BatchInv J net C upper id qs b) {st : Nat} {rq : MultiQuery}
    (hd : b.handler = .done st rq) (j : Nat) : Called b.tasks j ↔ j < (spawned upper qs).length := by
  obtain ⟨pre, hpre, hf, -⟩ := hb.split
  simp only [hd, Handler.pending, List.append_nil] at hpre
  rw [hpre, hf.length_eq]
  have hsent := hb.sent (by rw [hd]; rfl)
  constructor
  · rintro ⟨t, ht, -⟩
    exact (List.getElem?_eq_some_iff.mp ht).1
  · intro hj
    obtain ⟨q, hq⟩ := hsent _ (List.getElem_mem hj)
    exact ⟨_, List.getElem?_eq_getElem hj, by rw [hq]; rfl⟩

/-- Once the handler has answered, every worker has called, in an order whose
serial run gives the node and the workers' answers. -/
theorem CallLog.done (hb : BatchInv J net C upper id qs b) (hs : CallLog J net C upper clock qs s₀ b)
    {st : Nat} {rq : MultiQuery} (hd : b.handler = .done st rq) :
    ∃ order, order.Perm (List.range (spawned upper qs).length) ∧
      (b.tasks.filterMap Task.answer).Perm (serial J net C upper clock qs order s₀).1 ∧
      b.node = (serial J net C upper clock qs order s₀).2 := by
  obtain ⟨order, hnd, hmem, hans, hnode⟩ := hs.log
  refine ⟨order, (List.perm_ext_iff_of_nodup hnd (List.nodup_range _)).mpr fun j => ?_, hans, hnode⟩
  rw [hmem, hb.called_of_done hd, List.mem_range]

end Runs

/-- A batch whose writing entries name unrelated keys leaves, whatever the
schedule, once its handler has answered, the store that its workers leave when
they call one after another in the order of the batch. -/
theorem batch_store_serial (J : Json) (net : Cluster) (C : Crypto) (upper : String → String)
    (clock : Nat → Time) (id : String) {qs : List QueryObject} {s : KV} (hs : Tidy s.db)
    (hw : qs.Pairwise fun q q' => Writes upper q → Writes upper q' → Unrelated q.key q'.key)
    (sched : List Nat) {st : Nat} {rq : MultiQuery}
    (hd : ((Batch.start qs s).run J net C upper clock id sched).handler = .done st rq) :
    ((Batch.start qs s).run J net C upper clock id sched).node.db =
      logged J C upper clock qs s.db (List.range (spawned upper qs).length) := by
  have h₀ := batchInv_start J net C upper id qs hs
  have hl : CallLog J net C upper clock qs s ((Batch.start qs s).run J net C upper clock id sched) :=
    callLog_run sched h₀ (callLog_start s)
  obtain ⟨order, hperm, -, hnode⟩ := hl.done (batchInv_run sched h₀) hd
  rw [hnode, serial_db]
  exact logged_perm J C upper clock qs hw hperm hs.sorted

/-- A put and a delete on unrelated keys, each worker calling and then sending:
the store is the one the put and then the delete leave. -/
theorem batch_store_serial_put_delete :
    Tidy (newKV []).db ∧
      [(⟨"PUT", "a/x", "1", false, ""⟩ : QueryObject), ⟨"DELETE", "b", "", false, ""⟩].Pairwise
        (fun q q' => Writes (fun v => v) q → Writes (fun v => v) q' → Unrelated q.key q'.key) ∧
      ((Batch.start [⟨"PUT", "a/x", "1", false, ""⟩, ⟨"DELETE", "b", "", false, ""⟩] (newKV [])).run
        Codec.json ⟨fun _ => none⟩ Codec.box (fun v => v) (fun _ => Time.zero) "r"
        [0, 0, 0, 1, 2, 1, 2, 0, 0, 0, 0, 0]).handler =
        .done 200 ⟨"r", [⟨"PUT", "a/x", "1", false, ""⟩, ⟨"DELETE", "b", "", false, ""⟩], false⟩ ∧
      ((Batch.start [⟨"PUT", "a/x", "1", false, ""⟩, ⟨"DELETE", "b", "", false, ""⟩] (newKV [])).run
        Codec.json ⟨fun _ => none⟩ Codec.box (fun v => v) (fun _ => Time.zero) "r"
        [0, 0, 0, 1, 2, 1, 2, 0, 0, 0, 0, 0]).node.db =
        logged Codec.json Codec.box (fun v => v) (fun _ => Time.zero)
          [⟨"PUT", "a/x", "1", false, ""⟩, ⟨"DELETE", "b", "", false, ""⟩] (newKV []).db
          (List.range (spawned (fun v => v)
            [⟨"PUT", "a/x", "1", false, ""⟩, ⟨"DELETE", "b", "", false, ""⟩]).length) := by
  refine ⟨tidy_newKV, ?hw, ?hd, batch_store_serial _ _ _ _ _ _ tidy_newKV ?hw _ ?hd⟩
  · decide
  · decide

/-- A batch of one entry whose verb names no worker: the handler answers it
itself, and responds with status 400 after six steps. -/
example :
    ((Batch.start [⟨"PATCH", "k", "", false, ""⟩] (newKV [])).run Codec.json ⟨fun _ => none⟩
      Codec.box (fun v => v) (fun _ => Time.zero) "r" [0, 0, 0, 0, 0, 0]).handler =
      .done 400 ⟨"r", [⟨"PATCH", "k", "", false, "Verb PATCH is not a valid operation"⟩], true⟩ :=
  by decide

end Cave
