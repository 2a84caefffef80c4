import Mathlib.Data.List.Forall2
import Cave.Proofs.Concurrency
import Cave.Proofs.Order
import Cave.Model.Batch

/-!
# A batch loses and duplicates nothing

Every entry of a batch is answered exactly once: by the handler itself when
its verb names no worker, otherwise by the one worker started for it, which
sends once. Nothing but the drain takes answers out of the channel, and the
drain starts only after the close. So, up to order, what the channel holds and
what the drain took are the handler's own answers and the answers the workers
have sent (`BatchInv.split`).

The channel is closed only after the poll saw as many answers as the batch has
entries. Counting the two kinds of answers, that is the moment every worker
has sent: no worker is left to send on the closed channel, and no answer is
missing from the drain. When the handler answers, the response is therefore a
permutation of the handler's own answers and the answers the workers sent, one
outcome per entry, and its `query_errors`, accumulated over the drain, says
whether any entry has an error. Which state each worker's call ran on is the
subject of the next file.

`BatchInv` is checked for one step of the handler and one step of a worker;
`batchInv_run` carries it along every schedule. On a node whose `kv` exists no
worker's call panics (`Worker.call_ok`), so no actor ever crashes. Last, a weight
that some actor's step always lowers shows that from every state a schedule
reaches, some schedule lets the handler answer (`BatchInv.finishes`): the
response is never vacuous.
-/

namespace Cave

open Go

/-! ## Workers answer

On a node whose root bucket `kv` exists nothing a worker calls panics: the
walks of `getBuckets` fail with errors, and the encoders, the transport and the
bucket methods return theirs. A worker writes every returned error into its
entry, so its call always answers, with its entry annotated. -/


/-- `err := f()` and then code that only answers: when `f` does not panic, one
of the answers of that code. -/
theorem capture_bind_pure {x : Go α} {f : Except Error α → Go β} {P : β → Prop}
    (hf : ∀ a, ∃ b, f a = Pure.pure b ∧ P b) {s : KV} (hx : NoPanic (x s).1) :
    ∃ b, ((capture x >>= f) s).1 = .ok b ∧ P b := by
  rw [bind_apply, capture_apply]
  rcases h : x s with ⟨(e | m) | a, s'⟩
  · obtain ⟨b, hb, hp⟩ := hf (.error e); exact ⟨b, congrArg Prod.fst (congrFun hb s'), hp⟩
  · rw [h] at hx; exact absurd rfl (hx m)
  · obtain ⟨b, hb, hp⟩ := hf (.ok a); exact ⟨b, congrArg Prod.fst (congrFun hb s'), hp⟩

/-- What an answer keeps of its entry: the verb, the key and the secret flag. A
worker writes only the value and the error. -/
def QueryObject.entry (q : QueryObject) : String × String × Bool := (q.verb, q.key, q.secret)

section Workers

variable (J : Json) (net : Cluster) (C : Crypto)

/-- On a node whose `kv` exists, a worker's call answers with its entry
annotated. -/
theorem Worker.call_ok {s : KV} (hkv : (s.db.bucket "kv").isSome) (w : Worker) (now : Time)
    (q : QueryObject) : ∃ q', (w.call J net C now q s).1 = .ok q' ∧ q'.entry = q.entry := by
  cases w with
  | get =>
    refine capture_bind_pure (fun r => ?_) (get_noPanic J hkv q.key)
    split
    · exact ⟨_, rfl, rfl⟩
    · split
      · exact ⟨_, rfl, rfl⟩
      · refine ⟨_, rfl, ?_⟩
        unfold QueryObject.entry
        split
        · split
          split <;> rfl
        · rfl
  | post =>
    show ∃ q', (doPOST J net C now q s).1 = .ok q' ∧ q'.entry = q.entry
    unfold doPOST
    generalize (if q.secret then C.encrytJSON (.text q.value) else .ok (utf8 q.value)) = buf
    cases buf with
    | error => exact ⟨_, rfl, rfl⟩
    | ok =>
      refine capture_bind_pure (fun r => ?_) (put_noPanic J net hkv _ _ _ _ _)
      split <;> exact ⟨_, rfl, rfl⟩
  | delete =>
    refine capture_bind_pure (fun r => ?_) (deleteKey_noPanic J net hkv q.key [])
    split <;> exact ⟨_, rfl, rfl⟩

theorem Worker.call_keeps (w : Worker) (now : Time) (q : QueryObject) :
    Keeps Tidy (w.call J net C now q) := by
  cases w with
  | get =>
    refine Keeps.bind_pure (Keeps.capture (get_keeps _ _)) fun r => ?_
    split
    · exact ⟨_, rfl⟩
    · split <;> exact ⟨_, rfl⟩
  | post =>
    exact doPOST_keeps_of (fun _ _ _ _ _ => put_stable net (tidy_stable J) _ _ _ _ _ _) now q
  | delete => exact doDELETE_keeps_of (fun _ => deleteKey_stable net (tidy_stable J) _ _ _) q

end Workers

/-! ## Accounting -/

section Accounting

variable (upper : String → String)

/-- The answers the handler gives itself: the entries whose verb names no
worker, annotated. -/
def direct (qs : List QueryObject) : List QueryObject :=
  qs.filterMap fun q => if worker upper q.verb = none then some (invalidVerb q) else none

/-- The entries the handler starts a worker for. -/
def spawned (qs : List QueryObject) : List QueryObject :=
  qs.filter fun q => (worker upper q.verb).isSome

theorem direct_append (l l' : List QueryObject) :
    direct upper (l ++ l') = direct upper l ++ direct upper l' :=
  List.filterMap_append _ _ _

theorem spawned_append (l l' : List QueryObject) :
    spawned upper (l ++ l') = spawned upper l ++ spawned upper l' :=
  List.filter_append _ _

/-- Every entry is answered by the handler or gets a worker. -/
theorem length_direct_add_spawned (qs : List QueryObject) :
    (direct upper qs).length + (spawned upper qs).length = qs.length := by
  induction qs with
  | nil => rfl
  | cons q qs ih =>
    simp only [direct, spawned, List.filterMap_cons, List.filter_cons] at ih ⊢
    cases worker upper q.verb <;> simp [ih] <;> omega

end Accounting

/-- The answer a worker has sent. -/
def Task.out : Task → Option QueryObject
  | .sent q => some q
  | _ => none

/-- The answer a worker holds or has sent. -/
def Task.answer : Task → Option QueryObject
  | .sending q | .sent q => some q
  | _ => none

/-- Once every worker has sent, the answers sent are the answers held. -/
theorem filterMap_out_of_sent {ts : List Task} (h : ∀ t ∈ ts, ∃ q, t = .sent q) :
    ts.filterMap Task.out = ts.filterMap Task.answer :=
  List.filterMap_congr fun t ht => by obtain ⟨q, rfl⟩ := h t ht; rfl

/-- Workers that have all sent have sent one answer each. -/
theorem all_sent_of_length : ∀ {ts : List Task}, ts.length ≤ (ts.filterMap Task.out).length →
    ∀ t ∈ ts, ∃ q, t = .sent q
  | [], _ => fun _ h => absurd h (List.not_mem_nil _)
  | t :: ts, h => by
    have hle := List.length_filterMap_le Task.out ts
    cases t with
    | sent q =>
      simp only [List.filterMap_cons, Task.out, List.length_cons] at h
      exact fun x hx => (List.mem_cons.mp hx).elim (fun e => ⟨q, e⟩)
        (all_sent_of_length (by omega) x)
    | ready | sending | crashed =>
      simp only [List.filterMap_cons, Task.out, List.length_cons] at h
      omega

/-- What the handler has drained into the response. -/
def Handler.drained : Handler → List QueryObject
  | .drain rq | .done _ rq => rq.query
  | _ => []

/-- The entries the handler has still to go through. -/
def Handler.pending : Handler → List QueryObject
  | .spawn rest => rest
  | _ => []

/-- The handler has closed the channel. -/
def Handler.isClosed : Handler → Bool
  | .drain _ | .done _ _ => true
  | _ => false

/-- The handler has left the polling loop. -/
def Handler.isPast : Handler → Bool
  | .closing | .drain _ | .done _ _ => true
  | _ => false

theorem forall₂_set {R : α → β → Prop} : ∀ {l : List α} {ts : List β} {j : Nat} {t t' : β},
    List.Forall₂ R l ts → ts[j]? = some t → (∀ a, R a t → R a t') → List.Forall₂ R l (ts.set j t')
  | _, _, _, _, _, .nil, h, _ => by simp at h
  | a :: _, _ :: _, 0, _, _, .cons hx hr, h, hR => by
    simp only [List.getElem?_cons_zero, Option.some.injEq] at h
    subst h
    exact .cons (hR a hx) hr
  | _ :: _, _ :: _, _ + 1, _, _, .cons hx hr, h, hR => by
    simp only [List.getElem?_cons_succ] at h
    exact .cons hx (forall₂_set hr h hR)

section Invariant

variable (J : Json) (net : Cluster) (C : Crypto) (upper : String → String) (clock : Nat → Time)
  (id : String)

/-- `q'` is the outcome of the entry `q`: the handler's own answer for a verb
that names no worker, or what the entry's worker answered on some state of the
node whose `kv` exists. -/
def Outcome (q q' : QueryObject) : Prop :=
  (worker upper q.verb = none ∧ q' = invalidVerb q) ∨
    ∃ w now s, worker upper q.verb = some w ∧ Tidy s.db ∧ (w.call J net C now q s).1 = .ok q'

/-- An outcome is its entry with the value or the error written. -/
theorem Outcome.entry_eq {q q' : QueryObject} (h : Outcome J net C upper q q') :
    q'.entry = q.entry := by
  rcases h with ⟨-, rfl⟩ | ⟨w, now, s, -, hs, hc⟩
  · rfl
  · obtain ⟨q'', hc', ha⟩ := Worker.call_ok J net C hs.kv w now q
    rw [hc, Except.ok.injEq] at hc'
    exact hc' ▸ ha

/-- One outcome per entry keeps the entries. -/
theorem entries_of_outcomes : ∀ {qs outs : List QueryObject},
    List.Forall₂ (Outcome J net C upper) qs outs →
      outs.map QueryObject.entry = qs.map QueryObject.entry
  | [], [], .nil => rfl
  | _ :: _, _ :: _, .cons h hr => by
    rw [List.map_cons, List.map_cons, h.entry_eq, entries_of_outcomes hr]

/-- A worker started for the entry `q`: still holding it, or holding or having
sent the answer its call gave on some state of the node whose `kv` exists. -/
def TaskOf (q : QueryObject) : Task → Prop
  | .ready w q₀ _ => q₀ = q ∧ worker upper q.verb = some w
  | .sending q' | .sent q' =>
    ∃ w now s, worker upper q.verb = some w ∧ Tidy s.db ∧ (w.call J net C now q s).1 = .ok q'
  | .crashed _ => False

/-- The response as the drain leaves it: the fresh id, and `query_errors`
telling whether an entry drained so far has an error. -/
def Answers (rq : MultiQuery) : Prop :=
  rq.id = id ∧ rq.queryErrors = rq.query.any fun r => decide (r.error ≠ "")

/-- What each phase of the handler has established: nothing before the drain,
the response during it, and at the end an empty channel and the status the
response's `query_errors` gives. The handler never panics. -/
def HandlerOk (buf : List QueryObject) : Handler → Prop
  | .drain rq => Answers id rq
  | .done st rq => Answers id rq ∧ buf = [] ∧ st = if rq.queryErrors then 400 else 200
  | .crashed _ => False
  | _ => True

/-- The invariant of a batch started on the entries `qs`. -/
structure BatchInv (qs : List QueryObject) (b : Batch) : Prop where
  size : b.size = qs.length
  /-- The entries gone through have each one answer, from the handler or from
  their worker, in the channel or drained, or a worker still on its way. -/
  split : ∃ pre, qs = pre ++ b.handler.pending ∧
    List.Forall₂ (TaskOf J net C upper) (spawned upper pre) b.tasks ∧
    (b.chan.buf ++ b.handler.drained).Perm (direct upper pre ++ b.tasks.filterMap Task.out)
  closed : b.chan.closed = b.handler.isClosed
  /-- Past the polling loop, every worker has sent. -/
  sent : b.handler.isPast = true → ∀ t ∈ b.tasks, ∃ q, t = .sent q
  handler : HandlerOk id b.chan.buf b.handler
  tidy : Tidy b.node.db

theorem batchInv_start (qs : List QueryObject) {s : KV} (hs : Tidy s.db) :
    BatchInv J net C upper id qs (Batch.start qs s) where
  size := rfl
  split := ⟨[], rfl, .nil, by simp [Batch.start, Handler.drained, direct]⟩
  closed := rfl
  sent := nofun
  handler := trivial
  tidy := hs

variable {J net C upper clock id} {qs : List QueryObject} {b : Batch}

/-- The accounting of a batch: what the channel and the drain hold, the workers
and the entries still pending make up the batch and the workers' answers. -/
theorem BatchInv.count (hb : BatchInv J net C upper id qs b) :
    (b.chan.buf ++ b.handler.drained).length + b.tasks.length + b.handler.pending.length =
      b.size + (b.tasks.filterMap Task.out).length := by
  obtain ⟨pre, hpre, hf, hp⟩ := hb.split
  have h1 := hp.length_eq
  have h2 := hf.length_eq
  have h3 := length_direct_add_spawned upper pre
  rw [hb.size, hpre]
  simp only [List.length_append] at h1 ⊢
  omega

/-- A worker that has not sent keeps the handler in its first two loops. -/
theorem BatchInv.not_past (hb : BatchInv J net C upper id qs b) {t : Task} (ht : t ∈ b.tasks)
    (hn : ∀ q, t ≠ .sent q) : b.handler.isPast = false := by
  cases h : b.handler.isPast
  · rfl
  · obtain ⟨q, rfl⟩ := hb.sent h t ht; exact absurd rfl (hn q)

theorem BatchInv.open_of_not_past (hb : BatchInv J net C upper id qs b)
    (h : b.handler.isPast = false) : b.chan.closed = false := by
  rw [hb.closed]; revert h; cases b.handler <;> simp [Handler.isClosed, Handler.isPast]

/-- The handler never panics. -/
theorem BatchInv.alive (hb : BatchInv J net C upper id qs b) (text : String) :
    b.handler ≠ .crashed text := fun h => by
  simpa [h, HandlerOk] using hb.handler

theorem HandlerOk.of_not_past {h : Handler} {buf : List QueryObject} (hp : h.isPast = false)
    (hh : HandlerOk id buf h) (buf' : List QueryObject) : HandlerOk id buf' h := by
  cases h <;> simp_all [Handler.isPast, HandlerOk]

theorem set_self : ∀ {l : List α} {j : Nat} {a : α}, l[j]? = some a → l.set j a = l
  | [], _, _, h => by simp at h
  | _ :: _, 0, _, h => by simp only [List.getElem?_cons_zero, Option.some.injEq] at h; simp [h]
  | _ :: _, _ + 1, _, h => by
    simp only [List.getElem?_cons_succ] at h
    simp [set_self h]

/-- An answer sent: one more in the channel, and one more among the answers. -/
theorem perm_push {buf dr D F : List QueryObject} (h : (buf ++ dr).Perm (D ++ F))
    (x : QueryObject) :
    (buf ++ [x] ++ dr).Perm (D ++ x :: F) := by
  simpa using (List.perm_middle.trans (h.cons x)).trans List.perm_middle.symm

/-- One step of the handler: a turn of its loop over the batch, of its poll, or
of its drain. -/
theorem batchInv_handler (hb : BatchInv J net C upper id qs b) :
    BatchInv J net C upper id qs (multiQueryHandler upper clock id b) := by
  obtain ⟨pre, hpre, hf, hp⟩ := hb.split
  have hcount := hb.count
  have hc := hb.closed
  have hh := hb.handler
  have hs := hb.sent
  cases hbh : b.handler with
  | spawn rest =>
    rw [hbh] at hpre hp hc hcount
    cases rest with
    | nil =>
      simp only [multiQueryHandler, hbh]
      exact ⟨hb.size, ⟨pre, hpre, hf, hp⟩, hc, nofun, trivial, hb.tidy⟩
    | cons q rest =>
      simp only [multiQueryHandler, hbh]
      split
      · next w hw =>
        refine ⟨hb.size, ⟨pre ++ [q], by simp [hpre, Handler.pending], ?_, ?_⟩, hc, nofun, trivial,
          hb.tidy⟩
        · rw [spawned_append]
          simp only [spawned, List.filter, hw, Option.isSome]
          exact List.rel_append hf (.cons ⟨rfl, hw⟩ .nil)
        · simpa [direct_append, direct, hw, List.filterMap_append, Task.out] using hp
      · next hw =>
        simp only [Handler.isClosed] at hc
        by_cases hroom : b.chan.buf.length < b.size
        · simp only [Chan.send, hc, hroom, if_true, Bool.false_eq_true, if_false]
          refine ⟨hb.size, ⟨pre ++ [q], by simp [hpre, Handler.pending], ?_, ?_⟩, rfl, nofun,
            trivial, hb.tidy⟩
          · simpa [spawned_append, spawned, hw] using hf
          · simpa [direct_append, direct, hw, Handler.drained] using perm_push hp (invalidVerb q)
        · simp only [Chan.send, hc, hroom, Bool.false_eq_true, if_false]
          exact hb
  | poll =>
    rw [hbh] at hpre hp hc hcount
    simp only [multiQueryHandler, hbh]
    split
    · next hle =>
      have hall : ∀ t ∈ b.tasks, ∃ q, t = .sent q := all_sent_of_length (by
        simp only [Handler.drained, Handler.pending, List.append_nil, List.length_nil] at hcount
        omega)
      exact ⟨hb.size, ⟨pre, hpre, hf, hp⟩, hc, fun _ => hall, trivial, hb.tidy⟩
    · exact hb
  | closing =>
    rw [hbh] at hpre hp hs
    simp only [multiQueryHandler, hbh]
    exact ⟨hb.size, ⟨pre, hpre, hf, hp⟩, rfl, fun _ => hs rfl, ⟨rfl, rfl⟩, hb.tidy⟩
  | drain rq =>
    rw [hbh] at hpre hp hc hh hs
    simp only [multiQueryHandler, hbh]
    split
    · next r buf hbuf =>
      refine ⟨hb.size, ⟨pre, hpre, hf, ?_⟩, hc, fun _ => hs rfl, ⟨hh.1, ?_⟩, hb.tidy⟩
      · have h := List.perm_append_singleton r (buf ++ rq.query)
        rw [List.append_assoc] at h
        rw [hbuf] at hp
        exact h.trans hp
      · simp [List.any_append, hh.2]
    · next hbuf =>
      split
      · exact ⟨hb.size, ⟨pre, hpre, hf, hp⟩, hc, fun _ => hs rfl, ⟨hh, hbuf, rfl⟩, hb.tidy⟩
      · exact hb
  | done st rq => simp only [multiQueryHandler, hbh]; exact hb
  | crashed text => simp only [multiQueryHandler, hbh]; exact hb

/-- One step of a worker: its call moves it from its entry to its answer, its
send moves the answer into the open channel when there is room for it. -/
theorem batchInv_task (hb : BatchInv J net C upper id qs b) {j : Nat} {t : Task}
    (ht : b.tasks[j]? = some t) :
    BatchInv J net C upper id qs
      { (taskStep J net C t b).2 with
        tasks := (taskStep J net C t b).2.tasks.set j (taskStep J net C t b).1 } := by
  have hmem := List.getElem?_mem ht
  obtain ⟨pre, hpre, hf, hp⟩ := hb.split
  cases t with
  | ready w q now =>
    have hnp := hb.not_past hmem nofun
    obtain ⟨q', hc, -⟩ := Worker.call_ok J net C hb.tidy.kv w now q
    rcases hcall : w.call J net C now q b.node with ⟨r, node⟩
    obtain rfl : r = .ok q' := by rw [hcall] at hc; exact hc
    simp only [taskStep, hcall]
    have hout := filterMap_set_perm Task.out ht (.sending q')
    refine ⟨hb.size, ⟨pre, hpre, forall₂_set hf ht fun a ⟨ha, hw⟩ => ⟨w, now, b.node, hw, hb.tidy,
      by rw [← ha, hcall]⟩, ?_⟩, hb.closed, fun h => absurd h (by simp [hnp]), hb.handler,
      by simpa [hcall] using Worker.call_keeps J net C w now q b.node hb.tidy⟩
    simpa [Task.out] using hp.trans (List.Perm.append_left _ hout.symm)
  | sending q =>
    have hnp := hb.not_past hmem nofun
    have hcl := hb.open_of_not_past hnp
    by_cases hroom : b.chan.buf.length < b.size
    · simp only [taskStep, Chan.send, hcl, hroom, if_true, Bool.false_eq_true, if_false]
      have hout := filterMap_set_perm Task.out ht (.sent q)
      refine ⟨hb.size, ⟨pre, hpre, forall₂_set hf ht fun _ h => h, ?_⟩, hcl ▸ hb.closed,
        fun h => absurd h (by simp [hnp]), hb.handler.of_not_past hnp _, hb.tidy⟩
      simp only [Task.out, Option.toList, List.nil_append, List.singleton_append] at hout
      exact (perm_push hp q).trans (hout.symm.append_left _)
    · simp only [taskStep, Chan.send, hcl, hroom, Bool.false_eq_true, if_false, set_self ht]
      exact hb
  | sent q => simp only [taskStep, set_self ht]; exact hb
  | crashed text => simp only [taskStep, set_self ht]; exact hb

/-- Any actor's step keeps the invariant. -/
theorem batchInv_step (hb : BatchInv J net C upper id qs b) (a : Nat) :
    BatchInv J net C upper id qs (b.step J net C upper clock id a) := by
  cases a with
  | zero => exact batchInv_handler hb
  | succ j =>
    simp only [Batch.step]
    split
    · next t ht => exact batchInv_task hb ht
    · exact hb

/-- Every schedule keeps the invariant. -/
theorem batchInv_run : ∀ {b : Batch} (sched : List Nat), BatchInv J net C upper id qs b →
    BatchInv J net C upper id qs (b.run J net C upper clock id sched)
  | _, [], hb => hb
  | _, a :: sched, hb => batchInv_run sched (batchInv_step hb a)

theorem exists_of_mem_forall₂ {R : α → β → Prop} : ∀ {l : List α} {ts : List β},
    List.Forall₂ R l ts → ∀ t ∈ ts, ∃ a, R a t
  | _, _, .nil, _, h => absurd h (List.not_mem_nil _)
  | _, _, .cons hx hr, t, h =>
    (List.mem_cons.mp h).elim (fun e => ⟨_, e ▸ hx⟩) (exists_of_mem_forall₂ hr t)

/-- No worker panics. -/
theorem BatchInv.not_crashed (hb : BatchInv J net C upper id qs b) {t : Task} (ht : t ∈ b.tasks)
    (text : String) : t ≠ .crashed text := by
  obtain ⟨pre, -, hf, -⟩ := hb.split
  rintro rfl
  obtain ⟨_, h⟩ := exists_of_mem_forall₂ hf _ ht
  exact h

theorem length_filterMap_out : ∀ {ts : List Task}, (∀ t ∈ ts, ∃ q, t = .sent q) →
    (ts.filterMap Task.out).length = ts.length
  | [], _ => rfl
  | _ :: _, h => by
    obtain ⟨q, rfl⟩ := h _ (List.mem_cons_self _ _)
    simp [Task.out, length_filterMap_out fun t ht => h t (List.mem_cons_of_mem _ ht)]

/-- Once the handler has closed the channel, every worker has sent, and the
channel and the drain together hold one answer per entry. -/
theorem BatchInv.closed_full (hb : BatchInv J net C upper id qs b) (hc : b.chan.closed = true) :
    (b.chan.buf ++ b.handler.drained).length = qs.length ∧ ∀ t ∈ b.tasks, ∃ q, t = .sent q := by
  have hcl := hb.closed ▸ hc
  have hall := hb.sent (by revert hcl; cases b.handler <;> simp [Handler.isClosed, Handler.isPast])
  have hpend : b.handler.pending = [] := by
    revert hcl; cases b.handler <;> simp [Handler.isClosed, Handler.pending]
  have hcount := hb.count
  rw [hpend, length_filterMap_out hall, hb.size] at hcount
  exact ⟨by simpa using hcount, hall⟩

/-- Once every worker has sent, the handler's answers and the workers' are one
outcome per entry. -/
theorem outcomes_of_sent : ∀ {qs : List QueryObject} {ts : List Task},
    List.Forall₂ (TaskOf J net C upper) (spawned upper qs) ts → (∀ t ∈ ts, ∃ q, t = .sent q) →
    ∃ outs, List.Forall₂ (Outcome J net C upper) qs outs ∧
      outs.Perm (direct upper qs ++ ts.filterMap Task.out)
  | [], _, hf, _ => by
    cases hf
    exact ⟨[], .nil, by simp [direct]⟩
  | q :: qs, ts, hf, hs => by
    cases hw : worker upper q.verb with
    | none =>
      obtain ⟨outs, ho, hp⟩ := outcomes_of_sent (by simpa [spawned, hw] using hf) hs
      exact ⟨invalidVerb q :: outs, .cons (.inl ⟨hw, rfl⟩) ho,
        by simpa [direct, hw] using hp.cons (invalidVerb q)⟩
    | some w =>
      have hf' : List.Forall₂ (TaskOf J net C upper) (q :: spawned upper qs) ts := by
        simpa [spawned, hw] using hf
      cases hf' with
      | cons ht hr =>
        obtain ⟨q', rfl⟩ := hs _ (List.mem_cons_self _ _)
        obtain ⟨outs, ho, hp⟩ := outcomes_of_sent hr fun t h => hs t (List.mem_cons_of_mem _ h)
        exact ⟨q' :: outs, .cons (.inr ht) ho,
          by simpa [direct, hw, Task.out] using (hp.cons q').trans List.perm_middle.symm⟩

/-- The handler's response: the fresh id, a permutation of its own answers and
the workers', which keeps the entries, and `query_errors` and the status
telling whether an entry has an error. -/
theorem BatchInv.done_response (hb : BatchInv J net C upper id qs b) {st : Nat} {rq : MultiQuery}
    (hd : b.handler = .done st rq) :
    rq.id = id ∧ rq.query.length = qs.length ∧
      rq.query.Perm (direct upper qs ++ b.tasks.filterMap Task.answer) ∧
      (rq.query.map QueryObject.entry).Perm (qs.map QueryObject.entry) ∧
      (rq.queryErrors = true ↔ ∃ r ∈ rq.query, r.error ≠ "") ∧
      st = if rq.queryErrors then 400 else 200 := by
  have hh := hb.handler
  rw [hd] at hh
  obtain ⟨⟨hid, herr⟩, hbuf, hst⟩ := hh
  obtain ⟨hlen, hall⟩ := hb.closed_full (by rw [hb.closed, hd]; rfl)
  obtain ⟨pre, hpre, hf, hp⟩ := hb.split
  rw [hd, hbuf] at hp
  simp only [hd, Handler.pending, List.append_nil] at hpre
  subst hpre
  obtain ⟨outs, ho, hp'⟩ := outcomes_of_sent hf hall
  have hq : rq.query.Perm (direct upper qs ++ b.tasks.filterMap Task.out) := by
    simpa [Handler.drained] using hp
  refine ⟨hid, by simpa [hd, hbuf, Handler.drained] using hlen, filterMap_out_of_sent hall ▸ hq,
    entries_of_outcomes J net C upper ho ▸ (hq.trans hp'.symm).map _,
    by simp [herr, List.any_eq_true], hst⟩

end Invariant

/-! ## Every batch can finish -/

/-- A worker that has still to call. -/
def Task.isReady : Task → Bool
  | .ready .. => true
  | _ => false

/-- A worker that has still to call or to send. -/
def Task.isPending : Task → Bool
  | .ready .. | .sending _ => true
  | _ => false

/-- What is left of the handler's loops: four per entry to go through, then
the poll, the close and the drain. -/
def Handler.weight : Handler → Nat
  | .spawn rest => 4 * rest.length + 4
  | .poll => 3
  | .closing => 2
  | .drain _ => 1
  | _ => 0

/-- What is left of a batch's work: the handler's loops, three for a worker
still to call and two for one still to send, and one per answer in the channel.
Starting a worker trades four for three, a send two for the one its answer
weighs in the channel, and the drain takes one per answer. -/
def Batch.weight (b : Batch) : Nat :=
  b.handler.weight + b.tasks.countP Task.isReady + 2 * b.tasks.countP Task.isPending +
    b.chan.buf.length

theorem countP_set_add {p : α → Bool} : ∀ {l : List α} {j : Nat} {a : α}, l[j]? = some a → ∀ x,
    (l.set j x).countP p + (if p a then 1 else 0) = l.countP p + (if p x then 1 else 0)
  | [], _, _, h, _ => by simp at h
  | _ :: _, 0, _, h, x => by
    simp only [List.getElem?_cons_zero, Option.some.injEq] at h
    subst h
    simp only [List.set_cons_zero, List.countP_cons]
    omega
  | _ :: _, _ + 1, _, h, x => by
    simp only [List.getElem?_cons_succ] at h
    have := countP_set_add (p := p) h x
    simp only [List.set_cons_succ, List.countP_cons]
    omega

theorem exists_not_sent : ∀ {ts : List Task}, (ts.filterMap Task.out).length < ts.length →
    ∃ (j : Nat) (t : Task), ts[j]? = some t ∧ Task.out t = none
  | [], h => absurd h (Nat.lt_irrefl 0)
  | t :: ts, h => by
    cases ho : Task.out t with
    | none => exact ⟨0, t, List.getElem?_cons_zero, ho⟩
    | some q =>
      simp only [List.filterMap_cons, ho, List.length_cons] at h
      obtain ⟨j, t', hj, ho'⟩ := exists_not_sent
        (show (ts.filterMap Task.out).length < ts.length by omega)
      exact ⟨j + 1, t', by rwa [List.getElem?_cons_succ], ho'⟩

section Progress

variable {J : Json} {net : Cluster} {C : Crypto} {upper : String → String} {clock : Nat → Time}
  {id : String} {qs : List QueryObject} {b : Batch}

/-- A batch whose handler has not answered has an actor whose step lowers the
weight: the handler, unless it polls while a worker has still to call or to
send, and then that worker, which finds room in the channel. -/
theorem BatchInv.progress (hb : BatchInv J net C upper id qs b)
    (hd : ∀ st rq, b.handler ≠ .done st rq) :
    ∃ a, (b.step J net C upper clock id a).weight < b.weight := by
  have hcount := hb.count
  have hc := hb.closed
  have hle := List.length_filterMap_le Task.out b.tasks
  cases hbh : b.handler with
  | spawn rest =>
    refine ⟨0, ?_⟩
    cases rest with
    | nil => simp [Batch.step, multiQueryHandler, hbh, Batch.weight, Handler.weight]
    | cons q rest =>
      rw [hbh] at hc hcount
      simp only [Handler.pending, Handler.drained, Handler.isClosed, List.append_nil,
        List.length_cons] at hc hcount
      simp only [Batch.step, multiQueryHandler, hbh]
      split
      · simp [Batch.weight, hbh, Handler.weight, Task.isReady, Task.isPending]; omega
      · have hroom : b.chan.buf.length < b.size := by omega
        simp [Chan.send, hc, hroom, Batch.weight, hbh, Handler.weight]; omega
  | poll =>
    rw [hbh] at hcount
    simp only [Handler.pending, Handler.drained, List.append_nil, List.length_nil] at hcount
    by_cases hfull : b.size ≤ b.chan.buf.length
    · exact ⟨0, by simp [Batch.step, multiQueryHandler, hbh, hfull, Batch.weight, Handler.weight]⟩
    · obtain ⟨j, t, ht, ho⟩ := exists_not_sent (by omega : (b.tasks.filterMap Task.out).length < _)
      have hr := countP_set_add (p := Task.isReady) ht
      have hp := countP_set_add (p := Task.isPending) ht
      refine ⟨j + 1, ?_⟩
      cases t with
      | ready w q now =>
        obtain ⟨q', hq, -⟩ := Worker.call_ok J net C hb.tidy.kv w now q
        rcases hcall : w.call J net C now q b.node with ⟨r, node⟩
        obtain rfl : r = .ok q' := by rw [hcall] at hq; exact hq
        have h1 := hr (.sending q')
        have h2 := hp (.sending q')
        simp only [Task.isReady, Task.isPending, if_true, if_false, Bool.false_eq_true] at h1 h2
        simp [Batch.step, ht, taskStep, hcall, Batch.weight]; omega
      | sending q =>
        have hroom : b.chan.buf.length < b.size := by omega
        have h1 := hr (.sent q)
        have h2 := hp (.sent q)
        simp only [Task.isReady, Task.isPending, if_true, if_false, Bool.false_eq_true] at h1 h2
        simp [Batch.step, ht, taskStep, Chan.send, hc, hbh, Handler.isClosed, hroom, Batch.weight]
        omega
      | sent q => cases ho
      | crashed text => exact absurd rfl (hb.not_crashed (List.getElem?_mem ht) text)
  | closing => exact ⟨0, by simp [Batch.step, multiQueryHandler, hbh, Batch.weight, Handler.weight]⟩
  | drain rq =>
    refine ⟨0, ?_⟩
    rw [hbh] at hc
    cases hbuf : b.chan.buf with
    | cons r buf => simp [Batch.step, multiQueryHandler, hbh, hbuf, Batch.weight, Handler.weight]
    | nil =>
      simp [Batch.step, multiQueryHandler, hbh, hbuf, hc, Handler.isClosed, Batch.weight,
        Handler.weight]
  | done st rq => exact absurd hbh (hd st rq)
  | crashed text => exact absurd hbh (hb.alive text)

/-- From every state the invariant holds of, some schedule lets the handler
answer. -/
theorem BatchInv.finishes : ∀ (n : Nat) {b : Batch}, b.weight ≤ n →
    BatchInv J net C upper id qs b →
    ∃ sched st rq, (b.run J net C upper clock id sched).handler = .done st rq
  | n, b, hn, hb => by
    by_cases hd : ∃ st rq, b.handler = .done st rq
    · exact ⟨[], hd⟩
    · push_neg at hd
      obtain ⟨a, ha⟩ : ∃ a, (b.step J net C upper clock id a).weight < b.weight := hb.progress hd
      cases n with
      | zero => omega
      | succ n =>
        obtain ⟨sched, h⟩ := BatchInv.finishes n (b := b.step J net C upper clock id a) (by omega)
          (batchInv_step hb a)
        exact ⟨a :: sched, h⟩

end Progress

end Cave
