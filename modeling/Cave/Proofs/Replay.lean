import Mathlib.Data.List.Pairwise
import Cave.Proofs.Concurrency
import Cave.Proofs.Commute

/-!
# Concurrent writes on unrelated keys replicate on every schedule

`ordered_replay_converges` replicates a node's store to a peer on the
schedules where the goroutines emit in the order in which their write
transactions committed, and `replay_out_of_order_diverges` shows two writes
of one key that end elsewhere without it. What the schedule buys there, the
keys buy here. When the calls running side by side on a node write keys of
which no path is a prefix of another, their updates commute
(`applyUpdate_comm`), so the order in which the goroutines emit need not be the
order in which they committed: on every schedule, once nothing is in flight, a
peer that receives the node's messages in any order, each any number of times,
ends with the node's store (`unrelated_replay_converges`).

The run invariant `Replayed` keeps a ghost log, the updates of the messages the
node has sent. The keys of the log and of the goroutines still running are
pairwise unrelated, and the node's database is the peer's with the updates in
flight applied.
-/

namespace Cave

open Go

/-- The keys of the goroutines that have not finished. -/
def liveKeys (ts : Threads) : List String :=
  ts.filterMap fun t => if t.2 = .finished then none else some t.1.1.key

/-- Each goroutine stands before the emit of an update of its own call's key. -/
def Keyed (ts : Threads) : Prop :=
  ∀ t ∈ ts, ∀ u, t.2.unsent = some u → u.key = t.1.1.key

theorem unrelated_symm {p q : String} (h : Unrelated p q) : Unrelated q p := And.symm h

/-- Updates on pairwise unrelated keys leave the same store in any order. -/
theorem applyAll_perm_of_pairwise (J : Json) {l l' : List KVUpdate} (h : l.Perm l')
    (hl : (l.map KVUpdate.key).Pairwise Unrelated) {db : Bucket} (hdb : Sorted db) :
    applyAll J "kv" l db = applyAll J "kv" l' db :=
  applyAll_perm J "kv" (fun _ ha _ hb hab =>
    (List.pairwise_map.mp hl).forall (fun _ _ h => unrelated_symm h) ha hb hab) h
    (List.Subset.refl l) hdb

theorem inFlight_keys_sublist : ∀ {ts : Threads}, Keyed ts →
    ((inFlight ts).map KVUpdate.key).Sublist (liveKeys ts)
  | [], _ => List.Sublist.slnil
  | ((m, e), p) :: ts, hk => by
    have ih := inFlight_keys_sublist fun t ht => hk t (List.mem_cons_of_mem _ ht)
    cases p with
    | wrote u =>
      have hu : u.key = m.key := hk _ (List.mem_cons_self _ _) u rfl
      simpa [inFlight, liveKeys, Phase.unsent, hu] using ih.cons₂ m.key
    | finished => simpa [inFlight, liveKeys, Phase.unsent] using ih
    | _ => simpa [inFlight, liveKeys, Phase.unsent] using ih.cons m.key

theorem liveKeys_of_start : ∀ {ts : Threads}, (∀ t ∈ ts, t.2 = .start) →
    liveKeys ts = ts.map fun t => t.1.1.key
  | [], _ => rfl
  | t :: ts, h => by
    have ht : t.2 = .start := h t (List.mem_cons_self t ts)
    simp only [liveKeys, List.filterMap_cons, ht, reduceCtorEq, if_false, List.map_cons]
    exact congrArg _ (liveKeys_of_start fun t' h' => h t' (List.mem_cons_of_mem t h'))

theorem inFlight_of_start {ts : Threads} (h : ∀ t ∈ ts, t.2 = .start) : inFlight ts = [] :=
  List.filterMap_eq_nil_iff.mpr fun t ht => by rw [h t ht]; rfl

/-- A goroutine's step gives up its key, if it finishes, and keeps the others. -/
theorem liveKeys_set {ts : Threads} {i : Nat} {c : Call} {p p' : Phase}
    (hi : ts[i]? = some (c, p)) (hp : p = .finished → p' = .finished) :
    ∃ D, (liveKeys ts).Perm (D ++ liveKeys (ts.set i (c, p'))) := by
  have hL := filterMap_set_perm (fun t : Call × Phase =>
    if t.2 = .finished then none else some t.1.1.key) hi (c, p')
  by_cases hp' : p' = .finished
  · subst hp'
    simp only [if_true, Option.toList, List.nil_append] at hL
    exact ⟨_, hL.symm⟩
  · simp only [hp', mt hp hp', if_false, Option.toList, List.singleton_append, List.perm_cons] at hL
    exact ⟨[], hL.symm⟩

/-- The emit of a goroutine gives up its key. -/
theorem liveKeys_emit {ts : Threads} {i : Nat} {c : Call} {u : KVUpdate}
    (hi : ts[i]? = some (c, .wrote u)) :
    (liveKeys ts).Perm (c.1.key :: liveKeys (ts.set i (c, .finished))) := by
  have hL := filterMap_set_perm (fun t : Call × Phase =>
    if t.2 = .finished then none else some t.1.1.key) hi (c, .finished)
  simp only [if_true, if_false, reduceCtorEq, Option.toList, List.singleton_append,
    List.nil_append] at hL
  exact hL.symm

/-- Goroutines that give up the live keys `K` into the log of emitted keys and
the keys `D` altogether keep the log and the live keys pairwise unrelated; `L`
and `L'` are the live keys around them before and after. -/
theorem pairwise_replace {G G' L L' l l' K D : List String}
    (hP : (G ++ L).Pairwise Unrelated) (hG : G'.Perm (G ++ K)) (hl : l.Perm (K ++ D ++ l'))
    (hL : (l ++ L').Perm (l' ++ L)) : (G' ++ L').Pairwise Unrelated := by
  have h1 : L.Perm (K ++ D ++ L') := by
    have hc : (l' ++ (K ++ D ++ L')).Perm (K ++ D ++ l' ++ L') := by
      simpa only [List.append_assoc] using List.perm_append_comm_assoc l' (K ++ D) L'
    exact ((List.perm_append_left_iff l').mp ((hc.trans (hl.append_right L').symm).trans hL)).symm
  have h2 : (G ++ L).Perm (G ++ K ++ L' ++ D) := by
    refine (h1.append_left G).trans ?_
    simpa only [List.append_assoc] using
      ((List.perm_append_comm : (D ++ L').Perm (L' ++ D)).append_left K).append_left G
  exact ((hP.perm h2 unrelated_symm).sublist (List.sublist_append_left _ D)).perm
    (hG.append_right L').symm unrelated_symm

/-! ## What a scheduler step can do -/

section Shape

variable (J : Json) (net : Cluster)

/-- What one scheduler step does to a node, from goroutines `ts` and state `s`
to `ts'` and `s'`: its goroutines give up some live keys `D`, and leave the
updates in flight and the node alone, or commit an update they can emit; or
they emit an update committed before, as an `update` message, giving up its
key. -/
def StepShape (ts : Threads) (s : KV) (ts' : Threads) (s' : KV) : Prop :=
  (∃ D, (liveKeys ts).Perm (D ++ liveKeys ts') ∧ s' = s ∧ (inFlight ts').Perm (inFlight ts)) ∨
  (∃ D u, (liveKeys ts).Perm (D ++ liveKeys ts') ∧ Emittable J u ∧
    s' = { s with db := applyUpdate J "kv" u s.db } ∧ (inFlight ts').Perm (u :: inFlight ts)) ∨
  (∃ u data, (liveKeys ts).Perm (u.key :: liveKeys ts') ∧ J.marshalUpdate u = .ok data ∧
    u.updateType ∈ replicatedTypes ∧
    s' = { s with sent := s.sent ++ [⟨"update", data, "KVUpdate"⟩] } ∧
    (inFlight ts).Perm (u :: inFlight ts'))

/-- A scheduler step on goroutines that write under `kv` with emission on, each
before the emit of an update of its own key that can be emitted, keeps them so,
and has one of the shapes of `StepShape`. -/
theorem schedStep_shape {ts : Threads} {s : KV}
    (hcall : ∀ t ∈ ts, t.1.1.root = "kv" ∧ t.1.2.headD true = true) (hkey : Keyed ts)
    (hemit : ∀ u ∈ inFlight ts, Emittable J u) (i : Nat) :
    (∀ t ∈ (schedStep J net i ts s).1, t.1.1.root = "kv" ∧ t.1.2.headD true = true) ∧
      Keyed (schedStep J net i ts s).1 ∧ (∀ u ∈ inFlight (schedStep J net i ts s).1, Emittable J u) ∧
      StepShape J ts s (schedStep J net i ts s).1 (schedStep J net i ts s).2 := by
  unfold schedStep
  cases hi : ts[i]? with
  | none => exact ⟨hcall, hkey, hemit, .inl ⟨[], List.Perm.refl _, rfl, List.Perm.refl _⟩⟩
  | some t =>
    obtain ⟨⟨m, e⟩, p⟩ := t
    obtain ⟨hm, he⟩ : m.root = "kv" ∧ e.headD true = true := hcall _ (List.getElem?_mem hi)
    have hcall' := forall_mem_set hcall (a := ((m, e), (m.step J net e p s).1)) ⟨hm, he⟩ i
    have hkey' : Keyed (ts.set i ((m, e), (m.step J net e p s).1)) :=
      forall_mem_set hkey (fun u hu => nextWrite_key (step_unsent J net hu).1) i
    have hF := inFlight_set hi (m.step J net e p s).1
    dsimp only
    cases hp : p.unsent with
    | some u =>
      obtain rfl : p = .wrote u := by cases p <;> cases hp; rfl
      simp only [step_wrote, Phase.unsent, Option.toList, List.singleton_append,
        List.nil_append] at hF hkey' hcall' ⊢
      obtain ⟨ht, data, hd⟩ := hemit u (hF.subset (List.mem_cons_self u _))
      have hu : u.key = m.key := hkey _ (List.getElem?_mem hi) u rfl
      exact ⟨hcall', hkey', fun u' h' => hemit u' (hF.subset (List.mem_cons_of_mem u h')),
        .inr (.inr ⟨u, data, hu ▸ liveKeys_emit hi, hd, ht, emitEvent_state J net hd s, hF.symm⟩)⟩
    | none =>
      have hfin : p = .finished → (m.step J net e p s).1 = .finished := by
        rintro rfl; rw [step_finished]
      obtain ⟨D, hD⟩ := liveKeys_set hi hfin
      rcases step_commits J net he m hp s with ⟨hq, hs⟩ | ⟨u, hu, hr⟩
      · rw [hq, hp, Option.toList, List.nil_append, List.nil_append] at hF
        exact ⟨hcall', hkey', fun u' h' => hemit u' (hF.subset h'), .inl ⟨D, hD, hs, hF⟩⟩
      · rw [hr] at hF hcall' hkey' hD ⊢
        dsimp only at hF hcall' hkey' hD ⊢
        rw [hp] at hF
        simp only [Phase.unsent, Option.toList, List.nil_append, List.singleton_append] at hF
        refine ⟨hcall', hkey', fun u' h' => ?_, .inr (.inl ⟨D, u, hD, hu, by rw [hm], hF⟩)⟩
        rcases List.mem_cons.mp (hF.subset h') with rfl | h'
        exacts [hu, hemit u' h']

end Shape

/-! ## The run invariant -/

section Replay

variable (J : Json) (net net' : Cluster) (c : Claim)

/-- A node run from `s0` on goroutines `ts`, against a peer that replayed from
`p0` every message the node has sent since. The goroutines write under `kv`
with emission on, each stands before the emit of an update of its own key, and
what is in flight can be emitted. The ghost log `U` holds the updates of the
messages sent; its keys and those of the live goroutines are pairwise
unrelated, and the node's database is the peer's with the updates in flight
applied. -/
structure Replayed (s0 p0 : KV) (ts : Threads) (s : KV) : Prop where
  calls : ∀ t ∈ ts, t.1.1.root = "kv" ∧ t.1.2.headD true = true
  keyed : Keyed ts
  emittable : ∀ u ∈ inFlight ts, Emittable J u
  log : ∃ (msgs : List Message) (U : List KVUpdate), s.sent = s0.sent ++ msgs ∧
    (∀ m ∈ msgs, ∃ u ∈ U, carried J m = some u.stripMonotonic) ∧
    (U.map KVUpdate.key ++ liveKeys ts).Pairwise Unrelated ∧
    Sorted (updateLoop J net' c msgs p0).db ∧
    s.db = applyAll J "kv" (inFlight ts) (updateLoop J net' c msgs p0).db

/-- The messages of a log whose keys are pairwise unrelated can be replayed in
any order. -/
theorem independent_of_log {msgs : List Message} {U : List KVUpdate}
    (hlog : ∀ m ∈ msgs, ∃ u ∈ U, carried J m = some u.stripMonotonic)
    (hU : (U.map KVUpdate.key).Pairwise Unrelated) : Independent J msgs := by
  intro m hm m' hm'
  obtain ⟨u, hu, hc⟩ := hlog m hm
  obtain ⟨u', hu', hc'⟩ := hlog m' hm'
  rw [hc, hc']
  by_cases huu : u = u'
  · exact .inl (huu ▸ rfl)
  · exact .inr (show Unrelated u.key u'.key from
      (List.pairwise_map.mp hU).forall (fun _ _ h => unrelated_symm h) hu hu' huu)

theorem replayed_start (cs : List Call) (hcs : ∀ x ∈ cs, x.1.root = "kv" ∧ x.2.headD true = true)
    (hkeys : (cs.map fun x => x.1.key).Pairwise Unrelated) {s0 p0 : KV} (hp : p0.db = s0.db)
    (hs : Sorted s0.db) : Replayed J net' c s0 p0 (cs.map fun x => (x, .start)) s0 where
  calls t ht := by obtain ⟨x, hx, rfl⟩ := List.mem_map.mp ht; exact hcs x hx
  keyed t ht u hu := by obtain ⟨x, -, rfl⟩ := List.mem_map.mp ht; cases hu
  emittable u hu := by simp [inFlight_start] at hu
  log := by
    refine ⟨[], [], by simp, by simp, ?_, hp ▸ hs, by simp [inFlight_start, hp, updateLoop]⟩
    rw [liveKeys_of_start fun t ht => by obtain ⟨x, -, rfl⟩ := List.mem_map.mp ht; rfl]
    simpa using hkeys

theorem replayed_schedStep {s0 p0 : KV} {ts : Threads} {s : KV}
    (h : Replayed J net' c s0 p0 ts s) (i : Nat) :
    Replayed J net' c s0 p0 (schedStep J net i ts s).1 (schedStep J net i ts s).2 := by
  obtain ⟨hcall, hkey, hemit, msgs, U, hsent, hlog, hpw, hsort, hdb⟩ := h
  obtain ⟨hcall', hkey', hemit', hshape⟩ := schedStep_shape J net (s := s) hcall hkey hemit i
  have hfly := (List.pairwise_append.mp hpw).2.1.sublist (inFlight_keys_sublist hkey)
  rcases hshape with ⟨D, hD, hs, hF⟩ | ⟨D, u, hD, -, hs, hF⟩ | ⟨u, data, hD, hd, ht, hs, hF⟩
  · rw [hs]
    exact ⟨hcall', hkey', hemit', msgs, U, hsent, hlog,
      pairwise_replace (K := []) hpw (by simp) (by simpa using hD) List.perm_append_comm, hsort,
      hdb.trans (applyAll_perm_of_pairwise J hF.symm hfly hsort)⟩
  · have hpw' : (U.map KVUpdate.key ++ liveKeys (schedStep J net i ts s).1).Pairwise Unrelated :=
      pairwise_replace (K := []) hpw (by simp) (by simpa using hD) List.perm_append_comm
    have hfly' := (List.pairwise_append.mp hpw').2.1.sublist (inFlight_keys_sublist hkey')
    rw [hs]
    refine ⟨hcall', hkey', hemit', msgs, U, hsent, hlog, hpw', hsort, ?_⟩
    rw [applyAll_perm_of_pairwise J (hF.trans (List.perm_append_singleton u _).symm) hfly' hsort,
      applyAll_concat, ← hdb]
  · have hc : ∀ m ∈ msgs, (carried J m).isSome := fun m hm => by
      obtain ⟨_, -, h⟩ := hlog m hm
      rw [h]; rfl
    rw [hs]
    refine ⟨hcall', hkey', hemit', msgs ++ [⟨"update", data, "KVUpdate"⟩], U ++ [u],
      by simp [hsent], ?_,
      pairwise_replace (K := [u.key]) (D := []) hpw (by simp) (by simpa using hD) List.perm_append_comm,
      ?_, ?_⟩
    · intro m' hm'
      rcases List.mem_append.mp hm' with hm' | hm'
      · obtain ⟨u', hu', hc⟩ := hlog m' hm'
        exact ⟨u', List.mem_append_left _ hu', hc⟩
      · exact ⟨u, by simp, carried_of_marshal J hd ht m' (by simp at hm'; rw [hm'])⟩
    · rw [updateLoop_snoc J net' c hc hd ht]
      exact sorted_stable J "kv" u _ hsort
    · rw [updateLoop_snoc J net' c hc hd ht, hdb, applyAll_perm_of_pairwise J hF hfly hsort]
      rfl

theorem replayed_interleave {s0 p0 : KV} :
    ∀ (sched : List Nat) {ts : Threads} {s : KV}, Replayed J net' c s0 p0 ts s →
      Replayed J net' c s0 p0 (interleave J net sched ts s).1 (interleave J net sched ts s).2
  | [], _, _, h => h
  | i :: sched, _, _, h => replayed_interleave sched (replayed_schedStep J net net' c h i)

/-- Calls run side by side on a node, each writing under `kv` with emission on,
no two of them on keys of which one path is a prefix of the other: on every
schedule, once no goroutine stands between its commit and its emit, a peer that
started from the node's store and receives the messages the node sent, in any
order and each any number of times, ends with the node's store. -/
theorem unrelated_replay_converges (cs : List Call)
    (hcs : ∀ x ∈ cs, x.1.root = "kv" ∧ x.2.headD true = true)
    (hkeys : (cs.map fun x => x.1.key).Pairwise Unrelated) (sched : List Nat) (s p : KV)
    (hp : p.db = s.db) (hs : Sorted s.db)
    (hend : inFlight (interleave J net sched (cs.map fun x => (x, .start)) s).1 = [])
    {ms : List Message}
    (hms : ∀ m, m ∈ (interleave J net sched (cs.map fun x => (x, .start)) s).2.sent.drop
      s.sent.length ↔ m ∈ ms) :
    (updateLoop J net' c ms p).db = (interleave J net sched (cs.map fun x => (x, .start)) s).2.db := by
  obtain ⟨-, -, -, msgs, U, hsent, hlog, hpw, -, hdb⟩ :=
    replayed_interleave J net net' c sched (replayed_start J net' c cs hcs hkeys hp hs)
  rw [hsent, List.drop_left] at hms
  rw [hdb, hend, applyAll_nil, updateLoop_order_free J net' c
    (independent_of_log J hlog (List.pairwise_append.mp hpw).1) hms (hp ▸ hs)]

/-- Two puts on unrelated keys that commit in one order and emit in the other. -/
theorem unrelated_replay_converges_crossed :
    (updateLoop Codec.json ⟨fun _ => none⟩ ⟨"n", "l", "a", Time.zero, Time.zero⟩
        ((interleave Codec.json ⟨fun _ => none⟩ [0, 1, 1, 0]
          ([(Mutation.putObject "a/x" ⟨Time.zero, false, [1], [], false⟩ "kv" false, []),
            (.deleteKey "a/y" "kv", [])].map fun x => (x, .start))
          (newKV [])).2.sent.drop (newKV []).sent.length) (newKV [])).db =
      (interleave Codec.json ⟨fun _ => none⟩ [0, 1, 1, 0]
        ([(Mutation.putObject "a/x" ⟨Time.zero, false, [1], [], false⟩ "kv" false, []),
          (.deleteKey "a/y" "kv", [])].map fun x => (x, .start))
        (newKV [])).2.db :=
  unrelated_replay_converges Codec.json _ _ _ _ (by decide) (by decide) [0, 1, 1, 0] _ _ rfl
    tidy_newKV.sorted (by decide) fun _ => Iff.rfl

/-- The schedule above emits the second commit first: `ordered_replay_converges`
does not reach it. -/
example :
    emitsInOrder Codec.json ⟨fun _ => none⟩ [0, 1, 1, 0]
      ([(Mutation.putObject "a/x" ⟨Time.zero, false, [1], [], false⟩ "kv" false, []),
        (.deleteKey "a/y" "kv", [])].map fun x => (x, .start)) (newKV []) [] = false := by
  decide

end Replay

end Cave
