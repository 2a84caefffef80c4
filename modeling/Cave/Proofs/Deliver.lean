import Cave.Proofs.Batch
import Cave.Proofs.Envelope
import Cave.Proofs.Replay

/-!
# What every node of a cluster keeps

A node of a cluster runs its goroutines and hands the messages its peers sent
to `handleUpdate`. Two facts of one node carry over to every node of every run,
whatever calls the goroutines make, in whatever order they step and messages
are delivered.

* **No delivery panics.** `handleUpdate` can panic. `Unlock` of a lock its
  envelope does not hold slices out of range, and a walk under `kv` panics on a
  store that lost its `kv` bucket. Neither reaches a node from its peers. Every
  goroutine step emits, if anything, a `put:key`, `delete:key` or
  `delete:bucket` update that encodes (`step_unsent`), never a lock update
  (`Replicating`), and every write, local or replicated, keeps a store tidy
  (`tidy_stable`): `cluster_deliveries_safe`.

* **Envelopes stay sealed.** A secret envelope a node stores came out of
  `encrytJSON` (`EnvelopeInv`). On one node that needs the updates it applies to
  be sealed (`Op.Admissible`); in a cluster they are, because every peer only
  ever emits what its own calls wrote or what `Lock` and `Unlock` read back
  under `kv` (`Sealing`): `cluster_envelopes_sealed`.

Both are per-node invariants that a goroutine step keeps, and a delivery keeps
given the invariant of the node that sent the message; `clusterRun_forall`
carries such an invariant along every run.
-/

namespace Cave

open Go

/-! ## Invariants of one node along a cluster run -/

section Cluster

variable (J : Json) (net : Cluster) (P : Threads → KV → Prop)
  (hrun : ∀ {ts s}, P ts s → ∀ i, P (schedStep J net i ts s).1 (schedStep J net i ts s).2)
  (hdel : ∀ {ts s ts' s'}, P ts s → P ts' s' → ∀ m ∈ s'.sent, ∀ c, P ts (handleUpdate J net c m s).2)
include hrun hdel

theorem clusterStep_forall {ns : List Member} (h : ∀ x ∈ ns, P x.threads x.node) (ev : Event) :
    ∀ x ∈ clusterStep J net ns ev, P x.threads x.node := by
  cases ev with
  | run n i =>
    dsimp only [clusterStep]
    cases hn : ns[n]? with
    | none => exact h
    | some x =>
      dsimp only
      split
      · exact forall_mem_set h (P := fun x => P x.threads x.node) (a := { x with
          threads := (schedStep J net i x.threads x.node).1
          node := (schedStep J net i x.threads x.node).2 }) (hrun (h x (List.getElem?_mem hn)) i) n
      · exact h
  | deliver n k j =>
    dsimp only [clusterStep]
    cases hn : ns[n]? with
    | none => exact h
    | some x =>
      cases hm : (ns[k]?).bind fun y => y.node.sent[j]? with
      | none => exact h
      | some m =>
        obtain ⟨y, hy, hj⟩ := Option.bind_eq_some.mp hm
        dsimp only
        split
        · refine forall_mem_set h ?_ n
          exact hdel (h x (List.getElem?_mem hn)) (h y (List.getElem?_mem hy)) m
            (List.getElem?_mem hj) x.claim
        · exact h

/-- A property of one node that every goroutine step keeps, and every delivery
of a message a node with the property sent, holds of every node along every
cluster run. -/
theorem clusterRun_forall : ∀ (evs : List Event) {ns : List Member},
    (∀ x ∈ ns, P x.threads x.node) → ∀ x ∈ clusterRun J net evs ns, P x.threads x.node
  | [], _, h => h
  | ev :: evs, _, h => clusterRun_forall evs (clusterStep_forall J net P hrun hdel h ev)

end Cluster

/-! ## What a node sends -/

section Replicating

variable (J : Json) (net : Cluster)

/-- A node with goroutines `ts` and state `s`: the updates in flight can be
emitted, and every message it has sent carries a replicated update. -/
structure Replicating (ts : Threads) (s : KV) : Prop where
  emittable : ∀ u ∈ inFlight ts, Emittable J u
  sent : ∀ m ∈ s.sent, (carried J m).isSome

theorem replicating_of_start {ts : Threads} {s : KV} (hts : ∀ t ∈ ts, t.2 = .start)
    (hs : s.sent = []) : Replicating J ts s :=
  ⟨fun u hu => (by rw [inFlight_of_start hts] at hu; cases hu), by simp [hs]⟩

/-- What a step leaves in flight was in flight before, or is the update the
step committed. -/
theorem inFlight_schedStep {ts : Threads} {i : Nat} {c : Call} {p : Phase} (hi : ts[i]? = some (c, p))
    {s : KV} {u : KVUpdate} (hu : u ∈ inFlight (ts.set i (c, (c.1.step J net c.2 p s).1))) :
    u ∈ inFlight ts ∨ (c.1.step J net c.2 p s).1.unsent = some u :=
  (List.mem_append.mp ((inFlight_set hi _).subset (List.mem_append_right _ hu))).elim
    (fun h => .inr (Option.mem_toList.mp h)) .inl

/-- A goroutine step keeps a node replicating: a write sends nothing, and an
emit sends an update that was in flight. -/
theorem replicating_schedStep {ts : Threads} {s : KV} (h : Replicating J ts s) (i : Nat) :
    Replicating J (schedStep J net i ts s).1 (schedStep J net i ts s).2 := by
  unfold schedStep
  cases hi : ts[i]? with
  | none => exact h
  | some t =>
    obtain ⟨⟨m, e⟩, p⟩ := t
    have hF : ∀ u ∈ inFlight (ts.set i ((m, e), (m.step J net e p s).1)), Emittable J u := fun u hu =>
      (inFlight_schedStep J net hi hu).elim (h.emittable u) fun h' => (step_unsent J net h').2
    dsimp only
    cases hp : p.unsent with
    | some u =>
      obtain rfl : p = .wrote u := by cases p <;> cases hp; rfl
      obtain ⟨ht, data, hd⟩ := h.emittable u (List.mem_filterMap.mpr ⟨_, List.getElem?_mem hi, rfl⟩)
      rw [step_wrote, emitEvent_state J net hd] at hF ⊢
      refine ⟨hF, fun m hm => ?_⟩
      rcases List.mem_append.mp hm with hm | hm
      · exact h.sent m hm
      · rw [List.mem_singleton.mp hm, carried_of_marshal J hd ht _ rfl]
        rfl
    | none =>
      rcases step_write J net e m hp s with ⟨-, -, hs, -⟩ | ⟨e', u, -, -, hw⟩
      · rw [hs]
        exact ⟨hF, h.sent⟩
      · exact ⟨hF, fun m hm => h.sent m (hw.sent ▸ hm)⟩

/-- A goroutine step keeps every property of the store that every update
keeps. -/
theorem schedStep_stable {I : Bucket → Prop} (hI : UpdateStable J I) (ts : Threads) {s : KV}
    (hs : I s.db) (i : Nat) : I (schedStep J net i ts s).2.db := by
  unfold schedStep
  cases hi : ts[i]? with
  | none => exact hs
  | some t =>
    obtain ⟨⟨m, e⟩, p⟩ := t
    dsimp only
    cases hp : p.unsent with
    | some u =>
      obtain rfl : p = .wrote u := by cases p <;> cases hp; rfl
      rw [step_wrote, emitEvent_db]
      exact hs
    | none =>
      rcases step_write J net e m hp s with ⟨-, -, h, -⟩ | ⟨e', u, -, -, hw⟩
      · rw [h]
        exact hs
      · rw [hw.db_phase.1]
        exact hI _ u _ hs

/-- Handling a message that carries a replicated update applies it under `kv`
and sends nothing. -/
theorem replicating_handleUpdate {ts : Threads} {s : KV} (h : Replicating J ts s) {m : Message}
    (hm : (carried J m).isSome) (c : Claim) : Replicating J ts (handleUpdate J net c m s).2 := by
  obtain ⟨u, hu⟩ := Option.isSome_iff_exists.mp hm
  rw [handleUpdate_carried J net c hu]
  exact ⟨h.emittable, h.sent⟩

end Replicating

/-- On every run of a cluster whose nodes start with tidy stores, nothing sent
and their goroutines about to start, whatever calls the goroutines make and in
whatever order they step and messages are delivered: every store stays tidy,
and every message any node has sent carries a replicated update, which no node
panics on. -/
theorem cluster_deliveries_safe (J : Json) (net : Cluster) (ns : List Member)
    (h0 : ∀ x ∈ ns, Tidy x.node.db ∧ x.node.sent = [] ∧ ∀ t ∈ x.threads, t.2 = .start)
    (evs : List Event) :
    ∀ x ∈ clusterRun J net evs ns, Tidy x.node.db ∧ ∀ y ∈ clusterRun J net evs ns,
      ∀ m ∈ y.node.sent, (carried J m).isSome ∧ NoPanic (handleUpdate J net x.claim m x.node).1 := by
  have hs := clusterRun_forall J net (fun ts s => Replicating J ts s ∧ Tidy s.db)
    (fun h i => ⟨replicating_schedStep J net h.1 i, schedStep_stable J net (tidy_stable J) _ h.2 i⟩)
    (fun h h' m hm c => ⟨replicating_handleUpdate J net h.1 (h'.1.sent m hm) c,
      handleUpdate_stable net (tidy_stable J) c m _ h.2⟩) evs fun x hx =>
    ⟨replicating_of_start J (h0 x hx).2.2 (h0 x hx).2.1, (h0 x hx).1⟩
  intro x hx
  refine ⟨(hs x hx).2, fun y hy m hm => ⟨(hs y hy).1.sent m hm, ?_⟩⟩
  obtain ⟨u, hu⟩ := Option.isSome_iff_exists.mp ((hs y hy).1.sent m hm)
  exact handleUpdate_noPanic J net hu (hs x hx).2.kv x.claim

theorem cluster_deliveries_safe_lock :
    List.Forall (fun x : Member => Tidy x.node.db ∧ ∀ y ∈ (clusterRun Codec.json ⟨fun _ => none⟩
        [.run 0 0, .run 0 0, .run 0 0, .deliver 1 0 0, .run 1 0, .run 1 0, .deliver 0 1 0]
        [⟨⟨"n", "l", "a", Time.zero, Time.zero⟩,
          [((.lock ⟨"n", "l", "a", Time.zero, Time.zero⟩ "a/x" "kv", []), .start)], newKV [], [], true⟩,
         ⟨⟨"m", "l", "a", Time.zero, Time.zero⟩, [((.deleteBucket "a" "kv", []), .start)], newKV [], [], true⟩]),
      ∀ m ∈ y.node.sent, (carried Codec.json m).isSome ∧
        NoPanic (handleUpdate Codec.json ⟨fun _ => none⟩ x.claim m x.node).1)
      (clusterRun Codec.json ⟨fun _ => none⟩
        [.run 0 0, .run 0 0, .run 0 0, .deliver 1 0 0, .run 1 0, .run 1 0, .deliver 0 1 0]
        [⟨⟨"n", "l", "a", Time.zero, Time.zero⟩,
          [((.lock ⟨"n", "l", "a", Time.zero, Time.zero⟩ "a/x" "kv", []), .start)], newKV [], [], true⟩,
         ⟨⟨"m", "l", "a", Time.zero, Time.zero⟩, [((.deleteBucket "a" "kv", []), .start)], newKV [], [], true⟩]) :=
  List.forall_iff_forall_mem.mpr (cluster_deliveries_safe Codec.json _ _ (by
    simp only [List.mem_cons, List.not_mem_nil, or_false]
    rintro x (rfl | rfl) <;> exact ⟨tidy_newKV, rfl, by decide⟩) _)

/-! ## Sealed envelopes -/

section Sealing

variable {J : Json} {C : Crypto}

/-- The next write of a goroutine is sealed when its call's own update is and
any envelope it read is. -/
theorem nextWrite_sealed {m : Mutation} {p : Phase} {u : KVUpdate}
    (hc : ∀ u, m.update? J = some u → Sealed C u.value) (hr : ∀ obj, p = .read obj → Sealed C obj)
    (h : m.nextWrite J p = some u) : Sealed C u.value := by
  cases p with
  | start => exact hc u h
  | read obj =>
    cases m <;> simp only [Mutation.nextWrite] at h <;> (try split_ifs at h) <;> cases h
    all_goals exact hr obj rfl
  | wrote => cases h
  | finished => cases h

variable (J C) (net : Cluster)

/-- A node whose envelopes are sealed, and stay so: its goroutines write under
`kv` calls whose own update is sealed, an envelope a goroutine has read is
sealed, and so is every update in flight and every update it has sent. -/
structure Sealing (ts : Threads) (s : KV) : Prop where
  env : EnvelopeInv J C s.db
  calls : ∀ t ∈ ts, t.1.1.root = "kv" ∧ ∀ u, t.1.1.update? J = some u → Sealed C u.value
  reads : ∀ t ∈ ts, ∀ obj, t.2 = .read obj → Sealed C obj
  flight : ∀ u ∈ inFlight ts, Sealed C u.value
  sent : ∀ m ∈ s.sent, ∀ u, J.unmarshalUpdate m.data = .ok u → Sealed C u.value

theorem sealing_schedStep {ts : Threads} {s : KV} (hr : Replicating J ts s) (h : Sealing J C ts s)
    (i : Nat) : Sealing J C (schedStep J net i ts s).1 (schedStep J net i ts s).2 := by
  unfold schedStep
  cases hi : ts[i]? with
  | none => exact h
  | some t =>
    obtain ⟨⟨m, e⟩, p⟩ := t
    have hmem := List.getElem?_mem hi
    obtain ⟨hkv, hc⟩ : m.root = "kv" ∧ ∀ u, m.update? J = some u → Sealed C u.value := h.calls _ hmem
    have hcalls := forall_mem_set h.calls (a := ((m, e), (m.step J net e p s).1)) ⟨hkv, hc⟩ i
    have hF : ∀ u ∈ inFlight (ts.set i ((m, e), (m.step J net e p s).1)), Sealed C u.value :=
      fun u hu => (inFlight_schedStep J net hi hu).elim (h.flight u) fun h' =>
        nextWrite_sealed hc (h.reads _ hmem) (step_unsent J net h').1
    dsimp only
    cases hp : p.unsent with
    | some u =>
      obtain rfl : p = .wrote u := by cases p <;> cases hp; rfl
      have hu : u ∈ inFlight ts := List.mem_filterMap.mpr ⟨_, hmem, rfl⟩
      obtain ⟨-, data, hd⟩ := hr.emittable u hu
      rw [step_wrote, emitEvent_state J net hd] at hcalls hF ⊢
      refine ⟨h.env, hcalls, forall_mem_set h.reads (fun _ h' => by cases h') i, hF, fun m' hm' => ?_⟩
      rcases List.mem_append.mp hm' with hm' | hm'
      · exact h.sent m' hm'
      · rw [List.mem_singleton.mp hm', J.unmarshalUpdate_marshalUpdate hd]
        rintro _ ⟨⟩
        simpa using h.flight u hu
    | none =>
      rcases step_write J net e m hp s with ⟨-, -, hs, hobj⟩ | ⟨e', u, -, hu, hw⟩
      · rw [hs]
        refine ⟨h.env, hcalls, forall_mem_set h.reads (fun obj h' => ?_) i, hF, h.sent⟩
        rw [hkv] at hobj
        exact readObject_sealed h.env (hobj obj h')
      · refine ⟨?_, hcalls, forall_mem_set h.reads (fun obj h' => ?_) i, hF,
          fun m' hm' => h.sent m' (hw.sent ▸ hm')⟩
        · rw [hw.db_phase.1]
          exact envelopeInv_applyUpdate h.env fun _ _ => nextWrite_sealed hc (h.reads _ hmem) hu
        · rcases hw.db_phase.2 with h'' | h'' <;> rw [h''] at h' <;> cases h'

/-- A delivery keeps a node's envelopes sealed: the message a sealing peer sent
carries a sealed replicated update, which `handleUpdate` applies under `kv`
without sending anything. -/
theorem sealing_handleUpdate {ts : Threads} {s : KV} (h : Sealing J C ts s) {m : Message}
    (hm : (carried J m).isSome) (hsm : ∀ u, J.unmarshalUpdate m.data = .ok u → Sealed C u.value)
    (c : Claim) : Sealing J C ts (handleUpdate J net c m s).2 := by
  obtain ⟨u, hu⟩ := Option.isSome_iff_exists.mp hm
  have henv := handleUpdate_keeps net c hsm s h.env
  rw [handleUpdate_carried J net c hu] at henv ⊢
  exact ⟨henv, h.calls, h.reads, h.flight, h.sent⟩

end Sealing

/-- On every run of a cluster whose stores start with every envelope under
`kv` sealed (`EnvelopeInv`: marshalled, and a secret one's data out of
`encrytJSON`), nothing sent, and whose goroutines are about to start calls that
write under `kv` and whose own envelope, if any, is sealed: whatever order the
goroutines step in and the messages are delivered, on every node every leaf
under `kv` reads back through `GetObject`, and a secret envelope's data
decrypts. -/
theorem cluster_envelopes_sealed (J : Json) (net : Cluster) (C : Crypto) (ns : List Member)
    (h0 : ∀ x ∈ ns, EnvelopeInv J C x.node.db ∧ x.node.sent = [] ∧ ∀ t ∈ x.threads, t.2 = .start ∧
      t.1.1.root = "kv" ∧ ∀ u, t.1.1.update? J = some u → Sealed C u.value)
    (evs : List Event) :
    ∀ x ∈ clusterRun J net evs ns, ∀ p b,
      x.node.db.leaf? ("kv" :: (parsePath p).1) (parsePath p).2 = some b →
      ∃ v, (getObject J p "kv" x.node).1 = .ok v ∧ (v.secret = true → (C.decryptJSON v.data).isOk) := by
  have hs := clusterRun_forall J net (fun ts s => Replicating J ts s ∧ Sealing J C ts s)
    (fun h i => ⟨replicating_schedStep J net h.1 i, sealing_schedStep J C net h.1 h.2 i⟩)
    (fun h h' m hm c => ⟨replicating_handleUpdate J net h.1 (h'.1.sent m hm) c,
      sealing_handleUpdate J C net h.2 (h'.1.sent m hm) (h'.2.sent m hm) c⟩) evs fun x hx => by
    obtain ⟨henv, hsent, hts⟩ := h0 x hx
    have hF := inFlight_of_start fun t ht => (hts t ht).1
    refine ⟨replicating_of_start J (fun t ht => (hts t ht).1) hsent,
      henv, fun t ht => (hts t ht).2, fun t ht obj h => ?_, by simp [hF], by simp [hsent]⟩
    rw [(hts t ht).1] at h
    cases h
  intro x hx p b hb
  obtain ⟨v, hv, hsv⟩ := getObject_of_leaf (hs x hx).2.env hb
  exact ⟨v, hv, fun h => (hsv h).elim fun _ hx => C.decryptJSON_encrytJSON hx⟩

theorem cluster_envelopes_sealed_secret :
    List.Forall (fun x : Member => ∀ p b,
      x.node.db.leaf? ("kv" :: (parsePath p).1) (parsePath p).2 = some b →
      ∃ v, (getObject Codec.json p "kv" x.node).1 = .ok v ∧
        (v.secret = true → (Codec.box.decryptJSON v.data).isOk))
      (clusterRun Codec.json ⟨fun _ => none⟩
        [.run 0 0, .run 0 0, .run 0 1, .run 0 1, .run 0 1, .deliver 1 0 0, .deliver 1 0 1]
        [⟨⟨"n", "l", "a", Time.zero, Time.zero⟩,
          [((.put Time.zero "s" [1, 97] "kv" true, []), .start),
           ((.lock ⟨"n", "l", "a", Time.zero, Time.zero⟩ "s" "kv", []), .start)], newKV [], [], true⟩,
         ⟨⟨"m", "l", "a", Time.zero, Time.zero⟩, [], newKV [], [], true⟩]) :=
  List.forall_iff_forall_mem.mpr (cluster_envelopes_sealed Codec.json _ Codec.box _ (by
    simp only [List.mem_cons, List.not_mem_nil, or_false]
    rintro x (rfl | rfl)
    · refine ⟨newKV_envelopeInv _ _, rfl, ?_⟩
      simp only [List.mem_cons, List.not_mem_nil, or_false]
      rintro t (rfl | rfl)
      · exact ⟨rfl, rfl, fun u hu _ => by cases hu; exact ⟨.bytes [97], rfl⟩⟩
      · exact ⟨rfl, rfl, fun u hu => by cases hu⟩
    · exact ⟨newKV_envelopeInv _ _, rfl, fun t ht => by cases ht⟩) _)

end Cave
