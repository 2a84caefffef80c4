import Cave.Proofs.Replay

/-!
# The nodes of a cluster converge

`unrelated_replay_converges` follows the messages of one node to one peer. In a
cluster every node both writes and replicates: it runs its own calls side by
side, and its update loop handles the messages the others emit, in whatever
order they are delivered and however often, while its goroutines go on. When
no two calls anywhere in the cluster write keys of which one path is a prefix
of the other, every node ends with one store, the start with the update of
every emitted message applied, as soon as no emit is outstanding and each node
has handled every message the others emitted (`cluster_converges`).

The invariant `Converging` needs no reordering while the cluster runs: a node's
store is the updates it applied, in the order it applied them, its own commits
and the deliveries mixed. What a step does at the one node it changes is said
once (`NodeStep`), for a goroutine's step (`nodeStep_run`) and for a delivery
(`nodeStep_deliver`), and `converging_set` lifts it to the cluster. Only at the
end do the updates commute and absorb their copies (`applyAll_members`), and
every node holds the same ones.
-/

namespace Cave

open Go

/-- Every message the nodes have emitted, node by node. -/
def allSent (ns : List Member) : List Message := ns.flatMap fun x => x.node.sent

/-- The keys of the goroutines of every node that have not finished. -/
def allLive (ns : List Member) : List String := ns.flatMap fun x => liveKeys x.threads

/-- The updates of the messages the nodes have emitted. -/
def emitted (J : Json) (ns : List Member) : List KVUpdate := (allSent ns).filterMap (carried J)

/-! ## Replacing one node -/

section Lists

variable {α β : Type}

/-- Replacing one element of a list trades its part of a `flatMap` for the new
element's, up to order. -/
theorem flatMap_set_perm (f : α → List β) : ∀ {l : List α} {i : Nat} {a : α}, l[i]? = some a →
    ∀ b, (f a ++ (l.set i b).flatMap f).Perm (f b ++ l.flatMap f)
  | [], _, _, h, _ => by simp at h
  | x :: l, 0, a, h, b => by
    simp only [List.getElem?_cons_zero, Option.some.injEq] at h
    subst h
    simpa only [List.set_cons_zero, List.flatMap_cons] using List.perm_append_comm_assoc _ _ _
  | x :: l, i + 1, a, h, b => by
    have ih := flatMap_set_perm f (l := l) (i := i) (by simpa using h) b
    simp only [List.set_cons_succ, List.flatMap_cons]
    exact (List.perm_append_comm_assoc _ _ _).trans
      ((ih.append_left _).trans (List.perm_append_comm_assoc _ _ _))

end Lists

/-! ## What a node holds -/

section Nodes

variable (J : Json) (net : Cluster) (base : Bucket)

/-- Node `x` against the updates `G` emitted in the cluster. Its goroutines
write under `kv` with emission on, each stands before the emit of an update of
its own key, and that update can be emitted. Its store is a run of updates from
`base`, each emitted or in flight at the node; the run holds the update of
every message the node sent or handled, and each of its own in flight. -/
structure Holds (G : List KVUpdate) (x : Member) : Prop where
  calls : ∀ t ∈ x.threads, t.1.1.root = "kv" ∧ t.1.2.headD true = true
  keyed : Keyed x.threads
  emittable : ∀ u ∈ inFlight x.threads, Emittable J u
  run : ∃ A : List KVUpdate, x.node.db = applyAll J "kv" A base ∧
    (∀ w ∈ A, w ∈ G ∨ ∃ u ∈ inFlight x.threads, w = u.stripMonotonic) ∧
    (∀ u ∈ inFlight x.threads, u.stripMonotonic ∈ A) ∧
    ∀ m ∈ x.node.sent ++ x.handled, ∃ w ∈ A, carried J m = some w

theorem Holds.mono {G G' : List KVUpdate} {x : Member} (h : Holds J base G x) (hG : G ⊆ G') :
    Holds J base G' x := by
  obtain ⟨hcall, hkey, hemit, A, hdb, hA, hin, hmsg⟩ := h
  exact ⟨hcall, hkey, hemit, A, hdb, fun w hw => (hA w hw).imp_left (@hG w), hin, hmsg⟩

/-- One step at node `x`, against the updates `G` emitted before it: the node
emits the messages `E`, its goroutines give up the keys of the updates `E`
carries and the keys `D` without emitting, and it holds against any log that
adds `E`'s updates to `G`. -/
def NodeStep (G : List KVUpdate) (x x' : Member) : Prop :=
  ∃ E D, x'.node.sent = x.node.sent ++ E ∧
    (liveKeys x.threads).Perm ((E.filterMap (carried J)).map KVUpdate.key ++ D ++ liveKeys x'.threads) ∧
    ∀ G', G ⊆ G' → (∀ w ∈ E.filterMap (carried J), w ∈ G') → Holds J base G' x'

/-- A goroutine's step at a node is a node step. -/
theorem nodeStep_run {G : List KVUpdate} {x : Member} (hx : Holds J base G x) (i : Nat) :
    NodeStep J base G x
      { x with threads := (schedStep J net i x.threads x.node).1
               node := (schedStep J net i x.threads x.node).2 } := by
  obtain ⟨hcall, hkey, hemit, A, hdb, hA, hin, hmsg⟩ := hx
  obtain ⟨hcall', hkey', hemit', hshape⟩ := schedStep_shape J net (s := x.node) hcall hkey hemit i
  rcases hshape with ⟨D, hD, hs, hF⟩ | ⟨D, u, hD, -, hs, hF⟩ | ⟨u, data, hD, hd, ht, hs, hF⟩
  · refine ⟨[], D, by simp [hs], by simpa using hD, fun G' hG _ =>
      ⟨hcall', hkey', hemit', A, by simp [hs, hdb], fun w hw => ?_,
        fun u' h' => hin u' (hF.subset h'), by simpa [hs] using hmsg⟩⟩
    exact (hA w hw).imp (@hG w) fun ⟨u', hu', hw⟩ => ⟨u', hF.symm.subset hu', hw⟩
  · refine ⟨[], D, by simp [hs], by simpa using hD, fun G' hG _ =>
      ⟨hcall', hkey', hemit', A ++ [u.stripMonotonic], ?_, ?_, ?_, ?_⟩⟩
    · simp only [hs, applyAll_concat, applyUpdate_stripMonotonic, hdb]
    · intro w hw
      rcases List.mem_append.mp hw with hw | hw
      · exact (hA w hw).imp (@hG w) fun ⟨u', hu', hw⟩ =>
          ⟨u', hF.symm.subset (List.mem_cons_of_mem u hu'), hw⟩
      · exact .inr ⟨u, hF.symm.subset (List.mem_cons_self u _), List.mem_singleton.mp hw⟩
    · intro u' h'
      rcases List.mem_cons.mp (hF.subset h') with rfl | h'
      · exact List.mem_append_right _ (List.mem_singleton_self _)
      · exact List.mem_append_left _ (hin u' h')
    · intro m' hm'
      obtain ⟨w, hw, hc⟩ := hmsg m' (by simpa [hs] using hm')
      exact ⟨w, List.mem_append_left _ hw, hc⟩
  · have hc := carried_of_marshal J hd ht ⟨"update", data, "KVUpdate"⟩ rfl
    refine ⟨[⟨"update", data, "KVUpdate"⟩], [], by simp [hs], by simpa [hc] using hD,
      fun G' hG hE => ⟨hcall', hkey', hemit', A, by simp [hs, hdb], fun w hw => ?_,
        fun u' h' => hin u' (hF.symm.subset (List.mem_cons_of_mem u h')), fun m' hm' => ?_⟩⟩
    · rcases hA w hw with hw | ⟨u', hu', rfl⟩
      · exact .inl (hG hw)
      · rcases List.mem_cons.mp (hF.subset hu') with rfl | hu'
        · exact .inl (hE _ (by simp [hc]))
        · exact .inr ⟨u', hu', rfl⟩
    · simp only [hs, List.append_assoc, List.mem_append, List.mem_singleton] at hm'
      rcases hm' with hm' | rfl | hm'
      · exact hmsg m' (List.mem_append_left _ hm')
      · exact ⟨_, hin u (hF.symm.subset (List.mem_cons_self u _)), hc⟩
      · exact hmsg m' (List.mem_append_right _ hm')

/-- A delivery at a node is a node step, whether or not the node stays up. -/
theorem nodeStep_deliver {G : List KVUpdate} {x : Member} (hx : Holds J base G x) {m : Message}
    {w : KVUpdate} (hc : carried J m = some w) (hw : w ∈ G) (up : Bool) :
    NodeStep J base G x
      { x with node := (handleUpdate J net x.claim m x.node).2, handled := x.handled ++ [m],
               up := up } := by
  obtain ⟨hcall, hkey, hemit, A, hdb, hA, hin, hmsg⟩ := hx
  refine ⟨[], [], by simp [handleUpdate_carried J net x.claim hc], by simp,
    fun G' hG _ => ⟨hcall, hkey, hemit, A ++ [w], ?_, ?_, ?_, ?_⟩⟩
  · rw [handleUpdate_carried J net x.claim hc, applyAll_concat, ← hdb]
  · intro w' hw'
    rcases List.mem_append.mp hw' with hw' | hw'
    · exact (hA w' hw').imp_left (@hG w')
    · exact .inl (List.mem_singleton.mp hw' ▸ hG hw)
  · exact fun u h => List.mem_append_left _ (hin u h)
  · intro m' hm'
    simp only [handleUpdate_carried J net x.claim hc, List.mem_append, List.mem_singleton] at hm'
    rcases hm' with hm' | hm' | rfl
    · obtain ⟨w', hw', hc'⟩ := hmsg m' (List.mem_append_left _ hm')
      exact ⟨w', List.mem_append_left _ hw', hc'⟩
    · obtain ⟨w', hw', hc'⟩ := hmsg m' (List.mem_append_right _ hm')
      exact ⟨w', List.mem_append_left _ hw', hc'⟩
    · exact ⟨w, List.mem_append_right _ (List.mem_singleton_self w), hc⟩

end Nodes

/-! ## The cluster invariant -/

section Cluster

variable (J : Json) (net : Cluster) (base : Bucket)

/-- A cluster run from `base`: every node holds against the updates emitted, and
the keys of those updates and of the goroutines still running are pairwise
unrelated. -/
structure Converging (ns : List Member) : Prop where
  holds : ∀ x ∈ ns, Holds J base (emitted J ns) x
  apart : ((emitted J ns).map KVUpdate.key ++ allLive ns).Pairwise Unrelated

/-- Every emitted message carries an emitted update. -/
theorem Converging.carried_of_sent {ns : List Member} (h : Converging J base ns) {m : Message}
    (hm : m ∈ allSent ns) : ∃ w ∈ emitted J ns, carried J m = some w := by
  obtain ⟨y, hy, hm⟩ := List.mem_flatMap.mp hm
  obtain ⟨-, -, -, A, -, -, -, hmsg⟩ := h.holds y hy
  obtain ⟨w, -, hc⟩ := hmsg m (List.mem_append_left _ hm)
  exact ⟨w, List.mem_filterMap.mpr ⟨m, List.mem_flatMap.mpr ⟨y, hy, hm⟩, hc⟩, hc⟩

/-- A node step keeps the cluster converging. -/
theorem converging_set {ns : List Member} (h : Converging J base ns) {n : Nat} {x x' : Member}
    (hn : ns[n]? = some x) (hs : NodeStep J base (emitted J ns) x x') :
    Converging J base (ns.set n x') := by
  obtain ⟨E, D, hE, hl, hx⟩ := hs
  have hS := (flatMap_set_perm (fun y : Member => y.node.sent) hn x').filterMap (carried J)
  simp only [hE, List.filterMap_append, List.append_assoc] at hS
  have hG : (emitted J (ns.set n x')).Perm (emitted J ns ++ E.filterMap (carried J)) :=
    (List.perm_append_left_iff _).mp (hS.trans (List.perm_append_comm.append_left _))
  have hsub : emitted J ns ⊆ emitted J (ns.set n x') := fun w hw =>
    hG.symm.subset (List.mem_append_left _ hw)
  refine ⟨fun y hy => ?_, pairwise_replace h.apart (by simpa using hG.map KVUpdate.key) hl
    (flatMap_set_perm (fun y : Member => liveKeys y.threads) hn x')⟩
  rcases List.mem_or_eq_of_mem_set hy with hy | rfl
  · exact (h.holds y hy).mono J base hsub
  · exact hx _ hsub fun w hw => hG.symm.subset (List.mem_append_right _ hw)

theorem converging_step {ns : List Member} (h : Converging J base ns) (ev : Event) :
    Converging J base (clusterStep J net ns ev) := by
  cases ev with
  | run n i =>
    dsimp only [clusterStep]
    cases hn : ns[n]? with
    | none => exact h
    | some x =>
      dsimp only
      split
      · exact converging_set J base h hn (nodeStep_run J net base (h.holds x (List.getElem?_mem hn)) i)
      · exact h
  | deliver n k j =>
    dsimp only [clusterStep]
    cases hn : ns[n]? with
    | none => exact h
    | some x =>
      cases hm : (ns[k]?).bind fun y => y.node.sent[j]? with
      | none => exact h
      | some m =>
        obtain ⟨y, hy, hj⟩ := Option.bind_eq_some.mp hm
        obtain ⟨w, hw, hc⟩ := h.carried_of_sent J base
          (List.mem_flatMap.mpr ⟨y, List.getElem?_mem hy, List.getElem?_mem hj⟩)
        dsimp only
        split
        · exact converging_set J base h hn
            (nodeStep_deliver J net base (h.holds x (List.getElem?_mem hn)) hc hw _)
        · exact h

theorem converging_run : ∀ (evs : List Event) {ns : List Member}, Converging J base ns →
    Converging J base (clusterRun J net evs ns)
  | [], _, h => h
  | ev :: evs, _, h => converging_run evs (converging_step J net base h ev)

/-- A cluster whose nodes start from `base` with nothing sent or handled, every
goroutine about to start a call that writes under `kv` with emission on, and no
two calls on related keys. -/
theorem converging_start {ns : List Member}
    (h0 : ∀ x ∈ ns, x.node = ⟨base, []⟩ ∧ x.handled = [] ∧
      ∀ t ∈ x.threads, t.2 = .start ∧ t.1.1.root = "kv" ∧ t.1.2.headD true = true)
    (hkeys : (ns.flatMap fun x => x.threads.map fun t => t.1.1.key).Pairwise Unrelated) :
    Converging J base ns := by
  have hsent : allSent ns = [] := List.eq_nil_iff_forall_not_mem.mpr fun m hm => by
    obtain ⟨x, hx, hm⟩ := List.mem_flatMap.mp hm
    rw [(h0 x hx).1] at hm
    cases hm
  have hlive : allLive ns = ns.flatMap fun x => x.threads.map fun t => t.1.1.key :=
    List.flatMap_congr fun x hx => liveKeys_of_start fun t ht => ((h0 x hx).2.2 t ht).1
  refine ⟨fun x hx => ?_, by simpa [emitted, hsent, hlive] using hkeys⟩
  obtain ⟨hnode, hh, ht⟩ := h0 x hx
  have hF := inFlight_of_start fun t h => (ht t h).1
  refine ⟨fun t h => (ht t h).2, fun t h u hu => ?_, by simp [hF], [], by simp [hnode],
    by simp, by simp [hF], by simp [hnode, hh]⟩
  rw [(ht t h).1] at hu
  cases hu

/-- Nodes of a cluster start from one store `base`, each with calls it runs side
by side, writing under `kv` with emission on, and no two calls anywhere in the
cluster on keys of which one path is a prefix of the other. On every
interleaving of the nodes' atomic steps and of their update loops' deliveries,
once no emit is outstanding and every node has handled every message the
others emitted, every node holds `base` with the update of every emitted
message applied. -/
theorem cluster_converges (ns : List Member)
    (h0 : ∀ x ∈ ns, x.node = ⟨base, []⟩ ∧ x.handled = [] ∧
      ∀ t ∈ x.threads, t.2 = .start ∧ t.1.1.root = "kv" ∧ t.1.2.headD true = true)
    (hkeys : (ns.flatMap fun x => x.threads.map fun t => t.1.1.key).Pairwise Unrelated)
    (hbase : Sorted base) (evs : List Event)
    (hend : ∀ x ∈ clusterRun J net evs ns, inFlight x.threads = [])
    (hall : ∀ x ∈ clusterRun J net evs ns, ∀ y ∈ clusterRun J net evs ns, ∀ m ∈ y.node.sent,
      m ∈ x.node.sent ∨ m ∈ x.handled) :
    ∀ x ∈ clusterRun J net evs ns,
      x.node.db = applyAll J "kv" (emitted J (clusterRun J net evs ns)) base := by
  have h := converging_run J net base evs (converging_start J base h0 hkeys)
  have hG : ∀ a ∈ emitted J (clusterRun J net evs ns), ∀ b ∈ emitted J (clusterRun J net evs ns),
      a ≠ b → Unrelated a.key b.key := fun a ha b hb hab =>
    (List.pairwise_map.mp (List.pairwise_append.mp h.apart).1).forall
      (fun _ _ h => unrelated_symm h) ha hb hab
  intro x hx
  obtain ⟨-, -, -, A, hdb, hA, -, hmsg⟩ := h.holds x hx
  have hsub : A ⊆ emitted J (clusterRun J net evs ns) := fun w hw =>
    (hA w hw).resolve_right fun ⟨u, hu, _⟩ => by rw [hend x hx] at hu; cases hu
  rw [hdb]
  refine applyAll_members J "kv" hG hsub (fun w => ⟨@hsub w, fun hw => ?_⟩) hbase
  obtain ⟨m, hm, hc⟩ := List.mem_filterMap.mp hw
  obtain ⟨y, hy, hm⟩ := List.mem_flatMap.mp hm
  obtain ⟨w', hw', hc'⟩ := hmsg m (List.mem_append.mpr (hall x hx y hy m hm))
  rw [hc] at hc'
  exact Option.some.inj hc' ▸ hw'

/-- Two nodes, one putting `a/x` and one deleting `b`: both commit, node 1 emits
and node 0 handles its message before it emits its own, which node 1 handles
last. -/
theorem cluster_converges_crossed :
    List.Forall (fun x : Member => x.node.db =
        applyAll Codec.json "kv" (emitted Codec.json (clusterRun Codec.json ⟨fun _ => none⟩
        [.run 0 0, .run 1 0, .run 1 0, .deliver 0 1 0, .run 0 0, .deliver 1 0 0]
        [⟨⟨"n", "l", "a", Time.zero, Time.zero⟩,
          [((.putObject "a/x" ⟨Time.zero, false, [1], [], false⟩ "kv" false, []), .start)], newKV [], [], true⟩,
         ⟨⟨"m", "l", "a", Time.zero, Time.zero⟩, [((.deleteKey "b" "kv", []), .start)], newKV [], [], true⟩])) (newKV []).db)
      (clusterRun Codec.json ⟨fun _ => none⟩
        [.run 0 0, .run 1 0, .run 1 0, .deliver 0 1 0, .run 0 0, .deliver 1 0 0]
        [⟨⟨"n", "l", "a", Time.zero, Time.zero⟩,
          [((.putObject "a/x" ⟨Time.zero, false, [1], [], false⟩ "kv" false, []), .start)], newKV [], [], true⟩,
         ⟨⟨"m", "l", "a", Time.zero, Time.zero⟩, [((.deleteKey "b" "kv", []), .start)], newKV [], [], true⟩]) :=
  List.forall_iff_forall_mem.mpr
    (cluster_converges Codec.json _ _ _ (by decide) (by decide) tidy_newKV.sorted _ (by decide) (by decide))

end Cluster

end Cave
