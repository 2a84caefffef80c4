import Cave.Proofs.Reads

/-!
# The lock list of an envelope

`Lock` reads the envelope at a path, appends a new lock, and writes the
envelope back through `PutObject`; `Unlock` reads it, drops the first lock
with the given id, and writes it back. Between the two transactions nothing
else runs here, so the laws are about what one read and one write do.

The write can fail for three reasons the read does not rule out: the new
envelope does not marshal (a timestamp outside the years 0 to 9999, which a
clock near the end of that range gives the new lock's expiry), it is too large
for `bbolt`, or the path could not be written at all. The last never happens on
a reachable store: every leaf was put there by `PutObject`, so its bucket chain
and key passed `bbolt`'s checks and it holds a marshalled envelope (`Written`,
kept by every update). So on a reachable store, with the rewritten envelope
`Storable`, `Lock` appends and `Unlock` removes exactly one position
(`lock_list_laws`); and `Unlock` of the lock `Lock` returned gives the list
back when no earlier lock had its id.

What is read back is the envelope as JSON keeps it: a decoded envelope has no
monotonic clock reading, and the new lock comes back without its own.
-/

namespace Cave

open Go Bucket

/-! ## Leaves that can be written again -/

/-- An envelope `PutObject` can store: it marshals, within `bbolt`'s bound on
values. -/
def Storable (J : Json) (v : KVObject) : Prop :=
  ∃ b, J.marshalObject v = .ok b ∧ b.length ≤ maxValueSize

/-- Every leaf of the database could be written again where it is: the buckets
on its path are named, its key is named and within `bbolt`'s bound, and it
holds a marshalled envelope within the bound on values. -/
def Written (J : Json) (db : Bucket) : Prop :=
  ∀ root bs k b, db.leaf? (root :: bs) k = some b →
    (∀ x ∈ bs, x ≠ "") ∧ k ≠ "" ∧ k.utf8ByteSize ≤ maxKeySize ∧
      ∃ v, J.marshalObject v = .ok b ∧ b.length ≤ maxValueSize

/-- What `Put` checks of the key and the value before it writes. -/
theorem put_ok_bounds {b b' : Bucket} {k : String} {v : Bytes} (h : b.put k v = .ok b') :
    k ≠ "" ∧ k.utf8ByteSize ≤ maxKeySize ∧ v.length ≤ maxValueSize := by
  simp only [Bucket.put] at h
  split at h
  · cases h
  · next hk =>
    split at h
    · cases h
    · next hs =>
      split at h
      · cases h
      · next hv => exact ⟨hk, by omega, by omega⟩

/-- `Put` over a key that holds a value succeeds when the key and the value
pass its checks. -/
theorem put_of_get {d : Bucket} {k : String} {b : Bytes} (hg : d.get k = some b) (hk : k ≠ "")
    (hks : k.utf8ByteSize ≤ maxKeySize) {v : Bytes} (hv : v.length ≤ maxValueSize) :
    d.put k v = .ok (d.insert k (.value v)) := by
  simp only [Bucket.get, Option.bind_eq_some] at hg
  obtain ⟨n, hn, hv'⟩ := hg
  cases n with
  | bucket _ => cases hv'
  | value _ =>
    simp only [Bucket.put, hk, if_false, hn]
    rw [if_neg (by omega), if_neg (by omega)]

theorem entry_of_bucket {b c : Bucket} {p : String} (h : b.bucket p = some c) :
    b.entry p = some (.bucket c) := by
  simp only [Bucket.bucket, Option.bind_eq_some] at h
  obtain ⟨n, hn, hc⟩ := h
  cases n with
  | value _ => cases hc
  | bucket _ => cases hc; exact hn

/-- A chain `descend` creates is named: `CreateBucketIfNotExists` refuses the
empty name. -/
theorem descend_true_names :
    ∀ {ps : List String} {b d : Bucket} {set : Bucket → Bucket},
    descend true ps b = .ok (d, set) → ∀ x ∈ ps, x ≠ ""
  | [], _, _, _, _ => fun _ h => absurd h (List.not_mem_nil _)
  | p :: ps, b, d, set, h => by
    obtain ⟨c, set', hc, hd, -⟩ := descend_cons_ok h
    have hp : p ≠ "" := by
      rintro rfl; simp [Bucket.child, createBucketIfNotExists, Except.mapError] at hc
    exact fun x hx => (List.mem_cons.mp hx).elim (· ▸ hp) (descend_true_names hd x)

/-- Along an existing named chain, `descend` with `create` reaches what the walk
reaches. -/
theorem descend_true_of_walk :
    ∀ {ps : List String} {b d : Bucket}, (∀ x ∈ ps, x ≠ "") → b.walk ps = some d →
      ∃ set, descend true ps b = .ok (d, set)
  | [], _, _, _, h => by cases h; exact ⟨id, rfl⟩
  | p :: ps, b, d, hn, h => by
    simp only [walk_cons, Option.bind_eq_some] at h
    obtain ⟨c, hc, hw⟩ := h
    have hchild : b.child p true = .ok c := by
      simp [Bucket.child, createBucketIfNotExists, hn p (List.mem_cons_self _ _),
        entry_of_bucket hc, Except.mapError]
    obtain ⟨set, hd⟩ := descend_true_of_walk (fun x hx => hn x (List.mem_cons_of_mem _ hx)) hw
    exact ⟨fun d' => b.insert p (.bucket (set d')),
      by simp [descend, hchild, hd, bind, Except.bind, pure, Except.pure]⟩

theorem putObjectTx_bounds {db db' : Bucket} {bs : List String} {k root : String} {bobj : Bytes}
    (h : putObjectTx bs k bobj root db = .ok db') :
    (∀ x ∈ bs, x ≠ "") ∧ k ≠ "" ∧ k.utf8ByteSize ≤ maxKeySize ∧ bobj.length ≤ maxValueSize := by
  obtain ⟨d, set, d', hg, hp, -⟩ := writeTx_ok h
  obtain ⟨b, set', -, hd, -⟩ := getBuckets_ok hg
  exact ⟨descend_true_names hd, put_ok_bounds hp⟩

section Written

variable {J : Json} {db db' : Bucket}

/-- A write that only removes leaves keeps the store written. -/
theorem Written.of_leaves (hw : Written J db)
    (h : ∀ qs j b, db'.leaf? qs j = some b → db.leaf? qs j = some b) : Written J db' :=
  fun root bs k b hl => hw root bs k b (h _ _ _ hl)

theorem written_commit {r : Except Fault Bucket} (hw : Written J db)
    (h : ∀ db', r = .ok db' → Written J db') : Written J (commit r db) := by
  cases r with
  | ok db' => exact h db' rfl
  | error _ => exact hw

theorem written_stable (J : Json) : UpdateStable J (Written J) := by
  intro root u db hw
  unfold applyUpdate
  split
  · split
    · next bobj hm =>
      refine written_commit hw fun db' h => fun r bs k b hl => ?_
      rw [leaf?_putObjectTx h] at hl
      split at hl
      · next hq =>
        obtain ⟨hq, rfl⟩ := hq
        obtain ⟨rfl, rfl⟩ := List.cons.inj hq
        cases hl
        obtain ⟨hn, hk, hks, hv⟩ := putObjectTx_bounds h
        exact ⟨hn, hk, hks, u.value, hm, hv⟩
      · exact hw _ _ _ _ hl
    · exact hw
  · exact written_commit hw fun db' h => hw.of_leaves fun qs j b hl => by
      rw [leaf?_deleteKeyTx h] at hl; split at hl
      · cases hl
      · exact hl
  · exact written_commit hw fun db' h => hw.of_leaves fun qs j b hl => by
      rw [leaf?_deleteBucketTx h] at hl; split at hl
      · cases hl
      · exact hl
  · exact hw

theorem written_newKV (J : Json) : Written J (newKV []).db := by
  intro root bs k b h
  have hempty : ∀ c, (newKV []).db.bucket root = some c → c = [] := fun c hc => by
    simp only [show (newKV []).db = [("_system", .bucket []), ("kv", .bucket [])] from rfl,
      Bucket.bucket, Bucket.entry] at hc
    split_ifs at hc <;> simp_all [Node.bucket?]
  rw [leaf?_cons, Option.bind_eq_some] at h
  obtain ⟨c, hc, hl⟩ := h
  rw [hempty c hc, leaf?_empty] at hl
  cases hl

/-- Every leaf of a reachable store could be written again. -/
theorem written_run (J : Json) (net : Cluster) (C : Crypto) (ops : List Op) :
    Written J (Op.run J net C (newKV []) ops).db :=
  Op.run_stable net (written_stable J) C (written_newKV J) ops

/-- What `GetObject` reads from a written store is a decoded envelope: it has
no monotonic clock reading left, it is storable, and its leaf is there. -/
theorem readObject_written (hw : Written J db) {p root : String} {e : KVObject}
    (h : readObject J db p root = .ok e) :
    ∃ b, db.leaf? (root :: (parsePath p).1) (parsePath p).2 = some b ∧
      e.stripMonotonic = e ∧ Storable J e := by
  cases hr : db.bucket root with
  | none => simp [readObject, hr] at h
  | some r =>
    obtain ⟨b, hl, hu⟩ := (readObject_eq_ok hr).mp h
    obtain ⟨-, -, -, v, hm, hv⟩ := hw _ _ _ _ hl
    rw [J.unmarshalObject_marshalObject hm, Except.ok.injEq] at hu
    subst hu
    exact ⟨b, hl, Codec.KVObject.stripMonotonic_idem v, b,
      by rw [J.marshalObject_stripMonotonic, hm], hv⟩

/-- A leaf of a written store can be written again with any bytes within the
bound on values. -/
theorem putObjectTx_of_leaf (hw : Written J db) {root : String} {bs : List String} {k : String}
    {b : Bytes} (hl : db.leaf? (root :: bs) k = some b) {bobj : Bytes}
    (hv : bobj.length ≤ maxValueSize) : ∃ db', putObjectTx bs k bobj root db = .ok db' := by
  obtain ⟨hn, hk, hks, -⟩ := hw _ _ _ _ hl
  rw [leaf?_cons, Option.bind_eq_some] at hl
  obtain ⟨r, hr, hl⟩ := hl
  simp only [Bucket.leaf?, Option.bind_eq_some] at hl
  obtain ⟨d, hwk, hg⟩ := hl
  obtain ⟨set, hd⟩ := descend_true_of_walk hn hwk
  have hgb : getBuckets db bs root true = .ok (d, fun d' => db.insert root (.bucket (set d'))) := by
    simp [getBuckets, hr, hd, bind, Except.bind, pure, Except.pure]
  exact ⟨db.insert root (.bucket (set (d.insert k (.value bobj)))), by
    simp [putObjectTx, writeTx, hgb, put_of_get hg hk hks hv, bind, Except.bind, Except.mapError,
      pure, Except.pure]⟩

/-- A `put:key` update over a path whose envelope reads on a written store,
with a storable envelope: the path reads back as that envelope, whatever it
held before. -/
theorem readObject_put_written (hw : Written J db) {p root : String} {x : KVObject}
    (he : readObject J db p root = .ok x) {v : KVObject} (hv : Storable J v) :
    readObject J (applyUpdate J root ⟨"put:key", p, v⟩ db) p root = .ok v.stripMonotonic := by
  obtain ⟨b, hl, -, -⟩ := readObject_written hw he
  obtain ⟨bobj, hm, hlen⟩ := hv
  obtain ⟨db', hput⟩ := putObjectTx_of_leaf hw hl hlen
  simp only [applyUpdate, hm, hput, commit, readObject_putObjectTx J hm hput, if_true]

end Written

/-! ## One `Lock`, one `Unlock` -/

theorem withLocks_stripMonotonic {e : KVObject} (hs : e.stripMonotonic = e) (L : List Lock) :
    { e with locks := L }.stripMonotonic = { e with locks := L.map Lock.stripMonotonic } := by
  have ht := congrArg KVObject.lastUpdated hs
  simp only [KVObject.stripMonotonic] at ht ⊢
  rw [ht]

theorem withLock_stripMonotonic {e : KVObject} (hs : e.stripMonotonic = e) (l : Lock) :
    { e with locks := e.locks ++ [l] }.stripMonotonic =
      { e with locks := e.locks ++ [l.stripMonotonic] } := by
  rw [withLocks_stripMonotonic hs, List.map_append, List.map_singleton]
  congr
  simpa using congrArg KVObject.locks hs

theorem lock_stripMonotonic_of_mem {e : KVObject} (hs : e.stripMonotonic = e) {x : Lock}
    (hx : x ∈ e.locks) : x.stripMonotonic = x := by
  have hl := congrArg KVObject.locks hs
  rw [KVObject.stripMonotonic_locks] at hl
  rw [← hl] at hx
  obtain ⟨y, -, rfl⟩ := List.mem_map.mp hx
  simp [Lock.stripMonotonic, Time.stripMonotonic]

/-- The first position holding `L[i]`'s id is `i` when no earlier lock has it. -/
theorem lockIndex_eq {L : List Lock} {i : Nat} (hi : i < L.length) {id : String}
    (hid : L[i].lockId = id) (hfirst : ∀ x ∈ L.take i, x.lockId ≠ id) : lockIndex id L = i := by
  have hf : L.findIdx? (fun l => l.lockId = id) = some i :=
    List.findIdx?_eq_some_iff_getElem.mpr ⟨hi, by simpa using hid, fun j hj => by
      have : L[j] ∈ L.take i := List.mem_iff_getElem.mpr
        ⟨j, by simp; omega, by simp [List.getElem_take]⟩
      simpa using hfirst _ this⟩
  simp [lockIndex, hf]

section Calls

variable {J : Json} (net : Cluster) {s : KV} {p root : String} {e : KVObject}

/-- `Lock` on a written store, at a path whose envelope reads as `e`, with the
extended envelope storable: one `put:key` update of the extended envelope, one
message carrying that update, and, with the transport answering nil, the new
lock returned. -/
theorem lock_written_eq (hw : Written J s.db) (he : readObject J s.db p root = .ok e) (c : Claim)
    (hc : Storable J { e with locks := e.locks ++ [c.lockOn p root] }) :
    ∃ d, J.marshalUpdate ⟨"put:key", p, { e with locks := e.locks ++ [c.lockOn p root] }⟩ = .ok d ∧
      (lock J net c p root [] s).2 =
        ⟨applyUpdate J root ⟨"put:key", p, { e with locks := e.locks ++ [c.lockOn p root] }⟩ s.db,
          s.sent ++ [⟨"update", d, "KVUpdate"⟩]⟩ ∧
      (net.answer s.sent.length = none → (lock J net c p root [] s).1 = .ok (c.lockOn p root, none)) := by
  obtain ⟨b, hl, -, -⟩ := readObject_written hw he
  obtain ⟨bobj, hm, hv⟩ := hc
  obtain ⟨db', hput⟩ := putObjectTx_of_leaf hw hl hv
  have hin : ({ e with locks := e.locks ++ [c.lockOn p root] } : KVObject).inRange := by
    rw [← J.marshalObject_isOk, hm]; rfl
  obtain ⟨d, hd⟩ := marshalUpdate_ok J hin "put:key" p
  have hl' : lock J net c p root [] s = (withErr (c.lockOn p root)
      (emit net ⟨"update", d, "KVUpdate"⟩ { s with db := db' }).1,
      (emit net ⟨"update", d, "KVUpdate"⟩ { s with db := db' }).2) := by
    simp only [lock_apply, he, putObject_apply, hm, hput, List.headD_cons, if_true,
      emitEvent_apply, hd]
  have hdb : db' = applyUpdate J root ⟨"put:key", p, { e with locks := e.locks ++ [c.lockOn p root] }⟩
      s.db := by
    simp only [applyUpdate, hm, hput, commit]
  refine ⟨d, hd, ?_, fun hn => ?_⟩
  · rw [hl', emit_apply, hdb]
  · rw [hl', emit_apply, hn]; rfl

/-- `Lock` on a written store, at a path whose envelope reads as `e`, with the
extended envelope storable: the envelope reads back with the new lock last, and
with the transport answering nil the lock is returned. -/
theorem lock_written (hw : Written J s.db) (he : readObject J s.db p root = .ok e) (c : Claim)
    (hc : Storable J { e with locks := e.locks ++ [c.lockOn p root] }) :
    readObject J (lock J net c p root [] s).2.db p root =
        .ok { e with locks := e.locks ++ [(c.lockOn p root).stripMonotonic] } ∧
      (net.answer s.sent.length = none → (lock J net c p root [] s).1 = .ok (c.lockOn p root, none)) := by
  obtain ⟨-, -, hs, -⟩ := readObject_written hw he
  obtain ⟨d, -, hst, hret⟩ := lock_written_eq net hw he c hc
  rw [hst, ← withLock_stripMonotonic hs]
  exact ⟨readObject_put_written hw he hc, hret⟩

/-- `Unlock` of a lock with the id of `L[i]`, where no earlier lock has it, on a
written store at the lock's path, with the shortened envelope storable: the
envelope reads back without position `i`. -/
theorem unlock_written (hw : Written J s.db) (he : readObject J s.db p root = .ok e) {i : Nat}
    (hi : i < e.locks.length) (l : Lock) (hid : e.locks[i].lockId = l.lockId)
    (hfirst : ∀ x ∈ e.locks.take i, x.lockId ≠ l.lockId) (hkey : l.key = p) (hroot : l.root = root)
    (hst : Storable J { e with locks := e.locks.eraseIdx i }) :
    readObject J (unlock J net l [] s).2.db p root = .ok { e with locks := e.locks.eraseIdx i } := by
  obtain ⟨b, hl, hs, -⟩ := readObject_written hw he
  obtain ⟨bobj, hm, hv⟩ := hst
  rw [List.eraseIdx_eq_take_drop_succ] at hm ⊢
  obtain ⟨db', hput⟩ := putObjectTx_of_leaf hw hl hv
  subst hkey hroot
  have hn : ¬((i : Int) < 0) := by omega
  rw [unlock_applyUpdate, he]
  simp only [lockIndex_eq hi hid hfirst, hn, if_false, Int.toNat_ofNat, applyUpdate, hm, hput,
    commit, readObject_putObjectTx J hm hput, if_true, withLocks_stripMonotonic hs]
  congr
  refine (List.map_congr_left fun x hx => ?_).trans (List.map_id _)
  rcases List.mem_append.mp hx with hx | hx
  · exact lock_stripMonotonic_of_mem hs (List.mem_of_mem_take hx)
  · exact lock_stripMonotonic_of_mem hs (List.mem_of_mem_drop hx)

end Calls

/-! ## The laws on reachable stores -/

/-- The lock-list laws at a path whose envelope reads as `e` on the node `s`.
`Lock`, when the extended envelope is storable, leaves the envelope with its
lock appended, as JSON keeps it, and returns that lock when the transport
answers nil. `Unlock` of the lock at a position where its id first appears,
when the shortened envelope is storable, removes exactly that position. And
`Unlock` of the lock `Lock` returned, when no lock had its id, gives `e`
back. -/
structure LockLaws (J : Json) (net : Cluster) (s : KV) (p root : String) (e : KVObject) : Prop where
  lock_appends : ∀ c : Claim, Storable J { e with locks := e.locks ++ [c.lockOn p root] } →
    (getObject J p root (lock J net c p root [] s).2).1 =
      .ok { e with locks := e.locks ++ [(c.lockOn p root).stripMonotonic] }
  lock_returns : ∀ c : Claim, Storable J { e with locks := e.locks ++ [c.lockOn p root] } →
    net.answer s.sent.length = none → (lock J net c p root [] s).1 = .ok (c.lockOn p root, none)
  unlock_removes : ∀ i (hi : i < e.locks.length),
    (∀ x ∈ e.locks.take i, x.lockId ≠ e.locks[i].lockId) → e.locks[i].key = p →
    e.locks[i].root = root → Storable J { e with locks := e.locks.eraseIdx i } →
    (getObject J p root (unlock J net e.locks[i] [] s).2).1 =
      .ok { e with locks := e.locks.eraseIdx i }
  unlock_restores : ∀ c : Claim, Storable J { e with locks := e.locks ++ [c.lockOn p root] } →
    (∀ x ∈ e.locks, x.lockId ≠ c.lockId) →
    (getObject J p root (unlock J net (c.lockOn p root) [] (lock J net c p root [] s).2).2).1 = .ok e

/-- On every reachable store, at every path whose envelope `GetObject` reads,
`Lock` and `Unlock` obey the lock-list laws. -/
theorem lock_list_laws (J : Json) (net : Cluster) (C : Crypto) (ops : List Op) (p root : String)
    (e : KVObject) (he : (getObject J p root (Op.run J net C (newKV []) ops)).1 = .ok e) :
    LockLaws J net (Op.run J net C (newKV []) ops) p root e := by
  have hw := written_run J net C ops
  rw [getObject_apply] at he
  refine ⟨fun c hc => ?_, fun c hc => (lock_written net hw he c hc).2,
    fun i hi hfirst hkey hroot hst => ?_, fun c hc hfresh => ?_⟩
  · rw [getObject_apply]; exact (lock_written net hw he c hc).1
  · rw [getObject_apply]; exact unlock_written net hw he hi _ rfl hfirst hkey hroot hst
  · have hw₁ := lock_stable net (written_stable J) c p root [] _ hw
    have he₁ := (lock_written net hw he c hc).1
    have hlen : e.locks.length < (e.locks ++ [(c.lockOn p root).stripMonotonic]).length := by simp
    obtain ⟨-, -, -, hst⟩ := readObject_written hw he
    have h := unlock_written net hw₁ he₁ hlen (c.lockOn p root) (by simp; rfl)
      (by simpa using hfresh) rfl rfl (by simpa [List.eraseIdx_eq_take_drop_succ] using hst)
    rw [getObject_apply, h]
    simp [List.eraseIdx_eq_take_drop_succ]

theorem lock_list_laws_posted :
    (getObject Codec.json "k" "kv" (Op.run Codec.json ⟨fun _ => none⟩ Codec.box (newKV [])
        [.http Time.zero ⟨"POST", "/api/v1/kv/k", fun _ => "", .ok [0x61]⟩])).1 =
      .ok ⟨Time.zero, false, [0x61], [], false⟩ ∧
    LockLaws Codec.json ⟨fun _ => none⟩ (Op.run Codec.json ⟨fun _ => none⟩ Codec.box (newKV [])
        [.http Time.zero ⟨"POST", "/api/v1/kv/k", fun _ => "", .ok [0x61]⟩]) "k" "kv"
      ⟨Time.zero, false, [0x61], [], false⟩ :=
  ⟨by decide, lock_list_laws Codec.json _ Codec.box _ "k" "kv" _ (by decide)⟩

/-- A lock claimed less than five minutes before the end of the year 9999, both
of `Lock`'s clock readings there: the claim time marshals and the expiry does
not, `Lock` returns the lock with the encoder's error, and the envelope keeps
its lock list. -/
theorem lock_near_year_end_fails :
    (lock Codec.json ⟨fun _ => none⟩
        ⟨"n", "l", "a", ⟨315537897500000000000, 0, none⟩, ⟨315537897500000000000, 0, none⟩⟩
        "k" "kv" [] (Op.run Codec.json ⟨fun _ => none⟩ Codec.box (newKV [])
          [.http Time.zero ⟨"POST", "/api/v1/kv/k", fun _ => "", .ok [0x61]⟩])).1 =
      .ok (Claim.lockOn
        ⟨"n", "l", "a", ⟨315537897500000000000, 0, none⟩, ⟨315537897500000000000, 0, none⟩⟩ "k" "kv",
        some (.json Codec.rangeError)) ∧
    (getObject Codec.json "k" "kv"
        (lock Codec.json ⟨fun _ => none⟩
          ⟨"n", "l", "a", ⟨315537897500000000000, 0, none⟩, ⟨315537897500000000000, 0, none⟩⟩
          "k" "kv" [] (Op.run Codec.json ⟨fun _ => none⟩ Codec.box (newKV [])
            [.http Time.zero ⟨"POST", "/api/v1/kv/k", fun _ => "", .ok [0x61]⟩])).2).1 =
      .ok ⟨Time.zero, false, [0x61], [], false⟩ := by
  decide

/-! ## Two nodes locking one key

`Lock` replicates as a `put:key` update that carries the whole envelope, and the
peer writes that envelope over its own. Two nodes that lock one key before
either has applied the other's update therefore swap their locks. -/

section Race

variable {J : Json} {db : Bucket} {p root : String} {e : KVObject}

/-- A node's own `Lock`, then a peer's `put:key` of the envelope extended with
the peer's lock: the envelope holds the peer's lock and not the node's own. -/
theorem peer_lock_overwrites (hw : Written J db) (he : readObject J db p root = .ok e)
    {a b : Claim} (ha : Storable J { e with locks := e.locks ++ [a.lockOn p root] })
    (hb : Storable J { e with locks := e.locks ++ [b.lockOn p root] }) :
    readObject J (applyUpdate J root ⟨"put:key", p, { e with locks := e.locks ++ [b.lockOn p root] }⟩
        (applyUpdate J root ⟨"put:key", p, { e with locks := e.locks ++ [a.lockOn p root] }⟩ db))
        p root =
      .ok { e with locks := e.locks ++ [(b.lockOn p root).stripMonotonic] } := by
  obtain ⟨-, -, hs, -⟩ := readObject_written hw he
  rw [← withLock_stripMonotonic hs]
  exact readObject_put_written (written_stable J root _ db hw) (readObject_put_written hw he ha) hb

end Race

/-- Two nodes hold the same envelope at `p` under `kv`. Each runs `Lock` on `p`
with its own claim, and each emits one message; then each node's update loop
applies the message the other emitted. Each node ends with the envelope holding
the other node's lock and not its own: the lock a node returned to its caller
is gone there, and the two nodes disagree whenever the claims' ids differ. -/
theorem lock_race_swaps_locks (J : Json) (net : Cluster) (a b c c' : Claim) {s t : KV}
    {p : String} {e : KVObject} (hws : Written J s.db) (hwt : Written J t.db)
    (hes : readObject J s.db p "kv" = .ok e) (het : readObject J t.db p "kv" = .ok e)
    (ha : Storable J { e with locks := e.locks ++ [a.lockOn p "kv"] })
    (hb : Storable J { e with locks := e.locks ++ [b.lockOn p "kv"] }) :
    ∃ ma mb, (lock J net a p "kv" [] s).2.sent = s.sent ++ [ma] ∧
      (lock J net b p "kv" [] t).2.sent = t.sent ++ [mb] ∧
      readObject J (handleUpdate J net c mb (lock J net a p "kv" [] s).2).2.db p "kv" =
        .ok { e with locks := e.locks ++ [(b.lockOn p "kv").stripMonotonic] } ∧
      readObject J (handleUpdate J net c' ma (lock J net b p "kv" [] t).2).2.db p "kv" =
        .ok { e with locks := e.locks ++ [(a.lockOn p "kv").stripMonotonic] } := by
  obtain ⟨dA, hdA, hsA, -⟩ := lock_written_eq net hws hes a ha
  obtain ⟨dB, hdB, htB, -⟩ := lock_written_eq net hwt het b hb
  refine ⟨⟨"update", dA, "KVUpdate"⟩, ⟨"update", dB, "KVUpdate"⟩, by rw [hsA], by rw [htB], ?_, ?_⟩
  · rw [handleUpdate_replicated J net hdB (List.mem_cons_self _ _) c, hsA]
    exact peer_lock_overwrites hws hes ha hb
  · rw [handleUpdate_replicated J net hdA (List.mem_cons_self _ _) c', htB]
    exact peer_lock_overwrites hwt het hb ha

theorem lock_race_swaps_locks_posted :
    ∃ ma mb,
      (lock Codec.json ⟨fun _ => none⟩ ⟨"n1", "l1", "a1", Time.zero, Time.zero⟩ "k" "kv" []
          (Op.run Codec.json ⟨fun _ => none⟩ Codec.box (newKV [])
            [.http Time.zero ⟨"POST", "/api/v1/kv/k", fun _ => "", .ok [0x61]⟩])).2.sent =
        (Op.run Codec.json ⟨fun _ => none⟩ Codec.box (newKV [])
          [.http Time.zero ⟨"POST", "/api/v1/kv/k", fun _ => "", .ok [0x61]⟩]).sent ++ [ma] ∧
      (lock Codec.json ⟨fun _ => none⟩ ⟨"n2", "l2", "a2", Time.zero, Time.zero⟩ "k" "kv" []
          (Op.run Codec.json ⟨fun _ => none⟩ Codec.box (newKV [])
            [.http Time.zero ⟨"POST", "/api/v1/kv/k", fun _ => "", .ok [0x61]⟩])).2.sent =
        (Op.run Codec.json ⟨fun _ => none⟩ Codec.box (newKV [])
          [.http Time.zero ⟨"POST", "/api/v1/kv/k", fun _ => "", .ok [0x61]⟩]).sent ++ [mb] ∧
      readObject Codec.json (handleUpdate Codec.json ⟨fun _ => none⟩
          ⟨"n1", "l1", "a1", Time.zero, Time.zero⟩ mb
          (lock Codec.json ⟨fun _ => none⟩ ⟨"n1", "l1", "a1", Time.zero, Time.zero⟩ "k" "kv" []
            (Op.run Codec.json ⟨fun _ => none⟩ Codec.box (newKV [])
              [.http Time.zero ⟨"POST", "/api/v1/kv/k", fun _ => "", .ok [0x61]⟩])).2).2.db "k" "kv" =
        .ok ⟨Time.zero, false, [0x61],
          [(Claim.lockOn ⟨"n2", "l2", "a2", Time.zero, Time.zero⟩ "k" "kv").stripMonotonic], false⟩ ∧
      readObject Codec.json (handleUpdate Codec.json ⟨fun _ => none⟩
          ⟨"n2", "l2", "a2", Time.zero, Time.zero⟩ ma
          (lock Codec.json ⟨fun _ => none⟩ ⟨"n2", "l2", "a2", Time.zero, Time.zero⟩ "k" "kv" []
            (Op.run Codec.json ⟨fun _ => none⟩ Codec.box (newKV [])
              [.http Time.zero ⟨"POST", "/api/v1/kv/k", fun _ => "", .ok [0x61]⟩])).2).2.db "k" "kv" =
        .ok ⟨Time.zero, false, [0x61],
          [(Claim.lockOn ⟨"n1", "l1", "a1", Time.zero, Time.zero⟩ "k" "kv").stripMonotonic], false⟩ :=
  lock_race_swaps_locks Codec.json _ _ _ _ _ (p := "k") (e := ⟨Time.zero, false, [0x61], [], false⟩)
    (written_run Codec.json _ Codec.box _) (written_run Codec.json _ Codec.box _) (by decide)
    (by decide) ⟨_, rfl, by decide⟩ ⟨_, rfl, by decide⟩

end Cave
