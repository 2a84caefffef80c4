import Cave.Proofs.Runs

/-!
# Every envelope under `kv` reads back

A leaf under `kv` is only ever written by `PutObject`, with the marshalled
envelope it was given, and `PutObject` is only ever given an envelope whose
secret data came out of `encrytJSON`: `Put` from the handlers encrypts first,
`Lock` and `Unlock` rewrite an envelope they read back, and the apply path
stores what a peer sent. `EnvelopeInv` says so of a database, and it is the
invariant of every run of the write paths from a freshly opened store.

* **Leaves.** The three write transactions keep it, from the leaf laws of
  `Store.lean`; so does `applyUpdate`, and through it every call.

* **Computations.** `Keeps (EnvelopeInv J C) x` says that the Go computation
  `x` keeps the invariant from every state. `Put` keeps it when a secret value
  came out of `encrytJSON`, `Lock` and `Unlock` because the envelope they
  rewrite was read back sealed, and the apply path on sealed updates.

* **Runs.** The handlers keep it by the checks of `Runs.lean`, given the
  engine methods that do; `run_envelopeInv` is the induction and
  `envelope_invariant` its reading: `GetObject` succeeds on every leaf under
  `kv`, and a secret envelope's data decrypts.
-/

namespace Cave

open Go

/-! ## The invariant -/

/-- An envelope whose data, if secret, came out of `encrytJSON`. -/
def Sealed (C : Crypto) (v : KVObject) : Prop :=
  v.secret = true → ∃ x, C.encrytJSON x = .ok v.data

/-- Every leaf under `kv` holds a marshalled sealed envelope. -/
def EnvelopeInv (J : Json) (C : Crypto) (db : Bucket) : Prop :=
  ∀ bs k b, db.leaf? ("kv" :: bs) k = some b → ∃ v, J.marshalObject v = .ok b ∧ Sealed C v

@[simp] theorem sealed_stripMonotonic {C : Crypto} {v : KVObject} :
    Sealed C v.stripMonotonic ↔ Sealed C v := by
  simp [Sealed]

section Leaves

variable {J : Json} {C : Crypto} {db db' : Bucket} {bs : List String} {k root : String}

theorem envelopeInv_putObjectTx {v : KVObject} {bobj : Bytes} (hi : EnvelopeInv J C db)
    (hm : J.marshalObject v = .ok bobj) (hs : root = "kv" → Sealed C v)
    (h : putObjectTx bs k bobj root db = .ok db') : EnvelopeInv J C db' := by
  intro bs' k' b hl
  rw [leaf?_putObjectTx h] at hl
  split at hl
  · next hq =>
    cases hl
    exact ⟨v, hm, hs (List.cons.inj hq.1).1.symm⟩
  · exact hi bs' k' b hl

theorem envelopeInv_deleteKeyTx (hi : EnvelopeInv J C db) (h : deleteKeyTx bs k root db = .ok db') :
    EnvelopeInv J C db' := by
  intro bs' k' b hl
  rw [leaf?_deleteKeyTx h] at hl
  split at hl
  · cases hl
  · exact hi bs' k' b hl

theorem envelopeInv_deleteBucketTx (hi : EnvelopeInv J C db)
    (h : deleteBucketTx bs k root db = .ok db') : EnvelopeInv J C db' := by
  intro bs' k' b hl
  rw [leaf?_deleteBucketTx h] at hl
  split at hl
  · cases hl
  · exact hi bs' k' b hl

theorem envelopeInv_commit {r : Except Fault Bucket} (hi : EnvelopeInv J C db)
    (h : ∀ db', r = .ok db' → EnvelopeInv J C db') : EnvelopeInv J C (commit r db) := by
  cases r with
  | ok db' => exact h db' rfl
  | error _ => exact hi

/-- An update keeps the invariant when the envelope it puts under `kv` is
sealed. -/
theorem envelopeInv_applyUpdate {u : KVUpdate} (hi : EnvelopeInv J C db)
    (hs : u.updateType = "put:key" → root = "kv" → Sealed C u.value) :
    EnvelopeInv J C (applyUpdate J root u db) := by
  unfold applyUpdate
  split
  · next ht =>
    split
    · next hm => exact envelopeInv_commit hi fun _ h => envelopeInv_putObjectTx hi hm (hs ht) h
    · exact hi
  · exact envelopeInv_commit hi fun _ h => envelopeInv_deleteKeyTx hi h
  · exact envelopeInv_commit hi fun _ h => envelopeInv_deleteBucketTx hi h
  · exact hi

/-- What `GetObject` reads under `kv` is sealed. -/
theorem readObject_sealed {key : String} {obj : KVObject} (hi : EnvelopeInv J C db)
    (h : readObject J db key "kv" = .ok obj) : Sealed C obj := by
  unfold readObject at h
  split at h
  · cases h
  · cases hl : db.leaf? ("kv" :: (parsePath key).1) (parsePath key).2 with
    | none => simp [hl, J.unmarshalObject_nil, Except.mapError] at h
    | some b =>
      obtain ⟨v, hm, hs⟩ := hi _ _ _ hl
      simp only [hl, Option.getD_some, J.unmarshalObject_marshalObject hm, Except.mapError,
        Except.ok.injEq] at h
      subst h
      exact sealed_stripMonotonic.mpr hs

end Leaves

/-! ## Computations that keep it -/

section Calls

variable {J : Json} {C : Crypto} (net : Cluster)

theorem putObject_keeps {key : String} {v : KVObject} {root : String}
    (hs : root = "kv" → Sealed C v) (secret : Bool) (e : List Bool) :
    Keeps (EnvelopeInv J C) (putObject J net key v root secret e) := fun s hi => by
  rw [putObject_applyUpdate]; exact envelopeInv_applyUpdate hi fun _ => hs

theorem put_keeps {value : Bytes} {root : String} {secret : Bool}
    (hs : root = "kv" → secret = true → ∃ x, C.encrytJSON x = .ok value) (now : Time)
    (key : String) (e : List Bool) : Keeps (EnvelopeInv J C) (put J net now key value root secret e) :=
  putObject_keeps net hs secret e

theorem deleteKey_keeps (key root : String) (e : List Bool) :
    Keeps (EnvelopeInv J C) (deleteKey J net key root e) := fun s hi => by
  rw [deleteKey_applyUpdate]
  exact envelopeInv_applyUpdate hi fun h =>
    absurd h (by decide : ¬"delete:key" = "put:key")

theorem deleteBucket_keeps (key root : String) (e : List Bool) :
    Keeps (EnvelopeInv J C) (deleteBucket J net key root e) := fun s hi => by
  rw [deleteBucket_applyUpdate]
  exact envelopeInv_applyUpdate hi fun h =>
    absurd h (by decide : ¬"delete:bucket" = "put:key")

theorem lock_keeps (c : Claim) (key root : String) (e : List Bool) :
    Keeps (EnvelopeInv J C) (lock J net c key root e) := fun s hi => by
  rw [lock_applyUpdate]
  split
  · exact hi
  · next obj h =>
    exact envelopeInv_applyUpdate hi fun _ hr => by
      have hs := readObject_sealed hi (hr ▸ h); exact hs

theorem unlock_keeps (l : Lock) (e : List Bool) : Keeps (EnvelopeInv J C) (unlock J net l e) := fun s hi => by
  rw [unlock_applyUpdate]
  split
  · exact hi
  · next obj h =>
    dsimp only
    split
    · exact hi
    · exact envelopeInv_applyUpdate hi fun _ hr => by
        have hs := readObject_sealed hi (hr ▸ h); exact hs

/-- The apply path keeps the invariant on updates whose envelopes are sealed. -/
theorem handleUpdate_keeps (c : Claim) {msg : Message}
    (hmsg : ∀ u, J.unmarshalUpdate msg.data = .ok u → Sealed C u.value) :
    Keeps (EnvelopeInv J C) (handleUpdate J net c msg) := by
  refine Keeps.ofJson_bind fun u hu => ?_
  split
  · exact putObject_keeps net (fun _ => hmsg u hu) _ _
  · exact deleteKey_keeps net _ _ _
  · exact deleteBucket_keeps net _ _ _
  · exact Keeps.bind (lock_keeps net c _ _ _) fun ⟨_, err⟩ => Keeps.check err
  · exact Keeps.ofJson_bind fun l _ => unlock_keeps net l _
  · exact Keeps.pure _

end Calls

section Handlers

variable {J : Json} {C : Crypto} (net : Cluster)

theorem put_keeps_kv : PutKeeps J net C (EnvelopeInv J C) :=
  fun now key _ _ hs => put_keeps net (fun _ => hs) now key []

end Handlers

/-! ## Runs of the write paths -/

namespace Op

/-- The ops the invariant is promised for: an update comes with a sealed
envelope. -/
def Admissible (J : Json) (C : Crypto) : Op → Prop
  | apply _ msg => ∀ u, J.unmarshalUpdate msg.data = .ok u → Sealed C u.value
  | _ => True

variable {J : Json} {net : Cluster} {C : Crypto}

theorem call_keeps {op : Op} (h : op.Admissible J C) : Keeps (EnvelopeInv J C) (op.call J net C) :=
  Op.call_keeps_of (put_keeps_kv net) (fun _ => deleteBucket_keeps net _ _ _)
    (fun _ => deleteKey_keeps net _ _ _) (fun c key root => lock_keeps net c key root [])
    (fun l => unlock_keeps net l []) fun c _ hop => handleUpdate_keeps net c (by subst hop; exact h)

theorem run_envelopeInv {s : KV} (hs : EnvelopeInv J C s.db) {ops : List Op}
    (h : ∀ op ∈ ops, op.Admissible J C) : EnvelopeInv J C (run J net C s ops).db :=
  Op.run_keeps hs fun op hop => call_keeps (h op hop)

end Op

theorem newKV_envelopeInv (J : Json) (C : Crypto) : EnvelopeInv J C (newKV []).db := by
  intro bs k b h
  have hkv : (newKV []).db.bucket "kv" = some [] := rfl
  simp [hkv] at h

/-- A read of a leaf under `kv` decodes, to a sealed envelope. -/
theorem getObject_of_leaf {J : Json} {C : Crypto} {s : KV} (hi : EnvelopeInv J C s.db)
    {p : String} {b : Bytes} (h : s.db.leaf? ("kv" :: (parsePath p).1) (parsePath p).2 = some b) :
    ∃ v, (getObject J p "kv" s).1 = .ok v ∧ Sealed C v := by
  obtain ⟨v, hm, hv⟩ := hi _ _ _ h
  have hb : (s.db.bucket "kv").isSome := by
    rw [Bucket.leaf?_cons] at h
    cases hk : s.db.bucket "kv" <;> simp_all
  refine ⟨v.stripMonotonic, ?_, sealed_stripMonotonic.mpr hv⟩
  rw [getObject_apply, readObject_of_bucket J hb, h]
  simp [J.unmarshalObject_marshalObject hm, Except.mapError]

/-- After any run of the write paths from a freshly opened store, every leaf
under `kv` is a marshalled envelope whose secret data came out of `encrytJSON`,
so `GetObject` decodes it and `decryptJSON` opens a secret one. -/
theorem envelope_invariant (J : Json) (net : Cluster) (C : Crypto) (ops : List Op)
    (hops : ∀ op ∈ ops, op.Admissible J C) :
    (∀ bs k b, (Op.run J net C (newKV []) ops).db.leaf? ("kv" :: bs) k = some b →
      ∃ v, J.marshalObject v = .ok b ∧ (v.secret = true → ∃ x, C.encrytJSON x = .ok v.data)) ∧
    (∀ p b, (Op.run J net C (newKV []) ops).db.leaf? ("kv" :: (parsePath p).1) (parsePath p).2 =
        some b → ∃ v, (getObject J p "kv" (Op.run J net C (newKV []) ops)).1 = .ok v ∧
          (v.secret = true → (C.decryptJSON v.data).isOk)) := by
  have hi : EnvelopeInv J C (Op.run J net C (newKV []) ops).db :=
    Op.run_envelopeInv (newKV_envelopeInv J C) hops
  refine ⟨hi, fun p b h => ?_⟩
  obtain ⟨v, hv, hs⟩ := getObject_of_leaf hi h
  exact ⟨v, hv, fun h' => by
    obtain ⟨x, hx⟩ := hs h'
    exact C.decryptJSON_encrytJSON hx⟩

theorem envelope_invariant_secret_post :
    ∃ v, (getObject Codec.json "a" "kv" (Op.run Codec.json ⟨fun _ => none⟩ Codec.box (newKV [])
        [.http Time.zero ⟨"POST", "/api/v1/kv/a", fun n => if n = "secret" then "1" else "", .ok [5]⟩,
         .apply ⟨"n", "l", "a", Time.zero, Time.zero⟩ ⟨"update",
          Codec.update.enc ⟨"put:key", "b", ⟨Time.zero, false, [6], [], false⟩⟩, "KVUpdate"⟩])).1 =
        .ok v ∧ (v.secret = true → (Codec.box.decryptJSON v.data).isOk) :=
  (envelope_invariant Codec.json ⟨fun _ => none⟩ Codec.box _ (by
    rintro op (_ | ⟨_, _ | ⟨_, _ | _⟩⟩)
    · trivial
    · rintro u hu
      cases hu
      exact fun h => nomatch h)).2 "a" _ rfl

end Cave
