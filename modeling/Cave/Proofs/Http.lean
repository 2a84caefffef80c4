import Cave.Proofs.Locks
import Cave.Proofs.Batch

/-!
# Writing and reading over HTTP

`POST /api/v1/kv/{path}` stores its body under the path through `Put`, and a
`GET` of the path reads it back through `Get`. A POST answered 200 has committed
its transaction and emitted its event, so the store holds the new envelope at
the path; and since `Put` refuses the empty key, the path is neither empty nor
ends in `/`, so the GET goes to `Get`, not to `GetKeys`. The GET then answers
the body, unless the body was empty: `Get` hands back no bytes, and the handler
answers 404 for a key the POST has just written.

Every request to the router is answered, on every state a node reaches
(`http_always_responds`). `GetKeys` panics on a key that names a value or
nothing (`getKeys_panics_iff`), but the router calls it only on a path that is
empty or ends in `/`, whose key is empty; every other engine call it makes
returns its errors as values on a store with its `kv` bucket, and every
operation keeps that bucket (`tidy_run`).
-/

namespace Cave

open Go

/-- A path whose key is not empty is neither empty nor ends in `/`. -/
theorem not_hasSuffix_of_key {p : String} (h : (parsePath p).2 ≠ "") :
    (hasSuffix p "/" || p = "") = false := by
  have hp : p ≠ "" := fun hp => h (by subst hp; rfl)
  suffices hs : hasSuffix p "/" = false by simp [hs, hp]
  have hd := parsePath_snd_data p
  simp only [hasSuffix, Bool.eq_false_iff, ne_eq, List.isSuffixOf_iff_suffix]
  rintro ⟨ys, hys⟩
  rcases lastIndex_spec '/' p.data with ⟨hc, -⟩ | ⟨pre, last, hpd, hc, hi⟩
  · exact hc (hys ▸ List.mem_append_right ys (List.mem_singleton_self _))
  · rw [hi, hpd] at hd
    simp at hd
    rcases List.eq_nil_or_concat last with rfl | ⟨l, z, rfl⟩
    · exact h (String.ext hd)
    · have he : ys ++ ['/'] = (pre ++ '/' :: l) ++ [z] := by rw [hys, hpd]; simp
      obtain ⟨-, hz⟩ := List.append_inj' he rfl
      exact hc (by rw [(List.cons.inj hz).1]; simp)

section Handlers

variable (J : Json) (net : Cluster) (C : Crypto)

/-- A `Put` that returns nil has marshalled its envelope and committed its
transaction, and leaves the store the transaction gives. -/
theorem put_ok_commits {now : Time} {key : String} {buf : Bytes} {secret : Bool} {s : KV}
    (h : (put J net now key buf "kv" secret [] s).1 = .ok ()) :
    ∃ bobj db', J.marshalObject ⟨now, secret, buf, [], !J.valid buf⟩ = .ok bobj ∧
      putObjectTx (parsePath key).1 (parsePath key).2 bobj "kv" s.db = .ok db' ∧
      (put J net now key buf "kv" secret [] s).2.db = db' := by
  change (putObject J net key _ "kv" secret [] s).1 = _ at h
  change ∃ bobj db', _ ∧ _ ∧ (putObject J net key _ "kv" secret [] s).2.db = db'
  rw [putObject_apply] at h ⊢
  cases hm : J.marshalObject ⟨now, secret, buf, [], !J.valid buf⟩ with
  | error => simp [hm] at h
  | ok bobj =>
    cases htx : putObjectTx (parsePath key).1 (parsePath key).2 bobj "kv" s.db with
    | error => simp [hm, htx] at h
    | ok db' => exact ⟨bobj, db', rfl, htx, by simp [htx, emitEvent_db]⟩

/-- A `Put` whose write transaction commits returns what the transport answers
its emit, and leaves the store the transaction gives whatever that answer. -/
theorem put_of_commit {now : Time} {key : String} {buf : Bytes} {secret : Bool} {s : KV}
    {bobj : Bytes} {db' : Bucket} (hm : J.marshalObject ⟨now, secret, buf, [], !J.valid buf⟩ = .ok bobj)
    (htx : putObjectTx (parsePath key).1 (parsePath key).2 bobj "kv" s.db = .ok db') :
    (put J net now key buf "kv" secret [] s).1 = (match net.answer s.sent.length with
        | none => .ok ()
        | some t => .error (.error (.cluster t))) ∧
      (put J net now key buf "kv" secret [] s).2.db = db' := by
  obtain ⟨data, hd⟩ := marshalUpdate_ok J (inRange_of_marshalObject J hm) "put:key" key
  simp only [put, putObject_apply, hm, htx, List.headD_nil, if_true, emitEvent_apply, hd, emit_apply]
  constructor <;> trivial

/-- The bytes of a committed `Put` read back through `Get` on any state with the
store the transaction gives. -/
theorem get_of_commit {now : Time} {key : String} {buf : Bytes} {secret : Bool} {bobj : Bytes}
    {db db' : Bucket} (hm : J.marshalObject ⟨now, secret, buf, [], !J.valid buf⟩ = .ok bobj)
    (htx : putObjectTx (parsePath key).1 (parsePath key).2 bobj "kv" db = .ok db') {s : KV}
    (hs : s.db = db') : get J key "kv" s = (.ok buf, s) := by
  rw [get_apply, hs, readObject_putObjectTx J hm htx, if_pos rfl]
  rfl

/-- A committed `Put` reads back through `Get` as the bytes it wrote. -/
theorem get_after_put {now : Time} {key : String} {buf : Bytes} {secret : Bool} {s : KV}
    (h : (put J net now key buf "kv" secret [] s).1 = .ok ()) :
    get J key "kv" (put J net now key buf "kv" secret [] s).2 =
      (.ok buf, (put J net now key buf "kv" secret [] s).2) := by
  obtain ⟨bobj, db', hm, htx, hdb⟩ := put_ok_commits J net h
  exact get_of_commit J hm htx hdb

/-- A POST of a plain body that answers 200 has committed the put of the body's
envelope at its path. -/
theorem kvPutHandler_ok {now : Time} {r : Request} {s : KV} {buf : Bytes} (hb : r.body = .ok buf)
    (hsec : r.query "secret" = "")
    (hok : (kvPutHandler J net C now r s).1 = .ok ⟨200, .message "ok"⟩) :
    (put J net now (trimPath r.path kvPrefix) buf "kv" false [] s).1 = .ok () ∧
      (kvPutHandler J net C now r s).2 = (put J net now (trimPath r.path kvPrefix) buf "kv" false [] s).2 := by
  simp only [kvPutHandler, hb, hsec, ne_eq, not_true_eq_false, decide_False, if_false, bind_apply,
    capture_apply] at hok ⊢
  generalize put J net now (trimPath r.path kvPrefix) buf "kv" false [] s = R at hok ⊢
  rcases R with ⟨(_ | _) | _, s'⟩ <;> simp_all

/-- A POST of a plain body answered 200, then a GET of the same path: the GET
answers the body, or 404 when the body was empty. -/
theorem post_then_get {now now' : Time} {r g : Request} {s : KV} {buf : Bytes}
    (hr : r.method = "POST") (hb : r.body = .ok buf) (hsec : r.query "secret" = "")
    (hok : (kvHandler J net C now r s).1 = .ok ⟨200, .message "ok"⟩)
    (hg : g.method = "GET") (hpath : g.path = r.path) (htree : g.query "tree" = "")
    (hgs : g.query "secret" = "") :
    (kvHandler J net C now' g (kvHandler J net C now r s).2).1 =
      .ok (if buf = [] then ⟨404, .message ("Key " ++ trimPath r.path kvPrefix ++ " does not exist")⟩
        else ⟨200, .blob buf⟩) := by
  simp only [kvHandler, hr] at hok ⊢
  obtain ⟨hput, hs⟩ := kvPutHandler_ok J net C hb hsec hok
  obtain ⟨_, _, -, htx, -⟩ := put_ok_commits J net hput
  simp only [hg, kvGetHandler, hpath, htree, hs, not_hasSuffix_of_key (putObjectTx_bounds htx).2.1,
    ne_eq, not_true_eq_false, if_false, Bool.false_eq_true, bind_apply, capture_apply,
    get_after_put J net hput]
  by_cases he : buf = [] <;> simp [he, hgs]

theorem post_then_get_roundtrip :
    (kvHandler Codec.json ⟨fun _ => none⟩ Codec.box Time.zero
        ⟨"POST", "/api/v1/kv/a/x", fun _ => "", .ok [49]⟩ (newKV [])).1 = .ok ⟨200, .message "ok"⟩ ∧
      (kvHandler Codec.json ⟨fun _ => none⟩ Codec.box Time.zero ⟨"GET", "/api/v1/kv/a/x", fun _ => "", .ok []⟩
        (kvHandler Codec.json ⟨fun _ => none⟩ Codec.box Time.zero
          ⟨"POST", "/api/v1/kv/a/x", fun _ => "", .ok [49]⟩ (newKV [])).2).1 =
        .ok (if [49] = ([] : Bytes) then ⟨404, .message ("Key " ++ trimPath "/api/v1/kv/a/x" kvPrefix ++
          " does not exist")⟩ else ⟨200, .blob [49]⟩) :=
  ⟨by decide, post_then_get _ _ _ rfl rfl rfl (by decide) rfl rfl rfl rfl⟩

end Handlers

/-! ## Every request is answered -/

/-- From every state whose store satisfies `I`, the computation `x` returns a
value: it neither returns an error nor panics. -/
def Responds (I : Bucket → Prop) (x : Go α) : Prop :=
  ∀ s, I s.db → ∃ a, (x s).1 = .ok a

namespace Responds

variable {I : Bucket → Prop}

theorem pure (a : α) : Responds I (pure a : Go α) := fun _ _ => ⟨a, rfl⟩

theorem pure_bind {a : α} {f : α → Go β} (h : Responds I (f a)) : Responds I (Pure.pure a >>= f) := h

/-- `err := f()` of a call that keeps `I` and panics on no store `I` holds of,
then code that answers, whatever the call returned. -/
theorem capture_bind {x : Go α} {f : Except Error α → Go β} (hx : ∀ s, I s.db → NoPanic (x s).1)
    (hk : Keeps I x) (hf : ∀ a, Responds I (f a)) : Responds I (capture x >>= f) := by
  intro s hs
  have hI := hk s hs
  rw [bind_apply, capture_apply]
  rcases h : x s with ⟨(e | m) | a, s'⟩ <;> rw [h] at hI
  · exact hf _ s' hI
  · exact absurd (congrArg Prod.fst h) (hx s hs m)
  · exact hf _ s' hI

end Responds

section Router

variable (J : Json) (net : Cluster) (C : Crypto)

/-- `GetKeys` of a path that is empty or ends in `/` does not panic: its key
is empty, so it lists the bucket the walk reaches. -/
theorem getKeys_noPanic_of_slash {s : KV} (hkv : (s.db.bucket "kv").isSome) {path : String}
    (hp : (hasSuffix path "/" || path = "") = true) : NoPanic (getKeys path "kv" s).1 :=
  fun m h => ((getKeys_panics_iff s path hkv).2.mp ⟨m, h⟩).1 (by
    by_contra hk
    rw [not_hasSuffix_of_key hk] at hp
    cases hp)

theorem kvGetHandler_responds (r : Request) : Responds Tidy (kvGetHandler J C r) := by
  unfold kvGetHandler treeHandler
  dsimp only
  split
  · refine Responds.capture_bind (fun s hs m h => ?_) (Keeps.of_db fun _ => rfl) fun a => ?_
    · obtain ⟨b, -, hb⟩ := getTree_tidy hs
      rw [hb] at h
      cases h
    · cases a <;> exact Responds.pure _
  split
  · refine Responds.capture_bind (fun s hs => getKeys_noPanic_of_slash hs.kv ‹_›) (getKeys_keeps _ _)
      fun a => ?_
    rcases a with _ | k
    · exact Responds.pure _
    · dsimp only
      split_ifs <;> exact Responds.pure _
  · refine Responds.capture_bind (fun s hs => get_noPanic J hs.kv _) (get_keeps _ _) fun a => ?_
    rcases a with _ | b
    · exact Responds.pure _
    · dsimp only
      split_ifs
      · exact Responds.pure _
      · split <;> exact Responds.pure _
      · exact Responds.pure _

theorem kvPutHandler_responds (now : Time) (r : Request) : Responds Tidy (kvPutHandler J net C now r) := by
  unfold kvPutHandler
  split
  · exact Responds.pure _
  · dsimp only
    split
    · exact Responds.pure _
    · exact Responds.capture_bind (fun s hs => put_noPanic J net hs.kv _ _ _ _ _)
        (put_stable net (tidy_stable J) _ _ _ _ _ _) fun a => by cases a <;> exact Responds.pure _

/-- A DELETE answers: `DeleteBucket` keeps the `kv` bucket that `DeleteKey`
then walks from. -/
theorem kvDeleteHandler_responds (r : Request) : Responds Tidy (kvDeleteHandler J net r) := by
  have hkey := Responds.capture_bind (fun s hs => deleteKey_noPanic J net hs.kv _ [])
    (deleteKey_stable net (tidy_stable J) (trimPath r.path kvPrefix) "kv" [])
    (f := fun x => match x with
      | .error err => Pure.pure ⟨500, .message err.text⟩
      | .ok () => (Pure.pure ⟨200, .message "ok"⟩ : Go Response))
    fun a => by cases a <;> exact Responds.pure _
  unfold kvDeleteHandler
  dsimp only
  split
  · refine Responds.capture_bind (fun s hs => deleteBucket_noPanic J net hs.kv _ _)
      (deleteBucket_stable net (tidy_stable J) _ _ _) fun a => ?_
    rcases a with _ | _
    · dsimp only
      split_ifs <;> exact Responds.pure _
    · exact hkey
  · exact Responds.pure_bind hkey

/-- Every request to the KV router on a tidy store is answered. -/
theorem kvHandler_responds (now : Time) (r : Request) : Responds Tidy (kvHandler J net C now r) := by
  unfold kvHandler
  split
  · exact kvGetHandler_responds J C r
  · exact kvPutHandler_responds J net C now r
  · exact kvDeleteHandler_responds J net r
  · exact Responds.pure _

end Router

/-- On every state a node reaches from a fresh store, through any HTTP
requests, multi-query entries, locks, unlocks and applied updates, every
request to the KV router is answered: no handler panics. -/
theorem http_always_responds (J : Json) (net : Cluster) (C : Crypto) (ops : List Op) (now : Time)
    (r : Request) : ∃ resp, (kvHandler J net C now r (Op.run J net C (newKV []) ops)).1 = .ok resp :=
  kvHandler_responds J net C now r _ (tidy_run J net C ops)

end Cave
