import Cave.Proofs.Order

/-!
# What the read paths answer

`GetObject`, `GetKeys` and `GetTree` each walk from the root bucket down the
chain `parsePath` gives, without creating anything; `getBuckets` then hands
over what the walk reaches (`getBuckets_false_ok`) or returns an error for the
first missing bucket (`getBuckets_false_error`). Everything the read paths
answer follows from that walk and from the one step each takes after it.

* **`GetKeys`** opens the bucket the last segment names with `b.Bucket(k)` and
  takes its cursor without checking for nil. With the root present it panics
  exactly when the chain exists and a non-empty last segment names a value or
  nothing (`getKeys_panics_iff`); `getBuckets` checks every other segment.

* **Missing leaves.** `GetObject` decodes the bytes of a missing leaf, which are
  empty, and returns the decoder's error; both handlers classify an error of
  `Get` as a failure before they look at the length of the bytes, so neither
  reaches its not-found answer (`missing_key_read`).

* **Secret reads.** `kvGetHandler` answers the plaintext of a secret value
  that decrypts; `doGET` assigns the plaintext to the entry and then, last,
  the stored bytes (`doGET_of_get`).
-/

namespace Cave

open Go Bucket

section Walk

variable {db d : Bucket} {bs : List String} {root : String} {set : Bucket → Bucket} {f : Fault}

/-- Without `create`, `getBuckets` hands over what the walk from the root
reaches. -/
theorem getBuckets_false_ok (h : getBuckets db bs root false = .ok (d, set)) :
    db.walk (root :: bs) = some d := by
  obtain ⟨b, set', hb, hd, -⟩ := getBuckets_ok h
  simp [hb, descend_false_ok hd]

/-- Without `create`, `getBuckets` fails on a missing root with a panic and on
a missing bucket of the chain with an error. -/
theorem getBuckets_false_error (h : getBuckets db bs root false = .error f) :
    (db.bucket root = none ∧ f = nilBucket) ∨
      ((db.bucket root).isSome ∧ db.walk (root :: bs) = none ∧ ∃ e, f = .error e) := by
  rcases getBuckets_error h with h | ⟨b, hb, hd⟩
  · exact .inl h
  · obtain ⟨hw, he⟩ := descend_false_error hd
    exact .inr ⟨by simp [hb], by simp [hb, hw], he⟩

theorem getBuckets_false_of_walk (hw : db.walk (root :: bs) = some d) :
    ∃ set, getBuckets db bs root false = .ok (d, set) := by
  cases h : getBuckets db bs root false with
  | ok r =>
    have hr := getBuckets_false_ok h
    rw [hw, Option.some_inj] at hr
    exact ⟨r.2, by rw [hr]⟩
  | error f =>
    rcases getBuckets_false_error h with ⟨hb, -⟩ | ⟨-, hw', -⟩
    · simp [hb] at hw
    · rw [hw] at hw'; cases hw'

end Walk

/-! ## `GetKeys` -/

/-- The names `GetKeys` lists for a bucket: its keys in cursor order, each
nested bucket's followed by `/`. -/
def listing (b : Bucket) : List String :=
  b.map fun (ea, n) => ea ++ match n with
    | .bucket _ => "/"
    | .value _ => ""

section GetKeys

variable {db d : Bucket} {bs : List String} {root : String}

/-- Past the walk, `GetKeys` lists the bucket it reached or, for a non-empty
last segment, the bucket that segment names; a segment naming none leaves the
cursor's bucket nil. -/
theorem getKeysTx_of_walk (hw : db.walk (root :: bs) = some d) (k : String) :
    getKeysTx bs k root db =
      if k = "" then .ok (listing d) else match d.bucket k with
        | some c => .ok (listing c)
        | none => .error nilBucket := by
  obtain ⟨set, h⟩ := getBuckets_false_of_walk hw
  simp only [getKeysTx, h, bind, Except.bind]
  split
  · rfl
  · cases d.bucket k <;> rfl

/-- A chain that breaks below the root is an error of `getBuckets`, returned. -/
theorem getKeysTx_of_not_walk (hb : (db.bucket root).isSome) (hw : db.walk (root :: bs) = none)
    (k : String) : ∃ e, getKeysTx bs k root db = .error (.error e) := by
  cases h : getBuckets db bs root false with
  | ok r => rw [getBuckets_false_ok h] at hw; cases hw
  | error f =>
    rcases getBuckets_false_error h with ⟨hb', -⟩ | ⟨-, -, e, rfl⟩
    · simp [hb'] at hb
    · exact ⟨e, by simp [getKeysTx, h, bind, Except.bind]⟩

end GetKeys

/-- `GetKeys` checks each bucket of the chain but not the one a non-empty last
segment names. With the root present it panics exactly when the chain exists
and that segment names a value or nothing; otherwise it lists or returns an
error. It never changes the node. -/
theorem getKeys_panics_iff (s : KV) (key : String) (hkv : (s.db.bucket "kv").isSome) :
    (getKeys key "kv" s).2 = s ∧
    ((∃ t, (getKeys key "kv" s).1 = .error (.panic t)) ↔
      (parsePath key).2 ≠ "" ∧ ∃ d, s.db.walk ("kv" :: (parsePath key).1) = some d ∧
        d.bucket (parsePath key).2 = none) := by
  refine ⟨rfl, ?_⟩
  simp only [getKeys, view_apply]
  cases hw : s.db.walk ("kv" :: (parsePath key).1) with
  | none =>
    obtain ⟨e, he⟩ := getKeysTx_of_not_walk hkv hw (parsePath key).2
    simp [he]
  | some d =>
    rw [getKeysTx_of_walk hw]
    split
    · simp_all
    · split <;> simp_all [nilBucket]

/-- `GetKeys` of a path whose chain exists and whose non-empty last segment
names no bucket dereferences the nil bucket. -/
theorem getKeys_nil_bucket {s : KV} {key : String} {d : Bucket}
    (hw : s.db.walk ("kv" :: (parsePath key).1) = some d) (hk : (parsePath key).2 ≠ "")
    (hb : d.bucket (parsePath key).2 = none) : getKeys key "kv" s = (.error nilBucket, s) := by
  simp only [getKeys, view_apply, getKeysTx_of_walk hw, hk, hb, if_false]

/-- `GetKeys` of a path whose last segment names nothing, on a fresh store, and
names a value, once it is written: both dereference the nil bucket. -/
theorem getKeys_nil_bucket_panics :
    getKeys "x" "kv" (newKV []) = (.error nilBucket, newKV []) ∧
    (getKeys "x" "kv" (putObject Codec.json ⟨fun _ => none⟩ "x" .empty "kv" false [false]
      (newKV [])).2).1 = .error nilBucket :=
  ⟨@getKeys_nil_bucket (newKV []) "x" _ rfl (by decide) rfl,
    by rw [@getKeys_nil_bucket (putObject Codec.json ⟨fun _ => none⟩ "x" .empty "kv" false [false]
      (newKV [])).2 "x" _ rfl (by decide) rfl]⟩

/-! ## `Get` through the handlers -/

section Handlers

variable (J : Json) (C : Crypto)

/-- A path whose leaf is missing reads as a failed decoding: `kvGetHandler`
answers 500 with the decoder's message, and `doGET` reports that message as
the entry's error. Neither reaches its not-found answer. -/
theorem missing_key_read {s : KV} (hkv : (s.db.bucket "kv").isSome) {p : String}
    (hl : s.db.leaf? ("kv" :: (parsePath p).1) (parsePath p).2 = none) :
    (∀ r : Request, trimPath r.path kvPrefix = p → r.query "tree" = "" →
      hasSuffix p "/" = false → p ≠ "" →
        kvGetHandler J C r s = (.ok ⟨500, .message "unexpected end of JSON input"⟩, s)) ∧
    ∀ q : QueryObject, q.key = p →
      doGET J C q s = (.ok { q with error := "unexpected end of JSON input" }, s) := by
  have hg : get J p "kv" s = (.error (.error (.json "unexpected end of JSON input")), s) := by
    rw [get_apply, readObject_missing J hkv hl]; rfl
  refine ⟨fun r hr ht hs hp => ?_, fun q hq => ?_⟩
  · subst hr
    simp [kvGetHandler, ht, hs, hp, hg, Error.text]
  · subst hq
    simp [doGET, hg, Error.text]

/-- `doGET` of a key whose bytes are non-empty answers those bytes as the value,
secret or not: the plaintext is assigned and then overwritten. -/
theorem doGET_of_get {q : QueryObject} {s : KV} {b : Bytes} (hg : (get J q.key "kv" s).1 = .ok b)
    (hb : b ≠ []) : doGET J C q s = (.ok { q with value := goString b }, s) := by
  have hg' : get J q.key "kv" s = (.ok b, s) := by rw [← hg, get_apply]
  have hb' : ¬b.length = 0 := by simpa using hb
  simp only [doGET, bind_apply, capture_apply, hg', hb', if_false]
  obtain ⟨verb, key, value, secret, error⟩ := q
  cases secret <;> cases C.decryptJSON b <;> rfl

/-- `kvGetHandler` of a key whose bytes are non-empty, asked for the secret:
the plaintext when the bytes decrypt, and the bytes otherwise. -/
theorem kvGetHandler_secret {r : Request} (ht : r.query "tree" = "")
    (hs : hasSuffix (trimPath r.path kvPrefix) "/" = false) (hp : trimPath r.path kvPrefix ≠ "")
    (hsec : r.query "secret" ≠ "") {s : KV} {b : Bytes}
    (hg : (get J (trimPath r.path kvPrefix) "kv" s).1 = .ok b) (hb : b ≠ []) :
    kvGetHandler J C r s =
      (.ok ⟨200, .blob (match C.decryptJSON b with
        | .ok data => data
        | .error _ => b)⟩, s) := by
  have hg' : get J (trimPath r.path kvPrefix) "kv" s = (.ok b, s) := by rw [← hg, get_apply]
  have hb' : ¬b.length = 0 := by simpa using hb
  simp only [kvGetHandler, ht, hs, hp, hsec, hg', hb', ne_eq, not_true_eq_false, not_false_eq_true,
    if_false, if_true, Bool.false_or, decide_False, bind_apply, capture_apply, Bool.false_eq_true]
  cases C.decryptJSON b <;> rfl

end Handlers

/-- On a fresh store, a GET of a missing key over HTTP answers 500 with the
decoder's message, and a multi-query GET reports that message. -/
theorem missing_key_answers_500 :
    kvGetHandler Codec.json Codec.box ⟨"GET", "/api/v1/kv/x", fun _ => "", .ok []⟩ (newKV []) =
      (.ok ⟨500, .message "unexpected end of JSON input"⟩, newKV []) ∧
    doGET Codec.json Codec.box ⟨"GET", "x", "", false, ""⟩ (newKV []) =
      (.ok ⟨"GET", "x", "", false, "unexpected end of JSON input"⟩, newKV []) :=
  have h := missing_key_read Codec.json Codec.box (s := newKV []) rfl (p := "x") rfl
  ⟨h.1 _ rfl rfl rfl (by decide), h.2 _ rfl⟩

/-- A value posted as a secret and read back: over HTTP the plaintext, in a
multi-query GET the stored ciphertext. -/
theorem secret_read_paths_disagree :
    (kvGetHandler Codec.json Codec.box
        ⟨"GET", "/api/v1/kv/k", fun n => if n = "secret" then "1" else "", .ok []⟩
        (Op.run Codec.json ⟨fun _ => none⟩ Codec.box (newKV [])
          [.http Time.zero ⟨"POST", "/api/v1/kv/k", fun n => if n = "secret" then "1" else "",
            .ok [0x61]⟩])).1 = .ok ⟨200, .blob [0x61]⟩ ∧
    (doGET Codec.json Codec.box ⟨"GET", "k", "", true, ""⟩
        (Op.run Codec.json ⟨fun _ => none⟩ Codec.box (newKV [])
          [.http Time.zero ⟨"POST", "/api/v1/kv/k", fun n => if n = "secret" then "1" else "",
            .ok [0x61]⟩])).1 = .ok ⟨"GET", "k", goString [1, 0x61], true, ""⟩ ∧
    goString [1, 0x61] ≠ goString [0x61] := by
  have hg : (get Codec.json "k" "kv" (Op.run Codec.json ⟨fun _ => none⟩ Codec.box (newKV [])
      [.http Time.zero ⟨"POST", "/api/v1/kv/k", fun n => if n = "secret" then "1" else "",
        .ok [0x61]⟩])).1 = .ok [1, 0x61] := by decide
  exact ⟨congrArg Prod.fst (@kvGetHandler_secret Codec.json Codec.box
      ⟨"GET", "/api/v1/kv/k", fun n => if n = "secret" then "1" else "", .ok []⟩ rfl rfl (by decide)
      (by decide) _ _ hg (by decide)),
    congrArg Prod.fst (@doGET_of_get Codec.json Codec.box ⟨"GET", "k", "", true, ""⟩ _ _ hg (by decide)),
    by decide⟩

/-! ## The tree of maps -/

/-- The value reached in a tree of maps by following `ks`, each key looked up
in the map the one before it reached. -/
def Node.find : Node → List String → Option Node
  | n, [] => some n
  | n, k :: ks => (n.bucket?.bind fun m => Bucket.entry m k).bind (·.find ks)

theorem Node.find_append (n : Node) (qs rs : List String) :
    n.find (qs ++ rs) = (n.find qs).bind (·.find rs) := by
  induction qs generalizing n with
  | nil => rfl
  | cons q qs ih =>
    rw [List.cons_append, Node.find, Node.find, Option.bind_assoc]
    simp only [ih, Option.bind_assoc]

/-- A map reached in the tree is the bucket the walk reaches. -/
theorem Node.find_bucket (b : Bucket) (qs : List String) :
    ((Node.bucket b).find qs).bind Node.bucket? = b.walk qs := by
  induction qs generalizing b with
  | nil => rfl
  | cons q qs ih =>
    simp only [Node.find, Node.bucket?, Option.some_bind, walk_cons, Bucket.bucket,
      Option.bind_assoc]
    cases b.entry q with
    | none => rfl
    | some n =>
      cases n with
      | bucket c => exact ih c
      | value v => cases qs <;> rfl

/-- A value reached in the tree is the leaf the path reaches. -/
theorem Node.find_leaf (b : Bucket) (qs : List String) (k : String) :
    ((Node.bucket b).find (qs ++ [k])).bind Node.value? = (b.walk qs).bind (·.get k) := by
  have h : ∀ n : Node, n.find [k] = n.bucket?.bind fun m => Bucket.entry m k := fun n => by
    simp [Node.find]
  rw [Node.find_append, ← Node.find_bucket b qs]
  simp only [h, Option.bind_assoc, Bucket.get]

theorem setKey_of_fresh {m : List (String × Node)} {k : String} (v : Node)
    (h : ∀ x ∈ m, x.1 ≠ k) : setKey m k v = m ++ [(k, v)] := by
  induction m with
  | nil => rfl
  | cons x m ih =>
    simp only [setKey, h x (List.mem_cons_self _ _), if_false, List.cons_append,
      ih fun y hy => h y (List.mem_cons_of_mem _ hy)]

mutual

/-- On a sorted tree `enumerateBucket` rebuilds every bucket as it is: the keys
of a bucket are distinct, so each assignment to the map adds a new key. -/
theorem Node.enumerate_eq : ∀ {n : Node}, n.Sorted → n.enumerate = n
  | .value _, _ => rfl
  | .bucket es, h => by
    rw [Node.enumerate, enumerateBucket_eq (Node.sorted_bucket.mp h) fun _ hx => by cases hx]
    rfl

theorem enumerateBucket_eq : ∀ {es : Bucket} {tree : List (String × Node)}, Sorted es →
    (∀ x ∈ tree, ∀ e ∈ es, keyLt x.1.data e.1.data) → enumerateBucket es tree = tree ++ es
  | [], _, _, _ => by rw [enumerateBucket, List.append_nil]
  | (k, n) :: es, tree, h, ht => by
    rw [sorted_cons] at h
    have hfresh : ∀ x ∈ tree, x.1 ≠ k := fun x hx e =>
      ne_of_keyLt (ht x hx _ (List.mem_cons_self _ _)) (congrArg String.data e)
    have ht' : ∀ x ∈ tree ++ [(k, n)], ∀ e ∈ es, keyLt x.1.data e.1.data := fun x hx e he => by
      rcases List.mem_append.mp hx with hx | hx
      · exact ht x hx e (List.mem_cons_of_mem _ he)
      · rw [List.mem_singleton.mp hx]; exact h.1 e he
    rw [enumerateBucket, Node.enumerate_eq h.2.1, setKey_of_fresh n hfresh,
      enumerateBucket_eq h.2.2 ht', List.append_assoc, List.singleton_append]

end

section Reachable

variable {J : Json} {db : Bucket}

/-- With the root bucket present, `GetObject` succeeds exactly on a leaf that
decodes. -/
theorem readObject_eq_ok {root key : String} {b : Bucket} (hb : db.bucket root = some b)
    {e : KVObject} : readObject J db key root = .ok e ↔
      ∃ raw, db.leaf? (root :: (parsePath key).1) (parsePath key).2 = some raw ∧
        J.unmarshalObject raw = .ok e := by
  rw [readObject_of_bucket J (by simp [hb])]
  cases db.leaf? (root :: (parsePath key).1) (parsePath key).2 with
  | none => simp [J.unmarshalObject_nil, Except.mapError]
  | some raw => cases h : J.unmarshalObject raw <;> simp [h, Except.mapError]

/-- `GetTree` of a tidy store: the bucket `kv` itself. -/
theorem getTree_tidy {s : KV} (hs : Tidy s.db) :
    ∃ b, s.db.bucket "kv" = some b ∧ (getTree "kv" s).1 = .ok b := by
  obtain ⟨b, hb⟩ := Option.isSome_iff_exists.mp hs.kv
  obtain ⟨set, hg⟩ := getBuckets_false_of_walk (show s.db.walk ("kv" :: []) = some b by
    simp [hb])
  refine ⟨b, hb, ?_⟩
  simp only [getTree, view_apply, getTreeTx, show parsePath "" = ([], "") from rfl, ne_eq,
    not_true_eq_false, if_false, hg, bind, Except.bind, pure, Except.pure]
  rw [enumerateBucket_eq (hs.sorted.bucket hb) fun _ hx => absurd hx (List.not_mem_nil _)]
  rfl

end Reachable

/-- On every reachable store the three read views agree. `GetTree` returns a
map of maps; `GetObject` reads an envelope at a path exactly when that map
holds, at the end of the path's segments, raw bytes that decode to it; and
`GetKeys` lists for the root and for every bucket path the keys of the map
there, in byte order, with `/` after each nested map. -/
theorem read_views_agree (J : Json) (net : Cluster) (C : Crypto) (ops : List Op) :
    ∃ m, (getTree "kv" (Op.run J net C (newKV []) ops)).1 = .ok m ∧
      (∀ p e, (getObject J p "kv" (Op.run J net C (newKV []) ops)).1 = .ok e ↔
        ∃ raw, (Node.bucket m).find (split p) = some (.value raw) ∧
          J.unmarshalObject raw = .ok e) ∧
      ((getKeys "" "kv" (Op.run J net C (newKV []) ops)).1 = .ok (listing m) ∧ Ordered m) ∧
      ∀ q m', (Node.bucket m).find (split q) = some (.bucket m') →
        (getKeys (q ++ "/") "kv" (Op.run J net C (newKV []) ops)).1 = .ok (listing m') ∧
          Ordered m' := by
  have hs := tidy_run J net C ops
  obtain ⟨b, hb, ht⟩ := getTree_tidy hs
  have hw : ∀ qs, (Op.run J net C (newKV []) ops).db.walk ("kv" :: qs) = b.walk qs := fun qs => by
    simp [hb]
  refine ⟨b, ht, fun p e => ?_, ?_, fun q m' hq => ?_⟩
  · have hl : (Op.run J net C (newKV []) ops).db.leaf? ("kv" :: (parsePath p).1) (parsePath p).2 =
        ((Node.bucket b).find (split p)).bind Node.value? := by
      rw [split_eq_parsePath, Node.find_leaf, Bucket.leaf?, hw]
    rw [getObject_apply, readObject_eq_ok hb, hl]
    simp only [Option.bind_eq_some]
    constructor
    · rintro ⟨raw, ⟨n, hn, hv⟩, he⟩
      cases n with
      | value v => cases hv; exact ⟨raw, hn, he⟩
      | bucket _ => cases hv
    · rintro ⟨raw, hn, he⟩
      exact ⟨raw, ⟨_, hn, rfl⟩, he⟩
  · have hr : (Op.run J net C (newKV []) ops).db.walk ("kv" :: []) = some b := by rw [hw]; rfl
    exact ⟨by simp [getKeys, show parsePath "" = ([], "") from rfl, getKeysTx_of_walk hr],
      (hs.sorted.bucket hb).ordered⟩
  · have hm : b.walk (split q) = some m' := by rw [← Node.find_bucket, hq]; rfl
    have hr := (hw (split q)).trans hm
    exact ⟨by simp [getKeys, parsePath_slash, getKeysTx_of_walk hr],
      ((hs.sorted.bucket hb).walk hm).ordered⟩

end Cave
