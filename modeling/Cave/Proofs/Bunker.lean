import Cave.Proofs.Http
import Cave.Model.Bunker

/-!
# The front end browses the store

`ui/bunker.js` lists a directory, and a click on a listed key either lists the
directory below or fetches the value. The controller keeps no model of the
store: what it shows is what the router last listed, and where it is, its url,
is set from the path it asked for, before the answer comes. The two agree as
long as every listing it asks for succeeds.

* Names are plain. The write paths name an entry with a piece of a path cut at
  `/`, and `bbolt` refuses an empty key or bucket name, so no name under any
  root is empty or holds `/` (`named_stable`, `named_run`). So `GetTree("")`,
  whose comment promises the whole tree, finds no root and panics
  (`getTree_empty_root_panics`). On such a store a listed name ends in `/`
  exactly when it is a bucket's (`listed_listing`), and the path `clickKey`
  builds, the directory's pieces joined by `/` and then the key, cuts back into
  the directory's chain and the key (`parsePath_value`, `click_dir_path`).
* The browser keeps the path. A name with `?`, `#`, `%`, `\`, a space or a
  control character, or a dot segment, may reach the router as another path;
  when every name under `kv` is free of them (`urlNamed`), the router receives
  the path the controller built (`Bunker.Shows.request_kept`).
* The controller stays on a directory. `Bunker.Shows` says the url names a
  directory of the store and the keys are its entries; the first listing
  establishes it and, when no bucket under `kv` is empty, every click keeps it
  (`bunker_stays_on_directory`), and a click on a shown key requests that very
  entry (`Bunker.Shows.request`): a directory is listed, and a value shows what
  the browser makes of the data its envelope holds, for a secret its ciphertext
  since the controller never asks for `?secret` (`Bunker.Shows.click_value`).
* An empty directory breaks it. `GetKeys` of an empty bucket answers 404, the
  error callback only logs, and the url has already moved: the scope then names
  one directory and shows another's keys (`bunker_empty_dir_desyncs`).
-/

namespace Cave

open Go Bucket

/-! ## Plain names -/

/-- A name the write paths give an entry: not empty, and without `/`. -/
def PlainName (k : String) : Prop := k ≠ "" ∧ '/' ∉ k.data

mutual

/-- Every entry of the tree under a node has a plain name. -/
def Node.Named : Node → Prop
  | .value _ => True
  | .bucket es => Cave.Named es

/-- Every entry of the bucket, at every depth, has a plain name. -/
def Named : Bucket → Prop
  | [] => True
  | (k, n) :: es => PlainName k ∧ n.Named ∧ Named es

end

@[simp] theorem named_nil : Named [] := by rw [Named]; trivial

@[simp] theorem named_cons {k : String} {n : Node} {es : Bucket} :
    Named ((k, n) :: es) ↔ PlainName k ∧ n.Named ∧ Named es := by
  rw [Named]

@[simp] theorem Node.named_bucket {es : Bucket} : (Node.bucket es).Named ↔ Cave.Named es := by
  rw [Node.Named]

@[simp] theorem Node.named_value {v : Bytes} : (Node.value v).Named := by
  rw [Node.Named]; trivial

theorem Named.mem : ∀ {b : Bucket}, Named b → ∀ {e}, e ∈ b → PlainName e.1 ∧ e.2.Named
  | _ :: _, hb, e, he => by
    rw [named_cons] at hb
    rcases List.mem_cons.mp he with rfl | he
    · exact ⟨hb.1, hb.2.1⟩
    · exact hb.2.2.mem he

theorem named_of : ∀ {b : Bucket}, (∀ e ∈ b, PlainName e.1 ∧ e.2.Named) → Named b
  | [], _ => named_nil
  | _ :: _, h => named_cons.mpr ⟨(h _ (List.mem_cons_self _ _)).1,
      (h _ (List.mem_cons_self _ _)).2, named_of fun e he => h e (List.mem_cons_of_mem _ he)⟩

theorem Named.insert {b : Bucket} (hb : Named b) {k : String} (hk : PlainName k) {n : Node}
    (hn : n.Named) : Named (b.insert k n) :=
  named_of fun _ he => (mem_insert he).elim (fun h => h ▸ ⟨hk, hn⟩) hb.mem

theorem Named.erase {b : Bucket} (hb : Named b) (k : String) : Named (b.erase k) :=
  named_of fun _ he => hb.mem ((erase_sublist b k).subset he)

theorem entry_mem : ∀ {b : Bucket} {k : String} {n : Node}, b.entry k = some n → (k, n) ∈ b
  | (k', n') :: es, k, n, h => by
    simp only [Bucket.entry] at h
    split at h
    · next hk => cases h; subst hk; exact List.mem_cons_self _ _
    · exact List.mem_cons_of_mem _ (entry_mem h)

theorem Named.bucket {b c : Bucket} (hb : Named b) {k : String} (h : b.bucket k = some c) :
    PlainName k ∧ Named c := by
  simp only [Bucket.bucket, Option.bind_eq_some] at h
  obtain ⟨n, hn, hc⟩ := h
  cases n with
  | value => cases hc
  | bucket es => cases hc; exact hb.mem (entry_mem hn)

theorem Named.walk {b : Bucket} (hb : Named b) :
    ∀ {path : List String} {d : Bucket}, b.walk path = some d → Named d
  | [], _, h => by cases h; exact hb
  | q :: path, d, h => by
    simp only [walk_cons, Option.bind_eq_some] at h
    obtain ⟨c, hc, hw⟩ := h
    exact (hb.bucket hc).2.walk hw

/-- Every bucket a walk passes through names it plainly. -/
theorem Named.walk_plain {b : Bucket} (hb : Named b) :
    ∀ {path : List String} {d : Bucket}, b.walk path = some d → ∀ q ∈ path, PlainName q
  | [], _, _ => fun _ hq => by cases hq
  | q :: path, d, h => by
    simp only [walk_cons, Option.bind_eq_some] at h
    obtain ⟨c, hc, hw⟩ := h
    intro q' hq'
    rcases List.mem_cons.mp hq' with rfl | hq'
    · exact (hb.bucket hc).1
    · exact (hb.bucket hc).2.walk_plain hw q' hq'

/-- A piece of a path cut at `/` holds no `/`. -/
theorem slash_not_mem_of_splitOn (c : Char) :
    ∀ {xs l : List Char}, l ∈ xs.splitOn c → c ∉ l
  | [], l, h => by
    rw [List.splitOn_nil, List.mem_singleton] at h
    subst h
    exact List.not_mem_nil c
  | x :: xs, l, h => by
    rw [List.splitOn, List.splitOnP_cons] at h
    split_ifs at h with hx
    · rcases List.mem_cons.mp h with rfl | h
      · exact List.not_mem_nil c
      · exact slash_not_mem_of_splitOn c h
    · obtain ⟨hd, tl, heq⟩ := List.exists_cons_of_ne_nil (List.splitOnP_ne_nil _ xs)
      rw [heq] at h
      have hd' := slash_not_mem_of_splitOn c (l := hd) (by rw [List.splitOn, heq]; exact List.mem_cons_self _ _)
      rcases List.mem_cons.mp h with rfl | h
      · exact List.not_mem_cons_of_ne_of_not_mem (fun e => hx (by simp [e])) hd'
      · exact slash_not_mem_of_splitOn c (by rw [List.splitOn, heq]; exact List.mem_cons_of_mem _ h)

theorem slash_not_mem_of_split {p x : String} (h : x ∈ split p) : '/' ∉ x.data := by
  obtain ⟨l, hl, rfl⟩ := List.mem_map.mp h
  exact slash_not_mem_of_splitOn '/' hl

theorem slash_not_mem_of_chain {p x : String} (h : x ∈ (parsePath p).1) : '/' ∉ x.data :=
  slash_not_mem_of_split (by rw [split_eq_parsePath]; exact List.mem_append_left _ h)

/-! ## Names the browser keeps -/

mutual

/-- Whether every name in the tree under the node satisfies `ok`. -/
def Node.allNames (ok : String → Bool) : Node → Bool
  | .value _ => true
  | .bucket es => Cave.allNames ok es

/-- Whether every name in the bucket, at every depth, satisfies `ok`. -/
def allNames (ok : String → Bool) : Bucket → Bool
  | [] => true
  | (k, n) :: es => ok k && n.allNames ok && allNames ok es

end

/-- Whether every name under `kv` reaches the router as it is when it stands
as a segment of a request's path. -/
def urlNamed (db : Bucket) : Bool := (db.bucket "kv").all (allNames urlPlain)

section AllNames

variable {ok : String → Bool}

theorem allNames_of_mem : ∀ {b : Bucket}, allNames ok b = true → ∀ {e : String × Node}, e ∈ b →
    ok e.1 = true ∧ e.2.allNames ok = true
  | _ :: _, h, _, he => by
    simp only [allNames, Bool.and_eq_true] at h
    rcases List.mem_cons.mp he with rfl | he
    · exact ⟨h.1.1, h.1.2⟩
    · exact allNames_of_mem h.2 he

theorem allNames_bucket {b c : Bucket} (h : allNames ok b = true) {q : String}
    (hc : b.bucket q = some c) : ok q = true ∧ allNames ok c = true := by
  simp only [Bucket.bucket, Option.bind_eq_some] at hc
  obtain ⟨n, hn, hb⟩ := hc
  cases n with
  | value => cases hb
  | bucket es =>
    cases hb
    simpa [Node.allNames] using allNames_of_mem h (entry_mem hn)

/-- A walk down from a bucket whose names satisfy `ok` passes only such names,
and ends at such a bucket. -/
theorem allNames_walk : ∀ {path : List String} {b d : Bucket}, allNames ok b = true →
    b.walk path = some d → (∀ q ∈ path, ok q = true) ∧ allNames ok d = true
  | [], _, _, h, hw => by cases hw; exact ⟨fun _ hq => (by cases hq), h⟩
  | q :: path, b, d, h, hw => by
    simp only [walk_cons, Option.bind_eq_some] at hw
    obtain ⟨c, hc, hw⟩ := hw
    obtain ⟨hq, hcn⟩ := allNames_bucket h hc
    obtain ⟨hp, hd⟩ := allNames_walk hcn hw
    exact ⟨fun q' hq' => (List.mem_cons.mp hq').elim (· ▸ hq) (hp q'), hd⟩

end AllNames

theorem urlNamed_walk {db : Bucket} (hu : urlNamed db = true) {cs : List String} {d : Bucket}
    (hw : db.walk ("kv" :: cs) = some d) :
    (∀ c ∈ cs, urlPlain c = true) ∧ allNames urlPlain d = true := by
  simp only [walk_cons, Option.bind_eq_some] at hw
  obtain ⟨kv, hkv, hw⟩ := hw
  rw [urlNamed, hkv, Option.all_some] at hu
  exact allNames_walk hu hw

/-! ## Writes keep the names plain -/

/-- The bucket `child` hands over is named: one that was there already, or a
new one under `p`, which `CreateBucketIfNotExists` refuses when `p` is empty. -/
theorem child_named {b c : Bucket} {p : String} {create : Bool} (h : b.child p create = .ok c)
    (hb : Named b) (hp : '/' ∉ p.data) : PlainName p ∧ Named c := by
  cases create with
  | false =>
    rw [child_false] at h
    split at h
    · next hc => cases h; exact hb.bucket hc
    · cases h
  | true =>
    simp only [Bucket.child, if_true, createBucketIfNotExists] at h
    split at h
    · cases h
    · next hne =>
      split at h
      · next c' he => cases h; exact hb.bucket (by simp [Bucket.bucket, he, Node.bucket?])
      · cases h
      · cases h; exact ⟨⟨hne, hp⟩, named_nil⟩

theorem descend_named {create : Bool} :
    ∀ {ps : List String} {b d : Bucket} {set : Bucket → Bucket},
    descend create ps b = .ok (d, set) → (∀ p ∈ ps, '/' ∉ p.data) → Named b →
      Named d ∧ ∀ d', Named d' → Named (set d')
  | [], b, d, set, h, _, hb => by
    simp only [descend, Except.ok.injEq, Prod.mk.injEq] at h
    obtain ⟨rfl, rfl⟩ := h
    exact ⟨hb, fun _ h => h⟩
  | p :: ps, b, d, set, h, hps, hb => by
    obtain ⟨c, set', hc, hd, rfl⟩ := descend_cons_ok h
    obtain ⟨hp, hcn⟩ := child_named hc hb (hps p (List.mem_cons_self _ _))
    obtain ⟨hdn, hset⟩ := descend_named hd (fun q hq => hps q (List.mem_cons_of_mem _ hq)) hcn
    exact ⟨hdn, fun d' hd' => hb.insert hp (Node.named_bucket.mpr (hset d' hd'))⟩

/-- A write transaction down a chain of plain pieces, whose one change to the
bucket it reaches keeps that bucket named, keeps the database named. -/
theorem writeTx_named {db db' : Bucket} {bs : List String} {root : String} {c : Bool}
    {f : Bucket → Except Error Bucket} (hf : ∀ d d', f d = .ok d' → Named d → Named d')
    (hbs : ∀ p ∈ bs, '/' ∉ p.data) (h : writeTx bs root c f db = .ok db') (hdb : Named db) :
    Named db' := by
  obtain ⟨d, set, d', hg, hd, rfl⟩ := writeTx_ok h
  obtain ⟨b, set', hb, hdsc, rfl⟩ := getBuckets_ok hg
  obtain ⟨hr, hbn⟩ := hdb.bucket hb
  obtain ⟨hdn, hset⟩ := descend_named hdsc hbs hbn
  exact hdb.insert hr (Node.named_bucket.mpr (hset d' (hf d d' hd hdn)))

theorem named_commit {db : Bucket} {key root : String} {c : Bool}
    {f : String → Bucket → Except Error Bucket}
    (hf : ∀ d d', f (parsePath key).2 d = .ok d' → Named d → Named d') (hdb : Named db) :
    Named (commit (writeTx (parsePath key).1 root c (f (parsePath key).2) db) db) := by
  cases h : writeTx (parsePath key).1 root c (f (parsePath key).2) db with
  | error _ => exact hdb
  | ok db' => exact writeTx_named hf (fun _ => slash_not_mem_of_chain) h hdb

/-- Every write keeps the names under every root plain: a value's key is the
last piece of its path, which `Put` refuses when empty. -/
theorem named_stable (J : Json) : UpdateStable J Named := by
  intro root u db hdb
  unfold applyUpdate
  split
  · split
    · exact named_commit (f := fun k b => b.put k _) (fun d d' h hd => by
        obtain ⟨-, rfl⟩ := put_ok h
        exact hd.insert ⟨(put_ok_bounds h).1, slash_not_mem_key _⟩ Node.named_value) hdb
    · exact hdb
  · exact named_commit (f := fun k b => b.delete k) (fun d d' h hd => by
      obtain ⟨-, rfl⟩ := delete_ok h; exact hd.erase _) hdb
  · exact named_commit (f := fun k b => b.deleteBucket k) (fun d d' h hd => by
      obtain ⟨-, rfl⟩ := deleteBucket_ok h; exact hd.erase _) hdb
  · exact hdb

theorem named_newKV : Named (newKV []).db :=
  show Named [("_system", .bucket []), ("kv", .bucket [])] by simp [PlainName]

/-- Every reachable store names its entries plainly. -/
theorem named_run (J : Json) (net : Cluster) (C : Crypto) (ops : List Op) :
    Named (Op.run J net C (newKV []) ops).db :=
  Op.run_stable net (named_stable J) C named_newKV ops

/-- `GetTree("")`, which the comment on `GetTree` says returns the whole tree,
asks the transaction for the root bucket with the empty name. No reachable store
has one, so the enumeration dereferences a nil bucket. -/
theorem getTree_empty_root_panics (J : Json) (net : Cluster) (C : Crypto) (ops : List Op) :
    getTree "" (Op.run J net C (newKV []) ops) = (.error nilBucket, Op.run J net C (newKV []) ops) := by
  have hb : (Op.run J net C (newKV []) ops).db.bucket "" = none := by
    cases h : (Op.run J net C (newKV []) ops).db.bucket "" with
    | none => rfl
    | some c => exact absurd rfl ((named_run J net C ops).bucket h).1.1
  simp only [getTree, view_apply, getTreeTx, getBuckets, hb, show parsePath "" = ([], "") from rfl]
  rfl

/-! ## The paths the controller requests -/

/-- The url the controller holds while it shows the directory with bucket chain
`cs`: `split` of a path ending in `/`, so the pieces and an empty last one, and
nothing at the root. -/
def dirUrl (cs : List String) : List String := if cs = [] then [] else cs ++ [""]

@[simp] theorem split_empty : split "" = [""] := rfl

theorem split_join {cs : List String} (hcs : ∀ c ∈ cs, '/' ∉ c.data) (hne : cs ≠ []) :
    split (join cs "/") = cs := by
  simp only [split, join]
  rw [List.splitOn_intercalate _ '/' (by simpa using hcs) (by simpa using hne)]
  simp [Function.comp_def]

theorem split_of_plain {k : String} (hk : '/' ∉ k.data) : split k = [k] := by
  simp [split, splitOn_of_not_mem hk]

/-- The path `clickKey` builds for `k` in the directory `cs` cuts into the
directory's chain and the pieces of `k`. -/
theorem split_dirUrl {cs : List String} (hcs : ∀ c ∈ cs, '/' ∉ c.data) (k : String) :
    split (join (dirUrl cs) "/" ++ k) = cs ++ split k := by
  unfold dirUrl
  split_ifs with hne
  · subst hne; rfl
  · have hj : join (cs ++ [""]) "/" = join cs "/" ++ "/" := String.ext (by
      simp only [join, String.data_append, List.map_append]
      rw [intercalate_append _ _ _ (by simpa using hne) (by simp)]
      exact List.append_nil _)
    rw [hj, split_slash, split_join hcs hne]

/-- A click on a value `k` of the directory `cs` reads `k` in `cs`. -/
theorem parsePath_value {cs : List String} (hcs : ∀ c ∈ cs, '/' ∉ c.data) {k : String}
    (hk : '/' ∉ k.data) : parsePath (join (dirUrl cs) "/" ++ k) = (cs, k) := by
  have h := split_eq_parsePath (join (dirUrl cs) "/" ++ k)
  rw [split_dirUrl hcs, split_of_plain hk] at h
  obtain ⟨h₁, h₂⟩ := List.append_inj' h rfl
  exact Prod.ext h₁.symm (List.singleton_inj.mp h₂).symm

/-- A click on the directory `k` of the directory `cs` lists `cs ++ [k]`, and
leaves the url on that directory. -/
theorem click_dir_path {cs : List String} (hcs : ∀ c ∈ cs, '/' ∉ c.data) {k : String}
    (hk : '/' ∉ k.data) :
    parsePath (join (dirUrl cs) "/" ++ (k ++ "/")) = (cs ++ [k], "") ∧
      split (join (dirUrl cs) "/" ++ (k ++ "/")) = dirUrl (cs ++ [k]) := by
  rw [← String.append_assoc, parsePath_slash, ← String.append_empty (_ ++ "/"), split_slash,
    split_dirUrl hcs, split_of_plain hk]
  simp [dirUrl]

theorem trimPath_kvPrefix (p : String) : trimPath (kvPrefix ++ p) kvPrefix = p :=
  String.ext (List.drop_left _ _)

/-- What the router answers the controller for a path that reaches it as it is
and ends in `/`, or is empty, and whose chain reaches `d`: the listing of `d`,
or 404 when it is empty. -/
theorem bunkerServe_listing (J : Json) (net : Cluster) (C : Crypto) (B : Browser) (now : Time)
    {s : KV} {p : String} (hr : B.request p = p) (hp : (hasSuffix p "/" || p = "") = true)
    {d : Bucket} (hw : s.db.walk ("kv" :: (parsePath p).1) = some d) (hk : (parsePath p).2 = "") :
    bunkerServe J net C B now s p =
      .ok (if (listing d).length = 0 then ⟨404, .message ("Key " ++ p ++ " does not exist")⟩
        else ⟨200, .keys (listing d)⟩) := by
  simp only [bunkerServe, hr, kvHandler, kvGetHandler, trimPath_kvPrefix, hp, getKeys, view_apply,
    hk, getKeysTx_of_walk hw, bind_apply, capture_apply, ne_eq, not_true_eq_false, if_false,
    if_true]
  split_ifs <;> rfl

/-! ## What the controller shows -/

/-- In a bucket with its keys in order, an entry is the one its key finds. -/
theorem entry_of_mem : ∀ {b : Bucket}, Ordered b → ∀ {k : String} {n : Node}, (k, n) ∈ b →
    b.entry k = some n
  | (k', n') :: es, hb, k, n, h => by
    rw [Ordered, List.pairwise_cons] at hb
    simp only [Bucket.entry]
    rcases List.mem_cons.mp h with he | he
    · cases he; simp
    · rw [if_neg fun hk => ne_of_keyLt (hb.1 _ he) (by rw [hk])]
      exact entry_of_mem hb.2 he

theorem walk_concat {k : String} {c : Bucket} :
    ∀ {b d : Bucket} {path : List String}, b.walk path = some d → d.bucket k = some c →
      b.walk (path ++ [k]) = some c
  | _, _, [], h, hc => by cases h; simpa using hc
  | b, d, q :: path, h, hc => by
    simp only [List.cons_append, walk_cons, Option.bind_eq_some] at h ⊢
    obtain ⟨b', hb', hw⟩ := h
    exact ⟨b', hb', walk_concat hw hc⟩

theorem hasSuffix_slash (x : String) : hasSuffix (x ++ "/") "/" = true := by
  simp [hasSuffix, List.isSuffixOf_iff_suffix, String.data_append]

theorem append_slash_ne_empty (x : String) : x ++ "/" ≠ "" := fun h => by
  have h' : x.data ++ ['/'] = [] := congrArg String.data h
  simp at h'

theorem isDir_slash (x : String) : Bunker.isDir (x ++ "/") = true := hasSuffix_slash x

theorem isDir_of_plain {k : String} (hk : '/' ∉ k.data) : Bunker.isDir k = false := by
  rw [Bunker.isDir, hasSuffix, Bool.eq_false_iff]
  exact fun h => hk ((List.isSuffixOf_iff_suffix.mp h).subset (List.mem_singleton_self _))

namespace Bunker

/-- What the controller should show for an entry: its name, with `/` and
flagged as a directory when it is a bucket. -/
def shown : String × Node → BunkerKey
  | (k, .bucket _) => ⟨k ++ "/", true⟩
  | (k, .value _) => ⟨k, false⟩

/-- The bucket chain and key that a request for the entry `e` of the directory
`cs` should name: a bucket's own chain and the empty key, or a value's key in
`cs`. -/
def entryPath (cs : List String) : String × Node → List String × String
  | (k, .bucket _) => (cs ++ [k], "")
  | (k, .value _) => (cs, k)

/-- On a named bucket the keys the controller builds from a listing are the
entries, exactly the buckets flagged as directories. -/
theorem listed_listing {d : Bucket} (hd : Named d) :
    (listing d).map (fun k => (⟨k, isDir k⟩ : BunkerKey)) = d.map shown := by
  rw [listing, List.map_map]
  refine List.map_congr_left fun ⟨k, n⟩ he => ?_
  have hk := (hd.mem he).1.2
  cases n <;> simp [shown, isDir_slash, isDir_of_plain hk]

/-- The controller shows the directory `cs` of the store `db`: the chain
reaches `d`, the url names it, and the keys are its entries. -/
structure Shows (db : Bucket) (b : Bunker) (cs : List String) (d : Bucket) : Prop where
  walk : db.walk ("kv" :: cs) = some d
  url : b.url = dirUrl cs
  keys : b.keys = d.map shown

theorem Shows.chain_plain {db : Bucket} (hn : Named db) {b : Bunker} {cs : List String}
    {d : Bucket} (h : Shows db b cs d) : ∀ c ∈ cs, '/' ∉ c.data :=
  fun c hc => (hn.walk_plain h.walk c (List.mem_cons_of_mem _ hc)).2

/-- The path of a click on the key shown for an entry reaches the router as it
is, when every name under `kv` is one the browser keeps. -/
theorem Shows.request_kept {db : Bucket} (hn : Named db) (hu : urlNamed db = true) {b : Bunker}
    {cs : List String} {d : Bucket} (h : Shows db b cs d) {e : String × Node} (he : e ∈ d)
    (B : Browser) :
    B.request (join b.url "/" ++ (shown e).key) = join b.url "/" ++ (shown e).key := by
  obtain ⟨hcs, hd⟩ := urlNamed_walk hu h.walk
  have hk := (allNames_of_mem hd he).1
  have hk' := ((hn.walk h.walk).mem he).1.2
  refine B.request_plain _ fun x hx => ?_
  rw [h.url] at hx
  obtain ⟨k, n⟩ := e
  cases n with
  | value =>
    rw [shown, split_dirUrl (h.chain_plain hn), split_of_plain hk', List.mem_append,
      List.mem_singleton] at hx
    exact .inr (hx.elim (hcs x) (· ▸ hk))
  | bucket =>
    rw [shown, (click_dir_path (h.chain_plain hn) hk').2] at hx
    simp only [dirUrl, List.append_eq_nil, List.cons_ne_nil, and_false, if_false,
      List.mem_append, List.mem_singleton] at hx
    rcases hx with (hx | rfl) | rfl
    exacts [.inr (hcs x hx), .inr hk, .inl rfl]

/-- Clicking the key shown for an entry requests that entry. -/
theorem Shows.request {db : Bucket} (hn : Named db) {b : Bunker} {cs : List String} {d : Bucket}
    (h : Shows db b cs d) {e : String × Node} (he : e ∈ d) :
    parsePath (join b.url "/" ++ (shown e).key) = entryPath cs e := by
  have hk := ((hn.walk h.walk).mem he).1.2
  obtain ⟨k, n⟩ := e
  rw [h.url]
  cases n with
  | value => exact parsePath_value (h.chain_plain hn) hk
  | bucket => exact (click_dir_path (h.chain_plain hn) hk).1

/-- The chain to a bucket the controller shows reaches that bucket. -/
theorem Shows.walk_child {db : Bucket} (hs : Sorted db) {b : Bunker} {cs : List String}
    {d : Bucket} (h : Shows db b cs d) {k : String} {c : Bucket} (he : (k, Node.bucket c) ∈ d) :
    db.walk ("kv" :: (cs ++ [k])) = some c :=
  walk_concat h.walk (by
    simp [Bucket.bucket, entry_of_mem (hs.walk h.walk).ordered he, Node.bucket?])

/-- A click on a value fetches it and leaves the url and the keys. -/
theorem clickKey_value (serve : String → Except Fault Response) (B : Browser) {key : BunkerKey}
    (hk : key.dir = false) (b : Bunker) :
    (clickKey serve B key b).url = b.url ∧ (clickKey serve B key b).keys = b.keys := by
  simp only [clickKey, hk, Bool.false_eq_true, if_false]
  split
  · split
    · split <;> exact ⟨rfl, rfl⟩
    · exact ⟨rfl, rfl⟩
  · exact ⟨rfl, rfl⟩

theorem Shows.of_view {db : Bucket} {b b' : Bunker} {cs : List String} {d : Bucket}
    (h : Shows db b cs d) (hu : b'.url = b.url) (hk : b'.keys = b.keys) : Shows db b' cs d :=
  ⟨h.walk, hu.trans h.url, hk.trans h.keys⟩

end Bunker

/-! ## Browsing -/

namespace Bunker

section Browse

variable (J : Json) (net : Cluster) (C : Crypto) (B : Browser) (now : Time) {s : KV}

/-- A listing of the directory `cs`, asked for by a path ending in `/` or by
the empty path that reaches the router as it is, moves the url to the path and
shows the directory's entries, unless there are none: the router then answers
404 and the keys stay. -/
theorem getkeys_listing {p : String} (hr : B.request p = p)
    (hp : (hasSuffix p "/" || p = "") = true) {cs : List String} (hparse : parsePath p = (cs, ""))
    {d : Bucket} (hw : s.db.walk ("kv" :: cs) = some d) (hd : Named d) (b : Bunker) :
    getkeys (bunkerServe J net C B now s) p b =
      { b with url := if p = "" then [] else split p,
               keys := if d = [] then b.keys else d.map shown } := by
  rw [getkeys, bunkerServe_listing J net C B now hr hp (by rw [hparse]; exact hw)
    (by rw [hparse])]
  by_cases he : d = []
  · subst he; rfl
  · have hl : ¬(listing d).length = 0 := by simpa [listing] using he
    simp only [hl, if_false, he, success, listed, listed_listing hd]
    rfl

/-- The first listing shows the root of `kv`. -/
theorem shows_root (ht : Tidy s.db) (hn : Named s.db) :
    ∃ d, Shows s.db (getkeys (bunkerServe J net C B now s) "" init) [] d := by
  obtain ⟨d, hd⟩ := Option.isSome_iff_exists.mp ht.kv
  have hw : s.db.walk ["kv"] = some d := by simp [hd]
  refine ⟨d, hw, ?_, ?_⟩ <;>
    rw [getkeys_listing J net C B now (B.request_plain "" (by simp)) (by decide) rfl hw (hn.walk hw)]
  · rfl
  · by_cases he : d = [] <;> simp [he, init]

/-- A click on a directory the controller shows lists it: the url moves into
it, and the keys become its entries unless it is empty. -/
theorem Shows.click_dir (ht : Tidy s.db) (hn : Named s.db) (hu : urlNamed s.db = true) {b : Bunker}
    {cs : List String} {d : Bucket} (h : Shows s.db b cs d) {k : String} {c : Bucket}
    (he : (k, Node.bucket c) ∈ d) :
    clickKey (bunkerServe J net C B now s) B (shown (k, .bucket c)) b =
      { b with url := dirUrl (cs ++ [k]), keys := if c = [] then b.keys else c.map shown } := by
  have hw := h.walk_child ht.sorted he
  obtain ⟨hparse, hsplit⟩ := click_dir_path (h.chain_plain hn) ((hn.walk h.walk).mem he).1.2
  have hp : join (dirUrl cs) "/" ++ (k ++ "/") = join (dirUrl cs) "/" ++ k ++ "/" :=
    (String.append_assoc _ _ _).symm
  have hr := h.request_kept hn hu he B
  simp only [clickKey, shown, if_true, h.url] at hr ⊢
  rw [getkeys_listing J net C B now hr (by rw [hp, hasSuffix_slash]; rfl) hparse hw (hn.walk hw),
    if_neg (hp ▸ append_slash_ne_empty _), hsplit]

/-- A click on a value the controller shows fetches it: the url and the keys
stay, and the scope shows what the browser makes of the data the value's
envelope holds, as it is stored, or nothing changes when that does not parse.
The controller never asks for `?secret`, so for a secret the browser is handed
its ciphertext. -/
theorem Shows.click_value (ht : Tidy s.db) (hn : Named s.db) (hu : urlNamed s.db = true)
    {b : Bunker} {cs : List String} {d : Bucket} (h : Shows s.db b cs d) {k : String} {v : Bytes}
    (he : (k, Node.value v) ∈ d) {obj : KVObject} (hobj : J.unmarshalObject v = .ok obj)
    (hd : obj.data ≠ []) :
    clickKey (bunkerServe J net C B now s) B ⟨k, false⟩ b =
      match B.render (.blob obj.data) with
      | some item => { b with activeItem := some item }
      | none => b := by
  have hparse : parsePath (join b.url "/" ++ k) = (cs, k) := h.request hn he
  have hr : B.request (join b.url "/" ++ k) = join b.url "/" ++ k := h.request_kept hn hu he B
  obtain ⟨kv, hkv⟩ := Option.isSome_iff_exists.mp ht.kv
  have hleaf : s.db.leaf? ("kv" :: cs) k = some v := by
    simp [Bucket.leaf?, h.walk, Bucket.get, entry_of_mem (ht.sorted.walk h.walk).ordered he,
      Node.value?]
  have hget : get J (join b.url "/" ++ k) "kv" s = (.ok obj.data, s) := by
    rw [get_apply, (readObject_eq_ok hkv).mpr ⟨v, by rw [hparse]; exact hleaf, hobj⟩]
    rfl
  have hl : ¬obj.data.length = 0 := by simpa using hd
  simp only [clickKey, Bool.false_eq_true, if_false, bunkerServe, hr, kvHandler, kvGetHandler,
    trimPath_kvPrefix, ne_eq, not_true_eq_false, if_false,
    not_hasSuffix_of_key (show (parsePath (join b.url "/" ++ k)).2 ≠ "" by
      rw [hparse]; exact ((hn.walk h.walk).mem he).1.1),
    Bool.false_eq_true, bind_apply, capture_apply, hget, hl, success]
  rfl

/-- A browser for the cases below: it requests every path as it is, and shows a
value as its bytes read as a string, as `JSON.stringify` prints a JSON number. -/
def echoBrowser : Browser where
  request := id
  render
    | .blob b => some (goString b)
    | _ => none
  request_plain _ _ := rfl

theorem Shows.click_value_posted :
    clickKey (bunkerServe Codec.json ⟨fun _ => none⟩ Codec.box echoBrowser Time.zero
        (Op.run Codec.json ⟨fun _ => none⟩ Codec.box (newKV [])
          [.http Time.zero ⟨"POST", "/api/v1/kv/x", fun _ => "", .ok [49]⟩])) echoBrowser ⟨"x", false⟩
        (getkeys (bunkerServe Codec.json ⟨fun _ => none⟩ Codec.box echoBrowser Time.zero
          (Op.run Codec.json ⟨fun _ => none⟩ Codec.box (newKV [])
            [.http Time.zero ⟨"POST", "/api/v1/kv/x", fun _ => "", .ok [49]⟩])) "" init) =
      match echoBrowser.render (.blob (⟨Time.zero, false, [49], [], false⟩ : KVObject).data) with
      | some item =>
        { getkeys (bunkerServe Codec.json ⟨fun _ => none⟩ Codec.box echoBrowser Time.zero
            (Op.run Codec.json ⟨fun _ => none⟩ Codec.box (newKV [])
              [.http Time.zero ⟨"POST", "/api/v1/kv/x", fun _ => "", .ok [49]⟩])) "" init with
          activeItem := some item }
      | none =>
        getkeys (bunkerServe Codec.json ⟨fun _ => none⟩ Codec.box echoBrowser Time.zero
          (Op.run Codec.json ⟨fun _ => none⟩ Codec.box (newKV [])
            [.http Time.zero ⟨"POST", "/api/v1/kv/x", fun _ => "", .ok [49]⟩])) "" init :=
  Shows.click_value Codec.json _ _ _ _ (tidy_run _ _ _ _) (named_run _ _ _ _) (by decide)
    (d := ((Op.run Codec.json ⟨fun _ => none⟩ Codec.box (newKV [])
      [.http Time.zero ⟨"POST", "/api/v1/kv/x", fun _ => "", .ok [49]⟩]).db.bucket "kv").getD [])
    (show Shows _ _ [] _ from ⟨by decide, rfl, by decide⟩)
    (v := ((Op.run Codec.json ⟨fun _ => none⟩ Codec.box (newKV [])
      [.http Time.zero ⟨"POST", "/api/v1/kv/x", fun _ => "", .ok [49]⟩]).db.leaf? ["kv"] "x").getD [])
    (by decide) (by decide) (by decide)

section Filled

variable (hfull : ∀ cs c, s.db.walk ("kv" :: cs) = some c → cs ≠ [] → c ≠ [])
include hfull

/-- With no empty bucket under `kv`, every click keeps the controller on a
directory. -/
theorem Shows.click (ht : Tidy s.db) (hn : Named s.db) (hu : urlNamed s.db = true) {b : Bunker}
    {cs : List String} {d : Bucket} (h : Shows s.db b cs d) {key : BunkerKey} (hkey : key ∈ b.keys) :
    ∃ cs' d', Shows s.db (clickKey (bunkerServe J net C B now s) B key b) cs' d' := by
  rw [h.keys] at hkey
  obtain ⟨⟨k, n⟩, he, rfl⟩ := List.mem_map.mp hkey
  cases n with
  | value v =>
    obtain ⟨hu, hk⟩ := clickKey_value (bunkerServe J net C B now s) B
      (show (shown (k, .value v)).dir = false from rfl) b
    exact ⟨cs, d, h.of_view hu hk⟩
  | bucket c =>
    have hw := h.walk_child ht.sorted he
    have hc := hfull _ _ hw (by simp)
    refine ⟨cs ++ [k], c, hw, ?_, ?_⟩ <;> simp [h.click_dir J net C B now ht hn hu he, hc]

theorem Shows.session (ht : Tidy s.db) (hn : Named s.db) (hu : urlNamed s.db = true) :
    ∀ (is : List Nat) {b : Bunker} {cs : List String} {d : Bucket}, Shows s.db b cs d →
      ∃ cs' d', Shows s.db (session (bunkerServe J net C B now s) B is b) cs' d'
  | [], b, cs, d, h => ⟨cs, d, h⟩
  | i :: is, b, _, _, h => by
    rw [Bunker.session]
    split
    · next key hkey =>
      obtain ⟨_, _, h'⟩ := h.click J net C B now hfull ht hn hu (List.getElem?_mem hkey)
      exact Shows.session ht hn hu is h'
    · exact Shows.session ht hn hu is h

end Filled

end Browse

end Bunker

/-! ## Stores without empty directories -/

mutual

/-- Whether the node is a value, or a bucket with an entry whose nested buckets
are all filled. -/
def Node.filled : Node → Bool
  | .value _ => true
  | .bucket es => !es.isEmpty && Cave.filled es

/-- Whether every bucket nested in the bucket, at any depth, has an entry. -/
def filled : Bucket → Bool
  | [] => true
  | (_, n) :: es => n.filled && filled es

end

theorem filled_of_mem : ∀ {b : Bucket}, filled b = true → ∀ {e : String × Node}, e ∈ b →
    e.2.filled = true
  | _ :: _, h, _, he => by
    rw [filled, Bool.and_eq_true] at h
    rcases List.mem_cons.mp he with rfl | he
    · exact h.1
    · exact filled_of_mem h.2 he

theorem filled_bucket {b c : Bucket} (h : filled b = true) {q : String}
    (hc : b.bucket q = some c) : c ≠ [] ∧ filled c = true := by
  simp only [Bucket.bucket, Option.bind_eq_some] at hc
  obtain ⟨n, hn, hb⟩ := hc
  cases n with
  | value => cases hb
  | bucket es =>
    cases hb
    have hf := filled_of_mem h (entry_mem hn)
    simpa [Node.filled] using hf

/-- No walk down from a filled bucket ends at an empty one. -/
theorem filled_walk : ∀ {cs : List String} {b : Bucket} {q : String} {c : Bucket},
    filled b = true → b.walk (q :: cs) = some c → c ≠ []
  | [], b, q, c, h, hw => by
    simp only [walk_cons, walk_nil, Option.bind_eq_some, Option.some.injEq] at hw
    obtain ⟨c', hc', rfl⟩ := hw
    exact (filled_bucket h hc').1
  | q' :: cs, b, q, c, h, hw => by
    rw [walk_cons, Option.bind_eq_some] at hw
    obtain ⟨c', hc', hw⟩ := hw
    exact filled_walk (filled_bucket h hc').2 hw

/-- The precondition of browsing, decided on the bucket `kv`. -/
theorem nonempty_of_filled {db : Bucket} (h : (db.bucket "kv").all filled = true) :
    ∀ cs c, db.walk ("kv" :: cs) = some c → cs ≠ [] → c ≠ [] := by
  intro cs c hw hne
  obtain ⟨q, cs, rfl⟩ := List.exists_cons_of_ne_nil hne
  rw [walk_cons, Option.bind_eq_some] at hw
  obtain ⟨kv, hkv, hw⟩ := hw
  rw [hkv, Option.all_some] at h
  exact filled_walk h hw

theorem dirUrl_injective : Function.Injective dirUrl := by
  intro a a' h
  unfold dirUrl at h
  split_ifs at h with ha ha'
  · exact ha.trans ha'.symm
  · exact absurd h.symm (by simp)
  · exact absurd h (by simp)
  · exact List.append_cancel_right h

/-- A click on a directory whose bucket is empty puts the controller out of
step with the store: the router answers its listing with 404, so the url moves
into the directory while the keys stay the parent's, and the scope then shows
no directory of the store. The user's next click on a value builds its path
under the empty directory. -/
theorem bunker_empty_dir_desyncs (J : Json) (net : Cluster) (C : Crypto) (B : Browser) (now : Time)
    {s : KV} (ht : Tidy s.db) (hn : Named s.db) (hu : urlNamed s.db = true) {b : Bunker}
    {cs : List String} {d : Bucket} (h : Bunker.Shows s.db b cs d) {k : String}
    (he : (k, Node.bucket []) ∈ d) :
    (Bunker.clickKey (bunkerServe J net C B now s) B (Bunker.shown (k, .bucket [])) b).url =
        dirUrl (cs ++ [k]) ∧
      (Bunker.clickKey (bunkerServe J net C B now s) B (Bunker.shown (k, .bucket [])) b).keys =
        b.keys ∧
      ¬∃ cs' d', Bunker.Shows s.db
        (Bunker.clickKey (bunkerServe J net C B now s) B (Bunker.shown (k, .bucket [])) b) cs' d' := by
  have hc := h.click_dir J net C B now ht hn hu he
  rw [if_pos rfl] at hc
  refine ⟨by rw [hc], by rw [hc], ?_⟩
  rintro ⟨cs', d', h'⟩
  rw [hc] at h'
  obtain rfl := dirUrl_injective h'.url
  have hd : d' = [] := Option.some.inj (h'.walk.symm.trans (h.walk_child ht.sorted he))
  have hk : d.map Bunker.shown = d'.map Bunker.shown := h.keys.symm.trans h'.keys
  rw [hd, List.map_nil, List.map_eq_nil_iff] at hk
  subst hk
  cases he

theorem bunker_empty_dir_desyncs_put_delete :
    (Bunker.clickKey (bunkerServe Codec.json ⟨fun _ => none⟩ Codec.box Bunker.echoBrowser Time.zero
        (Op.run Codec.json ⟨fun _ => none⟩ Codec.box (newKV [])
          [.http Time.zero ⟨"POST", "/api/v1/kv/a/x", fun _ => "", .ok [49]⟩,
           .http Time.zero ⟨"DELETE", "/api/v1/kv/a/x", fun _ => "", .ok []⟩])) Bunker.echoBrowser
        (Bunker.shown ("a", .bucket []))
        (Bunker.getkeys (bunkerServe Codec.json ⟨fun _ => none⟩ Codec.box Bunker.echoBrowser Time.zero
          (Op.run Codec.json ⟨fun _ => none⟩ Codec.box (newKV [])
            [.http Time.zero ⟨"POST", "/api/v1/kv/a/x", fun _ => "", .ok [49]⟩,
             .http Time.zero ⟨"DELETE", "/api/v1/kv/a/x", fun _ => "", .ok []⟩])) "" Bunker.init)).url =
      dirUrl ([] ++ ["a"]) ∧
    (Bunker.clickKey (bunkerServe Codec.json ⟨fun _ => none⟩ Codec.box Bunker.echoBrowser Time.zero
        (Op.run Codec.json ⟨fun _ => none⟩ Codec.box (newKV [])
          [.http Time.zero ⟨"POST", "/api/v1/kv/a/x", fun _ => "", .ok [49]⟩,
           .http Time.zero ⟨"DELETE", "/api/v1/kv/a/x", fun _ => "", .ok []⟩])) Bunker.echoBrowser
        (Bunker.shown ("a", .bucket []))
        (Bunker.getkeys (bunkerServe Codec.json ⟨fun _ => none⟩ Codec.box Bunker.echoBrowser Time.zero
          (Op.run Codec.json ⟨fun _ => none⟩ Codec.box (newKV [])
            [.http Time.zero ⟨"POST", "/api/v1/kv/a/x", fun _ => "", .ok [49]⟩,
             .http Time.zero ⟨"DELETE", "/api/v1/kv/a/x", fun _ => "", .ok []⟩])) "" Bunker.init)).keys =
      (Bunker.getkeys (bunkerServe Codec.json ⟨fun _ => none⟩ Codec.box Bunker.echoBrowser Time.zero
          (Op.run Codec.json ⟨fun _ => none⟩ Codec.box (newKV [])
            [.http Time.zero ⟨"POST", "/api/v1/kv/a/x", fun _ => "", .ok [49]⟩,
             .http Time.zero ⟨"DELETE", "/api/v1/kv/a/x", fun _ => "", .ok []⟩])) "" Bunker.init).keys ∧
    ¬∃ cs' d', Bunker.Shows (Op.run Codec.json ⟨fun _ => none⟩ Codec.box (newKV [])
          [.http Time.zero ⟨"POST", "/api/v1/kv/a/x", fun _ => "", .ok [49]⟩,
           .http Time.zero ⟨"DELETE", "/api/v1/kv/a/x", fun _ => "", .ok []⟩]).db
      (Bunker.clickKey (bunkerServe Codec.json ⟨fun _ => none⟩ Codec.box Bunker.echoBrowser Time.zero
        (Op.run Codec.json ⟨fun _ => none⟩ Codec.box (newKV [])
          [.http Time.zero ⟨"POST", "/api/v1/kv/a/x", fun _ => "", .ok [49]⟩,
           .http Time.zero ⟨"DELETE", "/api/v1/kv/a/x", fun _ => "", .ok []⟩])) Bunker.echoBrowser
        (Bunker.shown ("a", .bucket []))
        (Bunker.getkeys (bunkerServe Codec.json ⟨fun _ => none⟩ Codec.box Bunker.echoBrowser Time.zero
          (Op.run Codec.json ⟨fun _ => none⟩ Codec.box (newKV [])
            [.http Time.zero ⟨"POST", "/api/v1/kv/a/x", fun _ => "", .ok [49]⟩,
             .http Time.zero ⟨"DELETE", "/api/v1/kv/a/x", fun _ => "", .ok []⟩])) "" Bunker.init))
      cs' d' :=
  bunker_empty_dir_desyncs _ _ _ _ _ (tidy_run _ _ _ _) (named_run _ _ _ _) (by decide)
    (d := [("a", .bucket [])]) ⟨by decide, rfl, by decide⟩ (List.mem_singleton_self _)

end Cave
