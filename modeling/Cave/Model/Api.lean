import Cave.Model.KV

/-!
# The HTTP surface

The handlers of `api.go` that reach the store: the KV router and the three
workers of a multi-query batch. Each is a call on the node, as the engine's
methods are. `doGET` hands back `string(b)`, which `goString` decodes as Go
does, one replacement character per byte that starts no valid sequence. A
handler's logging is left out; what it answers is a `Response`, the status and
the body `c.JSON` or `c.Blob` writes.

The router hands the KV handlers only paths under `/api/v1/kv/`, so
`trimPath` is a plain drop. The multi-query record `QueryObject` is not among
the sources; its fields are the ones the spec gives the batch entries.
-/

namespace Cave

open Go

/-- `KVPREFIX`. -/
def kvPrefix : String := "/api/v1/kv/"

/-- `trimPath`: `path[len(prefix):]`. -/
def trimPath (path pre : String) : String := ⟨path.data.drop pre.length⟩

/-- `strings.HasSuffix`. -/
def hasSuffix (s suffix : String) : Bool := suffix.data.isSuffixOf s.data

/-- `[]byte(s)`: the UTF-8 bytes of a string. -/
def utf8 (s : String) : Bytes := s.data.flatMap String.utf8EncodeChar

/-- A UTF-8 continuation byte, `80`–`BF`. -/
def isTail (b : UInt8) : Bool := 0x80 ≤ b && b ≤ 0xBF

/-- The second byte of a well-formed sequence led by `b0`: `A0`–`BF` after
`E0`, `80`–`9F` after `ED`, `90`–`BF` after `F0`, `80`–`8F` after `F4`, and a
continuation byte after any other lead. -/
def isSecond (b0 b1 : UInt8) : Bool :=
  if b0 = 0xE0 then 0xA0 ≤ b1 && b1 ≤ 0xBF
  else if b0 = 0xED then 0x80 ≤ b1 && b1 ≤ 0x9F
  else if b0 = 0xF0 then 0x90 ≤ b1 && b1 ≤ 0xBF
  else if b0 = 0xF4 then 0x80 ≤ b1 && b1 ≤ 0x8F
  else isTail b1

/-- How many bytes the well-formed character at the front of `bs` takes, or 0
when its first byte starts none: the width `utf8.DecodeRune` reads. -/
def runeWidth : Bytes → Nat
  | [] => 0
  | b0 :: rest =>
    let tails (n : Nat) : Bool :=
      n ≤ rest.length && isSecond b0 (rest.getD 0 0) && ((rest.take n).drop 1).all isTail
    if b0 < 0x80 then 1
    else if 0xC2 ≤ b0 && b0 ≤ 0xDF && tails 1 then 2
    else if 0xE0 ≤ b0 && b0 ≤ 0xEF && tails 2 then 3
    else if 0xF0 ≤ b0 && b0 ≤ 0xF4 && tails 3 then 4
    else 0

/-- The character of the `w` bytes at the front of `bs`: the payload bits of
the lead byte, then six bits from each continuation byte. -/
def runeOf (w : Nat) : Bytes → Char
  | [] => '\uFFFD'
  | b0 :: rest =>
    Char.ofNat ((rest.take (w - 1)).foldl (fun acc b => acc * 64 + b.toNat % 64)
      (b0.toNat % if w = 1 then 128 else Nat.pow 2 (7 - w)))

/-- The characters of a byte slice as `utf8.DecodeRune` reads them one after
another: a well-formed character is itself, and a byte that starts none is
`U+FFFD`. `skip` counts the continuation bytes of the character just read. -/
def goRunes : Nat → Bytes → List Char
  | _, [] => []
  | skip + 1, _ :: bs => goRunes skip bs
  | 0, b :: bs =>
    match runeWidth (b :: bs) with
    | 0 => '\uFFFD' :: goRunes 0 bs
    | w + 1 => runeOf (w + 1) (b :: bs) :: goRunes w bs

/-- `string(b)`, as the reply carries it: `encoding/json` writes a string's
well-formed characters as they are and each byte that starts none as
`U+FFFD`. -/
def goString (b : Bytes) : String := ⟨goRunes 0 b⟩

example : goString [0x61, 0xE2, 0x82, 0xAC, 0xFF, 0xE2, 0x82] = "a€\uFFFD\uFFFD\uFFFD" := by decide

/-- The part of an HTTP request the handlers read: the method, the URL path,
`URL.Query().Get(name)` (empty for a missing parameter), and the body as
`ioutil.ReadAll` returns it. -/
structure Request where
  method : String
  path : String
  query : String → String
  body : Except String Bytes

/-- What a handler writes. -/
inductive Reply where
  /-- `jsonError{Message: text}`. -/
  | message (text : String)
  /-- A key listing. -/
  | keys (ks : List String)
  /-- The map of `GetTree`. -/
  | tree (m : List (String × Node))
  /-- `c.Blob(…, "application/json", b)`. -/
  | blob (b : Bytes)
deriving Repr, DecidableEq

/-- A status and a body. -/
structure Response where
  status : Nat
  reply : Reply
deriving Repr, DecidableEq

/-- Modelled from the spec: a multi-query entry `{ verb, key, value?, secret? }`
and the `error` a worker sets on it. -/
structure QueryObject where
  verb : String
  key : String
  value : String
  secret : Bool
  error : String
deriving Repr, DecidableEq

section Handlers

variable (J : Json) (net : Cluster) (C : Crypto)

/-- `treeHandler`. -/
def treeHandler : Go Response := do
  match ← capture (getTree "kv") with
  | .error err => pure ⟨500, .message err.text⟩
  | .ok tree => pure ⟨200, .tree tree⟩

/-- `kvGetHandler`. With `secret` set it answers the plaintext when the bytes
decrypt, and the stored bytes otherwise. -/
def kvGetHandler (r : Request) : Go Response := do
  let path := trimPath r.path kvPrefix
  if r.query "tree" ≠ "" then treeHandler
  else if hasSuffix path "/" || path = "" then
    match ← capture (getKeys path "kv") with
    | .error err => pure ⟨500, .message err.text⟩
    | .ok k =>
      if k.length = 0 then pure ⟨404, .message ("Key " ++ path ++ " does not exist")⟩
      else pure ⟨200, .keys k⟩
  else
    match ← capture (get J path "kv") with
    | .error err => pure ⟨500, .message err.text⟩
    | .ok b =>
      if b.length = 0 then pure ⟨404, .message ("Key " ++ path ++ " does not exist")⟩
      else if r.query "secret" ≠ "" then
        match C.decryptJSON b with
        | .error _ => pure ⟨200, .blob b⟩
        | .ok data => pure ⟨200, .blob data⟩
      else pure ⟨200, .blob b⟩

/-- `kvPutHandler`; `now` is the `time.Now()` of `Put`. -/
def kvPutHandler (now : Time) (r : Request) : Go Response :=
  let path := trimPath r.path kvPrefix
  match r.body with
  | .error err => pure ⟨400, .message err⟩
  | .ok buf =>
    let secret := r.query "secret" ≠ ""
    let buf := if secret then C.encrytJSON (.bytes buf) else .ok buf
    match buf with
    | .error err => pure ⟨400, .message err⟩
    | .ok buf => do
      match ← capture (put J net now path buf "kv" secret []) with
      | .error err => pure ⟨500, .message err.text⟩
      | .ok () => pure ⟨200, .message "ok"⟩

/-- `kvDeleteHandler`. A path with a trailing `/` goes to `DeleteBucket`
first; when that returns nil the handler goes on to `DeleteKey`. -/
def kvDeleteHandler (r : Request) : Go Response := do
  let path := trimPath r.path kvPrefix
  let deleted ← (if hasSuffix path "/" then capture (deleteBucket J net path "kv" [])
    else pure (.ok ()))
  match deleted with
  | .error err =>
    if err = .bolt .bucketNotFound then pure ⟨404, .message err.text⟩
    else pure ⟨500, .message err.text⟩
  | .ok () =>
    match ← capture (deleteKey J net path "kv" []) with
    | .error err => pure ⟨500, .message err.text⟩
    | .ok () => pure ⟨200, .message "ok"⟩

/-- `kvHandler`: the KV router's dispatch on the method. -/
def kvHandler (now : Time) (r : Request) : Go Response :=
  match r.method with
  | "GET" => kvGetHandler J C r
  | "POST" => kvPutHandler J net C now r
  | "DELETE" => kvDeleteHandler J net r
  | m => pure ⟨405, .message ("Method " ++ m ++ " is not allowed")⟩

/-- `doGET`: the entry with `error` set when `Get` fails or finds no bytes.
Whatever the decryption of a secret entry gives, the last assignment sets
`value` to the stored bytes. A failed decryption leaves `data` nil. -/
def doGET (q : QueryObject) : Go QueryObject := do
  match ← capture (get J q.key "kv") with
  | .error err => pure { q with error := err.text }
  | .ok b =>
    if b.length = 0 then pure { q with error := "Key " ++ q.key ++ " does not exist" }
    else
      let q := if q.secret then
          let (data, failed) := match C.decryptJSON b with
            | .ok data => (data, false)
            | .error _ => ([], true)
          let q := if failed then { q with value := goString b } else q
          { q with value := goString data }
        else q
      pure { q with value := goString b }

/-- `doPOST`: the entry, with `error` set when encryption or `Put` fails. A
ciphertext goes through `string(data)` and back through `[]byte`, which gives
the same bytes. -/
def doPOST (now : Time) (q : QueryObject) : Go QueryObject :=
  let buf := if q.secret then C.encrytJSON (.text q.value) else .ok (utf8 q.value)
  match buf with
  | .error err => pure { q with error := err }
  | .ok buf => do
    match ← capture (put J net now q.key buf "kv" q.secret []) with
    | .error err => pure { q with error := err.text }
    | .ok () => pure q

/-- `doDELETE`. -/
def doDELETE (q : QueryObject) : Go QueryObject := do
  match ← capture (deleteKey J net q.key "kv" []) with
  | .error err => pure { q with error := err.text }
  | .ok () => pure q

end Handlers

end Cave
