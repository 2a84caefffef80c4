import Cave.Model.Api

/-!
# The browser front end

`ui/bunker.js` is an AngularJS controller over the KV router. `getkeys(path)`
lists a directory: it sets `$scope.url` to the path's pieces at once, and the
listed keys when the answer comes. `clickKey(key)` opens a listed key under the
current directory: a directory by listing it, a value by fetching it into
`$scope.activeItem`.

`$http` answers asynchronously; here a request is answered at once by
`serve`, the router on the node's state (a GET changes nothing). The success
callback runs on a 2xx answer, the error callback, which only logs, on any
other answer or on none.

Two things happen in the browser, outside the repository, and `Browser` stands
for them. The request for `baseurl + path` reaches the router with the path
Go's `URL.Path` holds, which is `path` itself when each of its segments is
`urlPlain`; other names are cut at `?` or `#`, rewritten or decoded on the way.
And the router answers every reply as `application/json`: AngularJS parses the
body before the success callback sees it, and a body that does not parse rejects
the request. `clickKey` shows what `JSON.stringify` makes of the parsed value.
-/

namespace Cave

/-- A name that the browser's URL parser and Go's `URL.Path` keep as it is where
it stands as a segment of the request's path: no `?` or `#`, which end the path,
no `\`, which an `http` URL reads as `/`, no `%`, which `URL.Path` decodes, no
space or control character, which the parser drops or strips at the URL's end,
and not a dot segment `.` or `..`. -/
def urlPlain (k : String) : Bool :=
  k != "." && k != ".." && k.data.all fun c => ' ' < c && c ∉ ['?', '#', '\\', '%']

/-- The browser under the controller. `request path` is the path the router
sees for a GET of `baseurl + path`. `render r` is what the success callback of
`clickKey` puts in `activeItem` for the 200 reply `r`: AngularJS's
`defaultHttpResponseTransform` strips the JSON protection prefix, trims the
body and parses it with `JSON.parse`, and the callback prints the value with
`JSON.stringify(·, undefined, 4)`; `none` where `JSON.parse` throws and `$http`
rejects. -/
structure Browser where
  request : String → String
  render : Reply → Option String
  /-- A path whose segments are `urlPlain` or empty reaches the router as it is. -/
  request_plain (path : String) : (∀ x ∈ split path, x = "" ∨ urlPlain x = true) →
    request path = path

/-- A key the controller shows: its name, and whether `isDir` takes it for a
directory. -/
structure BunkerKey where
  key : String
  dir : Bool
deriving Repr, DecidableEq

/-- The controller's scope. -/
structure Bunker where
  url : List String
  keys : List BunkerKey
  activeItem : Option String
deriving Repr, DecidableEq

namespace Bunker

/-- The scope before the first listing. -/
def init : Bunker := ⟨[], [], none⟩

/-- `$scope.isDir`: a name ending in `/` is a directory. -/
def isDir (item : String) : Bool := hasSuffix item "/"

/-- Whether `$http` runs the success callback. -/
def success (r : Response) : Bool := 200 ≤ r.status && r.status < 300

/-- What the success callback of `getkeys` builds from `res.data`, the parsed
JSON of the reply, iterating it with `for (k in res.data)`: a listing gives its
names, and a message object its one field. The router answers a listing with
nothing else, and the JSON `c.JSON` writes always parses. -/
def listed : Reply → Option (List BunkerKey)
  | .keys ks => some (ks.map fun k => ⟨k, isDir k⟩)
  | .message text => some [⟨text, isDir text⟩]
  | _ => none

section Controller

variable (serve : String → Except Fault Response) (B : Browser)

/-- `$scope.getkeys(path)`. -/
def getkeys (path : String) (b : Bunker) : Bunker :=
  let b := { b with url := if path = "" then [] else split path }
  match serve path with
  | .ok r =>
    if success r then
      match listed r.reply with
      | some keys => { b with keys }
      | none => b
    else b
  | .error _ => b

/-- `$scope.clickKey(key)`: the key's path is the current directory's pieces
joined by `/`, then the key. A value goes into `activeItem` as `JSON.stringify`
prints the parsed reply. -/
def clickKey (key : BunkerKey) (b : Bunker) : Bunker :=
  let uri := join b.url "/" ++ key.key
  if key.dir then getkeys serve uri b
  else
    match serve uri with
    | .ok r =>
      if success r then
        match B.render r.reply with
        | some item => { b with activeItem := some item }
        | none => b
      else b
    | .error _ => b

/-- A user's clicks, each on the key shown at that position. -/
def session : List Nat → Bunker → Bunker
  | [], b => b
  | i :: is, b =>
    match b.keys[i]? with
    | some key => session is (clickKey serve B key b)
    | none => session is b

end Controller

end Bunker

/-- The router answering the controller's `$http` GETs on a node in state `s`:
`baseurl` ends in the KV prefix, the browser's request carries the path it
makes of the controller's, and a GET carries no query and no body. -/
def bunkerServe (J : Json) (net : Cluster) (C : Crypto) (B : Browser) (now : Time) (s : KV)
    (path : String) : Except Fault Response :=
  (kvHandler J net C now ⟨"GET", kvPrefix ++ B.request path, fun _ => "", .ok []⟩ s).1

end Cave
