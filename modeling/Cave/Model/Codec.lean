import Cave.Model.Types

/-!
# A serialisation that meets the `Json` contract

`encoding/json` is outside the repository, and every theorem of this development
takes it as a parameter that satisfies `Json`. This file builds one such
parameter, so that the contract is not vacuous and concrete runs of the engine
can be evaluated: a binary format, each record written field after field,
numbers as little-endian base-128 digits, lists behind their length.

Like Go's encoder it drops monotonic clock readings and refuses a timestamp
outside the years 0 to 9999; like Go's decoder it refuses empty input with
`unexpected end of JSON input`. The crypto box gets the same treatment at the
end of the file: `box` meets `Crypto`.
-/

namespace Cave.Codec

/-- A serialiser: the bytes of each value, and a parser that reads one value off
the front of its input. -/
structure Ser (α : Type) where
  enc : α → Bytes
  dec : Bytes → Option (α × Bytes)
  dec_enc (a : α) (r : Bytes) : dec (enc a ++ r) = some (a, r)

/-- Base-128 digits of `n`, low first, the top bit set on all but the last;
`fuel` bounds the divisions. -/
def encNat : Nat → Nat → Bytes
  | 0, _ => []
  | fuel + 1, n =>
    if n < 128 then [n.toUInt8] else (n % 128 + 128).toUInt8 :: encNat fuel (n / 128)

/-- Reads the digits `encNat` writes. -/
def decNat : Bytes → Option (Nat × Bytes)
  | [] => none
  | b :: r =>
    if b.toNat < 128 then some (b.toNat, r)
    else (decNat r).map fun (n, r') => (b.toNat - 128 + 128 * n, r')

theorem toNat_toUInt8 {n : Nat} (h : n < 256) : n.toUInt8.toNat = n :=
  UInt8.toNat_ofNat_of_lt h

theorem decNat_encNat (r : Bytes) : ∀ fuel n, n < fuel → decNat (encNat fuel n ++ r) = some (n, r)
  | 0, _, h => absurd h (Nat.not_lt_zero _)
  | fuel + 1, n, h => by
    by_cases hn : n < 128
    · simp [encNat, decNat, hn, toNat_toUInt8 (show n < 256 by omega)]
    · have hd : n % 128 + 128 < 256 := by omega
      simp only [encNat, hn, if_false, List.cons_append, decNat, toNat_toUInt8 hd,
        decNat_encNat r fuel (n / 128) (by omega)]
      simp only [show ¬(n % 128 + 128 < 128) by omega, if_false, Option.map_some', Option.some.injEq,
        Prod.mk.injEq, and_true]
      omega

def nat : Ser Nat := ⟨fun n => encNat (n + 1) n, decNat, fun n r => decNat_encNat r _ n (by omega)⟩

def byte : Ser UInt8 where
  enc b := [b]
  dec
    | [] => none
    | b :: r => some (b, r)
  dec_enc _ _ := rfl

/-- A tag byte, then the value. -/
def bool : Ser Bool where
  enc b := [if b then 1 else 0]
  dec
    | [] => none
    | t :: r => some (t = 1, r)
  dec_enc b _ := by cases b <;> rfl

theorem tag_one_ne_zero : (1 : UInt8) ≠ 0 := by decide

def int : Ser Int where
  enc
    | .ofNat n => 0 :: nat.enc n
    | .negSucc n => 1 :: nat.enc n
  dec
    | [] => none
    | t :: r => (nat.dec r).map fun (n, r) => (if t = 0 then .ofNat n else .negSucc n, r)
  dec_enc a r := by cases a <;> simp [nat.dec_enc, tag_one_ne_zero]

def Ser.option (s : Ser α) : Ser (Option α) where
  enc
    | none => [0]
    | some a => 1 :: s.enc a
  dec
    | [] => none
    | t :: r => if t = 0 then some (none, r) else (s.dec r).map fun (a, r) => (some a, r)
  dec_enc a r := by cases a <;> simp [s.dec_enc, tag_one_ne_zero]

def Ser.prod (s : Ser α) (t : Ser β) : Ser (α × β) where
  enc p := s.enc p.1 ++ t.enc p.2
  dec r := match s.dec r with
    | none => none
    | some (a, r) => (t.dec r).map fun (b, r) => ((a, b), r)
  dec_enc p r := by simp [List.append_assoc, s.dec_enc, t.dec_enc]

/-- A type written as another one it embeds into. -/
def Ser.map (s : Ser β) (f : α → β) (g : β → α) (h : ∀ a, g (f a) = a) : Ser α where
  enc a := s.enc (f a)
  dec r := (s.dec r).map fun (b, r) => (g b, r)
  dec_enc a r := by simp [s.dec_enc, h]

/-- Reads `n` values one after another. -/
def decList (d : Bytes → Option (α × Bytes)) : Nat → Bytes → Option (List α × Bytes)
  | 0, r => some ([], r)
  | n + 1, r => match d r with
    | none => none
    | some (a, r) => (decList d n r).map fun (as, r) => (a :: as, r)

theorem decList_enc (s : Ser α) (r : Bytes) :
    ∀ as : List α, decList s.dec as.length ((as.map s.enc).flatten ++ r) = some (as, r)
  | [] => rfl
  | a :: as => by simp [decList, List.append_assoc, s.dec_enc, decList_enc s r as]

/-- The length, then the elements. -/
def Ser.list (s : Ser α) : Ser (List α) where
  enc as := nat.enc as.length ++ (as.map s.enc).flatten
  dec r := match nat.dec r with
    | none => none
    | some (n, r) => decList s.dec n r
  dec_enc as r := by simp [List.append_assoc, nat.dec_enc, decList_enc]

def char : Ser Char := nat.map Char.toNat Char.ofNat Char.ofNat_toNat

def string : Ser String := (Ser.list char).map String.data String.mk fun _ => rfl

def time : Ser Time :=
  (int.prod (int.prod (Ser.option int))).map (fun t => (t.wall, t.offset, t.mono))
    (fun (w, o, m) => ⟨w, o, m⟩) fun _ => rfl

def lock : Ser Lock :=
  (string.prod (string.prod (string.prod (string.prod (string.prod (time.prod time)))))).map
    (fun l => (l.key, l.root, l.lockId, l.nodeId, l.nodeAddress, l.claimTime, l.expireTime))
    (fun (k, p, i, n, a, c, x) => ⟨k, p, i, n, a, c, x⟩) fun _ => rfl

def object : Ser KVObject :=
  (time.prod (bool.prod ((Ser.list byte).prod ((Ser.list lock).prod bool)))).map
    (fun v => (v.lastUpdated, v.secret, v.data, v.locks, v.plaintext))
    (fun (t, s, d, l, p) => ⟨t, s, d, l, p⟩) fun _ => rfl

def update : Ser KVUpdate :=
  (string.prod (string.prod object)).map (fun u => (u.updateType, u.key, u.value))
    (fun (t, k, v) => ⟨t, k, v⟩) fun _ => rfl

/-- One whole value, nothing after it. -/
def parse (s : Ser α) (b : Bytes) : Except String α :=
  if b = [] then .error "unexpected end of JSON input"
  else match s.dec b with
    | some (a, []) => .ok a
    | _ => .error "invalid character"

theorem parse_enc (s : Ser α) (a : α) (h : s.enc a ≠ []) : parse s (s.enc a) = .ok a := by
  have := s.dec_enc a []
  simp only [List.append_nil] at this
  simp [parse, h, this]

theorem time_enc_ne_nil (t : Time) : time.enc t ≠ [] := by
  cases h : t.wall <;> simp [time, Ser.map, Ser.prod, int, h]

theorem nat_enc_ne_nil (n : Nat) : nat.enc n ≠ [] := by
  simp only [nat, encNat]; split <;> simp

theorem object_enc_ne_nil (v : KVObject) : object.enc v ≠ [] := by
  simp [object, Ser.map, Ser.prod, time_enc_ne_nil]

theorem update_enc_ne_nil (u : KVUpdate) : update.enc u ≠ [] := by
  simp [update, Ser.map, Ser.prod, string, Ser.list, nat_enc_ne_nil]

/-- `Time.MarshalJSON`'s refusal, as `json.Marshal` wraps it in a
`MarshalerError`. -/
def rangeError : String :=
  "json: error calling MarshalJSON for type time.Time: Time.MarshalJSON: year outside of range [0,9999]"

theorem Time.inRange_stripMonotonic (t : Time) : t.stripMonotonic.inRange = t.inRange := rfl

theorem KVObject.inRange_stripMonotonic (v : KVObject) : v.stripMonotonic.inRange = v.inRange := by
  simp [KVObject.inRange, KVObject.stripMonotonic, Lock.stripMonotonic, Function.comp_def,
    Time.inRange_stripMonotonic]

theorem KVObject.stripMonotonic_idem (v : KVObject) :
    v.stripMonotonic.stripMonotonic = v.stripMonotonic := by
  simp [KVObject.stripMonotonic, Lock.stripMonotonic, Time.stripMonotonic, Function.comp_def]

/-- The stand-in for `encoding/json`. -/
def json : Json where
  marshalObject v := if v.inRange then .ok (object.enc v.stripMonotonic) else .error rangeError
  marshalUpdate u :=
    if u.value.inRange then .ok (update.enc u.stripMonotonic) else .error rangeError
  unmarshalObject := parse object
  unmarshalUpdate := parse update
  unmarshalLock := parse lock
  valid b := !b.isEmpty
  marshalObject_isOk v := by by_cases h : v.inRange <;> simp [h, Except.isOk, Except.toBool]
  marshalUpdate_isOk u := by by_cases h : u.value.inRange <;> simp [h, Except.isOk, Except.toBool]
  marshalObject_stripMonotonic v := by
    simp only [KVObject.inRange_stripMonotonic, KVObject.stripMonotonic_idem]
  unmarshalObject_marshalObject {v b} h := by
    by_cases hr : v.inRange <;> simp only [hr, if_true, if_false, reduceCtorEq, Except.ok.injEq] at h
    subst h
    exact parse_enc _ _ (object_enc_ne_nil _)
  unmarshalUpdate_marshalUpdate {u b} h := by
    by_cases hr : u.value.inRange <;> simp only [hr, if_true, if_false, reduceCtorEq, Except.ok.injEq] at h
    subst h
    exact parse_enc _ _ (update_enc_ne_nil _)
  unmarshalObject_nil := rfl

/-- The plaintext's bytes: a string's are its UTF-8 encoding. -/
def plainBytes : Plain → Bytes
  | .bytes b => b
  | .text s => s.data.flatMap String.utf8EncodeChar

/-- A stand-in for the crypto box: a tag byte before the plaintext. -/
def box : Crypto where
  encrytJSON x := .ok (1 :: plainBytes x)
  decryptJSON
    | 1 :: p => .ok p
    | _ => .error "cipher: message authentication failed"
  decryptJSON_encrytJSON {x c} h := by cases h; rfl

end Cave.Codec
