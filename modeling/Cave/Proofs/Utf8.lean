import Mathlib.Data.String.Basic
import Cave.Proofs.Http

/-!
# Multi-query values: UTF-8 both ways

A multi-query entry carries its value as a JSON string. `doPOST` stores the
string's bytes, `[]byte(q.Value)`, which is UTF-8, and `doGET` answers
`string(b)`, which `encoding/json` writes character by character as
`utf8.DecodeRune` reads them. The decoder reads back every character the
encoder wrote, whatever its width (`goRunes_utf8EncodeChar`), so a string comes
out of the store as it went in (`goString_utf8`), and a multi-query GET answers
the value a multi-query POST wrote (`query_put_then_get`).

The checks of the decoder that an encoder's output could trip are those on the
second byte: after `E0` and `F0` (no overlong form), after `ED` (no surrogate)
and after `F4` (nothing past U+10FFFF). A Lean character is a Unicode scalar
value, so its bytes pass each of them.
-/

namespace Cave

open Go

/-! ## Bytes as numbers -/

theorem uint8_lt_iff {a b : UInt8} : a < b ↔ a.toNat < b.toNat := Iff.rfl

theorem uint8_le_iff {a b : UInt8} : a ≤ b ↔ a.toNat ≤ b.toNat := Iff.rfl

theorem uint8_eq_iff {a b : UInt8} : a = b ↔ a.toNat = b.toNat := ⟨congrArg _, UInt8.toNat.inj⟩

/-! ## What the decoder reads -/

section Decode

variable {b0 b1 b2 b3 : UInt8}

theorem runeWidth_two (h0 : 0xC2 ≤ b0.toNat ∧ b0.toNat ≤ 0xDF) (h1 : isSecond b0 b1 = true)
    (rest : Bytes) : runeWidth (b0 :: b1 :: rest) = 1 + 1 := by
  simp [runeWidth, uint8_lt_iff, uint8_le_iff, UInt8.size, h1]
  split_ifs <;> omega

theorem runeWidth_three (h0 : 0xE0 ≤ b0.toNat ∧ b0.toNat ≤ 0xEF) (h1 : isSecond b0 b1 = true)
    (h2 : isTail b2 = true) (rest : Bytes) : runeWidth (b0 :: b1 :: b2 :: rest) = 2 + 1 := by
  simp [runeWidth, uint8_lt_iff, uint8_le_iff, UInt8.size, h1, h2]
  split_ifs <;> omega

theorem runeWidth_four (h0 : 0xF0 ≤ b0.toNat ∧ b0.toNat ≤ 0xF4) (h1 : isSecond b0 b1 = true)
    (h2 : isTail b2 = true) (h3 : isTail b3 = true) (rest : Bytes) :
    runeWidth (b0 :: b1 :: b2 :: b3 :: rest) = 3 + 1 := by
  simp [runeWidth, uint8_lt_iff, uint8_le_iff, UInt8.size, h1, h2, h3]
  split_ifs <;> omega

end Decode

theorem isTail_ofNat {n : Nat} (h : 0x80 ≤ n ∧ n ≤ 0xBF) : isTail (UInt8.ofNat n) = true := by
  simp [isTail, uint8_le_iff, UInt8.size, UInt8.toNat_ofNat_of_lt (show n < 256 by omega), h]

/-- A character of width `w + 1` is read, and its `w` continuation bytes are
skipped. -/
theorem goRunes_of_width {b : UInt8} {bs : Bytes} {w : Nat} (hw : runeWidth (b :: bs) = w + 1) :
    goRunes 0 (b :: bs) = runeOf (w + 1) (b :: bs) :: goRunes w bs := by
  rw [goRunes, hw]

/-! ## What the encoder writes -/

/-- The bytes `[]byte` writes for the code point `v`, as numbers: UTF-8. -/
def utf8Nat (v : Nat) : List Nat :=
  if v < 0x80 then [v]
  else if v < 0x800 then [v / 64 + 0xC0, v % 64 + 0x80]
  else if v < 0x10000 then [v / 4096 + 0xE0, v / 64 % 64 + 0x80, v % 64 + 0x80]
  else [v / 262144 + 0xF0, v / 4096 % 64 + 0x80, v / 64 % 64 + 0x80, v % 64 + 0x80]

/-- A byte `String.utf8EncodeChar` builds: the low `k` bits of `a` under the
marker bits `p`, which stand for the number `q`. -/
theorem marked_eq {a : UInt32} {m p : UInt8} {k q n : Nat} (hk : k ≤ 8) (hm : m.toNat = 2 ^ k - 1)
    (hq : p.toNat = q) (hp : ∀ x < 2 ^ k, x ||| q = x + q) (hn : a.toNat % 2 ^ k + q = n)
    (h256 : n < 256) : a.toUInt8 &&& m ||| p = UInt8.ofNat n := by
  apply UInt8.toNat.inj
  rw [UInt8.toNat_ofNat_of_lt h256, ← hn, ← hp _ (Nat.mod_lt _ (Nat.two_pow_pos k)), ← hq]
  show (a.toNat % 256 &&& m.toNat) ||| p.toNat = _
  rw [hm, Nat.and_pow_two_sub_one_eq_mod, Nat.mod_mod_of_dvd _ (Nat.pow_dvd_pow 2 hk)]

theorem shiftRight_toNat (c : Char) : (c.val >>> 6).toNat = c.toNat / 64 ∧
    (c.val >>> 12).toNat = c.toNat / 4096 ∧ (c.val >>> 18).toNat = c.toNat / 262144 :=
  ⟨Nat.shiftRight_eq_div_pow _ 6, Nat.shiftRight_eq_div_pow _ 12, Nat.shiftRight_eq_div_pow _ 18⟩

/-- `String.utf8EncodeChar` writes the UTF-8 of the character's code point. -/
theorem utf8EncodeChar_eq (c : Char) :
    String.utf8EncodeChar c = (utf8Nat c.toNat).map UInt8.ofNat := by
  have hv : c.toNat < 0x110000 := by
    rcases c.valid with h | h
    · exact lt_trans h (by decide)
    · exact h.2
  obtain ⟨s6, s12, s18⟩ := shiftRight_toNat c
  have tail : ∀ {x : UInt32} {n}, x.toNat = n →
      x.toUInt8 &&& 0x3f ||| 0x80 = UInt8.ofNat (n % 64 + 0x80) :=
    fun h => marked_eq (k := 6) (q := 0x80) (by decide) rfl rfl (by decide)
      (by simp only [h, Nat.reducePow]) (by omega)
  unfold String.utf8EncodeChar utf8Nat
  dsimp only
  by_cases h1 : c.toNat < 0x80
  · rw [if_pos (show c.val ≤ 0x7f from show c.toNat ≤ 0x7f by omega), if_pos h1]; rfl
  rw [if_neg (show ¬c.val ≤ 0x7f from show ¬c.toNat ≤ 0x7f by omega), if_neg h1]
  by_cases h2 : c.toNat < 0x800
  · rw [if_pos (show c.val ≤ 0x7ff from show c.toNat ≤ 0x7ff by omega), if_pos h2]
    simp only [List.map_cons, List.map_nil, List.cons.injEq, and_true]
    exact ⟨marked_eq (k := 5) (q := 0xC0) (by decide) rfl rfl (by decide) (by rw [s6]; omega)
      (by omega), tail rfl⟩
  rw [if_neg (show ¬c.val ≤ 0x7ff from show ¬c.toNat ≤ 0x7ff by omega), if_neg h2]
  by_cases h3 : c.toNat < 0x10000
  · rw [if_pos (show c.val ≤ 0xffff from show c.toNat ≤ 0xffff by omega), if_pos h3]
    simp only [List.map_cons, List.map_nil, List.cons.injEq, and_true]
    exact ⟨marked_eq (k := 4) (q := 0xE0) (by decide) rfl rfl (by decide) (by rw [s12]; omega)
      (by omega), tail s6, tail rfl⟩
  rw [if_neg (show ¬c.val ≤ 0xffff from show ¬c.toNat ≤ 0xffff by omega), if_neg h3]
  simp only [List.map_cons, List.map_nil, List.cons.injEq, and_true]
  exact ⟨marked_eq (k := 3) (q := 0xF0) (by decide) rfl rfl (by decide) (by rw [s18]; omega)
    (by omega), tail s12, tail s6, tail rfl⟩

/-! ## The round trip -/

/-- The code point of a two-, three- or four-byte character: the lead byte's
payload, then six bits from each continuation byte. -/
theorem runeOf_two (b0 b1 : UInt8) (rest : Bytes) :
    runeOf 2 (b0 :: b1 :: rest) = Char.ofNat (b0.toNat % 32 * 64 + b1.toNat % 64) := rfl

theorem runeOf_three (b0 b1 b2 : UInt8) (rest : Bytes) :
    runeOf 3 (b0 :: b1 :: b2 :: rest) =
      Char.ofNat ((b0.toNat % 16 * 64 + b1.toNat % 64) * 64 + b2.toNat % 64) := rfl

theorem runeOf_four (b0 b1 b2 b3 : UInt8) (rest : Bytes) :
    runeOf 4 (b0 :: b1 :: b2 :: b3 :: rest) =
      Char.ofNat (((b0.toNat % 8 * 64 + b1.toNat % 64) * 64 + b2.toNat % 64) * 64 + b3.toNat % 64) :=
  rfl

/-- Six more bits: `v / (64 k)`, then the six bits below it, is `v / k`. -/
theorem div_digit (v : Nat) {k k' : Nat} (h : k * 64 = k') : v / k' * 64 + v / k % 64 = v / k := by
  rw [← h, ← Nat.div_div_eq_div_mul, Nat.div_add_mod']

section Widths

variable {v : Nat} (rest : Bytes)

theorem goRunes_one (h : v < 0x80) : goRunes 0 (UInt8.ofNat v :: rest) = Char.ofNat v :: goRunes 0 rest := by
  have e0 := UInt8.toNat_ofNat_of_lt (show v < 256 by omega)
  rw [goRunes_of_width (w := 0) (by simp [runeWidth, uint8_lt_iff, UInt8.size, e0, h])]
  simp [runeOf, e0, Nat.mod_eq_of_lt h]

theorem goRunes_two (h : 0x80 ≤ v ∧ v < 0x800) :
    goRunes 0 (UInt8.ofNat (v / 64 + 0xC0) :: UInt8.ofNat (v % 64 + 0x80) :: rest) =
      Char.ofNat v :: goRunes 0 rest := by
  have e0 := UInt8.toNat_ofNat_of_lt (show v / 64 + 0xC0 < 256 by omega)
  have e1 := UInt8.toNat_ofNat_of_lt (show v % 64 + 0x80 < 256 by omega)
  have hs : isSecond (UInt8.ofNat (v / 64 + 0xC0)) (UInt8.ofNat (v % 64 + 0x80)) = true := by
    simp [isSecond, isTail, uint8_eq_iff, uint8_le_iff, UInt8.size, e0, e1]; split_ifs <;> omega
  rw [goRunes_of_width (runeWidth_two (by omega) hs rest), runeOf_two, e0, e1,
    show (v / 64 + 0xC0) % 32 = v / 64 by omega, show (v % 64 + 0x80) % 64 = v % 64 by omega,
    Nat.div_add_mod']
  rfl

/-- Three bytes: the second byte rules out overlong forms and surrogates. -/
theorem goRunes_three (h : 0x800 ≤ v ∧ v < 0x10000) (hs : v < 0xD800 ∨ 0xDFFF < v) :
    goRunes 0 (UInt8.ofNat (v / 4096 + 0xE0) :: UInt8.ofNat (v / 64 % 64 + 0x80) ::
      UInt8.ofNat (v % 64 + 0x80) :: rest) = Char.ofNat v :: goRunes 0 rest := by
  have e0 := UInt8.toNat_ofNat_of_lt (show v / 4096 + 0xE0 < 256 by omega)
  have e1 := UInt8.toNat_ofNat_of_lt (show v / 64 % 64 + 0x80 < 256 by omega)
  have e2 := UInt8.toNat_ofNat_of_lt (show v % 64 + 0x80 < 256 by omega)
  have h2 : isSecond (UInt8.ofNat (v / 4096 + 0xE0)) (UInt8.ofNat (v / 64 % 64 + 0x80)) = true := by
    simp [isSecond, isTail, uint8_eq_iff, uint8_le_iff, UInt8.size, e0, e1]; split_ifs <;> omega
  rw [goRunes_of_width (runeWidth_three (by omega) h2 (isTail_ofNat (by omega)) rest), runeOf_three,
    e0, e1, e2, show (v / 4096 + 0xE0) % 16 = v / 4096 by omega,
    show (v / 64 % 64 + 0x80) % 64 = v / 64 % 64 by omega, show (v % 64 + 0x80) % 64 = v % 64 by omega,
    div_digit v (k := 64) rfl, Nat.div_add_mod']
  rfl

/-- Four bytes: the second byte rules out overlong forms and code points past
U+10FFFF. -/
theorem goRunes_four (h : 0x10000 ≤ v ∧ v < 0x110000) :
    goRunes 0 (UInt8.ofNat (v / 262144 + 0xF0) :: UInt8.ofNat (v / 4096 % 64 + 0x80) ::
      UInt8.ofNat (v / 64 % 64 + 0x80) :: UInt8.ofNat (v % 64 + 0x80) :: rest) =
      Char.ofNat v :: goRunes 0 rest := by
  have e0 := UInt8.toNat_ofNat_of_lt (show v / 262144 + 0xF0 < 256 by omega)
  have e1 := UInt8.toNat_ofNat_of_lt (show v / 4096 % 64 + 0x80 < 256 by omega)
  have e2 := UInt8.toNat_ofNat_of_lt (show v / 64 % 64 + 0x80 < 256 by omega)
  have e3 := UInt8.toNat_ofNat_of_lt (show v % 64 + 0x80 < 256 by omega)
  have h2 : isSecond (UInt8.ofNat (v / 262144 + 0xF0)) (UInt8.ofNat (v / 4096 % 64 + 0x80)) =
      true := by
    simp [isSecond, isTail, uint8_eq_iff, uint8_le_iff, UInt8.size, e0, e1]; split_ifs <;> omega
  rw [goRunes_of_width (runeWidth_four (by omega) h2 (isTail_ofNat (by omega))
      (isTail_ofNat (by omega)) rest), runeOf_four, e0, e1, e2, e3,
    show (v / 262144 + 0xF0) % 8 = v / 262144 by omega,
    show (v / 4096 % 64 + 0x80) % 64 = v / 4096 % 64 by omega,
    show (v / 64 % 64 + 0x80) % 64 = v / 64 % 64 by omega, show (v % 64 + 0x80) % 64 = v % 64 by omega,
    div_digit v (k := 4096) rfl, div_digit v (k := 64) rfl, Nat.div_add_mod']
  rfl

end Widths

/-- The decoder reads the UTF-8 of a scalar value back as that value, and goes
on after it. -/
theorem goRunes_utf8Nat {v : Nat} (hv : v.isValidChar) (rest : Bytes) :
    goRunes 0 ((utf8Nat v).map UInt8.ofNat ++ rest) = Char.ofNat v :: goRunes 0 rest := by
  unfold Nat.isValidChar at hv
  unfold utf8Nat
  split_ifs with h1 h2 h3
  · exact goRunes_one rest h1
  · exact goRunes_two rest ⟨by omega, h2⟩
  · exact goRunes_three rest ⟨by omega, h3⟩ (by omega)
  · exact goRunes_four rest ⟨by omega, by omega⟩

theorem goRunes_utf8EncodeChar (c : Char) (rest : Bytes) :
    goRunes 0 (String.utf8EncodeChar c ++ rest) = c :: goRunes 0 rest := by
  rw [utf8EncodeChar_eq, goRunes_utf8Nat (v := c.toNat) c.valid rest, Char.ofNat_toNat]

theorem goRunes_utf8 (s : String) : goRunes 0 (utf8 s) = s.data := by
  obtain ⟨cs⟩ := s
  induction cs with
  | nil => rfl
  | cons c cs ih =>
    show goRunes 0 (String.utf8EncodeChar c ++ cs.flatMap String.utf8EncodeChar) = c :: cs
    rw [goRunes_utf8EncodeChar]
    exact congrArg _ ih

/-- `string(b)` reads back, character for character, every string `[]byte`
wrote. -/
theorem goString_utf8 (s : String) : goString (utf8 s) = s :=
  String.ext (goRunes_utf8 s)

theorem utf8_eq_nil {s : String} : utf8 s = [] ↔ s = "" := by
  constructor
  · intro h
    exact String.ext (by rw [← goRunes_utf8 s, h]; rfl)
  · rintro rfl; rfl

/-! ## A multi-query value through the store -/

section Handlers

variable (J : Json) (net : Cluster) (C : Crypto)

/-- A plain value posted by a multi-query entry, then read by another for the
same key: when the put's write transaction commits, the POST reports the entry
without error if the transport delivers the update and with the transport's
error if not, and either way the GET answers the posted string, or that the key
does not exist when the string was empty. -/
theorem query_put_then_get {now : Time} {q g : QueryObject} {s : KV} (hsec : q.secret = false)
    {bobj : Bytes} {db' : Bucket}
    (hm : J.marshalObject ⟨now, false, utf8 q.value, [], !J.valid (utf8 q.value)⟩ = .ok bobj)
    (htx : putObjectTx (parsePath q.key).1 (parsePath q.key).2 bobj "kv" s.db = .ok db')
    (hg : g.key = q.key) (hgs : g.secret = false) :
    (doPOST J net C now q s).1 = .ok (match net.answer s.sent.length with
        | none => q
        | some t => { q with error := t }) ∧
      (doGET J C g (doPOST J net C now q s).2).1 =
        .ok (if q.value = "" then { g with error := "Key " ++ g.key ++ " does not exist" }
          else { g with value := q.value }) := by
  obtain ⟨hr, hdb⟩ := put_of_commit J net hm htx
  have hpost : doPOST J net C now q s = (.ok (match net.answer s.sent.length with
      | none => q
      | some t => { q with error := t }), (put J net now q.key (utf8 q.value) "kv" false [] s).2) := by
    simp only [doPOST, hsec, Bool.false_eq_true, if_false, bind_apply, capture_apply]
    rw [show put J net now q.key (utf8 q.value) "kv" false [] s =
      (_, (put J net now q.key (utf8 q.value) "kv" false [] s).2) from Prod.ext hr rfl]
    cases net.answer s.sent.length <;> rfl
  refine ⟨by rw [hpost], ?_⟩
  rw [hpost]
  simp only [doGET, hg, get_of_commit J hm htx hdb, bind_apply, capture_apply, hgs,
    Bool.false_eq_true, if_false, List.length_eq_zero, utf8_eq_nil,
    show goString (utf8 q.value) = q.value from String.ext (goRunes_utf8 _)]
  split_ifs <;> rfl

/-- A transport that delivers nothing: the POST reports its error, and the value
is stored all the same. -/
theorem query_put_then_get_accented :
    (doPOST Codec.json ⟨fun _ => some "no peer"⟩ Codec.box Time.zero ⟨"POST", "a/x", "é€", false, ""⟩
        (newKV [])).1 = .ok ⟨"POST", "a/x", "é€", false, "no peer"⟩ ∧
      (doGET Codec.json Codec.box ⟨"GET", "a/x", "", false, ""⟩
        (doPOST Codec.json ⟨fun _ => some "no peer"⟩ Codec.box Time.zero ⟨"POST", "a/x", "é€", false, ""⟩
          (newKV [])).2).1 =
        .ok (if "é€" = "" then { (⟨"GET", "a/x", "", false, ""⟩ : QueryObject) with
            error := "Key " ++ "a/x" ++ " does not exist" }
          else { (⟨"GET", "a/x", "", false, ""⟩ : QueryObject) with value := "é€" }) :=
  query_put_then_get _ _ _ rfl rfl rfl rfl rfl

end Handlers

end Cave
