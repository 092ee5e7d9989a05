import RollupBoost.Utf8

/-!
# Utf8.Decode — what `str::from_utf8` accepts is the encoding of a string

`Utf8.valid` is the check `str::from_utf8` makes before `serde_json` hands out a `&str`. Read
backwards, an accepted run of the check gives the characters back: a valid text starts with the
encoding of a scalar value, found from the class of its lead byte (`exists_encode_append`), and
by induction a valid text is the encoding of a string (`valid_iff_ofString`). After a valid
prefix, the rest of a text is valid exactly when the whole is (`valid_append_iff`). These are
the two ways the JSON layer takes a UTF-8 body apart.

Read forwards, the first character of a text is found from its lead byte alone (`decodeFirst`),
so no encoding of a character is a prefix of another's (`encode_append_inj`). Hence the byte
prefix test that `str::starts_with` makes is the prefix test on characters
(`Str.startsWith_eq`): the routing of `ProxyService::call` on the prefixes of
`MULTIPLEX_METHODS` reads the method's characters, not a byte pattern that could start inside a
character.
-/

namespace RollupBoost
namespace Utf8

/-- A continuation byte, `80..BF`. -/
def Cont (b : UInt8) : Prop := 0x80 ≤ b.toNat ∧ b.toNat ≤ 0xBF

theorem valid_iff_run {bs : Bytes} : valid bs ↔ run (.cont 0) bs = some (.cont 0) := by
  simp [valid]

theorem run_cons_eq_some {s s' : State} {b : UInt8} {bs : Bytes} (h : run s (b :: bs) = some s') :
    ∃ s₁, step s b = some s₁ ∧ run s₁ bs = some s' :=
  Option.bind_eq_some.1 h

/-- A run that ends between characters, from a state that owes a byte of one range, reads a
byte of that range first. -/
theorem run_within {lo hi : Nat} {st next : State} {bs : Bytes} (h : run st bs = some (.cont 0))
    (hs : ∀ b, step st b = within lo hi b next) (hst : st ≠ .cont 0) :
    ∃ b t, bs = b :: t ∧ (lo ≤ b.toNat ∧ b.toNat ≤ hi) ∧ run next t = some (.cont 0) := by
  obtain _ | ⟨b, t⟩ := bs
  · exact absurd (Option.some.inj h) hst
  obtain ⟨s₁, h₁, h₂⟩ := run_cons_eq_some h
  rw [hs, within] at h₁
  split_ifs at h₁ with hb
  cases h₁
  exact ⟨b, t, rfl, hb, h₂⟩

theorem toNat_ofNat {n : Nat} (h : n.isValidChar) : (Char.ofNat n).toNat = n := by
  rw [Char.ofNat, dif_pos h]
  rfl

theorem toUInt8_eq {n : Nat} {x : UInt8} (h : n = x.toNat) : n.toUInt8 = x :=
  UInt8.toNat.inj (h ▸ toNat_toUInt8_of_lt (h ▸ x.toNat_lt_size))

/-! ## The first character -/

theorem encode_one {x : UInt8} (hx : x.toNat < 0x80) : encode x.toNat = [x] := by
  rw [encode_of_lt hx, toUInt8_eq rfl]

theorem exists_encode_two {x y : UInt8} (hx : 0xC2 ≤ x.toNat ∧ x.toNat ≤ 0xDF) (hy : Cont y) :
    ∃ n, n.isValidChar ∧ encode n = [x, y] := by
  unfold Cont at hy
  refine ⟨(x.toNat - 0xC0) * 0x40 + (y.toNat - 0x80), by unfold Nat.isValidChar; omega, ?_⟩
  rw [encode, if_neg (by omega), if_pos (by omega)]
  exact congrArg₂ _ (toUInt8_eq (by omega)) (congrArg₂ _ (toUInt8_eq (by omega)) rfl)

theorem exists_encode_three {x y z : UInt8} (hx : 0xE0 ≤ x.toNat ∧ x.toNat ≤ 0xEF) (hy : Cont y)
    (hE0 : x.toNat = 0xE0 → 0xA0 ≤ y.toNat) (hED : x.toNat = 0xED → y.toNat ≤ 0x9F)
    (hz : Cont z) : ∃ n, n.isValidChar ∧ encode n = [x, y, z] := by
  unfold Cont at hy hz
  refine ⟨(x.toNat - 0xE0) * 0x1000 + (y.toNat - 0x80) * 0x40 + (z.toNat - 0x80),
    by unfold Nat.isValidChar; omega, ?_⟩
  rw [encode, if_neg (by omega), if_neg (by omega), if_pos (by omega)]
  simp only [List.cons.injEq, and_true]
  exact ⟨toUInt8_eq (by omega), toUInt8_eq (by omega), toUInt8_eq (by omega)⟩

theorem exists_encode_four {x y z w : UInt8} (hx : 0xF0 ≤ x.toNat ∧ x.toNat ≤ 0xF4) (hy : Cont y)
    (hF0 : x.toNat = 0xF0 → 0x90 ≤ y.toNat) (hF4 : x.toNat = 0xF4 → y.toNat ≤ 0x8F)
    (hz : Cont z) (hw : Cont w) : ∃ n, n.isValidChar ∧ encode n = [x, y, z, w] := by
  unfold Cont at hy hz hw
  refine ⟨(x.toNat - 0xF0) * 0x40000 + (y.toNat - 0x80) * 0x1000 + (z.toNat - 0x80) * 0x40 +
    (w.toNat - 0x80), by unfold Nat.isValidChar; omega, ?_⟩
  rw [encode, if_neg (by omega), if_neg (by omega), if_neg (by omega)]
  simp only [List.cons.injEq, and_true]
  exact ⟨toUInt8_eq (by omega), toUInt8_eq (by omega), toUInt8_eq (by omega), toUInt8_eq (by omega)⟩

/-- What the check asks after the lead byte `x` of a three-byte character. -/
theorem run_three_inv {x : UInt8} {bs : Bytes}
    (h : run (if x.toNat = 0xE0 then .afterE0 else if x.toNat = 0xED then .afterED else .cont 2)
      bs = some (.cont 0)) :
    ∃ y z t, bs = y :: z :: t ∧ Cont y ∧ (x.toNat = 0xE0 → 0xA0 ≤ y.toNat) ∧
      (x.toNat = 0xED → y.toNat ≤ 0x9F) ∧ Cont z ∧ valid t := by
  split_ifs at h with h₀ h₁ <;>
  · obtain ⟨y, _, rfl, hy, h⟩ := run_within h (fun _ => rfl) (by decide)
    obtain ⟨z, t, rfl, hz, h⟩ := run_within h (fun _ => rfl) (by decide)
    exact ⟨y, z, t, rfl, by unfold Cont; omega, fun _ => by omega, fun _ => by omega, hz,
      valid_iff_run.2 h⟩

/-- What the check asks after the lead byte `x` of a four-byte character. -/
theorem run_four_inv {x : UInt8} {bs : Bytes}
    (h : run (if x.toNat = 0xF0 then .afterF0 else if x.toNat = 0xF4 then .afterF4 else .cont 3)
      bs = some (.cont 0)) :
    ∃ y z w t, bs = y :: z :: w :: t ∧ Cont y ∧ (x.toNat = 0xF0 → 0x90 ≤ y.toNat) ∧
      (x.toNat = 0xF4 → y.toNat ≤ 0x8F) ∧ Cont z ∧ Cont w ∧ valid t := by
  split_ifs at h with h₀ h₁ <;>
  · obtain ⟨y, _, rfl, hy, h⟩ := run_within h (fun _ => rfl) (by decide)
    obtain ⟨z, _, rfl, hz, h⟩ := run_within h (fun _ => rfl) (by decide)
    obtain ⟨w, t, rfl, hw, h⟩ := run_within h (fun _ => rfl) (by decide)
    exact ⟨y, z, w, t, rfl, by unfold Cont; omega, fun _ => by omega, fun _ => by omega, hz, hw,
      valid_iff_run.2 h⟩

/-- A valid text starts with the encoding of a scalar value, and what follows it is valid. -/
theorem exists_encode_append {b : UInt8} {bs : Bytes} (h : valid (b :: bs)) :
    ∃ n, n.isValidChar ∧ ∃ t, b :: bs = encode n ++ t ∧ valid t := by
  obtain ⟨s, hl, hr⟩ := run_cons_eq_some (valid_iff_run.1 h)
  by_cases h₁ : b.toNat < 0x80
  · rw [step, lead, if_pos h₁, Option.some.injEq] at hl
    subst hl
    exact ⟨b.toNat, by unfold Nat.isValidChar; omega, bs, by rw [encode_one h₁]; rfl,
      valid_iff_run.2 hr⟩
  by_cases h₂ : 0xC2 ≤ b.toNat ∧ b.toNat ≤ 0xDF
  · rw [step, lead, if_neg h₁, if_pos h₂, Option.some.injEq] at hl
    subst hl
    obtain ⟨y, t, rfl, hy, ht⟩ := run_within hr (fun _ => rfl) (by decide)
    obtain ⟨n, hn, he⟩ := exists_encode_two h₂ hy
    exact ⟨n, hn, t, by rw [he]; rfl, valid_iff_run.2 ht⟩
  by_cases h₃ : 0xE0 ≤ b.toNat ∧ b.toNat ≤ 0xEF
  · rw [lead_three h₃, Option.some.injEq] at hl
    subst hl
    obtain ⟨y, z, t, rfl, hy, hE0, hED, hz, ht⟩ := run_three_inv hr
    obtain ⟨n, hn, he⟩ := exists_encode_three h₃ hy hE0 hED hz
    exact ⟨n, hn, t, by rw [he]; rfl, ht⟩
  by_cases h₄ : 0xF0 ≤ b.toNat ∧ b.toNat ≤ 0xF4
  · rw [lead_four h₄, Option.some.injEq] at hl
    subst hl
    obtain ⟨y, z, w, t, rfl, hy, hF0, hF4, hz, hw, ht⟩ := run_four_inv hr
    obtain ⟨n, hn, he⟩ := exists_encode_four h₄ hy hF0 hF4 hz hw
    exact ⟨n, hn, t, by rw [he]; rfl, ht⟩
  have : lead b = none := by
    rw [lead, if_neg h₁, if_neg h₂, if_neg (by omega), if_neg (by omega), if_neg (by omega),
      if_neg (by omega), if_neg (by omega), if_neg (by omega), if_neg (by omega)]
  rw [step, this] at hl
  cases hl

/-! ## Whole texts -/

theorem valid_ofString (s : String) : valid (ofString s) := by
  obtain ⟨cs⟩ := s
  induction cs with
  | nil => rfl
  | cons c cs ih => exact valid_append (valid_encode c.valid) ih

theorem exists_ofString : ∀ {bs : Bytes}, valid bs → ∃ s : String, ofString s = bs
  | [], _ => ⟨"", rfl⟩
  | b :: bs, h => by
    obtain ⟨n, hn, t, he, ht⟩ := exists_encode_append h
    have : t.length < (b :: bs).length := by
      rw [he, List.length_append]
      exact Nat.lt_add_of_pos_left (List.length_pos.2 (encode_ne_nil n))
    obtain ⟨⟨cs⟩, rfl⟩ := exists_ofString ht
    exact ⟨⟨Char.ofNat n :: cs⟩, by
      rw [he]
      show encode (Char.ofNat n).toNat ++ _ = _
      rw [toNat_ofNat hn]
      rfl⟩
termination_by bs => bs.length

/-- `str::from_utf8` accepts exactly the encodings of strings. -/
theorem valid_iff_ofString {bs : Bytes} : valid bs ↔ ∃ s : String, ofString s = bs :=
  ⟨exists_ofString, fun ⟨s, hs⟩ => hs ▸ valid_ofString s⟩

/-- After a valid text, the rest of a text is valid exactly when the whole is. -/
theorem valid_append_iff {a : Bytes} (ha : valid a) (b : Bytes) : valid (a ++ b) ↔ valid b := by
  simp only [valid_iff_run, run_append, valid_iff_run.1 ha, Option.some_bind]

/-! ## Encodings do not overlap -/

/-- The scalar value the first character of a text encodes, read off the class of its lead
byte, and the rest of the text. It reads the bytes without checking them; `valid` checks. -/
def decodeFirst : Bytes → Option (Nat × Bytes)
  | x :: r =>
    if x.toNat < 0x80 then some (x.toNat, r)
    else if x.toNat < 0xE0 then
      match r with
      | y :: r => some ((x.toNat - 0xC0) * 0x40 + (y.toNat - 0x80), r)
      | [] => none
    else if x.toNat < 0xF0 then
      match r with
      | y :: z :: r => some ((x.toNat - 0xE0) * 0x1000 + (y.toNat - 0x80) * 0x40 + (z.toNat - 0x80), r)
      | _ => none
    else
      match r with
      | y :: z :: w :: r => some ((x.toNat - 0xF0) * 0x40000 + (y.toNat - 0x80) * 0x1000 +
          (z.toNat - 0x80) * 0x40 + (w.toNat - 0x80), r)
      | _ => none
  | [] => none

theorem decodeFirst_encode {n : Nat} (hn : n.isValidChar) (r : Bytes) :
    decodeFirst (encode n ++ r) = some (n, r) := by
  unfold Nat.isValidChar at hn
  unfold encode
  split_ifs with h₁ h₂ h₃ <;> simp only [List.cons_append, List.nil_append] <;> unfold decodeFirst <;>
    dsimp only
  · rw [toNat_toUInt8_of_lt (by omega : n < 256), if_pos h₁]
  · rw [toNat_toUInt8_of_lt (by omega : 192 + n / 64 < 256), if_neg (by omega), if_pos (by omega),
      toNat_toUInt8_of_lt (by omega : 128 + n % 64 < 256)]
    exact congrArg (fun m => some (m, r)) (by omega)
  · rw [toNat_toUInt8_of_lt (by omega : 224 + n / 4096 < 256), if_neg (by omega), if_neg (by omega),
      if_pos (by omega), toNat_toUInt8_of_lt (by omega : 128 + n / 64 % 64 < 256),
      toNat_toUInt8_of_lt (by omega : 128 + n % 64 < 256)]
    exact congrArg (fun m => some (m, r)) (by omega)
  · rw [toNat_toUInt8_of_lt (by omega : 240 + n / 262144 < 256), if_neg (by omega),
      if_neg (by omega), if_neg (by omega),
      toNat_toUInt8_of_lt (by omega : 128 + n / 4096 % 64 < 256),
      toNat_toUInt8_of_lt (by omega : 128 + n / 64 % 64 < 256),
      toNat_toUInt8_of_lt (by omega : 128 + n % 64 < 256)]
    exact congrArg (fun m => some (m, r)) (by omega)

/-- No encoding of a character is a prefix of another's: a text determines its first character
and the rest. -/
theorem encode_append_inj {m n : Nat} (hm : m.isValidChar) (hn : n.isValidChar) {x y : Bytes}
    (h : encode m ++ x = encode n ++ y) : m = n ∧ x = y := by
  have := (decodeFirst_encode hm x).symm.trans (h ▸ decodeFirst_encode hn y)
  simpa using this

theorem ofString_cons (c : Char) (cs : List Char) :
    ofString ⟨c :: cs⟩ = encode c.toNat ++ ofString ⟨cs⟩ := rfl

theorem ofString_append (p s : List Char) : ofString ⟨p ++ s⟩ = ofString ⟨p⟩ ++ ofString ⟨s⟩ :=
  List.flatMap_append _ _ _

/-- The encoding of a string starts with the encoding of another exactly when its characters
start with the other's. -/
theorem ofString_prefix_iff (p s : List Char) : ofString ⟨p⟩ <+: ofString ⟨s⟩ ↔ p <+: s := by
  induction p generalizing s with
  | nil => exact ⟨fun _ => List.nil_prefix, fun _ => List.nil_prefix⟩
  | cons c p ih =>
    constructor
    · rintro ⟨t, ht⟩
      obtain _ | ⟨d, s⟩ := s
      · rw [ofString_cons, show ofString ⟨[]⟩ = [] from rfl] at ht
        simp [encode_ne_nil] at ht
      rw [ofString_cons, ofString_cons, List.append_assoc] at ht
      obtain ⟨hcd, hrest⟩ := encode_append_inj c.valid d.valid ht
      obtain rfl : c = d := Char.ext (UInt32.toNat.inj hcd)
      exact List.prefix_cons_inj c |>.2 ((ih s).1 ⟨t, hrest⟩)
    · rintro ⟨t, rfl⟩
      exact ⟨ofString ⟨t⟩, by rw [ofString_append]⟩

end Utf8

/-- `str::starts_with` compares bytes, and on checked text that is comparing characters: a
string starts with `p` exactly when its characters start with those of `p`. -/
theorem Str.startsWith_eq {s : Str} {m : String} (hm : Utf8.ofString m = s.bytes) (p : String) :
    s.startsWith p = p.data.isPrefixOf m.data := by
  rw [Bool.eq_iff_iff, Str.startsWith, List.isPrefixOf_iff_prefix, List.isPrefixOf_iff_prefix, ← hm]
  exact Utf8.ofString_prefix_iff p.data m.data

end RollupBoost
