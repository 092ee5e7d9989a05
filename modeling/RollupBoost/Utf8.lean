import Mathlib.Data.List.Basic

/-!
# Utf8 — bytes, UTF-8 and Rust strings

The proxy reads a request body as bytes, and `serde_json` hands the method back as a `&str`,
which Rust only builds from valid UTF-8. This module fixes the byte vocabulary the rest of the
model shares:

* `Utf8.encode`, the encoding of one scalar value, as `char::encode_utf8` writes it;
* `Utf8.valid`, the check `str::from_utf8` makes, as a machine run over the bytes;
* `Str`, bytes that passed the check, with `Str.startsWith` for `str::starts_with`.

The lemma the JSON layer needs is `run_encode_append`: the encoding of a scalar value takes the
machine from between characters back to between characters.
-/

namespace RollupBoost

/-- A byte string: `Vec<u8>`, `Bytes` or `&[u8]` in the source. -/
abbrev Bytes := List UInt8

/-- Equality of results is decidable, so that runs of the model can be checked by `decide`. -/
instance decEqExcept {ε α : Type} [DecidableEq ε] [DecidableEq α] : DecidableEq (Except ε α)
  | .ok a, .ok b => decidable_of_iff (a = b) ⟨congrArg _, Except.ok.inj⟩
  | .error a, .error b => decidable_of_iff (a = b) ⟨congrArg _, Except.error.inj⟩
  | .ok _, .error _ => isFalse Except.noConfusion
  | .error _, .ok _ => isFalse Except.noConfusion

@[simp] theorem toNat_toUInt8 (n : Nat) : n.toUInt8.toNat = n % 256 := rfl

theorem toNat_toUInt8_of_lt {n : Nat} (h : n < 256) : n.toUInt8.toNat = n := by
  simp [Nat.mod_eq_of_lt h]

namespace Utf8

/-- The UTF-8 encoding of the scalar value `n`, as `char::encode_utf8` writes it. -/
def encode (n : Nat) : Bytes :=
  if n < 0x80 then [n.toUInt8]
  else if n < 0x800 then [(0xC0 + n / 0x40).toUInt8, (0x80 + n % 0x40).toUInt8]
  else if n < 0x10000 then
    [(0xE0 + n / 0x1000).toUInt8, (0x80 + n / 0x40 % 0x40).toUInt8, (0x80 + n % 0x40).toUInt8]
  else
    [(0xF0 + n / 0x40000).toUInt8, (0x80 + n / 0x1000 % 0x40).toUInt8,
      (0x80 + n / 0x40 % 0x40).toUInt8, (0x80 + n % 0x40).toUInt8]

/-- The bytes of a string literal of the source, such as `"engine_"`. -/
def ofString (s : String) : Bytes := s.data.flatMap fun c => encode c.toNat

/-! ## The validating machine -/

/-- Where the check stands between two bytes: `cont n` still owes `n` continuation bytes
(`cont 0` is between characters); the other four owe one from a narrower range first. -/
inductive State
  | cont (n : Nat)
  | afterE0
  | afterED
  | afterF0
  | afterF4
  deriving DecidableEq, Repr

/-- The state after the first byte of a character, or none when no character starts with it. -/
def lead (b : UInt8) : Option State :=
  if b.toNat < 0x80 then some (.cont 0)
  else if 0xC2 ≤ b.toNat ∧ b.toNat ≤ 0xDF then some (.cont 1)
  else if b.toNat = 0xE0 then some .afterE0
  else if 0xE1 ≤ b.toNat ∧ b.toNat ≤ 0xEC then some (.cont 2)
  else if b.toNat = 0xED then some .afterED
  else if 0xEE ≤ b.toNat ∧ b.toNat ≤ 0xEF then some (.cont 2)
  else if b.toNat = 0xF0 then some .afterF0
  else if 0xF1 ≤ b.toNat ∧ b.toNat ≤ 0xF3 then some (.cont 3)
  else if b.toNat = 0xF4 then some .afterF4
  else none

/-- `next` when `lo ≤ b ≤ hi`, and a refusal otherwise. -/
def within (lo hi : Nat) (b : UInt8) (next : State) : Option State :=
  if lo ≤ b.toNat ∧ b.toNat ≤ hi then some next else none

/-- One byte of the check. -/
def step : State → UInt8 → Option State
  | .cont 0, b => lead b
  | .cont (n + 1), b => within 0x80 0xBF b (.cont n)
  | .afterE0, b => within 0xA0 0xBF b (.cont 1)
  | .afterED, b => within 0x80 0x9F b (.cont 1)
  | .afterF0, b => within 0x90 0xBF b (.cont 2)
  | .afterF4, b => within 0x80 0x8F b (.cont 2)

/-- The state after every byte, or none once one is refused. -/
def run : State → Bytes → Option State
  | s, [] => some s
  | s, b :: bs => (step s b).bind fun s' => run s' bs

/-- `str::from_utf8` succeeds: the bytes are whole characters of UTF-8. -/
def valid (bs : Bytes) : Bool := run (.cont 0) bs = some (.cont 0)

theorem run_append (s : State) (a b : Bytes) :
    run s (a ++ b) = (run s a).bind fun s' => run s' b := by
  induction a generalizing s with
  | nil => rfl
  | cons x a ih =>
    simp only [List.cons_append, run]
    cases step s x <;> simp [ih]

theorem valid_append {a b : Bytes} (ha : valid a) (hb : valid b) : valid (a ++ b) := by
  simp only [valid, decide_eq_true_eq] at *
  simp [run_append, ha, hb]

@[simp] theorem valid_nil : valid [] := rfl

theorem run_of_step (s : State) {s' : State} {b : UInt8} (h : step s b = some s') (bs : Bytes) :
    run s (b :: bs) = run s' bs := by
  simp [run, h]

theorem step_within {s : State} {lo hi : Nat} {b : UInt8} (h : lo ≤ b.toNat ∧ b.toNat ≤ hi) :
    within lo hi b s = some s := if_pos h

/-! ### One character at a time

`lead` is a chain of nine tests; each lemma below walks it with `rw` to the branch its
hypotheses select, which keeps every case linear for `omega`. -/

theorem run_cont_succ {n : Nat} {b : UInt8} (h : 0x80 ≤ b.toNat ∧ b.toNat ≤ 0xBF) (bs : Bytes) :
    run (.cont (n + 1)) (b :: bs) = run (.cont n) bs :=
  run_of_step (.cont (n + 1)) (step_within h) bs

theorem lead_three {x : UInt8} (h : 0xE0 ≤ x.toNat ∧ x.toNat ≤ 0xEF) :
    step (.cont 0) x = some (if x.toNat = 0xE0 then .afterE0
      else if x.toNat = 0xED then .afterED else .cont 2) := by
  rw [step, lead, if_neg (by omega), if_neg (by omega)]
  by_cases h₀ : x.toNat = 0xE0
  · rw [if_pos h₀, if_pos h₀]
  by_cases h₁ : 0xE1 ≤ x.toNat ∧ x.toNat ≤ 0xEC
  · rw [if_neg h₀, if_pos h₁, if_neg h₀, if_neg (by omega)]
  by_cases h₂ : x.toNat = 0xED
  · rw [if_neg h₀, if_neg h₁, if_pos h₂, if_neg h₀, if_pos h₂]
  · rw [if_neg h₀, if_neg h₁, if_neg h₂, if_pos (by omega), if_neg h₀, if_neg h₂]

theorem lead_four {x : UInt8} (h : 0xF0 ≤ x.toNat ∧ x.toNat ≤ 0xF4) :
    step (.cont 0) x = some (if x.toNat = 0xF0 then .afterF0
      else if x.toNat = 0xF4 then .afterF4 else .cont 3) := by
  rw [step, lead, if_neg (by omega), if_neg (by omega), if_neg (by omega), if_neg (by omega),
    if_neg (by omega), if_neg (by omega)]
  by_cases h₀ : x.toNat = 0xF0
  · rw [if_pos h₀, if_pos h₀]
  by_cases h₁ : 0xF1 ≤ x.toNat ∧ x.toNat ≤ 0xF3
  · rw [if_neg h₀, if_pos h₁, if_neg h₀, if_neg (by omega)]
  · rw [if_neg h₀, if_neg h₁, if_pos (by omega), if_neg h₀, if_pos (by omega)]

/-- An ASCII byte is a whole character. -/
theorem run_one {x : UInt8} (hx : x.toNat < 0x80) (r : Bytes) :
    run (.cont 0) (x :: r) = run (.cont 0) r :=
  run_of_step (.cont 0) (if_pos hx) r

theorem valid_cons_of_lt {x : UInt8} (hx : x.toNat < 0x80) (r : Bytes) :
    valid (x :: r) = valid r := by
  simp only [valid, run_one hx]

/-- A two-byte character: a lead in `C2..DF`, then a continuation byte. -/
theorem run_two {x y : UInt8} (hx : 0xC2 ≤ x.toNat ∧ x.toNat ≤ 0xDF)
    (hy : 0x80 ≤ y.toNat ∧ y.toNat ≤ 0xBF) (r : Bytes) :
    run (.cont 0) (x :: y :: r) = run (.cont 0) r := by
  have hl : step (.cont 0) x = some (.cont 1) := by rw [step, lead, if_neg (by omega), if_pos hx]
  rw [run_of_step _ hl, run_cont_succ hy]

/-- A three-byte character: a lead in `E0..EF`, then two continuation bytes, the first of them
narrowed after `E0` (no overlong form) and after `ED` (no surrogate). -/
theorem run_three {x y z : UInt8} (hx : 0xE0 ≤ x.toNat ∧ x.toNat ≤ 0xEF)
    (hy : 0x80 ≤ y.toNat ∧ y.toNat ≤ 0xBF) (hE0 : x.toNat = 0xE0 → 0xA0 ≤ y.toNat)
    (hED : x.toNat = 0xED → y.toNat ≤ 0x9F) (hz : 0x80 ≤ z.toNat ∧ z.toNat ≤ 0xBF) (r : Bytes) :
    run (.cont 0) (x :: y :: z :: r) = run (.cont 0) r := by
  rw [run_of_step _ (lead_three hx)]
  split_ifs with h₀ h₂
  · rw [run_of_step .afterE0 (step_within ⟨hE0 h₀, hy.2⟩), run_cont_succ hz]
  · rw [run_of_step .afterED (step_within ⟨hy.1, hED h₂⟩), run_cont_succ hz]
  · rw [run_cont_succ hy, run_cont_succ hz]

/-- A four-byte character: a lead in `F0..F4`, then three continuation bytes, the first of them
narrowed after `F0` (no overlong form) and after `F4` (nothing past `U+10FFFF`). -/
theorem run_four {x y z w : UInt8} (hx : 0xF0 ≤ x.toNat ∧ x.toNat ≤ 0xF4)
    (hy : 0x80 ≤ y.toNat ∧ y.toNat ≤ 0xBF) (hF0 : x.toNat = 0xF0 → 0x90 ≤ y.toNat)
    (hF4 : x.toNat = 0xF4 → y.toNat ≤ 0x8F) (hz : 0x80 ≤ z.toNat ∧ z.toNat ≤ 0xBF)
    (hw : 0x80 ≤ w.toNat ∧ w.toNat ≤ 0xBF) (r : Bytes) :
    run (.cont 0) (x :: y :: z :: w :: r) = run (.cont 0) r := by
  rw [run_of_step _ (lead_four hx)]
  split_ifs with h₀ h₄
  · rw [run_of_step .afterF0 (step_within ⟨hF0 h₀, hy.2⟩), run_cont_succ hz,
      run_cont_succ hw]
  · rw [run_of_step .afterF4 (step_within ⟨hy.1, hF4 h₄⟩), run_cont_succ hz,
      run_cont_succ hw]
  · rw [run_cont_succ hy, run_cont_succ hz, run_cont_succ hw]

/-- The encoding of a scalar value is one whole character. -/
theorem run_encode_append {n : Nat} (hn : n.isValidChar) (r : Bytes) :
    run (.cont 0) (encode n ++ r) = run (.cont 0) r := by
  unfold Nat.isValidChar at hn
  unfold encode
  split_ifs with h₁ h₂ h₃
  · exact run_one (by rw [toNat_toUInt8_of_lt (by omega)]; omega) r
  · exact run_two (by rw [toNat_toUInt8_of_lt (by omega)]; omega)
      (by rw [toNat_toUInt8_of_lt (by omega)]; omega) r
  · exact run_three (by rw [toNat_toUInt8_of_lt (by omega)]; omega)
      (by rw [toNat_toUInt8_of_lt (by omega)]; omega)
      (by rw [toNat_toUInt8_of_lt (by omega), toNat_toUInt8_of_lt (by omega)]; omega)
      (by rw [toNat_toUInt8_of_lt (by omega), toNat_toUInt8_of_lt (by omega)]; omega)
      (by rw [toNat_toUInt8_of_lt (by omega)]; omega) r
  · exact run_four (by rw [toNat_toUInt8_of_lt (by omega)]; omega)
      (by rw [toNat_toUInt8_of_lt (by omega)]; omega)
      (by rw [toNat_toUInt8_of_lt (by omega), toNat_toUInt8_of_lt (by omega)]; omega)
      (by rw [toNat_toUInt8_of_lt (by omega), toNat_toUInt8_of_lt (by omega)]; omega)
      (by rw [toNat_toUInt8_of_lt (by omega)]; omega)
      (by rw [toNat_toUInt8_of_lt (by omega)]; omega) r

theorem valid_encode {n : Nat} (hn : n.isValidChar) : valid (encode n) := by
  simpa [valid] using run_encode_append hn []

theorem encode_ne_nil (n : Nat) : encode n ≠ [] := by
  unfold encode; split_ifs <;> simp

theorem encode_of_lt {n : Nat} (h : n < 0x80) : encode n = [n.toUInt8] := by
  simp [encode, h]

/-- Every byte of a multi-byte encoding is at least `0x80`: none of them is ASCII. -/
theorem le_toNat_of_mem_encode {n : Nat} (hn : 0x80 ≤ n) (h : n < 0x110000) {b : UInt8}
    (hb : b ∈ encode n) : 0x80 ≤ b.toNat := by
  unfold encode at hb
  split_ifs at hb <;>
    simp only [List.mem_cons, List.mem_singleton, List.not_mem_nil, or_false] at hb <;>
    rcases hb with rfl | rfl | rfl | rfl <;>
    rw [toNat_toUInt8_of_lt (by omega)] <;> omega

end Utf8

/-! ## Rust strings -/

/-- A Rust `str`: bytes that `str::from_utf8` accepts. -/
structure Str where
  bytes : Bytes
  valid : Utf8.valid bytes = true
  deriving DecidableEq

/-- `str::starts_with` with a string-literal pattern: a byte prefix. -/
def Str.startsWith (s : Str) (p : String) : Bool := (Utf8.ofString p).isPrefixOf s.bytes

end RollupBoost
