import RollupBoost.Json.Syntax
import RollupBoost.Json.RpcRequest

/-!
# Json.Complete — what the grammar writes, `serde_json` reads

Each lemma here takes a piece of the tree of `Json.Syntax`, writes it with `render`, puts any
input after it, and says what the reader of `Json.Read` does with the result: it reads exactly
the piece and leaves the rest. The leaves come first (whitespace, strings, numbers), then the
values, which are nested, by recursion on the tree.

A number has no end marker, so the lemmas about values ask that what follows cannot continue
one (`NumberEnd`): in a text it is whitespace, `,`, `]`, `}` or the end of the input.
-/

namespace RollupBoost
namespace Json

open SerdeJson

/-! ## Whitespace -/

theorem parseWhitespace_ws_append (w : Ws) (r : Bytes) :
    parseWhitespace (w.bytes ++ r) = parseWhitespace r := by
  obtain ⟨bs, h⟩ := w
  induction bs with
  | nil => rfl
  | cons b bs ih =>
    simp only [List.cons_append, parseWhitespace, List.dropWhile_cons, h b (by simp), if_true]
    exact ih fun x hx => h x (by simp [hx])

theorem parseWhitespace_of_not_ws {b : UInt8} (h : isWs b = false) (r : Bytes) :
    parseWhitespace (b :: r) = b :: r := by
  simp [parseWhitespace, List.dropWhile_cons, h]

theorem parseWhitespace_ws_cons (w : Ws) {b : UInt8} (h : isWs b = false) (r : Bytes) :
    parseWhitespace (w.bytes ++ b :: r) = b :: r := by
  rw [parseWhitespace_ws_append, parseWhitespace_of_not_ws h]

/-! ## Strings -/

/-- A byte a string may hold as itself: not a control byte, a quote or a backslash. -/
def Plain (b : UInt8) : Prop := 0x20 ≤ b.toNat ∧ b.toNat ≠ 0x22 ∧ b.toNat ≠ 0x5C

instance decidablePlain (b : UInt8) : Decidable (Plain b) := inferInstanceAs (Decidable (_ ∧ _ ∧ _))

theorem Unescaped.toNat_ne (c : Unescaped) {d : Char} (hne : c.char ≠ d) :
    c.char.toNat ≠ d.toNat := fun h =>
  hne (by rw [← Char.ofNat_toNat c.char, h, Char.ofNat_toNat])

/-- The bytes of an unescaped character are all plain: an ASCII one is itself, and every byte
of a longer encoding is at least `0x80`. -/
theorem plain_of_mem_encode (c : Unescaped) {b : UInt8} (hb : b ∈ Utf8.encode c.char.toNat) :
    Plain b := by
  have hq : c.char.toNat ≠ 0x22 := c.toNat_ne c.not_quote
  have hs : c.char.toNat ≠ 0x5C := c.toNat_ne c.not_backslash
  have hc := c.not_control
  by_cases h : c.char.toNat < 0x80
  · rw [Utf8.encode_of_lt h, List.mem_singleton] at hb
    subst hb
    unfold Plain
    rw [toNat_toUInt8_of_lt (by omega)]
    exact ⟨hc, hq, hs⟩
  · have hv := c.char.valid
    unfold Nat.isValidChar at hv
    have := Utf8.le_toNat_of_mem_encode (by omega) (by simp only [Char.toNat]; omega) hb
    exact ⟨by omega, by omega, by omega⟩

/-! ### The lenient scan -/

theorem ignoreStrFrom_quote (r : Bytes) : ignoreStrFrom .text (0x22 :: r) = .ok r := by
  rw [ignoreStrFrom]; rfl

theorem ignoreStrFrom_backslash (r : Bytes) :
    ignoreStrFrom .text (0x5C :: r) = ignoreStrFrom .escape r := by
  rw [ignoreStrFrom]; rfl

theorem ignoreStrFrom_plain {b : UInt8} (h : Plain b) (r : Bytes) :
    ignoreStrFrom .text (b :: r) = ignoreStrFrom .text r := by
  obtain ⟨h₁, h₂, h₃⟩ := h
  rw [ignoreStrFrom, if_neg h₂, if_neg h₃, if_neg (by omega)]

theorem ignoreStrFrom_plain_append {bs : Bytes} (h : ∀ b ∈ bs, Plain b) (r : Bytes) :
    ignoreStrFrom .text (bs ++ r) = ignoreStrFrom .text r := by
  induction bs with
  | nil => rfl
  | cons b bs ih =>
    rw [List.cons_append, ignoreStrFrom_plain (h b (List.mem_cons_self _ _))]
    exact ih fun x hx => h x (List.mem_cons_of_mem _ hx)

theorem ignoreStrFrom_u {r : Bytes} (h : 4 ≤ r.length) :
    ignoreStrFrom .escape (0x75 :: r) = ignoreStrFrom (.hex 0) r := by
  rw [ignoreStrFrom, if_neg (by decide), if_pos (by decide), if_neg (by omega)]

theorem ignoreStrFrom_hex (h : HexDigit) (k : Nat) (r : Bytes) :
    ignoreStrFrom (.hex k) (h.byte :: r) =
      if k < 3 then ignoreStrFrom (.hex (k + 1)) r else ignoreStrFrom .text r := by
  rw [ignoreStrFrom, if_pos h.is_hex]

theorem ignoreStrFrom_unicode (h₁ h₂ h₃ h₄ : HexDigit) (r : Bytes) :
    ignoreStrFrom .text ((StrPiece.unicode h₁ h₂ h₃ h₄).render ++ r) = ignoreStrFrom .text r := by
  simp only [StrPiece.render, List.cons_append, List.nil_append, ignoreStrFrom_backslash]
  rw [ignoreStrFrom_u (by simp)]
  simp only [ignoreStrFrom_hex, Nat.reduceAdd, Nat.reduceLT, ite_true, ite_false]

/-- `ignore_str` reads a string literal's text up to and with its closing quote. -/
theorem ignoreStr_body (s : StrLit) (r : Bytes) : ignoreStr (s.body ++ 0x22 :: r) = .ok r := by
  unfold ignoreStr
  induction s with
  | nil => exact ignoreStrFrom_quote r
  | cons p ps ih =>
    rw [StrLit.body, List.flatMap_cons, List.append_assoc]
    cases p with
    | char c =>
      rw [StrPiece.render, ignoreStrFrom_plain_append (fun b hb => plain_of_mem_encode c hb)]
      exact ih
    | escape e =>
      rw [StrPiece.render, List.cons_append, List.cons_append, List.nil_append,
        ignoreStrFrom_backslash, ignoreStrFrom, if_pos e.is_escape]
      exact ih
    | unicode h₁ h₂ h₃ h₄ => rw [ignoreStrFrom_unicode]; exact ih

/-! ### The strict reading -/

theorem HexDigit.hexVal_eq (h : HexDigit) : hexVal h.byte = some h.val :=
  (Option.some_get h.is_hex).symm

theorem EscapeLetter.simpleEscape_eq (e : EscapeLetter) : simpleEscape e.byte = some e.decoded :=
  (Option.some_get e.is_escape).symm

theorem parseStrFrom_quote (r : Bytes) : parseStrFrom .text (0x22 :: r) = .ok (false, [], r) := by
  rw [parseStrFrom]; rfl

theorem parseStrFrom_backslash (r : Bytes) :
    parseStrFrom .text (0x5C :: r) = parseStrFrom .escape r := by
  rw [parseStrFrom]; rfl

theorem parseStrFrom_plain {b : UInt8} (h : Plain b) (r : Bytes) :
    parseStrFrom .text (b :: r) = plainCons b (parseStrFrom .text r) := by
  obtain ⟨h₁, h₂, h₃⟩ := h
  rw [parseStrFrom, if_neg h₂, if_neg h₃, if_neg (by omega)]

theorem parseStrFrom_plain_append {bs : Bytes} (h : ∀ b ∈ bs, Plain b) {x : Bytes}
    {esc : Bool} {s r : Bytes} (hx : parseStrFrom .text x = .ok (esc, s, r)) :
    parseStrFrom .text (bs ++ x) = .ok (esc, bs ++ s, r) := by
  induction bs with
  | nil => exact hx
  | cons b bs ih =>
    rw [List.cons_append, parseStrFrom_plain (h b (List.mem_cons_self _ _)),
      ih fun y hy => h y (List.mem_cons_of_mem _ hy)]
    rfl

theorem parseStrFrom_u {r : Bytes} (h : 4 ≤ r.length) :
    parseStrFrom .escape (0x75 :: r) = parseStrFrom (.hex 0 0) r := by
  rw [parseStrFrom]
  simp only [show simpleEscape 0x75 = none by decide]
  rw [if_pos (by decide), if_neg (by omega)]

theorem parseStrFrom_hex (h : HexDigit) (k acc : Nat) (r : Bytes) :
    parseStrFrom (.hex k acc) (h.byte :: r) =
      if k < 3 then parseStrFrom (.hex (k + 1) (acc * 16 + h.val)) r
      else if 0xDC00 ≤ acc * 16 + h.val ∧ acc * 16 + h.val ≤ 0xDFFF then
        .error .loneLeadingSurrogateInHexEscape
      else if acc * 16 + h.val < 0xD800 ∨ 0xDBFF < acc * 16 + h.val then
        escaped (Utf8.encode (acc * 16 + h.val)) (parseStrFrom .text r)
      else parseStrFrom (.high (acc * 16 + h.val)) r := by
  rw [parseStrFrom, HexDigit.hexVal_eq]

theorem parseStrFrom_low (h : HexDigit) (hi k acc : Nat) (r : Bytes) :
    parseStrFrom (.low hi k acc) (h.byte :: r) =
      if k < 3 then parseStrFrom (.low hi (k + 1) (acc * 16 + h.val)) r
      else if 0xDC00 ≤ acc * 16 + h.val ∧ acc * 16 + h.val ≤ 0xDFFF then
        escaped (Utf8.encode ((hi - 0xD800) * 0x400 + (acc * 16 + h.val - 0xDC00) + 0x10000))
          (parseStrFrom .text r)
      else .error .loneLeadingSurrogateInHexEscape := by
  rw [parseStrFrom, HexDigit.hexVal_eq]

/-- A `\u` escape: refused when it spells a trailing surrogate, the start of a pair when it
spells a leading one, and one character otherwise. -/
theorem parseStrFrom_unicode (h₁ h₂ h₃ h₄ : HexDigit) (r : Bytes) :
    parseStrFrom .text ((StrPiece.unicode h₁ h₂ h₃ h₄).render ++ r) =
      if IsTrailing (codeUnit h₁ h₂ h₃ h₄) then .error .loneLeadingSurrogateInHexEscape
      else if IsLeading (codeUnit h₁ h₂ h₃ h₄) then parseStrFrom (.high (codeUnit h₁ h₂ h₃ h₄)) r
      else escaped (Utf8.encode (codeUnit h₁ h₂ h₃ h₄)) (parseStrFrom .text r) := by
  simp only [StrPiece.render, List.cons_append, List.nil_append, parseStrFrom_backslash]
  rw [parseStrFrom_u (by simp)]
  simp only [parseStrFrom_hex, Nat.reduceAdd, Nat.reduceLT, ite_true, ite_false, Nat.zero_mul,
    Nat.zero_add, ← codeUnit.eq_1, IsTrailing, IsLeading]
  by_cases ht : 0xDC00 ≤ codeUnit h₁ h₂ h₃ h₄ ∧ codeUnit h₁ h₂ h₃ h₄ ≤ 0xDFFF
  · rw [if_pos ht, if_pos ht]
  · rw [if_neg ht, if_neg ht]
    by_cases hl : 0xD800 ≤ codeUnit h₁ h₂ h₃ h₄ ∧ codeUnit h₁ h₂ h₃ h₄ ≤ 0xDBFF
    · rw [if_neg (by omega), if_pos hl]
    · rw [if_pos (by omega), if_neg hl]

/-- After a leading surrogate, the escape of a trailing one completes the pair. -/
theorem parseStrFrom_high_unicode (hi : Nat) (l₁ l₂ l₃ l₄ : HexDigit) (r : Bytes) :
    parseStrFrom (.high hi) ((StrPiece.unicode l₁ l₂ l₃ l₄).render ++ r) =
      if IsTrailing (codeUnit l₁ l₂ l₃ l₄) then
        escaped (Utf8.encode (pairValue hi (codeUnit l₁ l₂ l₃ l₄))) (parseStrFrom .text r)
      else .error .loneLeadingSurrogateInHexEscape := by
  simp only [StrPiece.render, List.cons_append, List.nil_append]
  rw [parseStrFrom, if_pos (by decide), parseStrFrom, if_pos (by decide), if_neg (by simp)]
  simp only [parseStrFrom_low, Nat.reduceAdd, Nat.reduceLT, ite_true, ite_false, Nat.zero_mul,
    Nat.zero_add, ← codeUnit.eq_1, IsTrailing, pairValue]

/-- The state of `parse_str_bytes` between two pieces, when `p` is the leading surrogate it
holds, as `StrLit.decode` holds it. -/
def pendingState : Option Nat → StrState
  | none => .text
  | some hi => .high hi

/-- Reading a string literal with `parse_str_bytes` gives the bytes it stands for, and says it
unescaped something exactly when the literal has an escape. -/
theorem parseStrFrom_decode {s : StrLit} {p : Option Nat} {v : Bytes} (hv : s.decode p = some v)
    (r : Bytes) :
    parseStrFrom (pendingState p) (s.body ++ 0x22 :: r) = .ok (p.isSome || s.plain.isNone, v, r) := by
  induction s generalizing p v with
  | nil =>
    cases p with
    | none =>
      simp only [StrLit.decode, Option.some.injEq] at hv
      exact hv ▸ parseStrFrom_quote r
    | some hi => simp [StrLit.decode] at hv
  | cons piece ps ih =>
    rw [StrLit.body, List.flatMap_cons, List.append_assoc]
    cases p with
    | none =>
      cases piece with
      | char c =>
        simp only [StrLit.decode, Option.map_eq_map, Option.map_eq_some'] at hv
        obtain ⟨v', hv', rfl⟩ := hv
        have h := ih hv'
        simp only [StrLit.body, pendingState] at h
        rw [StrPiece.render, pendingState, parseStrFrom_plain_append (fun _ => plain_of_mem_encode c) h]
        cases h : StrLit.plain ps <;> simp [StrLit.plain, h]
      | escape e =>
        simp only [StrLit.decode, Option.map_eq_map, Option.map_eq_some'] at hv
        obtain ⟨v', hv', rfl⟩ := hv
        rw [StrPiece.render, List.cons_append, List.cons_append, List.nil_append, pendingState,
          parseStrFrom_backslash, parseStrFrom, EscapeLetter.simpleEscape_eq]
        have h := ih hv'
        simp only [StrLit.body, pendingState] at h
        simp only [h, escaped, List.singleton_append, StrLit.plain]
        rfl
      | unicode h₁ h₂ h₃ h₄ =>
        simp only [StrLit.decode] at hv
        rw [pendingState, parseStrFrom_unicode]
        by_cases ht : IsTrailing (codeUnit h₁ h₂ h₃ h₄)
        · simp [ht] at hv
        rw [if_neg ht] at hv ⊢
        by_cases hl : IsLeading (codeUnit h₁ h₂ h₃ h₄)
        · rw [if_pos hl] at hv ⊢
          exact ih hv
        · simp only [if_neg hl, Option.map_eq_map, Option.map_eq_some'] at hv ⊢
          obtain ⟨v', hv', rfl⟩ := hv
          have h := ih hv'
          simp only [StrLit.body, pendingState] at h
          simp only [h, escaped]
          rfl
    | some hi =>
      cases piece with
      | char c => simp [StrLit.decode] at hv
      | escape e => simp [StrLit.decode] at hv
      | unicode l₁ l₂ l₃ l₄ =>
        simp only [StrLit.decode] at hv
        rw [pendingState, parseStrFrom_high_unicode]
        by_cases ht : IsTrailing (codeUnit l₁ l₂ l₃ l₄)
        · simp only [if_pos ht, Option.map_eq_map, Option.map_eq_some'] at hv ⊢
          obtain ⟨v', hv', rfl⟩ := hv
          have h := ih hv'
          simp only [StrLit.body, pendingState] at h
          simp only [h, escaped]
          rfl
        · simp [ht] at hv

theorem hexVal_lt {b : UInt8} {v : Nat} (h : hexVal b = some v) : v < 16 := by
  unfold hexVal at h
  split_ifs at h <;> simp only [Option.some.injEq, reduceCtorEq] at h <;> omega

theorem codeUnit_lt (a b c d : HexDigit) : codeUnit a b c d < 0x10000 := by
  have := hexVal_lt a.hexVal_eq
  have := hexVal_lt b.hexVal_eq
  have := hexVal_lt c.hexVal_eq
  have := hexVal_lt d.hexVal_eq
  unfold codeUnit
  omega

theorem simpleEscape_lt {b d : UInt8} (h : simpleEscape b = some d) : d.toNat < 0x80 := by
  obtain ⟨e, he, rfl⟩ := Option.map_eq_some'.1 h
  exact (by decide : ∀ e ∈ escapeTable, e.2.toNat < 0x80) e (List.mem_of_find?_eq_some he)

/-- What a string literal stands for is UTF-8: an unescaped character is one, a two-letter
escape an ASCII byte, and a `\u` escape or a pair of them a scalar value. -/
theorem StrLit.decode_valid {s : StrLit} {p : Option Nat} (hp : ∀ hi ∈ p, IsLeading hi)
    {v : Bytes} (hv : s.decode p = some v) : Utf8.valid v := by
  induction s generalizing p v with
  | nil =>
    cases p with
    | none =>
      simp only [StrLit.decode, Option.some.injEq] at hv
      exact hv ▸ Utf8.valid_nil
    | some hi => simp [StrLit.decode] at hv
  | cons piece ps ih =>
    cases p with
    | none =>
      cases piece with
      | char c =>
        simp only [StrLit.decode, Option.map_eq_map, Option.map_eq_some'] at hv
        obtain ⟨v', hv', rfl⟩ := hv
        exact Utf8.valid_append (Utf8.valid_encode c.char.valid) (ih (by simp) hv')
      | escape e =>
        simp only [StrLit.decode, Option.map_eq_map, Option.map_eq_some'] at hv
        obtain ⟨v', hv', rfl⟩ := hv
        rw [Utf8.valid_cons_of_lt (simpleEscape_lt e.simpleEscape_eq)]
        exact ih (by simp) hv'
      | unicode h₁ h₂ h₃ h₄ =>
        have hlt := codeUnit_lt h₁ h₂ h₃ h₄
        simp only [StrLit.decode] at hv
        split_ifs at hv with ht hl
        · exact ih (fun _ h => Option.some.inj h ▸ hl) hv
        · simp only [Option.map_eq_map, Option.map_eq_some'] at hv
          obtain ⟨v', hv', rfl⟩ := hv
          refine Utf8.valid_append (Utf8.valid_encode ?_) (ih (by simp) hv')
          simp only [IsTrailing, IsLeading] at ht hl
          unfold Nat.isValidChar
          omega
    | some hi =>
      cases piece with
      | char c => simp [StrLit.decode] at hv
      | escape e => simp [StrLit.decode] at hv
      | unicode l₁ l₂ l₃ l₄ =>
        have hhi : IsLeading hi := hp hi rfl
        simp only [StrLit.decode] at hv
        split_ifs at hv with ht
        simp only [Option.map_eq_map, Option.map_eq_some'] at hv
        obtain ⟨v', hv', rfl⟩ := hv
        refine Utf8.valid_append (Utf8.valid_encode ?_) (ih (by simp) hv')
        simp only [IsTrailing, IsLeading] at ht hhi
        unfold Nat.isValidChar pairValue
        omega

/-- `parse_str` reads a string literal whose surrogates are paired: borrowed from the input when
it has no escape, copied when it has one, and in both cases the bytes it stands for. -/
theorem parseStr_of_value {s : StrLit} {v : Bytes} (hv : s.value = some v) (r : Bytes) :
    ∃ h : Utf8.valid v, parseStr (s.body ++ 0x22 :: r) =
      .ok (if s.plain.isNone then .copied ⟨v, h⟩ else .borrowed ⟨v, h⟩, r) := by
  have hd : s.decode none = some v := hv
  have hval := StrLit.decode_valid (fun _ h => absurd h (by simp)) hd
  refine ⟨hval, ?_⟩
  rw [parseStr, parseStrBytes]
  have := parseStrFrom_decode hd r
  simp only [pendingState, Option.isSome_none, Bool.false_or] at this
  simp only [this, dif_pos hval]

theorem StrLit.value_of_plain {s : StrLit} {cs : List Char} (h : s.plain = some cs) :
    s.value = some (Utf8.ofString ⟨cs⟩) := by
  induction s generalizing cs with
  | nil =>
    simp only [StrLit.plain, Option.some.injEq] at h
    subst h; rfl
  | cons piece ps ih =>
    cases piece with
    | char c =>
      simp only [StrLit.plain, Option.map_eq_map, Option.map_eq_some'] at h
      obtain ⟨cs', h', rfl⟩ := h
      have := ih h'
      simp only [StrLit.value] at this ⊢
      simp only [StrLit.decode, this]
      rfl
    | escape e => simp [StrLit.plain] at h
    | unicode h₁ h₂ h₃ h₄ => simp [StrLit.plain] at h

theorem StrLit.plain_ofPlain (cs : List Char) (h : ∀ c ∈ cs, 0x20 ≤ c.toNat ∧ c ≠ '"' ∧ c ≠ '\\') :
    (StrLit.ofPlain cs h).plain = some cs := by
  induction cs with
  | nil => rfl
  | cons c cs ih => simp [StrLit.ofPlain, StrLit.plain, ih]

/-! ## Numbers -/

/-- What may follow a number in a text: the end of the input, or a byte that cannot continue
it. Whitespace, `,`, `]` and `}` are such bytes. -/
def NumberEnd (r : Bytes) : Prop :=
  ∀ b ∈ r.head?, isDigit b = false ∧ b.toNat ≠ 0x2E ∧ b.toNat ≠ 0x65 ∧ b.toNat ≠ 0x45

/-- No digit comes next. -/
def NoDigit (r : Bytes) : Prop := ∀ b ∈ r.head?, isDigit b = false

theorem isDigit_iff {b : UInt8} : isDigit b = true ↔ 0x30 ≤ b.toNat ∧ b.toNat ≤ 0x39 := by
  simp [isDigit]

theorem isDigit_eq_false {b : UInt8} (h : b.toNat < 0x30 ∨ 0x39 < b.toNat) : isDigit b = false := by
  simp only [isDigit, Bool.and_eq_false_iff, decide_eq_false_iff_not]
  omega

theorem NumberEnd.cons {b : UInt8} (h : (b.toNat < 0x30 ∨ 0x39 < b.toNat) ∧ b.toNat ≠ 0x2E ∧
    b.toNat ≠ 0x65 ∧ b.toNat ≠ 0x45) (r : Bytes) : NumberEnd (b :: r) := by
  intro c hc
  simp only [List.head?_cons, Option.mem_def, Option.some.injEq] at hc
  subst hc
  exact ⟨isDigit_eq_false h.1, h.2⟩

theorem NumberEnd.comma (r : Bytes) : NumberEnd (0x2C :: r) := NumberEnd.cons (by decide) r

theorem NumberEnd.rbracket (r : Bytes) : NumberEnd (0x5D :: r) := NumberEnd.cons (by decide) r

theorem NumberEnd.rbrace (r : Bytes) : NumberEnd (0x7D :: r) := NumberEnd.cons (by decide) r

theorem NoDigit.cons {b : UInt8} (h : b.toNat < 0x30 ∨ 0x39 < b.toNat) (r : Bytes) :
    NoDigit (b :: r) := by
  intro c hc
  simp only [List.head?_cons, Option.mem_def, Option.some.injEq] at hc
  exact hc ▸ isDigit_eq_false h

theorem NumberEnd.noDigit {r : Bytes} (h : NumberEnd r) : NoDigit r := fun b hb => (h b hb).1

theorem NumberEnd.ws_append (w : Ws) {r : Bytes} (h : NumberEnd r) : NumberEnd (w.bytes ++ r) := by
  obtain ⟨bs, hw⟩ := w
  cases bs with
  | nil => exact h
  | cons b bs =>
    have := hw b (List.mem_cons_self _ _)
    simp only [isWs, Bool.or_eq_true, decide_eq_true_eq] at this
    exact NumberEnd.cons (by omega) _

theorem NoDigit.peek {r : Bytes} (h : NoDigit r) : isDigit (peekOrNull r) = false := by
  cases r with
  | nil => rfl
  | cons b t => exact h b rfl

theorem dropWhile_digits (ds : List Digit) {r : Bytes} (h : NoDigit r) :
    (ds.map Digit.byte ++ r).dropWhile isDigit = r := by
  induction ds with
  | nil =>
    rcases r with _ | ⟨b, r⟩
    · rfl
    · simp [List.dropWhile_cons, h b rfl]
  | cons d ds ih => simp [List.dropWhile_cons, d.is_digit, ih]

section
variable (eof : ErrorCode)

theorem exponentWith_render (e : Exponent) {r : Bytes} (hr : NoDigit r) :
    exponentWith eof (signRender e.sign ++ (e.first.byte :: e.rest.map Digit.byte ++ r)) = .ok r := by
  have hd := isDigit_iff.1 e.first.is_digit
  have hs : ¬(e.first.byte.toNat = 0x2B ∨ e.first.byte.toNat = 0x2D) := by omega
  rcases e with ⟨_, _ | _ | _, first, rest⟩ <;>
    simp [exponentWith, signRender, hs, first.is_digit, dropWhile_digits rest hr]

theorem letter_toNat (upper : Bool) :
    (if upper then (0x45 : UInt8) else 0x65).toNat = 0x45 ∨
      (if upper then (0x45 : UInt8) else 0x65).toNat = 0x65 := by
  cases upper <;> decide

theorem NoDigit.exp (x : Option Exponent) {r : Bytes} (hr : NoDigit r) :
    NoDigit (expRender x ++ r) := by
  rcases x with _ | e
  · exact hr
  · have hl := letter_toNat e.upper
    rw [expRender, Exponent.render, List.cons_append]
    exact NoDigit.cons (by omega) _

theorem NoDigit.frac (f : Option (Digit × List Digit)) (x : Option Exponent) {r : Bytes}
    (hr : NoDigit r) : NoDigit (fracRender f ++ (expRender x ++ r)) := by
  rcases f with _ | ⟨d, ds⟩
  · exact NoDigit.exp x hr
  · exact NoDigit.cons (by decide) _

theorem exponentOptWith_render (x : Option Exponent) {r : Bytes} (hr : NumberEnd r) :
    exponentOptWith eof (expRender x ++ r) = .ok r := by
  rcases x with _ | e
  · rcases r with _ | ⟨b, r⟩
    · rfl
    · have := hr b rfl
      rw [expRender, List.nil_append, exponentOptWith, if_neg (by omega)]
  · have hl := letter_toNat e.upper
    rw [expRender, Exponent.render, List.cons_append, exponentOptWith, if_pos (by omega),
      List.append_assoc]
    exact exponentWith_render eof e hr.noDigit

theorem fractionWith_render (f : Option (Digit × List Digit)) (x : Option Exponent) {r : Bytes}
    (hr : NumberEnd r) : fractionWith eof (fracRender f ++ (expRender x ++ r)) = .ok r := by
  rcases f with _ | ⟨d, ds⟩
  · rcases x with _ | e
    · rcases r with _ | ⟨b, r⟩
      · rfl
      · have := hr b rfl
        rw [fracRender, expRender, List.nil_append, List.nil_append, fractionWith,
          if_neg (by omega), if_neg (by omega)]
    · have hl := letter_toNat e.upper
      rw [fracRender, expRender, Exponent.render, List.nil_append, List.cons_append, fractionWith,
        if_neg (by omega), if_pos (by omega), List.append_assoc]
      exact exponentWith_render eof e hr.noDigit
  · rw [fracRender, List.cons_append, List.cons_append, fractionWith, if_pos (by decide),
      decimalWith, if_pos d.is_digit, dropWhile_digits ds (NoDigit.exp x hr.noDigit)]
    exact exponentOptWith_render eof x hr

/-- The text of a number without its sign, before a byte that can end it, is read to its end by
`ignore_integer` and by `parse_integer`. -/
theorem integerWith_render (i : IntPart) (f : Option (Digit × List Digit)) (x : Option Exponent)
    {r : Bytes} (hr : NumberEnd r) :
    integerWith eof (i.render ++ (fracRender f ++ (expRender x ++ r))) = .ok r := by
  have hn := NoDigit.frac f x hr.noDigit
  rcases i with _ | ⟨d, hd, ds⟩
  · rw [IntPart.render, List.cons_append, List.nil_append, integerWith, if_pos (by decide),
      if_neg (by simp [hn.peek])]
    exact fractionWith_render eof f x hr
  · have hdig := isDigit_iff.1 d.is_digit
    rw [IntPart.render, List.cons_append, integerWith, if_neg hd, if_pos d.is_digit,
      dropWhile_digits ds hn]
    exact fractionWith_render eof f x hr

end

/-! ## Values -/

/-! ### One step of `ignore_value` -/

section
variable (n : Nat) (r : Bytes)

theorem ignoreValue_ws (w : Ws) (x : Bytes) : ignoreValue n (w.bytes ++ x) = ignoreValue n x := by
  cases n with
  | zero => rfl
  | succ n => rw [ignoreValue, ignoreValue, parseWhitespace_ws_append]

theorem ignoreValue_null : ignoreValue (n + 1) (Value.null.render ++ r) = .ok r := by
  rw [ignoreValue]; rfl

theorem ignoreValue_true : ignoreValue (n + 1) ((Value.bool true).render ++ r) = .ok r := by
  rw [ignoreValue]; rfl

theorem ignoreValue_false : ignoreValue (n + 1) ((Value.bool false).render ++ r) = .ok r := by
  rw [ignoreValue]; rfl

theorem ignoreValue_quote : ignoreValue (n + 1) (0x22 :: r) = ignoreStr r := by
  rw [ignoreValue]; rfl

theorem ignoreValue_minus : ignoreValue (n + 1) (0x2D :: r) = ignoreInteger r := by
  rw [ignoreValue]; rfl

theorem ignoreValue_digit {b : UInt8} (hb : isDigit b = true) :
    ignoreValue (n + 1) (b :: r) = ignoreInteger (b :: r) := by
  have h := isDigit_iff.1 hb
  rw [ignoreValue, parseWhitespace_of_not_ws (by simp [isWs]; omega)]
  simp only
  rw [if_neg (by omega), if_neg (by omega), if_neg (by omega), if_neg (by omega), if_pos hb]

theorem ignoreValue_emptyArray (w : Ws) :
    ignoreValue (n + 1) (0x5B :: w.bytes ++ 0x5D :: r) = .ok r := by
  rw [ignoreValue]
  simp only [List.cons_append, parseWhitespace_of_not_ws (by decide : isWs 0x5B = false), parseWhitespace_ws_cons w
    (by decide : isWs 0x5D = false)]
  rfl

theorem ignoreValue_array {x : Bytes} {c : UInt8} {t : Bytes} (hx : parseWhitespace x = c :: t)
    (hc : c.toNat ≠ 0x5D) :
    ignoreValue (n + 1) (0x5B :: x) =
      match ignoreValue n x with
      | .ok r => ignoreSeqTail n r
      | .error e => .error e := by
  rw [ignoreValue]
  simp only [parseWhitespace_of_not_ws (by decide : isWs 0x5B = false)]
  rw [if_neg (by decide), if_neg (by decide), if_neg (by decide), if_neg (by decide),
    if_neg (by decide), if_neg (by decide), if_pos (by decide), hx]
  exact if_neg hc

theorem ignoreValue_emptyObject (w : Ws) :
    ignoreValue (n + 1) (0x7B :: w.bytes ++ 0x7D :: r) = .ok r := by
  rw [ignoreValue]
  simp only [List.cons_append, parseWhitespace_of_not_ws (by decide : isWs 0x7B = false), parseWhitespace_ws_cons w
    (by decide : isWs 0x7D = false)]
  rfl

theorem ignoreValue_object {x : Bytes} {c : UInt8} {t : Bytes} (hx : parseWhitespace x = c :: t)
    (hc : c.toNat ≠ 0x7D) : ignoreValue (n + 1) (0x7B :: x) = ignoreMember n x := by
  rw [ignoreValue]
  simp only [parseWhitespace_of_not_ws (by decide : isWs 0x7B = false)]
  rw [if_neg (by decide), if_neg (by decide), if_neg (by decide), if_neg (by decide),
    if_neg (by decide), if_neg (by decide), if_neg (by decide), if_pos (by decide), hx]
  simp only [if_neg hc]

theorem ignoreSeqTail_close (w : Ws) : ignoreSeqTail (n + 1) (w.bytes ++ 0x5D :: r) = .ok r := by
  rw [ignoreSeqTail, parseWhitespace_ws_cons w (by decide : isWs 0x5D = false)]; rfl

theorem ignoreSeqTail_comma (w : Ws) (x : Bytes) :
    ignoreSeqTail (n + 1) (w.bytes ++ 0x2C :: x) =
      match ignoreValue n x with
      | .ok r => ignoreSeqTail n r
      | .error e => .error e := by
  rw [ignoreSeqTail, parseWhitespace_ws_cons w (by decide : isWs 0x2C = false)]; rfl

theorem ignoreMapTail_close (w : Ws) : ignoreMapTail (n + 1) (w.bytes ++ 0x7D :: r) = .ok r := by
  rw [ignoreMapTail, parseWhitespace_ws_cons w (by decide : isWs 0x7D = false)]; rfl

theorem ignoreMapTail_comma (w : Ws) (x : Bytes) :
    ignoreMapTail (n + 1) (w.bytes ++ 0x2C :: x) = ignoreMember n x := by
  rw [ignoreMapTail, parseWhitespace_ws_cons w (by decide : isWs 0x2C = false)]; rfl

end

/-! ### Where a value starts -/

theorem Number.render_cons (num : Number) :
    ∃ b t, num.render = b :: t ∧ (b.toNat = 0x2D ∨ isDigit b = true) := by
  rcases num with ⟨_ | _, _ | ⟨d, _, _⟩, _, _⟩
  · exact ⟨0x30, _, rfl, .inr rfl⟩
  · exact ⟨d.byte, _, rfl, .inr d.is_digit⟩
  · exact ⟨0x2D, _, rfl, .inl rfl⟩
  · exact ⟨0x2D, _, rfl, .inl rfl⟩

/-- A value's text starts with a byte that is not whitespace and does not close a bracket. -/
theorem Value.render_cons (v : Value) :
    ∃ b t, v.render = b :: t ∧ isWs b = false ∧ b.toNat ≠ 0x5D ∧ b.toNat ≠ 0x7D := by
  cases v with
  | number num =>
    obtain ⟨b, t, h, hb⟩ := num.render_cons
    have : b.toNat = 0x2D ∨ 0x30 ≤ b.toNat ∧ b.toNat ≤ 0x39 := hb.imp_right isDigit_iff.1
    exact ⟨b, t, h, by simp only [isWs]; simp; omega, by omega, by omega⟩
  | bool b => cases b <;> exact ⟨_, _, rfl, rfl, by decide, by decide⟩
  | _ => exact ⟨_, _, rfl, rfl, by decide, by decide⟩

theorem Element.parseWhitespace_render (e : Element) (y : Bytes) :
    ∃ c x, parseWhitespace (e.render ++ y) = c :: x ∧ c.toNat ≠ 0x5D := by
  obtain ⟨pre, v, post⟩ := e
  obtain ⟨b, u, hv, hws, h5d, -⟩ := v.render_cons
  refine ⟨b, u ++ (post.bytes ++ y), ?_, h5d⟩
  rw [Element.render, List.append_assoc, List.append_assoc, parseWhitespace_ws_append, hv,
    List.cons_append]
  exact parseWhitespace_of_not_ws hws _

theorem Elements.parseWhitespace_render (es : Elements) (t : Bytes) :
    ∃ c x, parseWhitespace (es.render ++ t) = c :: x ∧ c.toNat ≠ 0x5D := by
  cases es with
  | one e => exact e.parseWhitespace_render t
  | cons e es =>
    rw [Elements.render, List.append_assoc]
    exact e.parseWhitespace_render _

/-- A member's text after the quote that opens its key. -/
def Member.afterQuote : Member → Bytes
  | .mk _ k mid v => k.body ++ 0x22 :: (mid.bytes ++ 0x3A :: v.render)

/-- The members' text after the quote that opens the first key. -/
def Members.afterQuote : Members → Bytes
  | .one m => m.afterQuote
  | .cons m ms => m.afterQuote ++ 0x2C :: ms.render

theorem Member.parseWhitespace_render (m : Member) (y : Bytes) :
    parseWhitespace (m.render ++ y) = 0x22 :: (m.afterQuote ++ y) := by
  obtain ⟨pre, key, mid, val⟩ := m
  simp only [Member.render, Member.afterQuote, StrLit.render, List.append_assoc, List.cons_append,
    List.nil_append]
  exact parseWhitespace_ws_cons pre (by decide) _

theorem Members.parseWhitespace_render (ms : Members) (t : Bytes) :
    parseWhitespace (ms.render ++ t) = 0x22 :: (ms.afterQuote ++ t) := by
  cases ms with
  | one m => exact m.parseWhitespace_render t
  | cons m ms =>
    rw [Members.render, Members.afterQuote, List.append_assoc, List.append_assoc]
    exact m.parseWhitespace_render _

/-- `ignore_value` at a member: its key, its colon, then its value. -/
theorem ignoreMember_member (m : Member) (n : Nat) (t : Bytes) :
    ignoreMember (n + 1) (m.render ++ t) =
      match ignoreValue n (m.val.render ++ t) with
      | .ok r => ignoreMapTail n r
      | .error e => .error e := by
  obtain ⟨pre, key, mid, val⟩ := m
  simp only [Member.render, StrLit.render, Member.val, List.append_assoc, List.cons_append,
    List.nil_append]
  rw [ignoreMember, parseWhitespace_ws_cons pre (by decide)]
  simp only [ite_true, show (0x22 : UInt8).toNat = 0x22 from rfl]
  rw [ignoreStr_body]
  dsimp only
  rw [parseWhitespace_ws_cons mid (by decide : isWs 0x3A = false)]
  exact if_pos rfl

theorem Member.length_val (m : Member) : m.val.render.length + 3 ≤ m.render.length := by
  obtain ⟨pre, key, mid, val⟩ := m
  simp only [Member.render, StrLit.render, Member.val, List.length_append, List.length_cons,
    List.length_singleton]
  omega

/-! ### Every value -/

mutual

/-- `ignore_value` skips a value's text and nothing more, given enough fuel. -/
theorem Value.ignore : ∀ (v : Value) (n : Nat) (r : Bytes), v.render.length < n → NumberEnd r →
    ignoreValue n (v.render ++ r) = .ok r
  | _, 0, _, hn, _ => absurd hn (Nat.not_lt_zero _)
  | .object ms, n + 1, r, hn, _ => by
    have hx := ms.parseWhitespace_render (0x7D :: r)
    simp only [Value.render, List.length_cons, List.length_append, List.length_singleton] at hn
    simp only [Value.render, List.cons_append, List.append_assoc, List.nil_append]
    rw [ignoreValue_object n hx (by decide)]
    exact Members.ignore ms n r (by omega)
  | .emptyObject w, n + 1, r, _, _ => by
    simp only [Value.render, List.cons_append, List.append_assoc, List.nil_append]
    exact ignoreValue_emptyObject n r w
  | .array es, n + 1, r, hn, _ => by
    obtain ⟨c, x, hx, hc⟩ := es.parseWhitespace_render (0x5D :: r)
    simp only [Value.render, List.length_cons, List.length_append, List.length_singleton] at hn
    obtain ⟨y, hy, ht⟩ := Elements.ignore es n r (by omega)
    simp only [Value.render, List.cons_append, List.append_assoc, List.nil_append]
    rw [ignoreValue_array n hx hc, hy]
    exact ht
  | .emptyArray w, n + 1, r, _, _ => by
    simp only [Value.render, List.cons_append, List.append_assoc, List.nil_append]
    exact ignoreValue_emptyArray n r w
  | .string s, n + 1, r, _, _ => by
    simp only [Value.render, StrLit.render, List.cons_append, List.append_assoc, List.nil_append]
    rw [ignoreValue_quote]
    exact ignoreStr_body s r
  | .number ⟨neg, i, f, x⟩, n + 1, r, _, hr => by
    cases neg
    · rcases i with _ | ⟨d, hd, ds⟩
      · simp only [Value.render, Number.render, IntPart.render, Bool.false_eq_true, ↓reduceIte,
          List.nil_append, List.append_assoc, List.cons_append]
        rw [ignoreValue_digit n _ (by decide : isDigit 0x30 = true), ← List.cons_append]
        exact integerWith_render _ .zero f x hr
      · simp only [Value.render, Number.render, IntPart.render, Bool.false_eq_true, ↓reduceIte,
          List.nil_append, List.append_assoc, List.cons_append]
        rw [ignoreValue_digit n _ d.is_digit, ← List.cons_append]
        exact integerWith_render _ (.digits d hd ds) f x hr
    · simp only [Value.render, Number.render, ↓reduceIte, List.append_assoc, List.cons_append,
        List.nil_append]
      rw [ignoreValue_minus]
      exact integerWith_render _ i f x hr
  | .bool true, n + 1, r, _, _ => ignoreValue_true n r
  | .bool false, n + 1, r, _, _ => ignoreValue_false n r
  | .null, n + 1, r, _, _ => ignoreValue_null n r

/-- An element: its whitespace, its value, and the whitespace after it, which is left. -/
theorem Element.ignore : ∀ (e : Element) (n : Nat) (r : Bytes), e.render.length < n →
    NumberEnd r → ignoreValue n (e.render ++ r) = .ok (e.post.bytes ++ r)
  | .mk pre v post, n, r, hn, hr => by
    simp only [Element.render, List.length_append] at hn
    simp only [Element.render, Element.post, List.append_assoc]
    rw [ignoreValue_ws]
    exact Value.ignore v n (post.bytes ++ r) (by omega) (hr.ws_append post)

/-- The elements of an array, up to its `]`. -/
theorem Elements.ignore : ∀ (es : Elements) (n : Nat) (r : Bytes), es.render.length < n →
    ∃ x, ignoreValue n (es.render ++ 0x5D :: r) = .ok x ∧ ignoreSeqTail n x = .ok r
  | _, 0, _, hn => absurd hn (Nat.not_lt_zero _)
  | .one e, n + 1, r, hn =>
    ⟨_, Element.ignore e (n + 1) (0x5D :: r) hn (NumberEnd.rbracket r),
      ignoreSeqTail_close n r e.post⟩
  | .cons e es, n + 1, r, hn => by
    simp only [Elements.render, List.length_append, List.length_cons] at hn
    obtain ⟨y, hy, ht⟩ := Elements.ignore es n r (by omega)
    refine ⟨e.post.bytes ++ 0x2C :: (es.render ++ 0x5D :: r), ?_, ?_⟩
    · rw [Elements.render, List.append_assoc, List.cons_append]
      exact Element.ignore e (n + 1) _ (by omega) (NumberEnd.comma _)
    · rw [ignoreSeqTail_comma, hy]
      exact ht

/-- The members of an object, up to its `}`. -/
theorem Members.ignore : ∀ (ms : Members) (n : Nat) (r : Bytes), ms.render.length < n →
    ignoreMember n (ms.render ++ 0x7D :: r) = .ok r
  | _, 0, _, hn => absurd hn (Nat.not_lt_zero _)
  | .one (.mk pre key mid val), n + 1, r, hn => by
    have := (Member.mk pre key mid val).length_val
    obtain ⟨k, rfl⟩ : ∃ k, n = k + 1 := ⟨n - 1, by simp [Members.render] at hn; omega⟩
    rw [Members.render, ignoreMember_member]
    dsimp only [Member.val] at this ⊢
    rw [Element.ignore val (k + 1) (0x7D :: r) (by simp [Members.render] at hn; omega)
        (NumberEnd.rbrace r)]
    exact ignoreMapTail_close k r val.post
  | .cons (.mk pre key mid val) ms, n + 1, r, hn => by
    have := (Member.mk pre key mid val).length_val
    simp only [Members.render, List.length_append, List.length_cons] at hn
    obtain ⟨k, rfl⟩ : ∃ k, n = k + 1 := ⟨n - 1, by omega⟩
    rw [Members.render, List.append_assoc, List.cons_append, ignoreMember_member]
    dsimp only [Member.val] at this ⊢
    rw [Element.ignore val (k + 1) _ (by omega) (NumberEnd.comma _)]
    dsimp only
    rw [ignoreMapTail_comma]
    exact Members.ignore ms k r (by omega)

end

end Json
end RollupBoost
