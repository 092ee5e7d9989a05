import RollupBoost.Utf8.Decode
import RollupBoost.Json.Complete

/-!
# Json.Tokens — what the readers of tokens accept, the grammar writes

`Json.Complete` writes a piece of the grammar and runs a reader of `Json.Read` on it. This
module goes the other way for the leaves: whatever whitespace, literal, number or string a
reader accepts, the input up to where it stopped is the text of a piece of `Json.Syntax`.

A string needs the input to be UTF-8: `ignore_str` does not look at the bytes between its
escapes, and a `StrLit` holds characters (`ignoreStrFrom_sound`). The strict `parse_str` accepts
no more than the lenient scan (`parseStrFrom_ignore`) and refuses every literal with a surrogate
escape that has no partner (`parseStrFrom_decode_none`), so on UTF-8 input it reads exactly the
literals that stand for a string, and gives back what they stand for (`parseStr_sound`); with
`parseStr_of_value` this is a round trip. The last section shows every text of the grammar to be
UTF-8, which the value-level proofs use to carry validity past what they have read.
-/

namespace RollupBoost
namespace Json

open SerdeJson

/-! ## Whitespace and literals -/

/-- The whitespace `parse_whitespace` skips. -/
theorem Ws.split (bs : Bytes) : ∃ w : Ws, bs = w.bytes ++ parseWhitespace bs :=
  ⟨⟨bs.takeWhile isWs, fun _ hb => List.mem_takeWhile_imp hb⟩,
    (List.takeWhile_append_dropWhile _ _).symm⟩

theorem Ws.of_parseWhitespace {bs t : Bytes} {c : UInt8} (h : parseWhitespace bs = c :: t) :
    ∃ w : Ws, bs = w.bytes ++ c :: t := by
  obtain ⟨w, hw⟩ := Ws.split bs
  exact ⟨w, h ▸ hw⟩

theorem parseIdent_ok : ∀ {es bs r : Bytes}, parseIdent es bs = .ok r → bs = es ++ r
  | [], _, _, h => by cases h; rfl
  | _ :: _, [], _, h => by cases h
  | e :: es, b :: bs, r, h => by
    rw [parseIdent] at h
    split_ifs at h with hb
    rw [hb, parseIdent_ok h]
    rfl

/-! ## Numbers -/

theorem digits_split (bs : Bytes) :
    ∃ ds : List Digit, bs = ds.map Digit.byte ++ bs.dropWhile isDigit := by
  induction bs with
  | nil => exact ⟨[], rfl⟩
  | cons b bs ih =>
    by_cases hb : isDigit b = true
    · obtain ⟨ds, hds⟩ := ih
      exact ⟨⟨b, hb⟩ :: ds, by rw [List.dropWhile_cons_of_pos hb]; exact congrArg (b :: ·) hds⟩
    · exact ⟨[], by rw [List.dropWhile_cons_of_neg hb]; rfl⟩

section
variable {eof : ErrorCode}

theorem exponentWith_ok {bs r : Bytes} (h : exponentWith eof bs = .ok r) :
    ∃ (sign : Option Bool) (d : Digit) (ds : List Digit),
      bs = signRender sign ++ d.byte :: ds.map Digit.byte ++ r := by
  obtain _ | ⟨b, t⟩ := bs
  · cases h
  unfold exponentWith at h
  dsimp only at h
  by_cases hs : b.toNat = 0x2B ∨ b.toNat = 0x2D
  · rw [if_pos hs] at h
    obtain _ | ⟨d, t⟩ := t
    · cases h
    dsimp only at h
    split_ifs at h with hd
    cases h
    obtain ⟨ds, hds⟩ := digits_split t
    refine ⟨some (b.toNat = 0x2D), ⟨d, hd⟩, ds, ?_⟩
    rcases hs with hs | hs
    · rw [show b = 0x2B from UInt8.toNat.inj hs]; exact congrArg (fun x => 0x2B :: d :: x) hds
    · rw [show b = 0x2D from UInt8.toNat.inj hs]; exact congrArg (fun x => 0x2D :: d :: x) hds
  · rw [if_neg hs] at h
    dsimp only at h
    split_ifs at h with hd
    cases h
    obtain ⟨ds, hds⟩ := digits_split t
    exact ⟨none, ⟨b, hd⟩, ds, congrArg (b :: ·) hds⟩

/-- An exponent, from its letter on. -/
theorem exponentWith_letter {b : UInt8} (hb : b.toNat = 0x65 ∨ b.toNat = 0x45) {t r : Bytes}
    (h : exponentWith eof t = .ok r) : ∃ e : Exponent, b :: t = e.render ++ r := by
  obtain ⟨sign, d, ds, rfl⟩ := exponentWith_ok h
  refine ⟨⟨b.toNat = 0x45, sign, d, ds⟩, ?_⟩
  rcases hb with hb | hb
  · rw [show b = 0x65 from UInt8.toNat.inj hb]; rfl
  · rw [show b = 0x45 from UInt8.toNat.inj hb]; rfl

theorem exponentOptWith_ok {bs r : Bytes} (h : exponentOptWith eof bs = .ok r) :
    ∃ x : Option Exponent, bs = expRender x ++ r := by
  obtain _ | ⟨b, t⟩ := bs
  · cases h; exact ⟨none, rfl⟩
  rw [exponentOptWith] at h
  split_ifs at h with he
  · obtain ⟨e, he⟩ := exponentWith_letter he h
    exact ⟨some e, he⟩
  · cases h; exact ⟨none, rfl⟩

theorem decimalWith_ok {bs r : Bytes} (h : decimalWith eof bs = .ok r) :
    ∃ (d : Digit) (ds : List Digit) (x : Option Exponent),
      bs = d.byte :: ds.map Digit.byte ++ expRender x ++ r := by
  obtain _ | ⟨b, t⟩ := bs
  · cases h
  rw [decimalWith] at h
  split_ifs at h with hd
  obtain ⟨x, hx⟩ := exponentOptWith_ok h
  obtain ⟨ds, hds⟩ := digits_split t
  rw [hx] at hds
  exact ⟨⟨b, hd⟩, ds, x, by rw [hds]; simp⟩

theorem fractionWith_ok {bs r : Bytes} (h : fractionWith eof bs = .ok r) :
    ∃ f x, bs = fracRender f ++ expRender x ++ r := by
  obtain _ | ⟨b, t⟩ := bs
  · cases h; exact ⟨none, none, rfl⟩
  rw [fractionWith] at h
  split_ifs at h with h₁ h₂
  · obtain ⟨d, ds, x, rfl⟩ := decimalWith_ok h
    exact ⟨some (d, ds), x, by rw [show b = 0x2E from UInt8.toNat.inj h₁]; simp [fracRender]⟩
  · obtain ⟨e, he⟩ := exponentWith_letter h₂ h
    exact ⟨none, some e, he⟩
  · cases h; exact ⟨none, none, rfl⟩

/-- `ignore_integer` and `parse_integer` read the text of a number without its sign. -/
theorem integerWith_ok {bs r : Bytes} (h : integerWith eof bs = .ok r) :
    ∃ (i : IntPart) (f : Option (Digit × List Digit)) (x : Option Exponent),
      bs = i.render ++ fracRender f ++ expRender x ++ r := by
  obtain _ | ⟨b, t⟩ := bs
  · cases h
  rw [integerWith] at h
  split_ifs at h with h₀ hp hd
  · obtain ⟨f, x, rfl⟩ := fractionWith_ok h
    exact ⟨.zero, f, x, by rw [show b = 0x30 from UInt8.toNat.inj h₀]; simp [IntPart.render]⟩
  · obtain ⟨f, x, hfx⟩ := fractionWith_ok h
    obtain ⟨ds, hds⟩ := digits_split t
    rw [hfx] at hds
    exact ⟨.digits ⟨b, hd⟩ h₀ ds, f, x, by rw [hds]; simp [IntPart.render]⟩

end

/-! ## Strings -/

theorem hexVal_isSome_lt {b : UInt8} (h : (hexVal b).isSome) : b.toNat < 0x80 := by
  unfold hexVal at h
  split_ifs at h <;> first | omega | simp at h

theorem simpleEscape_isSome_lt {b : UInt8} (h : (simpleEscape b).isSome) : b.toNat < 0x80 := by
  obtain ⟨_, he⟩ := Option.isSome_iff_exists.1 h
  obtain ⟨p, hp, -⟩ := Option.map_eq_some'.1 he
  have hp₁ : p.1 = b.toNat := by simpa using List.find?_some hp
  rw [← hp₁]
  exact (by decide : ∀ e ∈ escapeTable, e.1 < 0x80) p (List.mem_of_find?_eq_some hp)

/-- A byte a string may hold as itself, in a valid text, is the first byte of a character that
may stand unescaped. -/
theorem exists_unescaped {b : UInt8} {t : Bytes} (hb : Plain b) (h : Utf8.valid (b :: t)) :
    ∃ (c : Unescaped) (t' : Bytes), b :: t = Utf8.encode c.char.toNat ++ t' ∧ Utf8.valid t' := by
  obtain ⟨n, hn, t', he, ht⟩ := Utf8.exists_encode_append h
  have hc : 0x20 ≤ n ∧ n ≠ 0x22 ∧ n ≠ 0x5C := by
    by_cases hn8 : n < 0x80
    · rw [Utf8.encode_of_lt hn8] at he
      have := congrArg UInt8.toNat (List.cons.inj he).1
      rw [toNat_toUInt8_of_lt (by omega)] at this
      obtain ⟨h₁, h₂, h₃⟩ := hb
      omega
    · omega
  have hto := Utf8.toNat_ofNat hn
  refine ⟨⟨Char.ofNat n, by rw [hto]; exact hc.1, fun hq => hc.2.1 ?_, fun hs => hc.2.2 ?_⟩, t',
    by rw [hto]; exact he, ht⟩
  · rw [← hto, hq]; rfl
  · rw [← hto, hs]; rfl

/-! ### The lenient scan -/

theorem ignoreStrFrom_hex_ok {k : Nat} {bs r : Bytes} (h : ignoreStrFrom (.hex k) bs = .ok r) :
    ∃ (d : HexDigit) (t : Bytes), bs = d.byte :: t ∧
      (if k < 3 then ignoreStrFrom (.hex (k + 1)) t else ignoreStrFrom .text t) = .ok r := by
  obtain _ | ⟨b, t⟩ := bs
  · cases h
  by_cases hb : (hexVal b).isSome
  · exact ⟨⟨b, hb⟩, t, rfl, (ignoreStrFrom_hex ⟨b, hb⟩ k t).symm.trans h⟩
  · rw [ignoreStrFrom, if_neg hb] at h
    cases h

/-- The four digits of a `\u` escape, as the scan checks them. -/
theorem ignoreStrFrom_hex4 {bs r : Bytes} (h : ignoreStrFrom (.hex 0) bs = .ok r) :
    ∃ (h₁ h₂ h₃ h₄ : HexDigit) (t : Bytes), bs = [h₁.byte, h₂.byte, h₃.byte, h₄.byte] ++ t ∧
      ignoreStrFrom .text t = .ok r := by
  obtain ⟨h₁, t, rfl, e₁⟩ := ignoreStrFrom_hex_ok h
  rw [if_pos (by decide)] at e₁
  obtain ⟨h₂, t, rfl, e₂⟩ := ignoreStrFrom_hex_ok e₁
  rw [if_pos (by decide)] at e₂
  obtain ⟨h₃, t, rfl, e₃⟩ := ignoreStrFrom_hex_ok e₂
  rw [if_pos (by decide)] at e₃
  obtain ⟨h₄, t, rfl, e₄⟩ := ignoreStrFrom_hex_ok e₃
  rw [if_neg (by decide)] at e₄
  exact ⟨h₁, h₂, h₃, h₄, t, rfl, e₄⟩

theorem valid_hex4 (h₁ h₂ h₃ h₄ : HexDigit) (t : Bytes) :
    Utf8.valid ([h₁.byte, h₂.byte, h₃.byte, h₄.byte] ++ t) = Utf8.valid t := by
  simp only [List.cons_append, List.nil_append,
    Utf8.valid_cons_of_lt (hexVal_isSome_lt h₁.is_hex), Utf8.valid_cons_of_lt (hexVal_isSome_lt h₂.is_hex),
    Utf8.valid_cons_of_lt (hexVal_isSome_lt h₃.is_hex), Utf8.valid_cons_of_lt (hexVal_isSome_lt h₄.is_hex)]

/-- On a valid text, what `ignore_str` scans up to the closing quote is the body of a string
literal. -/
theorem ignoreStrFrom_sound {bs r : Bytes} (h : ignoreStrFrom .text bs = .ok r)
    (hv : Utf8.valid bs) : ∃ s : StrLit, bs = s.body ++ 0x22 :: r := by
  induction' hn : bs.length using Nat.strong_induction_on with n ih generalizing bs
  subst hn
  obtain _ | ⟨b, t⟩ := bs
  · cases h
  have h₀ := h
  rw [ignoreStrFrom] at h
  split_ifs at h with hq hs hc
  · cases h
    exact ⟨[], by rw [show b = 0x22 from UInt8.toNat.inj hq]; rfl⟩
  · rw [show b = 0x5C from UInt8.toNat.inj hs, Utf8.valid_cons_of_lt (by decide)] at hv
    obtain _ | ⟨c, t⟩ := t
    · cases h
    rw [ignoreStrFrom] at h
    split_ifs at h with he hu hl
    · rw [Utf8.valid_cons_of_lt (simpleEscape_isSome_lt he)] at hv
      obtain ⟨s, rfl⟩ := ih _ (by simp only [List.length_cons]; omega) h hv rfl
      exact ⟨.escape ⟨c, he⟩ :: s, by rw [show b = 0x5C from UInt8.toNat.inj hs]; rfl⟩
    · obtain ⟨h₁, h₂, h₃, h₄, t, rfl, ht⟩ := ignoreStrFrom_hex4 h
      rw [Utf8.valid_cons_of_lt (by omega), valid_hex4] at hv
      obtain ⟨s, rfl⟩ := ih _ (by simp only [List.length_cons, List.length_append]; omega) ht hv rfl
      refine ⟨.unicode h₁ h₂ h₃ h₄ :: s, ?_⟩
      rw [show b = 0x5C from UInt8.toNat.inj hs, show c = 0x75 from UInt8.toNat.inj hu]
      rfl
  · obtain ⟨c, t', he, ht⟩ := exists_unescaped ⟨by omega, hq, hs⟩ hv
    rw [he, ignoreStrFrom_plain_append (fun _ => plain_of_mem_encode c)] at h₀
    have : t'.length < (b :: t).length := by
      rw [he, List.length_append]
      exact Nat.lt_add_of_pos_left (List.length_pos.2 (Utf8.encode_ne_nil _))
    obtain ⟨s, rfl⟩ := ih _ this h₀ ht rfl
    exact ⟨.char c :: s, by rw [he]; simp [StrLit.body, StrPiece.render]⟩

/-! ### The strict reading -/

/-- Where `ignore_str` stands when `parse_str_bytes` stands at `st`: the two escapes of a
surrogate pair are scanned as two escapes. -/
def scanState : StrState → ScanState
  | .text => .text
  | .escape => .escape
  | .hex k _ => .hex k
  | .high _ => .text
  | .highU _ => .escape
  | .low _ k _ => .hex k

theorem plainCons_ok {b : UInt8} {x : Except ErrorCode (Bool × Bytes × Bytes)} {e : Bool}
    {v r : Bytes} (h : plainCons b x = .ok (e, v, r)) : ∃ e' v', x = .ok (e', v', r) := by
  rcases x with _ | ⟨e', v', r'⟩
  · cases h
  · cases h; exact ⟨_, _, rfl⟩

theorem escaped_ok {pre : Bytes} {x : Except ErrorCode (Bool × Bytes × Bytes)} {e : Bool}
    {v r : Bytes} (h : escaped pre x = .ok (e, v, r)) : ∃ e' v', x = .ok (e', v', r) := by
  rcases x with _ | ⟨e', v', r'⟩
  · cases h
  · cases h; exact ⟨_, _, rfl⟩

/-- `parse_str_bytes` accepts less than `ignore_str`: where it reads a string, the scan reads
the same bytes. -/
theorem parseStrFrom_ignore {st : StrState} {bs : Bytes} {e : Bool} {v r : Bytes}
    (h : parseStrFrom st bs = .ok (e, v, r)) : ignoreStrFrom (scanState st) bs = .ok r := by
  induction bs generalizing st e v with
  | nil => cases st <;> cases h
  | cons b t ih =>
    cases st with
    | text =>
      rw [parseStrFrom] at h
      rw [scanState, ignoreStrFrom]
      split_ifs at h ⊢
      · cases h; rfl
      · exact ih h
      · obtain ⟨_, _, h⟩ := plainCons_ok h; exact ih h
    | escape =>
      rw [parseStrFrom] at h
      rw [scanState, ignoreStrFrom]
      cases hb : simpleEscape b with
      | some d =>
        rw [hb] at h
        rw [if_pos (by rfl)]
        obtain ⟨_, _, h⟩ := escaped_ok h
        exact ih h
      | none =>
        rw [hb] at h
        rw [if_neg (by decide)]
        dsimp only at h
        split_ifs at h ⊢
        exact ih h
    | hex k acc =>
      rw [parseStrFrom] at h
      rw [scanState, ignoreStrFrom]
      cases hb : hexVal b with
      | none => rw [hb] at h; cases h
      | some d =>
        rw [hb] at h
        rw [if_pos (by rfl)]
        dsimp only at h
        split_ifs at h with h₁ h₂ h₃
        · rw [if_pos h₁]; exact ih h
        · rw [if_neg h₁]; obtain ⟨_, _, h⟩ := escaped_ok h; exact ih h
        · rw [if_neg h₁]; exact ih h
    | high hi =>
      rw [parseStrFrom] at h
      split_ifs at h with hb
      rw [scanState, show b = 0x5C from UInt8.toNat.inj hb, ignoreStrFrom_backslash]
      exact ih h
    | highU hi =>
      rw [parseStrFrom] at h
      split_ifs at h with hb hl
      rw [scanState, show b = 0x75 from UInt8.toNat.inj hb, ignoreStrFrom_u (by omega)]
      exact ih h
    | low hi k acc =>
      rw [parseStrFrom] at h
      rw [scanState, ignoreStrFrom]
      cases hb : hexVal b with
      | none => rw [hb] at h; cases h
      | some d =>
        rw [hb] at h
        rw [if_pos (by rfl)]
        dsimp only at h
        split_ifs at h with h₁ h₂
        · rw [if_pos h₁]; exact ih h
        · rw [if_neg h₁]; obtain ⟨_, _, h⟩ := escaped_ok h; exact ih h

theorem parseStrFrom_plain_append_error {bs : Bytes} (h : ∀ b ∈ bs, Plain b) {x : Bytes}
    {e : ErrorCode} (hx : parseStrFrom .text x = .error e) :
    parseStrFrom .text (bs ++ x) = .error e := by
  induction bs with
  | nil => exact hx
  | cons b bs ih =>
    rw [List.cons_append, parseStrFrom_plain (h b (List.mem_cons_self _ _)),
      ih fun y hy => h y (List.mem_cons_of_mem _ hy)]
    rfl

/-- `parse_str_bytes` refuses a string literal with a surrogate escape that has no partner. -/
theorem parseStrFrom_decode_none {s : StrLit} {p : Option Nat} (hv : s.decode p = none)
    (r : Bytes) : ∃ e, parseStrFrom (pendingState p) (s.body ++ 0x22 :: r) = .error e := by
  induction s generalizing p with
  | nil =>
    cases p with
    | none => cases hv
    | some hi => exact ⟨_, rfl⟩
  | cons piece ps ih =>
    rw [StrLit.body, List.flatMap_cons, List.append_assoc]
    cases p with
    | none =>
      cases piece with
      | char c =>
        simp only [StrLit.decode, Option.map_eq_map, Option.map_eq_none'] at hv
        obtain ⟨e, he⟩ := ih hv
        exact ⟨e, parseStrFrom_plain_append_error (fun _ => plain_of_mem_encode c) he⟩
      | escape d =>
        simp only [StrLit.decode, Option.map_eq_map, Option.map_eq_none'] at hv
        obtain ⟨e, he⟩ := ih hv
        refine ⟨e, ?_⟩
        rw [StrPiece.render, List.cons_append, List.cons_append, List.nil_append, pendingState,
          parseStrFrom_backslash, parseStrFrom, EscapeLetter.simpleEscape_eq]
        simp only [StrLit.body, pendingState] at he
        simp only [he, escaped]
      | unicode h₁ h₂ h₃ h₄ =>
        simp only [StrLit.decode] at hv
        rw [pendingState, parseStrFrom_unicode]
        by_cases ht : IsTrailing (codeUnit h₁ h₂ h₃ h₄)
        · exact ⟨_, if_pos ht⟩
        rw [if_neg ht] at hv ⊢
        by_cases hl : IsLeading (codeUnit h₁ h₂ h₃ h₄)
        · rw [if_pos hl] at hv ⊢
          exact ih hv
        · simp only [if_neg hl, Option.map_eq_map, Option.map_eq_none'] at hv ⊢
          obtain ⟨e, he⟩ := ih hv
          simp only [StrLit.body, pendingState] at he
          exact ⟨e, by simp only [he, escaped]⟩
    | some hi =>
      cases piece with
      | char c =>
        obtain ⟨b₀, rest, hb₀⟩ := List.exists_cons_of_ne_nil (Utf8.encode_ne_nil c.char.toNat)
        have hp := plain_of_mem_encode c (hb₀ ▸ List.mem_cons_self b₀ rest)
        refine ⟨.unexpectedEndOfHexEscape, ?_⟩
        rw [StrPiece.render, hb₀, List.cons_append, pendingState, parseStrFrom, if_neg hp.2.2]
      | escape d =>
        have hu : d.byte.toNat ≠ 0x75 := fun hu => by
          have := d.is_escape
          rw [show d.byte = 0x75 from UInt8.toNat.inj hu] at this
          exact absurd this (by decide)
        refine ⟨.unexpectedEndOfHexEscape, ?_⟩
        rw [StrPiece.render, List.cons_append, List.cons_append, List.nil_append, pendingState,
          parseStrFrom, if_pos (by rfl), parseStrFrom, if_neg hu]
      | unicode l₁ l₂ l₃ l₄ =>
        simp only [StrLit.decode] at hv
        rw [pendingState, parseStrFrom_high_unicode]
        by_cases ht : IsTrailing (codeUnit l₁ l₂ l₃ l₄)
        · simp only [if_pos ht, Option.map_eq_map, Option.map_eq_none'] at hv ⊢
          obtain ⟨e, he⟩ := ih hv
          simp only [StrLit.body, pendingState] at he
          exact ⟨e, by simp only [he, escaped]⟩
        · exact ⟨_, if_neg ht⟩

/-- On a valid text, `parse_str` reads a string literal whose surrogate escapes pair up and
returns what it stands for: borrowed from the input when the literal has no escape, copied
when it has one. -/
theorem parseStr_sound {bs r : Bytes} {ref : Reference} (h : parseStr bs = .ok (ref, r))
    (hu : Utf8.valid bs) :
    ∃ (s : StrLit) (v : Bytes) (hv : Utf8.valid v), bs = s.body ++ 0x22 :: r ∧
      s.value = some v ∧ ref = if s.plain.isNone then .copied ⟨v, hv⟩ else .borrowed ⟨v, hv⟩ := by
  rw [parseStr, parseStrBytes] at h
  split at h
  · cases h
  rename_i esc v r' hp
  split at h
  · rename_i hvv
    cases h
    obtain ⟨s, rfl⟩ := ignoreStrFrom_sound (parseStrFrom_ignore hp) hu
    cases hd : s.decode none with
    | none =>
      obtain ⟨e, he⟩ := parseStrFrom_decode_none hd r
      rw [pendingState] at he
      rw [he] at hp
      cases hp
    | some v' =>
      have hs := parseStrFrom_decode hd r
      rw [pendingState, hp] at hs
      simp only [Option.isSome_none, Bool.false_or, Except.ok.injEq, Prod.mk.injEq] at hs
      obtain ⟨rfl, rfl, -⟩ := hs
      exact ⟨s, v, hvv, rfl, hd, rfl⟩
  · cases h

/-! ## Every text of the grammar is UTF-8 -/

theorem valid_ascii {a : Bytes} (ha : ∀ x ∈ a, x.toNat < 0x80) : Utf8.valid a := by
  induction a with
  | nil => rfl
  | cons x a ih =>
    rw [Utf8.valid_cons_of_lt (ha x (List.mem_cons_self x a))]
    exact ih fun y hy => ha y (List.mem_cons_of_mem x hy)

theorem Ws.ascii (w : Ws) : ∀ x ∈ w.bytes, x.toNat < 0x80 := fun x hx => by
  have := w.all_ws x hx
  simp only [isWs, Bool.or_eq_true, decide_eq_true_eq] at this
  omega

theorem digits_ascii (ds : List Digit) : ∀ x ∈ ds.map Digit.byte, x.toNat < 0x80 := by
  rintro _ hx
  obtain ⟨d, -, rfl⟩ := List.mem_map.1 hx
  have := isDigit_iff.1 d.is_digit
  omega

theorem Number.ascii (num : Number) : ∀ x ∈ num.render, x.toNat < 0x80 := by
  obtain ⟨neg, i, f, e⟩ := num
  simp only [Number.render, List.forall_mem_append]
  refine ⟨⟨⟨?_, ?_⟩, ?_⟩, ?_⟩
  · split <;> decide
  · cases i with
    | zero => decide
    | digits d _ ds => exact digits_ascii (d :: ds)
  · cases f with
    | none => nofun
    | some p => exact List.forall_mem_cons.2 ⟨by decide, digits_ascii (p.1 :: p.2)⟩
  · rcases e with _ | ⟨u, sign, d, ds⟩
    · nofun
    simp only [expRender, Exponent.render, List.forall_mem_cons, List.forall_mem_append]
    refine ⟨?_, ?_, List.forall_mem_cons.1 (digits_ascii (d :: ds))⟩
    · split <;> decide
    · rcases sign with _ | _ | _ <;> decide

theorem StrPiece.valid (p : StrPiece) : Utf8.valid p.render := by
  cases p with
  | char c => exact Utf8.valid_encode c.char.valid
  | escape e =>
    rw [StrPiece.render, Utf8.valid_cons_of_lt (by decide),
      Utf8.valid_cons_of_lt (simpleEscape_isSome_lt e.is_escape)]
    rfl
  | unicode h₁ h₂ h₃ h₄ =>
    rw [StrPiece.render, Utf8.valid_cons_of_lt (by decide), Utf8.valid_cons_of_lt (by decide)]
    simpa using valid_hex4 h₁ h₂ h₃ h₄ []

theorem StrLit.valid_body (s : StrLit) : Utf8.valid s.body := by
  induction s with
  | nil => rfl
  | cons p ps ih => exact Utf8.valid_append p.valid ih

end Json
end RollupBoost
