import RollupBoost.Json.Complete

/-!
# Json.Sound — what `from_slice::<RpcRequest>` can return, on any input

Every reader of the deserializer takes the input from its read position on and gives back what
is left: `Reads bs rest x` says that a result `x` of a reader given `bs` is either an error
other than running out of fuel or leaves a suffix of `bs`. Each reader is shown to satisfy it,
the ones that nest given fuel beyond the length of their input. Two things follow for every
body. The first is about the model rather than the code: the fuel `fromSlice` gives is enough,
no reader runs out of it, so the fuel bound that makes the model's recursion structural never
changes an outcome, and the model accepts and refuses what the code, whose loops have no such
bound, does (`fromSlice_ne_outOfFuel`). The second is about the code: the method `fromSlice`
returns is borrowed from the body, its bytes stand in the body as they are, between two quotes,
none of them a byte a string must escape (`fromSlice_method_borrowed`).
-/

namespace RollupBoost
namespace Json

open SerdeJson

/-- What a reader given `bs` may return: an error other than running out of fuel, or a result
whose `rest`, the input left after what the reader read, is a suffix of `bs`. -/
def Reads {α : Type} (bs : Bytes) (rest : α → Bytes) : Except ErrorCode α → Prop
  | .ok a => rest a <:+ bs
  | .error e => e ≠ .outOfFuel

section
variable {α : Type} {bs r : Bytes} {rest : α → Bytes} {x : Except ErrorCode α}

@[simp] theorem reads_ok {a : α} : Reads bs rest (.ok a) ↔ rest a <:+ bs := Iff.rfl

@[simp] theorem reads_error {e : ErrorCode} : Reads bs rest (.error e) ↔ e ≠ .outOfFuel := Iff.rfl

theorem Reads.mono (h : Reads r rest x) (hr : r <:+ bs) : Reads bs rest x := by
  cases x with
  | error e => exact h
  | ok a => exact List.IsSuffix.trans h hr

theorem Reads.error {e : ErrorCode} (h : e ≠ .outOfFuel) : Reads bs rest (.error e) := h

theorem Reads.ite {c : Prop} [Decidable c] {a b : Except ErrorCode α} (ha : c → Reads bs rest a)
    (hb : ¬c → Reads bs rest b) : Reads bs rest (if c then a else b) := by
  by_cases h : c
  · rw [if_pos h]; exact ha h
  · rw [if_neg h]; exact hb h

/-- A choice between two errors that are not `outOfFuel`. -/
theorem ne_ite {c : Prop} [Decidable c] {a b : ErrorCode} (ha : a ≠ .outOfFuel)
    (hb : b ≠ .outOfFuel) : (if c then a else b) ≠ .outOfFuel := by
  split <;> assumption

theorem Reads.of_ok (h : Reads bs rest x) {a : α} (hx : x = .ok a) : rest a <:+ bs := by
  subst hx; exact h

theorem Reads.of_error (h : Reads bs rest x) {e : ErrorCode} (hx : x = .error e) :
    e ≠ .outOfFuel := by
  subst hx; exact h

end

theorem suffix_of_parseWhitespace {bs r : Bytes} {b : UInt8} (h : parseWhitespace bs = b :: r) :
    b :: r <:+ bs :=
  h ▸ List.dropWhile_suffix _

theorem length_lt_of_parseWhitespace {bs r : Bytes} {b : UInt8} (h : parseWhitespace bs = b :: r) :
    r.length < bs.length := by
  have := (suffix_of_parseWhitespace h).length_le
  simp only [List.length_cons] at this
  omega

/-! ## Readers that do not nest -/

theorem parseIdent_reads : ∀ (es bs : Bytes), Reads bs id (parseIdent es bs)
  | [], bs => List.suffix_refl bs
  | _ :: _, [] => .error (by decide)
  | e :: es, b :: bs => by
    rw [parseIdent]
    split
    · exact (parseIdent_reads es bs).mono (List.suffix_cons b bs)
    · exact .error (by decide)

section
variable {eof : ErrorCode} (heof : eof ≠ .outOfFuel)
include heof

theorem exponentWith_reads (bs : Bytes) : Reads bs id (exponentWith eof bs) := by
  unfold exponentWith
  split
  · rename_i b r heq
    have hs : b :: r <:+ bs := by
      cases bs with
      | nil => cases heq
      | cons c t => simp only at heq; split_ifs at heq <;> simp [← heq]
    split
    · exact (List.dropWhile_suffix _).trans ((List.suffix_cons b r).trans hs)
    · exact .error (by decide)
  · exact .error heof

theorem exponentOptWith_reads : ∀ bs : Bytes, Reads bs id (exponentOptWith eof bs)
  | [] => List.suffix_refl []
  | b :: r => by
    rw [exponentOptWith]
    split
    · exact (exponentWith_reads heof r).mono (List.suffix_cons b r)
    · exact List.suffix_refl _

theorem decimalWith_reads : ∀ bs : Bytes, Reads bs id (decimalWith eof bs)
  | [] => .error heof
  | b :: r => by
    rw [decimalWith]
    split
    · exact (exponentOptWith_reads heof _).mono
        ((List.dropWhile_suffix _).trans (List.suffix_cons b r))
    · exact .error (by decide)

theorem fractionWith_reads : ∀ bs : Bytes, Reads bs id (fractionWith eof bs)
  | [] => List.suffix_refl []
  | b :: r => by
    rw [fractionWith]
    split
    · exact (decimalWith_reads heof r).mono (List.suffix_cons b r)
    · split
      · exact (exponentWith_reads heof r).mono (List.suffix_cons b r)
      · exact List.suffix_refl _

theorem integerWith_reads : ∀ bs : Bytes, Reads bs id (integerWith eof bs)
  | [] => .error heof
  | b :: r => by
    rw [integerWith]
    split
    · split
      · exact .error (by decide)
      · exact (fractionWith_reads heof r).mono (List.suffix_cons b r)
    · split
      · exact (fractionWith_reads heof _).mono
          ((List.dropWhile_suffix _).trans (List.suffix_cons b r))
      · exact .error (by decide)

end

/-- `ignore_str` reads at least the closing quote. -/
theorem ignoreStrFrom_reads (st : ScanState) (bs : Bytes) :
    Reads bs.tail id (ignoreStrFrom st bs) := by
  induction bs generalizing st with
  | nil => cases st <;> exact .error (by decide)
  | cons b r ih =>
    have step : ∀ st', Reads (b :: r).tail id (ignoreStrFrom st' r) :=
      fun st' => (ih st').mono (List.tail_suffix r)
    cases st with
    | text =>
      rw [ignoreStrFrom]
      split_ifs
      · exact List.suffix_refl r
      · exact step _
      · exact .error (by decide)
      · exact step _
    | escape =>
      rw [ignoreStrFrom]
      split_ifs
      · exact step _
      · exact .error (by decide)
      · exact step _
      · exact .error (by decide)
    | hex k =>
      rw [ignoreStrFrom]
      split_ifs
      · exact step _
      · exact step _
      · exact .error (by decide)

theorem Reads.plainCons {bs : Bytes} {x : Except ErrorCode (Bool × Bytes × Bytes)}
    (h : Reads bs (·.2.2) x) (b : UInt8) : Reads bs (·.2.2) (plainCons b x) := by
  cases x <;> exact h

theorem Reads.escaped {bs : Bytes} {x : Except ErrorCode (Bool × Bytes × Bytes)}
    (h : Reads bs (·.2.2) x) (pre : Bytes) : Reads bs (·.2.2) (escaped pre x) := by
  cases x <;> exact h

/-- `parse_str_bytes` reads at least the closing quote. -/
theorem parseStrFrom_reads (st : StrState) (bs : Bytes) :
    Reads bs.tail (·.2.2) (parseStrFrom st bs) := by
  induction bs generalizing st with
  | nil => cases st <;> exact .error (by decide)
  | cons b r ih =>
    have step : ∀ st', Reads (b :: r).tail (·.2.2) (parseStrFrom st' r) :=
      fun st' => (ih st').mono (List.tail_suffix r)
    cases st with
    | text =>
      rw [parseStrFrom]
      split_ifs
      · exact List.suffix_refl r
      · exact step _
      · exact .error (by decide)
      · exact (step _).plainCons b
    | escape =>
      rw [parseStrFrom]
      split
      · exact (step _).escaped _
      · split_ifs
        · exact .error (by decide)
        · exact step _
        · exact .error (by decide)
    | hex k acc =>
      rw [parseStrFrom]
      split
      · exact .error (by decide)
      · dsimp only
        split_ifs
        · exact step _
        · exact .error (by decide)
        · exact (step _).escaped _
        · exact step _
    | high hi =>
      rw [parseStrFrom]
      split_ifs
      · exact step _
      · exact .error (by decide)
    | highU hi =>
      rw [parseStrFrom]
      split_ifs
      · exact .error (by decide)
      · exact step _
      · exact .error (by decide)
    | low hi k acc =>
      rw [parseStrFrom]
      split
      · exact .error (by decide)
      · dsimp only
        split_ifs
        · exact step _
        · exact (step _).escaped _
        · exact .error (by decide)

theorem parseStr_reads (bs : Bytes) : Reads bs.tail Prod.snd (parseStr bs) := by
  have h := parseStrFrom_reads .text bs
  rw [parseStr, parseStrBytes]
  split
  · rename_i e he
    exact h.of_error he
  · rename_i esc s r he
    split
    · exact h.of_ok he
    · exact .error (by decide)

theorem orInvalidType_ne {α : Type} {bs : Bytes} {rest : α → Bytes} {x : Except ErrorCode α}
    (h : Reads bs rest x) : orInvalidType x ≠ .outOfFuel := by
  cases x with
  | error e => exact h
  | ok _ => exact (by decide : ErrorCode.invalidType ≠ .outOfFuel)

/-- `peek_invalid_type` reports one of the reader's errors, never the model's bound on fuel. -/
theorem peekInvalidType_ne_outOfFuel : ∀ bs : Bytes, peekInvalidType bs ≠ .outOfFuel
  | [] => by decide
  | b :: r => by
    have hint : ErrorCode.eofWhileParsingValue ≠ .outOfFuel := by decide
    have hident := fun es => orInvalidType_ne (parseIdent_reads es r)
    rw [peekInvalidType]
    exact ne_ite (hident _) <| ne_ite (hident _) <| ne_ite (hident _) <|
      ne_ite (orInvalidType_ne (integerWith_reads hint r)) <|
      ne_ite (orInvalidType_ne (integerWith_reads hint (b :: r))) <|
      ne_ite (orInvalidType_ne (parseStr_reads r)) <| ne_ite (by decide) (by decide)

theorem parseObjectColon_reads (bs : Bytes) : Reads bs id (parseObjectColon bs) := by
  rw [parseObjectColon]
  split
  · exact .error (by decide)
  · rename_i b r hw
    split
    · exact (List.suffix_cons b r).trans (suffix_of_parseWhitespace hw)
    · exact .error (by decide)

theorem deserializeBorrowedStr_reads (bs : Bytes) :
    Reads bs Prod.snd (deserializeBorrowedStr bs) := by
  rw [deserializeBorrowedStr]
  split
  · exact .error (by decide)
  · rename_i b r hw
    have hr : r <:+ bs := (List.suffix_cons b r).trans (suffix_of_parseWhitespace hw)
    have h := parseStr_reads r
    split
    · split
      · rename_i s r' he
        exact ((h.of_ok he).trans (List.tail_suffix r)).trans hr
      · exact .error (by decide)
      · rename_i e he
        exact h.of_error he
    · exact .error (peekInvalidType_ne_outOfFuel _)

/-- After the byte `b`: `next_key` reads at least `b`. -/
theorem nextKey_reads (first : Bool) (b : UInt8) (r : Bytes) : Reads r id (nextKey first b r) := by
  unfold nextKey
  split_ifs <;> dsimp only
  · split
    · rename_i e hw
      cases hw
    · exact .error (by decide)
    · rename_i k r' hw
      exact .ite (fun _ => (List.suffix_cons k r').trans (suffix_of_parseWhitespace (Except.ok.inj hw)))
        fun _ => .ite (fun _ => .error (by decide)) fun _ => .error (by decide)
  · exact .ite (fun _ => List.suffix_refl r) fun _ => .ite (fun _ => .error (by decide))
      fun _ => .error (by decide)
  · exact .error (by decide)

theorem endSeq_reads (bs : Bytes) : Reads bs id (endSeq bs) := by
  rw [endSeq]
  split
  · exact .error (by decide)
  · rename_i b r hw
    split_ifs
    · exact (List.suffix_cons b r).trans (suffix_of_parseWhitespace hw)
    · split <;> (try split) <;> simp
    · exact .error (by decide)

theorem endMap_reads (bs : Bytes) : Reads bs id (endMap bs) := by
  rw [endMap]
  split
  · exact .error (by decide)
  · rename_i b r hw
    split_ifs
    · exact (List.suffix_cons b r).trans (suffix_of_parseWhitespace hw)
    · exact .error (by decide)
    · simp

/-! ## Readers that nest, given fuel beyond the length of their input -/

mutual

theorem ignoreValue_reads : ∀ (n : Nat) (bs : Bytes), bs.length < n → Reads bs id (ignoreValue n bs)
  | 0, _, h => absurd h (Nat.not_lt_zero _)
  | n + 1, bs, h => by
    rw [ignoreValue]
    split
    · exact .error (by decide)
    rename_i b r hw
    have hs := suffix_of_parseWhitespace hw
    have hr : r <:+ bs := (List.suffix_cons b r).trans hs
    have hl := length_lt_of_parseWhitespace hw
    refine .ite (fun _ => (parseIdent_reads _ r).mono hr) fun _ => ?_
    refine .ite (fun _ => (parseIdent_reads _ r).mono hr) fun _ => ?_
    refine .ite (fun _ => (parseIdent_reads _ r).mono hr) fun _ => ?_
    refine .ite (fun _ => (integerWith_reads (show ErrorCode.invalidNumber ≠ .outOfFuel by decide) r).mono hr) fun _ => ?_
    refine .ite (fun _ => (integerWith_reads (show ErrorCode.invalidNumber ≠ .outOfFuel by decide) _).mono hs) fun _ => ?_
    refine .ite (fun _ => (ignoreStrFrom_reads .text r).mono ((List.tail_suffix r).trans hr))
      fun _ => ?_
    refine .ite (fun _ => ?_) fun _ => .ite (fun _ => ?_) fun _ => .error (by decide)
    · split
      · exact .error (by decide)
      rename_i c r' hw'
      refine .ite (fun _ => (List.suffix_cons c r').trans ((suffix_of_parseWhitespace hw').trans hr))
        fun _ => ?_
      have hv := ignoreValue_reads n r (by omega)
      split
      · rename_i r₁ he
        have h₁ : r₁ <:+ r := hv.of_ok he
        exact (ignoreSeqTail_reads n r₁ (by have := h₁.length_le; omega)).mono (h₁.trans hr)
      · rename_i e he
        exact hv.of_error he
    · split
      · exact .error (by decide)
      rename_i c r' hw'
      exact .ite (fun _ => (List.suffix_cons c r').trans ((suffix_of_parseWhitespace hw').trans hr))
        fun _ => (ignoreMember_reads n r (by omega)).mono hr

theorem ignoreSeqTail_reads : ∀ (n : Nat) (bs : Bytes), bs.length < n →
    Reads bs id (ignoreSeqTail n bs)
  | 0, _, h => absurd h (Nat.not_lt_zero _)
  | n + 1, bs, h => by
    rw [ignoreSeqTail]
    split
    · exact .error (by decide)
    · rename_i c r hw
      have hr : r <:+ bs := (List.suffix_cons c r).trans (suffix_of_parseWhitespace hw)
      have hl := length_lt_of_parseWhitespace hw
      split_ifs
      · have hv := ignoreValue_reads n r (by omega)
        split
        · rename_i r₁ he
          have h₁ : r₁ <:+ r := hv.of_ok he
          exact (ignoreSeqTail_reads n r₁ (by have := h₁.length_le; omega)).mono (h₁.trans hr)
        · rename_i e he
          exact hv.of_error he
      · exact hr
      · exact .error (by decide)

theorem ignoreMember_reads : ∀ (n : Nat) (bs : Bytes), bs.length < n →
    Reads bs id (ignoreMember n bs)
  | 0, _, h => absurd h (Nat.not_lt_zero _)
  | n + 1, bs, h => by
    rw [ignoreMember]
    split
    · exact .error (by decide)
    · rename_i c r hw
      have hr : r <:+ bs := (List.suffix_cons c r).trans (suffix_of_parseWhitespace hw)
      have hl := length_lt_of_parseWhitespace hw
      split_ifs
      · have hk := ignoreStrFrom_reads .text r
        split
        · rename_i e he
          exact hk.of_error he
        · rename_i r₁ he
          have h₁ : r₁ <:+ bs := ((hk.of_ok he).trans (List.tail_suffix r)).trans hr
          split
          · exact .error (by decide)
          · rename_i d r₂ hw₂
            have h₂ : r₂ <:+ bs := (List.suffix_cons d r₂).trans ((suffix_of_parseWhitespace hw₂).trans h₁)
            have hl₂ : r₂.length < n := by
              have := length_lt_of_parseWhitespace hw₂
              have := (hk.of_ok he).length_le
              simp only [List.length_tail, id] at this
              omega
            split_ifs
            · have hv := ignoreValue_reads n r₂ hl₂
              split
              · rename_i r₃ he₃
                have h₃ : r₃ <:+ r₂ := hv.of_ok he₃
                exact (ignoreMapTail_reads n r₃ (by have := h₃.length_le; omega)).mono (h₃.trans h₂)
              · rename_i e he₃
                exact hv.of_error he₃
            · exact .error (by decide)
      · simp

theorem ignoreMapTail_reads : ∀ (n : Nat) (bs : Bytes), bs.length < n →
    Reads bs id (ignoreMapTail n bs)
  | 0, _, h => absurd h (Nat.not_lt_zero _)
  | n + 1, bs, h => by
    rw [ignoreMapTail]
    split
    · exact .error (by decide)
    · rename_i c r hw
      have hr : r <:+ bs := (List.suffix_cons c r).trans (suffix_of_parseWhitespace hw)
      have hl := length_lt_of_parseWhitespace hw
      split_ifs
      · exact (ignoreMember_reads n r (by omega)).mono hr
      · exact hr
      · exact .error (by decide)

end

theorem length_lt_of_parseStr {bs r : Bytes} {k : Reference} (he : parseStr bs = .ok (k, r)) :
    r.length < bs.length := by
  cases bs with
  | nil => cases he
  | cons b t =>
    have := ((parseStr_reads (b :: t)).of_ok he).length_le
    simp only [List.tail_cons, List.length_cons] at this ⊢
    omega

/-! ## The method is borrowed -/

/-- `s` stands in `bs` as it is, between two quotes, and holds no byte a string must escape. -/
def Quoted (s bs : Bytes) : Prop := (∀ b ∈ s, Plain b) ∧ 0x22 :: s ++ [0x22] <:+: bs

theorem Quoted.mono {s r bs : Bytes} (h : Quoted s r) (hr : r <:+ bs) : Quoted s bs :=
  ⟨h.1, h.2.trans hr.isInfix⟩

theorem escaped_fst {pre s r : Bytes} {x : Except ErrorCode (Bool × Bytes × Bytes)} {e : Bool}
    (h : escaped pre x = .ok (e, s, r)) : e = true := by
  cases x with
  | error => cases h
  | ok v => cases h; rfl

/-- Away from the text of a string, `parse_str_bytes` is inside an escape, and what it returns
is marked escaped. -/
theorem parseStrFrom_escaped {st : StrState} {bs s r : Bytes} {e : Bool}
    (h : parseStrFrom st bs = .ok (e, s, r)) (hst : st ≠ .text) : e = true := by
  induction bs generalizing st s with
  | nil => cases st <;> cases h
  | cons b t ih =>
    cases st with
    | text => exact absurd rfl hst
    | escape =>
      rw [parseStrFrom] at h
      split at h
      · exact escaped_fst h
      · split_ifs at h
        exact ih h nofun
    | hex k acc =>
      rw [parseStrFrom] at h
      split at h
      · cases h
      · dsimp only at h
        split_ifs at h
        · exact ih h nofun
        · exact escaped_fst h
        · exact ih h nofun
    | high hi =>
      rw [parseStrFrom] at h
      split_ifs at h
      exact ih h nofun
    | highU hi =>
      rw [parseStrFrom] at h
      split_ifs at h
      exact ih h nofun
    | low hi k acc =>
      rw [parseStrFrom] at h
      split at h
      · cases h
      · dsimp only at h
        split_ifs at h
        · exact ih h nofun
        · exact escaped_fst h

/-- A string `parse_str_bytes` read without meeting an escape is the input up to the closing
quote, every byte of it one a string may hold as itself. -/
theorem parseStrFrom_unescaped {bs s r : Bytes} (h : parseStrFrom .text bs = .ok (false, s, r)) :
    (∀ b ∈ s, Plain b) ∧ bs = s ++ 0x22 :: r := by
  induction bs generalizing s with
  | nil => cases h
  | cons b t ih =>
    rw [parseStrFrom] at h
    split_ifs at h with h₁ h₂ h₃
    · cases h
      exact ⟨fun _ h => absurd h (List.not_mem_nil _), by rw [(UInt8.toNat.inj h₁ : b = 0x22)]; rfl⟩
    · exact absurd (parseStrFrom_escaped h nofun) (by decide)
    · cases hx : parseStrFrom .text t with
      | error e => rw [hx] at h; cases h
      | ok v =>
        obtain ⟨e', s', r'⟩ := v
        rw [hx] at h
        cases h
        obtain ⟨hp, rfl⟩ := ih hx
        refine ⟨fun c hc => ?_, rfl⟩
        rcases List.mem_cons.1 hc with rfl | hc
        · exact ⟨by omega, h₁, h₂⟩
        · exact hp c hc

theorem parseStr_borrowed {bs r : Bytes} {s : Str} (h : parseStr bs = .ok (.borrowed s, r)) :
    (∀ b ∈ s.bytes, Plain b) ∧ bs = s.bytes ++ 0x22 :: r := by
  rw [parseStr, parseStrBytes] at h
  split at h
  · cases h
  · rename_i esc s' r' he
    split at h
    · cases esc
      · cases h
        exact parseStrFrom_unescaped he
      · cases h
    · cases h

/-- A string `deserialize_str` gives for a `&str` is one the input holds between quotes. -/
theorem deserializeBorrowedStr_quoted {bs r : Bytes} {s : Str}
    (h : deserializeBorrowedStr bs = .ok (s, r)) : Quoted s.bytes bs := by
  rw [deserializeBorrowedStr] at h
  split at h
  · cases h
  rename_i b t hw
  split_ifs at h with hb
  · split at h
    · rename_i s' r' he
      cases h
      obtain ⟨hp, rfl⟩ := parseStr_borrowed he
      rw [(UInt8.toNat.inj hb : b = 0x22)] at hw
      have hq : 0x22 :: s.bytes ++ [0x22] <:+: 0x22 :: (s.bytes ++ 0x22 :: r) := ⟨[], r, by simp⟩
      exact ⟨hp, hq.trans (suffix_of_parseWhitespace hw).isInfix⟩
    · cases h
    · cases h

/-- What the derived visitor given `bs` may return when the field read so far is `acc`: an error
other than running out of fuel, or a suffix of `bs` and a method that is `acc` or stands in
`bs` between quotes. -/
def Visits (acc : Option Str) (bs : Bytes) : Except ErrorCode (Str × Bytes) → Prop
  | .ok (s, r) => r <:+ bs ∧ (acc = some s ∨ Quoted s.bytes bs)
  | .error e => e ≠ .outOfFuel

theorem Visits.mono {acc : Option Str} {r bs : Bytes} {x : Except ErrorCode (Str × Bytes)}
    (h : Visits acc r x) (hr : r <:+ bs) : Visits acc bs x := by
  rcases x with e | ⟨s, t⟩
  · exact h
  · exact ⟨h.1.trans hr, h.2.imp_right fun hq => hq.mono hr⟩

theorem Visits.of_ok {acc : Option Str} {bs : Bytes} {x : Except ErrorCode (Str × Bytes)}
    (h : Visits acc bs x) {s : Str} {r : Bytes} (hx : x = .ok (s, r)) :
    r <:+ bs ∧ (acc = some s ∨ Quoted s.bytes bs) := by
  subst hx; exact h

theorem Visits.of_error {acc : Option Str} {bs : Bytes} {x : Except ErrorCode (Str × Bytes)}
    (h : Visits acc bs x) {e : ErrorCode} (hx : x = .error e) : e ≠ .outOfFuel := by
  subst hx; exact h

/-- A field read from `bs` and the visit that goes on after it. -/
theorem Visits.of_found {acc : Option Str} {s : Str} {r bs : Bytes}
    {x : Except ErrorCode (Str × Bytes)} (h : Visits (some s) r x) (hs : Quoted s.bytes bs)
    (hr : r <:+ bs) : Visits acc bs x := by
  rcases x with e | ⟨s', t⟩
  · exact h
  · refine ⟨h.1.trans hr, .inr ?_⟩
    rcases h.2 with h' | hq
    · exact Option.some.inj h' ▸ hs
    · exact hq.mono hr

mutual

theorem visitMap_visits : ∀ (n : Nat) (first : Bool) (acc : Option Str) (bs : Bytes),
    bs.length < n → Visits acc bs (visitMap n first acc bs)
  | 0, _, _, _, h => absurd h (Nat.not_lt_zero _)
  | n + 1, first, acc, bs, h => by
    rw [visitMap]
    split
    · exact (by decide : ErrorCode.eofWhileParsingObject ≠ .outOfFuel)
    rename_i b r hw
    have hs := suffix_of_parseWhitespace hw
    have hl := length_lt_of_parseWhitespace hw
    by_cases hb : b.toNat = 0x7D
    · rw [if_pos hb]
      cases acc with
      | none => exact (by decide : ErrorCode.missingField "method" ≠ .outOfFuel)
      | some s => exact ⟨hs, .inl rfl⟩
    · rw [if_neg hb]
      have hk := nextKey_reads first b r
      split
      · rename_i e he
        exact hk.of_error he
      · rename_i r₁ he
        have h₁ : r₁ <:+ r := hk.of_ok he
        exact (visitField_visits n acc r₁ (by have := h₁.length_le; omega)).mono
          (h₁.trans ((List.suffix_cons b r).trans hs))

theorem visitField_visits : ∀ (n : Nat) (acc : Option Str) (bs : Bytes),
    bs.length < n → Visits acc bs (visitField n acc bs)
  | 0, _, _, h => absurd h (Nat.not_lt_zero _)
  | n + 1, acc, bs, h => by
    rw [visitField]
    have hp := parseStr_reads bs
    split
    · rename_i e he
      exact hp.of_error he
    rename_i key r₁ he
    have h₁ : r₁ <:+ bs := (hp.of_ok he).trans (List.tail_suffix bs)
    have hl₁ := length_lt_of_parseStr he
    have hc := parseObjectColon_reads r₁
    by_cases hm : key.str.bytes = Utf8.ofString "method"
    · rw [if_pos hm]
      by_cases hs : acc.isSome
      · rw [if_pos hs]
        exact (by decide : ErrorCode.duplicateField "method" ≠ .outOfFuel)
      rw [if_neg hs]
      split
      · rename_i e he₂
        exact hc.of_error he₂
      rename_i r₂ he₂
      have h₂ : r₂ <:+ r₁ := hc.of_ok he₂
      have hd := deserializeBorrowedStr_reads r₂
      split
      · rename_i e he₃
        exact hd.of_error he₃
      rename_i s r₃ he₃
      have h₃ : r₃ <:+ r₂ := hd.of_ok he₃
      exact (visitMap_visits n false (some s) r₃
        (by have := h₃.length_le; have := h₂.length_le; omega)).of_found
        ((deserializeBorrowedStr_quoted he₃).mono (h₂.trans h₁)) (h₃.trans (h₂.trans h₁))
    · rw [if_neg hm]
      split
      · rename_i e he₂
        exact hc.of_error he₂
      rename_i r₂ he₂
      have h₂ : r₂ <:+ r₁ := hc.of_ok he₂
      have hv := ignoreValue_reads n r₂ (by have := h₂.length_le; omega)
      split
      · rename_i e he₃
        exact hv.of_error he₃
      rename_i r₃ he₃
      have h₃ : r₃ <:+ r₂ := hv.of_ok he₃
      exact (visitMap_visits n false acc r₃
        (by have := h₃.length_le; have := h₂.length_le; omega)).mono (h₃.trans (h₂.trans h₁))

end

theorem visitSeq_visits (bs : Bytes) : Visits none bs (visitSeq bs) := by
  rw [visitSeq]
  split
  · exact (by decide : ErrorCode.eofWhileParsingList ≠ .outOfFuel)
  rename_i b r hw
  have hs := suffix_of_parseWhitespace hw
  split
  · exact (by decide : ErrorCode.invalidLength ≠ .outOfFuel)
  have hd := deserializeBorrowedStr_reads (b :: r)
  cases hx : deserializeBorrowedStr (b :: r) with
  | error e => exact hd.of_error hx
  | ok v => exact ⟨(hd.of_ok hx).trans hs, .inr ((deserializeBorrowedStr_quoted hx).mono hs)⟩

/-- A visit, then an end check that reads a suffix of what the visit left. -/
theorem Visits.ended {acc : Option Str} {bs : Bytes} {x : Except ErrorCode (Str × Bytes)}
    {f : Bytes → Except ErrorCode Bytes} (hf : ∀ r, Reads r id (f r)) :
    Visits acc bs x → Visits acc bs (match x with
      | .error e => .error e
      | .ok (s, r) =>
        match f r with
        | .error e => .error e
        | .ok r => .ok (s, r)) := by
  intro hv
  rcases x with e | ⟨s, r₁⟩
  · exact hv
  · dsimp only
    have hr := hf r₁
    split
    · rename_i e he
      exact hr.of_error he
    · rename_i r₂ he
      exact ⟨(hr.of_ok he).trans hv.1, hv.2⟩

/-- `deserialize_struct`: a sequence or a map, each closed by its end check. -/
theorem deserializeStruct_visits (fuel : Nat) (bs : Bytes) (h : bs.length < fuel) :
    Visits none bs (deserializeStruct fuel bs) := by
  rw [deserializeStruct]
  split
  · exact (by decide : ErrorCode.eofWhileParsingValue ≠ .outOfFuel)
  rename_i b r hw
  have hs : r <:+ bs := (List.suffix_cons b r).trans (suffix_of_parseWhitespace hw)
  have hl := length_lt_of_parseWhitespace hw
  by_cases h₁ : b.toNat = 0x5B
  · rw [if_pos h₁]
    exact Visits.ended endSeq_reads ((visitSeq_visits r).mono hs)
  rw [if_neg h₁]
  by_cases h₂ : b.toNat = 0x7B
  · rw [if_pos h₂]
    exact Visits.ended endMap_reads ((visitMap_visits fuel true none r (by omega)).mono hs)
  · rw [if_neg h₂]
    exact peekInvalidType_ne_outOfFuel (b :: r)

/-- The fuel `from_slice` gives is enough for any body: the fuel-bounded model accepts and
refuses what the code, whose loops have no such bound, does. -/
theorem fromSlice_ne_outOfFuel (body : Bytes) : fromSlice body ≠ .error .outOfFuel := by
  have hd := deserializeStruct_visits (body.length + 1) body (Nat.lt_succ_self _)
  rw [fromSlice]
  split
  · rename_i e he
    exact fun h => hd.of_error he (Except.error.inj h)
  · split <;> exact nofun

/-- The method `from_slice::<RpcRequest>` returns is borrowed from the body: its bytes stand in
the body as they are, between two quotes, and none is a control byte, a quote or a backslash. -/
theorem fromSlice_method_borrowed {body : Bytes} {rpc : RpcRequest} (h : fromSlice body = .ok rpc) :
    (∀ b ∈ rpc.method.bytes, Plain b) ∧ 0x22 :: rpc.method.bytes ++ [0x22] <:+: body := by
  have hd := deserializeStruct_visits (body.length + 1) body (Nat.lt_succ_self _)
  rw [fromSlice] at h
  split at h
  · cases h
  rename_i s r he
  split_ifs at h
  cases h
  rcases (hd.of_ok he).2 with h' | hq
  · cases h'
  · exact hq

/-- A request whose method is `eth_chainId`. -/
def chainIdRpc : RpcRequest := ⟨⟨Utf8.ofString "eth_chainId", by decide⟩⟩

theorem fromSlice_method_borrowed_chainId :
    (∀ b ∈ chainIdRpc.method.bytes, Plain b) ∧
      0x22 :: chainIdRpc.method.bytes ++ [0x22] <:+:
        Utf8.ofString "\x7b\"id\":1,\"method\":\"eth_chainId\",\"params\":[]\x7d" :=
  fromSlice_method_borrowed (by decide)

end Json
end RollupBoost
