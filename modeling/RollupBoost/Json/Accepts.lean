import RollupBoost.Json.Derive

/-!
# Json.Accepts — the bodies `from_slice::<RpcRequest>` accepts

`Json.Method` runs `from_slice` forwards over bodies built from the grammar. This module runs it
backwards: on a body that is valid UTF-8, each step of the derived visitor that succeeds has
read a piece of the grammar (`parseObjectColon_ok`, `visitSeq_sound`, `visitMap_sound`), and
`fromSlice_sound` puts the pieces together into a `MethodBody`, whitespace around an object that
names the method exactly once, or around a one-element array holding it. With the forward runs
of `Json.Method` (`fromSlice_of_methodBody`) this characterizes the accepted bodies:
`fromSlice_ok_iff`.

The map visitor is read with the continuation form of `Json.Derive`: `visitMap_sound` is told the
member before the bytes it reads, as a function of the whitespace that will end it.
-/

namespace RollupBoost
namespace Json

open SerdeJson

/-! ## The steps of the visitor -/

theorem parseObjectColon_ok {bs r : Bytes} (h : parseObjectColon bs = .ok r) :
    ∃ mid : Ws, bs = mid.bytes ++ 0x3A :: r := by
  rw [parseObjectColon] at h
  split at h
  · cases h
  rename_i b t hw
  rw [ite_eq_iff] at h
  rcases h with ⟨hb, h⟩ | ⟨-, h⟩
  · cases h
    obtain ⟨mid, rfl⟩ := Ws.of_parseWhitespace hw
    exact ⟨mid, by rw [show b = 0x3A from UInt8.toNat.inj hb]⟩
  · cases h

theorem nextKey_ok {first : Bool} {b : UInt8} {t t₂ : Bytes} (h : nextKey first b t = .ok t₂) :
    (first = true ∧ b.toNat = 0x22 ∧ t₂ = t) ∨
      (first = false ∧ b.toNat = 0x2C ∧ parseWhitespace t = 0x22 :: t₂) := by
  unfold nextKey at h
  cases first with
  | true =>
    simp only [Bool.true_eq_false, and_false, ite_false, ite_true] at h
    rw [ite_eq_iff] at h
    rcases h with ⟨hb, h⟩ | ⟨-, h⟩
    · cases h; exact .inl ⟨rfl, hb, rfl⟩
    · split_ifs at h
  | false =>
    simp only [and_true, Bool.false_eq_true, ite_false] at h
    split_ifs at h with hb
    cases hw : parseWhitespace t with
    | nil => rw [hw] at h; cases h
    | cons k r =>
      rw [hw] at h
      dsimp only at h
      rw [ite_eq_iff] at h
      rcases h with ⟨hk, h⟩ | ⟨-, h⟩
      · cases h
        exact .inr ⟨rfl, hb, by rw [show k = 0x22 from UInt8.toNat.inj hk]⟩
      · split_ifs at h

/-- On a valid text, a string `deserialize_str` gives for a `&str` is, after whitespace, a literal
with no escape standing for the string. -/
theorem deserializeBorrowedStr_sound {bs r : Bytes} {s : Str}
    (h : deserializeBorrowedStr bs = .ok (s, r)) (hv : Utf8.valid bs) :
    ∃ (t : Bytes) (sl : StrLit), parseWhitespace bs = 0x22 :: t ∧ t = sl.body ++ 0x22 :: r ∧
      sl.plain.isSome ∧ sl.value = some s.bytes := by
  rw [deserializeBorrowedStr] at h
  split at h
  · cases h
  rename_i b t hw
  rw [ite_eq_iff] at h
  rcases h with ⟨hb, h⟩ | ⟨-, h⟩
  · split at h
    · rename_i s' r' hp
      cases h
      obtain ⟨w, hw'⟩ := Ws.of_parseWhitespace hw
      obtain ⟨sl, v, hvv, rfl, hsv, href⟩ := parseStr_sound hp (valid_ws_cons (hw' ▸ hv) (by omega))
      cases hsp : sl.plain with
      | none => simp [hsp] at href
      | some cs =>
        simp only [hsp, Option.isNone_some, Bool.false_eq_true, ite_false, Reference.borrowed.injEq]
          at href
        subst href
        exact ⟨_, sl, by rw [hw, show b = 0x22 from UInt8.toNat.inj hb], rfl, by rw [hsp]; rfl, hsv⟩
    · cases h
    · cases h
  · cases h

theorem visitSeq_sound {bs r : Bytes} {s : Str} (h : visitSeq bs = .ok (s, r)) (hv : Utf8.valid bs) :
    ∃ (p : Ws) (sl : StrLit), bs = p.bytes ++ 0x22 :: (sl.body ++ 0x22 :: r) ∧ sl.plain.isSome ∧
      sl.value = some s.bytes := by
  rw [visitSeq] at h
  split at h
  · cases h
  rename_i b t hw
  rw [ite_eq_iff] at h
  rcases h with ⟨-, h⟩ | ⟨-, h⟩
  · cases h
  obtain ⟨p, hp⟩ := Ws.of_parseWhitespace hw
  obtain ⟨t', sl, hw', rfl, hpl, hsv⟩ := deserializeBorrowedStr_sound h (valid_rest p.valid (hp ▸ hv))
  rw [← hw] at hw'
  simp only [parseWhitespace, List.dropWhile_idempotent] at hw'
  obtain ⟨p', rfl⟩ := Ws.of_parseWhitespace hw'
  exact ⟨p', sl, rfl, hpl, hsv⟩

theorem endSeq_ok {bs r : Bytes} (h : endSeq bs = .ok r) : ∃ q : Ws, bs = q.bytes ++ 0x5D :: r := by
  rw [endSeq] at h
  split at h
  · cases h
  rename_i b t hw
  rw [ite_eq_iff] at h
  rcases h with ⟨hb, h⟩ | ⟨-, h⟩
  · cases h
    obtain ⟨q, rfl⟩ := Ws.of_parseWhitespace hw
    exact ⟨q, by rw [show b = 0x5D from UInt8.toNat.inj hb]⟩
  · split_ifs at h
    split at h
    · split_ifs at h
    · cases h

/-! ## What the visitor reads -/

/-- The member the derived visitor takes the method from: its key reads as `method`, and its
value is a string with no escape, standing for `v`. -/
def Member.IsMethod (m : Member) (v : Bytes) : Prop :=
  m.key.value = some (Utf8.ofString "method") ∧
    ∃ (p q : Ws) (s : StrLit), m.val = .mk p (.string s) q ∧ s.plain.isSome ∧ s.value = some v

/-- What the derived visitor has read in the members `ms` when it returns `v`, having found the
field `acc` before them: with no field yet, exactly one of them is the method, standing for
`v`; with one, none of them is, and `v` is that field. Every other key reads as a string other
than `method`. -/
def FoundMethod : Option Str → List Member → Bytes → Prop
  | none, ms, v => ∃ before m after, ms = before ++ m :: after ∧
      (∀ x ∈ before ++ after, x.OtherKey) ∧ m.IsMethod v
  | some a, ms, v => a.bytes = v ∧ ∀ x ∈ ms, x.OtherKey

theorem FoundMethod.cons_other {acc : Option Str} {ms : List Member} {v : Bytes} {x : Member}
    (hx : x.OtherKey) (h : FoundMethod acc ms v) : FoundMethod acc (x :: ms) v := by
  cases acc with
  | none =>
    obtain ⟨before, m, after, rfl, ho, hm⟩ := h
    refine ⟨x :: before, m, after, rfl, fun y hy => ?_, hm⟩
    rcases List.mem_cons.1 hy with rfl | hy
    exacts [hx, ho y hy]
  | some a =>
    exact ⟨h.1, fun y hy => (List.mem_cons.1 hy).elim (· ▸ hx) (h.2 y)⟩

theorem FoundMethod.cons_method {a : Str} {ms : List Member} {v : Bytes} {m : Member}
    (hm : m.IsMethod a.bytes) (h : FoundMethod (some a) ms v) : FoundMethod none (m :: ms) v :=
  ⟨[], m, ms, rfl, h.2, h.1 ▸ hm⟩

theorem valid_quoted {w : Ws} {s : StrLit} {r : Bytes}
    (h : Utf8.valid (w.bytes ++ 0x22 :: (s.body ++ 0x22 :: r))) : Utf8.valid r := by
  have := valid_rest s.valid_body (valid_ws_cons h (by decide))
  rwa [Utf8.valid_cons_of_lt (by decide)] at this

mutual

/-- After a member, `visit_map` reads `,` and more members, or the `}` that ends the map, where
it stops. `m` is the member just read, still without the whitespace that ends it. -/
theorem visitMap_sound : ∀ (n : Nat) {acc : Option Str} {bs : Bytes} {s : Str} {r : Bytes},
    visitMap n false acc bs = .ok (s, r) → Utf8.valid bs →
    ∀ (x : Bytes) (m : Ws → Member), (∀ w, (m w).render = x ++ w.bytes) →
    ∃ (w : Ws) (ms : Members) (rest : List Member) (r' : Bytes),
      x ++ bs = ms.render ++ 0x7D :: r' ∧ r = 0x7D :: r' ∧ ms.toList = m w :: rest ∧
        FoundMethod acc rest s.bytes
  | 0, _, _, _, _, h, _ => by cases h
  | n + 1, acc, bs, s, r, h, hv => by
    intro x m hm
    rw [visitMap] at h
    split at h
    · cases h
    rename_i b t hw
    obtain ⟨w, rfl⟩ := Ws.of_parseWhitespace hw
    rw [ite_eq_iff] at h
    rcases h with ⟨hb, h⟩ | ⟨-, h⟩
    · rw [show b = 0x7D from UInt8.toNat.inj hb] at h ⊢
      cases acc with
      | none => cases h
      | some a =>
        cases h
        refine ⟨w, .one (m w), [], t, ?_, rfl, rfl, rfl, nofun⟩
        rw [Members.render, hm, List.append_assoc]
    split at h
    · cases h
    rename_i t₂ hk
    rcases nextKey_ok hk with ⟨h₁, -⟩ | ⟨-, hc, hw₂⟩
    · cases h₁
    rw [show b = 0x2C from UInt8.toNat.inj hc] at hv ⊢
    obtain ⟨pre, rfl⟩ := Ws.of_parseWhitespace hw₂
    obtain ⟨ms, r', hms, rfl, hf⟩ :=
      visitField_sound n h (valid_ws_cons (valid_ws_cons hv (by decide)) (by decide)) pre
    refine ⟨w, .cons (m w) ms, ms.toList, r', ?_, rfl, rfl, hf⟩
    rw [Members.render, hm, hms]
    simp only [List.append_assoc, List.cons_append]

/-- `visit_map` after the quote that opens a key: the member it starts, and what follows it.
`pre` is the whitespace read before the quote. -/
theorem visitField_sound : ∀ (n : Nat) {acc : Option Str} {bs : Bytes} {s : Str} {r : Bytes},
    visitField n acc bs = .ok (s, r) → Utf8.valid bs → ∀ pre : Ws,
    ∃ (ms : Members) (r' : Bytes), pre.bytes ++ 0x22 :: bs = ms.render ++ 0x7D :: r' ∧
      r = 0x7D :: r' ∧ FoundMethod acc ms.toList s.bytes
  | 0, _, _, _, _, h, _ => by cases h
  | n + 1, acc, bs, s, r, h, hv => by
    intro pre
    rw [visitField] at h
    split at h
    · cases h
    rename_i key r₁ hkey
    obtain ⟨k, kv, hkv, rfl, hk, hkey'⟩ := parseStr_sound hkey hv
    have hkb : key.str.bytes = kv := by rw [hkey']; split <;> rfl
    have hv₁ := valid_rest k.valid_body hv
    rw [Utf8.valid_cons_of_lt (by decide)] at hv₁
    rw [ite_eq_iff] at h
    rcases h with ⟨hmeth, h⟩ | ⟨hmeth, h⟩
    · rw [ite_eq_iff] at h
      rcases h with ⟨-, h⟩ | ⟨hsome, h⟩
      · cases h
      obtain rfl : acc = none := Option.not_isSome_iff_eq_none.1 hsome
      split at h
      · cases h
      rename_i r₂ hcol
      obtain ⟨mid, rfl⟩ := parseObjectColon_ok hcol
      split at h
      · cases h
      rename_i s₀ r₃ hds
      obtain ⟨t, sl, hw, rfl, hpl, hsv⟩ :=
        deserializeBorrowedStr_sound hds (valid_ws_cons hv₁ (by decide))
      obtain ⟨p, rfl⟩ := Ws.of_parseWhitespace hw
      obtain ⟨q, ms, rest, r', hms, rfl, hlist, hf⟩ := visitMap_sound n h
        (valid_quoted (valid_ws_cons hv₁ (by decide)))
        (pre.bytes ++ k.render ++ mid.bytes ++ 0x3A :: (p.bytes ++ (Value.string sl).render))
        (fun q => .mk pre k mid (.mk p (.string sl) q)) fun q => by
          simp only [Member.render, Element.render, List.append_assoc, List.cons_append]
      refine ⟨ms, r', ?_, rfl, ?_⟩
      · rw [← hms]
        simp only [StrLit.render, Value.render, List.append_assoc, List.cons_append,
          List.nil_append]
      · rw [hlist]
        exact .cons_method ⟨hk.trans (congrArg some (hkb.symm.trans hmeth)), p, q, sl, rfl, hpl,
          hsv⟩ hf
    · split at h
      · cases h
      rename_i r₂ hcol
      obtain ⟨mid, rfl⟩ := parseObjectColon_ok hcol
      split at h
      · cases h
      rename_i r₃ hig
      have hv₂ := valid_ws_cons hv₁ (by decide)
      obtain ⟨p, v, rfl⟩ := ignoreValue_sound n hig hv₂
      obtain ⟨q, ms, rest, r', hms, rfl, hlist, hf⟩ := visitMap_sound n h
        (valid_rest (Utf8.valid_append p.valid v.valid) hv₂)
        (pre.bytes ++ k.render ++ mid.bytes ++ 0x3A :: (p.bytes ++ v.render))
        (fun q => .mk pre k mid (.mk p v q)) fun q => by
          simp only [Member.render, Element.render, List.append_assoc, List.cons_append]
      refine ⟨ms, r', ?_, rfl, ?_⟩
      · rw [← hms]
        simp only [StrLit.render, List.append_assoc, List.cons_append, List.nil_append]
      · rw [hlist]
        exact .cons_other ⟨kv, hk, hkb ▸ hmeth⟩ hf

end

/-- `visit_map` from the brace that opens the map: its members, up to the `}` that ends it. -/
theorem visitMap_first_sound {n : Nat} {bs : Bytes} {s : Str} {r : Bytes}
    (h : visitMap n true none bs = .ok (s, r)) (hv : Utf8.valid bs) :
    ∃ (ms : Members) (r' : Bytes), bs = ms.render ++ 0x7D :: r' ∧ r = 0x7D :: r' ∧
      FoundMethod none ms.toList s.bytes := by
  cases n with
  | zero => cases h
  | succ n =>
    rw [visitMap] at h
    split at h
    · cases h
    rename_i b t hw
    obtain ⟨pre, rfl⟩ := Ws.of_parseWhitespace hw
    rw [ite_eq_iff] at h
    rcases h with ⟨-, h⟩ | ⟨-, h⟩
    · cases h
    split at h
    · cases h
    rename_i t₂ hk
    rcases nextKey_ok hk with ⟨-, hb, rfl⟩ | ⟨h₁, -⟩
    · rw [show b = 0x22 from UInt8.toNat.inj hb] at hv ⊢
      exact visitField_sound n h (valid_ws_cons hv (by decide)) pre
    · cases h₁

/-! ## The bodies `from_slice` accepts -/

/-- The bodies `from_slice::<RpcRequest>` reads with method `v`: whitespace around an object
whose members name the method exactly once, as a string with no escape standing for `v`, among
members whose keys read as other strings; or whitespace around a one-element array holding such
a string. -/
def MethodBody (body v : Bytes) : Prop :=
  ∃ w₁ w₂ : Ws,
    (∃ ms : Members, FoundMethod none ms.toList v ∧
      body = w₁.bytes ++ (Value.object ms).render ++ w₂.bytes) ∨
    ∃ (p q : Ws) (s : StrLit), s.plain.isSome ∧ s.value = some v ∧
      body = w₁.bytes ++ (Value.array (.one (.mk p (.string s) q))).render ++ w₂.bytes

/-- On a UTF-8 body, what `from_slice::<RpcRequest>` accepts is a method body for the method it
returns. -/
theorem fromSlice_sound {body : Bytes} {rpc : RpcRequest} (h : fromSlice body = .ok rpc)
    (hu : Utf8.valid body) : MethodBody body rpc.method.bytes := by
  rw [fromSlice] at h
  split at h
  · cases h
  rename_i s r hds
  rw [ite_eq_iff] at h
  rcases h with ⟨hr, h⟩ | ⟨-, h⟩
  swap
  · cases h
  cases h
  obtain ⟨w₂, hw₂⟩ := Ws.split r
  rw [hr, List.append_nil] at hw₂
  subst hw₂
  rw [deserializeStruct] at hds
  split at hds
  · cases hds
  rename_i b t hw
  obtain ⟨w₁, rfl⟩ := Ws.of_parseWhitespace hw
  refine ⟨w₁, w₂, ?_⟩
  rw [ite_eq_iff] at hds
  rcases hds with ⟨h₁, hds⟩ | ⟨-, hds⟩
  · split at hds
    · cases hds
    rename_i s' r₁ hseq
    split at hds
    · cases hds
    rename_i r₂ hend
    cases hds
    obtain ⟨p, sl, rfl, hpl, hsv⟩ := visitSeq_sound hseq (valid_ws_cons hu (by omega))
    obtain ⟨q, rfl⟩ := endSeq_ok hend
    refine .inr ⟨p, q, sl, hpl, hsv, ?_⟩
    rw [show b = 0x5B from UInt8.toNat.inj h₁]
    simp only [Value.render, Elements.render, Element.render, StrLit.render, List.append_assoc,
      List.cons_append, List.nil_append]
  rw [ite_eq_iff] at hds
  rcases hds with ⟨h₂, hds⟩ | ⟨-, hds⟩
  · split at hds
    · cases hds
    rename_i s' r₁ hmap
    split at hds
    · cases hds
    rename_i r₂ hend
    cases hds
    obtain ⟨ms, r', rfl, rfl, hf⟩ := visitMap_first_sound hmap (valid_ws_cons hu (by omega))
    rw [endMap_close] at hend
    cases hend
    refine .inl ⟨ms, hf, ?_⟩
    rw [show b = 0x7B from UInt8.toNat.inj h₂]
    simp only [Value.render, List.append_assoc, List.cons_append, List.nil_append]
  · cases hds

/-- `from_slice::<RpcRequest>` reads every method body, on any bytes. -/
theorem fromSlice_of_methodBody {body v : Bytes} (h : MethodBody body v) :
    ∃ hv : Utf8.valid v, fromSlice body = .ok ⟨⟨v, hv⟩⟩ := by
  obtain ⟨w₁, w₂, ⟨ms, ⟨before, m, after, hms, hother, hk, p, q, s, hm, hpl, hsv⟩, rfl⟩ |
    ⟨p, q, s, hpl, hsv, rfl⟩⟩ := h
  · have hv := StrLit.decode_valid (fun _ h => absurd h (by simp)) hsv
    refine ⟨hv, ?_⟩
    rw [fromSlice_object w₁ w₂ fun k hk' => Members.visit_method hk hm hsv hv
      (fun x hx => hother x (List.mem_append_right before hx)) ms before k w₂.bytes hms
      (fun x hx => hother x (List.mem_append_left after hx)) hk',
      (Option.isNone_eq_false_iff _).2 hpl]
    rfl
  · have hv := StrLit.decode_valid (fun _ h => absurd h (by simp)) hsv
    refine ⟨hv, ?_⟩
    rw [fromSlice_string_array w₁ w₂ p q hsv hv, (Option.isNone_eq_false_iff _).2 hpl]
    rfl

/-- On a UTF-8 body, `from_slice::<RpcRequest>` accepts exactly the method bodies, and returns
the method they name. -/
theorem fromSlice_ok_iff {body : Bytes} (hu : Utf8.valid body) (rpc : RpcRequest) :
    fromSlice body = .ok rpc ↔ MethodBody body rpc.method.bytes := by
  refine ⟨fun h => fromSlice_sound h hu, fun h => ?_⟩
  obtain ⟨hv, hf⟩ := fromSlice_of_methodBody h
  rw [hf]

theorem fromSlice_ok_iff_chainId :
    fromSlice (Utf8.ofString "\x7b\"method\":\"eth_chainId\"\x7d") = .ok ⟨chainIdStr⟩ ↔
      MethodBody (Utf8.ofString "\x7b\"method\":\"eth_chainId\"\x7d") chainIdStr.bytes :=
  fromSlice_ok_iff (by decide) ⟨chainIdStr⟩

theorem chainIdMember_isMethod : chainIdMember.IsMethod (Utf8.ofString "eth_chainId") :=
  ⟨StrLit.value_of_plain (StrLit.plain_ofPlain _ _), noWs, noWs, _, rfl, rfl,
    StrLit.value_of_plain (StrLit.plain_ofPlain _ _)⟩

end Json
end RollupBoost
