import RollupBoost.Json.Complete

/-!
# Json.Method — the method `from_slice::<RpcRequest>` reads from a JSON text

`ProxyService::call` takes the method from the body before it routes the request. Held to the
grammar of `Json.Syntax`: a body that is one object, whose keys `parse_str` reads, and which
has one member named `method` whose value is a string, gives that string's value, whatever the
other members are, in whatever order, however deep their values nest (`fromSlice_method`).
That holds only when the method string has no escape. The field is a `&'a str` borrowed from the
body (`#[serde(borrow)]`); a string that had to be unescaped lives in the scratch buffer, not in
the body, so `deserialize_str` refuses it with `invalid_type`. An object with no member named
`method` is `missing_field` (`fromSlice_missing_method`), and the derived `visit_seq` reads the
struct from an array as well: a one-element array holding a string is read like the object
(`fromSlice_array`). A string value that is skipped is never checked to be UTF-8: a member
before the method may hold any bytes a string needs no escape for (`fromSlice_rawMember`).

The proofs follow the visitor one member at a time (`visitField_other`, `visitField_method`),
then over all the members of an object (`Members.visit_other`, `Members.visit_method`).
-/

namespace RollupBoost
namespace Json

open SerdeJson

/-! ## One member -/

section
variable (n : Nat) (acc : Option Str)

theorem visitMap_close (first : Bool) (w : Ws) (r : Bytes) :
    visitMap (n + 1) first acc (w.bytes ++ 0x7D :: r) = (fieldOrMissing acc).map (·, 0x7D :: r) := by
  rw [visitMap, parseWhitespace_ws_cons w (by decide)]
  rfl

theorem visitMap_first {bs x : Bytes} (hx : parseWhitespace bs = 0x22 :: x) :
    visitMap (n + 1) true acc bs = visitField n acc x := by
  rw [visitMap, hx]
  rfl

theorem visitMap_comma (w : Ws) {y x : Bytes} (hx : parseWhitespace y = 0x22 :: x) :
    visitMap (n + 1) false acc (w.bytes ++ 0x2C :: y) = visitField n acc x := by
  rw [visitMap, parseWhitespace_ws_cons w (by decide)]
  simp only [nextKey, hx]
  rfl

theorem parseObjectColon_ws (w : Ws) (r : Bytes) : parseObjectColon (w.bytes ++ 0x3A :: r) = .ok r := by
  rw [parseObjectColon, parseWhitespace_ws_cons w (by decide)]
  rfl

/-- `parse_str` reads a key whose surrogate escapes pair up as the bytes it stands for. -/
theorem parseStr_key {k : StrLit} {kv : Bytes} (hk : k.value = some kv) (r : Bytes) :
    ∃ key : Reference, parseStr (k.body ++ 0x22 :: r) = .ok (key, r) ∧ key.str.bytes = kv := by
  obtain ⟨_, hp⟩ := parseStr_of_value hk r
  exact ⟨_, hp, by split <;> rfl⟩

/-- `deserialize_str` into a `&str` at a string element: the string when it has no escape. -/
theorem deserializeBorrowedStr_string (p q : Ws) {s : StrLit} {v : Bytes} (hv : s.value = some v)
    (h : Utf8.valid v) (t : Bytes) :
    deserializeBorrowedStr ((Element.mk p (.string s) q).render ++ t) =
      if s.plain.isNone then .error .invalidType else .ok (⟨v, h⟩, q.bytes ++ t) := by
  obtain ⟨_, hp⟩ := parseStr_of_value hv (q.bytes ++ t)
  simp only [Element.render, Value.render, StrLit.render, List.append_assoc, List.cons_append,
    List.nil_append]
  rw [deserializeBorrowedStr, parseWhitespace_ws_cons p (by decide)]
  simp only [show (0x22 : UInt8).toNat = 0x22 from rfl, ite_true, hp]
  cases s.plain.isNone <;> rfl

/-- A member whose key `parse_str` reads as something other than `method`. -/
def Member.OtherKey (m : Member) : Prop :=
  ∃ kv, m.key.value = some kv ∧ kv ≠ Utf8.ofString "method"

/-- A member whose key is not `method`: its value is skipped, and the field stays as it was. -/
theorem visitField_other {m : Member} (hk : m.OtherKey) (hn : m.val.render.length < n) {t : Bytes}
    (ht : NumberEnd t) :
    visitField (n + 1) acc (m.afterQuote ++ t) = visitMap n false acc (m.val.post.bytes ++ t) := by
  obtain ⟨pre, k, mid, v⟩ := m
  obtain ⟨kv, hkv, hne⟩ := hk
  obtain ⟨key, hp, hkey⟩ := parseStr_key (show k.value = some kv from hkv)
    (mid.bytes ++ 0x3A :: (v.render ++ t))
  simp only [Member.afterQuote, Member.val, List.append_assoc, List.cons_append] at hn ⊢
  rw [visitField, hp]
  simp only [hkey, if_neg hne, parseObjectColon_ws, Element.ignore v n t hn ht]

/-- The first member named `method`: its value is read as a borrowed string. -/
theorem visitField_method {m : Member} (hk : m.key.value = some (Utf8.ofString "method"))
    {p q : Ws} {s : StrLit} (hm : m.val = .mk p (.string s) q) {v : Bytes} (hv : s.value = some v)
    (h : Utf8.valid v) (t : Bytes) :
    visitField (n + 1) none (m.afterQuote ++ t) =
      if s.plain.isNone then .error .invalidType else visitMap n false (some ⟨v, h⟩) (q.bytes ++ t) := by
  obtain ⟨pre, k, mid, val⟩ := m
  obtain rfl : val = .mk p (.string s) q := hm
  obtain ⟨key, hp, hkey⟩ := parseStr_key (show k.value = some _ from hk)
    (mid.bytes ++ 0x3A :: ((Element.mk p (.string s) q).render ++ t))
  simp only [Member.afterQuote, List.append_assoc, List.cons_append]
  rw [visitField, hp]
  simp only [hkey, ite_true, Option.isSome_none, Bool.false_eq_true, ite_false, parseObjectColon_ws,
    deserializeBorrowedStr_string p q hv h]
  cases s.plain.isNone <;> rfl

/-- A member whose key is not `method` and whose value is a string of bytes that need no escape,
whatever they encode: `ignore_str` skips the value without looking at it. -/
theorem visitField_other_raw {k : StrLit} {kv : Bytes} (hk : k.value = some kv)
    (hne : kv ≠ Utf8.ofString "method") (mid p : Ws) {x : Bytes} (hx : ∀ b ∈ x, Plain b)
    (t : Bytes) :
    visitField (n + 2) acc (k.body ++ 0x22 :: (mid.bytes ++ 0x3A :: (p.bytes ++ 0x22 :: (x ++ 0x22 :: t)))) =
      visitMap (n + 1) false acc t := by
  obtain ⟨key, hp, hkey⟩ := parseStr_key hk (mid.bytes ++ 0x3A :: (p.bytes ++ 0x22 :: (x ++ 0x22 :: t)))
  rw [visitField, hp]
  simp only [hkey, if_neg hne, parseObjectColon_ws, ignoreValue_ws, ignoreValue_quote, ignoreStr,
    ignoreStrFrom_plain_append hx, ignoreStrFrom_quote]

end

/-! ## Every member of an object -/

/-- An object none of whose keys is `method` leaves the field as it was. -/
theorem Members.visit_other : ∀ (ms : Members) (k : Nat) (acc : Option Str) (r : Bytes),
    (∀ m ∈ ms.toList, m.OtherKey) → ms.render.length < k →
    visitField k acc (ms.afterQuote ++ 0x7D :: r) = (fieldOrMissing acc).map (·, 0x7D :: r)
  | .one m, k, acc, r, hk, hn => by
    have := m.length_val
    obtain ⟨n, rfl⟩ : ∃ n, k = n + 2 := ⟨k - 2, by rw [Members.render] at hn; omega⟩
    rw [Members.afterQuote, visitField_other (n + 1) acc (hk m (List.mem_singleton_self m))
      (by rw [Members.render] at hn; omega) (NumberEnd.rbrace r), visitMap_close]
  | .cons m ms, k, acc, r, hk, hn => by
    have := m.length_val
    simp only [Members.render, List.length_append, List.length_cons] at hn
    obtain ⟨n, rfl⟩ : ∃ n, k = n + 2 := ⟨k - 2, by omega⟩
    rw [Members.afterQuote, List.append_assoc, List.cons_append,
      visitField_other (n + 1) acc (hk m (List.mem_cons_self m _)) (by omega) (NumberEnd.comma _),
      visitMap_comma n acc _ (ms.parseWhitespace_render _)]
    exact Members.visit_other ms n acc r (fun x hx => hk x (List.mem_cons_of_mem m hx)) (by omega)

/-- An object with one member named `method`, after members with other keys: the field is the
method's string, when it has no escape. -/
theorem Members.visit_method {m : Member} (hk : m.key.value = some (Utf8.ofString "method"))
    {p q : Ws} {s : StrLit} (hm : m.val = .mk p (.string s) q) {v : Bytes} (hv : s.value = some v)
    (h : Utf8.valid v) {after : List Member} (hafter : ∀ x ∈ after, x.OtherKey) :
    ∀ (ms : Members) (before : List Member) (k : Nat) (r : Bytes),
    ms.toList = before ++ m :: after → (∀ x ∈ before, x.OtherKey) → ms.render.length < k →
    visitField k none (ms.afterQuote ++ 0x7D :: r) =
      (if s.plain.isNone then Except.error ErrorCode.invalidType else .ok ⟨v, h⟩).map (·, 0x7D :: r)
  | .one m', before, k, r, hms, hbefore, hn => by
    have := m'.length_val
    obtain ⟨n, rfl⟩ : ∃ n, k = n + 2 := ⟨k - 2, by rw [Members.render] at hn; omega⟩
    cases before with
    | nil =>
      obtain ⟨rfl, -⟩ := List.cons.inj hms
      rw [Members.afterQuote, visitField_method (n + 1) hk hm hv h, visitMap_close]
      cases s.plain.isNone <;> rfl
    | cons b before => simp [Members.toList] at hms
  | .cons m' ms, before, k, r, hms, hbefore, hn => by
    have := m'.length_val
    simp only [Members.render, List.length_append, List.length_cons] at hn
    obtain ⟨n, rfl⟩ : ∃ n, k = n + 2 := ⟨k - 2, by omega⟩
    rw [Members.afterQuote, List.append_assoc, List.cons_append]
    cases before with
    | nil =>
      obtain ⟨rfl, hrest⟩ := List.cons.inj hms
      rw [visitField_method (n + 1) hk hm hv h, visitMap_comma n _ _ (ms.parseWhitespace_render _),
        Members.visit_other ms n _ r (hrest ▸ hafter) (by omega)]
      cases s.plain.isNone <;> rfl
    | cons b before =>
      obtain ⟨rfl, hrest⟩ := List.cons.inj hms
      rw [visitField_other (n + 1) none (hbefore m' (List.mem_cons_self m' _)) (by omega)
        (NumberEnd.comma _), visitMap_comma n none _ (ms.parseWhitespace_render _)]
      exact Members.visit_method hk hm hv h hafter ms before n r hrest
        (fun x hx => hbefore x (List.mem_cons_of_mem m' hx)) (by omega)

/-! ## The whole body -/

theorem parseWhitespace_ws (w : Ws) : parseWhitespace w.bytes = [] := by
  simpa using parseWhitespace_ws_append w []

theorem endMap_close (r : Bytes) : endMap (0x7D :: r) = .ok r := rfl

theorem endSeq_close (w : Ws) (r : Bytes) : endSeq (w.bytes ++ 0x5D :: r) = .ok r := by
  rw [endSeq, parseWhitespace_ws_cons w (by decide)]
  rfl

theorem deserializeBorrowedStr_ws (w : Ws) (x : Bytes) :
    deserializeBorrowedStr (w.bytes ++ x) = deserializeBorrowedStr x := by
  simp only [deserializeBorrowedStr, parseWhitespace_ws_append]

/-- `visit_seq` at a string element: its first element is read as a borrowed string. -/
theorem visitSeq_string (p q : Ws) (s : StrLit) (t : Bytes) :
    visitSeq ((Element.mk p (.string s) q).render ++ t) =
      deserializeBorrowedStr ((Element.mk p (.string s) q).render ++ t) := by
  simp only [Element.render, Value.render, StrLit.render, List.append_assoc, List.cons_append]
  rw [visitSeq, parseWhitespace_ws_cons p (by decide), deserializeBorrowedStr_ws]
  rfl

/-- `from_slice` on `\x7b` after whitespace: the map visitor over what follows, `end_map`, then
nothing but whitespace. -/
theorem fromSlice_map (w₁ : Ws) {y t : Bytes} {x : Except ErrorCode Str} (ht : parseWhitespace t = [])
    (hx : ∀ k, y.length < k → visitMap k true none y = x.map (·, 0x7D :: t)) :
    fromSlice (w₁.bytes ++ 0x7B :: y) = x.map RpcRequest.mk := by
  rw [fromSlice, deserializeStruct, parseWhitespace_ws_cons w₁ (by decide)]
  simp only [show (0x7B : UInt8).toNat = 0x7B from rfl, show ¬(0x7B = 0x5B) from by decide,
    ite_true, ite_false]
  rw [hx _ (by simp only [List.length_append, List.length_cons]; omega)]
  cases x <;> simp only [Except.map, endMap_close, ht, ite_true]

/-- `from_slice` on an object between whitespace gives what the visitor makes of its members. -/
theorem fromSlice_object (w₁ w₂ : Ws) {ms : Members} {x : Except ErrorCode Str}
    (hx : ∀ k, ms.render.length < k →
      visitField k none (ms.afterQuote ++ 0x7D :: w₂.bytes) = x.map (·, 0x7D :: w₂.bytes)) :
    fromSlice (w₁.bytes ++ (Value.object ms).render ++ w₂.bytes) = x.map RpcRequest.mk := by
  simp only [Value.render, List.append_assoc, List.cons_append, List.singleton_append,
    List.nil_append]
  refine fromSlice_map w₁ (parseWhitespace_ws w₂) fun k hk => ?_
  simp only [List.length_append, List.length_cons] at hk
  obtain ⟨k, rfl⟩ : ∃ k', k = k' + 1 := ⟨k - 1, by omega⟩
  rw [visitMap_first _ _ (ms.parseWhitespace_render _)]
  exact hx k (by omega)

/-- `from_slice::<RpcRequest>` on an object with one member named `method`, whose value is a
string, among members with other keys: the string's value when it has no escape, `invalid_type`
when it has one. -/
theorem fromSlice_method (w₁ w₂ : Ws) {ms : Members} {before after : List Member} {m : Member}
    (hms : ms.toList = before ++ m :: after) (hother : ∀ x ∈ before ++ after, x.OtherKey)
    (hk : m.key.value = some (Utf8.ofString "method")) {p q : Ws} {s : StrLit}
    (hm : m.val = .mk p (.string s) q) {v : Bytes} (hv : s.value = some v) :
    (fromSlice (w₁.bytes ++ (Value.object ms).render ++ w₂.bytes)).map (·.method.bytes) =
      if s.plain.isNone then .error .invalidType else .ok v := by
  have h := StrLit.decode_valid (fun _ h => absurd h (by simp)) hv
  rw [fromSlice_object w₁ w₂ fun k hk' => Members.visit_method hk hm hv h
    (fun x hx => hother x (List.mem_append_right before hx)) ms before k w₂.bytes hms
    (fun x hx => hother x (List.mem_append_left after hx)) hk']
  cases s.plain.isNone <;> rfl

/-- An empty run of whitespace. -/
def noWs : Ws := ⟨[], fun _ h => absurd h (List.not_mem_nil _)⟩

/-- `"params":[]`. -/
def paramsMember : Member :=
  .mk noWs (StrLit.ofPlain "params".data (by decide)) noWs (.mk noWs (.emptyArray noWs) noWs)

/-- `"method":"eth_chainId"`. -/
def chainIdMember : Member :=
  .mk noWs (StrLit.ofPlain "method".data (by decide)) noWs
    (.mk noWs (.string (StrLit.ofPlain "eth_chainId".data (by decide))) noWs)

theorem fromSlice_method_chainId :
    (fromSlice (noWs.bytes ++ (Value.object (.cons paramsMember (.one chainIdMember))).render ++
        noWs.bytes)).map (·.method.bytes) =
      if (StrLit.ofPlain "eth_chainId".data (by decide)).plain.isNone then .error .invalidType
      else .ok (Utf8.ofString "eth_chainId") :=
  fromSlice_method noWs noWs
    (show (Members.cons paramsMember (.one chainIdMember)).toList = [paramsMember] ++ chainIdMember :: []
      from rfl)
    (fun x hx => by
      obtain rfl : x = paramsMember := by simpa using hx
      exact ⟨_, StrLit.value_of_plain (StrLit.plain_ofPlain _ _), by decide⟩)
    (StrLit.value_of_plain (StrLit.plain_ofPlain _ _)) rfl
    (StrLit.value_of_plain (StrLit.plain_ofPlain _ _))

/-- `from_slice` on a one-element array holding a string: the struct with that string, when it
has no escape. -/
theorem fromSlice_string_array (w₁ w₂ p q : Ws) {s : StrLit} {v : Bytes} (hv : s.value = some v)
    (h : Utf8.valid v) :
    fromSlice (w₁.bytes ++ (Value.array (.one (.mk p (.string s) q))).render ++ w₂.bytes) =
      (if s.plain.isNone then Except.error ErrorCode.invalidType else .ok ⟨v, h⟩).map
        RpcRequest.mk := by
  rw [fromSlice, deserializeStruct]
  simp only [Value.render, Elements.render, List.append_assoc, List.cons_append,
    List.singleton_append, List.nil_append]
  rw [parseWhitespace_ws_cons w₁ (by decide)]
  simp only [show (0x5B : UInt8).toNat = 0x5B from rfl, ite_true]
  rw [visitSeq_string, deserializeBorrowedStr_string p q hv h]
  cases s.plain.isNone <;> simp only [ite_true, ite_false, Bool.false_eq_true, endSeq_close,
    parseWhitespace_ws] <;> rfl

/-- The derived `visit_seq` reads the struct from an array too: a one-element array holding a
string gives the string's value, as the object would. -/
theorem fromSlice_array (w₁ w₂ p q : Ws) {s : StrLit} {v : Bytes} (hv : s.value = some v) :
    (fromSlice (w₁.bytes ++ (Value.array (.one (.mk p (.string s) q))).render ++ w₂.bytes)).map
        (·.method.bytes) =
      if s.plain.isNone then .error .invalidType else .ok v := by
  rw [fromSlice_string_array w₁ w₂ p q hv (StrLit.decode_valid (fun _ h => absurd h (by simp)) hv)]
  cases s.plain.isNone <;> rfl

theorem fromSlice_array_chainId :
    (fromSlice (noWs.bytes ++ (Value.array (.one (.mk noWs
        (.string (StrLit.ofPlain "eth_chainId".data (by decide))) noWs))).render ++ noWs.bytes)).map
        (·.method.bytes) =
      if (StrLit.ofPlain "eth_chainId".data (by decide)).plain.isNone then .error .invalidType
      else .ok (Utf8.ofString "eth_chainId") :=
  fromSlice_array noWs noWs noWs noWs (StrLit.value_of_plain (StrLit.plain_ofPlain _ _))

/-- A method written with an escape is refused, where the same method without one is read; and
an array holding the method is read like the object. -/
theorem fromSlice_escaped_method :
    fromSlice (Utf8.ofString "\x7b\"method\":\"\\u0065th_chainId\"\x7d") = .error .invalidType ∧
      (fromSlice (Utf8.ofString "\x7b\"method\":\"eth_chainId\"\x7d")).map (·.method.bytes) =
        .ok (Utf8.ofString "eth_chainId") ∧
      (fromSlice (Utf8.ofString "[\"eth_chainId\"]")).map (·.method.bytes) =
        .ok (Utf8.ofString "eth_chainId") := by
  decide

/-- `eth_chainId`, as `from_slice` borrows it. -/
def chainIdStr : Str := ⟨Utf8.ofString "eth_chainId", by decide⟩

/-- The text of a member `"k":"x"` whose string value is the bytes `x` as they stand, UTF-8 or
not, with whitespace around each part. -/
def rawMember (pre : Ws) (k : StrLit) (mid p : Ws) (x : Bytes) (q : Ws) : Bytes :=
  pre.bytes ++ 0x22 :: (k.body ++ 0x22 :: (mid.bytes ++ 0x3A :: (p.bytes ++ 0x22 :: (x ++ 0x22 :: q.bytes))))

/-- `from_slice::<RpcRequest>` does not check that a string it skips is UTF-8: a member whose key
is not `method` and whose string value holds any bytes but control bytes, quotes and
backslashes, put first in an object with one member named `method`, leaves the method read as
it would be without it. -/
theorem fromSlice_rawMember (w₁ w₂ pre mid p q : Ws) {k : StrLit} {kv : Bytes}
    (hk : k.value = some kv) (hne : kv ≠ Utf8.ofString "method") {x : Bytes}
    (hx : ∀ b ∈ x, Plain b) {ms : Members} {before after : List Member} {m : Member}
    (hms : ms.toList = before ++ m :: after) (hother : ∀ y ∈ before ++ after, y.OtherKey)
    (hkm : m.key.value = some (Utf8.ofString "method")) {p' q' : Ws} {s : StrLit}
    (hm : m.val = .mk p' (.string s) q') {v : Bytes} (hv : s.value = some v) :
    (fromSlice (w₁.bytes ++ 0x7B :: (rawMember pre k mid p x q ++ 0x2C :: (ms.render ++
        0x7D :: w₂.bytes)))).map (·.method.bytes) =
      if s.plain.isNone then .error .invalidType else .ok v := by
  have h := StrLit.decode_valid (fun _ h => absurd h (by simp)) hv
  have hvisit : ∀ n, (rawMember pre k mid p x q ++ 0x2C :: (ms.render ++ 0x7D :: w₂.bytes)).length < n →
      visitMap n true none (rawMember pre k mid p x q ++ 0x2C :: (ms.render ++ 0x7D :: w₂.bytes)) =
        (if s.plain.isNone then Except.error ErrorCode.invalidType else .ok ⟨v, h⟩).map
          (·, 0x7D :: w₂.bytes) := by
    intro n hn
    simp only [rawMember, List.append_assoc, List.cons_append, List.length_append,
      List.length_cons] at hn ⊢
    obtain ⟨n, rfl⟩ : ∃ n', n = n' + 3 := ⟨n - 3, by omega⟩
    rw [visitMap_first _ _ (parseWhitespace_ws_cons pre (by decide) _),
      visitField_other_raw _ _ hk hne mid p hx, visitMap_comma _ _ _ (ms.parseWhitespace_render _),
      Members.visit_method hkm hm hv h (fun y hy => hother y (List.mem_append_right before hy)) ms
        before n _ hms (fun y hy => hother y (List.mem_append_left after hy)) (by omega)]
  rw [fromSlice_map w₁ (parseWhitespace_ws w₂) hvisit]
  cases s.plain.isNone <;> rfl

end Json
end RollupBoost
