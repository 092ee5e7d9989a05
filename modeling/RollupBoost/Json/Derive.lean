import Mathlib.Data.List.DropRight
import RollupBoost.Json.Tokens
import RollupBoost.Json.Method

/-!
# Json.Derive — what `ignore_value` skips is a value of the grammar

`serde_json` skips the members of `RpcRequest` it has no field for with `ignore_value`, which
nests through arrays and objects by fuel. On UTF-8 input, whatever it skips is whitespace and
the text of a `Value` (`ignoreValue_sound`). The tails of arrays and objects are read in the
continuation form: `ignoreSeqTail_sound` and `ignoreMapTail_sound` are told the element or member
before the bytes they read, as a function of the whitespace that will end it, and give back the
elements or members up to the closing bracket. Each proof follows the branches of the reader,
one induction on the fuel.

Every text of the grammar is UTF-8 (`Value.valid`), so validity is carried past what a reader
has consumed (`valid_rest`).
-/

namespace RollupBoost
namespace Json

open SerdeJson

/-! ## Every value's text is UTF-8 -/

theorem valid_wrap {a : Bytes} (ha : Utf8.valid a) {b c : UInt8} (hb : b.toNat < 0x80)
    (hc : c.toNat < 0x80) : Utf8.valid (b :: a ++ [c]) := by
  rw [List.cons_append, Utf8.valid_cons_of_lt hb]
  exact Utf8.valid_append ha (by rw [Utf8.valid_cons_of_lt hc]; rfl)

theorem Ws.valid (w : Ws) : Utf8.valid w.bytes := valid_ascii w.ascii

mutual

theorem Value.valid : (v : Value) → Utf8.valid v.render
  | .object ms => valid_wrap ms.valid (by decide) (by decide)
  | .emptyObject w => valid_wrap w.valid (by decide) (by decide)
  | .array es => valid_wrap es.valid (by decide) (by decide)
  | .emptyArray w => valid_wrap w.valid (by decide) (by decide)
  | .string s => valid_wrap s.valid_body (by decide) (by decide)
  | .number n => valid_ascii n.ascii
  | .bool true => rfl
  | .bool false => rfl
  | .null => rfl

theorem Element.valid : (e : Element) → Utf8.valid e.render
  | .mk pre v post => Utf8.valid_append (Utf8.valid_append pre.valid v.valid) post.valid

theorem Elements.valid : (es : Elements) → Utf8.valid es.render
  | .one e => e.valid
  | .cons e es =>
    Utf8.valid_append e.valid (by rw [Utf8.valid_cons_of_lt (by decide)]; exact es.valid)

theorem Member.valid : (m : Member) → Utf8.valid m.render
  | .mk pre k mid v =>
    Utf8.valid_append (Utf8.valid_append (Utf8.valid_append pre.valid
      (valid_wrap k.valid_body (by decide) (by decide))) mid.valid)
      (by rw [Utf8.valid_cons_of_lt (by decide)]; exact v.valid)

theorem Members.valid : (ms : Members) → Utf8.valid ms.render
  | .one m => m.valid
  | .cons m ms =>
    Utf8.valid_append m.valid (by rw [Utf8.valid_cons_of_lt (by decide)]; exact ms.valid)

end

theorem cons_append_singleton_append (b c : UInt8) (a r : Bytes) :
    b :: a ++ [c] ++ r = b :: (a ++ c :: r) := by
  simp

theorem valid_rest {a r : Bytes} (ha : Utf8.valid a) (h : Utf8.valid (a ++ r)) : Utf8.valid r :=
  (Utf8.valid_append_iff ha r).1 h

theorem valid_ws_cons {w : Ws} {b : UInt8} {t : Bytes} (h : Utf8.valid (w.bytes ++ b :: t))
    (hb : b.toNat < 0x80) : Utf8.valid t := by
  rwa [Utf8.valid_append_iff w.valid, Utf8.valid_cons_of_lt hb] at h

/-! ## `ignore_value` skips the text of a value -/

mutual

theorem ignoreValue_sound : ∀ (n : Nat) {bs r : Bytes}, ignoreValue n bs = .ok r →
    Utf8.valid bs → ∃ (pre : Ws) (v : Value), bs = pre.bytes ++ v.render ++ r
  | 0, _, _, h, _ => by cases h
  | n + 1, bs, r, h, hv => by
    rw [ignoreValue] at h
    split at h
    · cases h
    rename_i b t hw
    obtain ⟨pre, rfl⟩ := Ws.of_parseWhitespace hw
    suffices ∃ v : Value, b :: t = v.render ++ r from
      let ⟨v, he⟩ := this; ⟨pre, v, by rw [he, List.append_assoc]⟩
    rw [ite_eq_iff] at h
    rcases h with ⟨h₁, h⟩ | ⟨-, h⟩
    · rw [show b = 0x6E from UInt8.toNat.inj h₁, parseIdent_ok h]
      exact ⟨.null, rfl⟩
    rw [ite_eq_iff] at h
    rcases h with ⟨h₂, h⟩ | ⟨-, h⟩
    · rw [show b = 0x74 from UInt8.toNat.inj h₂, parseIdent_ok h]
      exact ⟨.bool true, rfl⟩
    rw [ite_eq_iff] at h
    rcases h with ⟨h₃, h⟩ | ⟨-, h⟩
    · rw [show b = 0x66 from UInt8.toNat.inj h₃, parseIdent_ok h]
      exact ⟨.bool false, rfl⟩
    rw [ite_eq_iff] at h
    rcases h with ⟨h₄, h⟩ | ⟨-, h⟩
    · obtain ⟨i, f, x, rfl⟩ := integerWith_ok h
      refine ⟨.number ⟨true, i, f, x⟩, ?_⟩
      rw [show b = 0x2D from UInt8.toNat.inj h₄]
      rfl
    rw [ite_eq_iff] at h
    rcases h with ⟨-, h⟩ | ⟨-, h⟩
    · obtain ⟨i, f, x, he⟩ := integerWith_ok h
      exact ⟨.number ⟨false, i, f, x⟩, he⟩
    rw [ite_eq_iff] at h
    rcases h with ⟨h₆, h⟩ | ⟨-, h⟩
    · obtain ⟨s, rfl⟩ := ignoreStrFrom_sound h (valid_ws_cons hv (by omega))
      refine ⟨.string s, ?_⟩
      rw [show b = 0x22 from UInt8.toNat.inj h₆]
      exact (cons_append_singleton_append _ _ _ _).symm
    rw [ite_eq_iff] at h
    rcases h with ⟨h₇, h⟩ | ⟨-, h⟩
    · have hvt := valid_ws_cons hv (by omega)
      split at h
      · cases h
      rename_i c t' hw'
      rw [ite_eq_iff] at h
      rcases h with ⟨hc, h⟩ | ⟨-, h⟩
      · cases h
        obtain ⟨w, rfl⟩ := Ws.of_parseWhitespace hw'
        refine ⟨.emptyArray w, ?_⟩
        rw [show b = 0x5B from UInt8.toNat.inj h₇, show c = 0x5D from UInt8.toNat.inj hc]
        exact (cons_append_singleton_append _ _ _ _).symm
      split at h
      · rename_i r₁ he
        obtain ⟨pre₁, v₁, rfl⟩ := ignoreValue_sound n he hvt
        obtain ⟨es, hes⟩ := ignoreSeqTail_sound n h
          (valid_rest (Utf8.valid_append pre₁.valid v₁.valid) hvt) _ (.mk pre₁ v₁)
          fun _ => rfl
        refine ⟨.array es, ?_⟩
        rw [show b = 0x5B from UInt8.toNat.inj h₇, hes]
        exact (cons_append_singleton_append _ _ _ _).symm
      · cases h
    rw [ite_eq_iff] at h
    rcases h with ⟨h₈, h⟩ | ⟨-, h⟩
    · have hvt := valid_ws_cons hv (by omega)
      split at h
      · cases h
      rename_i c t' hw'
      rw [ite_eq_iff] at h
      rcases h with ⟨hc, h⟩ | ⟨-, h⟩
      · cases h
        obtain ⟨w, rfl⟩ := Ws.of_parseWhitespace hw'
        refine ⟨.emptyObject w, ?_⟩
        rw [show b = 0x7B from UInt8.toNat.inj h₈, show c = 0x7D from UInt8.toNat.inj hc]
        exact (cons_append_singleton_append _ _ _ _).symm
      obtain ⟨ms, rfl⟩ := ignoreMember_sound n h hvt
      refine ⟨.object ms, ?_⟩
      rw [show b = 0x7B from UInt8.toNat.inj h₈]
      exact (cons_append_singleton_append _ _ _ _).symm
    cases h

theorem ignoreSeqTail_sound : ∀ (n : Nat) {bs r : Bytes}, ignoreSeqTail n bs = .ok r →
    Utf8.valid bs → ∀ (x : Bytes) (e : Ws → Element), (∀ w, (e w).render = x ++ w.bytes) →
      ∃ es : Elements, x ++ bs = es.render ++ 0x5D :: r
  | 0, _, _, h, _ => by cases h
  | n + 1, bs, r, h, hv => by
    intro x e he
    rw [ignoreSeqTail] at h
    split at h
    · cases h
    rename_i c t hw
    obtain ⟨w, rfl⟩ := Ws.of_parseWhitespace hw
    split_ifs at h with h₁ h₂
    · split at h
      · rename_i r₁ hr₁
        have hvt := valid_ws_cons hv (by omega)
        obtain ⟨pre₂, v₂, rfl⟩ := ignoreValue_sound n hr₁ hvt
        obtain ⟨es, hes⟩ := ignoreSeqTail_sound n h
          (valid_rest (Utf8.valid_append pre₂.valid v₂.valid) hvt) _ (.mk pre₂ v₂) fun _ => rfl
        refine ⟨.cons (e w) es, ?_⟩
        rw [Elements.render, he, show c = 0x2C from UInt8.toNat.inj h₁, hes]
        simp only [List.append_assoc, List.cons_append]
      · cases h
    · cases h
      refine ⟨.one (e w), ?_⟩
      rw [Elements.render, he, show c = 0x5D from UInt8.toNat.inj h₂, List.append_assoc]

theorem ignoreMember_sound : ∀ (n : Nat) {bs r : Bytes}, ignoreMember n bs = .ok r →
    Utf8.valid bs → ∃ ms : Members, bs = ms.render ++ 0x7D :: r
  | 0, _, _, h, _ => by cases h
  | n + 1, bs, r, h, hv => by
    rw [ignoreMember] at h
    split at h
    · cases h
    rename_i c t hw
    obtain ⟨pre, rfl⟩ := Ws.of_parseWhitespace hw
    split_ifs at h with hc
    split at h
    · cases h
    rename_i t₁ ht₁
    have hvt := valid_ws_cons hv (by omega)
    obtain ⟨k, rfl⟩ := ignoreStrFrom_sound ht₁ hvt
    have hv₁ := valid_rest k.valid_body hvt
    rw [Utf8.valid_cons_of_lt (by decide)] at hv₁
    split at h
    · cases h
    rename_i d t₂ hw₂
    obtain ⟨mid, rfl⟩ := Ws.of_parseWhitespace hw₂
    split_ifs at h with hd
    split at h
    · rename_i t₃ ht₃
      have hv₂ := valid_ws_cons hv₁ (by omega)
      obtain ⟨p, v, rfl⟩ := ignoreValue_sound n ht₃ hv₂
      obtain ⟨ms, hms⟩ := ignoreMapTail_sound n h
        (valid_rest (Utf8.valid_append p.valid v.valid) hv₂)
        (pre.bytes ++ k.render ++ mid.bytes ++ 0x3A :: (p.bytes ++ v.render))
        (fun w => .mk pre k mid (.mk p v w)) fun w => by
          simp only [Member.render, Element.render, List.append_assoc, List.cons_append]
      refine ⟨ms, ?_⟩
      rw [← hms, show c = 0x22 from UInt8.toNat.inj hc, show d = 0x3A from UInt8.toNat.inj hd]
      simp only [StrLit.render, List.append_assoc, List.cons_append, List.nil_append]
    · cases h

theorem ignoreMapTail_sound : ∀ (n : Nat) {bs r : Bytes}, ignoreMapTail n bs = .ok r →
    Utf8.valid bs → ∀ (x : Bytes) (m : Ws → Member), (∀ w, (m w).render = x ++ w.bytes) →
      ∃ ms : Members, x ++ bs = ms.render ++ 0x7D :: r
  | 0, _, _, h, _ => by cases h
  | n + 1, bs, r, h, hv => by
    intro x m hm
    rw [ignoreMapTail] at h
    split at h
    · cases h
    rename_i c t hw
    obtain ⟨w, rfl⟩ := Ws.of_parseWhitespace hw
    split_ifs at h with h₁ h₂
    · obtain ⟨ms, rfl⟩ := ignoreMember_sound n h (valid_ws_cons hv (by omega))
      refine ⟨.cons (m w) ms, ?_⟩
      rw [Members.render, hm, show c = 0x2C from UInt8.toNat.inj h₁]
      simp only [List.append_assoc, List.cons_append]
    · cases h
      refine ⟨.one (m w), ?_⟩
      rw [Members.render, hm, show c = 0x7D from UInt8.toNat.inj h₂, List.append_assoc]

end

end Json
end RollupBoost
