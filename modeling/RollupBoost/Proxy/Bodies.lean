import RollupBoost.Proxy.Forwarding
import RollupBoost.Json.Accepts
import RollupBoost.Utf8.Decode

/-!
# Proxy.Bodies — where `call` sends a body, read as text

`Proxy.Routing` follows `call` from the `RpcRequest` that `from_slice` returns, and routes on
`str::starts_with`, a test on bytes. Here both ends are read as text. A body that is a method
body for the method written `m` (`Json.MethodBody`) is dispatched on `textRoute m`, the table
`MULTIPLEX_METHODS` read on the characters of `m` (`call_methodBody`); a UTF-8 body that is no
method body is answered with the JSON error alone, and nothing is sent (`call_refused`). The
text is not checked where `from_slice` skips it: a string value before the method may hold bytes
that are no UTF-8, and the request is routed all the same (`call_routes_unchecked_string`).

The step from bytes to characters is `Str.startsWith_eq`: UTF-8 has no encoding of a character
that is a prefix of another's, so a byte prefix of a method is a character prefix.
-/

namespace RollupBoost
namespace Proxy

open SerdeJson Json

/-- The routing table read on characters: a method whose text starts with one of
`MULTIPLEX_METHODS` is fanned out to the builder and L2, any other goes to L2 alone. -/
def textRoute (m : String) : Route :=
  if MULTIPLEX_METHODS.any fun p => p.data.isPrefixOf m.data then .fanOut else .direct

/-- `route` on a method is `textRoute` on its text. -/
theorem route_eq_textRoute {method : Str} {m : String} (hm : Utf8.ofString m = method.bytes) :
    route method = textRoute m := by
  have hany : matchesAny MULTIPLEX_METHODS method =
      MULTIPLEX_METHODS.any fun p => p.data.isPrefixOf m.data :=
    congrArg _ (funext (Str.startsWith_eq hm))
  rw [textRoute, ← hany]
  cases h : matchesAny MULTIPLEX_METHODS method
  · exact (route_eq_direct_iff method).2 h
  · exact (route_eq_fanOut_iff method).2 h

section
variable (s : ProxyService) (w : World) (req : HttpRequest)

/-- A request whose body is a method body for the method written `m` goes where the table, read
on the characters of `m`, sends it: to the builder and L2 when `m` starts with a prefix of
`MULTIPLEX_METHODS`, to L2 with the secret otherwise. -/
theorem call_methodBody (h : req.parts.uri.path ≠ "/healthz")
    (hr : w.readBody req.parts.headers req.body = .ok req.body) {m : String}
    (hb : MethodBody req.body (Utf8.ofString m)) :
    s.call w req = s.dispatch w req (textRoute m) := by
  obtain ⟨_, hp⟩ := fromSlice_of_methodBody hb
  rw [call_of_parsed s w req h hr hp, route_eq_textRoute rfl]

theorem call_methodBody_chainId :
    sampleService.call silentWorld chainIdRequest =
      sampleService.dispatch silentWorld chainIdRequest (textRoute "eth_chainId") :=
  call_methodBody sampleService silentWorld chainIdRequest (by decide) rfl
    ⟨noWs, noWs, .inl ⟨.cons chainIdMember (.one paramsMember),
      ⟨[], chainIdMember, [paramsMember], rfl,
        fun x hx => by
          obtain rfl : x = paramsMember := by simpa using hx
          exact ⟨_, StrLit.value_of_plain (StrLit.plain_ofPlain _ _), by decide⟩,
        chainIdMember_isMethod⟩, by decide⟩⟩

/-- A request whose bytes read are valid UTF-8 but no method body is answered with the JSON
error alone: nothing is sent to either endpoint or to the inner service. -/
theorem call_refused (h : req.parts.uri.path ≠ "/healthz") {bs : Bytes}
    (hr : w.readBody req.parts.headers req.body = .ok bs) (hu : Utf8.valid bs)
    (hb : ∀ v, ¬MethodBody bs v) : ∃ e, s.call w req = .only (.error (.json e)) := by
  cases hp : fromSlice bs with
  | error e => exact ⟨e, call_of_parse_error s w req h hr hp⟩
  | ok rpc => exact absurd (fromSlice_sound hp hu) (hb _)

theorem call_refused_params :
    ∃ e, sampleService.call silentWorld (rootRequest .empty "\x7b\"params\":[]\x7d") =
      .only (.error (.json e)) :=
  call_refused sampleService silentWorld _ (by decide) rfl (by decide) fun _ hb => by
    obtain ⟨_, hf⟩ := fromSlice_of_methodBody hb
    cases hf.symm.trans (by decide : fromSlice _ = .error (.missingField "method"))

/-- A request whose bytes read are an object whose first member has another key and a string
value of bytes that need no escape, UTF-8 or not, followed by members with other keys around one
named `method` whose string is written `m` without escapes, is dispatched on `textRoute m`. -/
theorem call_routes_unchecked_string (h : req.parts.uri.path ≠ "/healthz") {bs : Bytes}
    (hr : w.readBody req.parts.headers req.body = .ok bs) {w₁ w₂ pre mid p q : Ws} {k : StrLit}
    {kv : Bytes} (hk : k.value = some kv) (hne : kv ≠ Utf8.ofString "method") {x : Bytes}
    (hx : ∀ b ∈ x, Plain b) {ms : Members} {m : String}
    (hms : FoundMethod none ms.toList (Utf8.ofString m))
    (hbs : bs = w₁.bytes ++ 0x7B :: (rawMember pre k mid p x q ++ 0x2C ::
      (ms.render ++ 0x7D :: w₂.bytes))) :
    s.call w req = s.dispatch w ⟨req.parts, bs⟩ (textRoute m) := by
  obtain ⟨before, mem, after, hl, hother, hkm, p', q', s', hm, hpl, hv⟩ := hms
  have hf := fromSlice_rawMember w₁ w₂ pre mid p q hk hne hx hl hother hkm hm hv
  rw [(Option.isNone_eq_false_iff _).2 hpl, ← hbs] at hf
  cases hp : fromSlice bs with
  | error e => rw [hp] at hf; cases hf
  | ok rpc =>
    rw [hp] at hf
    rw [call_of_parsed s w req h hr hp, route_eq_textRoute (Except.ok.inj hf).symm]

/-- `\x7b"params":"\xFF","method":"eth_chainId"\x7d`, whose byte `0xFF` is no UTF-8. -/
def unpairedBody : Bytes :=
  noWs.bytes ++ 0x7B :: (rawMember noWs (StrLit.ofPlain "params".data (by decide)) noWs noWs [0xFF]
    noWs ++ 0x2C :: ((Members.one chainIdMember).render ++ 0x7D :: noWs.bytes))

theorem call_routes_unchecked_string_ff :
    Utf8.valid unpairedBody = false ∧
      sampleService.call silentWorld ⟨chainIdRequest.parts, unpairedBody⟩ =
        sampleService.dispatch silentWorld ⟨chainIdRequest.parts, unpairedBody⟩
          (textRoute "eth_chainId") :=
  ⟨by decide, call_routes_unchecked_string sampleService silentWorld _ (by decide) rfl
    (StrLit.value_of_plain (StrLit.plain_ofPlain _ _)) (by decide) (by decide)
    (⟨[], chainIdMember, [], rfl, nofun, chainIdMember_isMethod⟩ :
      FoundMethod none (Members.one chainIdMember).toList _) rfl⟩

end

end Proxy
end RollupBoost
