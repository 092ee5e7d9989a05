import RollupBoost.Proxy.Service

/-!
# Proxy.Routing — where `call` sends a request

`call` branches twice on the method: on `MULTIPLEX_METHODS`, then on `FORWARD_REQUEST`. `route`
names the branch taken and `dispatch` what the branch does, and `call_cases` says, once for all
later proofs, every way a run of `call` can go: `/healthz`, a body that could not be read, a
body without a method, or a method and its route. The request handed on is rebuilt from the
inbound parts and the bytes `read_body` returned, which are the inbound body only as far as the
world's read leaves it so.

The two tables are the same list, so the second test always agrees with the first and the
branch to the inner service is never taken (`route_ne_inner`). The spec's classification
(`specRoute`) gives the stateful `engine_` methods to the inner service, the Engine API
multiplexer; the code sends them out like every other `engine_` method, `eth_sendRawTransaction`
and `miner_` (`route_eq_specRoute`).
-/

namespace RollupBoost
namespace Proxy

open SerdeJson

/-- The branches of `call` after the method is read. -/
inductive Route
  | direct
  | fanOut
  | inner
  deriving DecidableEq, Repr

/-- The branch of `call` a method takes. -/
def route (method : Str) : Route :=
  if matchesAny MULTIPLEX_METHODS method then
    if matchesAny FORWARD_REQUEST method then .fanOut else .inner
  else .direct

/-- What `call` does on a route, with the request rebuilt from the body it read. -/
def ProxyService.dispatch (s : ProxyService) (w : World) (req : HttpRequest) : Route → Run
  | .fanOut =>
    ⟨[outbound w req s.builderUri none], [outbound w req s.l2Uri none], [],
      forwardRequest w req s.l2Uri none⟩
  | .inner => ⟨[], [], [req], (w.inner req).map (Except.mapError .inner)⟩
  | .direct =>
    ⟨[], [outbound w req s.l2Uri (some s.l2Auth)], [], forwardRequest w req s.l2Uri (some s.l2Auth)⟩

/-! ## The classification -/

theorem route_ne_inner (method : Str) : route method ≠ .inner := by
  unfold route
  split
  · rw [if_pos (by rwa [FORWARD_REQUEST])]
    decide
  · decide

theorem route_fanOut_or_direct (method : Str) : route method = .fanOut ∨ route method = .direct := by
  have := route_ne_inner method
  cases h : route method <;> simp_all

theorem route_eq_fanOut_iff (method : Str) :
    route method = .fanOut ↔ matchesAny MULTIPLEX_METHODS method = true := by
  unfold route
  split
  · rw [if_pos (by rwa [FORWARD_REQUEST])]
    simpa
  · simp_all

theorem route_eq_fanOut_of_mem {p : String} (hp : p ∈ MULTIPLEX_METHODS) {method : Str}
    (h : method.startsWith p = true) : route method = .fanOut :=
  (route_eq_fanOut_iff method).2 (List.any_eq_true.2 ⟨p, hp, h⟩)

theorem route_eq_direct_iff (method : Str) :
    route method = .direct ↔ matchesAny MULTIPLEX_METHODS method = false := by
  have h := route_ne_inner method
  have h₂ := route_eq_fanOut_iff method
  cases hr : route method <;> simp_all

/-- A method that starts with `q` starts with every prefix of `q`. -/
theorem Str.startsWith_of_prefix {p q : String} (hpq : Utf8.ofString p <+: Utf8.ofString q)
    {method : Str} (h : method.startsWith q = true) : method.startsWith p = true := by
  rw [Str.startsWith, List.isPrefixOf_iff_prefix] at h ⊢
  exact hpq.trans h

/-- The spec's classes of a method (sections 3, 4.2 and 9): `forkchoiceUpdated`, `getPayload`
and `newPayload`, the stateful `engine_` methods, to the Engine API multiplexer, that is the
inner service; the other `engine_` methods, `eth_sendRawTransaction` and `miner_` to both
endpoints; anything else to L2. -/
def specRoute (method : Str) : Route :=
  if matchesAny ["engine_forkchoiceUpdated", "engine_getPayload", "engine_newPayload"] method then
    .inner
  else if matchesAny ["engine_", "eth_sendRawTransaction", "miner_"] method then .fanOut
  else .direct

/-- The code follows the spec's classes on every method but the stateful `engine_` ones, which
it fans out instead of handing to the multiplexer. -/
theorem route_eq_specRoute (method : Str) :
    route method = if specRoute method = .inner then .fanOut else specRoute method := by
  unfold specRoute
  by_cases hs : matchesAny ["engine_forkchoiceUpdated", "engine_getPayload", "engine_newPayload"]
      method
  · obtain ⟨q, hq, h⟩ := List.any_eq_true.1 hs
    have he : method.startsWith "engine_" = true := by
      simp only [List.mem_cons, List.mem_singleton, List.not_mem_nil, or_false] at hq
      rcases hq with rfl | rfl | rfl <;> exact Str.startsWith_of_prefix (by decide) h
    rw [if_pos hs, if_pos rfl, route_eq_fanOut_of_mem (by decide) he]
  · rw [if_neg hs, show ["engine_", "eth_sendRawTransaction", "miner_"] = MULTIPLEX_METHODS from rfl]
    cases hm : matchesAny MULTIPLEX_METHODS method
    · rw [(route_eq_direct_iff _).2 hm]; rfl
    · rw [(route_eq_fanOut_iff _).2 hm]; rfl

/-! ## Every run of `call` -/

variable (s : ProxyService) (w : World) (req : HttpRequest)

theorem call_healthz (h : req.parts.uri.path = "/healthz") :
    s.call w req = .only (.ok (HttpResponse.new healthzBody)) := if_pos h

theorem call_of_read_error (h : req.parts.uri.path ≠ "/healthz") {e : HttpHelpers.HttpError}
    (hr : w.readBody req.parts.headers req.body = .error e) :
    s.call w req = .only (.error (.readBody e)) := by
  rw [ProxyService.call, if_neg h, hr]

theorem call_of_parse_error (h : req.parts.uri.path ≠ "/healthz") {bs : Bytes}
    (hr : w.readBody req.parts.headers req.body = .ok bs) {e : ErrorCode}
    (hp : fromSlice bs = .error e) : s.call w req = .only (.error (.json e)) := by
  rw [ProxyService.call, if_neg h, hr]
  simp only [hp]

theorem call_of_parsed (h : req.parts.uri.path ≠ "/healthz") {bs : Bytes}
    (hr : w.readBody req.parts.headers req.body = .ok bs) {rpc : RpcRequest}
    (hp : fromSlice bs = .ok rpc) :
    s.call w req = s.dispatch w ⟨req.parts, bs⟩ (route rpc.method) := by
  rw [ProxyService.call, if_neg h, hr]
  simp only [hp, route]
  split
  · split <;> rfl
  · rfl

/-- Every way a run of `call` goes. -/
theorem call_cases :
    (req.parts.uri.path = "/healthz" ∧ s.call w req = .only (.ok (HttpResponse.new healthzBody))) ∨
    (req.parts.uri.path ≠ "/healthz" ∧ ∃ e, w.readBody req.parts.headers req.body = .error e ∧
      s.call w req = .only (.error (.readBody e))) ∨
    (req.parts.uri.path ≠ "/healthz" ∧ ∃ bs, w.readBody req.parts.headers req.body = .ok bs ∧
      ∃ e, fromSlice bs = .error e ∧ s.call w req = .only (.error (.json e))) ∨
    (req.parts.uri.path ≠ "/healthz" ∧ ∃ bs, w.readBody req.parts.headers req.body = .ok bs ∧
      ∃ rpc, fromSlice bs = .ok rpc ∧
        s.call w req = s.dispatch w ⟨req.parts, bs⟩ (route rpc.method)) := by
  by_cases h : req.parts.uri.path = "/healthz"
  · exact .inl ⟨h, call_healthz s w req h⟩
  cases hr : w.readBody req.parts.headers req.body with
  | error e => exact .inr (.inl ⟨h, e, rfl, call_of_read_error s w req h hr⟩)
  | ok bs =>
    cases hp : fromSlice bs with
    | error e => exact .inr (.inr (.inl ⟨h, bs, rfl, e, hp, call_of_parse_error s w req h hr hp⟩))
    | ok rpc => exact .inr (.inr (.inr ⟨h, bs, rfl, rpc, hp, call_of_parsed s w req h hr hp⟩))

end Proxy
end RollupBoost
