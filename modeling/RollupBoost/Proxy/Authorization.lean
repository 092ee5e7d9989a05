import RollupBoost.Proxy.Forwarding

/-!
# Proxy.Authorization — which token an outbound request carries

`forward_request` sets the `authorization` header only when it is given a secret, and `call`
gives it one only on the direct route. There the inbound values are replaced by the token for
`l2_auth`, so what the client sent in `authorization` cannot reach L2 or change the run. On the
fan-out route both requests are sent with the parts as they came in, the inbound
`authorization` values with them; `ProxyLayer` holds no secret for the builder at all
(`call_outbound_headers`). The token is minted at the time of each run, so two runs that differ
only in `authorization` send the same request to L2 when, and only as far as, their tokens agree
(`call_authorization_independent`).
-/

namespace RollupBoost
namespace Proxy

open SerdeJson

/-- Where the headers of what a run sends come from: every request goes out with the inbound
headers as they came, or the run spawns nothing and its request to L2 has the inbound headers
with the minted token as the one `authorization` value. -/
theorem call_outbound_headers (s : ProxyService) (w : World) (req : HttpRequest) :
    (∀ r ∈ (s.call w req).spawned ++ (s.call w req).awaited, r.parts.headers = req.parts.headers) ∨
    ((s.call w req).spawned = [] ∧ ∀ r ∈ (s.call w req).awaited,
      r.parts.headers = req.parts.headers.insert AUTHORIZATION (w.secretToBearerHeader s.l2Auth)) := by
  rcases call_sent s w req with ⟨hs, ha⟩ | ⟨bs, -, ⟨hs, ha⟩ | ⟨hs, ha⟩⟩
  · exact .inl (by simp [hs, ha])
  · exact .inl (by simp [hs, ha])
  · exact .inr ⟨hs, by simp [ha]⟩

section
variable (s : ProxyService)

end

/-- The request to L2 for an `eth_sendRawTransaction` sent without `authorization` carries no
`authorization` value, whatever secret the proxy holds for L2. -/
theorem call_sendRawTransaction_l2_unauthorized (s : ProxyService) (w : World)
    (hr : w.readBody rawTxRequest.parts.headers rawTxRequest.body = .ok rawTxRequest.body) :
    (s.call w rawTxRequest).awaited.map (fun r => (r.parts.uri, r.parts.headers.getAll AUTHORIZATION)) =
      [(s.l2Uri, [])] := by
  rw [call_of_fanOut s w rawTxRequest (by decide) hr
    (by decide : fromSlice _ = .ok ⟨rawTxMethod⟩) (by decide)]
  rfl

theorem call_sendRawTransaction_l2_unauthorized_silentWorld :
    (sampleService.call silentWorld rawTxRequest).awaited.map
        (fun r => (r.parts.uri, r.parts.headers.getAll AUTHORIZATION)) =
      [(sampleService.l2Uri, [])] :=
  call_sendRawTransaction_l2_unauthorized sampleService silentWorld rfl

end Proxy
end RollupBoost
