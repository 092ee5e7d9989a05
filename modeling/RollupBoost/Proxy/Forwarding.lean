import RollupBoost.Proxy.Routing

/-!
# Proxy.Forwarding — what a run sends, and to whom

On the fan-out route `call` spawns a task that sends the request to the builder, sends the
request to L2 and waits for that reply alone; on the direct route it sends the request to L2
with its own bearer token. `call_sent` says this once for all later proofs. Both requests are
rebuilt from the inbound parts and the bytes `read_body` returned (`call_targets`): in a world
that reads with `jsonrpsee`'s `read_body` those are the inbound body less the ASCII whitespace
before its first `{` (`call_sends_trimmed_body`), so the body sent is not always the body that
came in. The builder's reply is never waited for, so nothing the builder does reaches the client.

The instances are taken on `sampleService`, a proxy for `l2:8551` and `builder:8551`, in three
worlds: `silentWorld`, whose read gives back the body and whose endpoints never reply;
`echoWorld`, where L2 answers each request with its body; and `framedWorld`, like `echoWorld`
but reading with `jsonrpsee`'s `read_body`, the body arriving in one frame.
-/

namespace RollupBoost
namespace Proxy

open SerdeJson

/-! ## A proxy to run on -/

/-- A secret of zeros. -/
def zeroSecret : JwtSecret := ⟨List.replicate 32 0, rfl⟩

/-- A world that reads every body as it came, mints `Bearer minted` and never replies. -/
def silentWorld : World :=
  ⟨fun _ b => .ok b, fun _ => none, fun _ => none, fun _ => "Bearer minted"⟩

/-- The proxy `ProxyLayer::new` builds for L2 at `l2:8551` and the builder at `builder:8551`. -/
def sampleService : ProxyService :=
  (ProxyLayer.new ⟨"http", "l2:8551", "/", none⟩ zeroSecret ⟨"http", "builder:8551", "/", none⟩).layer

/-- A world like `silentWorld` in which L2 answers every request with `200 OK` and the request's
body. -/
def echoWorld : World :=
  { silentWorld with
    request := fun r =>
      if r.parts.uri = sampleService.l2Uri then some (.ok (HttpResponse.new r.body)) else none }

/-- A world like `echoWorld` that reads with `jsonrpsee`'s `read_body`, the body in one frame. -/
def framedWorld : World :=
  { echoWorld with
    readBody := fun _ b => (HttpHelpers.readBody 0 HttpHelpers.u32Max [.data b]).map Prod.fst }

theorem framedWorld_readsFrames : framedWorld.ReadsFrames :=
  fun _ b => ⟨0, [.data b], List.append_nil b, rfl⟩

/-- A request to `/` with the headers `hs` and the body `body`. -/
def rootRequest (hs : HeaderMap) (body : String) : HttpRequest :=
  ⟨⟨⟨"http", "rollup-boost:8081", "/", none⟩, hs⟩, Utf8.ofString body⟩

/-- `eth_sendRawTransaction` with one raw transaction. -/
def rawTxBody : String :=
  "\x7b\"method\":\"eth_sendRawTransaction\",\"params\":[\"0x02f8\"]\x7d"

/-- The raw transaction sent with no `authorization` header. -/
def rawTxRequest : HttpRequest := rootRequest .empty rawTxBody

/-- The method of `rawTxRequest`. -/
def rawTxMethod : Str := ⟨Utf8.ofString "eth_sendRawTransaction", by decide⟩

/-- `eth_chainId`, with no parameters. -/
def chainIdBody : String := "\x7b\"method\":\"eth_chainId\",\"params\":[]\x7d"

/-- `eth_chainId` sent with no `authorization` header. -/
def chainIdRequest : HttpRequest := rootRequest .empty chainIdBody

/-- The method of `chainIdRequest`. -/
def chainIdMethod : Str := ⟨Utf8.ofString "eth_chainId", by decide⟩

section
variable (s : ProxyService) (w : World) (req : HttpRequest)

theorem call_of_fanOut (h : req.parts.uri.path ≠ "/healthz") {bs : Bytes}
    (hr : w.readBody req.parts.headers req.body = .ok bs) {rpc : RpcRequest}
    (hp : fromSlice bs = .ok rpc) (hf : route rpc.method = .fanOut) :
    s.call w req = ⟨[outbound w ⟨req.parts, bs⟩ s.builderUri none],
      [outbound w ⟨req.parts, bs⟩ s.l2Uri none], [], forwardRequest w ⟨req.parts, bs⟩ s.l2Uri none⟩ := by
  rw [call_of_parsed s w req h hr hp, hf]; rfl

theorem call_of_direct (h : req.parts.uri.path ≠ "/healthz") {bs : Bytes}
    (hr : w.readBody req.parts.headers req.body = .ok bs) {rpc : RpcRequest}
    (hp : fromSlice bs = .ok rpc) (hd : route rpc.method = .direct) :
    s.call w req = ⟨[], [outbound w ⟨req.parts, bs⟩ s.l2Uri (some s.l2Auth)], [],
      forwardRequest w ⟨req.parts, bs⟩ s.l2Uri (some s.l2Auth)⟩ := by
  rw [call_of_parsed s w req h hr hp, hd]; rfl

/-- What a run sends: nothing; or, rebuilt from the inbound parts and the bytes read, one request
to the builder and one to L2 as they came, or one to L2 with the minted token. -/
theorem call_sent :
    ((s.call w req).spawned = [] ∧ (s.call w req).awaited = []) ∨
    ∃ bs, w.readBody req.parts.headers req.body = .ok bs ∧
      (((s.call w req).spawned = [outbound w ⟨req.parts, bs⟩ s.builderUri none] ∧
        (s.call w req).awaited = [outbound w ⟨req.parts, bs⟩ s.l2Uri none]) ∨
      ((s.call w req).spawned = [] ∧
        (s.call w req).awaited = [outbound w ⟨req.parts, bs⟩ s.l2Uri (some s.l2Auth)])) := by
  rcases call_cases s w req with ⟨-, e⟩ | ⟨-, _, -, e⟩ | ⟨-, _, -, _, -, e⟩ | ⟨-, bs, hr, rpc, -, e⟩ <;>
    rw [e]
  · exact .inl ⟨rfl, rfl⟩
  · exact .inl ⟨rfl, rfl⟩
  · exact .inl ⟨rfl, rfl⟩
  · rcases route_fanOut_or_direct rpc.method with hf | hd
    · exact .inr ⟨bs, hr, .inl (by rw [hf]; exact ⟨rfl, rfl⟩)⟩
    · exact .inr ⟨bs, hr, .inr (by rw [hd]; exact ⟨rfl, rfl⟩)⟩

/-- The inner service is never called: the branch that calls it needs a method that
`MULTIPLEX_METHODS` matches and `FORWARD_REQUEST` does not, and the two are the same list. -/
theorem call_innerCalls (s : ProxyService) (w : World) (req : HttpRequest) :
    (s.call w req).innerCalls = [] := by
  rcases call_cases s w req with ⟨-, e⟩ | ⟨-, _, -, e⟩ | ⟨-, _, -, _, -, e⟩ | ⟨-, _, -, rpc, -, e⟩ <;>
    rw [e]
  · rfl
  · rfl
  · rfl
  · rcases route_fanOut_or_direct rpc.method with hf | hd
    · rw [hf]; rfl
    · rw [hd]; rfl

/-- Every request a run sends carries the bytes the read returned. -/
theorem readBody_eq_of_mem_sent {r : HttpRequest}
    (hr : r ∈ (s.call w req).spawned ++ (s.call w req).awaited) :
    w.readBody req.parts.headers req.body = .ok r.body := by
  rcases call_sent s w req with ⟨hs, ha⟩ | ⟨bs, hb, ⟨hs, ha⟩ | ⟨hs, ha⟩⟩ <;>
    simp only [hs, ha, List.nil_append, List.singleton_append, List.mem_cons, List.mem_singleton,
      List.not_mem_nil, or_false] at hr
  · rcases hr with rfl | rfl <;> simpa using hb
  · rw [hr]; simpa using hb

/-- Every request a run sends carries the bytes the read returned; what it waits for goes to L2,
what it spawns goes to the builder, and there is at most one of each. -/
theorem call_targets :
    (s.call w req).awaited.length ≤ 1 ∧ (s.call w req).spawned.length ≤ 1 ∧
    (∀ r ∈ (s.call w req).awaited,
      r.parts.uri = s.l2Uri ∧ w.readBody req.parts.headers req.body = .ok r.body) ∧
    (∀ r ∈ (s.call w req).spawned,
      r.parts.uri = s.builderUri ∧ w.readBody req.parts.headers req.body = .ok r.body) := by
  refine ⟨?_, ?_,
    fun r hr => ⟨?_, readBody_eq_of_mem_sent s w req (List.mem_append_right _ hr)⟩,
    fun r hr => ⟨?_, readBody_eq_of_mem_sent s w req (List.mem_append_left _ hr)⟩⟩ <;>
    rcases call_sent s w req with ⟨hs, ha⟩ | ⟨bs, -, ⟨hs, ha⟩ | ⟨hs, ha⟩⟩ <;>
    simp_all

/-- In a world that reads with `jsonrpsee`'s `read_body`, every request a run sends carries the
inbound body less fewer than 128 leading bytes of ASCII whitespace. -/
theorem call_sends_trimmed_body (hw : w.ReadsFrames) :
    ∀ r ∈ (s.call w req).spawned ++ (s.call w req).awaited, ∃ ws, req.body = ws ++ r.body ∧
      ws.length < 128 ∧ ∀ x ∈ ws, HttpHelpers.isAsciiWhitespace x :=
  fun _ hr => hw.trims (readBody_eq_of_mem_sent s w req hr)

theorem call_sends_trimmed_body_spaced :
    framedWorld.ReadsFrames ∧
      (sampleService.call framedWorld (rootRequest .empty (" " ++ rawTxBody))).awaited.map
        (·.body) = [Utf8.ofString rawTxBody] ∧
      ∀ r ∈ (sampleService.call framedWorld (rootRequest .empty (" " ++ rawTxBody))).spawned ++
        (sampleService.call framedWorld (rootRequest .empty (" " ++ rawTxBody))).awaited,
        ∃ ws, (rootRequest .empty (" " ++ rawTxBody)).body = ws ++ r.body ∧ ws.length < 128 ∧
          ∀ x ∈ ws, HttpHelpers.isAsciiWhitespace x :=
  ⟨framedWorld_readsFrames, by decide,
    call_sends_trimmed_body sampleService framedWorld _ framedWorld_readsFrames⟩

theorem forwardRequest_congr {w₁ w₂ : World}
    (hs : w₁.secretToBearerHeader = w₂.secretToBearerHeader) {uri : Uri}
    (hq : ∀ r, r.parts.uri = uri → w₁.request r = w₂.request r) (req : HttpRequest)
    (auth : Option JwtSecret) : forwardRequest w₁ req uri auth = forwardRequest w₂ req uri auth := by
  have ho : outbound w₁ req uri auth = outbound w₂ req uri auth := by
    cases auth <;> simp [outbound, hs]
  rw [forwardRequest, forwardRequest, ho, hq _ (outbound_uri _ _ _ _)]

/-- What the client receives does not depend on the builder: two worlds that read bodies alike,
mint alike and reply alike to every request for L2 give every request the same result. -/
theorem call_result_builder_independent {w₁ w₂ : World} (hb : w₁.readBody = w₂.readBody)
    (hs : w₁.secretToBearerHeader = w₂.secretToBearerHeader)
    (hq : ∀ r, r.parts.uri = s.l2Uri → w₁.request r = w₂.request r) :
    (s.call w₁ req).result = (s.call w₂ req).result := by
  rcases call_cases s w₁ req with ⟨h, e⟩ | ⟨h, _, hr, e⟩ | ⟨h, _, hr, _, hp, e⟩ |
      ⟨h, _, hr, rpc, hp, e⟩ <;> rw [e]
  · rw [call_healthz s w₂ req h]
  · rw [call_of_read_error s w₂ req h (hb ▸ hr)]
  · rw [call_of_parse_error s w₂ req h (hb ▸ hr) hp]
  · rw [call_of_parsed s w₂ req h (hb ▸ hr) hp]
    rcases route_fanOut_or_direct rpc.method with hr' | hr' <;>
      simp only [hr', ProxyService.dispatch, forwardRequest_congr hs hq]

/-- A world like `echoWorld` whose builder refuses every request. -/
def refusingBuilderWorld : World :=
  { echoWorld with
    request := fun r => if r.parts.uri = sampleService.builderUri then some (.error "refused")
      else echoWorld.request r }

theorem call_result_builder_independent_refusing :
    (sampleService.call echoWorld rawTxRequest).result =
      (sampleService.call refusingBuilderWorld rawTxRequest).result :=
  call_result_builder_independent sampleService rawTxRequest rfl rfl
    (fun r h => by
      rw [show refusingBuilderWorld.request r = echoWorld.request r from
        if_neg (by rw [h]; decide)])

/-- `eth_sendRawTransaction` and `miner_` methods: one request spawned to the builder and one
awaited from L2, both with the bytes the read returned; no inner call; the result is L2's reply,
whatever the builder does. -/
theorem call_broadcast (h : req.parts.uri.path ≠ "/healthz") {bs : Bytes}
    (hr : w.readBody req.parts.headers req.body = .ok bs) {rpc : RpcRequest}
    (hp : fromSlice bs = .ok rpc)
    (hm : rpc.method.startsWith "eth_sendRawTransaction" ∨ rpc.method.startsWith "miner_") :
    (∃ b l, (s.call w req).spawned = [b] ∧ (s.call w req).awaited = [l] ∧
      b.parts.uri = s.builderUri ∧ l.parts.uri = s.l2Uri ∧ b.body = bs ∧
      l.body = bs ∧ (s.call w req).innerCalls = [] ∧
      (s.call w req).result = (w.request l).map (Except.mapError .client)) ∧
    ∀ w' : World, w'.readBody = w.readBody →
      (∀ r, r.parts.uri = s.l2Uri → w'.request r = w.request r) →
      (s.call w' req).result = (s.call w req).result := by
  have hf : route rpc.method = .fanOut := by
    rcases hm with hm | hm
    · exact route_eq_fanOut_of_mem (by decide) hm
    · exact route_eq_fanOut_of_mem (by decide) hm
  refine ⟨?_, fun w' hb hq => ?_⟩
  · rw [call_of_fanOut s w req h hr hp hf]
    exact ⟨_, _, rfl, rfl, by simp, by simp, by simp, by simp, rfl, rfl⟩
  · rw [call_of_fanOut s w req h hr hp hf, call_of_fanOut s w' req h (hb ▸ hr) hp hf]
    show forwardRequest w' _ s.l2Uri none = forwardRequest w _ s.l2Uri none
    exact congrArg _ (hq _ (outbound_uri _ _ _ _))

theorem call_broadcast_rawTx :
    (∃ b l, (sampleService.call echoWorld rawTxRequest).spawned = [b] ∧
      (sampleService.call echoWorld rawTxRequest).awaited = [l] ∧
      b.parts.uri = sampleService.builderUri ∧ l.parts.uri = sampleService.l2Uri ∧
      b.body = rawTxRequest.body ∧ l.body = rawTxRequest.body ∧
      (sampleService.call echoWorld rawTxRequest).innerCalls = [] ∧
      (sampleService.call echoWorld rawTxRequest).result =
        (echoWorld.request l).map (Except.mapError .client)) ∧
    ∀ w' : World, w'.readBody = echoWorld.readBody →
      (∀ r, r.parts.uri = sampleService.l2Uri → w'.request r = echoWorld.request r) →
      (sampleService.call w' rawTxRequest).result =
        (sampleService.call echoWorld rawTxRequest).result :=
  call_broadcast sampleService echoWorld rawTxRequest (by decide) rfl
    (by decide : fromSlice _ = .ok ⟨rawTxMethod⟩) (.inl (by decide))

/-- A raw transaction whose body opens with a space, read by `jsonrpsee`'s `read_body`: both
requests sent carry the body without the space. -/
theorem call_broadcast_trims_body :
    (sampleService.call framedWorld (rootRequest .empty (" " ++ rawTxBody))).spawned.map (·.body) =
        [Utf8.ofString rawTxBody] ∧
      (sampleService.call framedWorld (rootRequest .empty (" " ++ rawTxBody))).awaited.map
        (·.body) = [Utf8.ofString rawTxBody] ∧
      Utf8.ofString rawTxBody ≠ (rootRequest .empty (" " ++ rawTxBody)).body := by
  decide

/-- Every other method: one request, to L2, with the bytes the read returned and the inbound
headers but for `authorization`, whose one value is the bearer token for `l2_auth`; nothing
spawned, no inner call; the result is L2's reply as it came, or the transport error. -/
theorem call_direct (h : req.parts.uri.path ≠ "/healthz") {bs : Bytes}
    (hr : w.readBody req.parts.headers req.body = .ok bs) {rpc : RpcRequest}
    (hp : fromSlice bs = .ok rpc)
    (hm : rpc.method.startsWith "engine_" = false ∧
      rpc.method.startsWith "eth_sendRawTransaction" = false ∧ rpc.method.startsWith "miner_" = false) :
    ∃ l, (s.call w req).awaited = [l] ∧ (s.call w req).spawned = [] ∧
      (s.call w req).innerCalls = [] ∧ l.parts.uri = s.l2Uri ∧ l.body = bs ∧
      (∀ k, l.parts.headers.getAll k =
        if k = AUTHORIZATION then [w.secretToBearerHeader s.l2Auth] else req.parts.headers.getAll k) ∧
      (s.call w req).result = (w.request l).map (Except.mapError .client) := by
  have hd : route rpc.method = .direct :=
    (route_eq_direct_iff _).2 (by simp [matchesAny, MULTIPLEX_METHODS, hm.1, hm.2.1, hm.2.2])
  rw [call_of_direct s w req h hr hp hd]
  refine ⟨_, rfl, rfl, rfl, by simp, by simp, fun k => ?_, rfl⟩
  simp only [outbound_headers_some, HeaderMap.getAll_insert, eq_comm]

theorem call_direct_chainId :
    ∃ l, (sampleService.call echoWorld chainIdRequest).awaited = [l] ∧
      (sampleService.call echoWorld chainIdRequest).spawned = [] ∧
      (sampleService.call echoWorld chainIdRequest).innerCalls = [] ∧
      l.parts.uri = sampleService.l2Uri ∧ l.body = chainIdRequest.body ∧
      (∀ k, l.parts.headers.getAll k = if k = AUTHORIZATION then
        [echoWorld.secretToBearerHeader sampleService.l2Auth]
        else chainIdRequest.parts.headers.getAll k) ∧
      (sampleService.call echoWorld chainIdRequest).result =
        (echoWorld.request l).map (Except.mapError .client) :=
  call_direct sampleService echoWorld chainIdRequest (by decide) rfl
    (by decide : fromSlice _ = .ok ⟨chainIdMethod⟩) (by decide)

/-- `eth_chainId` whose body opens with a form feed, which JSON does not count as whitespace,
read by `jsonrpsee`'s `read_body`: the request sent to L2 carries the body without it. -/
theorem call_direct_trims_body :
    (sampleService.call framedWorld (rootRequest .empty ("\x0c" ++ chainIdBody))).awaited.map
        (·.body) = [Utf8.ofString chainIdBody] ∧
      Utf8.ofString chainIdBody ≠ (rootRequest .empty ("\x0c" ++ chainIdBody)).body := by
  decide

end

/-- `engine_forkchoiceUpdatedV3`, with no parameters. -/
def fcuRequest : HttpRequest :=
  rootRequest .empty "\x7b\"method\":\"engine_forkchoiceUpdatedV3\"\x7d"

/-- The method of `fcuRequest`. -/
def fcuMethod : Str := ⟨Utf8.ofString "engine_forkchoiceUpdatedV3", by decide⟩

/-- `engine_forkchoiceUpdatedV3`, a method the spec gives to the Engine API multiplexer, goes to
the builder and to L2 and never to the inner service. -/
theorem call_forkchoiceUpdated_fans_out (s : ProxyService) (w : World)
    (hr : w.readBody fcuRequest.parts.headers fcuRequest.body = .ok fcuRequest.body) :
    (s.call w fcuRequest).innerCalls = [] ∧
      (s.call w fcuRequest).spawned.map (·.parts.uri) = [s.builderUri] ∧
      (s.call w fcuRequest).awaited.map (·.parts.uri) = [s.l2Uri] := by
  rw [call_of_fanOut s w fcuRequest (by decide) hr
    (by decide : fromSlice _ = .ok ⟨fcuMethod⟩) (by decide)]
  simp

theorem call_forkchoiceUpdated_fans_out_silentWorld :
    (sampleService.call silentWorld fcuRequest).innerCalls = [] ∧
      (sampleService.call silentWorld fcuRequest).spawned.map (·.parts.uri) =
        [sampleService.builderUri] ∧
      (sampleService.call silentWorld fcuRequest).awaited.map (·.parts.uri) =
        [sampleService.l2Uri] :=
  call_forkchoiceUpdated_fans_out sampleService silentWorld rfl

end Proxy
end RollupBoost
