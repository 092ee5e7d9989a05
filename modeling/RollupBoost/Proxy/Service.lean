import RollupBoost.Http.ReadBody
import RollupBoost.Json.RpcRequest

/-!
# Proxy.Service — `ProxyLayer` and `ProxyService::call`

`ProxyService` sits in front of the jsonrpsee server as its HTTP middleware. For each request
it answers `/healthz` itself; otherwise it reads the body, takes the JSON-RPC method from it,
and by the method's prefix either forwards the request to L2 with a bearer token of its own,
sends it to the builder in the background and to L2 as it came, or hands it to the inner
service.

`call` returns a future. A run of it is a function of what its collaborators do (`World`): the
bytes `read_body` returns, the replies of the client and of the inner service, the token minted
for a secret. Nothing ties the bytes read to the inbound body here: `jsonrpsee`'s `read_body`
drops the whitespace before the body's first `{` or `[` (`Http.ReadBody`), and a world whose
read is that function is `World.ReadsFrames`. The token carries the time it is minted at, so
two runs of `call` are two worlds.

`Run` records what the run did: the requests it spawned tasks for, the requests it sent and
awaited, the requests it handed to the inner service, and the result, `none` when the future
never completes because a reply it waits for never comes.
-/

namespace RollupBoost
namespace Proxy

open SerdeJson

/-- `MULTIPLEX_METHODS`. -/
def MULTIPLEX_METHODS : List String := ["engine_", "eth_sendRawTransaction", "miner_"]

/-- `FORWARD_REQUEST`. -/
def FORWARD_REQUEST : List String := ["engine_", "eth_sendRawTransaction", "miner_"]

/-- `table.iter().any(|&m| method.starts_with(m))`. -/
def matchesAny (table : List String) (method : Str) : Bool := table.any method.startsWith

/-- `ProxyLayer`. -/
structure ProxyLayer where
  l2Uri : Uri
  l2Auth : JwtSecret
  builderUri : Uri

/-- `ProxyService<S>`; the inner service and the client are the `World`'s. -/
structure ProxyService where
  l2Uri : Uri
  l2Auth : JwtSecret
  builderUri : Uri

/-- `ProxyLayer::new`. -/
def ProxyLayer.new (l2Uri : Uri) (l2Auth : JwtSecret) (builderUri : Uri) : ProxyLayer :=
  ⟨l2Uri, l2Auth, builderUri⟩

/-- `<ProxyLayer as Layer<S>>::layer`. -/
def ProxyLayer.layer (l : ProxyLayer) : ProxyService := ⟨l.l2Uri, l.l2Auth, l.builderUri⟩

/-- A reply to a request: the response or the error, or none when it never comes. -/
abbrev Reply := Option (Except String HttpResponse)

/-- `BoxError`, by where the error came from. -/
inductive BoxError
  | readBody (e : HttpHelpers.HttpError)
  | json (e : ErrorCode)
  | client (e : String)
  | inner (e : String)

/-- What the collaborators of `call` do. `readBody` is `http_helpers::read_body(headers, body,
u32::MAX)` on a request's headers and the bytes of its body: the bytes it returns, or its error;
`request` is the client's `request`; `inner` is the inner service's `call`;
`secretToBearerHeader` is the header value minted for a secret at the time of the run. -/
structure World where
  readBody : HeaderMap → Bytes → Except HttpHelpers.HttpError Bytes
  request : HttpRequest → Reply
  inner : HttpRequest → Reply
  secretToBearerHeader : JwtSecret → HeaderValue

/-- The world reads bodies with `jsonrpsee`'s `read_body`, each body arriving in some frames. -/
def World.ReadsFrames (w : World) : Prop :=
  ∀ hs b, ∃ n fs, HttpHelpers.dataOf fs = b ∧
    w.readBody hs b = (HttpHelpers.readBody n HttpHelpers.u32Max fs).map Prod.fst

/-- In such a world the bytes read are the body less fewer than 128 leading bytes of ASCII
whitespace. -/
theorem World.ReadsFrames.trims {w : World} (hw : w.ReadsFrames) {hs : HeaderMap} {b bs : Bytes}
    (h : w.readBody hs b = .ok bs) :
    ∃ ws, b = ws ++ bs ∧ ws.length < 128 ∧ ∀ x ∈ ws, HttpHelpers.isAsciiWhitespace x := by
  obtain ⟨n, fs, rfl, hr⟩ := hw hs b
  rw [hr] at h
  cases hb : HttpHelpers.readBody n HttpHelpers.u32Max fs with
  | error e => rw [hb] at h; cases h
  | ok p =>
    rw [hb] at h
    cases h
    obtain ⟨ws, hd, hl, hw, -⟩ := HttpHelpers.readBody_trims hb
    exact ⟨ws, hd, hl, hw⟩

/-- What a run of `call` did. -/
structure Run where
  spawned : List HttpRequest
  awaited : List HttpRequest
  innerCalls : List HttpRequest
  result : Option (Except BoxError HttpResponse)

/-- A run that did nothing but return `r`. -/
def Run.only (r : Except BoxError HttpResponse) : Run := ⟨[], [], [], some r⟩

/-- The request `forward_request` sends: `req` aimed at `uri` and, when `auth` is given, with
the bearer token for it as its one `authorization` value. -/
def outbound (w : World) (req : HttpRequest) (uri : Uri) (auth : Option JwtSecret) :
    HttpRequest :=
  match auth with
  | some auth =>
    ⟨⟨uri, req.parts.headers.insert AUTHORIZATION (w.secretToBearerHeader auth)⟩, req.body⟩
  | none => ⟨⟨uri, req.parts.headers⟩, req.body⟩

@[simp] theorem outbound_uri (w : World) (req : HttpRequest) (uri : Uri) (auth : Option JwtSecret) :
    (outbound w req uri auth).parts.uri = uri := by
  cases auth <;> rfl

@[simp] theorem outbound_body (w : World) (req : HttpRequest) (uri : Uri)
    (auth : Option JwtSecret) : (outbound w req uri auth).body = req.body := by
  cases auth <;> rfl

@[simp] theorem outbound_headers_none (w : World) (req : HttpRequest) (uri : Uri) :
    (outbound w req uri none).parts.headers = req.parts.headers := rfl

@[simp] theorem outbound_headers_some (w : World) (req : HttpRequest) (uri : Uri) (a : JwtSecret) :
    (outbound w req uri (some a)).parts.headers =
      req.parts.headers.insert AUTHORIZATION (w.secretToBearerHeader a) := rfl

/-- `forward_request`: the reply to the request it sends, its error turned into a `BoxError`. -/
def forwardRequest (w : World) (req : HttpRequest) (uri : Uri) (auth : Option JwtSecret) :
    Option (Except BoxError HttpResponse) :=
  (w.request (outbound w req uri auth)).map (Except.mapError .client)

/-- The body `/healthz` answers with. -/
def healthzBody : Bytes := Utf8.ofString "OK"

/-- `<ProxyService<S> as Service<HttpRequest>>::call`. -/
def ProxyService.call (s : ProxyService) (w : World) (req : HttpRequest) : Run :=
  if req.parts.uri.path = "/healthz" then .only (.ok (HttpResponse.new healthzBody))
  else
    match w.readBody req.parts.headers req.body with
    | .error e => .only (.error (.readBody e))
    | .ok bodyBytes =>
      match fromSlice bodyBytes with
      | .error e => .only (.error (.json e))
      | .ok rpc =>
        let req : HttpRequest := ⟨req.parts, bodyBytes⟩
        if matchesAny MULTIPLEX_METHODS rpc.method then
          if matchesAny FORWARD_REQUEST rpc.method then
            ⟨[outbound w req s.builderUri none], [outbound w req s.l2Uri none], [],
              forwardRequest w req s.l2Uri none⟩
          else ⟨[], [], [req], (w.inner req).map (Except.mapError .inner)⟩
        else
          ⟨[], [outbound w req s.l2Uri (some s.l2Auth)], [],
            forwardRequest w req s.l2Uri (some s.l2Auth)⟩

end Proxy
end RollupBoost
