import RollupBoost.Utf8
import RollupBoost.Http
import RollupBoost.Http.ReadBody
import RollupBoost.Json.Read
import RollupBoost.Json.RpcRequest
import RollupBoost.Json.Syntax
import RollupBoost.Json.Complete
import RollupBoost.Proxy.Service
import RollupBoost.Proxy.Routing
import RollupBoost.Proxy.Forwarding
import RollupBoost.Proxy.Authorization
import RollupBoost.Json.Method
import RollupBoost.Json.Sound
import RollupBoost.Utf8.Decode
import RollupBoost.Json.Tokens
import RollupBoost.Json.Derive
import RollupBoost.Json.Accepts
import RollupBoost.Proxy.Bodies
