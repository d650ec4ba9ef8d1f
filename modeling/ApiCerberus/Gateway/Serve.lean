import ApiCerberus.Gateway.OwnPlugins
import ApiCerberus.Gateway.Permission

/-!
# Serving a request

`serveHTTP` is `ServeHTTP` with `isBuiltIn` and `serveFederationBatch` (`internal/gateway/server.go:195-322, 977-1060,
1132-1226`), `runPlugin` the `run` functions in `internal/plugin/registry.go` with `Cache.Apply`, and `execute` is
`Pipeline.Execute`.

A request leaves a trace of events: who authenticated it, which permission was looked up, and when bytes of an upstream
or a subgraph go to the client. What the world answers to one request is an `Outside`: the outcome of every
authentication, of the permission lookup, of the plugins that neither authenticate nor replay, of billing and of the
upstream. The caches are what requests share.
-/

namespace Gateway

structure Request where
  method : Text
  host : Text
  path : Text
  header : FinMap Text (List Text)

/-- A stored response. -/
structure CacheEntry where
  statusCode : Nat
  body : List UInt8
  deriving DecidableEq

/-- The entries of each cache plugin, by the number of the plugin. -/
abbrev Caches := FinMap Nat (FinMap Text CacheEntry)

def Caches.get (caches : Caches) (id : Nat) (key : Text) : Option CacheEntry :=
  (caches.get? id).bind fun entries => entries.get? key

def Caches.put (caches : Caches) (id : Nat) (key : Text) (entry : CacheEntry) : Caches :=
  caches.set id (((caches.get? id).getD .empty).set key entry)

variable {χ π : Type}

/-- The fields of `Gateway` that a request reads. -/
structure Server (χ π : Type) where
  router : Router χ
  pipelines : Pipelines π
  /-- There are consumers in the configuration. -/
  authRequired : Bool
  hasAuthAPIKey : Bool
  federationEnabled : Bool
  /-- `CanCacheRequest` of a cache plugin that has not been stopped. -/
  canCache : PipelinePlugin π → Request → Bool
  /-- `GenerateKey`. -/
  cacheKey : PipelinePlugin π → Request → Text

/-- What a plugin did that is not modelled further: what it left of the request, and its result. -/
structure Ran where
  method : Text
  path : Text
  header : FinMap Text (List Text)
  result : Except PluginError Bool

/-- The answers of the world to one request. -/
structure Outside (π : Type) where
  /-- The body is too large or cannot be read. -/
  bodyRejected : Bool
  /-- `Authenticate` of the gateway's own `AuthAPIKey`. -/
  apiKey : Request → Except PluginError (Option Consumer)
  /-- `Authenticate` of a plugin `auth-apikey`. -/
  pluginKey : PipelinePlugin π → Request → Except PluginError (Option Consumer)
  /-- `Authenticate` of a plugin `auth-jwt`: the claim `sub`, if it is a string, and the headers with the mapped
  claims. -/
  jwt : PipelinePlugin π → Request → Except PluginError (Option Text × FinMap Text (List Text))
  lookup : Option PermissionLookup
  now : Now
  other : PipelinePlugin π → Request → Ran
  /-- What a cache plugin stored under the key of this request is still there and has not expired. -/
  fresh : PipelinePlugin π → Bool
  /-- The check before proxying passes. -/
  billing : Bool
  /-- The federation executor answers with bytes of a subgraph. -/
  federation : Bool
  /-- The response that the upstream sends, in the end. -/
  upstream : Option CacheEntry
  /-- `AfterProxy` of a cache plugin takes the response. -/
  stores : PipelinePlugin π → Bool

/-- What happens to a request, as far as it matters here. -/
inductive Event
  /-- A plugin of the auth phase accepted the request. -/
  | authenticated (name : PluginName)
  /-- `AuthAPIKey.Authenticate` of the gateway accepted it. -/
  | apiKeyAccepted
  | permitted (granted : Granted) (method : Text)
  /-- Bytes that came from an upstream or a subgraph go to the client. -/
  | replayed (entry : CacheEntry)
  | forwarded (entry : CacheEntry)
  | federated
  deriving DecidableEq

/-- Credentials were accepted. -/
def Event.accepts : Event → Bool
  | authenticated _ | apiKeyAccepted => true
  | _ => false

/-- Bytes of an upstream, an executor or a cache are sent. -/
def Event.sends : Event → Bool
  | replayed _ | forwarded _ | federated => true
  | _ => false

/-! ## The pipeline -/

/-- `PipelineContext`, as far as it is used here. -/
structure Ctx where
  request : Request
  consumer : Option Consumer
  aborted : Option Text
  events : List Event

def Ctx.log (ctx : Ctx) (e : Event) : Ctx := { ctx with events := ctx.events ++ [e] }

/-- The consumer that `auth-jwt` makes of the claim `sub`. -/
def jwtConsumer (sub : Option Text) : Option Consumer :=
  sub.bind fun sub => if Text.trimSpace sub = [] then none else some ⟨Text.trimSpace sub, Text.trimSpace sub⟩

/-- `Run` of a plugin. -/
def runPlugin (g : Server χ π) (w : Outside π) (caches : Caches) (route : Route χ) (p : PipelinePlugin π) (ctx : Ctx) :
    Ctx × Except PluginError Bool :=
  match p.name with
  | .authAPIKey =>
    match w.pluginKey p ctx.request with
    | .error err => (ctx, .error err)
    | .ok c => ({ ctx with consumer := c }.log (.authenticated .authAPIKey), .ok false)
  | .authJWT =>
    match w.jwt p ctx.request with
    | .error err => (ctx, .error err)
    | .ok (sub, header) =>
      ({ ctx with
          consumer := ctx.consumer.or (jwtConsumer sub)
          request := { ctx.request with header := header } }.log (.authenticated .authJWT), .ok false)
  | .endpointPermission =>
    match evaluate w.lookup w.now (permissionRouteID route) ctx.request.method ctx.consumer with
    | .error err => (ctx, .error err)
    | .ok none => (ctx, .ok false)
    | .ok (some granted) => (ctx.log (.permitted granted ctx.request.method), .ok false)
  | .cache =>
    if g.canCache p ctx.request then
      match (caches.get p.id (g.cacheKey p ctx.request)).filter fun _ => w.fresh p with
      | some entry => ({ ctx with aborted := some "served_from_cache".toList }.log (.replayed entry), .ok true)
      | none => (ctx, .ok ctx.aborted.isSome)
    else (ctx, .ok ctx.aborted.isSome)
  | .requestTransform =>
    let ran := w.other p ctx.request
    ({ ctx with request := ⟨ran.method, ctx.request.host, ran.path, ran.header⟩ }, ran.result)
  | _ =>
    -- no other plugin changes the method
    let ran := w.other p ctx.request
    ({ ctx with request := { ctx.request with path := ran.path, header := ran.header } }, ran.result)

/-- `Pipeline.Execute`. -/
def execute (g : Server χ π) (w : Outside π) (caches : Caches) (route : Route χ) :
    List (PipelinePlugin π) → Ctx → Ctx × Except PluginError Bool
  | [], ctx => (ctx, .ok false)
  | p :: chain, ctx =>
    match runPlugin g w caches route p ctx with
    | (ctx', .error err) => (ctx', .error err)
    | (ctx', .ok true) =>
      ({ ctx' with aborted := some (ctx'.aborted.getD (p.name.text ++ ": handled response".toList)) }, .ok true)
    | (ctx', .ok false) => if ctx'.aborted.isSome then (ctx', .ok true) else execute g w caches route chain ctx'

/-! ## ServeHTTP -/

/-- How a request ended. -/
inductive Outcome
  /-- The gateway answered by itself, with an error, a health report or what a plugin wrote. -/
  | answered
  /-- `executeProxyChain` or the federation executor was reached, with this consumer. -/
  | reached (consumer : Option Consumer)
  deriving DecidableEq

/-- What happened to a request, how it ended, and the caches after it. -/
structure Served where
  events : List Event
  outcome : Outcome
  caches : Caches

/-- `executeAuthChain`: the consumer and the event, or an error. -/
def executeAuthChain (g : Server χ π) (w : Outside π) (route : Route χ) (ctx : Ctx) : Except Unit Ctx :=
  if g.authRequired && !g.pipelines.authFlag route then
    if !g.hasAuthAPIKey then .error ()
    else
      match w.apiKey ctx.request with
      | .error _ => .error ()
      | .ok c => .ok ({ ctx with consumer := c }.log .apiKeyAccepted)
  else .ok ctx

/-- What `AfterProxy` of the cache plugins stores. -/
def storeResponse (g : Server χ π) (w : Outside π) (request : Request) (entry : CacheEntry) (caches : Caches) :
    List (PipelinePlugin π) → Caches
  | [] => caches
  | p :: chain =>
    storeResponse g w request entry
      (if p.name = .cache && w.stores p then caches.put p.id (g.cacheKey p request) entry else caches) chain

/-- What `executeProxyChain` and the hooks after it leave of a request. -/
def serveUpstream (g : Server χ π) (w : Outside π) (chain : List (PipelinePlugin π)) (ctx : Ctx)
    (caches : Caches) : Served :=
  match w.upstream with
  | none => ⟨ctx.events, .reached ctx.consumer, caches⟩
  | some entry =>
    ⟨ctx.events ++ [.forwarded entry], .reached ctx.consumer, storeResponse g w ctx.request entry caches chain⟩

/-- From the pipeline on. -/
def serveRoute (g : Server χ π) (w : Outside π) (caches : Caches) (m : Matched χ) (request : Request) : Served :=
  let chain := g.pipelines.chainFor m.route
  match execute g w caches m.route chain ⟨{ request with path := m.path }, none, none, []⟩ with
  | (ctx, .error _) => ⟨ctx.events, .answered, caches⟩
  | (ctx, .ok true) => ⟨ctx.events, .answered, caches⟩
  | (ctx, .ok false) =>
    match executeAuthChain g w m.route ctx with
    | .error _ => ⟨ctx.events, .answered, caches⟩
    | .ok ctx =>
      if !w.billing then ⟨ctx.events, .answered, caches⟩
      else if m.service.protocol = "graphql".toList && g.federationEnabled then
        ⟨if w.federation then ctx.events ++ [.federated] else ctx.events, .reached ctx.consumer, caches⟩
      else serveUpstream g w chain ctx caches

/-- `serveFederationBatch`, which has no route and no consumer of its own. -/
def serveFederationBatch (g : Server χ π) (w : Outside π) (caches : Caches) (request : Request) : Served :=
  if request.method ≠ "POST".toList then ⟨[], .answered, caches⟩
  else if g.authRequired then
    if !g.hasAuthAPIKey then ⟨[], .answered, caches⟩
    else
      match w.apiKey request with
      | .error _ => ⟨[], .answered, caches⟩
      | .ok _ => ⟨if w.federation then [.apiKeyAccepted, .federated] else [.apiKeyAccepted], .answered, caches⟩
  else ⟨if w.federation then [.federated] else [], .answered, caches⟩

/-- The paths that `handleHealth` answers. -/
def isBuiltIn (path : Text) : Bool :=
  (["/health", "/ready", "/health/audit-drops", "/metrics"].map String.toList).contains path

/-- The built-in endpoints come first, then the routes. -/
def serveHTTP (g : Server χ π) (w : Outside π) (caches : Caches) (request : Request) : Served :=
  if w.bodyRejected then ⟨[], .answered, caches⟩
  else if isBuiltIn request.path then ⟨[], .answered, caches⟩
  else if g.federationEnabled && request.path = "/graphql/batch".toList then serveFederationBatch g w caches request
  else
    match g.router.match request.host request.method request.path with
    | none => ⟨[], .answered, caches⟩
    | some m => serveRoute g w caches m request

/-- The caches after a history of requests. -/
def serveAll (g : Server χ π) (caches : Caches) (history : List (Outside π × Request)) : Caches :=
  history.foldl (fun caches step => (serveHTTP g step.1 caches step.2).caches) caches

/-! ## The gateway of a configuration -/

/-- What `New` needs besides the configuration. -/
structure Setup (χ π : Type) where
  compile : Compile
  factories : Factories χ π
  /-- Opening the store: an error, or whether there is one to look permissions up in. -/
  store : Except Text Bool
  consumers : Nat
  federationEnabled : Bool
  canCache : PipelinePlugin π → Request → Bool
  cacheKey : PipelinePlugin π → Request → Text

/-- `New`: the router and the pipelines are built, or the configuration is refused. -/
def Server.new [Inhabited χ] (s : Setup χ π) (cfg : Config χ) : Except Text (Server χ π) :=
  match Router.rebuild s.compile cfg.routes cfg.services with
  | .error err => .error ("create router: ".toList ++ err.text)
  | .ok router =>
    match s.store with
    | .error err => .error ("open gateway store: ".toList ++ err)
    | .ok hasLookup =>
      match buildRoutePipelines s.factories (hasLookup && s.consumers = 0) cfg with
      | .error err => .error ("build plugin pipelines: ".toList ++ err)
      | .ok pipelines => .ok ⟨router, pipelines, 0 < s.consumers, true, s.federationEnabled, s.canCache, s.cacheKey⟩

end Gateway
