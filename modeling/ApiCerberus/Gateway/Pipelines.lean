import ApiCerberus.Gateway.Router

/-!
# Plugin chains

`mergePluginSpecs`, `ensureEndpointPermissionGlobal`, `Registry.build`, `buildPlugins` and `buildRoutePipelines` in
`internal/plugin/registry.go:161-267, 776-827`, and `validateRoutes` in `internal/config/load.go:548-582`. `builderKey`
and `requestKey` are `routePipelineKey` in `registry.go:763-774` and `internal/gateway/request_state.go:95-103`.

A plugin is an object of its own: `buildPlugins` numbers the plugins in the order in which they are built. What a
factory builds is a value of an arbitrary type `π`.
-/

namespace Gateway

/-- The phases, in the order in which they run. -/
inductive Phase
  | preAuth
  | auth
  | preProxy
  | proxy
  | postProxy
  deriving DecidableEq, Repr

/-- `phaseOrder`. -/
def Phase.order : Phase → Nat
  | .preAuth => 1
  | .auth => 2
  | .preProxy => 3
  | .proxy => 4
  | .postProxy => 5

inductive PluginName
  | cors
  | correlationID
  | botDetect
  | ipRestrict
  | authAPIKey
  | authJWT
  | userIPWhitelist
  | endpointPermission
  | rateLimit
  | requestSizeLimit
  | requestValidator
  | circuitBreaker
  | retry
  | timeout
  | urlRewrite
  | requestTransform
  | responseTransform
  | compression
  | brotli
  | redirect
  | mock
  | versioning
  | cache
  deriving DecidableEq, Repr

namespace PluginName

/-- The plugins in the order of their registration. -/
def all : List PluginName :=
  [cors, correlationID, botDetect, ipRestrict, authAPIKey, authJWT, userIPWhitelist, endpointPermission, rateLimit,
    requestSizeLimit, requestValidator, circuitBreaker, retry, timeout, urlRewrite, requestTransform, responseTransform,
    compression, brotli, redirect, mock, versioning, cache]

/-- The name in a configuration. -/
def text : PluginName → Text
  | cors => "cors".toList
  | correlationID => "correlation-id".toList
  | botDetect => "bot-detect".toList
  | ipRestrict => "ip-restrict".toList
  | authAPIKey => "auth-apikey".toList
  | authJWT => "auth-jwt".toList
  | userIPWhitelist => "user-ip-whitelist".toList
  | endpointPermission => "endpoint-permission".toList
  | rateLimit => "rate-limit".toList
  | requestSizeLimit => "request-size-limit".toList
  | requestValidator => "request-validator".toList
  | circuitBreaker => "circuit-breaker".toList
  | retry => "retry".toList
  | timeout => "timeout".toList
  | urlRewrite => "url-rewrite".toList
  | requestTransform => "request-transform".toList
  | responseTransform => "response-transform".toList
  | compression => "compression".toList
  | brotli => "brotli".toList
  | redirect => "redirect".toList
  | mock => "mock".toList
  | versioning => "versioning".toList
  | cache => "cache".toList

def phase : PluginName → Phase
  | cors | correlationID | botDetect | ipRestrict => .preAuth
  | authAPIKey | authJWT => .auth
  | userIPWhitelist | endpointPermission | rateLimit | requestSizeLimit | requestValidator | urlRewrite
  | requestTransform | redirect | mock | versioning => .preProxy
  | circuitBreaker | retry | timeout => .proxy
  | responseTransform | compression | brotli | cache => .postProxy

/-- Smaller numbers run first. -/
def priority : PluginName → Int
  | correlationID => 0
  | cors => 1
  | botDetect => 3
  | ipRestrict => 5
  | authAPIKey => 10
  | authJWT => 20
  | mock => 5
  | versioning => 8
  | userIPWhitelist => 12
  | endpointPermission => 15
  | redirect => 15
  | rateLimit => 20
  | requestSizeLimit => 25
  | requestValidator => 30
  | urlRewrite => 35
  | requestTransform => 40
  | timeout => 10
  | retry => 20
  | circuitBreaker => 30
  | cache => 40
  | responseTransform => 40
  | brotli => 49
  | compression => 50

end PluginName

/-- `PipelinePlugin`, with the number of the object. -/
structure PipelinePlugin (π : Type) where
  id : Nat
  name : PluginName
  plugin : π

variable {χ π : Type}

/-! ## Specs -/

def normalizePluginName (name : Text) : Text := Text.toLower (Text.trimSpace name)

def isPluginEnabled (spec : PluginConfig χ) : Bool := spec.enabled.getD true

/-- The specs of `mergePluginSpecs` with the position of each name. -/
structure Merged (χ : Type) where
  out : List (PluginConfig χ)
  indexByName : FinMap Text Nat

namespace Merged

def append (m : Merged χ) (name : Text) (spec : PluginConfig χ) : Merged χ :=
  ⟨m.out ++ [spec], m.indexByName.set name m.out.length⟩

def addGlobal (m : Merged χ) (spec : PluginConfig χ) : Merged χ :=
  let name := normalizePluginName spec.name
  if name = [] then m else m.append name spec

def addRoute (m : Merged χ) (spec : PluginConfig χ) : Merged χ :=
  let name := normalizePluginName spec.name
  if name = [] then m
  else
    match m.indexByName.get? name with
    | some idx => { m with out := m.out.set idx spec }
    | none => m.append name spec

end Merged

/-- A plugin of the route replaces the global one of the same name. -/
def mergePluginSpecs (global route : List (PluginConfig χ)) : List (PluginConfig χ) :=
  (route.foldl Merged.addRoute (global.foldl Merged.addGlobal ⟨[], .empty⟩)).out

/-- A spec that gives a name only. -/
def bareSpec [Inhabited χ] (name : PluginName) : PluginConfig χ := ⟨name.text, none, default⟩

/-- The permission and the whitelist plugin are added if they are not there. -/
def ensureEndpointPermissionGlobal [Inhabited χ] (specs : List (PluginConfig χ)) : List (PluginConfig χ) :=
  let has (name : PluginName) := specs.any fun spec => normalizePluginName spec.name = name.text
  let specs' := if has .endpointPermission then specs else specs ++ [bareSpec .endpointPermission]
  if has .userIPWhitelist then specs' else specs' ++ [bareSpec .userIPWhitelist]

/-! ## Chains -/

/-- What the registered factories build, for a given `BuilderContext`. -/
abbrev Factories (χ π : Type) := PluginName → χ → Except Text π

/-- `Registry.Build`; `id` is the number of the new object. -/
def Registry.build (factories : Factories χ π) (id : Nat) (spec : PluginConfig χ) : Except Text (PipelinePlugin π) :=
  let name := normalizePluginName spec.name
  if name = [] then .error "plugin name is required".toList
  else
    match PluginName.all.find? fun n => n.text = name with
    | none => .error ("plugin ".toList ++ Text.quote spec.name ++ " is not registered".toList)
    | some n => (factories n spec.config).map fun p => ⟨id, n, p⟩

/-- The plugins of the enabled specs, in the order of the specs. -/
def buildPlugins (factories : Factories χ π) (routeName : Text) :
    Nat → List (PluginConfig χ) → Except Text (List (PipelinePlugin π))
  | _, [] => .ok []
  | id, spec :: specs =>
    if isPluginEnabled spec then
      match Registry.build factories id spec with
      | .error err => .error ("build plugin ".toList ++ Text.quote spec.name ++ " for route ".toList ++
          Text.quote routeName ++ ": ".toList ++ err)
      | .ok p => (buildPlugins factories routeName (id + 1) specs).map (p :: ·)
    else buildPlugins factories routeName id specs

/-- The comparison by which a chain is sorted. -/
def runsBefore (p q : PipelinePlugin π) : Bool :=
  if p.name.phase.order ≠ q.name.phase.order then p.name.phase.order < q.name.phase.order
  else if p.name.priority ≠ q.name.priority then p.name.priority < q.name.priority
  else p.name.text < q.name.text

/-- The order is stable. -/
def sortChain (chain : List (PipelinePlugin π)) : List (PipelinePlugin π) :=
  chain.insertionSort fun p q => runsBefore q p = false

def hasAuthPhase (chain : List (PipelinePlugin π)) : Bool := chain.any fun p => p.name.phase = .auth

/-- The key under which the builder files a chain. -/
def builderKey (route : Route χ) (idx : Nat) : Text :=
  if Text.trimSpace route.id ≠ [] then Text.trimSpace route.id
  else if Text.trimSpace route.name ≠ [] then Text.trimSpace route.name
  else "route-".toList ++ Text.decimal idx

/-- The key under which a request looks for its chain. -/
def requestKey (route : Route χ) : Text :=
  if Text.trimSpace route.id ≠ [] then Text.trimSpace route.id else Text.trimSpace route.name

/-- What one round of the loop over the routes built. -/
structure Built (π : Type) where
  key : Text
  chain : List (PipelinePlugin π)

/-- The rounds of `BuildRoutePipelinesWithContext`; `id` is the number of the next object. -/
def buildRoutes (factories : Factories χ π) (global : List (PluginConfig χ)) :
    Nat → Nat → List (Route χ) → Except Text (List (Built π))
  | _, _, [] => .ok []
  | idx, id, route :: routes =>
    match buildPlugins factories route.name id (mergePluginSpecs global route.plugins) with
    | .error err => .error err
    | .ok chain =>
      (buildRoutes factories global (idx + 1) (id + chain.length) routes).map
        (⟨builderKey route idx, sortChain chain⟩ :: ·)

/-- The chains and the flags, by the key of the route. -/
structure Pipelines (π : Type) where
  chains : FinMap Text (List (PipelinePlugin π))
  hasAuth : FinMap Text Bool

/-- A flag that was set stays. -/
def Pipelines.add (m : Pipelines π) (b : Built π) : Pipelines π where
  chains := m.chains.set b.key b.chain
  hasAuth := if hasAuthPhase b.chain then m.hasAuth.set b.key true else m.hasAuth

def Pipelines.ofBuilt (bs : List (Built π)) : Pipelines π := bs.foldl Pipelines.add ⟨.empty, .empty⟩

structure Config (χ : Type) where
  globalPlugins : List (PluginConfig χ)
  routes : List (Route χ)
  services : List Service

/-- The specs that go into every chain; `implicit` says that there is a permission lookup and no consumer. -/
def globalSpecs [Inhabited χ] (cfg : Config χ) (implicit : Bool) : List (PluginConfig χ) :=
  if implicit then ensureEndpointPermissionGlobal cfg.globalPlugins else cfg.globalPlugins

/-- The rounds for a configuration. -/
def builtFor [Inhabited χ] (factories : Factories χ π) (implicit : Bool)
    (cfg : Config χ) : Except Text (List (Built π)) :=
  buildRoutes factories (globalSpecs cfg implicit) 0 0 cfg.routes

def buildRoutePipelines [Inhabited χ] (factories : Factories χ π) (implicit : Bool) (cfg : Config χ) :
    Except Text (Pipelines π) :=
  (builtFor factories implicit cfg).map Pipelines.ofBuilt

/-- The chain that `ServeHTTP` runs for a route. -/
def Pipelines.chainFor (m : Pipelines π) (route : Route χ) : List (PipelinePlugin π) :=
  (m.chains.get? (requestKey route)).getD []

/-- The flag that `executeAuthChain` looks at. -/
def Pipelines.authFlag (m : Pipelines π) (route : Route χ) : Bool := (m.hasAuth.get? (requestKey route)).getD false

/-! ## Validation -/

def allowedMethods : List Text := ["*", "GET", "POST", "PUT", "PATCH", "DELETE", "HEAD", "OPTIONS"].map String.toList

/-- The errors that validation reports for one route. -/
def routeErrors (services : List Service) (idx : Nat) (rt : Route χ) : List Text :=
  let route := "route ".toList ++ Text.quote rt.name
  if rt.name = [] then ["routes[".toList ++ Text.decimal idx ++ "].name is required".toList]
  else
    (if Text.trimSpace rt.service = [] then [route ++ " service is required".toList]
      else if services.any fun s => s.name ≠ [] && s.name = rt.service then []
      else [route ++ " references unknown service ".toList ++ Text.quote rt.service]) ++
    (if rt.paths = [] then [route ++ " must include at least one path".toList] else []) ++
    ((rt.methods.filter fun m => !allowedMethods.contains (Text.toUpper (Text.trimSpace m))).map fun m =>
      route ++ " has invalid method ".toList ++ Text.quote m) ++
    rt.plugins.zipIdx.filterMap fun p =>
      if Text.trimSpace p.1.name = [] then
        some (route ++ " plugins[".toList ++ Text.decimal p.2 ++ "].name is required".toList)
      else none

/-- The errors of a configuration, in the order of its routes. -/
def validateRoutes (cfg : Config χ) : List Text :=
  cfg.routes.zipIdx.flatMap (fun p => routeErrors cfg.services p.2 p.1) ++
    cfg.globalPlugins.zipIdx.filterMap fun p =>
      if Text.trimSpace p.1.name = [] then
        some ("global_plugins[".toList ++ Text.decimal p.2 ++ "].name is required".toList)
      else none

end Gateway
