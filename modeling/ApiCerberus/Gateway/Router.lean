import Mathlib.Data.List.Sort
import Mathlib.Order.Lex
import ApiCerberus.Gateway.Radix

/-!
# The router

`internal/gateway/router.go`, with the types of `internal/config/types.go:287-315` and the path of the proxy
(`stripPathForProxy`, `upstreamPath`: `proxy.go:101-104, 267-281`).

`regexp.Compile` is a parameter. The configuration of a plugin is a value of an arbitrary type `χ`, the router does not
look at it. A `sort.SliceStable` is an insertion sort.
-/

namespace Gateway

structure PluginConfig (χ : Type) where
  name : Text
  enabled : Option Bool
  config : χ
  deriving DecidableEq

/-- What the router reads of a route. -/
structure Route (χ : Type) where
  id : Text
  name : Text
  service : Text
  hosts : List Text
  paths : List Text
  methods : List Text
  stripPath : Bool
  priority : Int
  plugins : List (PluginConfig χ)
  deriving DecidableEq

structure Service where
  id : Text
  name : Text
  protocol : Text
  upstream : Text
  readTimeout : Int
  deriving DecidableEq

variable {χ : Type}

/-! ## Method trees -/

/-- What a node of a tree points to. -/
abbrev Target (χ : Type) := Route χ × Service

/-- One tree for each method, and one for all of them. -/
structure MethodTree (χ : Type) where
  trees : FinMap Text (RadixNode (Target χ))
  any : RadixNode (Target χ)

namespace MethodTree

def new : MethodTree χ := ⟨.empty, .empty⟩

/-- The method under which `rootFor` files a tree. -/
def methodKey (method : Text) : Text :=
  let m := Text.toUpper (Text.trimSpace method)
  if m = [] then "GET".toList else m

/-- `rootFor(method, false)`. -/
def rootFor (t : MethodTree χ) (method : Text) : Option (RadixNode (Target χ)) :=
  if methodKey method = ['*'] then some t.any else t.trees.get? (methodKey method)

/-- `*` stands for every method. -/
def insert (t : MethodTree χ) (method path : Text) (target : Target χ) : MethodTree χ :=
  if methodKey method = ['*'] then { t with any := insertPath t.any path target }
  else
    let root := (t.trees.get? (methodKey method)).getD .empty
    { t with trees := t.trees.set (methodKey method) (insertPath root path target) }

def «match» (t : MethodTree χ) (method path : Text) : Option (Target χ × Params) :=
  let segs := splitPath path
  ((t.rootFor method).bind fun root => searchPath root segs .empty).or (searchPath t.any segs .empty)

end MethodTree

/-! ## Bindings -/

/-- One host, method and path of a route. -/
structure RouteBinding (χ : Type) where
  host : Text
  method : Text
  path : Text
  kind : PathKind
  route : Route χ
  service : Service

def PathKind.rank : PathKind → Nat
  | .exact => 0
  | .withPrefix => 1
  | .regex => 2

/-- The comparison by which `Rebuild` sorts its bindings. -/
def before (b b' : RouteBinding χ) : Bool :=
  if b.kind ≠ b'.kind then b.kind.rank < b'.kind.rank
  else if b.route.priority ≠ b'.route.priority then b'.route.priority < b.route.priority
  else if Text.byteLen b.path ≠ Text.byteLen b'.path then Text.byteLen b'.path < Text.byteLen b.path
  else b.route.name < b'.route.name

def sortBindings (bs : List (RouteBinding χ)) : List (RouteBinding χ) :=
  bs.insertionSort fun b b' => before b' b = false

/-- The bindings of one tree root, inserted in their order. -/
def insertAll (root : RadixNode (Target χ)) (bs : List (RouteBinding χ)) : RadixNode (Target χ) :=
  bs.foldl (fun n b => insertPath n b.path (b.route, b.service)) root

/-- A route with a regular expression. -/
structure CompiledRoute (χ : Type) where
  host : Text
  methods : List Text
  re : Text → Bool
  route : Route χ
  service : Service
  priority : Int
  patternLen : Nat

/-- A route without hosts is for all of them. -/
def CompiledRoute.matches (c : CompiledRoute χ) (host method path : Text) : Bool :=
  (c.host = [] || c.host = host) && (c.methods.contains ['*'] || c.methods.contains method) && c.re path

/-- Hosts first, then the priority, then the longer pattern. -/
def regexBefore (c c' : CompiledRoute χ) : Bool :=
  if (c.host ≠ []) ≠ (c'.host ≠ []) then c.host ≠ []
  else if c.priority ≠ c'.priority then c'.priority < c.priority
  else if c.patternLen ≠ c'.patternLen then c'.patternLen < c.patternLen
  else c.route.name < c'.route.name

/-! ## Rebuild -/

/-- `regexp.Compile` and `MatchString`. -/
abbrev Compile := Text → Except String (Text → Bool)

def maxRegexLength : Nat := 1024

def compileRegex (compile : Compile) (path : Text) : Except String (Text → Bool) :=
  if maxRegexLength < Text.byteLen path then .error "route pattern exceeds maximum length of 1024 characters"
  else
    let p := if Text.hasPrefix path ['^'] then path else '^' :: path
    compile (if p.getLast? = some '$' then p else p ++ ['$'])

def dedup (texts : List Text) : List Text :=
  texts.foldl (fun seen t => if seen.contains t then seen else seen ++ [t]) []

def normalizeMethods (methods : List Text) : List Text :=
  let out := dedup ((methods.map fun m => Text.toUpper (Text.trimSpace m)).filter (· ≠ []))
  if out = [] then ["GET".toList] else out

/-- Without scheme, port and brackets. -/
def normalizeHost (host : Text) : Text :=
  let h := Text.toLower (Text.trimSpace host)
  let h := Text.trimPrefix h "http://".toList
  let h := Text.trimPrefix h "https://".toList
  let h := if h.count ':' = 1 ∧ 0 < (h.takeWhile (· ≠ ':')).length then h.takeWhile (· ≠ ':') else h
  Text.trim (fun c => c = '[' || c = ']') h

def normalizeHosts (hosts : List Text) : List Text := if hosts = [] then [[]] else dedup (hosts.map normalizeHost)

/-- Why a configuration is refused. -/
inductive RebuildError
  | unknownService (route service : Text)
  | regexPath (route rawPath : Text) (err : String)
  deriving DecidableEq, Repr

def RebuildError.text : RebuildError → Text
  | unknownService route service =>
    "route ".toList ++ Text.quote route ++ " references unknown service ".toList ++ Text.quote service
  | regexPath route rawPath err =>
    "route ".toList ++ Text.quote route ++ " regex path ".toList ++ Text.quote rawPath ++ ": ".toList ++ err.toList

/-- By name and by id, the later one wins. -/
def serviceByName (services : List Service) : FinMap Text Service :=
  services.foldl (fun m s =>
    let m := if s.name ≠ [] then m.set s.name s else m
    if s.id ≠ [] then m.set s.id s else m) .empty

/-- What one host, method and path of a route contributes. -/
def bind (compile : Compile) (route : Route χ) (service : Service) (host method rawPath : Text) :
    Except RebuildError (RouteBinding χ ⊕ CompiledRoute χ) :=
  let path := normalizePath rawPath
  let kind := classifyPath path
  if kind = .regex then
    match compileRegex compile path with
    | .error err => .error (.regexPath route.name rawPath err)
    | .ok re =>
      .ok (.inr ⟨host, [Text.toUpper (Text.trimSpace method)], re, route, service, route.priority, Text.byteLen path⟩)
  else .ok (.inl ⟨host, method, path, kind, route, service⟩)

/-- The bindings of a route, one for each host, path and method. -/
def bindRoute (compile : Compile) (services : FinMap Text Service) (route : Route χ) :
    Except RebuildError (List (RouteBinding χ ⊕ CompiledRoute χ)) :=
  match services.get? route.service with
  | none => .error (.unknownService route.name route.service)
  | some service =>
    (((normalizeHosts route.hosts).product (normalizeMethods route.methods)).product route.paths).mapM
      fun ((host, method), rawPath) => bind compile route service host method rawPath

structure Router (χ : Type) where
  hosts : FinMap Text (MethodTree χ)
  defaultTree : MethodTree χ
  regexRoutes : List (CompiledRoute χ)

namespace Router

def insert (r : Router χ) (b : RouteBinding χ) : Router χ :=
  if b.host = [] then { r with defaultTree := r.defaultTree.insert b.method b.path (b.route, b.service) }
  else
    let tree := (r.hosts.get? b.host).getD .new
    { r with hosts := r.hosts.set b.host (tree.insert b.method b.path (b.route, b.service)) }

/-- The trees are filled in the order of the sorted bindings. -/
def rebuild (compile : Compile) (routes : List (Route χ)) (services : List Service) : Except RebuildError (Router χ) :=
  do
  let bound := (← routes.mapM (bindRoute compile (serviceByName services))).flatten
  let regular := bound.filterMap Sum.getLeft?
  let regexRoutes := (bound.filterMap Sum.getRight?).insertionSort fun c c' => regexBefore c' c = false
  return (sortBindings regular).foldl insert ⟨.empty, .new, regexRoutes⟩

end Router

theorem ok_of_toOption {ε α : Type} {e : Except ε α} {a : α} (h : e.toOption = some a) : e = .ok a := by
  cases e with
  | error => cases h
  | ok a' =>
    cases h
    rfl

/-! ## Stripping -/

/-- `consumedPrefixFromPattern`, as the segments that the pattern consumes. -/
def consumedSegments : List Text → List Text → Option (List Text)
  | [], [] => some []
  | [], _ :: _ => none
  | ps :: pSeg, rSeg =>
    if ps = ['*'] then some []
    else
      match rSeg with
      | [] => none
      | rs :: rSeg => if Text.hasPrefix ps [':'] || ps = rs then (consumedSegments pSeg rSeg).map (rs :: ·) else none

def consumedPrefix (pattern requestPath : Text) : Option Text :=
  (consumedSegments (splitPath pattern) (splitPath requestPath)).map render

/-- One round of the loop in `bestStripPrefix`. -/
def keepLongest (requestPath longest pattern : Text) : Text :=
  if classifyPath (normalizePath pattern) = .regex then longest
  else
    match consumedPrefix (normalizePath pattern) requestPath with
    | none => longest
    | some pre => if Text.byteLen longest < Text.byteLen pre then pre else longest

/-- The longest prefix that the path has. -/
def bestStripPrefix (patterns : List Text) (requestPath : Text) : Option Text :=
  let longest := patterns.foldl (keepLongest (normalizePath requestPath)) []
  if longest = [] then none else some longest

/-- What is left of a path without its first part. -/
def stripped (path pre : Text) : Text :=
  let rewritten := Text.trimPrefix path pre
  if rewritten = [] then ['/'] else if Text.hasPrefix rewritten ['/'] then rewritten else '/' :: rewritten

/-- The path of the request after `applyStripPath`; `urlPath` is the one it came with. -/
def applyStripPath (route : Route χ) (urlPath originalPath : Text) : Text :=
  if route.stripPath then
    match bestStripPrefix route.paths originalPath with
    | none => urlPath
    | some pre => if pre = ['/'] then urlPath else stripped (normalizePath originalPath) pre
  else urlPath

def stripPathForProxy (route : Route χ) (requestPath : Text) : Text :=
  match bestStripPrefix route.paths requestPath with
  | none => requestPath
  | some pre => if pre = ['/'] then requestPath else stripped requestPath pre

/-- The path of the request that `Proxy.Do` sends, for a target address without a path of its own. -/
def upstreamPath (route : Route χ) (urlPath : Text) : Text :=
  let p := normalizePath urlPath
  if route.stripPath then stripPathForProxy route p else p

/-! ## Match -/

def maxPathLength : Nat := 8192

def maxPathSegments : Nat := 256

/-- What `Match` returns, with the parameters and the path it leaves in the request. -/
structure Matched (χ : Type) where
  route : Route χ
  service : Service
  params : Params
  path : Text

namespace Router

/-- The trees that `Match` asks: the one of the host and the default one. -/
def matchTrees (r : Router χ) (host method path : Text) : Option (Target χ × Params) :=
  ((r.hosts.get? host).bind fun tree => tree.match method path).or (r.defaultTree.match method path)

/-- The trees before the regular expressions, the host before the default. -/
def «match» (r : Router χ) (host method urlPath : Text) : Option (Matched χ) :=
  let host := normalizeHost host
  let method := MethodTree.methodKey method
  let path := normalizePath urlPath
  if maxPathLength < Text.byteLen path then none
  else if path.contains '\x00' then none
  else if maxPathSegments < path.count '/' then none
  else
    match r.matchTrees host method path with
    | some ((route, service), params) => some ⟨route, service, params, applyStripPath route urlPath path⟩
    | none =>
      (r.regexRoutes.find? fun c => c.matches host method path).map fun c =>
        ⟨c.route, c.service, .empty, applyStripPath c.route urlPath path⟩

end Router

end Gateway
