import ApiCerberus.Lib.Codec
import ApiCerberus.Lib.Text
import ApiCerberus.Raft.Types

/-!
# The gateway's state machine

`internal/raft/fsm.go`, with the certificates of `certificate_sync.go:16-40`. `handlers` has the cases of the switch in
`Apply` (`:157`).

`Command` is `any`. `AppendEntry` puts a `[]byte` there, the marshalled command; `encoding/json` puts there what it
makes of a JSON value.

A map that may be nil is an option, a pointer that may be nil too. `Certificates` only ever gets pointers to fresh
structs.
-/

namespace Raft

/-- The dynamic value of `Command`, if it is not nil. -/
inductive Command where
  | bytes (data : Text)
  | decoded (v : Codec.Any)

/-! ## Data -/

abbrev GoMap (α : Type) := Option (FinMap String α)

structure RouteConfig where
  id : String
  name : String
  serviceID : String
  hosts : Option (List String)
  paths : Option (List String)
  methods : Option (List String)
  stripPath : Bool
  priority : Int64
  version : UInt64
deriving DecidableEq

structure ServiceConfig where
  id : String
  name : String
  protocol : String
  upstreamID : String
  timeout : Int64
  retries : Int64
  headers : GoMap String
  version : UInt64
deriving DecidableEq

structure TargetConfig where
  id : String
  address : String
  weight : Int64
  healthy : Bool
deriving DecidableEq

structure HealthCheckConfig where
  path : String
  interval : Int64
  timeout : Int64
  healthyThreshold : Int64
  unhealthyThreshold : Int64
deriving DecidableEq

structure UpstreamConfig where
  id : String
  name : String
  algorithm : String
  targets : Option (List TargetConfig)
  healthCheck : Option HealthCheckConfig
  version : UInt64
deriving DecidableEq

structure HealthStatus where
  id : String
  healthy : Bool
  lastCheck : Int64
  failures : Int64
  successes : Int64
deriving DecidableEq

structure CertificateState where
  domain : String
  certPEM : String
  keyPEM : String
  issuedAt : Time
  expiresAt : Time
  issuedBy : String
deriving DecidableEq

/-- `nil` maps are `none`. -/
structure GatewayFSM where
  routes : GoMap (Option RouteConfig)
  services : GoMap (Option ServiceConfig)
  upstreams : GoMap (Option UpstreamConfig)
  rateLimitCounters : GoMap Int64
  creditBalances : GoMap Int64
  healthChecks : GoMap (Option HealthStatus)
  requestCounts : GoMap Int64
  certificates : FinMap String CertificateState
deriving DecidableEq

def newGatewayFSM : GatewayFSM where
  routes := some .empty
  services := some .empty
  upstreams := some .empty
  rateLimitCounters := some .empty
  creditBalances := some .empty
  healthChecks := some .empty
  requestCounts := some .empty
  certificates := .empty

/-- A command of the log. -/
structure FSMCommand where
  type : String
  payload : Option Json

structure RateLimitUpdate where
  key : String
  count : Int64
  reset : Bool

structure CreditUpdate where
  userID : String
  amount : Int64
  set : Bool

structure CounterUpdate where
  key : String
  count : Int64

/-- Its fields are those of `CertificateState`. -/
abbrev CertificateUpdateLog := CertificateState

structure ACMERenewalLock where
  domain : String
  nodeID : String
  deadline : Time

/-- `KeyPEM` is left out of snapshots. -/
structure CertSnapshot where
  domain : String
  certPEM : String
  issuedAt : Time
  expiresAt : Time
  issuedBy : String

structure FsmSnapshot where
  routes : GoMap (Option RouteConfig)
  services : GoMap (Option ServiceConfig)
  upstreams : GoMap (Option UpstreamConfig)
  rateLimitCounters : GoMap Int64
  creditBalances : GoMap Int64
  healthChecks : GoMap (Option HealthStatus)
  requestCounts : GoMap Int64
  certificates : GoMap (Option CertSnapshot)

/-! ## JSON -/

section Codecs
open Codec

def int : Codec Int64 := .int "int"
def int64 : Codec Int64 := .int "int64"
def uint64 : Codec UInt64 := Codec.uint64.via UInt64.ofNat UInt64.toNat

def routeConfig : Codec RouteConfig :=
  .struct "RouteConfig" "raft.RouteConfig" ⟨"", "", "", none, none, none, false, 0, 0⟩
    [field "id" string (·.id) fun r v => { r with id := v },
      field "name" string (·.name) fun r v => { r with name := v },
      field "service_id" string (·.serviceID) fun r v => { r with serviceID := v },
      field "hosts" string.slice (·.hosts) fun r v => { r with hosts := v },
      field "paths" string.slice (·.paths) fun r v => { r with paths := v },
      field "methods" string.slice (·.methods) fun r v => { r with methods := v },
      field "strip_path" bool (·.stripPath) fun r v => { r with stripPath := v },
      field "priority" int (·.priority) fun r v => { r with priority := v },
      field "version" uint64 (·.version) fun r v => { r with version := v }]

def serviceConfig : Codec ServiceConfig :=
  .struct "ServiceConfig" "raft.ServiceConfig" ⟨"", "", "", "", 0, 0, none, 0⟩
    [field "id" string (·.id) fun s v => { s with id := v },
      field "name" string (·.name) fun s v => { s with name := v },
      field "protocol" string (·.protocol) fun s v => { s with protocol := v },
      field "upstream_id" string (·.upstreamID) fun s v => { s with upstreamID := v },
      field "timeout" int (·.timeout) fun s v => { s with timeout := v },
      field "retries" int (·.retries) fun s v => { s with retries := v },
      field "headers" string.mapOf (·.headers) fun s v => { s with headers := v },
      field "version" uint64 (·.version) fun s v => { s with version := v }]

def targetConfig : Codec TargetConfig :=
  .struct "TargetConfig" "raft.TargetConfig" ⟨"", "", 0, false⟩
    [field "id" string (·.id) fun t v => { t with id := v },
      field "address" string (·.address) fun t v => { t with address := v },
      field "weight" int (·.weight) fun t v => { t with weight := v },
      field "healthy" bool (·.healthy) fun t v => { t with healthy := v }]

def healthCheckConfig : Codec HealthCheckConfig :=
  .struct "HealthCheckConfig" "raft.HealthCheckConfig" ⟨"", 0, 0, 0, 0⟩
    [field "path" string (·.path) fun h v => { h with path := v },
      field "interval" int (·.interval) fun h v => { h with interval := v },
      field "timeout" int (·.timeout) fun h v => { h with timeout := v },
      field "healthy_threshold" int (·.healthyThreshold) fun h v => { h with healthyThreshold := v },
      field "unhealthy_threshold" int (·.unhealthyThreshold) fun h v => { h with unhealthyThreshold := v }]

def upstreamConfig : Codec UpstreamConfig :=
  .struct "UpstreamConfig" "raft.UpstreamConfig" ⟨"", "", "", none, none, 0⟩
    [field "id" string (·.id) fun u v => { u with id := v },
      field "name" string (·.name) fun u v => { u with name := v },
      field "algorithm" string (·.algorithm) fun u v => { u with algorithm := v },
      field "targets" targetConfig.slice (·.targets) fun u v => { u with targets := v },
      optional "health_check" healthCheckConfig (·.healthCheck) fun u v => { u with healthCheck := v },
      field "version" uint64 (·.version) fun u v => { u with version := v }]

def healthStatus : Codec HealthStatus :=
  .struct "HealthStatus" "raft.HealthStatus" ⟨"", false, 0, 0, 0⟩
    [field "id" string (·.id) fun h v => { h with id := v },
      field "healthy" bool (·.healthy) fun h v => { h with healthy := v },
      field "last_check" int64 (·.lastCheck) fun h v => { h with lastCheck := v },
      field "failures" int (·.failures) fun h v => { h with failures := v },
      field "successes" int (·.successes) fun h v => { h with successes := v }]

def certificateUpdateLog : Codec CertificateUpdateLog :=
  .struct "CertificateUpdateLog" "raft.CertificateUpdateLog" ⟨"", "", "", .zero, .zero, ""⟩
    [field "domain" string (·.domain) fun c v => { c with domain := v },
      field "cert_pem" string (·.certPEM) fun c v => { c with certPEM := v },
      field "key_pem" string (·.keyPEM) fun c v => { c with keyPEM := v },
      field "issued_at" time (·.issuedAt) fun c v => { c with issuedAt := v },
      field "expires_at" time (·.expiresAt) fun c v => { c with expiresAt := v },
      field "issued_by" string (·.issuedBy) fun c v => { c with issuedBy := v }]

def acmeRenewalLock : Codec ACMERenewalLock :=
  .struct "ACMERenewalLock" "raft.ACMERenewalLock" ⟨"", "", .zero⟩
    [field "domain" string (·.domain) fun l v => { l with domain := v },
      field "node_id" string (·.nodeID) fun l v => { l with nodeID := v },
      field "deadline" time (·.deadline) fun l v => { l with deadline := v }]

def fsmCommand : Codec FSMCommand :=
  .struct "FSMCommand" "raft.FSMCommand" ⟨"", none⟩
    [field "type" string (·.type) fun c v => { c with type := v },
      field "payload" raw (·.payload) fun c v => { c with payload := v }]

/-- The local structs of the handlers have no name. -/
def rateLimitUpdate : Codec RateLimitUpdate :=
  .struct ""
    "struct \x7b Key string \"json:\\\"key\\\"\"; Count int64 \"json:\\\"count\\\"\"; Reset bool \"json:\\\"reset\\\"\" \x7d"
    ⟨"", 0, false⟩
    [field "key" string (·.key) fun u v => { u with key := v },
      field "count" int64 (·.count) fun u v => { u with count := v },
      field "reset" bool (·.reset) fun u v => { u with reset := v }]

def creditUpdate : Codec CreditUpdate :=
  .struct ""
    "struct \x7b UserID string \"json:\\\"user_id\\\"\"; Amount int64 \"json:\\\"amount\\\"\"; Set bool \"json:\\\"set\\\"\" \x7d"
    ⟨"", 0, false⟩
    [field "user_id" string (·.userID) fun u v => { u with userID := v },
      field "amount" int64 (·.amount) fun u v => { u with amount := v },
      field "set" bool (·.set) fun u v => { u with set := v }]

def counterUpdate : Codec CounterUpdate :=
  .struct "" "struct \x7b Key string \"json:\\\"key\\\"\"; Count int64 \"json:\\\"count\\\"\" \x7d" ⟨"", 0⟩
    [field "key" string (·.key) fun u v => { u with key := v },
      field "count" int64 (·.count) fun u v => { u with count := v }]

def certSnapshot : Codec CertSnapshot :=
  .struct "certSnapshot" "raft.certSnapshot" ⟨"", "", .zero, .zero, ""⟩
    [field "domain" string (·.domain) fun c v => { c with domain := v },
      field "cert_pem" string (·.certPEM) fun c v => { c with certPEM := v },
      field "issued_at" time (·.issuedAt) fun c v => { c with issuedAt := v },
      field "expires_at" time (·.expiresAt) fun c v => { c with expiresAt := v },
      field "issued_by" string (·.issuedBy) fun c v => { c with issuedBy := v }]

def fsmSnapshot : Codec FsmSnapshot :=
  .struct "fsmSnapshot" "raft.fsmSnapshot" ⟨none, none, none, none, none, none, none, none⟩
    [field "routes" routeConfig.ptr.mapOf (·.routes) fun s v => { s with routes := v },
      field "services" serviceConfig.ptr.mapOf (·.services) fun s v => { s with services := v },
      field "upstreams" upstreamConfig.ptr.mapOf (·.upstreams) fun s v => { s with upstreams := v },
      field "rate_limit_counters" int64.mapOf (·.rateLimitCounters) fun s v => { s with rateLimitCounters := v },
      field "credit_balances" int64.mapOf (·.creditBalances) fun s v => { s with creditBalances := v },
      field "health_checks" healthStatus.ptr.mapOf (·.healthChecks) fun s v => { s with healthChecks := v },
      field "request_counts" int64.mapOf (·.requestCounts) fun s v => { s with requestCounts := v },
      field "certificates" certSnapshot.ptr.mapOf (·.certificates) fun s v => { s with certificates := v }]

end Codecs

/-! ## Applying -/

/-- A type assertion on a value of another type, an assignment into a nil map, a nil pointer. -/
inductive Panic where
  | conversion (dynamicType : String)
  | nilMap
  | nilPointer
deriving DecidableEq

/-- The type `encoding/json` gives a value in an `any`. -/
def dynamicType : Json → String
  | .null => "nil"
  | .bool _ => "bool"
  | .number _ => "float64"
  | .string _ => "string"
  | .array _ => "[]interface \x7b\x7d"
  | .object _ => "map[string]interface \x7b\x7d"

/-- `m[k] = v`. -/
def assign {α : Type} (m : GoMap α) (k : String) (v : α) : Except Panic (GoMap α) :=
  match m with
  | some m => .ok (some (m.set k v))
  | none => .error .nilMap

/-- `m[k] += n`. -/
def increment (m : GoMap Int64) (k : String) (n : Int64) : Except Panic (GoMap Int64) :=
  assign m k ((m.bind (·.get? k)).getD 0 + n)

/-- The state machine after an `Apply`, and the text of the error it returned. -/
abbrev Applied := Except Panic (GatewayFSM × Option String)

/-- `json.Unmarshal` of a payload; a command without a payload has the empty text there. -/
def readPayload {α : Type} (c : Codec α) : Option Json → Except String α
  | some j => c.read c.zero j
  | none => .error Json.SyntaxError.unexpectedEnd.text

/-- What the handlers have in common: a payload that cannot be read is the error they return. -/
def applyPayload {α : Type} (c : Codec α) (context : String) (change : GatewayFSM → α → Except Panic GatewayFSM)
    (f : GatewayFSM) (payload : Option Json) : Applied :=
  match readPayload c payload with
  | .error err => .ok (f, some (context ++ err))
  | .ok v => (change f v).map fun f => (f, none)

def applyAddRoute : GatewayFSM → Option Json → Applied :=
  applyPayload routeConfig "" fun f route => (assign f.routes route.id (some route)).map fun m => { f with routes := m }

def applyDeleteRoute : GatewayFSM → Option Json → Applied :=
  applyPayload .string "" fun f id => .ok { f with routes := f.routes.map (·.erase id) }

def applyAddService : GatewayFSM → Option Json → Applied :=
  applyPayload serviceConfig "" fun f service =>
    (assign f.services service.id (some service)).map fun m => { f with services := m }

def applyDeleteService : GatewayFSM → Option Json → Applied :=
  applyPayload .string "" fun f id => .ok { f with services := f.services.map (·.erase id) }

def applyAddUpstream : GatewayFSM → Option Json → Applied :=
  applyPayload upstreamConfig "" fun f upstream =>
    (assign f.upstreams upstream.id (some upstream)).map fun m => { f with upstreams := m }

def applyDeleteUpstream : GatewayFSM → Option Json → Applied :=
  applyPayload .string "" fun f id => .ok { f with upstreams := f.upstreams.map (·.erase id) }

def applyUpdateRateLimit : GatewayFSM → Option Json → Applied :=
  applyPayload rateLimitUpdate "" fun f update =>
    (if update.reset then assign f.rateLimitCounters update.key 0
      else increment f.rateLimitCounters update.key update.count).map fun m => { f with rateLimitCounters := m }

def applyUpdateCredits : GatewayFSM → Option Json → Applied :=
  applyPayload creditUpdate "" fun f update =>
    (if update.set then assign f.creditBalances update.userID update.amount
      else increment f.creditBalances update.userID update.amount).map fun m => { f with creditBalances := m }

def applyUpdateHealthCheck : GatewayFSM → Option Json → Applied :=
  applyPayload healthStatus "" fun f status =>
    (assign f.healthChecks status.id (some status)).map fun m => { f with healthChecks := m }

def applyIncrementCounter : GatewayFSM → Option Json → Applied :=
  applyPayload counterUpdate "" fun f update =>
    (increment f.requestCounts update.key update.count).map fun m => { f with requestCounts := m }

def applyCertificateUpdate : GatewayFSM → Option Json → Applied :=
  applyPayload certificateUpdateLog "failed to unmarshal certificate update: " fun f update =>
    .ok { f with certificates := f.certificates.set update.domain update }

/-- The lock is not kept. -/
def applyACMERenewalLock : GatewayFSM → Option Json → Applied :=
  applyPayload acmeRenewalLock "failed to unmarshal ACME renewal lock: " fun f _ => .ok f

/-- The types of commands, with their handlers. -/
def handlers : List (String × (GatewayFSM → Option Json → Applied)) :=
  [("add_route", applyAddRoute), ("delete_route", applyDeleteRoute), ("add_service", applyAddService),
    ("delete_service", applyDeleteService), ("add_upstream", applyAddUpstream),
    ("delete_upstream", applyDeleteUpstream),
    ("update_rate_limit", applyUpdateRateLimit), ("update_credits", applyUpdateCredits),
    ("update_health_check", applyUpdateHealthCheck), ("increment_counter", applyIncrementCounter),
    ("certificate_update", applyCertificateUpdate), ("acme_renewal_lock", applyACMERenewalLock)]

def applyCommand (f : GatewayFSM) (cmd : FSMCommand) : Applied :=
  match handlers.lookup cmd.type with
  | some handler => handler f cmd.payload
  | none => .ok (f, some ("unknown command type: " ++ cmd.type))

/-- A command that cannot be read changes nothing. -/
def GatewayFSM.apply (f : GatewayFSM) (entry : LogEntry Command) : Applied :=
  match entry.command with
  | none => .error (.conversion "nil")
  | some (.decoded v) => .error (.conversion (dynamicType v.1))
  | some (.bytes data) =>
    match fsmCommand.unmarshal fsmCommand.zero data with
    | .error err => .ok (f, some ("failed to unmarshal command: " ++ err))
    | .ok cmd => applyCommand f cmd

/-! ## Snapshots -/

def CertificateState.toSnapshot (c : CertificateState) : CertSnapshot :=
  { domain := c.domain, certPEM := c.certPEM, issuedAt := c.issuedAt, expiresAt := c.expiresAt, issuedBy := c.issuedBy }

def CertSnapshot.toState (c : CertSnapshot) : CertificateState :=
  { domain := c.domain, certPEM := c.certPEM, keyPEM := "", issuedAt := c.issuedAt, expiresAt := c.expiresAt,
    issuedBy := c.issuedBy }

def GatewayFSM.toSnapshot (f : GatewayFSM) : FsmSnapshot where
  routes := f.routes
  services := f.services
  upstreams := f.upstreams
  rateLimitCounters := f.rateLimitCounters
  creditBalances := f.creditBalances
  healthChecks := f.healthChecks
  requestCounts := f.requestCounts
  certificates := some (f.certificates.map fun c => some c.toSnapshot)

/-- `json.Marshal` fails on a time that it cannot write. -/
def GatewayFSM.snapshot (f : GatewayFSM) : Option Text :=
  if ∀ r ∈ f.certificates.rows, r.2.issuedAt.Encodable ∧ r.2.expiresAt.Encodable then
    some (fsmSnapshot.marshal f.toSnapshot)
  else none

/-- The state behind a snapshot; the loop over the certificates looks behind every pointer. -/
def FsmSnapshot.toState (snap : FsmSnapshot) : Except Panic GatewayFSM :=
  let certificates := snap.certificates.getD .empty
  if ∀ r ∈ certificates.rows, r.2.isSome = true then
    .ok
      { routes := snap.routes
        services := snap.services
        upstreams := snap.upstreams
        rateLimitCounters := snap.rateLimitCounters
        creditBalances := snap.creditBalances
        healthChecks := snap.healthChecks
        requestCounts := snap.requestCounts
        certificates := certificates.map fun c => (c.getD certSnapshot.zero).toState }
  else .error .nilPointer

/-- All of the state is replaced, or the text of the error. -/
def restore (data : Text) : Except String (Except Panic GatewayFSM) :=
  (fsmSnapshot.unmarshal fsmSnapshot.zero data).map FsmSnapshot.toState

def GatewayFSM.getCreditBalance (f : GatewayFSM) (userID : String) : Int64 :=
  (f.creditBalances.bind (·.get? userID)).getD 0

/-- An entry that has not left the node, or only through `InmemTransport`: its command is a `[]byte`. -/
def LogEntry.boxed (entry : LogEntry Text) : LogEntry Command :=
  { index := entry.index, term := entry.term, command := entry.command.map .bytes }

/-- A `GatewayFSM` as the state machine of a node, as long as it has not panicked. -/
def gatewayMachine : StateMachine Text (Except Panic GatewayFSM) Text where
  apply s entry := do
    let f ← s
    (f.apply entry.boxed).map Prod.fst
  snapshot s := s.toOption.bind GatewayFSM.snapshot
  restore s data := s.toOption.bind fun _ => (restore data).toOption

/-- A command that gives one credit to user u. -/
def creditCommand : Json :=
  .object [("type", .string "update_credits"),
    ("payload", .object [("user_id", .string "u"), ("amount", .number (.ofNat 1))])]

def oneCredit : Text := creditCommand.render

end Raft
