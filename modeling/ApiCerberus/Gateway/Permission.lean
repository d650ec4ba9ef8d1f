import ApiCerberus.Gateway.Pipelines

/-!
# The endpoint-permission plugin

`EndpointPermission.Evaluate` and its helpers (`internal/plugin/endpoint_permission.go:55-277`). The lookup is a
parameter (`none` if the plugin was built without one), as is the time. The metadata that a granted permission leaves
for later plugins is not modelled.
-/

namespace Gateway

/-- `PluginError`. -/
structure PluginError where
  code : Text
  message : Text
  status : Nat
  deriving DecidableEq

structure Consumer where
  id : Text
  name : Text
  deriving DecidableEq

/-- A row of the permissions of a consumer. -/
structure PermissionRecord where
  methods : List Text
  allowed : Bool
  validFrom : Option Int
  validUntil : Option Int
  allowedDays : List Int
  allowedHours : List Text
  deriving DecidableEq

/-- A reading of the clock: the instant, and what the local time says of it. -/
structure Now where
  instant : Int
  weekday : Int
  hour : Nat
  minute : Nat
  deriving DecidableEq

/-- `EndpointPermissionLookupFunc`. -/
abbrev PermissionLookup := Text → Text → Except Unit (Option PermissionRecord)

def isMethodAllowed (allowedMethods : List Text) (method : Text) : Bool :=
  if allowedMethods = [] then true
  else
    let method := Text.toUpper (Text.trimSpace method)
    allowedMethods.any fun item =>
      let current := Text.toUpper (Text.trimSpace item)
      current ≠ [] && (current = ['*'] || current = method)

/-- `hh:mm` or `hh`, in minutes. -/
def parseMinute (raw : Text) : Option Int :=
  let value := Text.trimSpace raw
  if value = [] then none
  else if value.contains ':' then
    match Text.split ':' value with
    | [h, m] =>
      (Text.parseInt (Text.trimSpace h)).bind fun hour => (Text.parseInt (Text.trimSpace m)).bind fun minute =>
        if hour < 0 || 23 < hour || minute < 0 || 59 < minute then none else some (hour * 60 + minute)
    | _ => none
  else (Text.parseInt value).bind fun hour => if hour < 0 || 24 < hour then none else some (hour * 60)

def parseTimeRange (raw : Text) : Option (Int × Int) :=
  let value := Text.trimSpace raw
  if value = [] then none
  else
    match Text.split '-' value with
    | [a, b] =>
      (parseMinute a).bind fun start => (parseMinute b).bind fun stop => if stop ≤ start then none
        else some (start, stop)
    | _ => none

/-- A range may go over midnight. -/
def isCurrentHourAllowed (now : Now) (ranges : List Text) : Bool :=
  let minuteOfDay : Int := now.hour * 60 + now.minute
  ranges.any fun raw =>
    match parseTimeRange raw with
    | none => false
    | some (start, stop) => start ≤ minuteOfDay && minuteOfDay < stop

def permissionRouteID {χ : Type} (route : Route χ) : Text :=
  if Text.trimSpace route.id ≠ [] then Text.trimSpace route.id else Text.trimSpace route.name

def permissionError (code message : String) (status : Nat) : PluginError := ⟨code.toList, message.toList, status⟩

/-- The checks that `Evaluate` makes on the record it got. -/
def checkRecord (now : Now) (method : Text) (record : PermissionRecord) : Except PluginError Unit :=
  if !record.allowed then .error (permissionError "permission_denied" "Endpoint access is denied for this user" 403)
  else if !isMethodAllowed record.methods (Text.toUpper (Text.trimSpace method)) then
    .error (permissionError "permission_method_denied" "This HTTP method is not allowed for the endpoint" 403)
  else if record.validFrom.any fun t => now.instant < t then
    .error (permissionError "permission_not_yet_valid" "Endpoint permission is not active yet" 403)
  else if record.validUntil.any fun t => t < now.instant then
    .error (permissionError "permission_expired" "Endpoint permission has expired" 403)
  else if record.allowedDays ≠ [] && !record.allowedDays.contains now.weekday then
    .error (permissionError "permission_day_denied" "Endpoint permission does not allow access today" 403)
  else if record.allowedHours ≠ [] && !isCurrentHourAllowed now record.allowedHours then
    .error (permissionError "permission_hour_denied" "Endpoint permission does not allow access at this time" 403)
  else .ok ()

/-- A lookup that was made, and its result. -/
structure Granted where
  userID : Text
  routeID : Text
  record : PermissionRecord
  deriving DecidableEq

/-- `Evaluate`: an error, or the lookup that was made, if one was made. -/
def evaluate (lookup : Option PermissionLookup) (now : Now) (routeID method : Text) (consumer : Option Consumer) :
    Except PluginError (Option Granted) :=
  match lookup, consumer with
  | none, _ => .ok none
  | some _, none => .ok none
  | some lookup, some c =>
    let userID := Text.trimSpace c.id
    if userID = [] then
      .error (permissionError "permission_denied" "Endpoint access requires an authenticated consumer" 403)
    else if routeID = [] then .ok none
    else
      match lookup userID routeID with
      | .error _ => .error (permissionError "permission_backend_error" "Permission check backend unavailable" 500)
      | .ok none => .error (permissionError "permission_denied" "Endpoint access is not granted for this user" 403)
      | .ok (some record) => (checkRecord now method record).map fun _ => some ⟨userID, routeID, record⟩

/-- The record allows the method, the instant, the day and the time of day. -/
structure PermissionRecord.Allows (record : PermissionRecord) (method : Text) (now : Now) : Prop where
  allowed : record.allowed = true
  method : isMethodAllowed record.methods (Text.toUpper (Text.trimSpace method)) = true
  notBefore : ∀ t ∈ record.validFrom, t ≤ now.instant
  notAfter : ∀ t ∈ record.validUntil, now.instant ≤ t
  day : record.allowedDays = [] ∨ now.weekday ∈ record.allowedDays
  hour : record.allowedHours = [] ∨ ∃ raw ∈ record.allowedHours, ∃ start stop : Int,
    parseTimeRange raw = some (start, stop) ∧ start ≤ now.hour * 60 + now.minute ∧ now.hour * 60 + now.minute < stop

/-- A record that passes the checks allows the request. -/
theorem allows_of_checkRecord {now : Now} {method : Text} {record : PermissionRecord}
    (h : checkRecord now method record = .ok ()) : record.Allows method now := by
  unfold checkRecord at h
  split at h
  · cases h
  · split at h
    · cases h
    · split at h
      · cases h
      · split at h
        · cases h
        · split at h
          · cases h
          · split at h
            · cases h
            · rename_i hallowed hmethod hfrom huntil hday hhour
              refine ⟨by simpa using hallowed, by simpa using hmethod, fun t ht => ?_, fun t ht => ?_, ?_, ?_⟩
              · rw [Option.mem_def.1 ht] at hfrom
                simpa using hfrom
              · rw [Option.mem_def.1 ht] at huntil
                simpa using huntil
              · by_cases hd : record.allowedDays = []
                · exact Or.inl hd
                · refine Or.inr ?_
                  simpa [hd] using hday
              · by_cases hh : record.allowedHours = []
                · exact Or.inl hh
                · refine Or.inr ?_
                  have hany : isCurrentHourAllowed now record.allowedHours = true := by simpa [hh] using hhour
                  obtain ⟨raw, hraw, hin⟩ := List.any_eq_true.1 hany
                  cases hr : parseTimeRange raw with
                  | none => rw [hr] at hin; cases hin
                  | some range =>
                    obtain ⟨start, stop⟩ := range
                    rw [hr] at hin
                    simp only [Bool.and_eq_true, decide_eq_true_eq] at hin
                    exact ⟨raw, hraw, start, stop, hr, hin.1, hin.2⟩

/-- What a passed check says. -/
theorem evaluate_ok {lookup : Option PermissionLookup} {now : Now} {routeID method : Text} {consumer : Option Consumer}
    {granted : Option Granted} (h : evaluate lookup now routeID method consumer = .ok granted) :
    (granted = none ∧ (lookup = none ∨ consumer = none ∨ routeID = [])) ∨
      ∃ c record f, consumer = some c ∧ lookup = some f ∧ routeID ≠ [] ∧
        f (Text.trimSpace c.id) routeID = .ok (some record) ∧
        granted = some ⟨Text.trimSpace c.id, routeID, record⟩ ∧ record.Allows method now := by
  unfold evaluate at h
  split at h
  · cases h
    exact Or.inl ⟨rfl, Or.inl rfl⟩
  · cases h
    exact Or.inl ⟨rfl, Or.inr (Or.inl rfl)⟩
  · rename_i f c
    simp only at h
    split at h
    · cases h
    · split at h
      · rename_i hroute
        cases h
        exact Or.inl ⟨rfl, Or.inr (Or.inr hroute)⟩
      · rename_i hroute
        split at h
        · cases h
        · cases h
        · rename_i record hlookup
          cases hcheck : checkRecord now method record with
          | error e => rw [hcheck] at h; cases h
          | ok u =>
            rw [hcheck] at h
            cases h
            exact Or.inr ⟨c, record, f, rfl, rfl, hroute, hlookup, rfl, allows_of_checkRecord hcheck⟩

end Gateway
