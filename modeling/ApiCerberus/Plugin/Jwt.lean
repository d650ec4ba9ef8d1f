import ApiCerberus.Gateway.Permission
import ApiCerberus.Lib.Base64
import ApiCerberus.Lib.Codec
import ApiCerberus.Lib.Float64
import ApiCerberus.Lib.Header

/-!
# The auth-jwt plugin

`internal/plugin/auth_jwt.go` and `jti_replay.go`, with the tokens of `internal/pkg/jwt/jwt.go:22-205`. `check` and
`authenticate` are `Authenticate` with `checkJTIReplay`.

The signatures, the keys and `fmt.Sprint` are parameters. Times are nanoseconds since 1970; the readings of the clock
that one call makes are a `Clock`.
-/

namespace Plugin

open Gateway (PluginError)

/-! ## Tokens -/

/-- A decoded `map[string]any`. -/
abbrev AnyMap := FinMap String (Option Codec.Any)

/-- The value under a key; nil is `null`. -/
def AnyMap.value (m : AnyMap) (name : Text) : Option Json :=
  (m.get? (String.ofList name)).map fun v => v.elim .null Subtype.val

/-- A token in its parts. -/
structure Token where
  header : AnyMap
  payload : AnyMap
  signature : List UInt8
  signingInput : Text

def parseSegment (segment : Text) : Option AnyMap :=
  match (Base64.decodeRawURL segment).map fun bytes =>
    (Codec.mapOf Codec.any).unmarshal (some .empty) (Utf8.decode 0 bytes) with
  | some (.ok m) => some (m.getD .empty)
  | _ => none

/-- `jwt.Parse`; its errors are not told apart. -/
def Token.parse (raw : Text) : Option Token :=
  match Text.split '.' (Text.trimSpace raw) with
  | [header, payload, signature] => do
    return ⟨← parseSegment header, ← parseSegment payload, ← Base64.decodeRawURL signature, header ++ '.' :: payload⟩
  | _ => none

/-- `ClaimString` and `HeaderString`. -/
def AnyMap.string (m : AnyMap) (name : Text) : Option Text :=
  match m.value name with
  | some (.string s) => if Text.trimSpace s.toList = [] then none else some (Text.trimSpace s.toList)
  | _ => none

/-- `ClaimStrings`. -/
def AnyMap.strings (m : AnyMap) (name : Text) : Option (List Text) :=
  match m.value name with
  | some (.string s) => if Text.trimSpace s.toList = [] then none else some [Text.trimSpace s.toList]
  | some (.array items) =>
    let out := items.filterMap fun
      | .string s => if Text.trimSpace s.toList = [] then none else some (Text.trimSpace s.toList)
      | _ => none
    if out = [] then none else some out
  | _ => none

/-- The `float64` that a number is read as; those that are out of range are refused before. -/
def float64 (n : Json.Number) : ℚ := Float64.round ((if n.negative then -1 else 1) * n.digits * 10 ^ n.scale)

/-- `int64` of that `float64`. -/
def int64 (n : Json.Number) : Int := Float64.toInt64 (float64 n)

/-- `ClaimUnix`. -/
def AnyMap.unix (m : AnyMap) (name : Text) : Option Int :=
  match m.value name with
  | some (.number n) => some (int64 n)
  | some (.string s) => if Text.trimSpace s.toList = [] then none else Text.parseInt (Text.trimSpace s.toList)
  | _ => none

/-! ## The plugin -/

/-- `VerifyHS256` with the secret, and the checks with the keys that are found for a `kid`. -/
structure Keys where
  hs256 : Text → List UInt8 → Bool
  rs256 : Option Text → Option (Text → List UInt8 → Bool)
  es256 : Option Text → Option (Text → List UInt8 → Bool)
  edDSA : Option (Text → List UInt8 → Bool)

/-- The settings, normalized. -/
structure AuthJWT where
  keys : Keys
  issuer : Text
  audience : List Text
  requiredClaims : List Text
  claimsToHeaders : FinMap Text Text
  clockSkew : Int
  /-- There is a replay cache. -/
  replayCache : Bool
  clockSkew_pos : 0 < clockSkew

structure AuthJWTOptions where
  keys : Keys
  issuer : Text
  audience : List Text
  requiredClaims : List Text
  /-- In the order in which the map is ranged over. -/
  claimsToHeaders : List (Text × Text)
  clockSkew : Int
  replayCache : Bool

def notBlank (ts : List Text) : List Text := (ts.map Text.trimSpace).filter (· ≠ [])

def newAuthJWT (opts : AuthJWTOptions) : AuthJWT where
  keys := opts.keys
  issuer := Text.trimSpace opts.issuer
  audience := notBlank opts.audience
  requiredClaims := notBlank opts.requiredClaims
  claimsToHeaders := opts.claimsToHeaders.foldl (fun m row =>
    if Text.trimSpace row.1 = [] ∨ Text.trimSpace row.2 = [] then m
    else m.set (Text.trimSpace row.1) (Text.trimSpace row.2)) .empty
  clockSkew := if opts.clockSkew ≤ 0 then 30000000000 else opts.clockSkew
  replayCache := opts.replayCache
  clockSkew_pos := by split <;> omega

def jwtError (code message : String) (status : Nat) : PluginError := ⟨code.toList, message.toList, status⟩

def errMissingJWT : PluginError := jwtError "missing_jwt" "JWT is required" 401
def errInvalidJWT : PluginError := jwtError "invalid_jwt" "JWT is invalid" 401
def errInvalidJWTSignature : PluginError := jwtError "invalid_jwt_signature" "JWT signature is invalid" 401
def errExpiredJWT : PluginError := jwtError "expired_jwt" "JWT is expired" 401
def errUnsupportedJWTAlgorithm : PluginError :=
  jwtError "unsupported_jwt_algorithm" "JWT algorithm is not supported" 401

def claimsError (message : Text) : PluginError := ⟨"invalid_jwt_claims".toList, message, 401⟩

def errReplayDisabled : PluginError :=
  jwtError "jti_replay_protection_disabled"
    "jwt contains jti claim but replay protection is not configured; rejecting token" 503

def errReplay : PluginError := jwtError "jti_replay" "jwt has already been used (possible replay)" 401

/-! ### Checks -/

def verifyWith (check : Option (Text → List UInt8 → Bool)) (err : PluginError)
    (token : Token) : Except PluginError Unit :=
  match check with
  | none => .error err
  | some check => if check token.signingInput token.signature then .ok () else .error errInvalidJWTSignature

/-- The switch of `Authenticate`. -/
def verifySignature (keys : Keys) (token : Token) : Except PluginError Unit :=
  match token.header.string "alg".toList with
  | none => .error errUnsupportedJWTAlgorithm
  | some alg =>
    let kid := token.header.string "kid".toList
    let alg := Text.toUpper alg
    if alg = "NONE".toList then .error errUnsupportedJWTAlgorithm
    else if alg = "HS256".toList then verifyWith (some keys.hs256) errInvalidJWTSignature token
    else if alg = "RS256".toList then verifyWith (keys.rs256 kid) errInvalidJWTSignature token
    else if alg = "ES256".toList then verifyWith (keys.es256 kid) errInvalidJWTSignature token
    else if alg = "EDDSA".toList then verifyWith keys.edDSA errUnsupportedJWTAlgorithm token
    else .error errUnsupportedJWTAlgorithm

/-- Whether a required claim counts as present. -/
def hasClaimValue : Json → Bool
  | .null => false
  | .string s => Text.trimSpace s.toList ≠ []
  | .array items => items.length ≠ 0
  | _ => true

def requiredClaim (payload : AnyMap) (claim : Text) : Except PluginError Unit :=
  match payload.value claim with
  | none => .error (claimsError (claim ++ " claim is required".toList))
  | some raw => if hasClaimValue raw then .ok () else .error (claimsError (claim ++ " claim is empty".toList))

/-- `time.Unix(seconds, 0)`. -/
def unixTime (seconds : Int) : Int := seconds * 1000000000

/-- The times, the issuer, the audience and the required claims. -/
def validateClaims (a : AuthJWT) (now : Int) (token : Token) : Except PluginError Unit :=
  match token.payload.unix "exp".toList with
  | none => .error (claimsError "exp claim is required".toList)
  | some exp =>
    if unixTime exp + a.clockSkew < now then .error errExpiredJWT
    else if (token.payload.unix "iat".toList).any fun iat => now < unixTime iat - a.clockSkew then
      .error (claimsError "jwt iat claim is in the future".toList)
    else if (token.payload.unix "nbf".toList).any fun nbf => now < unixTime nbf - a.clockSkew then
      .error (claimsError "jwt is not yet valid (nbf)".toList)
    else if a.issuer ≠ [] ∧ token.payload.string "iss".toList ≠ some a.issuer then
      .error (claimsError "issuer claim is invalid".toList)
    else
      match if a.audience = [] then some a.audience else token.payload.strings "aud".toList with
      | none => .error (claimsError "audience claim is missing".toList)
      | some values =>
        if a.audience ≠ [] ∧ values.all fun value => !a.audience.contains value then
          .error (claimsError "audience claim is invalid".toList)
        else a.requiredClaims.forM (requiredClaim token.payload)

/-! ### The replay cache -/

/-- The tokens that were used, until they expire. -/
structure JTIReplayCache where
  /-- When each jti expires. -/
  entries : FinMap Text Int
  maxSize : Nat

def newJTIReplayCacheWithSize (maxSize : Int) : JTIReplayCache := ⟨.empty, if maxSize ≤ 0 then 10000 else maxSize.toNat⟩

namespace JTIReplayCache

/-- An entry that is over is dropped on the way. -/
def seen (c : JTIReplayCache) (jti : Text) (now : Int) : Bool × JTIReplayCache :=
  match c.entries.get? jti with
  | none => (false, c)
  | some exp => if exp < now then (false, { c with entries := c.entries.erase jti }) else (true, c)

def expired (c : JTIReplayCache) (now : Int) : List Text := (c.entries.rows.filter fun r => r.2 < now).map Prod.fst

def drop (c : JTIReplayCache) (jtis : List Text) : JTIReplayCache :=
  { c with entries := jtis.foldl FinMap.erase c.entries }

def evictExpired (c : JTIReplayCache) (now : Int) : JTIReplayCache := c.drop (c.expired now)

/-- The `n` entries that expire first. Of those that expire together `sort.Slice` may take any. -/
def oldest (c : JTIReplayCache) (n : Nat) : List Text :=
  ((c.entries.rows.insertionSort fun r r' => r.2 ≤ r'.2).take n).map Prod.fst

def evictOldest (c : JTIReplayCache) (n : Nat) : JTIReplayCache := c.drop (c.oldest n)

/-- What `Add` does for a jti that is not there. -/
def makeRoom (c : JTIReplayCache) (now : Int) : JTIReplayCache :=
  let c := c.evictExpired now
  if c.maxSize ≤ c.entries.rows.length then c.evictOldest (c.maxSize / 4) else c

/-- Room is made for a new entry only. -/
def add (c : JTIReplayCache) (jti : Text) (ttl now : Int) : JTIReplayCache :=
  let c := if (c.entries.get? jti).isSome then c else c.makeRoom now
  { c with entries := c.entries.set jti (now + ttl) }

end JTIReplayCache

/-- The time for which a jti is kept: up to `exp`, or five minutes if that is over. -/
def replayTTL (exp now : Int) : Int := if unixTime exp - now ≤ 0 then 300000000000 else unixTime exp - now

/-! ### Claims as headers -/

variable (sprint : Json → Text)

/-- How a claim is written into a header. -/
def claimValueToHeader : Json → Option Text
  | .string s => if Text.trimSpace s.toList = [] then none else some (Text.trimSpace s.toList)
  | .number n => some (Text.ofInt (int64 n))
  | .array items =>
    let out := items.filterMap fun
      | .null => none
      | item => some (sprint item)
    if out = [] then none else some (Text.join ',' out)
  | raw => if Text.trimSpace (sprint raw) = [] then none else some (Text.trimSpace (sprint raw))

/-- What a claim gives for its header. -/
def claimHeader (claims : AnyMap) (claimName : Text) : Option Text :=
  (claims.value claimName).bind (claimValueToHeader sprint)

/-- One round of the loop; `Header.Set` makes the name canonical. -/
def applyClaim (claims : AnyMap) (header : Header) (row : Text × Text) : Header :=
  match claimHeader sprint claims row.1 with
  | none => header
  | some value => header.put (Header.canonicalKey row.2) value

/-- `order` is the order in which the map of the claims is ranged over. -/
def applyClaimHeaders (order : List (Text × Text)) (claims : AnyMap) (header : Header) : Header :=
  order.foldl (applyClaim sprint claims) header

/-! ### Authenticate -/

def authorization : Text := "Authorization".toList
def bearerScheme : Text := "Bearer ".toList

/-- The scheme is compared without regard to case. -/
def extractBearerToken (header : Header) : Text :=
  let auth := Text.trimSpace (header.get authorization)
  if Text.byteLen auth ≤ 7 then []
  else if !Text.equalFold (auth.take 7) bearerScheme then []
  else Text.trimSpace (auth.drop 7)

/-- The readings of the clock in `validateClaims`, `Seen`, `time.Until` and `Add`. -/
structure Clock where
  validate : Int
  seen : Int
  ttl : Int
  add : Int

/-- The token of a request, if its signature is good. -/
def verify (a : AuthJWT) (raw : Text) : Except PluginError Token :=
  if raw = [] then .error errMissingJWT
  else
    match Token.parse raw with
    | none => .error errInvalidJWT
    | some token => (verifySignature a.keys token).map fun _ => token

/-- A token is refused if its id was seen; otherwise the id is kept. -/
def checkJTIReplay (a : AuthJWT) (clock : Clock) (cache : JTIReplayCache) (token : Token) :
    Except PluginError Unit × JTIReplayCache :=
  match token.payload.string "jti".toList with
  | none => (.ok (), cache)
  | some jti =>
    if !a.replayCache then (.error errReplayDisabled, cache)
    else
      match cache.seen jti clock.seen with
      | (true, cache) => (.error errReplay, cache)
      | (false, cache) =>
        match token.payload.unix "exp".toList with
        | none => (.ok (), cache)
        | some exp => (.ok (), cache.add jti (replayTTL exp clock.ttl) clock.add)

/-- `Authenticate` up to the headers: the payload of the token `raw`. -/
def check (a : AuthJWT) (clock : Clock) (cache : JTIReplayCache)
    (raw : Text) : Except PluginError AnyMap × JTIReplayCache :=
  match verify a raw with
  | .error err => (.error err, cache)
  | .ok token =>
    match validateClaims a clock.validate token with
    | .error err => (.error err, cache)
    | .ok _ =>
      match checkJTIReplay a clock cache token with
      | (.error err, cache) => (.error err, cache)
      | (.ok _, cache) => (.ok token.payload, cache)

/-- The payload and the headers that a request goes on with. -/
def authenticate (a : AuthJWT) (clock : Clock) (cache : JTIReplayCache) (order : List (Text × Text)) (header : Header) :
    Except PluginError (AnyMap × Header) × JTIReplayCache :=
  match check a clock cache (Text.trimSpace (extractBearerToken header)) with
  | (.error err, cache) => (.error err, cache)
  | (.ok payload, cache) => (.ok (payload, applyClaimHeaders sprint order payload header), cache)

end Plugin
