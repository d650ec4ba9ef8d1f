import ApiCerberus.Plugin.Jwt

/-!
# Admin sessions

Two functions judge the same cookie: `verifyAdminToken` (`internal/admin/token.go:98-149`) and `handleOIDCAuthorize`
(`sessionSubject`, `oidc_provider.go:303-327`). `verifyAdminToken_eq_ok_iff` and `sessionSubject_ne_nil_iff` say what
each of them asks for: both want a signed token, the first wants it to be `Live`, and the other wants a subject. The
HMAC is a parameter.
-/

namespace Admin.Session

open Plugin (AnyMap Token)

/-- HMAC-SHA256: the secret, what is signed, and the signature. -/
abbrev Mac := Text → Text → List UInt8 → Bool

variable (mac : Mac)

/-- Secrets of less than 32 bytes are refused. -/
def verifyHS256 (signingInput : Text) (signature : List UInt8) (secret : Text) : Bool :=
  if Text.byteLen secret < 32 then false else mac secret signingInput signature

/-- The readings of the clock in one call, in seconds since 1970. -/
structure Clock where
  exp : Int
  iat : Int
  nbf : Int

/-- A token without a version passes. -/
def checkKeyVersion (payload : AnyMap) (keyVersion : Int) : Except String Unit :=
  match payload.value "key_version".toList with
  | none => .ok ()
  | some (.number n) =>
    if Plugin.int64 n = keyVersion then .ok ()
    else .error "admin token key version mismatch — re-authenticate with the current key"
  | some _ => .error "admin token has invalid key_version claim type"

def checkTimes (now : Clock) (payload : AnyMap) : Except String Unit :=
  if (payload.unix "exp".toList).all (· < now.exp) then .error "admin token expired"
  else if (payload.unix "iat".toList).any (now.iat + 60 < ·) then .error "admin token issued in the future"
  else if (payload.unix "nbf".toList).any (now.nbf < ·) then .error "admin token not yet valid"
  else .ok ()

/-- The algorithm and the signature, which both functions check. -/
def signedBy (secret : Text) (tok : Token) : Bool :=
  (tok.header.string "alg".toList).getD [] = "HS256".toList && verifyHS256 mac tok.signingInput tok.signature secret

/-- What the admin API asks of a session token. -/
def verifyAdminToken (now : Clock) (tokenString secret : Text) (keyVersion : Int) : Except String Unit :=
  if secret = [] then .error "admin token secret is not configured"
  else
    match Token.parse tokenString with
    | none => .error "admin token invalid"
    | some tok =>
      if signedBy mac secret tok then do
        checkKeyVersion tok.payload keyVersion
        checkTimes now tok.payload
      else .error "admin token invalid"

/-- The `sub` claim, or the empty text. -/
def subjectOf (payload : AnyMap) : Text :=
  match payload.value "sub".toList with
  | some (.string s) => s.toList
  | _ => []

/-- The subject that the authorization endpoint reads, empty without a signed token. -/
def sessionSubject (secret : Text) (cookie : Option Text) : Text :=
  match cookie with
  | none => []
  | some value =>
    if value = [] ∨ secret = [] then []
    else
      match Token.parse value with
      | none => []
      | some tok => if signedBy mac secret tok then subjectOf tok.payload else []

/-! ## What they ask for -/

/-- A token that belongs to the current key and whose times are right. -/
structure Live (now : Clock) (keyVersion : Int) (payload : AnyMap) : Prop where
  version : ∀ v, payload.value "key_version".toList = some v → ∃ n, v = .number n ∧ Plugin.int64 n = keyVersion
  exp : ∃ t, payload.unix "exp".toList = some t ∧ now.exp ≤ t
  iat : ∀ t, payload.unix "iat".toList = some t → t ≤ now.iat + 60
  nbf : ∀ t, payload.unix "nbf".toList = some t → t ≤ now.nbf

variable {mac} {now : Clock} {keyVersion : Int} {payload : AnyMap} {secret : Text}

theorem ite_error_eq_ok {c : Prop} [Decidable c] {e : String} {x : Except String Unit} :
    (if c then .error e else x) = .ok () ↔ ¬ c ∧ x = .ok () := by
  split_ifs with hc <;> simp [hc]

theorem checkKeyVersion_eq_ok_iff : checkKeyVersion payload keyVersion = .ok () ↔
    ∀ v, payload.value "key_version".toList = some v → ∃ n, v = .number n ∧ Plugin.int64 n = keyVersion := by
  unfold checkKeyVersion
  cases payload.value "key_version".toList with
  | none => simp
  | some v => cases v <;> simp

theorem checkTimes_eq_ok_iff : checkTimes now payload = .ok () ↔
    (∃ t, payload.unix "exp".toList = some t ∧ now.exp ≤ t) ∧
      (∀ t, payload.unix "iat".toList = some t → t ≤ now.iat + 60) ∧
      ∀ t, payload.unix "nbf".toList = some t → t ≤ now.nbf := by
  simp only [checkTimes, ite_error_eq_ok]
  refine and_congr ?_ (and_congr ?_ ?_)
  · cases payload.unix "exp".toList <;> simp
  · cases payload.unix "iat".toList <;> simp
  · cases payload.unix "nbf".toList <;> simp

theorem live_iff : Live now keyVersion payload ↔ checkKeyVersion payload keyVersion = .ok () ∧
    checkTimes now payload = .ok () := by
  rw [checkKeyVersion_eq_ok_iff, checkTimes_eq_ok_iff]
  exact ⟨fun h => ⟨h.version, h.exp, h.iat, h.nbf⟩, fun ⟨hversion, hexp, hiat, hnbf⟩ => ⟨hversion, hexp, hiat, hnbf⟩⟩

theorem verifyAdminToken_eq_ok_iff {tokenString : Text} :
    verifyAdminToken mac now tokenString secret keyVersion = .ok () ↔
    secret ≠ [] ∧ ∃ tok, Token.parse tokenString = some tok ∧ signedBy mac secret tok = true ∧
      Live now keyVersion tok.payload := by
  simp only [verifyAdminToken, ite_error_eq_ok, live_iff]
  refine and_congr_right fun _ => ?_
  cases Token.parse tokenString with
  | none => simp
  | some tok =>
    cases hsigned : signedBy mac secret tok with
    | false => simp [hsigned]
    | true =>
      cases hversion : checkKeyVersion tok.payload keyVersion with
      | error e => simp [hsigned, hversion, bind, Except.bind]
      | ok u => simp [hsigned, hversion, bind, Except.bind]

theorem sessionSubject_ne_nil_iff {cookie : Option Text} : sessionSubject mac secret cookie ≠ [] ↔
    secret ≠ [] ∧ ∃ value tok, cookie = some value ∧ Token.parse value = some tok ∧ signedBy mac secret tok = true ∧
      subjectOf tok.payload ≠ [] := by
  cases cookie with
  | none => simp [sessionSubject]
  | some value =>
    by_cases hvalue : value = []
    · subst hvalue
      have hparse : Token.parse [] = none := by decide
      simp [sessionSubject, hparse]
    · simp only [sessionSubject, hvalue, false_or]
      by_cases hsecret : secret = []
      · simp [hsecret]
      · cases hparse : Token.parse value with
        | none => simp [hsecret, hparse]
        | some tok => cases hsigned : signedBy mac secret tok <;> simp [hsecret, hparse, hsigned]

end Admin.Session
