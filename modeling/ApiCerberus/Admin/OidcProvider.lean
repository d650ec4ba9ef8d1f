import ApiCerberus.Admin.Session
import ApiCerberus.Lib.Transition
import Mathlib.Data.List.Perm.Basic

/-!
# The OIDC provider: authorization codes

`internal/admin/oidc_provider.go`: `handleOIDCAuthorize` (252-364), `handleOIDCProviderToken` (369-505) up to the end of
its critical section, what it does with a code afterwards (`finish`, 433-467), the tokens (524-604) and
`cleanupAuthCodes` (836-860).

A map of codes holds pointers to entries; here the entries stand in a list, in the order in which they were allocated
and each with its code, and the map holds positions. A code is taken out of the map under the lock, and the request goes
on without it: it is `pending` until its verifier has been checked and its tokens are made, and other steps come in
between.

A code is bound to its redirect URI and its challenge, and it is taken at most once and not after its expiry. The client
is not compared, and the tokens are made without another look at the expiry; `grants_bound` is what holds where every
code comes from its own client and the tokens are made in time. The session of the one who authorizes is a signed
cookie, whatever its times and its key version (`authorize_live_iff`). The random texts, bcrypt, SHA-256 and the
encoding of base64 are parameters.
-/

namespace Admin.OidcProvider

open Session (Mac sessionSubject)

/-! ## Configuration -/

structure OIDCClient where
  clientID : Text
  /-- The bcrypt hash. -/
  clientSecret : Text
  redirectURIs : List Text
  scopes : List Text

structure ProviderConfig where
  issuer : Text
  accessTokenTTL : Int
  idTokenTTL : Int
  authCodeTTL : Int
  clients : List OIDCClient

/-- The map that `initOIDCProviderServer` makes of the clients. -/
def clientMap (cfg : ProviderConfig) : FinMap Text OIDCClient :=
  cfg.clients.foldl (fun m c => m.set c.clientID c) .empty

def second : Int := 1000000000

/-- A duration, or the default if it is zero. -/
def orDefault (ttl default : Int) : Int := if ttl = 0 then default else ttl

def codeTTL (cfg : ProviderConfig) : Int := orDefault cfg.authCodeTTL (300 * second)

structure Env where
  mac : Mac
  /-- `bcrypt.CompareHashAndPassword` without an error. -/
  compareHash : Text → Text → Bool
  /-- The bytes of the hash, as a string. -/
  sha256 : Text → Text
  /-- `base64.RawURLEncoding.EncodeToString`. -/
  encode : Text → Text

/-! ## State -/

/-- What an authorization code stands for. -/
structure AuthCodeEntry where
  clientID : Text
  redirectURI : Text
  subject : Text
  scopes : List Text
  nonce : Text
  expiry : Int
  used : Bool
  codeChallenge : Text

structure RefreshTokenEntry where
  subject : Text
  clientID : Text
  scopes : List Text
  expiry : Int

/-- The form of a token request. -/
structure TokenForm where
  grantType : Text
  clientID : Text
  clientSecret : Text
  code : Text
  redirectURI : Text
  codeVerifier : Text
  refreshToken : Text

/-- The claims of an access token. -/
structure AccessToken where
  iss : Text
  sub : Text
  aud : Text
  iat : Int
  exp : Int
  scope : Text

structure IDToken where
  iss : Text
  sub : Text
  aud : Text
  iat : Int
  exp : Int
  nonce : Text
  name : Option Text
  email : Option Text

structure TokenResponse where
  accessToken : AccessToken
  expiresIn : Int
  idToken : Option IDToken
  refreshToken : Option Text

/-- A request whose code has been taken. -/
structure Pending where
  entry : Nat
  form : TokenForm
  redeemed : Int

/-- Tokens that were issued for a code. -/
structure Grant extends Pending where
  issued : Int
  response : TokenResponse

structure Provider where
  now : Int
  /-- The entries with their codes, in the order in which they were allocated. -/
  entries : List (Text × AuthCodeEntry)
  authCodes : FinMap Text Nat
  /-- By the hash of the token. -/
  refreshTokens : FinMap Text RefreshTokenEntry
  pending : List Pending
  grants : List Grant

/-- `writeError`. -/
structure Refusal where
  status : Nat
  code : String
  message : String

/-! ## Authorization -/

/-- The query of an authorization request. -/
structure AuthorizeQuery where
  codeChallenge : Text
  codeChallengeMethod : Text
  clientID : Text
  redirectURI : Text
  responseType : Text
  scope : Text
  state : Text
  nonce : Text
  /-- The value of the session cookie. -/
  cookie : Option Text

/-- `strings.Fields`. -/
def fields (t : Text) : List Text := (t.splitOnP Text.isSpace).filter (· ≠ [])

/-- What is checked before the session, and the scopes. -/
def checkAuthorize (clients : FinMap Text OIDCClient) (q : AuthorizeQuery) : Except Refusal (List Text) :=
  if q.codeChallenge ≠ [] ∧ q.codeChallengeMethod ≠ "S256".toList then
    .error ⟨400, "invalid_request", "code_challenge_method must be S256"⟩
  else if q.clientID = [] ∨ q.redirectURI = [] ∨ q.responseType = [] then
    .error ⟨400, "invalid_request", "client_id, redirect_uri, and response_type are required"⟩
  else
    match clients.get? q.clientID with
    | none => .error ⟨400, "invalid_client", "unknown client_id"⟩
    | some client =>
      if q.redirectURI ∉ client.redirectURIs then
        .error ⟨400, "invalid_redirect_uri", "redirect_uri not registered for this client"⟩
      else if q.responseType ≠ "code".toList ∧ q.responseType ≠ "token".toList then
        .error ⟨400, "unsupported_response_type", "only 'code' and 'token' response_types are supported"⟩
      else if "openid".toList ∉ fields q.scope then .error ⟨400, "invalid_scope", "openid scope is required"⟩
      else .ok (fields q.scope)

/-- What the handler answers. -/
inductive AuthorizeReply
  | refused (refusal : Refusal)
  /-- To the login page. -/
  | login
  | redirect (location : Text)

/-- Where the browser is sent with the code. -/
def redirectURL (q : AuthorizeQuery) (code : Text) : Text :=
  q.redirectURI ++ "?code=".toList ++ code ++ if q.state = [] then [] else "&state=".toList ++ q.state

/-- The entry that the authorization endpoint makes. -/
def newEntry (cfg : ProviderConfig) (now : Int) (q : AuthorizeQuery) (subject : Text)
    (scopes : List Text) : AuthCodeEntry where
  clientID := q.clientID
  redirectURI := q.redirectURI
  subject := subject
  scopes := scopes
  nonce := q.nonce
  expiry := now + codeTTL cfg
  used := false
  codeChallenge := q.codeChallenge

/-- The entry is allocated, and the code is mapped to it. -/
def Provider.issueCode (s : Provider) (code : Text) (entry : AuthCodeEntry) : Provider :=
  { s with
    entries := s.entries ++ [(code, entry)]
    authCodes := s.authCodes.set code s.entries.length }

/-- `secret` is that of the configuration, and `code` what `newRandomHex` gives. -/
def handleOIDCAuthorize (env : Env) (cfg : ProviderConfig) (secret : Text) (code : Option Text) (s : Provider)
    (q : AuthorizeQuery) :
    AuthorizeReply × Provider :=
  match checkAuthorize (clientMap cfg) q with
  | .error e => (.refused e, s)
  | .ok scopes =>
    let subject := sessionSubject env.mac secret q.cookie
    if subject = [] then (.login, s)
    else
      match code with
      | none => (.refused ⟨500, "internal_error", "failed to generate authorization code"⟩, s)
      | some code => (.redirect (redirectURL q code), s.issueCode code (newEntry cfg s.now q subject scopes))

/-! ## Tokens -/

/-- `Time.Unix`. -/
def unix (t : Int) : Int := t / second

/-- With its lifetime in seconds. -/
def generateAccessToken (cfg : ProviderConfig) (now : Int) (clientID subject : Text)
    (scopes : List Text) : AccessToken × Int :=
  let ttl := orDefault cfg.accessTokenTTL (3600 * second)
  (⟨cfg.issuer, subject, clientID, unix now, unix (now + ttl), Text.join ' ' scopes⟩, ttl.tdiv second)

def generateIDToken (cfg : ProviderConfig) (now : Int) (clientID subject : Text) (scopes : List Text)
    (nonce : Text) : IDToken :=
  let ttl := orDefault cfg.idTokenTTL (3600 * second)
  ⟨cfg.issuer, subject, clientID, unix now, unix (now + ttl), nonce, if "profile".toList ∈ scopes then
    some subject else none,
    if "email".toList ∈ scopes then some subject else none⟩

/-- The client is known and its secret is right. -/
def authenticateClient (env : Env) (cfg : ProviderConfig) (form : TokenForm) : Except Refusal OIDCClient :=
  match (clientMap cfg).get? form.clientID with
  | none => .error ⟨401, "invalid_client", "unknown client_id"⟩
  | some client =>
    if env.compareHash client.clientSecret form.clientSecret then .ok client
    else .error ⟨401, "invalid_client", "invalid client_secret"⟩

/-- The critical section of the grant `authorization_code`. -/
def Provider.redeem (s : Provider) (form : TokenForm) : Except Refusal Provider :=
  match (s.authCodes.get? form.code).bind fun p => s.entries[p]?.map (p, ·.2) with
  | none => .error ⟨400, "invalid_grant", "authorization code invalid or expired"⟩
  | some (p, entry) =>
    if entry.used = true ∨ entry.expiry < s.now then
      .error ⟨400, "invalid_grant", "authorization code invalid or expired"⟩
    else if entry.redirectURI ≠ form.redirectURI then .error ⟨400, "invalid_grant", "redirect_uri mismatch"⟩
    else .ok { s with authCodes := s.authCodes.erase form.code, pending := s.pending ++ [⟨p, form, s.now⟩] }

/-- The critical section of the grant `refresh_token`. -/
def Provider.refresh (env : Env) (s : Provider) (form : TokenForm) : Except Refusal (RefreshTokenEntry × Provider) :=
  if form.refreshToken = [] then .error ⟨400, "invalid_request", "refresh_token required"⟩
  else
    match s.refreshTokens.get? (env.sha256 form.refreshToken) with
    | none => .error ⟨400, "invalid_grant", "refresh token invalid or expired"⟩
    | some entry =>
      if s.now < entry.expiry ∧ entry.clientID = form.clientID then
        .ok (entry, { s with refreshTokens := s.refreshTokens.erase (env.sha256 form.refreshToken) })
      else .error ⟨400, "invalid_grant", "refresh token invalid or expired"⟩

/-- What the handler answers; a request whose code has been taken has no answer yet. -/
inductive TokenReply
  | refused (refusal : Refusal)
  | waits
  | tokens (response : TokenResponse)

/-- `form` is missing if it cannot be parsed. -/
def handleOIDCProviderToken (env : Env) (cfg : ProviderConfig) (s : Provider)
    (form : Option TokenForm) : TokenReply × Provider :=
  match form with
  | none => (.refused ⟨400, "invalid_request", "failed to parse form data"⟩, s)
  | some form =>
    if form.grantType = [] then (.refused ⟨400, "invalid_request", "grant_type is required"⟩, s)
    else
      match authenticateClient env cfg form with
      | .error e => (.refused e, s)
      | .ok client =>
        if form.grantType = "authorization_code".toList then
          match s.redeem form with
          | .error e => (.refused e, s)
          | .ok s' => (.waits, s')
        else if form.grantType = "client_credentials".toList then
          let access := generateAccessToken cfg s.now form.clientID form.clientID client.scopes
          (.tokens ⟨access.1, access.2, none, none⟩, s)
        else if form.grantType = "refresh_token".toList then
          match s.refresh env form with
          | .error e => (.refused e, s)
          | .ok (entry, s') =>
            let access := generateAccessToken cfg s.now form.clientID entry.subject entry.scopes
            (.tokens ⟨access.1, access.2, none, none⟩, s')
        else
          (.refused ⟨400, "unsupported_grant_type",
            "only authorization_code, client_credentials, and refresh_token are supported"⟩, s)

/-- The challenge of a verifier. -/
def challengeOf (env : Env) (codeVerifier : Text) : Text := env.encode (env.sha256 codeVerifier)

/-- The verifier is asked for if there is a challenge. -/
def verifyPKCE (env : Env) (entry : AuthCodeEntry) (form : TokenForm) : Except Refusal Unit :=
  if entry.codeChallenge = [] then .ok ()
  else if form.codeVerifier = [] then .error ⟨400, "invalid_request", "code_verifier required for PKCE"⟩
  else if challengeOf env form.codeVerifier ≠ entry.codeChallenge then
    .error ⟨400, "invalid_grant", "code_verifier mismatch"⟩
  else .ok ()

/-- The answer to a code that was redeemed. -/
def respond (cfg : ProviderConfig) (now : Int) (entry : AuthCodeEntry) (form : TokenForm)
    (refreshToken : Text) : TokenResponse :=
  let access := generateAccessToken cfg now form.clientID entry.subject entry.scopes
  ⟨access.1, access.2, some (generateIDToken cfg now form.clientID entry.subject entry.scopes entry.nonce),
    some refreshToken⟩

/-- A pending request that goes on. -/
def Provider.finish (env : Env) (cfg : ProviderConfig) (s : Provider) (i : Nat)
    (refreshToken : Text) : Option (TokenReply × Provider) := do
  let p ← s.pending[i]?
  let (_, entry) ← s.entries[p.entry]?
  let rest := { s with pending := s.pending.eraseIdx i }
  match verifyPKCE env entry p.form with
  | .error e => return (.refused e, rest)
  | .ok () =>
    let response := respond cfg s.now entry p.form refreshToken
    let kept : RefreshTokenEntry := ⟨entry.subject, p.form.clientID, entry.scopes, s.now + 604800 * second⟩
    return (.tokens response, { rest with
      refreshTokens := s.refreshTokens.set (env.sha256 refreshToken) kept
      grants := s.grants ++ [⟨p, s.now, response⟩] })

/-- Codes that are used or expired leave the map. -/
def Provider.cleanupAuthCodes (s : Provider) : Provider :=
  { s with
    authCodes := s.authCodes.filter fun code =>
      ((s.authCodes.get? code).bind fun p => s.entries[p]?).any fun e => !(e.2.expiry < s.now || e.2.used)
    refreshTokens := s.refreshTokens.filter fun hash => (s.refreshTokens.get? hash).any fun e => s.now ≤ e.expiry }

/-! ## Runs -/

/-- The steps that requests and the clock take. -/
inductive Action
  | tick (d : Nat)
  | authorize (secret : Text) (code : Option Text) (q : AuthorizeQuery)
  | token (form : Option TokenForm)
  | finish (i : Nat) (refreshToken : Text)
  | cleanup

def step (env : Env) (cfg : ProviderConfig) (s : Provider) : Action → Option Provider
  | .tick d => some { s with now := s.now + d }
  | .authorize secret code q => some (handleOIDCAuthorize env cfg secret code s q).2
  | .token form => some (handleOIDCProviderToken env cfg s form).2
  | .finish i refreshToken => (s.finish env cfg i refreshToken).map Prod.snd
  | .cleanup => some s.cleanupAuthCodes

def newProvider (now : Int) : Provider := ⟨now, [], .empty, .empty, [], []⟩

def system (env : Env) (cfg : ProviderConfig) : Transition.System Provider Action where
  init s := ∃ now, s = newProvider now
  step := step env cfg

/-! ## Sessions -/

section Sessions

variable {env : Env} {cfg : ProviderConfig} {secret : Text} {code : Option Text} {s : Provider} {q : AuthorizeQuery}

def AuthorizeReply.isRedirect : AuthorizeReply → Bool
  | redirect _ => true
  | _ => false

theorem handleOIDCAuthorize_isRedirect_iff : (handleOIDCAuthorize env cfg secret code s q).1.isRedirect = true ↔
    (∃ scopes, checkAuthorize (clientMap cfg) q = .ok scopes) ∧ code.isSome = true ∧
      sessionSubject env.mac secret q.cookie ≠ [] := by
  unfold handleOIDCAuthorize
  cases checkAuthorize (clientMap cfg) q with
  | error e => simp [AuthorizeReply.isRedirect]
  | ok scopes =>
    by_cases hsubject : sessionSubject env.mac secret q.cookie = []
    · simp [hsubject, AuthorizeReply.isRedirect]
    · cases code <;> simp [hsubject, AuthorizeReply.isRedirect]

open Session in
/-- **Which sessions give a code**: those with a signed token that names a subject. `verifyAdminToken` accepts it if it
is also live. -/
theorem authorize_live_iff (env : Env) (cfg : ProviderConfig) (secret : Text) (code : Option Text) (s : Provider)
    (q : AuthorizeQuery)
    (now : Clock) (keyVersion : Int) :
    ((handleOIDCAuthorize env cfg secret code s q).1.isRedirect = true ↔
      (∃ scopes, checkAuthorize (clientMap cfg) q = .ok scopes) ∧ code.isSome = true ∧ secret ≠ [] ∧
        ∃ value tok, q.cookie = some value ∧ Plugin.Token.parse value = some tok ∧ signedBy env.mac secret tok = true ∧
          subjectOf tok.payload ≠ []) ∧
    ((handleOIDCAuthorize env cfg secret code s q).1.isRedirect = true → ∀ value, q.cookie = some value →
      (verifyAdminToken env.mac now value secret keyVersion = .ok () ↔
        ∃ tok, Plugin.Token.parse value = some tok ∧ Live now keyVersion tok.payload)) := by
  rw [handleOIDCAuthorize_isRedirect_iff, sessionSubject_ne_nil_iff]
  refine ⟨Iff.rfl, ?_⟩
  rintro ⟨-, -, hsecret, value, tok, hcookie, hparse, hsigned, -⟩ value' hcookie'
  obtain rfl : value = value' := Option.some.inj (hcookie.symm.trans hcookie')
  rw [verifyAdminToken_eq_ok_iff, hparse]
  simp [hsecret, hsigned]

/-- A token for `admin` with the key version 1 that expires after a minute. -/
def minuteToken : Text := "eyJhbGciOiJIUzI1NiJ9.eyJzdWIiOiJhZG1pbiIsImV4cCI6NjAsImtleV92ZXJzaW9uIjoxfQ.c2ln".toList

/-- The same for two minutes and the key version 0. -/
def oldKeyToken : Text := "eyJhbGciOiJIUzI1NiJ9.eyJzdWIiOiJhZG1pbiIsImV4cCI6MTIwLCJrZXlfdmVyc2lvbiI6MH0.c2ln".toList

/-- Every signature is right. -/
def openEnv : Env := ⟨fun _ _ _ => true, fun hash password => hash = password, id, id⟩

def exampleSecret : Text := "0123456789abcdef0123456789abcdef".toList

/-- Two clients with a redirect URI each. -/
def exampleConfig : ProviderConfig :=
  ⟨[], 0, 0, 0, [⟨['a'], ['x'], [['u']], []⟩, ⟨['b'], ['y'], [['v']], []⟩]⟩

def askCode (issuer uri cookie : Text) : AuthorizeQuery :=
  ⟨[], [], issuer, uri, "code".toList, "openid".toList, [], [], some cookie⟩

/-- A code for a token that has expired, and for one from before a rotation of the key. -/
theorem codes_without_session :
    ((handleOIDCAuthorize openEnv exampleConfig exampleSecret (some ['c']) (newProvider 0)
      (askCode ['a'] ['u'] minuteToken)).1.isRedirect = true ∧
      Session.verifyAdminToken openEnv.mac ⟨61, 61, 61⟩ minuteToken exampleSecret 1 = .error "admin token expired") ∧
    (handleOIDCAuthorize openEnv exampleConfig exampleSecret (some ['c']) (newProvider 0)
      (askCode ['a'] ['u'] oldKeyToken)).1.isRedirect = true ∧
      Session.verifyAdminToken openEnv.mac ⟨61, 61, 61⟩ oldKeyToken exampleSecret 1 =
        .error "admin token key version mismatch — re-authenticate with the current key" := by
  decide +kernel

end Sessions

/-! ## Steps -/

section Steps

variable {env : Env} {cfg : ProviderConfig} {s s' : Provider}

/-- A code that is accepted is presented by the client it was issued to, and tokens are made before the code expires. -/
def Careful (env : Env) (cfg : ProviderConfig) (s : Provider) : Action → Prop
  | .token (some form) => form.grantType = "authorization_code".toList → (authenticateClient env cfg form).isOk = true →
    ∀ e ∈ (s.authCodes.get? form.code).bind fun p => s.entries[p]?,
      e.2.redirectURI = form.redirectURI → s.now ≤ e.2.expiry → e.2.clientID = form.clientID
  | .finish i _ =>
    ∀ p ∈ s.pending[i]?, ∀ e ∈ s.entries[p.entry]?, (verifyPKCE env e.2 p.form).isOk = true → s.now < e.2.expiry
  | _ => True

instance (env : Env) (cfg : ProviderConfig) (s : Provider) (a : Action) : Decidable (Careful env cfg s a) := by
  unfold Careful
  split <;> infer_instance

/-- The secret of a client. -/
def Authenticates (env : Env) (cfg : ProviderConfig) (clientID secret : Text) : Prop :=
  ∃ client, (clientMap cfg).get? clientID = some client ∧ env.compareHash client.clientSecret secret = true

/-- What a careful step can do. -/
inductive Moves (env : Env) (cfg : ProviderConfig) (s : Provider) : Provider → Prop
  | quiet {s' : Provider} (hentries : s'.entries = s.entries) (hpending : s'.pending = s.pending)
    (hgrants : s'.grants = s.grants)
      (hcodes : ∀ code p, s'.authCodes.get? code = some p → s.authCodes.get? code = some p) : Moves env cfg s s'
  | issue (code : Text) (entry : AuthCodeEntry) : Moves env cfg s (s.issueCode code entry)
  | redeem {form : TokenForm} {p : Nat} {e : Text × AuthCodeEntry} (hcode : s.authCodes.get? form.code = some p)
      (hentry : s.entries[p]? = some e) (huri : e.2.redirectURI = form.redirectURI)
        (hissuer : e.2.clientID = form.clientID)
      (hclient : Authenticates env cfg form.clientID form.clientSecret) :
      Moves env cfg s { s with authCodes := s.authCodes.erase form.code, pending := s.pending ++ [⟨p, form, s.now⟩] }
  | drop (i : Nat) : Moves env cfg s { s with pending := s.pending.eraseIdx i }
  | grant {i : Nat} {p : Pending} {e : Text × AuthCodeEntry} (refreshTokens : FinMap Text RefreshTokenEntry)
    (response : TokenResponse)
      (hpending : s.pending[i]? = some p) (hentry : s.entries[p.entry]? = some e) (hexpiry : s.now < e.2.expiry)
      (hpkce : verifyPKCE env e.2 p.form = .ok ()) :
      Moves env cfg s { s with
        pending := s.pending.eraseIdx i, refreshTokens := refreshTokens, grants := s.grants ++ [⟨p, s.now, response⟩] }

theorem Moves.refl : Moves env cfg s s := .quiet rfl rfl rfl fun _ _ h => h

theorem moves_authorize (secret : Text) (code : Option Text) (q : AuthorizeQuery) :
    Moves env cfg s (handleOIDCAuthorize env cfg secret code s q).2 := by
  unfold handleOIDCAuthorize
  cases checkAuthorize (clientMap cfg) q with
  | error e => exact .refl
  | ok scopes =>
    dsimp only
    split_ifs with hsubject
    · exact .refl
    · cases code with
      | none => exact .refl
      | some code => exact .issue code _

variable {form : TokenForm}

theorem redeem_eq_ok (h : s.redeem form = .ok s') :
    ∃ p e, s.authCodes.get? form.code = some p ∧ s.entries[p]? = some e ∧ e.2.redirectURI = form.redirectURI ∧
      s.now ≤ e.2.expiry ∧
      s' = { s with authCodes := s.authCodes.erase form.code, pending := s.pending ++ [⟨p, form, s.now⟩] } := by
  unfold Provider.redeem at h
  cases hcode : s.authCodes.get? form.code with
  | none => simp [hcode] at h
  | some p =>
    cases hentry : s.entries[p]? with
    | none => simp [hcode, hentry] at h
    | some e =>
      simp only [hcode, hentry, Option.bind_some, Option.map_some] at h
      split_ifs at h with hexpiry huri
      refine ⟨p, e, rfl, hentry, not_not.1 huri, ?_, (Except.ok.inj h).symm⟩
      exact not_lt.1 (not_or.1 hexpiry).2

theorem refresh_eq_ok {r : RefreshTokenEntry × Provider} (h : s.refresh env form = .ok r) :
    ∃ refreshTokens, r.2 = { s with refreshTokens := refreshTokens } := by
  unfold Provider.refresh at h
  split_ifs at h with hempty
  cases hget : s.refreshTokens.get? (env.sha256 form.refreshToken) with
  | none => simp [hget] at h
  | some e =>
    simp only [hget] at h
    split_ifs at h
    cases h
    exact ⟨_, rfl⟩

theorem authenticateClient_eq_ok {client : OIDCClient} (h : authenticateClient env cfg form = .ok client) :
    Authenticates env cfg form.clientID form.clientSecret := by
  unfold authenticateClient at h
  cases hclient : (clientMap cfg).get? form.clientID with
  | none => simp [hclient] at h
  | some c =>
    simp only [hclient] at h
    split_ifs at h with hsecret
    exact ⟨c, hclient, hsecret⟩

/-- All that a token request may do. -/
theorem moves_token (form : Option TokenForm) (hcareful : Careful env cfg s (.token form)) :
    Moves env cfg s (handleOIDCProviderToken env cfg s form).2 := by
  cases form with
  | none => exact .refl
  | some form =>
    cases hauth : authenticateClient env cfg form with
    | error e =>
      simp only [handleOIDCProviderToken, hauth]
      split_ifs <;> exact .refl
    | ok client =>
      simp only [handleOIDCProviderToken, hauth]
      split_ifs with hempty hcode hcred hrefresh
      · exact .refl
      · cases hredeem : s.redeem form with
        | error e => exact .refl
        | ok s' =>
          obtain ⟨p, e, hget, hentry, huri, hexpiry, rfl⟩ := redeem_eq_ok hredeem
          have hissuer := hcareful hcode (by rw [hauth]; rfl) e (by rw [hget]; exact hentry) huri hexpiry
          exact .redeem hget hentry huri hissuer (authenticateClient_eq_ok hauth)
      · exact .refl
      · cases hr : s.refresh env form with
        | error e => exact .refl
        | ok r =>
          obtain ⟨refreshTokens, hs'⟩ := refresh_eq_ok hr
          show Moves env cfg s r.2
          rw [hs']
          exact .quiet rfl rfl rfl fun _ _ h => h
      · exact .refl

theorem moves_finish {i : Nat} {refreshToken : Text} {r : TokenReply × Provider}
    (hcareful : Careful env cfg s (.finish i refreshToken))
    (h : s.finish env cfg i refreshToken = some r) : Moves env cfg s r.2 := by
  simp only [Provider.finish, Option.bind_eq_bind, Option.bind_eq_some_iff] at h
  obtain ⟨p, hp, e, he, h⟩ := h
  cases hpkce : verifyPKCE env e.2 p.form with
  | error err =>
    simp only [hpkce] at h
    cases h
    exact .drop i
  | ok u =>
    simp only [hpkce] at h
    cases h
    exact .grant _ _ hp he (hcareful p hp e he (by rw [hpkce]; rfl)) hpkce

theorem get?_filter {β α : Type} [LinearOrder β] {f : β → Bool} {m : FinMap β α} {k : β} {v : α}
    (h : (m.filter f).get? k = some v) :
    m.get? k = some v :=
  FinMap.get?_eq_some_iff.2 (List.mem_filter.1 (FinMap.get?_eq_some_iff.1 h)).1

/-- **What a careful step can do.** -/
theorem step_moves {a : Action} (hcareful : Careful env cfg s a)
    (h : step env cfg s a = some s') : Moves env cfg s s' := by
  cases a with
  | tick d =>
    cases h
    exact .quiet rfl rfl rfl fun _ _ h => h
  | authorize secret code q =>
    cases h
    exact moves_authorize secret code q
  | token form =>
    cases h
    exact moves_token form hcareful
  | finish i refreshToken =>
    obtain ⟨r, hr, rfl⟩ := Option.map_eq_some_iff.1 h
    exact moves_finish hcareful hr
  | cleanup =>
    cases h
    exact .quiet rfl rfl rfl fun _ _ h => get?_filter h

end Steps

/-! ## Invariant -/

section Invariant

variable {env : Env} {cfg : ProviderConfig} {s s' : Provider}

/-- The entries that requests have taken. -/
def Provider.taken (s : Provider) : List Nat := s.pending.map Pending.entry ++ s.grants.map fun g => g.entry

/-- A request has taken an entry as it should. -/
structure Redeemed (env : Env) (cfg : ProviderConfig) (entries : List (Text × AuthCodeEntry)) (p : Pending)
    (e : Text × AuthCodeEntry) :
    Prop where
  entry : entries[p.entry]? = some e
  code : e.1 = p.form.code
  uri : e.2.redirectURI = p.form.redirectURI
  issuer : e.2.clientID = p.form.clientID
  client : Authenticates env cfg p.form.clientID p.form.clientSecret

/-- What the map and the list of entries have to do with each other. -/
structure Inv (env : Env) (cfg : ProviderConfig) (s : Provider) : Prop where
  codes : ∀ code p, s.authCodes.get? code = some p → (∃ e, s.entries[p]? = some (code, e)) ∧ p ∉ s.taken
  nodup : s.taken.Nodup
  pending : ∀ p ∈ s.pending, ∃ e, Redeemed env cfg s.entries p e
  grants : ∀ g ∈ s.grants, ∃ e, Redeemed env cfg s.entries g.toPending e ∧ g.issued < e.2.expiry ∧
    verifyPKCE env e.2 g.form = .ok ()

theorem inv_newProvider (now : Int) : Inv env cfg (newProvider now) where
  codes _ _ h := by cases h
  nodup := .nil
  pending _ h := by cases h
  grants _ h := by cases h

variable {e : Text × AuthCodeEntry}

theorem Redeemed.append {entries : List (Text × AuthCodeEntry)} {p : Pending} (h : Redeemed env cfg entries p e)
    (more : List (Text × AuthCodeEntry)) : Redeemed env cfg (entries ++ more) p e :=
  { h with entry := by rw [List.getElem?_append_left (List.getElem?_eq_some_iff.1 h.entry).1, h.entry] }

theorem Inv.taken_lt (h : Inv env cfg s) {p : Nat} (hp : p ∈ s.taken) : p < s.entries.length := by
  rcases List.mem_append.1 hp with hp | hp
  · obtain ⟨q, hq, rfl⟩ := List.mem_map.1 hp
    obtain ⟨e, he⟩ := h.pending q hq
    exact (List.getElem?_eq_some_iff.1 he.entry).1
  · obtain ⟨g, hg, rfl⟩ := List.mem_map.1 hp
    obtain ⟨e, he, -⟩ := h.grants g hg
    exact (List.getElem?_eq_some_iff.1 he.entry).1

theorem Inv.issueCode (h : Inv env cfg s) (code : Text) (entry : AuthCodeEntry) :
    Inv env cfg (s.issueCode code entry) where
  codes code' p hp := by
    change (s.authCodes.set code s.entries.length).get? code' = some p at hp
    rw [FinMap.get?_set] at hp
    split_ifs at hp with hcode
    · cases hp
      exact ⟨⟨entry, by rw [hcode]; exact List.getElem?_concat_length⟩,
        fun hmem => absurd (h.taken_lt hmem) (lt_irrefl _)⟩
    · obtain ⟨⟨e, he⟩, hmem⟩ := h.codes code' p hp
      exact ⟨⟨e, (List.getElem?_append_left (List.getElem?_eq_some_iff.1 he).1).trans he⟩, hmem⟩
  nodup := h.nodup
  pending p hp := (h.pending p hp).imp fun _ he => he.append _
  grants g hg := (h.grants g hg).imp fun _ he => ⟨he.1.append _, he.2⟩

/-- A code that is redeemed leaves the map. -/
theorem Inv.redeem (h : Inv env cfg s) {form : TokenForm} {p : Nat} (hcode : s.authCodes.get? form.code = some p)
    (hentry : s.entries[p]? = some e) (huri : e.2.redirectURI = form.redirectURI)
    (hissuer : e.2.clientID = form.clientID)
    (hclient : Authenticates env cfg form.clientID form.clientSecret) :
    Inv env cfg { s with authCodes := s.authCodes.erase form.code, pending := s.pending ++ [⟨p, form, s.now⟩] } := by
  obtain ⟨⟨e', he'⟩, hfree⟩ := h.codes form.code p hcode
  obtain rfl : e = (form.code, e') := Option.some.inj (hentry.symm.trans he')
  have hperm : List.Perm (Provider.taken { s with
      authCodes := s.authCodes.erase form.code, pending := s.pending ++ [⟨p, form, s.now⟩] }) (p :: s.taken) := by
    rw [Provider.taken, List.map_append, List.append_assoc]
    exact List.perm_middle
  refine ⟨fun code' p' hp' => ?_, hperm.nodup_iff.2 (List.nodup_cons.2 ⟨hfree, h.nodup⟩), fun q hq => ?_, h.grants⟩
  · change (s.authCodes.erase form.code).get? code' = some p' at hp'
    rw [FinMap.get?_erase] at hp'
    split_ifs at hp' with hne
    obtain ⟨⟨other, hother⟩, hmem⟩ := h.codes code' p' hp'
    refine ⟨⟨other, hother⟩, fun htaken => ?_⟩
    -- an entry has one code
    rcases List.mem_cons.1 (hperm.mem_iff.1 htaken) with rfl | htaken
    · exact hne (congrArg Prod.fst (Option.some.inj (hother.symm.trans hentry)))
    · exact hmem htaken
  · rcases List.mem_append.1 hq with hq | hq
    · exact h.pending q hq
    · obtain rfl := List.mem_singleton.1 hq
      exact ⟨_, hentry, rfl, huri, hissuer, hclient⟩

theorem Inv.drop (h : Inv env cfg s) (i : Nat) : Inv env cfg { s with pending := s.pending.eraseIdx i } := by
  have hsub : List.Sublist ((s.pending.eraseIdx i).map Pending.entry ++ s.grants.map fun g => g.entry) s.taken :=
    ((List.eraseIdx_sublist s.pending i).map _).append_right _
  exact ⟨fun code p hp => ⟨(h.codes code p hp).1, fun hmem => (h.codes code p hp).2 (hsub.subset hmem)⟩,
    h.nodup.sublist hsub,
    fun p hp => h.pending p (List.mem_of_mem_eraseIdx hp), h.grants⟩

theorem Inv.grant (h : Inv env cfg s) {i : Nat} {p : Pending} (refreshTokens : FinMap Text RefreshTokenEntry)
    (response : TokenResponse) (hpending : s.pending[i]? = some p) (hentry : s.entries[p.entry]? = some e)
    (hexpiry : s.now < e.2.expiry) (hpkce : verifyPKCE env e.2 p.form = .ok ()) :
    Inv env cfg { s with
      pending := s.pending.eraseIdx i, refreshTokens := refreshTokens
      grants := s.grants ++ [⟨p, s.now, response⟩] } := by
  obtain ⟨hi, rfl⟩ := List.getElem?_eq_some_iff.1 hpending
  have hperm : List.Perm (Provider.taken { s with
      pending := s.pending.eraseIdx i, refreshTokens := refreshTokens, grants :=
        s.grants ++ [⟨s.pending[i], s.now, response⟩] })
      s.taken := by
    rw [Provider.taken, List.map_append, ← List.append_assoc]
    refine List.perm_append_comm.trans ?_
    exact ((List.getElem_cons_eraseIdx_perm hi).map Pending.entry).append_right _
  refine ⟨fun code p hp => ⟨(h.codes code p hp).1, fun hmem => (h.codes code p hp).2 (hperm.mem_iff.1 hmem)⟩,
    hperm.nodup_iff.2 h.nodup,
    fun p hp => h.pending p (List.mem_of_mem_eraseIdx hp), fun g hg => ?_⟩
  rcases List.mem_append.1 hg with hg | hg
  · exact h.grants g hg
  · obtain rfl := List.mem_singleton.1 hg
    obtain ⟨e', he'⟩ := h.pending _ (List.getElem_mem hi)
    obtain rfl : e = e' := Option.some.inj (hentry.symm.trans he'.entry)
    exact ⟨e, he', hexpiry, hpkce⟩

/-- A step keeps the invariant. -/
theorem Inv.moves (h : Inv env cfg s) (hm : Moves env cfg s s') : Inv env cfg s' := by
  cases hm with
  | quiet hentries hpending hgrants hcodes =>
    have htaken : s'.taken = s.taken := by rw [Provider.taken, hpending, hgrants, Provider.taken]
    refine ⟨fun code p hp => ?_, htaken ▸ h.nodup, ?_, ?_⟩
    · rw [hentries, htaken]
      exact h.codes code p (hcodes code p hp)
    · rw [hpending, hentries]
      exact h.pending
    · rw [hgrants, hentries]
      exact h.grants
  | issue code entry => exact h.issueCode code entry
  | redeem hcode hentry huri hissuer hclient => exact h.redeem hcode hentry huri hissuer hclient
  | drop i => exact h.drop i
  | grant refreshTokens response hpending hentry hexpiry hpkce =>
    exact h.grant refreshTokens response hpending hentry hexpiry hpkce

/-- Where the codes are distinct, a code determines its entry. -/
theorem Inv.entry_of_code (h : Inv env cfg s) (hcodes : (s.entries.map Prod.fst).Nodup) {g g' : Grant}
    (hg : g ∈ s.grants)
    (hg' : g' ∈ s.grants) (hcode : g.form.code = g'.form.code) : g.entry = g'.entry := by
  obtain ⟨e, he, -⟩ := h.grants g hg
  obtain ⟨e', he', -⟩ := h.grants g' hg'
  have hsame : (s.entries.map Prod.fst)[g.entry]? = (s.entries.map Prod.fst)[g'.entry]? := by
    rw [List.getElem?_map, List.getElem?_map, he.entry, he'.entry]
    exact congrArg some (he.code.trans (hcode.trans he'.code.symm))
  refine (List.getElem?_inj ?_ hcodes).1 hsame
  rw [List.length_map]
  exact (List.getElem?_eq_some_iff.1 he.entry).1

/-- The states of the runs in which every step is careful. -/
abbrev Reachable (env : Env) (cfg : ProviderConfig) : Provider → Prop :=
  Transition.Reach (system env cfg) (Careful env cfg)

theorem Reachable.inv (h : Reachable env cfg s) : Inv env cfg s := by
  refine h.invariant (P := Inv env cfg) ?_ fun s a t _ hinv hcareful hstep => hinv.moves (step_moves hcareful hstep)
  rintro _ ⟨now, rfl⟩
  exact inv_newProvider now

end Invariant

/-! ## Two clients -/

/-- The first client gets a code, the client presents it `d` later, and the tokens are made another `d'` later. -/
def codeRun (d d' : Nat) (client password : Text) : List Action :=
  [.authorize exampleSecret (some ['c']) (askCode ['a'] ['u'] minuteToken), .tick d,
    .token (some ⟨"authorization_code".toList, client, password, ['c'], ['u'], [], []⟩), .tick d', .finish 0 []]

/-- Who got the tokens for a code, whose code it was, when it expires, and when it was taken and the tokens were
made. -/
def Provider.granted (s : Provider) : List (Text × Option Text × List Int) :=
  s.grants.map fun g =>
    (g.form.clientID, s.entries[g.entry]?.map (·.2.clientID),
      (s.entries[g.entry]?.map (·.2.expiry)).toList ++ [g.redeemed, g.issued])

end Admin.OidcProvider
