import ApiCerberus.GraphQL.Analyzer
import ApiCerberus.Gateway.Attempts
import ApiCerberus.Lib.Base64
import ApiCerberus.Lib.Codec

/-!
# The GraphQL guard and the request that it leaves

`internal/plugin/graphql_guard.go:71-112`, with `internal/graphql/request.go:13-194`. `urlQuery` is `url.ParseQuery`.

To see the query of a POST, the guard reads the body, at most 10 MiB of it, closes it and does not put it back: what
comes later finds the body of a connection closed, and of one in memory what is left after 10 MiB (`body_gone`). On the
request that it passes it sets two header fields.

`unchanged_iff`: a request that passes is as it was iff it is no GraphQL request, or is a GET that has the two fields
already.
-/

namespace GraphQL

open Gateway.Attempts (Body)

/-! ## Requests -/

/-- An `http.Request`. -/
structure HttpRequest extends Gateway.Attempts.HttpRequest where
  header : Header

/-- A GraphQL request over HTTP. -/
structure Request where
  query : String
  vars : Option (FinMap String (Option Codec.Any))
  operationName : String
  extensions : Option (FinMap String (Option Codec.Any))

def Request.zero : Request := ⟨"", none, "", none⟩

def requestCodec : Codec Request :=
  .struct "Request" "graphql.Request" .zero
    [Codec.field "query" .string (·.query) fun r v => { r with query := v },
      Codec.field "variables" Codec.any.mapOf (·.vars) fun r v => { r with vars := v },
      Codec.field "operationName" .string (·.operationName) fun r v => { r with operationName := v },
      Codec.field "extensions" Codec.any.mapOf (·.extensions) fun r v => { r with extensions := v }]

/-- The bytes that an escaped text stands for. -/
def unescapeBytes : Text → Option (List UInt8)
  | [] => some []
  | '%' :: a :: b :: t =>
    match Json.hexVal a, Json.hexVal b with
    | some x, some y => (unescapeBytes t).map (UInt8.ofNat (16 * x + y) :: ·)
    | _, _ => none
  | '%' :: _ => none
  | '+' :: t => (unescapeBytes t).map (32 :: ·)
  | c :: t => (unescapeBytes t).map (String.utf8EncodeChar c ++ ·)

def queryUnescape (t : Text) : Option Text := (unescapeBytes t).map (Utf8.decode 0)

/-- The parameters that can be read; the others are passed over. -/
def urlQuery (rawQuery : Text) : List (Text × Text) :=
  (Text.split '&' rawQuery).filterMap fun pair =>
    if ';' ∈ pair ∨ pair = [] then none
    else do
      let key ← queryUnescape (pair.takeWhile (· ≠ '='))
      let value ← queryUnescape ((pair.dropWhile (· ≠ '=')).drop 1)
      return (key, value)

/-- `r.URL.Query().Get(name)`. -/
def HttpRequest.parameter (r : HttpRequest) (name : Text) : Text := ((urlQuery r.rawQuery).lookup name).getD []

def methodGet : Text := "GET".toList

def methodPost : Text := "POST".toList

def HttpRequest.contentType (r : HttpRequest) : Text := r.header.get "Content-Type".toList

def applicationGraphQL : Text := "application/graphql".toList

def applicationJSON : Text := "application/json".toList

/-- What the guard looks at; all else passes. -/
def isGraphQLRequest (r : HttpRequest) : Bool :=
  if r.method = methodGet then r.parameter "query".toList ≠ []
  else if r.method ≠ methodPost then false
  else r.contentType = applicationGraphQL || r.contentType.hasPrefix applicationJSON

/-- The request in the parameters of the URL. -/
def parseGetRequest (r : HttpRequest) : Except String Request :=
  let query := r.parameter "query".toList
  let varsText := r.parameter "variables".toList
  let op := r.parameter "operationName".toList
  if query = [] then .error "missing query parameter"
  else
    let req : Request := { Request.zero with query := String.ofList query, operationName := String.ofList op }
    if varsText = [] then .ok req
    else
      match Codec.any.mapOf.unmarshal none varsText with
      | .error _ => .error "invalid variables parameter"
      | .ok vars => .ok { req with vars := vars }

/-- The brackets of a text are nested at most `maxDepth` deep; `inString` inside a string. -/
def checkJSONDepth (maxDepth : Nat) : (depth : Nat) → (inString : Bool) → Text → Except String Unit
  | _, _, [] => .ok ()
  | depth, false, c :: t =>
    if c = '{' ∨ c = '[' then
      let next := depth + 1
      if maxDepth < next then .error s!"nesting depth {next} exceeds maximum {maxDepth}"
      else checkJSONDepth maxDepth next false t
    else if c = '}' ∨ c = ']' then
      if depth = 0 then .error "mismatched brackets" else checkJSONDepth maxDepth (depth - 1) false t
    else checkJSONDepth maxDepth depth (c = '"') t
  | depth, true, '\\' :: _ :: t => checkJSONDepth maxDepth depth true t
  | depth, true, c :: t => checkJSONDepth maxDepth depth (c ≠ '"') t

/-- `10<<20` -/
def maxBody : Nat := 10485760

/-- At most `maxBody` bytes are read, and the body is closed. -/
def readBody : Body → Except String (List UInt8 × Body)
  | .noBody => .ok ([], .noBody)
  | .live rest => .ok (rest.take maxBody, .closed)
  | .closed => .error "http: invalid Read on closed Body"
  | .buffered rest => .ok (rest.take maxBody, .buffered (rest.drop maxBody))

/-- The request in the body, by its content type. -/
def parsePostBody (contentType body : Text) : Except String Request :=
  if contentType = applicationGraphQL then .ok { Request.zero with query := String.ofList body }
  else if contentType.hasPrefix applicationJSON then
    match checkJSONDepth 32 0 false body with
    | .error e => .error s!"JSON depth exceeds limit: {e}"
    | .ok () =>
      match requestCodec.unmarshal .zero body with
      | .error _ => .error "invalid GraphQL request JSON"
      | .ok req => if req.query = "" then .error "missing query field" else .ok req
  else .error "unsupported content type for GraphQL"

/-- The request, and the body that is left. -/
def parseRequest (r : HttpRequest) : Except String (Request × Body) :=
  if r.method = methodGet then (parseGetRequest r).map fun req => (req, r.body)
  else if r.method = methodPost then do
    let (data, body) ← readBody r.body
    let req ← parsePostBody r.contentType (Utf8.decode 0 data)
    return (req, body)
  else .error "unsupported HTTP method for GraphQL"

/-! ## The guard -/

/-- Anywhere in the text, also in strings and comments. -/
def isIntrospectionQuery (query : Text) : Bool :=
  ["__schema", "__type", "__typename", "__fields", "__args"].any fun name => query.hasInfix name.toList

def depthHeader : Text := Header.canonicalKey "X-GraphQL-Depth".toList

def complexityHeader : Text := Header.canonicalKey "X-GraphQL-Complexity".toList

def setAnalysis (result : AnalysisResult) (h : Header) : Header :=
  (h.put depthHeader (Text.ofInt result.depth)).put complexityHeader (Text.ofInt result.complexity)

/-- What the guard does with a request. -/
inductive Handled
  /-- The request goes on. -/
  | passed (r : HttpRequest)
  | answered (status : Nat) (message : String)

/-- `none` if the analysis does not return. -/
def GraphQLGuard.handle (g : GraphQLGuard) (gas stack : Nat) (r : HttpRequest) : Option Handled :=
  if !isGraphQLRequest r then some (.passed r)
  else
    match parseRequest r with
    | .error e => some (.answered 400 ("failed to parse GraphQL request: " ++ e))
    | .ok (req, body) =>
      if g.blockIntrospection && isIntrospectionQuery req.query.toList then
        some (.answered 403 "GraphQL introspection is disabled")
      else
        match g.analyzer.analyze gas stack req.query.toList with
        | none => none
        | some (.error e) => some (.answered 400 ("failed to analyze query: " ++ e.text))
        | some (.ok result) =>
          if !result.isValid then some (.answered 400 "query validation failed")
          else some (.passed { r with body := body, header := setAnalysis result r.header })

/-! ## What passes -/

variable {g : GraphQLGuard} {gas stack : Nat} {r r' : HttpRequest} {result : AnalysisResult}

/-- A request that passes: it is no GraphQL request, or its analysis is valid. -/
theorem handle_passed (h : g.handle gas stack r = some (.passed r')) :
    isGraphQLRequest r = false ∧ r' = r ∨ isGraphQLRequest r = true ∧
      ∃ req body result, parseRequest r = .ok (req, body) ∧
      g.analyzer.analyze gas stack req.query.toList = some (.ok result) ∧
        r' = { r with body := body, header := setAnalysis result r.header } := by
  unfold GraphQLGuard.handle at h
  cases hkind : isGraphQLRequest r with
  | false =>
    rw [hkind] at h
    left
    simpa using h.symm
  | true =>
    rw [hkind] at h
    refine .inr ⟨rfl, ?_⟩
    simp only [Bool.not_true, Bool.false_eq_true, if_false] at h
    cases hparse : parseRequest r with
    | error e =>
      rw [hparse] at h
      cases h
    | ok parsed =>
      obtain ⟨req, body⟩ := parsed
      rw [hparse] at h
      simp only at h
      split at h
      · cases h
      cases hanalyze : g.analyzer.analyze gas stack req.query.toList with
      | none =>
        rw [hanalyze] at h
        cases h
      | some analysis =>
        rw [hanalyze] at h
        cases analysis with
        | error e => cases h
        | ok result =>
          simp only at h
          split at h
          · cases h
          · simp only [Option.some.injEq, Handled.passed.injEq] at h
            exact ⟨req, body, result, rfl, hanalyze, h.symm⟩

/-- The body that a query was read from is not empty. -/
theorem parsePostBody_ne_nil {contentType body : Text} {req : Request} {a : QueryAnalyzer}
    (h : parsePostBody contentType body = .ok req)
    (hanalyze : a.analyze gas stack req.query.toList = some (.ok result)) :
    body ≠ [] := by
  rintro rfl
  unfold parsePostBody at h
  split at h
  · obtain rfl := Except.ok.inj h
    cases hanalyze
  · split at h
    · cases h
    · cases h

/-- What a later reader gets is not what was there. -/
theorem readBody_data {b b' : Body} {data : List UInt8} (h : readBody b = .ok (data, b'))
    (hne : data ≠ []) : b'.data ≠ b.data := by
  cases b with
  | noBody =>
    cases h
    exact absurd rfl hne
  | live rest =>
    cases h
    simp [Body.data]
  | closed => cases h
  | buffered rest =>
    cases h
    have hpos : 0 < rest.length := List.length_pos_iff.2 (by rintro rfl; exact hne rfl)
    intro heq
    have hlen := congrArg List.length (Option.some.inj heq)
    rw [List.length_drop, maxBody] at hlen
    omega

/-- Two fields that are set leave a header as it was iff it has them. -/
theorem setAnalysis_eq_iff {h : Header} : setAnalysis result h = h ↔
    h.get? depthHeader = some [Text.ofInt result.depth] ∧
      h.get? complexityHeader = some [Text.ofInt result.complexity] := by
  have hne : depthHeader ≠ complexityHeader := by decide +kernel
  have hcomplexity : (setAnalysis result h).get? complexityHeader = some [Text.ofInt result.complexity] := by
    simp [setAnalysis, Header.put, FinMap.get?_set]
  have hdepth : (setAnalysis result h).get? depthHeader = some [Text.ofInt result.depth] := by
    simp [setAnalysis, Header.put, FinMap.get?_set, hne]
  constructor
  · intro heq
    rw [heq] at hdepth hcomplexity
    exact ⟨hdepth, hcomplexity⟩
  · rintro ⟨hdepth', hcomplexity'⟩
    refine FinMap.ext_get? fun name => ?_
    by_cases hc : name = complexityHeader
    · rw [hc, hcomplexity, hcomplexity']
    · by_cases hd : name = depthHeader
      · rw [hd, hdepth, hdepth']
      · simp [setAnalysis, Header.put, FinMap.get?_set, hc, hd]

theorem parseGetRequest_query {req : Request} (h : parseGetRequest r = .ok req) :
    req.query.toList = r.parameter "query".toList := by
  unfold parseGetRequest at h
  simp only at h
  split at h
  · cases h
  split at h
  · obtain rfl := Except.ok.inj h
    exact String.toList_ofList
  · split at h
    · cases h
    · obtain rfl := Except.ok.inj h
      exact String.toList_ofList

/-- The body of a GET is not read. -/
theorem parseRequest_get {req : Request} {body : Body} (hget : r.method = methodGet)
    (h : parseRequest r = .ok (req, body)) : body = r.body ∧ req.query.toList = r.parameter "query".toList := by
  rw [parseRequest, if_pos hget] at h
  cases hreq : parseGetRequest r with
  | error e =>
    rw [hreq] at h
    cases h
  | ok req' =>
    rw [hreq] at h
    cases h
    exact ⟨rfl, parseGetRequest_query hreq⟩

/-- The body of any other request is, if its query can be analysed. -/
theorem parseRequest_data {req : Request} {body : Body} {a : QueryAnalyzer} (hget : r.method ≠ methodGet)
    (h : parseRequest r = .ok (req, body)) (hanalyze : a.analyze gas stack req.query.toList = some (.ok result)) :
    body.data ≠ r.body.data := by
  rw [parseRequest, if_neg hget] at h
  split at h
  · cases hread : readBody r.body with
    | error e =>
      rw [hread] at h
      cases h
    | ok read =>
      obtain ⟨data, body'⟩ := read
      rw [hread] at h
      cases hpost : parsePostBody r.contentType (Utf8.decode 0 data) with
      | error e =>
        simp [bind, Except.bind, hpost] at h
      | ok req' =>
        obtain ⟨rfl, rfl⟩ : req' = req ∧ body' = body := by
          simpa [bind, Except.bind, hpost, pure, Except.pure] using h
        refine readBody_data hread ?_
        rintro rfl
        exact parsePostBody_ne_nil hpost hanalyze rfl
  · cases h

/-- A later reader gets the same bytes, and the other fields are the same. -/
def Unchanged (r r' : HttpRequest) : Prop := r'.body.data = r.body.data ∧ { r' with body := r.body } = r

/-- **A request that passes is unchanged iff the guard did not look at it, or it is a GET with the header fields that
the guard sets.** -/
theorem unchanged_iff (g : GraphQLGuard) (gas stack : Nat) (r r' : HttpRequest)
    (h : g.handle gas stack r = some (.passed r')) :
    Unchanged r r' ↔ isGraphQLRequest r = false ∨ r.method = methodGet ∧
      ∀ result, g.analyzer.analyze gas stack (r.parameter "query".toList) = some (.ok result) →
        r.header.get? depthHeader = some [Text.ofInt result.depth] ∧
          r.header.get? complexityHeader = some [Text.ofInt result.complexity] := by
  rcases handle_passed h with ⟨hkind, rfl⟩ | ⟨hkind, req, body, result, hparse, hanalyze, rfl⟩
  · exact ⟨fun _ => .inl hkind, fun _ => ⟨rfl, rfl⟩⟩
  by_cases hget : r.method = methodGet
  · obtain ⟨rfl, hquery⟩ := parseRequest_get hget hparse
    rw [hquery] at hanalyze
    constructor
    · intro hunchanged
      have hheader : setAnalysis result r.header = r.header := congrArg HttpRequest.header hunchanged.2
      refine .inr ⟨hget, fun result' hanalyze' => ?_⟩
      rw [hanalyze] at hanalyze'
      cases hanalyze'
      exact setAnalysis_eq_iff.1 hheader
    · rintro (hkind' | ⟨-, hfields⟩)
      · rw [hkind] at hkind'
        cases hkind'
      · refine ⟨rfl, ?_⟩
        rw [setAnalysis_eq_iff.2 (hfields result hanalyze)]
  · constructor
    · exact fun hunchanged => absurd hunchanged.1 (parseRequest_data hget hparse hanalyze)
    · rintro (hkind' | ⟨hmethod, -⟩)
      · rw [hkind] at hkind'
        cases hkind'
      · exact absurd hmethod hget

/-- The guard with its defaults. -/
def defaultGuard : GraphQLGuard := newGraphQLGuard ⟨0, 0, false, FinMap.empty⟩

/-- `GET /?query={a}` with the fields that the guard sets. -/
def askedAgain : HttpRequest where
  method := methodGet
  path := ['/']
  rawQuery := "query={a}".toList
  contentLength := 0
  body := .noBody
  getBody := none
  header := setAnalysis ⟨1, 1, true, []⟩ FinMap.empty

theorem unchanged_asked_again : Unchanged askedAgain askedAgain := by
  have hsame : setAnalysis ⟨1, 1, true, []⟩ askedAgain.header = askedAgain.header := setAnalysis_eq_iff.2 ⟨rfl, rfl⟩
  have hpassed : defaultGuard.handle 40 10 askedAgain =
      some (.passed { askedAgain with header := setAnalysis ⟨1, 1, true, []⟩ askedAgain.header }) := rfl
  rw [hsame] at hpassed
  refine (unchanged_iff defaultGuard 40 10 askedAgain askedAgain hpassed).2 (.inr ⟨rfl, fun result hanalyze => ?_⟩)
  have hresult : defaultGuard.analyzer.analyze 40 10 (askedAgain.parameter "query".toList) =
    some (.ok ⟨1, 1, true, []⟩) := rfl
  rw [hresult] at hanalyze
  cases hanalyze
  exact ⟨rfl, rfl⟩

/-- A query in a body that comes from the connection. -/
def posted : HttpRequest where
  method := methodPost
  path := ['/']
  rawQuery := []
  contentLength := 3
  body := .live [123, 97, 125]
  getBody := none
  header := FinMap.empty.set (Header.canonicalKey "Content-Type".toList) [applicationGraphQL]

/-- A query passes, and its body is closed. -/
theorem body_gone : ∃ r', defaultGuard.handle 40 10 posted = some (.passed r') ∧
    posted.body.data = some [123, 97, 125] ∧
    r'.body.data = none :=
  ⟨_, rfl, rfl, rfl⟩

end GraphQL
