import Mathlib.Algebra.Order.Ring.Int
import Mathlib.Data.List.Dedup
import Mathlib.Data.List.Sort
import ApiCerberus.Lib.Header

/-!
# The response cache

What `internal/plugin/cache.go` makes of requests and responses, before it takes its lock: the settings, the keys, and
what `Apply`, `AfterProxy` and `WarmURL` look up and store. `keyParts` is the part of `GenerateKey` before the hash.

A regular expression is its `MatchString`. `Hash` is `hex.EncodeToString` of `sha256.Sum256`.
-/

namespace Plugin

/-- A hash as text; hex digits have no `|` among them. -/
structure Hash where
  sum : Text → Text
  noBar : ∀ t, '|' ∉ sum t

structure CacheConfig where
  ttl : Int
  maxSize : Int
  maxMemoryBytes : Int
  keyHeaders : List Text
  cacheableMethods : List Text
  cacheableStatusCodes : List Nat
  excludes : List (Text → Bool)
  tagsEnabled : Bool

structure Response where
  statusCode : Nat
  headers : Header
  body : List UInt8
  deriving DecidableEq

/-- A response with its key, its end and its size. -/
structure CacheEntry where
  key : Text
  response : Response
  expiresAt : Int
  tags : List Text
  size : Int
  deriving DecidableEq

def CacheEntry.isExpired (e : CacheEntry) (now : Int) : Bool := e.expiresAt < now

/-- What the key of a request is made of. -/
structure KeyFields where
  method : Text
  /-- `URL.String()`. -/
  url : Text
  header : Header
  deriving DecidableEq

/-- A request, as far as the cache looks at it. -/
structure CacheRequest extends KeyFields where
  path : Text

/-- The defaults of `NewCache`. -/
def CacheConfig.withDefaults (cfg : CacheConfig) : CacheConfig :=
  { cfg with
    ttl := if cfg.ttl ≤ 0 then 300000000000 else cfg.ttl
    cacheableMethods := ((if cfg.cacheableMethods = [] then ["GET".toList, "HEAD".toList] else cfg.cacheableMethods).map
      fun m => Text.toUpper (Text.trimSpace m))
    cacheableStatusCodes := if cfg.cacheableStatusCodes = [] then [200, 203, 204] else cfg.cacheableStatusCodes }

/-! ## Keys -/

/-- A key header, if the request has it. -/
def headerPart (header : Header) (name : Text) : Option Text :=
  let name := Header.canonicalKey (Text.trimSpace name)
  match header.get? name with
  | none | some [] => none
  | some values => some (name ++ '=' :: Text.join ',' (values.insertionSort (· ≤ ·)))

def keyParts (keyHeaders : List Text) (r : KeyFields) : List Text :=
  Text.toUpper r.method :: r.url :: keyHeaders.filterMap (headerPart r.header)

/-- The key before it is hashed. -/
def plainKey (keyHeaders : List Text) (r : KeyFields) : Text := Text.join '|' (keyParts keyHeaders r)

def generateKey (hash : Hash) (keyHeaders : List Text) (r : KeyFields) : Text :=
  let key := plainKey keyHeaders r
  if 256 < Text.byteLen key then hash.sum key else key

/-! ## Entries -/

/-- The keys and the number of the bytes of all values. -/
def headerSize (headers : Header) : Nat :=
  (headers.rows.map fun row => Text.byteLen row.1 + (row.2.map Text.byteLen).sum).sum

/-- Trimmed, in lower case, each once. -/
def normalizeTags (tags : List Text) : List Text :=
  (((tags.map fun t => Text.toLower (Text.trimSpace t)).filter (· ≠ [])).dedup).insertionSort (· ≤ ·)

/-- `fmt.Sscanf` with `%d`: what follows the digits is left. -/
def scanInt (t : Text) : Option Int :=
  let t := t.dropWhile Text.isSpace
  let sign := if t.head? = some '-' || t.head? = some '+' then t.take 1 else []
  Text.parseInt (sign ++ (t.drop sign.length).takeWhile Char.isDigit)

/-- The age of one directive. The product is one of 64 bits. -/
def directiveAge (part : Text) : Option Int :=
  let part := Text.toLower (Text.trimSpace part)
  if Text.hasPrefix part "max-age=".toList then
    ((scanInt (Text.trimPrefix part "max-age=".toList)).filter fun age => 0 < age).map fun age =>
      (age * 1000000000).bmod (2 ^ 64)
  else none

/-- The first directive with an age counts. -/
def parseMaxAge (cacheControl : Text) : Int := ((Text.split ',' cacheControl).findSome? directiveAge).getD 0

/-! ## Requests and responses -/

/-- What `Set` is called with. -/
structure Stored where
  key : Text
  response : Response
  ttl : Int
  tags : List Text

namespace CacheConfig

variable (cfg : CacheConfig) (hash : Hash)

def isCacheableStatusCode (code : Nat) : Bool := cfg.cacheableStatusCodes.contains code

def canCacheRequest (req : CacheRequest) : Bool :=
  cfg.cacheableMethods.contains (Text.toUpper req.method) && !(cfg.excludes.any fun re => re req.path) &&
    !(Text.hasInfix (req.header.get "Cache-Control".toList) "no-cache".toList ||
      Text.hasInfix (req.header.get "Cache-Control".toList) "no-store".toList)

def canCacheResponse (response : Response) : Bool :=
  cfg.isCacheableStatusCode response.statusCode &&
    !(["no-cache".toList, "no-store".toList, "private".toList].any
      (Text.hasInfix (response.headers.get "Cache-Control".toList)))

/-- The key that `Apply` looks up. -/
def apply (stopped : Bool) (req : CacheRequest) : Option Text :=
  if stopped || !cfg.canCacheRequest req then none else some (generateKey hash cfg.keyHeaders req.toKeyFields)

/-- What `AfterProxy` stores; `captured` is what the proxy wrote, if it wrote something and the writer is the one that
`Apply` put there. -/
def afterProxy (stopped : Bool) (req : CacheRequest) (proxyErr servedFromCache : Bool)
    (captured : Option Response) : Option Stored :=
  if proxyErr || stopped || servedFromCache then none
  else
    match captured with
    | none => none
    | some response =>
      if !cfg.canCacheResponse response then none
      else
        let cc := response.headers.get "Cache-Control".toList
        let ttl := if 0 < parseMaxAge cc then parseMaxAge cc else cfg.ttl
        let tagHeader := response.headers.get "X-Cache-Tags".toList
        let tags := if cfg.tagsEnabled && tagHeader ≠ [] then Text.split ',' tagHeader else []
        some ⟨generateKey hash cfg.keyHeaders req.toKeyFields, response, ttl, tags⟩

/-- What `WarmURL` stores; it has status 200. -/
def warmURL (r : KeyFields) (body : List UInt8) (ttl : Int) (tags : List Text) : Stored :=
  ⟨generateKey hash cfg.keyHeaders r, ⟨200, r.header, body⟩, ttl, tags⟩

end CacheConfig

end Plugin
