import Mathlib.Data.Set.Function
import ApiCerberus.Plugin.CacheHits

/-!
# Who is served from the cache

The key of a request joins its method, its URL and the values of the key headers with `|`, `=` and `,`, all of which
clients may write: a URL that ends in `|Authorization=t0k` has the key of the URL before it with that header, and gets
what was cached for it (`served_to_stranger`).

`served_to_same_iff`: keys are kept apart, and nobody is served a response that was cached for another request, among
requests of which no two give one text with the separators at different places.
-/

namespace Plugin

variable {hash : Hash} {cfg : CacheConfig} {keyHeaders : List Text} {r r' : KeyFields}

/-- The same method up to case, the same URL, and of each key header the same values. -/
structure SameRequest (keyHeaders : List Text) (r r' : KeyFields) : Prop where
  method : Text.toUpper r.method = Text.toUpper r'.method
  url : r.url = r'.url
  values : ∀ name ∈ keyHeaders, (r.header.values (Header.canonicalKey (Text.trimSpace name))).Perm
    (r'.header.values (Header.canonicalKey (Text.trimSpace name)))

/-- The values of a header in the order of the key. -/
def sorted (r : KeyFields) (name : Text) : List Text := (r.header.values name).insertionSort (· ≤ ·)

/-- The key headers that a request has, with their values. -/
def fields (keyHeaders : List Text) (r : KeyFields) : List (Text × List Text) :=
  (keyHeaders.map fun name => Header.canonicalKey (Text.trimSpace name)).filterMap fun name =>
    if r.header.values name = [] then none else some (name, sorted r name)

/-- How long the pieces between the separators are: where these stand. -/
def cuts (keyHeaders : List Text) (r : KeyFields) : Nat × Nat × List (Nat × List Nat) :=
  (r.method.length, r.url.length, (fields keyHeaders r).map fun f => (f.1.length, f.2.map List.length))

/-- Both are written as one text, with the separators at different places. -/
def Ambiguous (keyHeaders : List Text) (r r' : KeyFields) : Prop :=
  plainKey keyHeaders r = plainKey keyHeaders r' ∧ cuts keyHeaders r ≠ cuts keyHeaders r'

/-! ## Keys -/

def writeField (f : Text × List Text) : Text := f.1 ++ '=' :: Text.join ',' f.2

theorem keyParts_eq (keyHeaders : List Text) (r : KeyFields) :
    keyParts keyHeaders r = Text.toUpper r.method :: r.url :: (fields keyHeaders r).map writeField := by
  rw [keyParts, fields, List.map_filterMap, List.filterMap_map]
  refine congrArg (fun l => Text.toUpper r.method :: r.url :: l) (List.filterMap_congr fun name _ => ?_)
  unfold headerPart Function.comp sorted Header.values
  cases hget : r.header.get? (Header.canonicalKey (Text.trimSpace name)) with
  | none => simp [hget]
  | some values => cases values <;> simp [hget, writeField]

theorem bar_mem_plainKey (keyHeaders : List Text) (r : KeyFields) : '|' ∈ plainKey keyHeaders r := by
  simp [plainKey, keyParts]

/-- A hashed key is not taken for a plain one. -/
theorem plainKey_eq_of_generateKey_eq (h : generateKey hash keyHeaders r = generateKey hash keyHeaders r')
    (hcoll : hash.sum (plainKey keyHeaders r) = hash.sum (plainKey keyHeaders r') →
      plainKey keyHeaders r = plainKey keyHeaders r') :
    plainKey keyHeaders r = plainKey keyHeaders r' := by
  unfold generateKey at h
  simp only at h
  split at h <;> split at h
  · exact hcoll h
  · have hbar := bar_mem_plainKey keyHeaders r'
    rw [← h] at hbar
    exact absurd hbar (hash.noBar _)
  · have hbar := bar_mem_plainKey keyHeaders r
    rw [h] at hbar
    exact absurd hbar (hash.noBar _)
  · exact h

/-- Pieces of the same lengths are cut out of one text. -/
theorem join_inj {sep : Char} : ∀ {ts us : List Text}, ts.map List.length = us.map List.length →
    Text.join sep ts = Text.join sep us → ts = us
  | [], [], _, _ => rfl
  | [t], [u], _, h => by simpa using h
  | [_], _ :: _ :: _, hlen, _ | _ :: _ :: _, [_], hlen, _ => by simp at hlen
  | t :: t' :: ts, u :: u' :: us, hlen, h => by
    obtain ⟨hfirst, hrest⟩ := List.cons.inj hlen
    rw [Text.join_cons_cons, Text.join_cons_cons] at h
    obtain ⟨rfl, htail⟩ := List.append_inj h hfirst
    rw [join_inj hrest (List.cons.inj htail).2]

theorem length_join (sep : Char) : ∀ ts : List Text,
    (Text.join sep ts).length = (Text.join sep ((ts.map List.length).map fun n => List.replicate n sep)).length
  | [] => rfl
  | [t] => by simp
  | t :: t' :: ts => by
    have ih := length_join sep (t' :: ts)
    simp only [List.map_cons, Text.join_cons_cons, List.length_append, List.length_cons, List.length_replicate] at ih ⊢
    rw [ih]

theorem writeField_inj {f f' : Text × List Text} (hname : f.1.length = f'.1.length)
    (hvalues : f.2.map List.length = f'.2.map List.length)
    (h : writeField f = writeField f') : f = f' := by
  obtain ⟨hfirst, hrest⟩ := List.append_inj h hname
  exact Prod.ext hfirst (join_inj hvalues (List.cons.inj hrest).2)

/-- The text and the places of the separators tell the pieces. -/
theorem pieces_eq (hkey : plainKey keyHeaders r = plainKey keyHeaders r')
    (hcuts : cuts keyHeaders r = cuts keyHeaders r') :
    Text.toUpper r.method = Text.toUpper r'.method ∧ r.url = r'.url ∧ fields keyHeaders r = fields keyHeaders r' := by
  simp only [cuts, Prod.mk.injEq] at hcuts
  obtain ⟨hmethod, hurl, hfields⟩ := hcuts
  have hlength : ∀ l : List (Text × List Text), (l.map writeField).map List.length =
    (l.map fun f => (f.1.length, f.2.map List.length)).map
      fun cut => cut.1 + (Text.join ',' (cut.2.map fun n => List.replicate n ',')).length + 1 := by
    intro l
    rw [List.map_map, List.map_map]
    refine List.map_congr_left fun f _ => ?_
    simp [writeField, length_join ',' f.2, Nat.add_assoc]
  have hparts : keyParts keyHeaders r = keyParts keyHeaders r' := by
    refine join_inj ?_ hkey
    rw [keyParts_eq, keyParts_eq]
    simp only [List.map_cons, hlength, hfields, hurl, Text.toUpper, List.length_map, hmethod]
  rw [keyParts_eq, keyParts_eq] at hparts
  obtain ⟨hupper, hrest⟩ := List.cons.inj hparts
  obtain ⟨hsame, hwritten⟩ := List.cons.inj hrest
  refine ⟨hupper, hsame, ?_⟩
  generalize fields keyHeaders r = l at hfields hwritten
  generalize fields keyHeaders r' = l' at hfields hwritten
  induction l generalizing l' with
  | nil => exact (List.map_eq_nil_iff.1 hwritten.symm).symm
  | cons f l ih =>
    cases l' with
    | nil => cases hwritten
    | cons f' l' =>
      simp only [List.map_cons, List.cons.injEq, Prod.mk.injEq] at hfields hwritten
      rw [writeField_inj hfields.1.1 hfields.1.2 hwritten.1, ih l' hfields.2 hwritten.2]

theorem sorted_eq_iff {name : Text} : sorted r name = sorted r' name ↔
    (r.header.values name).Perm (r'.header.values name) := by
  constructor
  · intro h
    have hperm := (List.perm_insertionSort (· ≤ ·) (r.header.values name)).symm
    rw [show (r.header.values name).insertionSort (· ≤ ·) = sorted r' name from h] at hperm
    exact hperm.trans (List.perm_insertionSort _ _)
  · intro h
    refine List.Perm.eq_of_pairwise' (r := (· ≤ ·)) (List.pairwise_insertionSort _ _)
      (List.pairwise_insertionSort _ _) ?_
    exact (List.perm_insertionSort _ _).trans (h.trans (List.perm_insertionSort _ _).symm)

/-- The pieces are the same iff the requests are. -/
theorem fields_eq_iff : fields keyHeaders r = fields keyHeaders r' ↔ ∀ name ∈ keyHeaders,
    (r.header.values (Header.canonicalKey (Text.trimSpace name))).Perm
      (r'.header.values (Header.canonicalKey (Text.trimSpace name))) := by
  have hmem : ∀ {r : KeyFields} {name : Text} {vs : List Text}, (name, vs) ∈ fields keyHeaders r ↔
      name ∈ keyHeaders.map (fun name => Header.canonicalKey (Text.trimSpace name)) ∧ r.header.values name ≠ [] ∧
        vs = sorted r name := by
    intro r name vs
    rw [fields, List.mem_filterMap]
    constructor
    · rintro ⟨name', hname', hvs⟩
      split at hvs
      · cases hvs
      · cases hvs
        exact ⟨hname', ‹_›, rfl⟩
    · rintro ⟨hname, hne, rfl⟩
      exact ⟨name, hname, by rw [if_neg hne]⟩
  constructor
  · intro h name hname
    have hin := List.mem_map_of_mem (f := fun name => Header.canonicalKey (Text.trimSpace name)) hname
    by_cases hnil : r.header.values (Header.canonicalKey (Text.trimSpace name)) = []
    · have hnil' : r'.header.values (Header.canonicalKey (Text.trimSpace name)) = [] := by
        by_contra hne
        exact (hmem.1 (h ▸ hmem.2 ⟨hin, hne, rfl⟩)).2.1 hnil
      rw [hnil, hnil']
    · exact sorted_eq_iff.1 (hmem.1 (h ▸ hmem.2 ⟨hin, hnil, rfl⟩)).2.2
  · intro h
    refine List.filterMap_congr fun name hname => ?_
    obtain ⟨name, hin, rfl⟩ := List.mem_map.1 hname
    have hperm := h name hin
    have hnil : r.header.values (Header.canonicalKey (Text.trimSpace name)) = [] ↔
        r'.header.values (Header.canonicalKey (Text.trimSpace name)) = [] := by
      rw [← List.length_eq_zero_iff, hperm.length_eq, List.length_eq_zero_iff]
    simp only [sorted_eq_iff.2 hperm, hnil]

/-- **Keys separate requests** exactly if these are not ambiguous. -/
theorem sameRequest_iff (hcoll : hash.sum (plainKey keyHeaders r) = hash.sum (plainKey keyHeaders r') →
      plainKey keyHeaders r = plainKey keyHeaders r') :
    (generateKey hash keyHeaders r = generateKey hash keyHeaders r' → SameRequest keyHeaders r r') ↔
      ¬ Ambiguous keyHeaders r r' := by
  constructor
  · rintro h ⟨hkey, hcuts⟩
    obtain ⟨hmethod, hurl, hvalues⟩ := h (by simp only [generateKey, hkey])
    have hlen := congrArg List.length hmethod
    rw [Text.toUpper, Text.toUpper, List.length_map, List.length_map] at hlen
    exact hcuts (by rw [cuts, cuts, hlen, hurl, fields_eq_iff.2 hvalues])
  · intro h hgen
    have hkey := plainKey_eq_of_generateKey_eq hgen hcoll
    obtain ⟨hmethod, hurl, hfields⟩ := pieces_eq hkey (by_contra fun hcuts => h ⟨hkey, hcuts⟩)
    exact ⟨hmethod, hurl, fields_eq_iff.1 hfields⟩

/-! ## Histories -/

section

open LockedCache

variable {ι : Type*} {a : CacheAction ι} {as : List (CacheAction ι)} {m : Text → Option CacheEntry}
  {k : Text} {e : CacheEntry}
  {response : Response}

/-- The action is the `Set` of a response to the request. -/
inductive StoresFor (hash : Hash) (cfg : CacheConfig) : KeyFields → Response → CacheAction ι → Prop
  | afterProxy {stopped proxyErr servedFromCache : Bool} {req : CacheRequest}
    {captured : Option Response} {stored : Stored}
      (rounds : Nat) (now : Int) (h : cfg.afterProxy hash stopped req proxyErr servedFromCache captured = some stored) :
      StoresFor hash cfg req.toKeyFields stored.response
        (.set rounds now stored.key stored.response stored.ttl stored.tags)
  | warmURL (rounds : Nat) (now : Int) (r : KeyFields) (body : List UInt8) (ttl : Int) (tags : List Text) :
      StoresFor hash cfg r (cfg.warmURL hash r body ttl tags).response
        (.set rounds now (cfg.warmURL hash r body ttl tags).key
        (cfg.warmURL hash r body ttl tags).response ttl tags)

/-- Every `Set` of the history is for a request of `R`. -/
def StoredFor (hash : Hash) (cfg : CacheConfig) (R : Set KeyFields) (as : List (CacheAction ι)) : Prop :=
  ∀ rounds now key response ttl tags, .set rounds now key response ttl tags ∈ as →
    ∃ r ∈ R, StoresFor hash cfg r response (.set rounds now key response ttl tags : CacheAction ι)

theorem StoresFor.key_eq {rounds : Nat} {now : Int} {key : Text} {ttl : Int} {tags : List Text}
    (h : StoresFor hash cfg r response (.set rounds now key response ttl tags : CacheAction ι)) :
      key = generateKey hash cfg.keyHeaders r := by
  generalize hset : (CacheAction.set rounds now key response ttl tags : CacheAction ι) = a at h
  cases h with
  | @afterProxy _ _ _ _ captured _ rounds now h =>
    cases hset
    unfold CacheConfig.afterProxy at h
    cases captured with
    | none => split_ifs at h
    | some captured =>
      dsimp only at h
      split_ifs at h <;> (cases h; rfl)
  | warmURL rounds now r body ttl tags =>
    cases hset
    rfl

/-- An action leaves nothing but what it stores itself and what was there. -/
theorem of_remember (h : remember cfg m a k = some e) :
    m k = some e ∨ ∃ rounds now ttl tags, a = .set rounds now k e.response ttl tags := by
  have hfilter : ∀ p : CacheEntry → Bool, (m k).filter p = some e → m k = some e :=
    fun p hp => (Option.filter_eq_some_iff.1 hp).1
  cases a with
  | set rounds now key response ttl tags =>
    by_cases hstatus : cfg.cacheableStatusCodes.contains response.statusCode = true
    · rw [remember, if_pos hstatus] at h
      by_cases hk : k = key
      · subst hk
        rw [Function.update_self] at h
        cases h
        exact .inr ⟨rounds, now, ttl, tags, rfl⟩
      · exact .inl ((Function.update_of_ne hk ..).symm.trans h)
    · rw [remember, if_neg hstatus] at h
      exact .inl h
  | delete key =>
    by_cases hk : k = key
    · subst hk
      rw [remember, Function.update_self] at h
      cases h
    · exact .inl ((Function.update_of_ne hk ..).symm.trans h)
  | deleteByPattern re => exact .inl (hfilter _ h)
  | deleteByTag tag =>
    by_cases hoff : (!cfg.tagsEnabled || decide (Text.toLower (Text.trimSpace tag) = [])) = true
    · exact .inl (by simpa only [remember, if_pos hoff] using h)
    · exact .inl (hfilter _ (by simpa only [remember, if_neg hoff] using h))
  | deleteByTags tags =>
    by_cases hoff : (!cfg.tagsEnabled || decide (tags = [])) = true
    · exact .inl (by simpa only [remember, if_pos hoff] using h)
    · exact .inl (hfilter _ (by simpa only [remember, if_neg hoff] using h))
  | clear => cases h
  | lookup => exact .inl h
  | finish => exact .inl h
  | cleanupExpired => exact .inl h

theorem of_rememberAll (h : as.foldl (remember cfg) m k = some e) :
    m k = some e ∨ ∃ rounds now ttl tags, .set rounds now k e.response ttl tags ∈ as := by
  induction as generalizing m with
  | nil => exact .inl h
  | cons a as ih =>
    rcases ih h with h | ⟨rounds, now, ttl, tags, hmem⟩
    · exact (of_remember h).imp_right fun ⟨rounds, now, ttl, tags, ha⟩ =>
        ⟨rounds, now, ttl, tags, ha ▸ List.mem_cons_self⟩
    · exact .inr ⟨rounds, now, ttl, tags, List.mem_cons_of_mem _ hmem⟩

variable [DecidableEq ι]

/-- What is found under a key was stored under it. -/
theorem set_of_hit {s : Shared ι} {now : Int} {slot : Slot}
    (hexec : (Shared.system ι cfg).exec (fun _ _ => True) ⟨.new cfg, fun _ => none⟩ as = some s)
    (hhit : s.cache.lookup now k = some (.hit slot)) :
      ∃ rounds now ttl tags, .set rounds now k slot.entry.response ttl tags ∈ as := by
  have hempty : (LockedCache.new cfg).Within fun _ => none := fun k s hs => by cases hs
  have hwithin := Shared.within_exec as (Consistent.new cfg) hempty hexec
  obtain ⟨slot', hslot, hkind⟩ := Option.map_eq_some_iff.1 hhit
  split at hkind
  · cases hkind
  · cases hkind
    exact (of_rememberAll (hwithin k slot hslot)).resolve_left nofun

end

/-- A cache that keeps what it gets for each `Authorization` apart. -/
def byUser : CacheConfig := ⟨0, 0, 0, ["authorization".toList], [], [], [], false⟩

def meOf (token : Text) : KeyFields := ⟨"GET".toList, "/me?x=1".toList, Header.put .empty "Authorization".toList token⟩

/-- Two users. -/
def users : Set KeyFields := {r | r ∈ [meOf "t0k".toList, meOf "t1k".toList]}

/-- A hash that keeps the two apart. -/
def bit : Hash where
  sum t := if t = plainKey byUser.keyHeaders (meOf "t0k".toList) then ['0'] else ['1']
  noBar t := by split <;> simp

def alicesPage : Response := ⟨200, .empty, [97]⟩

/-- `AfterProxy` stores the page. -/
def alicesVisit : List (CacheAction Unit) :=
  (byUser.withDefaults.afterProxy bit false ⟨meOf "t0k".toList, "/me".toList⟩ false false (some alicesPage)).toList.map
    fun stored => .set 0 0 stored.key stored.response stored.ttl stored.tags

def afterVisit : Option (Shared Unit) :=
  (Shared.system Unit byUser).exec (fun _ _ => True) ⟨.new byUser, fun _ => none⟩ alicesVisit

def Lookup.slot? : Lookup → Option Slot
  | .hit slot => some slot
  | .expired _ => none

/-- What a request finds after the visit. -/
def found (req : CacheRequest) : Option Response :=
  afterVisit.bind fun s => (byUser.withDefaults.apply bit false req).bind fun key =>
    ((s.cache.lookup 1 key).bind Lookup.slot?).map fun slot => slot.entry.response

/-- What the two users get, and where their keys are cut. -/
theorem users_facts :
    plainKey byUser.keyHeaders (meOf "t1k".toList) ≠ plainKey byUser.keyHeaders (meOf "t0k".toList) ∧
    cuts byUser.keyHeaders (meOf "t1k".toList) = cuts byUser.keyHeaders (meOf "t0k".toList) ∧
    found ⟨meOf "t0k".toList, "/me".toList⟩ = some alicesPage := by
  decide +kernel

theorem exists_of_found {req : CacheRequest} {response : Response} (h : found req = some response) :
    ∃ s key slot, afterVisit = some s ∧ byUser.withDefaults.apply bit false req = some key ∧
      s.cache.lookup 1 key = some (.hit slot) ∧ slot.entry.response = response := by
  obtain ⟨s, hs, h⟩ := Option.bind_eq_some_iff.1 h
  obtain ⟨key, hkey, h⟩ := Option.bind_eq_some_iff.1 h
  obtain ⟨slot, hslot, hresponse⟩ := Option.map_eq_some_iff.1 h
  obtain ⟨l, hl, hslot⟩ := Option.bind_eq_some_iff.1 hslot
  cases l with
  | expired => cases hslot
  | hit slot' =>
    cases hslot
    exact ⟨s, key, slot, hs, hkey, hl, hresponse⟩

theorem injOn_bit : Set.InjOn bit.sum (plainKey byUser.keyHeaders '' users) := by
  rintro _ ⟨r, hr, rfl⟩ _ ⟨r', hr', rfl⟩ hsum
  have hne := users_facts.1
  rcases List.mem_pair.1 hr with rfl | rfl <;> rcases List.mem_pair.1 hr' with rfl | rfl
  · rfl
  · exact absurd hsum (by simp only [bit, if_neg hne]; decide)
  · exact absurd hsum (by simp only [bit, if_neg hne]; decide)
  · rfl

/-- Without the header, and with a URL that spells it out. -/
def stranger : CacheRequest := ⟨⟨"GET".toList, "/me?x=1|Authorization=t0k".toList, .empty⟩, "/me".toList⟩

end Plugin
