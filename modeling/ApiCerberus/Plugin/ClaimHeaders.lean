import Mathlib.Data.List.Induction
import ApiCerberus.Plugin.Jwt

/-!
# Headers that name the user

An upstream takes the mapped headers for what the token says. `applyClaimHeaders` sets a header for each claim that has
a value and leaves the others alone, so what the client sent under the name of a claim that is missing goes to the
upstream (`forged_role`). And if two claims are mapped to one header, the one that comes last wins, in an order that Go
leaves open. The mapped headers come from the token alone iff it gives every one of them exactly one value
(`fromToken_iff`).
-/

namespace Plugin

open Gateway (PluginError)

variable {sprint : Json → Text} {a : AuthJWT} {clock : Clock} {cache : JTIReplayCache} {claims payload : AnyMap}
  {order : List (Text × Text)} {header header' : Header} {name raw u v : Text}

/-! ## The loop over the claims -/

/-- The values that are set for the header `name`, one after the other. -/
def settings (sprint : Json → Text) (claims : AnyMap) (name : Text) (order : List (Text × Text)) : List Text :=
  order.filterMap fun row => if Header.canonicalKey row.2 = name then claimHeader sprint claims row.1 else none

theorem mem_settings : v ∈ settings sprint claims name order ↔
    ∃ row ∈ order, Header.canonicalKey row.2 = name ∧ claimHeader sprint claims row.1 = some v := by
  simp [settings, List.mem_filterMap]

theorem values_applyClaim (row : Text × Text) : (applyClaim sprint claims header row).values name =
    ((if Header.canonicalKey row.2 = name then claimHeader sprint claims row.1 else none).map fun v => [v]).getD
      (header.values name) := by
  unfold applyClaim
  cases hc : claimHeader sprint claims row.1 with
  | none => simp
  | some value =>
    by_cases hname : Header.canonicalKey row.2 = name
    · simp [Header.put, Header.values, FinMap.get?_set, hname]
    · simp [Header.put, Header.values, FinMap.get?_set, hname, Ne.symm hname]

/-- The last value that is set stays. -/
theorem values_applyClaimHeaders (order : List (Text × Text)) (header : Header) :
    (applyClaimHeaders sprint order claims header).values name =
      ((settings sprint claims name order).getLast?.map fun v => [v]).getD (header.values name) := by
  -- by induction from the end of the loop
  induction order using List.reverseRecOn with
  | nil => rfl
  | append_singleton order row ih =>
    have hlast : applyClaimHeaders sprint (order ++ [row]) claims header =
        applyClaim sprint claims (applyClaimHeaders sprint order claims header) row := by
      simp [applyClaimHeaders]
    rw [hlast, values_applyClaim, ih]
    unfold settings
    rw [List.filterMap_append]
    cases hrow : if Header.canonicalKey row.2 = name then claimHeader sprint claims row.1 else none with
    | none => simp [hrow]
    | some v => simp [hrow]

/-! ## Requests with one token -/

theorem trimSpace_extractBearerToken (header : Header) :
    Text.trimSpace (extractBearerToken header) = extractBearerToken header := by
  unfold extractBearerToken
  simp only
  split
  · rfl
  · split
    · rfl
    · exact Text.trim_trim

/-- A header that carries the token. -/
def bearer (raw : Text) : Text := bearerScheme ++ raw

theorem byteLen_pos {t : Text} (h : t ≠ []) : 0 < Text.byteLen t := by
  cases t with
  | nil => exact absurd rfl h
  | cons c t =>
    have := c.utf8Size_pos
    rw [Text.byteLen]
    omega

theorem getLast?_trimSpace (hraw : Text.trimSpace raw = raw) : ∀ c ∈ raw.getLast?, Text.isSpace c = false := by
  intro c hc
  rw [← hraw, Text.trimSpace, Text.trim, List.getLast?_reverse] at hc
  have hhead := List.head?_dropWhile_not Text.isSpace ((raw.dropWhile Text.isSpace).reverse)
  rw [Option.mem_def.1 hc] at hhead
  exact hhead

theorem extractBearerToken_bearer (hraw : Text.trimSpace raw = raw) (hne : raw ≠ []) (header : Header) :
    extractBearerToken (header.put authorization (bearer raw)) = raw := by
  have hget : (header.put authorization (bearer raw)).get authorization = bearer raw := by
    simp [Header.put, Header.get, FinMap.get?_set]
  have htrim : Text.trimSpace (bearer raw) = bearer raw := by
    apply Text.trim_self
    · intro c hc
      obtain rfl : 'B' = c := Option.some.inj hc
      decide
    · intro c hc
      rw [bearer, List.getLast?_append_of_ne_nil _ hne] at hc
      exact getLast?_trimSpace hraw c hc
  have hlen : ¬ Text.byteLen (bearer raw) ≤ 7 := by
    have hseven : Text.byteLen bearerScheme = 7 := by decide +kernel
    have := byteLen_pos hne
    rw [bearer, Text.byteLen_append, hseven]
    omega
  have htake : (bearer raw).take 7 = bearerScheme := List.take_left' (by decide)
  have hdrop : (bearer raw).drop 7 = raw := List.drop_left' (by decide)
  have hfold : Text.equalFold bearerScheme bearerScheme = true := by decide +kernel
  simp only [extractBearerToken, hget, htrim, if_neg hlen, htake, hdrop, hfold, Bool.not_true,
    Bool.false_eq_true, if_false]
  exact hraw

/-- Everything that `Authenticate` does to a request with a token that passes the checks. -/
theorem authenticate_ok_iff : (authenticate sprint a clock cache order header).1 = .ok (payload, header') ↔
    (check a clock cache (extractBearerToken header)).1 = .ok payload ∧
      header' = applyClaimHeaders sprint order payload header := by
  unfold authenticate
  rw [trimSpace_extractBearerToken]
  split
  · rename_i herr
    simp [herr]
  · rename_i hok
    simp only [hok, Except.ok.injEq, Prod.mk.injEq]
    constructor
    · rintro ⟨rfl, rfl⟩
      exact ⟨rfl, rfl⟩
    · rintro ⟨rfl, rfl⟩
      exact ⟨rfl, rfl⟩

theorem check_ne_nil (h : (check a clock cache raw).1 = .ok payload) : raw ≠ [] := by
  rintro rfl
  simp [check, verify] at h

/-- The payload is that of the token. -/
theorem check_payload (h : (check a clock cache raw).1 = .ok payload) :
    (Token.parse raw).map Token.payload = some payload := by
  unfold check at h
  split at h
  · cases h
  · rename_i token hverify
    have hparse : Token.parse raw = some token := by
      unfold verify at hverify
      split at hverify
      · cases hverify
      · split at hverify
        · cases hverify
        · rename_i t ht
          cases hsig : verifySignature a.keys t with
          | error err => rw [hsig] at hverify; cases hverify
          | ok _ =>
            rw [hsig] at hverify
            cases hverify
            exact ht
    split at h
    · cases h
    · split at h
      · cases h
      · cases h
        rw [hparse]
        rfl

/-! ## Where the headers come from -/

/-- A mapped header. -/
def Mapped (a : AuthJWT) (name : Text) : Prop := ∃ row ∈ a.claimsToHeaders.rows, Header.canonicalKey row.2 = name

/-- A claim of the token that is mapped to the header has the value. -/
def Derived (sprint : Json → Text) (a : AuthJWT) (claims : AnyMap) (name value : Text) : Prop :=
  value ∈ settings sprint claims name a.claimsToHeaders.rows

/-- A request with the token `raw` passes and goes on with `header'`. -/
def Passes (sprint : Json → Text) (a : AuthJWT) (raw : Text) (header header' : Header) : Prop :=
  extractBearerToken header = raw ∧ ∃ clock cache order payload, order.Perm a.claimsToHeaders.rows ∧
    (authenticate sprint a clock cache order header).1 = .ok (payload, header')

/-- The mapped headers of all requests with the token `raw`, whose payload is `payload`, come from the token. -/
structure FromToken (sprint : Json → Text) (a : AuthJWT) (raw : Text) (payload : AnyMap) : Prop where
  derived : ∀ header header', Passes sprint a raw header header' → ∀ name, Mapped a name →
    header'.values name = [] ∨ ∃ v, Derived sprint a payload name v ∧ header'.values name = [v]
  same : ∀ header₁ header₁' header₂ header₂', Passes sprint a raw header₁ header₁' →
    Passes sprint a raw header₂ header₂' →
    (∀ name, ¬ Mapped a name → header₁.values name = header₂.values name) →
    ∀ name, Mapped a name → header₁'.values name = header₂'.values name

/-- The values of a mapped header that has exactly one. -/
theorem getLast?_settings (hperm : order.Perm a.claimsToHeaders.rows)
    (hv : ∀ u, Derived sprint a claims name u ↔ u = v) : (settings sprint claims name order).getLast? = some v := by
  have hmem : ∀ u, u ∈ settings sprint claims name order ↔ u = v := fun u => ((hperm.filterMap _).mem_iff).trans (hv u)
  cases hs : settings sprint claims name order with
  | nil => simp [hs] at hmem
  | cons w ws =>
    have hlast := List.getLast?_eq_some_getLast (List.cons_ne_nil w ws)
    rw [hlast, Option.some.injEq]
    apply (hmem _).1
    rw [hs]
    exact List.getLast_mem _

/-- The round of a row can come last. -/
theorem getLast?_settings_last {row : Text × Text} (hrow : row ∈ a.claimsToHeaders.rows)
    (hname : Header.canonicalKey row.2 = name) (hv : claimHeader sprint claims row.1 = some v) :
    ∃ order, order.Perm a.claimsToHeaders.rows ∧ (settings sprint claims name order).getLast? = some v := by
  refine ⟨a.claimsToHeaders.rows.erase row ++ [row], ?_, ?_⟩
  · exact (List.perm_append_singleton row _).trans (List.perm_cons_erase hrow).symm
  · simp [settings, hname, hv]

/-- A request with the token passes, whatever else it carries and in whatever order the map is read. -/
theorem passes_bearer (hcheck : (check a clock cache raw).1 = .ok payload)
    (hraw : Text.trimSpace raw = raw) (header : Header)
    (hperm : order.Perm a.claimsToHeaders.rows) :
    Passes sprint a raw (header.put authorization (bearer raw))
      (applyClaimHeaders sprint order payload (header.put authorization (bearer raw))) := by
  have hbearer := extractBearerToken_bearer hraw (check_ne_nil hcheck) header
  exact ⟨hbearer, clock, cache, order, payload, hperm, authenticate_ok_iff.2 ⟨by rw [hbearer]; exact hcheck, rfl⟩⟩

theorem values_of_passes (hcheck : (check a clock cache raw).1 = .ok payload) (h : Passes sprint a raw header header') :
    ∃ order, order.Perm a.claimsToHeaders.rows ∧ ∀ name, header'.values name =
      ((settings sprint payload name order).getLast?.map fun v => [v]).getD (header.values name) := by
  obtain ⟨rfl, clock', cache', order, payload', hperm, hok⟩ := h
  obtain ⟨hcheck', rfl⟩ := authenticate_ok_iff.1 hok
  obtain rfl : payload' = payload := Option.some.inj ((check_payload hcheck').symm.trans (check_payload hcheck))
  exact ⟨order, hperm, fun name => values_applyClaimHeaders order header⟩

theorem FromToken.exists_derived (hfrom : FromToken sprint a raw payload)
    (hcheck : (check a clock cache raw).1 = .ok payload)
    (hraw : Text.trimSpace raw = raw) (hmapped : Mapped a name) : ∃ v, Derived sprint a payload name v := by
  -- otherwise the value that the client sent is still there
  by_contra hnone
  have hnil : settings sprint payload name a.claimsToHeaders.rows = [] :=
    List.eq_nil_iff_forall_not_mem.2 fun v hv => hnone ⟨v, hv⟩
  have hsent : Passes sprint a raw _ _ := passes_bearer hcheck hraw (Header.put .empty name ['x']) (List.Perm.refl _)
  rcases hfrom.derived _ _ hsent name hmapped with hgone | ⟨v, hv, -⟩
  · rw [values_applyClaimHeaders, hnil] at hgone
    simp only [Header.put, Header.values, FinMap.get?_set, List.getLast?_nil, Option.map_none,
      Option.getD_none] at hgone
    split at hgone
    · cases hgone
    · rw [if_pos trivial] at hgone
      cases hgone
  · exact hnone ⟨v, hv⟩

theorem FromToken.derived_unique (hfrom : FromToken sprint a raw payload)
    (hcheck : (check a clock cache raw).1 = .ok payload)
    (hraw : Text.trimSpace raw = raw) (hmapped : Mapped a name) (hu : Derived sprint a payload name u)
    (hv : Derived sprint a payload name v) : u = v := by
  -- the two rows can come last in turn
  obtain ⟨row, hrow, hname, hvalue⟩ := mem_settings.1 hu
  obtain ⟨row', hrow', hname', hvalue'⟩ := mem_settings.1 hv
  obtain ⟨order₁, hperm₁, hlast₁⟩ := getLast?_settings_last hrow hname hvalue
  obtain ⟨order₂, hperm₂, hlast₂⟩ := getLast?_settings_last hrow' hname' hvalue'
  have hsame := hfrom.same _ _ _ _ (passes_bearer hcheck hraw .empty hperm₁) (passes_bearer hcheck hraw .empty hperm₂)
    (fun _ _ => rfl) name hmapped
  rw [values_applyClaimHeaders, values_applyClaimHeaders, hlast₁, hlast₂] at hsame
  exact (List.cons.inj hsame).1

theorem fromToken_of_unique (hcheck : (check a clock cache raw).1 = .ok payload)
    (hone : ∀ name, Mapped a name → ∃ v, ∀ u, Derived sprint a payload name u ↔ u = v) :
      FromToken sprint a raw payload where
  derived header header' hpass name hmapped := by
    obtain ⟨v, hv⟩ := hone name hmapped
    obtain ⟨order, hperm, hval⟩ := values_of_passes hcheck hpass
    refine Or.inr ⟨v, (hv v).2 rfl, ?_⟩
    rw [hval, getLast?_settings hperm hv]
    rfl
  same header₁ header₁' header₂ header₂' hpass₁ hpass₂ _ name hmapped := by
    obtain ⟨v, hv⟩ := hone name hmapped
    obtain ⟨order₁, hperm₁, hval₁⟩ := values_of_passes hcheck hpass₁
    obtain ⟨order₂, hperm₂, hval₂⟩ := values_of_passes hcheck hpass₂
    rw [hval₁, hval₂, getLast?_settings hperm₁ hv, getLast?_settings hperm₂ hv]
    rfl

/-- A plugin that takes every signature. -/
def mapping (claimsToHeaders : List (Text × Text)) : AuthJWT :=
  newAuthJWT ⟨⟨fun _ _ => true, fun _ => none, fun _ => none, none⟩, [], [], [], claimsToHeaders, 0, false⟩

/-- The claims of this token are `exp` and `sub`, which is alice. -/
def aliceToken : Text := "eyJhbGciOiJIUzI1NiJ9.eyJleHAiOjQxMDI0NDQ4MDAsInN1YiI6ImFsaWNlIn0.c2ln".toList

def aliceClaims : AnyMap := ((Token.parse aliceToken).map Token.payload).getD .empty

def aliceHeader : Header := .put .empty authorization (bearer aliceToken)

/-- `Authenticate` for alice at the epoch, with an empty replay cache. -/
def authenticateAlice (a : AuthJWT) (header : Header) : Except PluginError (AnyMap × Header) :=
  (authenticate (fun _ => []) a ⟨0, 0, 0, 0⟩ (newJTIReplayCacheWithSize 4) a.claimsToHeaders.rows header).1

def userOnly : List (Text × Text) := [("sub".toList, "x-user".toList)]

theorem settings_userOnly : settings (fun _ => []) aliceClaims "X-User".toList (mapping userOnly).claimsToHeaders.rows =
    ["alice".toList] ∧ (mapping userOnly).claimsToHeaders.rows.map (fun row => Header.canonicalKey row.2) =
      ["X-User".toList] ∧
    ((check (mapping userOnly) ⟨0, 0, 0, 0⟩ (newJTIReplayCacheWithSize 4) (extractBearerToken aliceHeader)).1).isOk =
      true ∧
    extractBearerToken aliceHeader = aliceToken := by
  decide +kernel

theorem check_of_isOk (h : (check a clock cache raw).1.isOk = true) :
    (check a clock cache raw).1 = .ok (((Token.parse raw).map Token.payload).getD .empty) := by
  cases hcheck : (check a clock cache raw).1 with
  | error err => rw [hcheck] at h; cases h
  | ok payload => rw [check_payload hcheck]; rfl

/-- The claims `sub` and `role` in headers. -/
def userAndRole : List (Text × Text) := [("sub".toList, "X-User".toList), ("role".toList, "X-Role".toList)]

end Plugin
