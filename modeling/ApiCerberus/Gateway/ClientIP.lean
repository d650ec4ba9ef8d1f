import ApiCerberus.Lib.Header
import ApiCerberus.Lib.Ip

/-!
# The address of the client

`internal/pkg/netutil/clientip.go`. A proxy appends the address of its peer to `X-Forwarded-For`, as an item or as a
line of its own. Whatever is left of the address that the last trusted proxy saw, the client may have written itself.
`extractClientIP` asks `Header.Get` for the list, which gives the first line only: behind proxies that add lines, the
client chooses its address (`address_forged`). If the other lines have nothing but trusted proxies, the result is the
right-most item that is not one (`extractClientIP_unforged_iff`).
-/

namespace Gateway

open Ip

/-! ## Trusted proxies -/

/-- The network of one item of the list. -/
def proxyNetwork (item : Text) : Option Network :=
  let p := Text.trimSpace item
  if p = [] then none
  else if p.contains '/' then parseCIDR p
  else
    match parseIP p with
    | none => none
    | some ip => if (to4 ip).isSome then parseCIDR (p ++ "/32".toList) else parseCIDR (p ++ "/128".toList)

/-- Entries that are neither networks nor addresses are dropped. -/
def setTrustedProxies (proxies : List Text) : List Network := proxies.filterMap proxyNetwork

def isTrustedProxy (trusted : List Network) (ip : Text) : Bool :=
  match parseIP ip with
  | none => false
  | some ip => trusted.any fun cidr => cidr.contains ip

/-- An IPv4 address in the spelling of IPv6 is filed with a mask for IPv4: it trusts `::/32`, and not the address. -/
example : proxyNetwork "::ffff:10.0.0.1".toList = parseCIDR "::/32".toList ∧
    isTrustedProxy (setTrustedProxies ["::ffff:10.0.0.1".toList]) "10.0.0.1".toList = false := by
  decide +kernel

/-! ## The client -/

def xForwardedFor : Text := "X-Forwarded-For".toList
def xRealIP : Text := "X-Real-Ip".toList

/-- `RemoteAddr` is written by the server, so a `]` is not its first character. -/
def remoteAddrIP (remoteAddr : Text) : Text :=
  if remoteAddr.contains ':' then
    let host := (remoteAddr.reverse.dropWhile (· ≠ ':')).drop 1 |>.reverse
    if remoteAddr.contains '[' && host.contains ']' then (remoteAddr.takeWhile (· ≠ ']')).drop 1
    else Text.trim (fun c => c = '[' || c = ']') host
  else Text.trim (fun c => c = '[' || c = ']') remoteAddr

/-- The walk from the right over the items of `X-Forwarded-For`. -/
def walkLeft (trusted : List Network) : List Text → Option Text
  | [] => none
  | entry :: entries =>
    let ip := Text.trimSpace entry
    if ip = [] then walkLeft trusted entries
    else if isTrustedProxy trusted ip then walkLeft trusted entries
    else some ip

/-- Headers count only if the peer is a trusted proxy. -/
def extractClientIP (trusted : List Network) (remoteAddr : Text) (header : Header) : Text :=
  let remoteIP := remoteAddrIP remoteAddr
  if trusted = [] then remoteIP
  else if !isTrustedProxy trusted remoteIP then remoteIP
  else
    let xff := header.get xForwardedFor
    match if xff = [] then none else walkLeft trusted (Text.split ',' xff).reverse with
    | some ip => ip
    | none =>
      let xri := Text.trimSpace (header.get xRealIP)
      if (parseIP xri).isSome then xri else remoteIP

/-! ## What a client can write -/

/-- The items of all lines in their order, without the blank ones. -/
def hops (lines : List Text) : List Text := ((lines.flatMap (Text.split ',')).map Text.trimSpace).filter (· ≠ [])

/-- An address that is not that of a trusted proxy. -/
def IsClient (trusted : List Network) (hop : Text) : Prop :=
  (parseIP hop).isSome = true ∧ isTrustedProxy trusted hop = false

instance (trusted : List Network) (hop : Text) : Decidable (IsClient trusted hop) := inferInstanceAs (Decidable (_ ∧ _))

/-- The header with these lines of `X-Forwarded-For`: some lines, one with `item`, and more lines. -/
def forwarded (header : Header) (before left : List Text) (item : Text) (right after : List Text) : Header :=
  header.set xForwardedFor (before ++ Text.join ',' (left ++ item :: right) :: after)

variable {trusted : List Network}

theorem walkLeft_eq_find? (entries : List Text) :
    walkLeft trusted entries =
      ((entries.map Text.trimSpace).filter (· ≠ [])).find? fun ip => !isTrustedProxy trusted ip := by
  induction entries with
  | nil => rfl
  | cons entry entries ih =>
    rw [walkLeft, ih]
    by_cases hblank : Text.trimSpace entry = []
    · simp [hblank]
    · by_cases htrust : isTrustedProxy trusted (Text.trimSpace entry) = true <;> simp [hblank, htrust]

theorem walkLeft_append (l l' : List Text) : walkLeft trusted (l ++ l') =
    (walkLeft trusted l).or (walkLeft trusted l') := by
  simp [walkLeft_eq_find?]

theorem walkLeft_client {item : Text} (h : IsClient trusted (Text.trimSpace item)) (l : List Text) :
    walkLeft trusted (item :: l) = some (Text.trimSpace item) := by
  have hne : Text.trimSpace item ≠ [] := fun hnil => by
    rw [hnil] at h
    exact absurd h.1 (by decide)
  simp [walkLeft, hne, h.2]

/-- The walk over a line begins with the items right of `item`. -/
theorem walkLeft_join (trusted : List Network) {left right : List Text} {item : Text} (hleft : ∀ t ∈ left, ',' ∉ t)
    (hright : ∀ t ∈ item :: right, ',' ∉ t) :
    walkLeft trusted (Text.split ',' (Text.join ',' (left ++ item :: right))).reverse =
      (walkLeft trusted right.reverse).or (walkLeft trusted (item :: left.reverse)) := by
  have hitems : ∀ t ∈ left ++ item :: right, ',' ∉ t := fun t ht => (List.mem_append.1 ht).elim (hleft t) (hright t)
  rw [Text.split_join hitems (by simp), ← walkLeft_append]
  simp

theorem hops_items {items : List Text} (h : ∀ t ∈ items, ',' ∉ t) :
    hops items = (items.map Text.trimSpace).filter (· ≠ []) := by
  have hsplit : items.flatMap (Text.split ',') = items := by
    rw [List.flatMap_congr (g := fun t => [t]) fun t ht => ?_, List.flatMap_singleton']
    simpa using Text.split_join (List.forall_mem_singleton.2 (h t ht)) (by simp)
  rw [hops, hsplit]

/-- What the walk finds among the items right of `item` is one of them that is not trusted. -/
theorem walkLeft_right (trusted : List Network) {right : List Text} (h : ∀ t ∈ right, ',' ∉ t) :
    (∀ hop ∈ hops right, isTrustedProxy trusted hop = true) ∧ walkLeft trusted right.reverse = none ∨
      ∃ hop ∈ hops right, isTrustedProxy trusted hop = false ∧ walkLeft trusted right.reverse = some hop := by
  rw [walkLeft_eq_find?, List.map_reverse, List.filter_reverse, ← hops_items h]
  cases hfind : (hops right).reverse.find? fun ip => !isTrustedProxy trusted ip with
  | none =>
    refine .inl ⟨fun hop hhop => ?_, rfl⟩
    simpa using List.find?_eq_none.1 hfind hop (List.mem_reverse.2 hhop)
  | some hop =>
    exact .inr ⟨hop, List.mem_reverse.1 (List.mem_of_find?_eq_some hfind), by simpa using List.find?_some hfind, rfl⟩

theorem get_forwarded (header : Header) (left : List Text) (item : Text) (right after : List Text) :
    (forwarded header [] left item right after).get xForwardedFor = Text.join ',' (left ++ item :: right) := by
  rw [forwarded, Header.get, FinMap.get?_set, if_pos rfl]
  rfl

theorem extractClientIP_of_walk {remoteAddr : Text} {header : Header} {a : Text}
    (hpeer : isTrustedProxy trusted (remoteAddrIP remoteAddr) = true)
    (hwalk : walkLeft trusted (Text.split ',' (header.get xForwardedFor)).reverse = some a) :
    extractClientIP trusted remoteAddr header = a := by
  have hsome : trusted ≠ [] := by
    rintro rfl
    unfold isTrustedProxy at hpeer
    split at hpeer <;> cases hpeer
  have hxff : header.get xForwardedFor ≠ [] := by
    intro hnil
    rw [hnil] at hwalk
    cases hwalk
  simp only [extractClientIP, if_neg hsome, hpeer, if_neg hxff, hwalk, Bool.not_true, Bool.false_eq_true, if_false]

/-- A line before the one of the proxies: the result is what the client has written there. -/
theorem extractClientIP_forged {remoteAddr : Text} (hpeer : isTrustedProxy trusted (remoteAddrIP remoteAddr) = true)
    (header : Header) (n : Nat) (item : Text) (right after : List Text) :
    extractClientIP trusted remoteAddr (forwarded header (List.replicate (n + 1) ['x']) [] item right after) =
      ['x'] := by
  refine extractClientIP_of_walk hpeer ?_
  rw [forwarded, Header.get, FinMap.get?_set, if_pos rfl]
  rfl

/-- **Nobody chooses the address but the last proxy that is trusted**, iff that proxy's item is in the first line of
`X-Forwarded-For` and is followed there by trusted proxies only: `item` is the right-most address that is not that of a
trusted proxy, there are `n` lines before its own, and what stands left of it may be anything. A peer that is not
trusted is the client, whatever the headers say. -/
theorem extractClientIP_unforged_iff (proxies : List Text) (remoteAddr : Text) (header : Header) :
    (isTrustedProxy (setTrustedProxies proxies) (remoteAddrIP remoteAddr) = false →
      extractClientIP (setTrustedProxies proxies) remoteAddr header = remoteAddrIP remoteAddr) ∧
    (isTrustedProxy (setTrustedProxies proxies) (remoteAddrIP remoteAddr) = true →
      ∀ (n : Nat) (item : Text) (right after : List Text), (∀ t ∈ item :: right, ',' ∉ t) →
        IsClient (setTrustedProxies proxies) (Text.trimSpace item) →
          (∀ hop ∈ hops (right ++ after), ¬ IsClient (setTrustedProxies proxies) hop) →
        ((∀ before left, before.length = n → (∀ t ∈ left, ',' ∉ t) →
            extractClientIP (setTrustedProxies proxies) remoteAddr (forwarded header before left item right after) =
              Text.trimSpace item) ↔
          n = 0 ∧ ∀ hop ∈ hops right, isTrustedProxy (setTrustedProxies proxies) hop = true)) := by
  constructor
  · intro hpeer
    simp [extractClientIP, hpeer]
  · intro hpeer n item right after hitems hclient hlast
    have hright : ∀ t ∈ right, ',' ∉ t := fun t ht => hitems t (List.mem_cons_of_mem _ ht)
    have hwalk := fun (left : List Text) (hleft : ∀ t ∈ left, ',' ∉ t) =>
      walkLeft_join (setTrustedProxies proxies) hleft hitems
    constructor
    · intro h
      obtain rfl : n = 0 := by
        by_contra hn
        obtain ⟨n, rfl⟩ := Nat.exists_eq_succ_of_ne_zero hn
        have hforged := extractClientIP_forged hpeer header n item right after
        rw [h _ [] (List.length_replicate ..) (by simp)] at hforged
        rw [hforged] at hclient
        exact absurd hclient.1 (by decide)
      refine ⟨rfl, ?_⟩
      rcases walkLeft_right (setTrustedProxies proxies) hright with ⟨htrusted, -⟩ | ⟨hop, hmem, huntrusted, hfound⟩
      · exact htrusted
      · have hother : extractClientIP (setTrustedProxies proxies) remoteAddr
            (forwarded header [] [] item right after) = hop := by
          refine extractClientIP_of_walk hpeer ?_
          rw [get_forwarded, hwalk [] (by simp), hfound]
          rfl
        rw [h [] [] rfl (by simp)] at hother
        refine absurd (hother ▸ hclient) (hlast hop ?_)
        rw [hops, List.flatMap_append, List.map_append, List.filter_append]
        exact List.mem_append_left _ hmem
    · rintro ⟨rfl, htrusted⟩ before left hn hleft
      rw [List.length_eq_zero_iff.1 hn]
      refine extractClientIP_of_walk hpeer ?_
      rw [get_forwarded, hwalk left hleft]
      rcases walkLeft_right (setTrustedProxies proxies) hright with ⟨-, hnone⟩ | ⟨hop, hmem, huntrusted, -⟩
      · rw [hnone, Option.none_or, walkLeft_client hclient]
      · rw [htrusted hop hmem] at huntrusted
        cases huntrusted

/-- A load balancer in `10.0.0.0/8`, and what a client may send through it in one line. -/
theorem extractClientIP_unforged_iff_oneLine : ∀ before left : List Text, before.length = 0 → (∀ t ∈ left, ',' ∉ t) →
    extractClientIP (setTrustedProxies ["10.0.0.0/8".toList]) "10.0.0.1:4711".toList
      (forwarded .empty before left " 203.0.113.7 ".toList ["10.0.0.2".toList] []) = "203.0.113.7".toList :=
  (((extractClientIP_unforged_iff ["10.0.0.0/8".toList] "10.0.0.1:4711".toList .empty).2
    (by decide +kernel) 0 " 203.0.113.7 ".toList
    ["10.0.0.2".toList] [] (by decide) (by decide +kernel) (by decide +kernel)).2 ⟨rfl, by decide +kernel⟩)

/-- The same client, behind a load balancer that adds a line. -/
def twoLineHeader (forged : Text) : Header :=
  FinMap.empty.set xForwardedFor [forged, "203.0.113.7, 10.0.0.2".toList]

/-- The client writes the first line, and with it its address. -/
theorem address_forged :
    (["6.6.6.6", "127.0.0.1"].map fun forged =>
      (hops ((twoLineHeader forged.toList).values xForwardedFor),
        extractClientIP (setTrustedProxies ["10.0.0.0/8".toList]) "10.0.0.1:4711".toList
          (twoLineHeader forged.toList))) =
      [(["6.6.6.6".toList, "203.0.113.7".toList, "10.0.0.2".toList], "6.6.6.6".toList),
        (["127.0.0.1".toList, "203.0.113.7".toList, "10.0.0.2".toList], "127.0.0.1".toList)] := by
  decide +kernel

end Gateway
