import Mathlib.Data.List.MinMax
import Mathlib.Order.Nat
import ApiCerberus.Gateway.Lookup

/-!
# Stripping twice

`Router.Match` strips the path of the request (`applyStripPath`), and `Proxy.Do` strips the path it finds in
the request with the same patterns (`stripPathForProxy`). In terms of segments each of them drops as many as
some pattern of the route consumes (`consumedBy`), the second one from what the first one left. So the second
strip has to find nothing, and `/api/api/users` under `/api/*` loses both its first segments.
-/

namespace Gateway

variable {χ : Type} {segs patterns : List Text} {route : Route χ}

/-! ## Prefixes as numbers of segments -/

theorem consumedSegments_eq_take : ∀ {ps rs c : List Text}, consumedSegments ps rs = some c → c = rs.take c.length
  | [], [], c, h => by
    cases h
    rfl
  | [], _ :: _, c, h => by cases h
  | p :: ps, rs, c, h => by
    unfold consumedSegments at h
    split at h
    · cases h
      rfl
    · cases rs with
      | nil => cases h
      | cons r rs =>
        simp only at h
        split at h
        · obtain ⟨c', hc', rfl⟩ := Option.map_eq_some_iff.1 h
          rw [List.length_cons, List.take_succ_cons, ← consumedSegments_eq_take hc']
        · cases h

theorem consumedSegments_length {ps rs c : List Text} (h : consumedSegments ps rs = some c) : c.length ≤ rs.length := by
  rw [consumedSegments_eq_take h, List.length_take]
  exact min_le_right _ _

/-- The number of segments that a pattern of the route consumes, unless it is a regular expression. -/
def consumption (segs : List Text) (pattern : Text) : Option Nat :=
  if classifyPath (normalizePath pattern) = .regex then none
  else (consumedSegments (splitPath (normalizePath pattern)) segs).map List.length

/-- The number of segments that a route strips. -/
def consumedBy (patterns segs : List Text) : Nat :=
  (patterns.map fun pattern => (consumption segs pattern).getD 0).foldr max 0

variable {longest : Text} {k : Nat}

theorem consumption_le {pattern : Text} (h : consumption segs pattern = some k) : k ≤ segs.length := by
  unfold consumption at h
  split at h
  · cases h
  · obtain ⟨c, hc, rfl⟩ := Option.map_eq_some_iff.1 h
    exact consumedSegments_length hc

theorem consumedBy_le (patterns segs : List Text) : consumedBy patterns segs ≤ segs.length := by
  refine List.max_le_of_forall_le (α := ℕ) _ _ fun k hk => ?_
  obtain ⟨p, -, rfl⟩ := List.mem_map.1 hk
  cases hp : consumption segs p with
  | none => exact Nat.zero_le _
  | some k => exact consumption_le hp

/-- More segments make a longer text. -/
theorem byteLen_render_lt (h : ∀ seg ∈ segs, IsSegment seg) {j k : Nat} (hk : k ≤ segs.length) (hjk : j < k) :
    Text.byteLen (render (segs.take j)) < Text.byteLen (render (segs.take k)) := by
  have hpos : ∀ t : Text, t ≠ [] → 0 < Text.byteLen t := by
    intro t ht
    obtain ⟨c, t, rfl⟩ := List.exists_cons_of_ne_nil ht
    have := c.utf8Size_pos
    rw [Text.byteLen]
    omega
  -- the longer prefix is the shorter one followed by at least one segment
  obtain ⟨rest, hrest⟩ : segs.take j <+: segs.take k := List.take_prefix_take_left hjk.le
  have hne : rest ≠ [] := by
    rintro rfl
    have := congrArg List.length hrest
    simp only [List.append_nil, List.length_take] at this
    omega
  have hseg : rest.head hne ≠ [] := (h _ (List.mem_of_mem_take (by
    rw [← hrest]
    exact List.mem_append_right _ (List.head_mem hne)))).ne_nil
  have hjoin : 0 < Text.byteLen (Text.join '/' rest) := by
    refine hpos _ ?_
    obtain ⟨seg, rest, rfl⟩ := List.exists_cons_of_ne_nil hne
    cases rest <;> simp_all
  rw [← hrest]
  unfold render
  cases hs : segs.take j with
  | nil =>
    simp only [Text.byteLen, List.nil_append, Text.join_nil] at hjoin ⊢
    omega
  | cons seg front =>
    rw [Text.join_append (List.cons_ne_nil _ _) hne]
    simp only [Text.byteLen, Text.byteLen_append] at hjoin ⊢
    omega

/-- The loop of `bestStripPrefix` has found a prefix of `k` segments, or nothing. -/
def Longest (segs : List Text) (longest : Text) (k : Nat) : Prop :=
  (longest = [] ∧ k = 0) ∨ (longest = render (segs.take k) ∧ k ≤ segs.length)

/-- The longer of two prefixes is the one with more segments. -/
theorem Longest.keep (h : ∀ seg ∈ segs, IsSegment seg) {j k : Nat} (hk : Longest segs longest k)
    (hj : j ≤ segs.length) :
    Longest segs (if Text.byteLen longest < Text.byteLen (render (segs.take j)) then render (segs.take j) else longest)
      (max k j) := by
  rcases hk with ⟨rfl, rfl⟩ | ⟨rfl, hk⟩
  · have hpos : Text.byteLen [] < Text.byteLen (render (segs.take j)) := by
      simp only [Text.byteLen, render]
      have := Char.utf8Size_pos '/'
      omega
    rw [if_pos hpos, Nat.zero_max]
    exact Or.inr ⟨rfl, hj⟩
  · rcases lt_trichotomy k j with hlt | rfl | hlt
    · rw [if_pos (byteLen_render_lt h hj hlt), max_eq_right hlt.le]
      exact Or.inr ⟨rfl, hj⟩
    · rw [if_neg (lt_irrefl _), max_self]
      exact Or.inr ⟨rfl, hk⟩
    · rw [if_neg (byteLen_render_lt h hk hlt).not_gt, max_eq_left hlt.le]
      exact Or.inr ⟨rfl, hk⟩

theorem Longest.step (h : ∀ seg ∈ segs, IsSegment seg) (hk : Longest segs longest k)
    (pattern : Text) :
    Longest segs (keepLongest (render segs) longest pattern) (max k ((consumption segs pattern).getD 0)) := by
  unfold keepLongest consumption consumedPrefix
  rw [splitPath_render h]
  split
  · simpa using hk
  · cases hc : consumedSegments (splitPath (normalizePath pattern)) segs with
    | none => simpa using hk
    | some c =>
      have hkeep := hk.keep h (consumedSegments_length hc)
      rwa [← consumedSegments_eq_take hc] at hkeep

theorem Longest.fold (h : ∀ seg ∈ segs, IsSegment seg) (hk : Longest segs longest k)
    (patterns : List Text) :
    Longest segs (patterns.foldl (keepLongest (render segs)) longest) (max k (consumedBy patterns segs)) := by
  induction patterns generalizing longest k with
  | nil => simpa [consumedBy] using hk
  | cons pattern patterns ih =>
    have hnext := ih (hk.step h pattern)
    rwa [max_assoc] at hnext

theorem bestStripPrefix_cases (h : ∀ seg ∈ segs, IsSegment seg) (patterns : List Text) :
    (bestStripPrefix patterns (render segs) = none ∧ consumedBy patterns segs = 0) ∨
      bestStripPrefix patterns (render segs) = some (render (segs.take (consumedBy patterns segs))) := by
  have hend := Longest.fold h (Or.inl ⟨rfl, rfl⟩ : Longest segs [] 0) patterns
  rw [Nat.zero_max] at hend
  unfold bestStripPrefix
  rw [normalizePath_render h]
  rcases hend with ⟨hnil, hzero⟩ | ⟨hpre, -⟩
  · exact Or.inl ⟨if_pos hnil, hzero⟩
  · refine Or.inr ?_
    have hne : render (segs.take (consumedBy patterns segs)) ≠ [] := List.cons_ne_nil _ _
    simp only [hpre, hne, if_false]

/-! ## The two strips -/

/-- Taking the first `k` segments off a path. -/
theorem stripped_render (h : ∀ seg ∈ segs, IsSegment seg) (hk : 0 < k) (hlen : k ≤ segs.length) :
    stripped (render segs) (render (segs.take k)) = render (segs.drop k) := by
  have hne : segs.take k ≠ [] := by
    rw [Ne, List.take_eq_nil_iff]
    rintro (rfl | rfl)
    · exact lt_irrefl _ hk
    · exact absurd hlen (not_le.2 hk)
  cases hd : segs.drop k with
  | nil =>
    have hall : segs.take k = segs := by
      have := List.take_append_drop k segs
      rwa [hd, List.append_nil] at this
    have htrim : Text.trimPrefix (render segs) (render segs) = [] := by
      have := Text.trimPrefix_append (render segs) []
      rwa [List.append_nil] at this
    rw [hall, stripped, htrim]
    rfl
  | cons seg rest =>
    have hsplit : render segs = render (segs.take k) ++ render (seg :: rest) := by
      conv_lhs => rw [← List.take_append_drop k segs, hd]
      unfold render
      rw [Text.join_append hne (List.cons_ne_nil _ _), List.cons_append]
    rw [hsplit, stripped, Text.trimPrefix_append]
    rfl

theorem stripPathForProxy_render (h : ∀ seg ∈ segs, IsSegment seg) (route : Route χ) :
    stripPathForProxy route (render segs) = render (segs.drop (consumedBy route.paths segs)) := by
  unfold stripPathForProxy
  rcases bestStripPrefix_cases h route.paths with ⟨hnone, hzero⟩ | hsome
  · rw [hnone, hzero, List.drop_zero]
  · rw [hsome]
    simp only
    split
    · rename_i hroot
      rcases Nat.eq_zero_or_pos (consumedBy route.paths segs) with hzero | hpos
      · rw [hzero, List.drop_zero]
      · have hne : segs.take (consumedBy route.paths segs) ≠ [] := by
          intro hnil
          have := congrArg List.length hnil
          simp only [List.length_take, List.length_nil] at this
          have := consumedBy_le route.paths segs
          omega
        exact absurd hroot (render_ne_root (fun seg hs => h seg (List.mem_of_mem_take hs)) hne)
    · rename_i hroot
      refine stripped_render h (Nat.pos_of_ne_zero fun hzero => hroot ?_) (consumedBy_le _ _)
      rw [hzero]
      rfl

theorem normalizePath_applyStripPath (hs : route.stripPath = true) (urlPath : Text) :
    normalizePath (applyStripPath route urlPath (normalizePath urlPath)) =
      stripPathForProxy route (normalizePath urlPath) := by
  have h := isSegment_segments urlPath
  have hstrip := stripPathForProxy_render h route
  rw [← normalizePath_eq] at hstrip
  have hnorm : normalizePath (stripPathForProxy route (normalizePath urlPath)) =
      stripPathForProxy route (normalizePath urlPath) := by
    rw [hstrip, normalizePath_render fun seg hseg => h seg (List.mem_of_mem_drop hseg)]
  have hidem : normalizePath (normalizePath urlPath) = normalizePath urlPath := by
    rw [normalizePath_eq urlPath, normalizePath_render h]
  unfold applyStripPath
  unfold stripPathForProxy at hnorm ⊢
  rw [if_pos hs, hidem]
  split
  · rfl
  · rename_i hbest
    rw [hbest] at hnorm
    simp only at hnorm
    split
    · rfl
    · rename_i hroot
      rwa [if_neg hroot] at hnorm

/-- The path that goes upstream has lost what both strips consume. -/
theorem upstreamPath_applyStripPath (hs : route.stripPath = true) (urlPath : Text) :
    upstreamPath route (applyStripPath route urlPath (normalizePath urlPath)) =
      render ((splitPath urlPath).drop (consumedBy route.paths (splitPath urlPath) +
        consumedBy route.paths ((splitPath urlPath).drop (consumedBy route.paths (splitPath urlPath))))) := by
  have h := isSegment_segments urlPath
  unfold upstreamPath
  rw [normalizePath_applyStripPath hs, if_pos hs, normalizePath_eq, splitPath_eq, stripPathForProxy_render h,
    stripPathForProxy_render fun seg hseg => h seg (List.mem_of_mem_drop hseg), List.drop_drop]

/-! ## Stripping once -/

/-- The segments that a matching pattern consumes: all but those of a wildcard. -/
def literalCount (pattern : List Label) : Nat := (pattern.filter (· ≠ .wild)).length

/-- The number of segments that the longest matching pattern of a route consumes. -/
def longestMatch (patterns segs : List Text) : Nat :=
  ((patterns.filter fun p => classifyPath (normalizePath p) ≠ .regex && fits (labels (splitPath p)) segs).map
    fun p => literalCount (labels (splitPath p))).foldr max 0

/-- What fits a pattern loses its literal segments. -/
theorem consumedSegments_of_fits : ∀ {ps rs : List Text}, fits (labels ps) rs = true →
    ∃ c, consumedSegments ps rs = some c ∧ c.length = literalCount (labels ps)
  | [], [], _ => ⟨[], rfl, rfl⟩
  | [], _ :: _, h => by cases h
  | p :: ps, rs, h => by
    unfold consumedSegments
    by_cases hstar : p = ['*']
    · subst hstar
      have hps : ps = [] := by simpa [labels, labelOf, fits] using h
      subst hps
      exact ⟨[], rfl, rfl⟩
    · rw [if_neg hstar]
      have hl : labelOf p ≠ .wild := by
        unfold labelOf
        rw [if_neg hstar]
        split <;> simp
      cases rs with
      | nil =>
        rcases fits_nil.1 h with h | h
        · cases h
        · exact absurd (List.cons.inj h).1 hl
      | cons r rs =>
        have hrest : fits (labels ps) rs = true ∧ (Text.hasPrefix p [':'] || decide (p = r)) = true := by
          unfold labels labelOf at h
          rw [List.map_cons, if_neg hstar] at h
          split at h
          · rename_i hpar
            exact ⟨h, by simp [hpar]⟩
          · simp only [fits, Bool.and_eq_true, decide_eq_true_eq] at h
            exact ⟨h.2, by simp [h.1]⟩
        obtain ⟨c, hc, hlen⟩ := consumedSegments_of_fits hrest.1
        refine ⟨r :: c, by simp [hrest.2, hc], ?_⟩
        rw [List.length_cons, hlen]
        simp [literalCount, labels, hl]

theorem consumption_of_fits {p : Text} (hre : classifyPath (normalizePath p) ≠ .regex)
    (hf : fits (labels (splitPath p)) segs = true) :
      consumption segs p = some (literalCount (labels (splitPath p))) := by
  obtain ⟨c, hc, hlen⟩ := consumedSegments_of_fits hf
  have hsplit : splitPath (normalizePath p) = splitPath p := by
    rw [normalizePath_eq, splitPath_render (isSegment_segments p), splitPath_eq]
  rw [consumption, if_neg hre, hsplit, hc, Option.map_some, hlen]

theorem consumption_le_consumedBy {p : Text} (hp : p ∈ patterns) (hk : consumption segs p = some k) :
    k ≤ consumedBy patterns segs :=
  List.le_max_of_le (α := ℕ) (List.mem_map.2 ⟨p, hp, by rw [hk]; rfl⟩) (le_refl k)

theorem longestMatch_le (patterns segs : List Text) : longestMatch patterns segs ≤ consumedBy patterns segs := by
  refine List.max_le_of_forall_le (α := ℕ) _ _ fun k hk => ?_
  obtain ⟨p, hp, rfl⟩ := List.mem_map.1 hk
  simp only [List.mem_filter, Bool.and_eq_true, decide_eq_true_eq] at hp
  exact consumption_le_consumedBy hp.1 (consumption_of_fits hp.2.1 hp.2.2)

theorem consumedBy_le_iff {b : Nat} :
    consumedBy patterns segs ≤ b ↔ ∀ p ∈ patterns, ∀ k ∈ consumption segs p, k ≤ b := by
  constructor
  · intro h p hp k hk
    exact (consumption_le_consumedBy hp hk).trans h
  · intro h
    refine List.max_le_of_forall_le (α := ℕ) _ _ fun k hk => ?_
    obtain ⟨p, hp, rfl⟩ := List.mem_map.1 hk
    cases hc : consumption segs p with
    | none => exact Nat.zero_le _
    | some k => exact h p hp k hc

/-- **The prefix is stripped exactly once** iff no pattern of the route consumes more of the request than the
longest matching one, and none consumes anything of what that one leaves. -/
theorem stripped_once {r : Router χ} {host method urlPath : Text} {m : Matched χ}
    (hm : r.match host method urlPath = some m)
    (hs : m.route.stripPath = true) :
    upstreamPath m.route m.path =
        render ((splitPath urlPath).drop (longestMatch m.route.paths (splitPath urlPath))) ↔
      (∀ p ∈ m.route.paths, ∀ k ∈ consumption (splitPath urlPath) p,
          k ≤ longestMatch m.route.paths (splitPath urlPath)) ∧
        ∀ p ∈ m.route.paths, ∀ k ∈ consumption
          ((splitPath urlPath).drop (longestMatch m.route.paths (splitPath urlPath))) p, k = 0 := by
  have hpath : m.path = applyStripPath m.route urlPath (normalizePath urlPath) := by
    unfold Router.match at hm
    simp only at hm
    split at hm
    · cases hm
    · split at hm
      · cases hm
      · split at hm
        · cases hm
        · split at hm
          · cases hm
            rfl
          · obtain ⟨c, -, rfl⟩ := Option.map_eq_some_iff.1 hm
            rfl
  have hseg : ∀ seg ∈ splitPath urlPath, IsSegment seg := by
    rw [splitPath_eq]
    exact isSegment_segments urlPath
  set segs := splitPath urlPath with hsegs
  have hle := longestMatch_le m.route.paths segs
  have hk₁ := consumedBy_le m.route.paths segs
  rw [hpath, upstreamPath_applyStripPath hs, ← hsegs, ← consumedBy_le_iff]
  constructor
  · intro h
    have hdrop := congrArg splitPath h
    rw [splitPath_render fun seg hs => hseg seg (List.mem_of_mem_drop hs),
      splitPath_render fun seg hs => hseg seg (List.mem_of_mem_drop hs)] at hdrop
    have hk₂ := consumedBy_le m.route.paths (segs.drop (consumedBy m.route.paths segs))
    have hlen := congrArg List.length hdrop
    simp only [List.length_drop] at hlen hk₂
    have hfirst : consumedBy m.route.paths segs = longestMatch m.route.paths segs := by omega
    refine ⟨hfirst.le, fun p hp k hk => ?_⟩
    have := consumption_le_consumedBy hp hk
    rw [hfirst] at hlen hk₂
    omega
  · rintro ⟨hfirst, hsecond⟩
    have hfirst : consumedBy m.route.paths segs = longestMatch m.route.paths segs := le_antisymm hfirst hle
    have hzero : consumedBy m.route.paths (segs.drop (longestMatch m.route.paths segs)) = 0 :=
      Nat.le_zero.1 (consumedBy_le_iff.2 fun p hp k hk => (hsecond p hp k hk).le)
    rw [hfirst, hzero, Nat.add_zero]

/-! ## A prefix that comes twice -/

/-- A route that strips `/api`. -/
def apiRoute : Route Unit where
  id := "r1".toList
  name := "strip-api".toList
  service := "users".toList
  hosts := []
  paths := ["/api/*".toList]
  methods := []
  stripPath := true
  priority := 0
  plugins := []

def usersService : Service := ⟨"s1".toList, "users".toList, "http".toList, "up".toList, 0⟩

/-- The router of `apiRoute`; it has no regular expressions. -/
def apiRouter : Except RebuildError (Router Unit) :=
  Router.rebuild (fun _ => .ok fun _ => false) [apiRoute] [usersService]

theorem stripped_once_users :
    ∃ r m, apiRouter = .ok r ∧ r.match [] "GET".toList "/api/v1/users".toList = some m ∧
      upstreamPath m.route m.path = "/v1/users".toList := by
  have hrun : (apiRouter.toOption.bind fun r => r.match [] "GET".toList "/api/v1/users".toList).map (fun m =>
      decide (m.route.stripPath = true ∧ m.route.paths = apiRoute.paths)) = some true := by decide +kernel
  obtain ⟨m, hm, hroute⟩ := Option.map_eq_some_iff.1 hrun
  obtain ⟨r, hr, hm⟩ := Option.bind_eq_some_iff.1 hm
  obtain ⟨hs, hpaths⟩ := of_decide_eq_true hroute
  refine ⟨r, m, ok_of_toOption hr, hm, ((stripped_once hm hs).2 ?_).trans ?_⟩
  · rw [hpaths]
    decide +kernel
  · rw [hpaths]
    decide +kernel

/-- **`/api/api/users` goes upstream as `/users`**: the pattern `/api/*` consumes one segment only. -/
theorem stripped_twice :
    ∃ r m, apiRouter = .ok r ∧ r.match [] "GET".toList "/api/api/users".toList = some m ∧ m.route.stripPath = true ∧
      render ((splitPath "/api/api/users".toList).drop
        (longestMatch m.route.paths (splitPath "/api/api/users".toList))) =
        "/api/users".toList ∧
      upstreamPath m.route m.path = "/users".toList := by
  have hrun : (apiRouter.toOption.bind fun r => r.match [] "GET".toList "/api/api/users".toList).map (fun m =>
      decide (m.route.stripPath = true ∧
        render ((splitPath "/api/api/users".toList).drop
          (longestMatch m.route.paths (splitPath "/api/api/users".toList))) =
          "/api/users".toList ∧
        upstreamPath m.route m.path = "/users".toList)) = some true := by decide +kernel
  obtain ⟨m, hm, hpaths⟩ := Option.map_eq_some_iff.1 hrun
  obtain ⟨r, hr, hm⟩ := Option.bind_eq_some_iff.1 hm
  exact ⟨r, m, ok_of_toOption hr, hm, of_decide_eq_true hpaths⟩

end Gateway
