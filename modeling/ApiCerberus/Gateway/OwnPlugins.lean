import ApiCerberus.Gateway.Pipelines
import ApiCerberus.Gateway.Targets

/-!
# Whose plugins a route runs

The builder files the chain of a route under `builderKey`, a request looks it up under `requestKey`, and a later
route with the same key replaces the chain of an earlier one while the flags of both stay. Validation asks for a
name only: neither IDs nor names are unique, they are compared untrimmed, and a name may be blank. `own_plugins_iff`
says when a route gets its own chain and flag all the same.
-/

namespace Gateway

variable {χ π : Type} {routes : List (Route χ)} {bs : List (Built π)} {factories : Factories χ π}
  {global : List (PluginConfig χ)} {idx id : Nat} {key : Text} {start : Nat → Nat}

/-! ## What the rounds leave -/

/-- A request finds the chain of the last round that used its key. -/
theorem get?_chains (bs : List (Built π)) (key : Text) :
    (Pipelines.ofBuilt bs).chains.get? key = (bs.reverse.find? fun b => b.key = key).map Built.chain := by
  have hfold : ∀ (bs : List (Built π)) (m : Pipelines π), (bs.foldl Pipelines.add m).chains.get? key =
      ((bs.reverse.find? fun b => b.key = key).map Built.chain).or (m.chains.get? key) := by
    intro bs
    induction bs with
    | nil => exact fun m => rfl
    | cons b bs ih =>
      intro m
      rw [List.foldl_cons, ih, List.reverse_cons, List.find?_append]
      cases hf : bs.reverse.find? fun b => b.key = key with
      | some c => rfl
      | none =>
        simp only [Pipelines.add, FinMap.get?_set]
        by_cases hk : b.key = key
        · simp [hk]
        · simp [hk, Ne.symm hk]
  rw [Pipelines.ofBuilt, hfold, FinMap.get?_empty, Option.or_none]

/-- A key is flagged if any of the rounds that used it built a plugin of the auth phase. -/
theorem getD_hasAuth (bs : List (Built π)) (key : Text) :
    ((Pipelines.ofBuilt bs).hasAuth.get? key).getD false = bs.any fun b => b.key = key && hasAuthPhase b.chain := by
  have hfold : ∀ (bs : List (Built π)) (m : Pipelines π), ((bs.foldl Pipelines.add m).hasAuth.get? key).getD false =
      (((m.hasAuth.get? key).getD false) || bs.any fun b => b.key = key && hasAuthPhase b.chain) := by
    intro bs
    induction bs with
    | nil => simp
    | cons b bs ih =>
      intro m
      rw [List.foldl_cons, ih, List.any_cons, ← Bool.or_assoc]
      congr 1
      unfold Pipelines.add
      cases hb : hasAuthPhase b.chain with
      | false => simp
      | true =>
        by_cases hk : b.key = key
        · simp [FinMap.get?_set, hk]
        · simp [FinMap.get?_set, hk, Ne.symm hk]
  rw [Pipelines.ofBuilt, hfold, FinMap.get?_empty]
  rfl

/-! ## What the plugins are built from -/

/-- The specs from which the plugins of a route are built. -/
def enabledSpecs (global : List (PluginConfig χ)) (route : Route χ) : List (PluginConfig χ) :=
  (mergePluginSpecs global route.plugins).filter isPluginEnabled

/-- The spec of a plugin of the auth phase. -/
def isAuthSpec (spec : PluginConfig χ) : Bool :=
  normalizePluginName spec.name = PluginName.authAPIKey.text || normalizePluginName spec.name = PluginName.authJWT.text

theorem phase_eq_auth (n : PluginName) : decide (n.phase = .auth) =
    (n.text = PluginName.authAPIKey.text || n.text = PluginName.authJWT.text) := by
  cases n <;> decide

theorem build_ok {spec : PluginConfig χ} {p : PipelinePlugin π} (h : Registry.build factories id spec = .ok p) :
    p.id = id ∧ decide (p.name.phase = .auth) = isAuthSpec spec := by
  unfold Registry.build at h
  dsimp only at h
  split at h
  · cases h
  · split at h
    · cases h
    · rename_i n hn
      have htext : n.text = normalizePluginName spec.name := by simpa using List.find?_some hn
      cases hmade : factories n spec.config with
      | error err => simp [hmade, Except.map] at h
      | ok made =>
        rw [hmade] at h
        cases h
        exact ⟨rfl, by rw [phase_eq_auth, htext, isAuthSpec]⟩

/-- One plugin for each enabled spec, numbered in a row. -/
theorem buildPlugins_ok {routeName : Text} {specs : List (PluginConfig χ)} {chain : List (PipelinePlugin π)}
    (h : buildPlugins factories routeName id specs = .ok chain) : chain.length = (specs.filter isPluginEnabled).length ∧
      (∀ p ∈ chain, id ≤ p.id ∧ p.id < id + chain.length) ∧
        hasAuthPhase chain = (specs.filter isPluginEnabled).any isAuthSpec := by
  induction specs generalizing id chain with
  | nil =>
    cases h
    exact ⟨rfl, by simp, rfl⟩
  | cons spec specs ih =>
    unfold buildPlugins at h
    split at h
    · rename_i henabled
      cases hp : Registry.build factories id spec with
      | error err => simp [hp] at h
      | ok p =>
        cases hrest : buildPlugins factories routeName (id + 1) specs with
        | error err => simp [hp, hrest, Except.map] at h
        | ok rest =>
          simp only [hp, hrest] at h
          cases h
          obtain ⟨hlen, hids, hauth⟩ := ih hrest
          obtain ⟨hid, hphase⟩ := build_ok hp
          rw [List.filter_cons_of_pos henabled]
          refine ⟨by simp [hlen], fun q hq => ?_, ?_⟩
          · rw [List.length_cons]
            rcases List.mem_cons.1 hq with rfl | hq
            · omega
            · have := hids q hq
              omega
          · rw [hasAuthPhase, List.any_cons, List.any_cons, hphase, ← hauth]
            rfl
    · rename_i hdisabled
      rw [List.filter_cons_of_neg hdisabled]
      exact ih h

/-- What round `k` has built, and the numbers of its plugins. -/
structure Round (global : List (PluginConfig χ)) (route : Route χ) (idx lo hi : Nat) (b : Built π) : Prop where
  key : b.key = builderKey route idx
  bare : b.chain = [] ↔ enabledSpecs global route = []
  auth : hasAuthPhase b.chain = (enabledSpecs global route).any isAuthSpec
  ids : ∀ p ∈ b.chain, lo ≤ p.id ∧ p.id < hi

/-- One round for each route; round `k` has the numbers from `start k` up to those of the next round. -/
structure Rounds (global : List (PluginConfig χ)) (routes : List (Route χ)) (idx : Nat) (start : Nat → Nat)
    (bs : List (Built π)) : Prop where
  mono : Monotone start
  length : bs.length = routes.length
  round : ∀ k route b, routes[k]? = some route → bs[k]? = some b →
    Round global route (idx + k) (start k) (start (k + 1)) b

/-- The rounds of the loop, each with the ids that it begins with. -/
theorem rounds_buildRoutes (h : buildRoutes factories global idx id routes = .ok bs) :
    ∃ start, start 0 = id ∧ Rounds global routes idx start bs := by
  induction routes generalizing idx id bs with
  | nil =>
    cases h
    exact ⟨fun _ => id, rfl, monotone_const, rfl, by simp⟩
  | cons route routes ih =>
    unfold buildRoutes at h
    split at h
    · cases h
    · rename_i chain hchain
      cases hrest : buildRoutes factories global (idx + 1) (id + chain.length) routes with
      | error e => rw [hrest] at h; cases h
      | ok rest =>
        rw [hrest] at h
        cases h
        obtain ⟨start, hzero, hmono, hlength, hround⟩ := ih hrest
        obtain ⟨hlen, hids, hauth⟩ := buildPlugins_ok hchain
        have hperm : (sortChain chain).Perm chain := List.perm_insertionSort _ _
        refine ⟨fun k => k.casesOn id start, rfl, monotone_nat_of_le_succ fun k => ?_, by simp [hlength],
          fun k route' b hr hb => ?_⟩
        · cases k with
          | zero =>
            show id ≤ start 0
            omega
          | succ k => exact hmono (Nat.le_succ k)
        · cases k with
          | zero =>
            cases hr
            cases hb
            refine ⟨rfl, ?_, ?_, fun p hp => ?_⟩
            · rw [← List.length_eq_zero_iff, hperm.length_eq, hlen, List.length_eq_zero_iff]
              rfl
            · rw [show hasAuthPhase (sortChain chain) = hasAuthPhase chain from hperm.any_eq, hauth]
              rfl
            · show id ≤ p.id ∧ p.id < start 0
              rw [hzero]
              exact hids p (hperm.mem_iff.1 hp)
          | succ k =>
            have := hround k route' b hr hb
            rwa [Nat.add_assoc, Nat.add_comm 1 k] at this

theorem Rounds.of_route (hr : Rounds global routes 0 start bs) {k : Nat} {route : Route χ}
    (h : routes[k]? = some route) :
    ∃ b, bs[k]? = some b ∧ Round global route k (start k) (start (k + 1)) b := by
  have hk : k < bs.length := hr.length ▸ (List.getElem?_eq_some_iff.1 h).1
  exact ⟨bs[k], List.getElem?_eq_getElem hk, by simpa using hr.round k route bs[k] h (List.getElem?_eq_getElem hk)⟩

theorem Rounds.of_built (hr : Rounds global routes 0 start bs) {k : Nat} {b : Built π} (h : bs[k]? = some b) :
    ∃ route, routes[k]? = some route ∧ Round global route k (start k) (start (k + 1)) b := by
  have hk : k < routes.length := hr.length ▸ (List.getElem?_eq_some_iff.1 h).1
  exact ⟨routes[k], List.getElem?_eq_getElem hk, by simpa using hr.round k routes[k] b (List.getElem?_eq_getElem hk) h⟩

/-- Two rounds have no plugin in common. -/
theorem Rounds.chain_eq_nil (hr : Rounds global routes 0 start bs) {i j : Nat} {b b' : Built π} (hi : bs[i]? = some b)
    (hj : bs[j]? = some b') (hne : i ≠ j) (heq : b'.chain = b.chain) : b.chain = [] := by
  obtain ⟨route, -, hround⟩ := hr.of_built hi
  obtain ⟨route', -, hround'⟩ := hr.of_built hj
  by_contra hnil
  obtain ⟨p, hp⟩ := List.exists_mem_of_ne_nil _ hnil
  have h := hround.ids p hp
  have h' := hround'.ids p (heq ▸ hp)
  rcases Nat.lt_or_gt_of_ne hne with hlt | hlt
  · have := hr.mono (show i + 1 ≤ j from hlt)
    omega
  · have := hr.mono (show j + 1 ≤ i from hlt)
    omega

/-- Round `j` is the last one with the key. -/
def Last (bs : List (Built π)) (key : Text) (j : Nat) (b : Built π) : Prop :=
  bs[j]? = some b ∧ b.key = key ∧ ∀ k b', j < k → bs[k]? = some b' → b'.key ≠ key

theorem Last.unique {i j : Nat} {b b' : Built π} (hi : Last bs key i b) (hj : Last bs key j b') : i = j := by
  rcases Nat.lt_trichotomy i j with hlt | heq | hlt
  · exact absurd hj.2.1 (hi.2.2 j b' hlt hj.1)
  · exact heq
  · exact absurd hi.2.1 (hj.2.2 i b hlt hi.1)

/-- A request runs the chain of the last round with its key, and no chain if there is none. -/
theorem chainFor_cases (bs : List (Built π)) (route : Route χ) :
    (∃ j b, Last bs (requestKey route) j b ∧ (Pipelines.ofBuilt bs).chainFor route = b.chain) ∨
      (∀ b ∈ bs, b.key ≠ requestKey route) ∧ (Pipelines.ofBuilt bs).chainFor route = [] := by
  rw [Pipelines.chainFor, get?_chains]
  cases hf : bs.reverse.find? fun b => b.key = requestKey route with
  | none =>
    refine .inr ⟨fun b hb => ?_, rfl⟩
    simpa using List.find?_eq_none.1 hf b (List.mem_reverse.2 hb)
  | some b =>
    obtain ⟨hkey, after, before, hsplit, hafter⟩ := List.find?_eq_some_iff_append.1 hf
    have hbs : bs = before.reverse ++ b :: after.reverse := by
      have := congrArg List.reverse hsplit
      simpa using this
    refine .inl ⟨before.length, b, ⟨by simp [hbs], by simpa using hkey, fun k b' hk hb' => ?_⟩, rfl⟩
    rw [hbs, List.getElem?_append_right (by simpa using hk.le), List.length_reverse] at hb'
    obtain ⟨n, hn⟩ : ∃ n, k - before.length = n + 1 := ⟨k - before.length - 1, by omega⟩
    rw [hn, List.getElem?_cons_succ] at hb'
    simpa using hafter b' (List.mem_reverse.1 (List.mem_of_getElem? hb'))

/-! ## Own plugins -/

/-- A request for route `i` runs the chain, and sees the flag, of round `i`. -/
def RunsOwn (bs : List (Built π)) (route : Route χ) (i : Nat) : Prop :=
  ∃ b, bs[i]? = some b ∧ (Pipelines.ofBuilt bs).chainFor route = b.chain ∧
    (Pipelines.ofBuilt bs).authFlag route = hasAuthPhase b.chain

/-- The chain under `key` is that of route `j`: no later route has this key. -/
def Files (routes : List (Route χ)) (key : Text) (j : Nat) (route : Route χ) : Prop :=
  routes[j]? = some route ∧ builderKey route j = key ∧ ∀ k route', j < k → routes[k]? = some route' →
    builderKey route' k ≠ key

/-- No later route has the key of route `i`, or neither it nor the route that has the chain under its key has any
plugin; and no other route with this key has authentication if it has none itself. -/
structure OwnPlugins (global : List (PluginConfig χ)) (routes : List (Route χ)) (route : Route χ) (i : Nat) : Prop where
  chain : Files routes (requestKey route) i route ∨
    enabledSpecs global route = [] ∧ ∀ j route', Files routes (requestKey route) j route' →
      enabledSpecs global route' = []
  flag : ∀ j route', routes[j]? = some route' → builderKey route' j = requestKey route →
    (enabledSpecs global route').any isAuthSpec = true → (enabledSpecs global route).any isAuthSpec = true

theorem Rounds.files_iff (hr : Rounds global routes 0 start bs) {j : Nat} {route : Route χ} :
    Files routes key j route ↔ routes[j]? = some route ∧ ∃ b, Last bs key j b := by
  constructor
  · rintro ⟨hj, hkey, hlater⟩
    obtain ⟨b, hb, hround⟩ := hr.of_route hj
    refine ⟨hj, b, hb, hround.key.trans hkey, fun k b' hk hb' => ?_⟩
    obtain ⟨route', hk', hround'⟩ := hr.of_built hb'
    exact hround'.key ▸ hlater k route' hk hk'
  · rintro ⟨hj, b, hb, hkey, hlater⟩
    obtain ⟨b₀, hb₀, hround⟩ := hr.of_route hj
    cases hb.symm.trans hb₀
    refine ⟨hj, hround.key.symm.trans hkey, fun k route' hk hk' => ?_⟩
    obtain ⟨b', hb', hround'⟩ := hr.of_route hk'
    exact hround'.key ▸ hlater k b' hk hb'

/-- The chain of a route is its own if it is filed last, or if it is empty and so is the one filed last. -/
theorem Rounds.chainFor_iff (hr : Rounds global routes 0 start bs) {i : Nat} {route : Route χ}
    (hi : routes[i]? = some route) {b : Built π} (hb : bs[i]? = some b) :
    (Pipelines.ofBuilt bs).chainFor route = b.chain ↔ Files routes (requestKey route) i route ∨
      enabledSpecs global route = [] ∧ ∀ j route', Files routes (requestKey route) j route' →
        enabledSpecs global route' = [] := by
  obtain ⟨b₀, hb₀, hround⟩ := hr.of_route hi
  cases hb.symm.trans hb₀
  rcases chainFor_cases bs route with ⟨j, b', hlast, hchain⟩ | ⟨hnone, hchain⟩
  · obtain ⟨route', hj, hround'⟩ := hr.of_built hlast.1
    have hfiles : Files routes (requestKey route) j route' := hr.files_iff.2 ⟨hj, b', hlast⟩
    rw [hchain]
    constructor
    · intro heq
      by_cases hij : i = j
      · subst hij
        cases hi.symm.trans hj
        exact .inl hfiles
      · have hnil := hr.chain_eq_nil hb hlast.1 hij heq
        refine .inr ⟨hround.bare.1 hnil, fun k route'' hk => ?_⟩
        obtain ⟨hk', b'', hlast'⟩ := hr.files_iff.1 hk
        cases hlast.unique hlast'
        cases hj.symm.trans hk'
        exact hround'.bare.1 (heq.trans hnil)
    · rintro (hown | ⟨hbare, hother⟩)
      · obtain ⟨-, b'', hlast'⟩ := hr.files_iff.1 hown
        cases hlast.unique hlast'
        exact congrArg Built.chain (Option.some.inj (hlast.1.symm.trans hb))
      · rw [hround.bare.2 hbare, hround'.bare.2 (hother j route' hfiles)]
  · have hno : ∀ j route', ¬ Files routes (requestKey route) j route' := by
      intro j route' hj
      obtain ⟨-, b', hlast⟩ := hr.files_iff.1 hj
      exact hnone b' (List.mem_of_getElem? hlast.1) hlast.2.1
    rw [hchain, eq_comm, hround.bare]
    constructor
    · exact fun hbare => .inr ⟨hbare, fun j route' hj => absurd hj (hno j route')⟩
    · rintro (hown | ⟨hbare, -⟩)
      · exact absurd hown (hno i route)
      · exact hbare

/-- A request sees the flag if any route filed under its key has authentication. -/
theorem Rounds.authFlag_iff (hr : Rounds global routes 0 start bs) (route : Route χ) :
    (Pipelines.ofBuilt bs).authFlag route = true ↔ ∃ j route', routes[j]? = some route' ∧
      builderKey route' j = requestKey route ∧
      (enabledSpecs global route').any isAuthSpec = true := by
  rw [Pipelines.authFlag, getD_hasAuth, List.any_eq_true]
  constructor
  · rintro ⟨b, hmem, hb⟩
    obtain ⟨hkey, hauth⟩ : b.key = requestKey route ∧ hasAuthPhase b.chain = true := by simpa using hb
    obtain ⟨j, hj⟩ := List.getElem?_of_mem hmem
    obtain ⟨route', hroute', hround⟩ := hr.of_built hj
    exact ⟨j, route', hroute', hround.key.symm.trans hkey, hround.auth.symm.trans hauth⟩
  · rintro ⟨j, route', hj, hkey, hauth⟩
    obtain ⟨b, hb, hround⟩ := hr.of_route hj
    refine ⟨b, List.mem_of_getElem? hb, ?_⟩
    simp [hround.key.trans hkey, hround.auth.trans hauth]

theorem runsOwn_iff (h : buildRoutes factories global 0 id routes = .ok bs) {i : Nat} {route : Route χ}
    (hi : routes[i]? = some route) : RunsOwn bs route i ↔ OwnPlugins global routes route i := by
  obtain ⟨start, -, hr⟩ := rounds_buildRoutes h
  obtain ⟨b, hb, hround⟩ := hr.of_route hi
  constructor
  · rintro ⟨b', hb', hchain, hflag⟩
    cases hb.symm.trans hb'
    refine ⟨(hr.chainFor_iff hi hb).1 hchain, fun j route' hj hkey hauth => ?_⟩
    rw [← hround.auth, ← hflag]
    exact (hr.authFlag_iff route).2 ⟨j, route', hj, hkey, hauth⟩
  · rintro ⟨hchain, hflag⟩
    refine ⟨b, hb, (hr.chainFor_iff hi hb).2 hchain, Bool.eq_iff_iff.2 ?_⟩
    rw [hr.authFlag_iff, hround.auth]
    constructor
    · rintro ⟨j, route', hj, hkey, hauth⟩
      exact hflag j route' hj hkey hauth
    · intro hauth
      -- a route with authentication has a plugin, so its chain can only be filed under its own key
      rcases hchain with hown | ⟨hbare, -⟩
      · exact ⟨i, route, hi, hown.2.1, hauth⟩
      · rw [hbare] at hauth
        cases hauth

/-- **Every route runs its own plugins** iff no later route takes its key, or there are none to be taken, and no other
route lends it a flag. -/
theorem own_plugins_iff [Inhabited χ] {compile : Compile} {cfg : Config χ} {r : Router χ}
    (hr : Router.rebuild compile cfg.routes cfg.services = .ok r) {host method urlPath : Text} {m : Matched χ}
    (hm : r.match host method urlPath = some m) {implicit : Bool} (hbs : builtFor factories implicit cfg = .ok bs) :
    m.route ∈ cfg.routes ∧ ∀ i, cfg.routes[i]? = some m.route →
      (RunsOwn bs m.route i ↔ OwnPlugins (globalSpecs cfg implicit) cfg.routes m.route i) :=
  ⟨match_mem hr hm, fun _ hi => runsOwn_iff hbs hi⟩

/-- Factories that never fail. -/
def anyFactories [Inhabited π] : Factories χ π := fun _ _ => .ok default

/-! ## Two routes with one key -/

/-- Two routes, one of them with API keys. -/
def twoRoutes (idA idB : String) : Config Unit where
  globalPlugins := []
  routes :=
    [⟨idA.toList, "admin".toList, "users".toList, [], ["/admin".toList], [], false, 0, [bareSpec .authAPIKey]⟩,
      ⟨idB.toList, "public".toList, "users".toList, [], ["/public".toList], [], false, 0, []⟩]
  services := [⟨"s1".toList, "users".toList, "http".toList, "up".toList, 0⟩]

/-- The route that a request for `/admin` gets, without regular expressions. -/
def adminMatch (cfg : Config Unit) : Option (Matched Unit) :=
  (Router.rebuild (fun _ => .ok fun _ => false) cfg.routes cfg.services).toOption.bind fun r =>
    r.match [] "GET".toList "/admin".toList

theorem adminMatch_eq {cfg : Config Unit} {m : Matched Unit} (h : adminMatch cfg = some m) :
    ∃ r, Router.rebuild (fun _ => .ok fun _ => false) cfg.routes cfg.services = .ok r ∧
      r.match [] "GET".toList "/admin".toList = some m := by
  obtain ⟨r, hr, hm⟩ := Option.bind_eq_some_iff.1 h
  exact ⟨r, ok_of_toOption hr, hm⟩

theorem own_plugins_iff_distinct :
    ∃ m bs, adminMatch (twoRoutes "r1" "r2") = some m ∧
      builtFor (anyFactories : Factories Unit Unit) false (twoRoutes "r1" "r2") = .ok bs ∧ RunsOwn bs m.route 0 := by
  have hrun : (adminMatch (twoRoutes "r1" "r2")).map
    (fun m => decide ((twoRoutes "r1" "r2").routes[0]? = some m.route)) =
      some true := by decide +kernel
  obtain ⟨m, hm, hroute⟩ := Option.map_eq_some_iff.1 hrun
  obtain ⟨r, hr, hmatch⟩ := adminMatch_eq hm
  have hroute := of_decide_eq_true hroute
  obtain ⟨bs, hbs⟩ : ∃ bs, builtFor (anyFactories : Factories Unit Unit) false (twoRoutes "r1" "r2") = .ok bs :=
    ⟨_, rfl⟩
  have hown : OwnPlugins (globalSpecs (twoRoutes "r1" "r2") false) (twoRoutes "r1" "r2").routes m.route 0 := by
    rw [← Option.some.inj hroute]
    refine ⟨.inl ⟨rfl, by decide +kernel, fun k route' hk hroute' => ?_⟩, fun _ _ _ _ _ => by decide +kernel⟩
    rcases k with _ | _ | k
    · cases hk
    · rw [← Option.some.inj hroute']
      decide +kernel
    · cases hroute'
  exact ⟨m, bs, hm, hbs, ((own_plugins_iff hr hmatch hbs).2 0 hroute).2 hown⟩

/-- **Two routes with one ID**: a request for `/admin` runs the empty chain of the other route, and the flag of its
own says that it has been authenticated. -/
theorem other_route_runs :
    ∃ m bs b, validateRoutes (twoRoutes "r1" "r1") = [] ∧ adminMatch (twoRoutes "r1" "r1") = some m ∧
      (twoRoutes "r1" "r1").routes[0]? = some m.route ∧
      builtFor (anyFactories : Factories Unit Unit) false (twoRoutes "r1" "r1") = .ok bs ∧ bs[0]? = some b ∧
      b.chain.map PipelinePlugin.name = [.authAPIKey] ∧ (Pipelines.ofBuilt bs).chainFor m.route = [] ∧
      (Pipelines.ofBuilt bs).authFlag m.route = true := by
  have hrun : (adminMatch (twoRoutes "r1" "r1")).map
    (fun m => decide ((twoRoutes "r1" "r1").routes[0]? = some m.route)) =
      some true := by decide +kernel
  obtain ⟨m, hm, hroute⟩ := Option.map_eq_some_iff.1 hrun
  have hroute := of_decide_eq_true hroute
  refine ⟨m, _, _, by decide +kernel, hm, hroute, rfl, rfl, rfl, ?_, ?_⟩
  · rw [← Option.some.inj hroute]
    decide +kernel
  · rw [← Option.some.inj hroute]
    decide +kernel

end Gateway
