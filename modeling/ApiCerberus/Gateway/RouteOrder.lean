import ApiCerberus.Gateway.Lookup
import ApiCerberus.Gateway.Targets

/-!
# The order of the routes

`Rebuild` sorts its bindings and its regular expressions before it uses them. Two that the sort does not tell apart have
the same route name, so they come from one route, and a stable sort leaves them in the order of that route. Therefore
routes with different names give the same router in every order (`match_perm`).
-/

namespace Gateway

variable {χ : Type}

/-- What `regexBefore` compares. -/
def regexKey (c : CompiledRoute χ) : ℕ ×ₗ ℤ ×ₗ ℤ ×ₗ Text :=
  toLex (if c.host = [] then 1 else 0, toLex (-c.priority, toLex (-(c.patternLen : ℤ), c.route.name)))

variable {c : CompiledRoute χ} {routes : List (Route χ)}

theorem regexBefore_iff {c' : CompiledRoute χ} : regexBefore c c' = true ↔ regexKey c < regexKey c' := by
  unfold regexBefore regexKey
  simp only [Prod.Lex.toLex_lt_toLex]
  split
  · rename_i hhost
    by_cases hc : c.host = [] <;> by_cases hc' : c'.host = [] <;> simp_all
  · rename_i hhost
    have hrank : (if c.host = [] then 1 else 0) = if c'.host = [] then 1 else 0 := by
      by_cases hc : c.host = [] <;> by_cases hc' : c'.host = [] <;> simp_all
    rw [hrank]
    split
    · simp_all
    · split
      · rename_i hlen
        have hcast : (c.patternLen : ℤ) ≠ c'.patternLen := fun h => hlen (Int.ofNat.inj h)
        simp_all
      · simp_all

theorem name_of_sortKey {b b' : RouteBinding χ} (h : sortKey b = sortKey b') : b.route.name = b'.route.name :=
  congrArg (fun k => (ofLex (ofLex (ofLex k).2).2).2) h

theorem name_of_regexKey {c' : CompiledRoute χ} (h : regexKey c = regexKey c') : c.route.name = c'.route.name :=
  congrArg (fun k => (ofLex (ofLex (ofLex k).2).2).2) h

/-! ## Loops that may stop at an error -/

theorem exists_of_mapM_ok {ε α β : Type} {f : α → Except ε β} : ∀ {l : List α}
    {ys : List β}, l.mapM f = .ok ys → ∀ x ∈ l, ∃ y, f x = .ok y
  | [], _, _, x, hx => by cases hx
  | a :: l, ys, h, x, hx => by
    rw [List.mapM_cons] at h
    cases ha : f a with
    | error e => rw [ha] at h; cases h
    | ok y =>
      cases hl : l.mapM f with
      | error e => rw [ha, hl] at h; cases h
      | ok ys' =>
        rcases List.mem_cons.1 hx with rfl | hx
        · exact ⟨y, ha⟩
        · exact exists_of_mapM_ok hl x hx

theorem mapM_ok_of_forall {ε α β : Type} {f : α → Except ε β} {g : α → β} : ∀ {l : List α}, (∀ x ∈ l, f x = .ok (g x)) →
    l.mapM f = .ok (l.map g)
  | [], _ => rfl
  | a :: l, h => by
    rw [List.mapM_cons, h a List.mem_cons_self, mapM_ok_of_forall fun x hx => h x (List.mem_cons_of_mem a hx)]
    rfl

/-! ## Rebuild -/

/-- What a route contributes to a router. -/
def boundOf (compile : Compile) (services : FinMap Text Service)
    (route : Route χ) : List (RouteBinding χ ⊕ CompiledRoute χ) :=
  (bindRoute compile services route).toOption.getD []

variable {compile : Compile} {services : FinMap Text Service} {route : Route χ}

theorem boundRoute_boundOf :
    ∀ x ∈ boundOf compile services route, boundRoute x = route := by
  intro x hx
  unfold boundOf at hx
  cases hbind : bindRoute compile services route with
  | error e => rw [hbind] at hx; cases hx
  | ok bound =>
    rw [hbind] at hx
    exact boundRoute_bindRoute hbind x hx

theorem bindRoute_of_ok
    (h : ∃ bound, bindRoute compile services route = .ok bound) :
      bindRoute compile services route = .ok (boundOf compile services route) := by
  obtain ⟨bound, hbound⟩ := h
  rw [boundOf, hbound]
  rfl

def regularOf (compile : Compile) (services : FinMap Text Service) (route : Route χ) : List (RouteBinding χ) :=
  (boundOf compile services route).filterMap Sum.getLeft?

def regexOf (compile : Compile) (services : FinMap Text Service) (route : Route χ) : List (CompiledRoute χ) :=
  (boundOf compile services route).filterMap Sum.getRight?

theorem route_of_mem_regularOf {b : RouteBinding χ}
    (hb : b ∈ regularOf compile services route) : b.route = route := by
  obtain ⟨x, hx, hleft⟩ := List.mem_filterMap.1 hb
  rw [← boundRoute_boundOf x hx]
  cases x with
  | inl b' => rw [← Option.some.inj hleft]; rfl
  | inr c => cases hleft

theorem route_of_mem_regexOf
    (hc : c ∈ regexOf compile services route) : c.route = route := by
  obtain ⟨x, hx, hright⟩ := List.mem_filterMap.1 hc
  rw [← boundRoute_boundOf x hx]
  cases x with
  | inl b => cases hright
  | inr c' => rw [← Option.some.inj hright]; rfl

/-- What `Rebuild` makes of routes that can all be bound. -/
theorem rebuild_eq {services : List Service}
    (h : ∀ route ∈ routes, ∃ bound, bindRoute compile (serviceByName services) route = .ok bound) :
    Router.rebuild compile routes services =
      .ok ((sortBindings (routes.flatMap (regularOf compile (serviceByName services)))).foldl Router.insert
        ⟨.empty, .new, (routes.flatMap (regexOf compile (serviceByName services))).insertionSort
          fun c c' => regexBefore c' c = false⟩) := by
  have hmap : routes.mapM (bindRoute compile (serviceByName services)) =
    .ok (routes.map (boundOf compile (serviceByName services))) :=
    mapM_ok_of_forall fun route hroute => bindRoute_of_ok (h route hroute)
  have hflat : ∀ {β : Type} (g : RouteBinding χ ⊕ CompiledRoute χ → Option β),
      (routes.map (boundOf compile (serviceByName services))).flatten.filterMap g =
        routes.flatMap fun route => (boundOf compile (serviceByName services) route).filterMap g := by
    intro β g
    rw [List.filterMap_flatten, List.map_map, List.flatMap_def]
    rfl
  unfold Router.rebuild
  rw [hmap]
  show Except.ok _ = _
  rw [hflat, hflat]
  rfl

theorem exists_bound_of_rebuild {services : List Service} {r : Router χ}
    (hr : Router.rebuild compile routes services = .ok r) :
    ∀ route ∈ routes, ∃ bound, bindRoute compile (serviceByName services) route = .ok bound := by
  cases hm : routes.mapM (bindRoute compile (serviceByName services)) with
  | error e =>
    unfold Router.rebuild at hr
    rw [hm] at hr
    cases hr
  | ok bounds => exact exists_of_mapM_ok hm

/-- Routes with different names in another order. -/
theorem rebuild_perm_ok {routes' : List (Route χ)} {services : List Service} {r : Router χ}
    (hperm : routes.Perm routes') (hnames : routes.Pairwise fun route route' => route.name ≠ route'.name)
    (hr : Router.rebuild compile routes services = .ok r) : Router.rebuild compile routes' services = .ok r := by
  have hall := exists_bound_of_rebuild hr
  have hbefore : ∀ b b' : RouteBinding χ, before b b' = true ↔ sortKey b < sortKey b' := fun _ _ => before_iff
  have hregexBefore : ∀ c c' : CompiledRoute χ, regexBefore c c' = true ↔ regexKey c < regexKey c' :=
    fun _ _ => regexBefore_iff
  have hregular : sortBindings (routes.flatMap (regularOf compile (serviceByName services))) =
      sortBindings (routes'.flatMap (regularOf compile (serviceByName services))) := by
    refine Sorting.insertionSort_flatMap_perm hbefore _ hperm (hnames.imp fun hne b hb b' hb' hkey => hne ?_)
    rw [← route_of_mem_regularOf hb, ← route_of_mem_regularOf hb']
    exact name_of_sortKey hkey
  have hregex := Sorting.insertionSort_flatMap_perm hregexBefore (regexOf compile (serviceByName services)) hperm
    (hnames.imp fun hne c hc c' hc' hkey => hne (by
      rw [← route_of_mem_regexOf hc, ← route_of_mem_regexOf hc']
      exact name_of_regexKey hkey))
  rw [rebuild_eq hall] at hr
  rw [rebuild_eq fun route hroute => hall route (hperm.mem_iff.2 hroute), ← hregular, ← hregex]
  exact hr

/-- **The order of the routes does not matter.** Routes with different names give in every order a router with the same
answers, or none. -/
theorem match_perm {compile : Compile} {routes routes' : List (Route χ)} {services : List Service}
    (hperm : routes.Perm routes')
    (hnames : routes.Pairwise fun route route' => route.name ≠ route'.name) (host method path : Text) :
    (Router.rebuild compile routes services).toOption.map (fun r => r.match host method path) =
      (Router.rebuild compile routes' services).toOption.map fun r => r.match host method path := by
  have hnames' : routes'.Pairwise fun route route' => route.name ≠ route'.name := (hperm.pairwise_iff Ne.symm).1 hnames
  cases hr : Router.rebuild compile routes services with
  | ok r => rw [rebuild_perm_ok hperm hnames hr]
  | error e =>
    cases hr' : Router.rebuild compile routes' services with
    | error e' => rfl
    | ok r' => cases hr.symm.trans (rebuild_perm_ok hperm.symm hnames' hr')

/-- A route for a path of service s. -/
def routeOf (name path : String) : Route Unit := ⟨[], name.toList, "s".toList, [], [path.toList], [], false, 0, []⟩

theorem match_perm_users :
    (Router.rebuild (fun _ => .ok fun _ => false) [routeOf "user" "/users/:id", routeOf "named" "/users/:name"]
        [⟨[], "s".toList, [], [], 0⟩]).toOption.map (fun r => r.match [] "GET".toList "/users/7".toList) =
      (Router.rebuild (fun _ => .ok fun _ => false) [routeOf "named" "/users/:name", routeOf "user" "/users/:id"]
        [⟨[], "s".toList, [], [], 0⟩]).toOption.map fun r => r.match [] "GET".toList "/users/7".toList :=
  match_perm (.swap ..) (by decide) _ _ _

end Gateway
