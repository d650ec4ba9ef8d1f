import ApiCerberus.Gateway.Lookup

/-!
# Routes come from the table

Whatever a router finds was put there: `Match` returns a route of the list that `Rebuild` was given. A
property `P` of the targets is kept by `insertPath` and holds for what `searchPath` returns.
-/

namespace Gateway

namespace RadixNode

variable {α : Type} {P : α → Prop} {n : RadixNode α} {cs : List (RadixNode α)} {r : α}

/-- Every route below the node satisfies `P`. -/
inductive All (P : α → Prop) : RadixNode α → Prop
  | mk {path : Text} {cs : List (RadixNode α)} {route : Option α} {isWild : Bool} {paramKey : Text}
    (here : ∀ r ∈ route, P r) (sub : ∀ c ∈ cs, All P c) : All P (mk path cs route isWild paramKey)

theorem All.route (h : n.All P) : ∀ r ∈ n.route, P r := by
  cases h with
  | mk here sub => exact here

theorem All.sub (h : n.All P) : ∀ c ∈ n.children, c.All P := by
  cases h with
  | mk here sub => exact sub

theorem all_empty : (empty : RadixNode α).All P := .mk (by simp) (by simp)

theorem all_create (seg : Text) : (create seg : RadixNode α).All P := by
  unfold create
  split
  · exact .mk (by simp) (by simp)
  · split <;> exact .mk (by simp) (by simp)

theorem All.insertSegments (hr : P r) (segs : List Text) (h : n.All P) : (insertSegments r segs n).All P := by
  induction segs generalizing n with
  | nil =>
    refine .mk (fun r' hr' => ?_) h.sub
    have hr' : n.route.getD r = r' := Option.some.inj hr'
    cases hn : n.route with
    | none =>
      rw [hn] at hr'
      exact hr' ▸ hr
    | some r₀ =>
      rw [hn] at hr'
      exact hr' ▸ h.route r₀ hn
  | cons seg segs ih =>
    refine .mk h.route fun c' hc' => ?_
    rcases mem_findOrCreate hc' with hc | ⟨c, hc, -, rfl⟩ | rfl
    · exact h.sub c' hc
    · exact ih (h.sub c hc)
    · exact ih (all_create seg)

variable {v : α × Params}

theorem all_wildRoute (hcs : ∀ c ∈ cs, c.All P) {params : Params} (h : wildRoute cs params = some v) : P v.1 := by
  obtain ⟨c, hc, hv⟩ := List.exists_of_findSome?_eq_some h
  split at hv
  · obtain ⟨r, hr, rfl⟩ := Option.map_eq_some_iff.1 hv
    exact (hcs c hc).route r hr
  · cases hv

section Loops

variable (ih : ∀ c ∈ cs, ∀ segs params v, searchPath c segs params = some v → P v.1)
include ih

variable {segs : List Text} {params : Params}

theorem all_searchLiteral {seg : Text}
    (h : searchLiteral cs seg segs params = some v) : P v.1 := by
  induction cs with
  | nil => cases h
  | cons c cs ihcs =>
    have hrest := ihcs fun d hd => ih d (List.mem_cons_of_mem _ hd)
    rw [searchLiteral] at h
    split at h
    · rcases Option.or_eq_some_iff.1 h with h | ⟨-, h⟩
      · exact ih c List.mem_cons_self _ _ v h
      · exact hrest h
    · exact hrest h

theorem all_searchParam {seg : Text}
    (h : searchParam cs seg segs params = some v) : P v.1 := by
  induction cs with
  | nil => cases h
  | cons c cs ihcs =>
    have hrest := ihcs fun d hd => ih d (List.mem_cons_of_mem _ hd)
    rw [searchParam] at h
    split at h
    · exact hrest h
    · rcases Option.or_eq_some_iff.1 h with h | ⟨-, h⟩
      · exact ih c List.mem_cons_self _ _ v h
      · exact hrest h

theorem all_searchWild (hcs : ∀ c ∈ cs, c.All P)
    (h : searchWild cs segs params = some v) : P v.1 := by
  induction cs with
  | nil => cases h
  | cons c cs ihcs =>
    have hrest := ihcs (fun d hd => ih d (List.mem_cons_of_mem _ hd)) fun d hd => hcs d (List.mem_cons_of_mem _ hd)
    rw [searchWild] at h
    split at h
    · rcases Option.or_eq_some_iff.1 h with h | ⟨-, h⟩
      · unfold searchWildcard at h
        split at h
        · rename_i r hr
          cases h
          exact (hcs c List.mem_cons_self).route r hr
        · obtain ⟨rest, -, hv⟩ := List.exists_of_findSome?_eq_some h
          exact ih c List.mem_cons_self _ _ v hv
      · exact hrest h
    · exact hrest h

end Loops

theorem All.searchPath (h : n.All P) : ∀ segs params v, searchPath n segs params = some v → P v.1 := by
  induction h with
  | @mk path cs route isWild paramKey hroute hsub ih =>
    intro segs params v h
    cases segs with
    | nil =>
      cases route with
      | some r =>
        cases h
        exact hroute r rfl
      | none => exact all_wildRoute hsub h
    | cons seg segs =>
      rw [Gateway.searchPath] at h
      rcases Option.or_eq_some_iff.1 h with h | ⟨-, h⟩
      · exact all_searchLiteral ih h
      · rcases Option.or_eq_some_iff.1 h with h | ⟨-, h⟩
        · exact all_searchParam ih h
        · exact all_searchWild ih hsub h

end RadixNode

/-! ## Method trees and routers -/

open RadixNode

variable {χ : Type} {P : Target χ → Prop}

structure MethodTree.All (P : Target χ → Prop) (t : MethodTree χ) : Prop where
  trees : ∀ method root, t.trees.get? method = some root → root.All P
  any : t.any.All P

theorem MethodTree.all_new : (MethodTree.new : MethodTree χ).All P where
  trees _ _ h := by cases h
  any := all_empty

theorem MethodTree.All.insert {t : MethodTree χ} (h : t.All P) {target : Target χ} (ht : P target)
    (method path : Text) :
    (t.insert method path target).All P := by
  unfold MethodTree.insert
  split
  · exact ⟨h.trees, h.any.insertSegments ht _⟩
  · refine ⟨fun m root hroot => ?_, h.any⟩
    simp only [FinMap.get?_set] at hroot
    split at hroot
    · cases hroot
      refine All.insertSegments ht _ ?_
      cases hget : t.trees.get? (methodKey method) with
      | none => exact all_empty
      | some root => exact h.trees _ root hget
    · exact h.trees m root hroot

theorem MethodTree.All.match {t : MethodTree χ} (h : t.All P) {method path : Text} {v : Target χ × Params}
    (hm : t.match method path = some v) : P v.1 := by
  rcases Option.or_eq_some_iff.1 hm with hm | ⟨-, hm⟩
  · obtain ⟨root, hroot, hv⟩ := Option.bind_eq_some_iff.1 hm
    unfold MethodTree.rootFor at hroot
    split at hroot
    · cases hroot
      exact h.any.searchPath _ _ v hv
    · exact (h.trees _ root hroot).searchPath _ _ v hv
  · exact h.any.searchPath _ _ v hm

/-- All that the router may answer with satisfies `P`. -/
structure Router.All (P : Target χ → Prop) (r : Router χ) : Prop where
  hosts : ∀ host tree, r.hosts.get? host = some tree → tree.All P
  defaultTree : r.defaultTree.All P
  regexRoutes : ∀ c ∈ r.regexRoutes, P (c.route, c.service)

theorem Router.All.insert {r : Router χ} (h : r.All P) {b : RouteBinding χ} (hb : P (b.route, b.service)) :
    (r.insert b).All P := by
  unfold Router.insert
  split
  · exact ⟨h.hosts, h.defaultTree.insert hb _ _, h.regexRoutes⟩
  · refine ⟨fun host tree htree => ?_, h.defaultTree, h.regexRoutes⟩
    simp only [FinMap.get?_set] at htree
    split at htree
    · cases htree
      refine MethodTree.All.insert ?_ hb _ _
      cases hget : r.hosts.get? b.host with
      | none => exact MethodTree.all_new
      | some tree => exact h.hosts _ tree hget
    · exact h.hosts host tree htree

theorem Router.All.match {r : Router χ} (h : r.All P) {host method urlPath : Text} {m : Matched χ}
    (hm : r.match host method urlPath = some m) : P (m.route, m.service) := by
  unfold Router.match at hm
  simp only at hm
  split at hm
  · cases hm
  · split at hm
    · cases hm
    · split at hm
      · cases hm
      · split at hm
        · rename_i hv
          cases hm
          rcases Option.or_eq_some_iff.1 hv with hv | ⟨-, hv⟩
          · obtain ⟨tree, htree, hv⟩ := Option.bind_eq_some_iff.1 hv
            exact (h.hosts _ tree htree).match hv
          · exact h.defaultTree.match hv
        · obtain ⟨c, hc, rfl⟩ := Option.map_eq_some_iff.1 hm
          exact h.regexRoutes c (List.mem_of_find?_eq_some hc)

/-- The results of a loop that may stop at an error. -/
theorem mem_of_mapM_ok {ε α β : Type} {f : α → Except ε β} : ∀ {l : List α} {ys : List β}, l.mapM f = .ok ys →
    ∀ y ∈ ys, ∃ x ∈ l, f x = .ok y
  | [], ys, h, y, hy => by
    rw [List.mapM_nil] at h
    cases h
    cases hy
  | x :: l, ys, h, y, hy => by
    rw [List.mapM_cons] at h
    cases hx : f x with
    | error e => rw [hx] at h; cases h
    | ok y₀ =>
      cases hl : l.mapM f with
      | error e => rw [hx, hl] at h; cases h
      | ok ys₀ =>
        rw [hx, hl] at h
        cases h
        rcases List.mem_cons.1 hy with rfl | hy
        · exact ⟨x, List.mem_cons_self, hx⟩
        · obtain ⟨x', hx', hfx⟩ := mem_of_mapM_ok hl y hy
          exact ⟨x', List.mem_cons_of_mem _ hx', hfx⟩

/-- The route that a binding or a regular expression belongs to. -/
def boundRoute : RouteBinding χ ⊕ CompiledRoute χ → Route χ
  | .inl b => b.route
  | .inr c => c.route

theorem boundRoute_bindRoute {compile : Compile} {services : FinMap Text Service} {route : Route χ}
    {bound : List (RouteBinding χ ⊕ CompiledRoute χ)} (h : bindRoute compile services route = .ok bound) :
    ∀ b ∈ bound, boundRoute b = route := by
  intro b hb
  unfold bindRoute at h
  split at h
  · cases h
  · obtain ⟨x, -, hx⟩ := mem_of_mapM_ok h b hb
    unfold Gateway.bind at hx
    simp only at hx
    split at hx
    · split at hx
      · cases hx
      · cases hx
        rfl
    · cases hx
      rfl

/-- **`Match` returns a route of the table.** -/
theorem match_mem {compile : Compile} {routes : List (Route χ)} {services : List Service} {r : Router χ}
    (hr : Router.rebuild compile routes services = .ok r) {host method urlPath : Text} {m : Matched χ}
    (hm : r.match host method urlPath = some m) : m.route ∈ routes := by
  unfold Router.rebuild at hr
  cases hb : routes.mapM (bindRoute compile (serviceByName services)) with
  | error e => rw [hb] at hr; cases hr
  | ok bounds =>
    rw [hb] at hr
    cases hr
    have hbound : ∀ b ∈ bounds.flatten, boundRoute b ∈ routes := by
      intro b hbm
      obtain ⟨bound, hbd, hbm⟩ := List.mem_flatten.1 hbm
      obtain ⟨route, hroute, heq⟩ := mem_of_mapM_ok hb bound hbd
      rw [boundRoute_bindRoute heq b hbm]
      exact hroute
    have hfold : ∀ (bs : List (RouteBinding χ)) (r : Router χ), r.All (fun t => t.1 ∈ routes) →
        (∀ b ∈ bs, b.route ∈ routes) → (bs.foldl Router.insert r).All fun t => t.1 ∈ routes := by
      intro bs
      induction bs with
      | nil => exact fun r hr _ => hr
      | cons b bs ih =>
        exact fun r hr hbs => ih _ (hr.insert (hbs b List.mem_cons_self)) fun b' hb' =>
          hbs b' (List.mem_cons_of_mem _ hb')
    refine Router.All.match (hfold _ _ ⟨fun _ _ h => by simp [FinMap.get?_empty] at h,
      MethodTree.all_new, fun c hc => ?_⟩
      fun b hbm => ?_) hm
    · obtain ⟨x, hx, hxc⟩ := List.mem_filterMap.1 ((List.mem_insertionSort _).1 hc)
      have := hbound x hx
      cases x with
      | inl b => cases hxc
      | inr c' =>
        cases hxc
        exact this
    · obtain ⟨x, hx, hxb⟩ := List.mem_filterMap.1 (mem_sortBindings.1 hbm)
      have := hbound x hx
      cases x with
      | inl b' =>
        cases hxb
        exact this
      | inr c => cases hxb

end Gateway
