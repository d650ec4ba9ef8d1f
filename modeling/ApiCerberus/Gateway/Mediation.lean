import Mathlib.Data.Prod.Lex
import ApiCerberus.Lib.Sorting
import ApiCerberus.Gateway.Serve

/-!
# What a request has passed when bytes are sent

A request is authenticated in one of two places: by the plugins of the auth phase, or by `executeAuthChain` after the
whole pipeline. A cache plugin answers inside the pipeline, and the permission plugin looks at the consumer inside it.
So a route without a plugin of the auth phase is answered from the cache without credentials (`replayed_without_key`),
and its consumer is never checked (`consumer_not_checked`).

What one plugin can do is said once (`runPlugin_step`); `execute_passed` carries what has been passed along the chain.
-/

namespace Gateway

variable {χ π : Type} {g : Server χ π} {w : Outside π} {caches : Caches} {route : Route χ} {p q : PipelinePlugin π}
  {pre chain : List (PipelinePlugin π)} {ctx ctx' : Ctx} {method : Text} {events : List Event}

/-! ## Chains are sorted -/

/-- The order in which plugins stand in a chain. -/
def Sorted (chain : List (PipelinePlugin π)) : Prop := chain.Pairwise fun p q => runsBefore q p = false

/-- What `runsBefore` compares. -/
def chainKey (p : PipelinePlugin π) : ℕ ×ₗ ℤ ×ₗ Text :=
  toLex (p.name.phase.order, toLex (p.name.priority, p.name.text))

theorem runsBefore_iff (p q : PipelinePlugin π) : runsBefore p q = true ↔ chainKey p < chainKey q := by
  unfold runsBefore chainKey
  simp only [Prod.Lex.toLex_lt_toLex]
  split
  · simp_all
  · split
    · simp_all
    · simp_all

theorem sorted_sortChain (chain : List (PipelinePlugin π)) : Sorted (sortChain chain) :=
  Sorting.pairwise_insertionSort runsBefore_iff chain

theorem order_le (h : runsBefore q p = false) : p.name.phase.order ≤ q.name.phase.order := by
  by_contra hlt
  have : runsBefore q p = true := by
    unfold runsBefore
    rw [if_pos (Nat.ne_of_lt (Nat.lt_of_not_le hlt))]
    simpa using hlt
  rw [h] at this
  cases this

variable {bs : List (Built π)} {e : Event}

theorem sorted_buildRoutes {factories : Factories χ π} {global : List (PluginConfig χ)} {idx id : Nat}
    {routes : List (Route χ)} (h : buildRoutes factories global idx id routes = .ok bs) :
    ∀ b ∈ bs, Sorted b.chain := by
  induction routes generalizing idx id bs with
  | nil =>
    cases h
    simp
  | cons route routes ih =>
    unfold buildRoutes at h
    split at h
    · cases h
    · rename_i chain _
      cases hrest : buildRoutes factories global (idx + 1) (id + chain.length) routes with
      | error e => rw [hrest] at h; cases h
      | ok rest =>
        rw [hrest] at h
        cases h
        intro b hb
        rcases List.mem_cons.1 hb with rfl | hb
        · exact sorted_sortChain chain
        · exact ih hrest b hb

theorem sorted_chainFor (h : ∀ b ∈ bs, Sorted b.chain) (route : Route χ) :
    Sorted ((Pipelines.ofBuilt bs).chainFor route) := by
  unfold Pipelines.chainFor
  rw [get?_chains]
  cases hf : bs.reverse.find? fun b => b.key = requestKey route with
  | none => exact List.Pairwise.nil
  | some b => exact h b (List.mem_reverse.1 (List.mem_of_find?_eq_some hf))

/-- A route whose chain has a plugin of the auth phase is flagged. -/
theorem authFlag_of_chainFor {route : Route χ}
    (h : hasAuthPhase ((Pipelines.ofBuilt bs).chainFor route) = true) :
      (Pipelines.ofBuilt bs).authFlag route = true := by
  unfold Pipelines.chainFor at h
  unfold Pipelines.authFlag
  rw [get?_chains] at h
  rw [getD_hasAuth, List.any_eq_true]
  cases hf : bs.reverse.find? fun b => b.key = requestKey route with
  | none => rw [hf] at h; cases h
  | some b =>
    rw [hf] at h
    have hkey : b.key = requestKey route := by simpa using List.find?_some hf
    refine ⟨b, List.mem_reverse.1 (List.mem_of_find?_eq_some hf), ?_⟩
    simp only [hkey, decide_true, Bool.true_and]
    exact h

theorem new_ok [Inhabited χ] {s : Setup χ π} {cfg : Config χ} (h : Server.new s cfg = .ok g) :
    g.authRequired = decide (0 < s.consumers) ∧ ∃ bs, g.pipelines = Pipelines.ofBuilt bs ∧
      ∀ b ∈ bs, Sorted b.chain := by
  unfold Server.new at h
  split at h
  · cases h
  · split at h
    · cases h
    · split at h
      · cases h
      · rename_i pipelines hbuilt
        cases h
        unfold buildRoutePipelines at hbuilt
        cases hbs : builtFor s.factories _ cfg with
        | error e => rw [hbs] at hbuilt; cases hbuilt
        | ok bs =>
          rw [hbs] at hbuilt
          cases hbuilt
          exact ⟨rfl, bs, rfl, sorted_buildRoutes hbs⟩

/-! ## One plugin -/

/-- Everything that running one plugin can do. -/
inductive PluginStep (w : Outside π) (route : Route χ) (p : PipelinePlugin π) (ctx : Ctx) :
    Ctx → Except PluginError Bool → Prop
  | failed (request : Request) (err : PluginError) :
    PluginStep w route p ctx { ctx with request := request } (.error err)
  | accepted (consumer : Option Consumer) (request : Request) (hauth : p.name.phase = .auth)
      (hmethod : request.method = ctx.request.method) :
      PluginStep w route p ctx ({ ctx with consumer := consumer, request := request }.log (.authenticated p.name))
        (.ok false)
  | unchecked (hname : p.name = .endpointPermission)
      (heval : evaluate w.lookup w.now (permissionRouteID route) ctx.request.method ctx.consumer = .ok none) :
      PluginStep w route p ctx ctx (.ok false)
  | permitted (granted : Granted) (hname : p.name = .endpointPermission)
      (heval : evaluate w.lookup w.now (permissionRouteID route) ctx.request.method ctx.consumer = .ok (some granted)) :
      PluginStep w route p ctx (ctx.log (.permitted granted ctx.request.method)) (.ok false)
  | replayed (entry : CacheEntry) (reason : Text) (hname : p.name = .cache) :
      PluginStep w route p ctx ({ ctx with aborted := some reason }.log (.replayed entry)) (.ok true)
  | passed (request : Request) (handled : Bool) (hauth : p.name.phase ≠ .auth) (hname : p.name ≠ .endpointPermission)
      (hmethod : p.name ≠ .requestTransform → request.method = ctx.request.method) :
      PluginStep w route p ctx { ctx with request := request } (.ok handled)

/-- All that a plugin may do to a request. -/
theorem runPlugin_step (g : Server χ π) (w : Outside π) (caches : Caches) (route : Route χ)
    (p : PipelinePlugin π) (ctx : Ctx) :
    PluginStep w route p ctx (runPlugin g w caches route p ctx).1 (runPlugin g w caches route p ctx).2 := by
  have hother : p.name.phase ≠ .auth → p.name ≠ .endpointPermission → ∀ (request : Request) result,
      (p.name ≠ .requestTransform → request.method = ctx.request.method) →
      PluginStep w route p ctx { ctx with request := request } result := by
    intro hauth hname request result hmethod
    cases result with
    | error err => exact .failed request err
    | ok handled => exact .passed request handled hauth hname hmethod
  unfold runPlugin
  split
  · rename_i hname
    have hauth : p.name.phase = .auth := by rw [hname]; rfl
    split
    · exact .failed ctx.request _
    · rw [← hname]
      exact .accepted _ ctx.request hauth rfl
  · rename_i hname
    have hauth : p.name.phase = .auth := by rw [hname]; rfl
    split
    · exact .failed ctx.request _
    · rw [← hname]
      exact .accepted _ _ hauth rfl
  · rename_i hname
    split
    · exact .failed ctx.request _
    · rename_i heval
      exact .unchecked hname heval
    · rename_i granted heval
      exact .permitted granted hname heval
  · rename_i hname
    have hauth : p.name.phase ≠ .auth := by rw [hname]; decide
    have hperm : p.name ≠ .endpointPermission := by rw [hname]; decide
    split
    · split
      · exact .replayed _ _ hname
      · exact .passed ctx.request _ hauth hperm fun _ => rfl
    · exact .passed ctx.request _ hauth hperm fun _ => rfl
  · rename_i hname
    exact hother (by rw [hname]; decide) (by rw [hname]; decide) _ _ fun h => absurd hname h
  · rename_i hkey hjwt hperm _ _
    refine hother ?_ hperm _ _ fun _ => rfl
    cases hn : p.name <;> first | exact absurd hn hkey | exact absurd hn hjwt | decide

/-! ## The chain -/

theorem hasAuthPhase_snoc (pre : List (PipelinePlugin π)) (p : PipelinePlugin π) :
    hasAuthPhase (pre ++ [p]) = (hasAuthPhase pre || decide (p.name.phase = .auth)) := by
  simp [hasAuthPhase]

/-- The permission of a consumer was looked up for the request, and the record allows it. -/
def Checked (w : Outside π) (route : Route χ) (method : Text) (c : Consumer) (events : List Event) : Prop :=
  ∃ lookup record, w.lookup = some lookup ∧
    lookup (Text.trimSpace c.id) (permissionRouteID route) = .ok (some record) ∧
    .permitted ⟨Text.trimSpace c.id, permissionRouteID route, record⟩ method ∈ events ∧ record.Allows method w.now

/-- Nothing is sent. -/
def Quiet (events : List Event) : Prop := ∀ e ∈ events, e.sends = false

/-- Some event accepts the request. -/
def Accepted (events : List Event) : Prop := ∃ e ∈ events, e.accepts = true

theorem quiet_snoc : Quiet (events ++ [e]) ↔ Quiet events ∧ e.sends = false := by
  simp [Quiet, or_imp, forall_and]

theorem accepted_snoc : Accepted (events ++ [e]) ↔ Accepted events ∨ e.accepts = true := by
  simp [Accepted, or_and_right, exists_or]

/-- What holds of a request for `method` after the plugins `pre`. -/
structure Passed (w : Outside π) (route : Route χ) (method : Text) (pre : List (PipelinePlugin π))
    (ctx : Ctx) : Prop where
  running : ctx.aborted = none
  quiet : Quiet ctx.events
  accepted : Accepted ctx.events ↔ hasAuthPhase pre = true
  anonymous : hasAuthPhase pre = false → ctx.consumer = none
  sameMethod : (∀ q ∈ pre, q.name ≠ .requestTransform) → ctx.request.method = method
  permitted : ∀ granted m, .permitted granted m ∈ ctx.events →
    hasAuthPhase pre = true ∧ w.lookup ≠ none ∧ permissionRouteID route ≠ []
  checked : (∃ q ∈ pre, q.name = .endpointPermission) → w.lookup ≠ none → permissionRouteID route ≠ [] →
    ∀ c, ctx.consumer = some c → Checked w route method c ctx.events

theorem passed_start (w : Outside π) (route : Route χ) (request : Request) :
    Passed w route request.method [] ⟨request, none, none, []⟩ where
  running := rfl
  quiet := by simp [Quiet]
  accepted := by simp [Accepted, hasAuthPhase]
  anonymous _ := rfl
  sameMethod _ := rfl
  permitted := by simp
  checked := by simp

/-- Passing one more plugin. -/
theorem Passed.step (h : Passed w route method pre ctx) (hafter : ∀ q ∈ pre, runsBefore p q = false)
    (hstep : PluginStep w route p ctx ctx' (.ok false)) : Passed w route method (pre ++ [p]) ctx' := by
  have hpre : ∀ q ∈ pre, q.name.phase.order ≤ p.name.phase.order := fun q hq => order_le (hafter q hq)
  cases hstep with
  | accepted consumer request hauth hmethod =>
    have hphase : hasAuthPhase (pre ++ [p]) = true := by simp [hasAuthPhase_snoc, hauth]
    refine ⟨h.running, quiet_snoc.2 ⟨h.quiet, rfl⟩, ?_, fun hno => ?_, fun hm => ?_, ?_, ?_⟩
    · exact iff_of_true (accepted_snoc.2 (Or.inr rfl)) hphase
    · rw [hphase] at hno
      cases hno
    · exact hmethod.trans (h.sameMethod fun q hq => hm q (List.mem_append_left _ hq))
    · intro granted m hmem
      rcases List.mem_append.1 hmem with hmem | hmem
      · exact ⟨hphase, (h.permitted granted m hmem).2⟩
      · cases List.mem_singleton.1 hmem
    · -- the permission plugin does not run before the auth phase is over
      rintro ⟨q, hq, hname⟩
      rcases List.mem_append.1 hq with hq | hq
      · have := hpre q hq
        rw [hname, hauth] at this
        exact absurd this (by decide)
      · rw [← List.mem_singleton.1 hq, hname] at hauth
        cases hauth
  | unchecked hname heval =>
    have hphase : hasAuthPhase (pre ++ [p]) = hasAuthPhase pre := by
      rw [hasAuthPhase_snoc, hname]
      exact Bool.or_false _
    refine ⟨h.running, h.quiet, by rw [hphase]; exact h.accepted, by rw [hphase]; exact h.anonymous, fun hm => ?_,
      by rw [hphase]; exact h.permitted, fun _ hl hr c hc => ?_⟩
    · exact h.sameMethod fun q hq => hm q (List.mem_append_left _ hq)
    · rcases evaluate_ok heval with ⟨-, hnone | hnone | hnone⟩ | ⟨c', record, f, -, -, -, -, hgranted, -⟩
      · exact absurd hnone hl
      · rw [hc] at hnone
        cases hnone
      · exact absurd hnone hr
      · cases hgranted
  | permitted granted hname heval =>
    have hphase : hasAuthPhase (pre ++ [p]) = hasAuthPhase pre := by
      rw [hasAuthPhase_snoc, hname]
      exact Bool.or_false _
    rcases evaluate_ok heval with ⟨hnone, -⟩ | ⟨c', record, f, hc', hl', hr', hlookup, hgranted, hallows⟩
    · cases hnone
    have hauth : hasAuthPhase pre = true := by
      by_contra hno
      rw [h.anonymous (by simpa using hno)] at hc'
      cases hc'
    -- nothing has changed the method yet
    have hmethod : ctx.request.method = method := by
      refine h.sameMethod fun q hq hqname => ?_
      have hbefore := hafter q hq
      unfold runsBefore at hbefore
      rw [hqname, hname] at hbefore
      revert hbefore
      decide
    refine ⟨h.running, quiet_snoc.2 ⟨h.quiet, rfl⟩, ?_, ?_, fun hm => ?_, ?_, ?_⟩
    · rw [hphase, ← h.accepted]
      exact accepted_snoc.trans (or_iff_left (by simp [Event.accepts]))
    · rw [hphase]
      exact h.anonymous
    · exact hmethod
    · exact fun _ _ _ => ⟨hphase.trans hauth, by simp [hl'], hr'⟩
    · intro _ _ _ c hc
      cases hc'.symm.trans hc
      cases hgranted
      exact ⟨f, record, hl', hlookup, List.mem_append_right _ (by rw [hmethod]; exact List.mem_singleton_self _),
        hmethod ▸ hallows⟩
  | passed request handled hauth hname hmethod =>
    have hphase : hasAuthPhase (pre ++ [p]) = hasAuthPhase pre := by
      simp [hasAuthPhase_snoc, hauth]
    refine ⟨h.running, h.quiet, by rw [hphase]; exact h.accepted, by rw [hphase]; exact h.anonymous, fun hm => ?_,
      by rw [hphase]; exact h.permitted, ?_⟩
    · exact (hmethod (hm p (by simp))).trans (h.sameMethod fun q hq => hm q (List.mem_append_left _ hq))
    · rintro ⟨q, hq, hqname⟩
      rcases List.mem_append.1 hq with hq | hq
      · exact h.checked ⟨q, hq, hqname⟩
      · exact absurd (List.mem_singleton.1 hq ▸ hqname) hname

/-- What holds of a request that the pipeline answered: nothing was sent, or a cache did, after the auth phase. -/
def Stopped (chain : List (PipelinePlugin π)) (ctx : Ctx) : Prop :=
  Quiet ctx.events ∨ ((∃ p ∈ chain, p.name = .cache) ∧ ∃ events entry, ctx.events = events ++ [.replayed entry] ∧
    Quiet events ∧ (Accepted events ↔ hasAuthPhase chain = true))

/-- **Running a chain**, from any point of it. -/
theorem execute_passed {result : Except PluginError Bool} (hsorted : Sorted (pre ++ chain))
    (h : Passed w route method pre ctx) (hran : execute g w caches route chain ctx = (ctx', result)) :
    if result = .ok false then Passed w route method (pre ++ chain) ctx' else Stopped (pre ++ chain) ctx' := by
  -- induction on the rest of the chain; `pre` is what has been passed
  induction chain generalizing pre ctx with
  | nil =>
    cases hran
    rw [if_pos rfl, List.append_nil]
    exact h
  | cons p chain ih =>
    have hafter : ∀ q ∈ pre, runsBefore p q = false := fun q hq =>
      (List.pairwise_append.1 hsorted).2.2 q hq p List.mem_cons_self
    have hstep := runPlugin_step g w caches route p ctx
    rw [execute] at hran
    generalize runPlugin g w caches route p ctx = ran at hran hstep
    obtain ⟨ctx₁, result₁⟩ := ran
    match result₁, hstep with
    | .error err, hstep =>
      cases hran
      cases hstep
      exact Or.inl h.quiet
    | .ok true, hstep =>
      cases hran
      rw [if_neg (by simp)]
      cases hstep with
      | replayed entry reason hname =>
        refine Or.inr ⟨⟨p, by simp, hname⟩, ctx.events, entry, rfl, h.quiet, h.accepted.trans ?_⟩
        -- no plugin of the auth phase comes after a cache
        have hrest : hasAuthPhase (p :: chain) = false := by
          refine List.any_eq_false.2 fun q hq hauth => ?_
          rcases List.mem_cons.1 hq with rfl | hq
          · rw [hname] at hauth
            cases hauth
          · have hle := order_le ((List.pairwise_cons.1 (List.pairwise_append.1 hsorted).2.1).1 q hq)
            rw [hname, of_decide_eq_true hauth] at hle
            exact absurd hle (by decide)
        unfold hasAuthPhase at hrest ⊢
        rw [List.any_append, hrest, Bool.or_false]
      | passed request handled hauth hname hmethod => exact Or.inl h.quiet
    | .ok false, hstep =>
      have hnext := h.step hafter hstep
      have hrunning : ctx₁.aborted = none := hnext.running
      simp only [hrunning, Option.isSome_none, Bool.false_eq_true, if_false] at hran
      rw [List.append_cons] at hsorted ⊢
      exact ih hsorted hnext hran

/-! ## After the chain -/

theorem executeAuthChain_ok (h : executeAuthChain g w route ctx = .ok ctx') :
    (ctx' = ctx ∧ (g.authRequired = false ∨ g.pipelines.authFlag route = true)) ∨
      ∃ c, ctx' = { ctx with consumer := c }.log .apiKeyAccepted ∧ g.authRequired = true ∧
        g.pipelines.authFlag route = false := by
  unfold executeAuthChain at h
  split at h
  · rename_i hneeded
    rw [Bool.and_eq_true, Bool.not_eq_true'] at hneeded
    split at h
    · cases h
    · split at h
      · cases h
      · rename_i c _
        cases h
        exact Or.inr ⟨c, rfl, hneeded⟩
  · rename_i hneeded
    cases h
    refine Or.inl ⟨rfl, ?_⟩
    cases hreq : g.authRequired with
    | false => exact Or.inl rfl
    | true => exact Or.inr (by simpa [hreq] using hneeded)

/-- An event by which the proxy or the federation executor sends bytes. -/
def Event.delivers : Event → Prop
  | .forwarded _ | .federated => True
  | _ => False

theorem Event.delivers.sends (h : e.delivers) : e.sends = true := by
  cases e with
  | forwarded _ => rfl
  | federated => rfl
  | _ => cases h

/-- How a request for a route ends. -/
inductive Ends (g : Server χ π) (w : Outside π) (route : Route χ) (method : Text) (served : Served) : Prop
  | stopped (ctx : Ctx) (hctx : Stopped (g.pipelines.chainFor route) ctx) (hevents : served.events = ctx.events)
      (houtcome : served.outcome = .answered)
  | through (ctx ctx' : Ctx) (tail : List Event) (hctx : Passed w route method (g.pipelines.chainFor route) ctx)
      (hauth : executeAuthChain g w route ctx = .ok ctx') (hevents : served.events = ctx'.events ++ tail)
      (htail : tail = [] ∨ ∃ e, tail = [e] ∧ e.delivers)
      (houtcome : ∀ c, served.outcome = .reached c → c = ctx'.consumer)

theorem serveRoute_ends {m : Matched χ} (hsorted : Sorted (g.pipelines.chainFor m.route)) (caches : Caches)
    (request : Request) :
    Ends g w m.route request.method (serveRoute g w caches m request) := by
  have hexec : ∀ {ctx result}, execute g w caches m.route (g.pipelines.chainFor m.route)
      ⟨{ request with path := m.path }, none, none, []⟩ = (ctx, result) → if result = .ok false then
        Passed w m.route request.method (g.pipelines.chainFor m.route) ctx
          else Stopped (g.pipelines.chainFor m.route) ctx :=
    execute_passed hsorted (passed_start w m.route { request with path := m.path })
  unfold serveRoute
  simp only
  split
  · rename_i ctx err hran
    exact .stopped ctx (hexec hran) rfl rfl
  · rename_i ctx hran
    exact .stopped ctx (hexec hran) rfl rfl
  · rename_i ctx hran
    have hctx : Passed w m.route request.method (g.pipelines.chainFor m.route) ctx := hexec hran
    split
    · exact .stopped ctx (Or.inl hctx.quiet) rfl rfl
    · rename_i ctx' hauth
      split
      · exact .through ctx ctx' [] hctx hauth (List.append_nil _).symm (Or.inl rfl) (by rintro c ⟨⟩)
      · split
        · by_cases hfed : w.federation = true
          · exact .through ctx ctx' [.federated] hctx hauth (if_pos hfed) (Or.inr ⟨_, rfl, trivial⟩)
              (by rintro c ⟨⟩; rfl)
          · exact .through ctx ctx' [] hctx hauth ((if_neg hfed).trans (List.append_nil _).symm) (Or.inl rfl)
              (by rintro c ⟨⟩; rfl)
        · unfold serveUpstream
          split
          · exact .through ctx ctx' [] hctx hauth (List.append_nil _).symm (Or.inl rfl) (by rintro c ⟨⟩; rfl)
          · rename_i entry _
            exact .through ctx ctx' [.forwarded entry] hctx hauth rfl (Or.inr ⟨_, rfl, trivial⟩) (by rintro c ⟨⟩; rfl)

/-! ## Which requests go to a route -/

/-- The route to which a request goes that none of the built-in endpoints takes. -/
def Server.routed (g : Server χ π) (w : Outside π) (request : Request) : Option (Matched χ) :=
  if w.bodyRejected || isBuiltIn request.path || (g.federationEnabled && request.path = "/graphql/batch".toList) then
    none
  else g.router.match request.host request.method request.path

theorem serveHTTP_routed {request : Request} {m : Matched χ} (h : g.routed w request = some m) :
    serveHTTP g w caches request = serveRoute g w caches m request := by
  unfold Server.routed at h
  split at h
  · cases h
  · rename_i hnot
    simp only [Bool.or_eq_true, not_or, Bool.not_eq_true] at hnot
    obtain ⟨⟨hbody, hbuiltIn⟩, hbatch⟩ := hnot
    unfold serveHTTP
    simp only [hbody, hbuiltIn, hbatch, h, Bool.false_eq_true, if_false]

/-! ## Authentication -/

/-- Every event that sends bytes comes after one by which the request was accepted. -/
def Mediated (events : List Event) : Prop :=
  ∀ before e after, events = before ++ e :: after → e.sends = true → Accepted before

theorem mediated_of_quiet (h : Quiet events) : Mediated events := by
  rintro before e after rfl hsends
  have hquiet := h e (by simp)
  rw [hquiet] at hsends
  cases hsends

theorem mediated_snoc (h : Quiet events) (he : e.sends = true) : Mediated (events ++ [e]) ↔ Accepted events := by
  constructor
  · exact fun hmed => hmed events e [] rfl he
  · rintro hacc before e' after heq hsends
    -- the last event is the only one that sends
    rcases List.eq_nil_or_concat after with rfl | ⟨after, last, rfl⟩
    · rw [(List.append_inj' heq rfl).1] at hacc
      exact hacc
    · have hmem : events = before ++ e' :: after := by
        have : events ++ [e] = (before ++ e' :: after) ++ [last] := by simpa using heq
        exact (List.append_inj' this rfl).1
      have hquiet := h e' (by simp [hmem])
      rw [hquiet] at hsends
      cases hsends

/-- What goes to no route is mediated. -/
theorem mediated_of_not_routed {request : Request} (hreq : g.authRequired = true) (h : g.routed w request = none) :
    Mediated (serveHTTP g w caches request).events := by
  have hnil : Mediated [] := mediated_of_quiet (by simp [Quiet])
  have hkey : Quiet [.apiKeyAccepted] := by simp [Quiet, Event.sends]
  unfold serveHTTP
  split
  · exact hnil
  · split
    · exact hnil
    · split
      · unfold serveFederationBatch
        split
        · exact hnil
        · split
          · exact hnil
          · split
            · exact hnil
            · simp only
              split
              · exact (mediated_snoc hkey rfl).2 ⟨.apiKeyAccepted, by simp, rfl⟩
              · exact mediated_of_quiet hkey
      · rename_i hbody hbuiltIn hbatch
        have hnot : ¬(w.bodyRejected || isBuiltIn request.path ||
            (g.federationEnabled && request.path = "/graphql/batch".toList)) = true := by
          rw [Bool.or_eq_true, Bool.or_eq_true]
          rintro ((h | h) | h)
          · exact hbody h
          · exact hbuiltIn h
          · exact hbatch h
        rw [Server.routed, if_neg hnot] at h
        rw [h]
        exact hnil

/-- What a request leaves that got through the pipeline and `executeAuthChain`. -/
theorem accepted_through (hreq : g.authRequired = true) (hctx : Passed w route method chain ctx)
    (hauth : executeAuthChain g w route ctx = .ok ctx') :
    Quiet ctx'.events ∧ (Accepted ctx'.events ↔ hasAuthPhase chain = true ∨ g.pipelines.authFlag route = false) := by
  rcases executeAuthChain_ok hauth with ⟨rfl, hnot | hflag⟩ | ⟨c, rfl, -, hflag⟩
  · rw [hreq] at hnot
    cases hnot
  · refine ⟨hctx.quiet, hctx.accepted.trans (or_iff_left ?_).symm⟩
    rw [hflag]
    exact Bool.true_eq_false_eq_False
  · exact ⟨quiet_snoc.2 ⟨hctx.quiet, rfl⟩, iff_of_true (accepted_snoc.2 (Or.inr rfl)) (Or.inr hflag)⟩

/-- A request that meets a plugin of the auth phase is sent nothing before it is accepted. -/
theorem mediated_of_hasAuthPhase {m : Matched χ} (hreq : g.authRequired = true)
    (hsorted : Sorted (g.pipelines.chainFor m.route))
    (hphase : hasAuthPhase (g.pipelines.chainFor m.route) = true) (caches : Caches) (request : Request) :
    Mediated (serveRoute g w caches m request).events := by
  obtain ⟨ctx, hctx, hevents, -⟩ | ⟨ctx, ctx', tail, hctx, hauth, hevents, htail, -⟩ :=
    serveRoute_ends (w := w) hsorted caches request
  · rw [hevents]
    rcases hctx with hquiet | ⟨-, events, entry, hlast, hquiet, hacc⟩
    · exact mediated_of_quiet hquiet
    · rw [hlast, mediated_snoc hquiet rfl]
      exact hacc.2 hphase
  · obtain ⟨hquiet, hacc⟩ := accepted_through hreq hctx hauth
    rw [hevents]
    rcases htail with rfl | ⟨e, rfl, he⟩
    · rw [List.append_nil]
      exact mediated_of_quiet hquiet
    · rw [mediated_snoc hquiet he.sends]
      exact hacc.2 (.inl hphase)

/-! ### A chain without a plugin of the auth phase -/

/-- What a plugin that neither authenticates nor answers from a cache leaves of a request, if it passes it on. -/
def passOn (w : Outside π) (request : Request) (p : PipelinePlugin π) : Option Request :=
  let ran := w.other p request
  if p.name = .cache ∨ p.name = .endpointPermission then some request
  else if ran.result.toOption = some false then
    some ⟨if p.name = .requestTransform then ran.method else request.method, request.host, ran.path, ran.header⟩
  else none

/-- The cache plugin has an entry for the request that has not expired. -/
def Holds (g : Server χ π) (w : Outside π) (caches : Caches) (p : PipelinePlugin π) (request : Request) : Prop :=
  p.name = .cache ∧ g.canCache p request = true ∧ w.fresh p = true ∧
    (caches.get p.id (g.cacheKey p request)).isSome = true

/-- A cache of the chain has an entry for the request as the plugins before it pass it on. -/
def InCache (g : Server χ π) (w : Outside π) (caches : Caches) (chain : List (PipelinePlugin π))
    (request : Request) : Prop :=
  ∃ pre p post request', chain = pre ++ p :: post ∧ pre.foldlM (passOn w) request = some request' ∧
    Holds g w caches p request'

/-- Billing lets a request for the service through and the upstream or the executor answers it. -/
def Outside.responds (w : Outside π) (g : Server χ π) (service : Service) : Bool :=
  w.billing && if service.protocol = "graphql".toList && g.federationEnabled then w.federation else w.upstream.isSome

theorem inCache_cons {request : Request} : InCache g w caches (p :: chain) request ↔
    Holds g w caches p request ∨ ∃ request', passOn w request p = some request' ∧
      InCache g w caches chain request' := by
  constructor
  · rintro ⟨_ | ⟨q, pre⟩, p', post, request', hchain, hpre, hholds⟩
    · cases hchain
      cases hpre
      exact .inl hholds
    · cases hchain
      rw [List.foldlM_cons] at hpre
      obtain ⟨request₁, hq, hpre⟩ := Option.bind_eq_some_iff.1 hpre
      exact .inr ⟨request₁, hq, pre, p', post, request', rfl, hpre, hholds⟩
  · rintro (hholds | ⟨request₁, hp, pre, p', post, request', rfl, hpre, hholds⟩)
    · exact ⟨[], p, chain, request, rfl, rfl, hholds⟩
    · refine ⟨p :: pre, p', post, request', rfl, ?_, hholds⟩
      rw [List.foldlM_cons, hp]
      exact hpre

/-- One plugin that does not authenticate, for a request without a consumer. -/
theorem runPlugin_anonymous (g : Server χ π) (w : Outside π) (caches : Caches) (route : Route χ)
    (hauth : p.name.phase ≠ .auth)
    (hconsumer : ctx.consumer = none) (hrunning : ctx.aborted = none) :
    (Holds g w caches p ctx.request ∧ ∃ entry reason,
      runPlugin g w caches route p ctx = ({ ctx with aborted := reason }.log (.replayed entry), .ok true)) ∨
    ¬Holds g w caches p ctx.request ∧ ∃ request result,
      runPlugin g w caches route p ctx = ({ ctx with request := request }, result) ∧
        passOn w ctx.request p = if result.toOption = some false then some request else none := by
  obtain ⟨request, consumer, aborted, events⟩ := ctx
  cases hconsumer
  cases hrunning
  by_cases hcache : p.name = .cache
  · by_cases hholds : Holds g w caches p request
    · obtain ⟨-, hcan, hfresh, hsome⟩ := id hholds
      obtain ⟨entry, hentry⟩ := Option.isSome_iff_exists.1 hsome
      refine .inl ⟨hholds, entry, some "served_from_cache".toList, ?_⟩
      simp only [runPlugin, hcache, hcan, hentry, hfresh, if_true, Option.filter_some]
    · refine .inr ⟨hholds, request, .ok false, ?_, by simp [passOn, hcache, Except.toOption]⟩
      simp only [runPlugin, hcache]
      split
      · rename_i hcan
        split
        · rename_i entry hentry
          obtain ⟨hget, hfresh⟩ := Option.filter_eq_some_iff.1 hentry
          exact absurd ⟨hcache, hcan, hfresh, by rw [hget]; rfl⟩ hholds
        · rfl
      · rfl
  · have hholds : ¬Holds g w caches p request := fun h => hcache h.1
    refine .inr ⟨hholds, ?_⟩
    by_cases hperm : p.name = .endpointPermission
    · refine ⟨request, .ok false, ?_, by simp [passOn, hperm, Except.toOption]⟩
      have heval : evaluate w.lookup w.now (permissionRouteID route) request.method none = .ok none := by
        unfold evaluate
        cases w.lookup <;> rfl
      simp [runPlugin, hperm, heval]
    · refine ⟨⟨if p.name = .requestTransform then (w.other p request).method else request.method, request.host,
        (w.other p request).path, (w.other p request).header⟩, (w.other p request).result, ?_,
        by simp [passOn, hcache, hperm]⟩
      unfold runPlugin
      split
      · rename_i hname
        exact absurd (by rw [hname]; rfl) hauth
      · rename_i hname
        exact absurd (by rw [hname]; rfl) hauth
      · rename_i hname
        exact absurd hname hperm
      · rename_i hname
        exact absurd hname hcache
      · rename_i hname
        simp [hname]
      · rename_i hname
        simp only [if_neg hname]

/-- A chain without a plugin of the auth phase: a cache answers, or the request goes as far as the plugins pass it
on. -/
theorem execute_anonymous (g : Server χ π) (w : Outside π) (caches : Caches) (route : Route χ) (ctx : Ctx)
    (hphase : hasAuthPhase chain = false) (hconsumer : ctx.consumer = none) (hrunning : ctx.aborted = none) :
    (InCache g w caches chain ctx.request ∧ ∃ entry ctx',
      execute g w caches route chain ctx = (ctx', .ok true) ∧ ctx'.events = ctx.events ++ [.replayed entry]) ∨
    ¬InCache g w caches chain ctx.request ∧ ∃ ctx' result, execute g w caches route chain ctx = (ctx', result) ∧
      ctx'.events = ctx.events ∧ (result.toOption = some false ↔
        (chain.foldlM (passOn w) ctx.request).isSome = true) := by
  induction chain generalizing ctx with
  | nil =>
    refine .inr ⟨?_, ctx, .ok false, rfl, rfl, by simp [Except.toOption]⟩
    rintro ⟨pre, p, post, _, hchain, -⟩
    cases pre <;> cases hchain
  | cons p chain ih =>
    obtain ⟨hp, hrest⟩ : p.name.phase ≠ .auth ∧ hasAuthPhase chain = false := by
      simpa [hasAuthPhase] using hphase
    rw [execute, inCache_cons, List.foldlM_cons]
    rcases runPlugin_anonymous g w caches route hp hconsumer hrunning with
      ⟨hholds, entry, reason, hran⟩ | ⟨hholds, request, result, hran, hpass⟩
    · rw [hran]
      exact .inl ⟨.inl hholds, entry, _, rfl, rfl⟩
    · rw [hran, hpass]
      rcases result with err | (_ | _)
      · exact .inr ⟨by simp [hholds, Except.toOption], _, _, rfl, rfl, by simp [Except.toOption]⟩
      · simp only [hrunning, hholds, false_or, Option.isSome_none, Bool.false_eq_true, if_false]
        simpa [Except.toOption] using @ih ⟨request, ctx.consumer, none, ctx.events⟩ hrest hconsumer rfl
      · exact .inr ⟨by simp [hholds, Except.toOption], _, _, rfl, rfl, by simp [Except.toOption]⟩

section

variable {m : Matched χ} {request : Request} {result : Except PluginError Bool}

theorem serveRoute_stopped (hran : execute g w caches m.route (g.pipelines.chainFor m.route)
      ⟨{ request with path := m.path }, none, none, []⟩ = (ctx, result)) (hstop : result.toOption ≠ some false) :
    (serveRoute g w caches m request).events = ctx.events := by
  unfold serveRoute
  simp only [hran]
  rcases result with err | (_ | _)
  · rfl
  · exact absurd rfl hstop
  · rfl

variable (hran : execute g w caches m.route (g.pipelines.chainFor m.route)
  ⟨{ request with path := m.path }, none, none, []⟩ = (ctx, .ok false))
include hran

theorem serveRoute_unauthorized {err : Unit} (hauth : executeAuthChain g w m.route ctx = .error err) :
    (serveRoute g w caches m request).events = ctx.events := by
  unfold serveRoute
  simp only [hran, hauth]

/-- A request that the pipeline and `executeAuthChain` let through. -/
theorem mediated_through (hauth : executeAuthChain g w m.route ctx = .ok ctx') (hquiet : Quiet ctx'.events) :
    Mediated (serveRoute g w caches m request).events ↔ Accepted ctx'.events ∨ w.responds g m.service = false := by
  have hnone : ∀ {b : Bool}, b = false → (Mediated ctx'.events ↔ Accepted ctx'.events ∨ b = false) :=
    fun h => iff_of_true (mediated_of_quiet hquiet) (.inr h)
  have hsent : ∀ {b : Bool} {e : Event}, b = true → e.sends = true →
      (Mediated (ctx'.events ++ [e]) ↔ Accepted ctx'.events ∨ b = false) := by
    rintro _ e rfl he
    simp [mediated_snoc hquiet he]
  unfold serveRoute Outside.responds
  simp only [hran, hauth]
  cases hbilling : w.billing with
  | false => exact hnone rfl
  | true =>
    simp only [Bool.not_true, Bool.false_eq_true, if_false, Bool.true_and]
    split
    · cases hfed : w.federation with
      | false => exact hnone rfl
      | true => exact hsent rfl rfl
    · unfold serveUpstream
      cases hup : w.upstream with
      | none => exact hnone rfl
      | some entry => exact hsent rfl rfl

end

/-- Without a plugin of the auth phase nothing has accepted the request. -/
theorem mediated_anonymous_iff {m : Matched χ} {request : Request} (hreq : g.authRequired = true)
    (hphase : hasAuthPhase (g.pipelines.chainFor m.route) = false) :
    Mediated (serveRoute g w caches m request).events ↔
      ¬InCache g w caches (g.pipelines.chainFor m.route) { request with path := m.path } ∧
        (g.pipelines.authFlag m.route = true →
          ((g.pipelines.chainFor m.route).foldlM (passOn w) { request with path := m.path }).isSome = true →
          w.responds g m.service = false) := by
  have hquiet : Quiet [] := by simp [Quiet]
  rcases execute_anonymous g w caches m.route ⟨{ request with path := m.path }, none, none, []⟩ hphase rfl rfl with
    ⟨hin, entry, ctx, hran, hevents⟩ | ⟨hnot, ctx, result, hran, hevents, hpass⟩
  · -- a cache answers a request that nothing has accepted
    refine iff_of_false ?_ fun h => h.1 hin
    rw [serveRoute_stopped hran (by simp [Except.toOption]), hevents, mediated_snoc hquiet rfl]
    rintro ⟨e, he, -⟩
    cases he
  · simp only [hnot, not_false_iff, true_and, ← hpass]
    by_cases hthrough : result.toOption = some false
    · cases ok_of_toOption hthrough
      cases hflag : g.pipelines.authFlag m.route with
      | true =>
        have hauth : executeAuthChain g w m.route ctx = .ok ctx := by simp [executeAuthChain, hflag]
        rw [mediated_through hran hauth (hevents ▸ hquiet), hevents]
        simp [Accepted, Except.toOption]
      | false =>
        refine iff_of_true ?_ (by simp)
        cases hauth : executeAuthChain g w m.route ctx with
        | error err =>
          rw [serveRoute_unauthorized hran hauth, hevents]
          exact mediated_of_quiet hquiet
        | ok ctx' =>
          rcases executeAuthChain_ok hauth with ⟨-, hno | hno⟩ | ⟨c, rfl, -⟩
          · simp [hreq] at hno
          · simp [hflag] at hno
          · rw [mediated_through hran hauth (quiet_snoc.2 ⟨hevents ▸ hquiet, rfl⟩)]
            exact .inl (accepted_snoc.2 (.inr rfl))
    · rw [serveRoute_stopped hran hthrough, hevents]
      exact iff_of_true (mediated_of_quiet hquiet) fun _ h => absurd h hthrough

/-- **Bytes are sent to authenticated requests only**, iff the chain has a plugin of the auth phase, or no cache of the
chain has an entry for the request and, if the route is flagged, the request does not get through to an answer. -/
theorem authenticated_first_iff [Inhabited χ] {s : Setup χ π} {cfg : Config χ} (hnew : Server.new s cfg = .ok g)
    (hconsumers : 0 < s.consumers) (history : List (Outside π × Request)) (w : Outside π) (request : Request) :
    Mediated (serveHTTP g w (serveAll g .empty history) request).events ↔
      ∀ m, g.routed w request = some m → hasAuthPhase (g.pipelines.chainFor m.route) = true ∨
        ¬InCache g w (serveAll g .empty history) (g.pipelines.chainFor m.route) { request with path := m.path } ∧
          (g.pipelines.authFlag m.route = true →
            ((g.pipelines.chainFor m.route).foldlM (passOn w) { request with path := m.path }).isSome = true →
            w.responds g m.service = false) := by
  generalize serveAll g .empty history = caches
  obtain ⟨hreq, bs, hbs, hsorted⟩ := new_ok hnew
  rw [decide_eq_true hconsumers] at hreq
  cases hm : g.routed w request with
  | none => exact iff_of_true (mediated_of_not_routed hreq hm) (by rintro m ⟨⟩)
  | some m =>
    rw [serveHTTP_routed hm]
    have hchain : Sorted (g.pipelines.chainFor m.route) := hbs ▸ sorted_chainFor hsorted m.route
    simp only [Option.some.injEq, forall_eq']
    cases hphase : hasAuthPhase (g.pipelines.chainFor m.route) with
    | true => exact iff_of_true (mediated_of_hasAuthPhase hreq hchain hphase caches request) (.inl rfl)
    | false =>
      rw [mediated_anonymous_iff hreq hphase]
      simp

/-! ### A route with a cache and no plugin of the auth phase -/

/-- One route with the given plugins. -/
def oneRoute (plugins : List PluginName) : Config Unit where
  globalPlugins := []
  routes := [⟨"r1".toList, "users".toList, "users".toList, [], ["/users".toList], [], false, 0, plugins.map bareSpec⟩]
  services := [⟨"s1".toList, "users".toList, "http".toList, "up".toList, 0⟩]

/-- One consumer; the caches take every request, by its path. -/
def oneConsumer : Setup Unit Unit where
  compile := fun _ => .ok fun _ => false
  factories := anyFactories
  store := .ok true
  consumers := 1
  federationEnabled := false
  canCache := fun _ _ => true
  cacheKey := fun _ request => request.path

def usersRequest : Request := ⟨"GET".toList, [], "/users".toList, .empty⟩

def usersResponse : CacheEntry := ⟨200, [104, 105]⟩

def alice : Consumer := ⟨"alice".toList, "Alice".toList⟩

/-- Every authentication gives `key`, every lookup gives `record`, and the upstream answers. -/
def outside (key : Except PluginError (Option Consumer)) (record : PermissionRecord) : Outside Unit where
  bodyRejected := false
  apiKey := fun _ => key
  pluginKey := fun _ _ => key
  jwt := fun _ _ => .error (permissionError "invalid_jwt" "Invalid JWT" 401)
  lookup := some fun _ _ => .ok (some record)
  now := ⟨0, 0, 0, 0⟩
  other := fun _ request => ⟨request.method, request.path, request.header, .ok false⟩
  fresh := fun _ => true
  billing := true
  federation := false
  upstream := some usersResponse
  stores := fun _ => true

def noKey : Except PluginError (Option Consumer) := .error (permissionError "missing_api_key" "API key is required" 401)

/-- A record that says nothing but whether access is allowed. -/
def record (allowed : Bool) : PermissionRecord := ⟨[], allowed, none, none, [], []⟩

/-- What a user without a key gets after `alice` has asked for the same path. -/
def secondRequest (g : Server Unit Unit) : Served :=
  serveHTTP g (outside noKey (record true))
    (serveAll g .empty [(outside (.ok (some alice)) (record true), usersRequest)])
    usersRequest

/-- **A cache answers a request without a key**: the response to an authenticated request is replayed before
`executeAuthChain` is reached. -/
theorem replayed_without_key :
    ∃ g, Server.new oneConsumer (oneRoute [.cache]) = .ok g ∧ ¬Mediated (secondRequest g).events := by
  have hrun : (Server.new oneConsumer (oneRoute [.cache])).toOption.map (fun g => (secondRequest g).events) =
      some [.replayed usersResponse] := by decide +kernel
  obtain ⟨g, hg, hevents⟩ := Option.map_eq_some_iff.1 hrun
  refine ⟨g, ok_of_toOption hg, ?_⟩
  rw [hevents]
  intro hmed
  obtain ⟨e, he, -⟩ := hmed [] (.replayed usersResponse) [] rfl rfl
  cases he

theorem authenticated_first_iff_apiKey :
    ∃ g, Server.new oneConsumer (oneRoute [.authAPIKey, .cache]) = .ok g ∧
      Mediated (serveHTTP g (outside (.ok (some alice)) (record true)) .empty usersRequest).events := by
  have hrun : (Server.new oneConsumer (oneRoute [.authAPIKey, .cache])).toOption.map (fun g =>
      (g.routed (outside (.ok (some alice)) (record true)) usersRequest).map fun m =>
        hasAuthPhase (g.pipelines.chainFor m.route)) = some (some true) := by decide +kernel
  obtain ⟨g, hg, hauth⟩ := Option.map_eq_some_iff.1 hrun
  refine ⟨g, ok_of_toOption hg, ?_⟩
  refine (authenticated_first_iff (ok_of_toOption hg) (by decide) [] _ usersRequest).2 fun m hm => Or.inl ?_
  rw [hm] at hauth
  exact Option.some.inj hauth

/-! ## Permissions -/

/-- **The consumer that reaches the upstream has been checked**, iff permissions can be looked up and the chain has a
plugin of the auth phase. -/
theorem permission_checked_iff [Inhabited χ] {s : Setup χ π} {cfg : Config χ} (hnew : Server.new s cfg = .ok g)
    (history : List (Outside π × Request)) (w : Outside π) (request : Request) {m : Matched χ}
    (hm : g.routed w request = some m) (hplugin : ∃ p ∈ g.pipelines.chainFor m.route, p.name = .endpointPermission)
    {c : Consumer} (hc : (serveHTTP g w (serveAll g .empty history) request).outcome = .reached (some c)) :
    Checked w m.route request.method c (serveHTTP g w (serveAll g .empty history) request).events ↔
      w.lookup ≠ none ∧ permissionRouteID m.route ≠ [] ∧ hasAuthPhase (g.pipelines.chainFor m.route) = true := by
  revert hc
  generalize serveAll g .empty history = caches
  rw [serveHTTP_routed hm]
  intro hc
  obtain ⟨-, bs, hbs, hsorted⟩ := new_ok hnew
  have hchain : Sorted (g.pipelines.chainFor m.route) := hbs ▸ sorted_chainFor hsorted m.route
  obtain ⟨ctx, hctx, -, houtcome⟩ | ⟨ctx, ctx', tail, hctx, hauth, hevents, htail, houtcome⟩ :=
    serveRoute_ends (w := w) hchain caches request
  · rw [hc] at houtcome
    cases houtcome
  have hconsumer := houtcome _ hc
  rw [hevents]
  constructor
  · rintro ⟨lookup, record, -, -, hmem, -⟩
    -- the event comes from the pipeline
    have hin : .permitted ⟨Text.trimSpace c.id, permissionRouteID m.route, record⟩ request.method ∈ ctx.events := by
      rcases List.mem_append.1 hmem with hmem | hmem
      · rcases executeAuthChain_ok hauth with ⟨rfl, -⟩ | ⟨c', rfl, -⟩
        · exact hmem
        · rcases List.mem_append.1 hmem with hmem | hmem
          · exact hmem
          · cases List.mem_singleton.1 hmem
      · rcases htail with rfl | ⟨e, rfl, he⟩
        · cases hmem
        · rw [← List.mem_singleton.1 hmem] at he
          cases he
    obtain ⟨hphase, hlookup, hroute⟩ := hctx.permitted _ _ hin
    exact ⟨hlookup, hroute, hphase⟩
  · rintro ⟨hlookup, hroute, hphase⟩
    have hflag : g.pipelines.authFlag m.route = true := by
      rw [hbs] at hphase ⊢
      exact authFlag_of_chainFor hphase
    rcases executeAuthChain_ok hauth with ⟨rfl, -⟩ | ⟨c', -, -, hnot⟩
    · obtain ⟨lookup, record, hl, hr, hmem, hallows⟩ := hctx.checked hplugin hlookup hroute c hconsumer.symm
      exact ⟨lookup, record, hl, hr, List.mem_append_left _ hmem, hallows⟩
    · rw [hflag] at hnot
      cases hnot

/-! ### A route with permissions and no plugin of the auth phase -/

/-- What `alice` gets. -/
def aliceRequest (allowed : Bool) (g : Server Unit Unit) : Served :=
  serveHTTP g (outside (.ok (some alice)) (record allowed)) .empty usersRequest

/-- **A consumer that has no permission reaches the upstream**: the plugin ran before there was a consumer. -/
theorem consumer_not_checked :
    ∃ g m, Server.new oneConsumer (oneRoute [.endpointPermission]) = .ok g ∧
      g.routed (outside (.ok (some alice)) (record false)) usersRequest = some m ∧
      (g.pipelines.chainFor m.route).map PipelinePlugin.name = [.endpointPermission] ∧
      (aliceRequest false g).outcome = .reached (some alice) ∧
      ¬Checked (outside (.ok (some alice)) (record false)) m.route usersRequest.method alice
        (aliceRequest false g).events := by
  have hrun : (Server.new oneConsumer (oneRoute [.endpointPermission])).toOption.map (fun g =>
      ((g.routed (outside (.ok (some alice)) (record false)) usersRequest).map fun m =>
        (g.pipelines.chainFor m.route).map PipelinePlugin.name, (aliceRequest false g).outcome,
          (aliceRequest false g).events)) =
      some (some [.endpointPermission], .reached (some alice), [.apiKeyAccepted, .forwarded usersResponse]) := by
    decide +kernel
  obtain ⟨g, hg, hserved⟩ := Option.map_eq_some_iff.1 hrun
  obtain ⟨hchain, hserved⟩ := Prod.mk.inj hserved
  obtain ⟨houtcome, hevents⟩ := Prod.mk.inj hserved
  obtain ⟨m, hm, hnames⟩ := Option.map_eq_some_iff.1 hchain
  refine ⟨g, m, ok_of_toOption hg, hm, hnames, houtcome, ?_⟩
  rintro ⟨lookup, record, -, -, hmem, -⟩
  rw [hevents] at hmem
  simp at hmem

theorem permission_checked_iff_apiKey :
    ∃ g m, Server.new oneConsumer (oneRoute [.authAPIKey, .endpointPermission]) = .ok g ∧
      g.routed (outside (.ok (some alice)) (record true)) usersRequest = some m ∧
      (aliceRequest true g).outcome = .reached (some alice) ∧
      Checked (outside (.ok (some alice)) (record true)) m.route usersRequest.method alice
        (aliceRequest true g).events := by
  have hrun : (Server.new oneConsumer (oneRoute [.authAPIKey, .endpointPermission])).toOption.map (fun g =>
      ((g.routed (outside (.ok (some alice)) (record true)) usersRequest).map fun m =>
        ((g.pipelines.chainFor m.route).any fun p => p.name = .endpointPermission, permissionRouteID m.route,
          hasAuthPhase (g.pipelines.chainFor m.route)), (aliceRequest true g).outcome)) =
      some (some (true, "r1".toList, true), .reached (some alice)) := by
    decide +kernel
  obtain ⟨g, hg, hserved⟩ := Option.map_eq_some_iff.1 hrun
  obtain ⟨hroute, houtcome⟩ := Prod.mk.inj hserved
  obtain ⟨m, hm, hfacts⟩ := Option.map_eq_some_iff.1 hroute
  obtain ⟨hplugin, hfacts⟩ := Prod.mk.inj hfacts
  obtain ⟨hid, hauth⟩ := Prod.mk.inj hfacts
  refine ⟨g, m, ok_of_toOption hg, hm, houtcome, ?_⟩
  refine (permission_checked_iff (ok_of_toOption hg) [] _ usersRequest hm ?_ houtcome).2 ⟨?_, ?_, hauth⟩
  · obtain ⟨p, hp, hname⟩ := List.any_eq_true.1 hplugin
    exact ⟨p, hp, of_decide_eq_true hname⟩
  · exact Option.some_ne_none _
  · rw [hid]
    decide

end Gateway
