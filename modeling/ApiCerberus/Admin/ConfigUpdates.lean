import ApiCerberus.Lib.Text
import ApiCerberus.Lib.Transition
import Mathlib.Data.List.Nodup

/-!
# Changes of the configuration

`mutateConfig` (`internal/admin/server.go:684-700`) and `Gateway.Reload` (`internal/gateway/server.go:447-573`). Any
number of requests, each of which copies the configuration under the read lock, changes its copy, hands it to the
gateway, and publishes it under the write lock. The gateway builds a router, a store and pipelines of it first, which
can fail; then it takes it in a critical section. `CloneConfig` copies all that the changes write to, so that a copy is
a value here.

Nothing keeps a second request from copying the configuration before the first has published its own. The one that
publishes last then drops the change of the other, and the gateway may have taken the two in the other order
(`change_dropped`). `serializable`: the changes are applied one after the other if each copy is still current when the
gateway takes it, and no other request is about to publish.
-/

namespace Admin

open Transition

abbrev CallId := Nat

variable {C : Type}

/-! ## Requests -/

inductive Request (C : Type)
  | mutate (mutator : C → Except String C)
  /-- `handleConfigReload`. -/
  | reload

/-- Where a call has got to. -/
inductive Phase (C : Type)
  /-- The copy is changed. -/
  | changing
  | reloading (next : C)
  | publishing (next : C)
  | returned (result : Except String Unit)

structure Call (C : Type) where
  request : Request C
  /-- What `CloneConfig` gave. -/
  copy : C
  phase : Phase C

/-- The server's configuration, the gateway's, and the calls under way. -/
structure State (C : Type) where
  cfg : C
  config : C
  calls : CallId → Option (Call C)

inductive Action (C : Type)
  | clone (c : CallId) (request : Request C)
  | change (c : CallId)
  /-- With the error of `Reload`, if it fails. -/
  | reload (c : CallId) (err : Option String)
  | publish (c : CallId)

namespace State

variable (s : State C) (c : CallId)

def setPhase (call : Call C) (p : Phase C) : State C :=
  { s with calls := Function.update s.calls c (some { call with phase := p }) }

/-- `CloneConfig`, under the read lock. -/
def clone (request : Request C) : Option (State C) :=
  match s.calls c with
  | some _ => none
  | none => some { s with calls := Function.update s.calls c (some ⟨request, s.cfg, .changing⟩) }

/-- What the mutator makes of the copy. -/
def changed (call : Call C) : Phase C :=
  match call.request with
  | .reload => .reloading call.copy
  | .mutate mutator =>
    match mutator call.copy with
    | .error err => .returned (.error err)
    | .ok next => .reloading next

/-- The copy is changed without a lock. -/
def change : Option (State C) := do
  let call ← s.calls c
  match call.phase with
  | .changing => some (s.setPhase c call (changed call))
  | _ => none

/-- What follows when the gateway has the configuration. -/
def accepted (call : Call C) (next : C) : Phase C :=
  match call.request with
  | .reload => .returned (.ok ())
  | .mutate _ => .publishing next

def reloaded (call : Call C) (next : C) : State C := { s.setPhase c call (accepted call next) with config := next }

def reload (err : Option String) : Option (State C) := do
  let call ← s.calls c
  match call.phase, err with
  | .reloading _, some err => some (s.setPhase c call (.returned (.error err)))
  | .reloading next, none => some (s.reloaded c call next)
  | _, _ => none

def published (call : Call C) (next : C) : State C := { s.setPhase c call (.returned (.ok ())) with cfg := next }

/-- The new configuration is stored under the lock. -/
def publish : Option (State C) := do
  let call ← s.calls c
  match call.phase with
  | .publishing next => some (s.published c call next)
  | _ => none

def step : Action C → Option (State C)
  | .clone c request => s.clone c request
  | .change c => s.change c
  | .reload c err => s.reload c err
  | .publish c => s.publish c

end State

/-- Both begin with the same configuration. -/
def system (cfg : C) : System (State C) (Action C) where
  init s := s = ⟨cfg, cfg, fun _ => none⟩
  step s a := s.step a

/-! ## What a step does -/

variable {cfg : C} {s t : State C} {c : CallId}

theorem clone_cases {request : Request C} (h : s.clone c request = some t) :
    s.calls c = none ∧ t = { s with calls := Function.update s.calls c (some ⟨request, s.cfg, .changing⟩) } := by
  unfold State.clone at h
  split at h
  · cases h
  · rename_i hc
    exact ⟨hc, (Option.some.inj h).symm⟩

theorem change_cases (h : s.change c = some t) : ∃ call, s.calls c = some call ∧ call.phase = .changing ∧
    t = s.setPhase c call (State.changed call) := by
  obtain ⟨call, hcall, h⟩ := Option.bind_eq_some_iff.1 h
  split at h
  · rename_i hphase
    exact ⟨call, hcall, hphase, (Option.some.inj h).symm⟩
  · cases h

theorem reload_cases {err : Option String} (h : s.reload c err = some t) : ∃ call next, s.calls c = some call ∧
    call.phase = .reloading next ∧ ((∃ e, err = some e ∧ t = s.setPhase c call (.returned (.error e))) ∨
      err = none ∧ t = s.reloaded c call next) := by
  obtain ⟨call, hcall, h⟩ := Option.bind_eq_some_iff.1 h
  split at h
  · rename_i next e hphase _
    exact ⟨call, next, hcall, hphase, .inl ⟨e, rfl, (Option.some.inj h).symm⟩⟩
  · rename_i next hphase _
    exact ⟨call, next, hcall, hphase, .inr ⟨rfl, (Option.some.inj h).symm⟩⟩
  · cases h

theorem publish_cases (h : s.publish c = some t) : ∃ call next, s.calls c = some call ∧ call.phase = .publishing next ∧
    t = s.published c call next := by
  obtain ⟨call, hcall, h⟩ := Option.bind_eq_some_iff.1 h
  split at h
  · rename_i next hphase
    exact ⟨call, next, hcall, hphase, (Option.some.inj h).symm⟩
  · cases h

/-! ## One after the other -/

/-- The call has changed the configuration. -/
def Succeeded (s : State C) (c : CallId) : Prop :=
  ∃ call mutator, s.calls c = some call ∧ call.request = .mutate mutator ∧ call.phase = .returned (.ok ())

/-- The change that a call makes. -/
def State.apply (s : State C) (cfg : C) (c : CallId) : Except String C :=
  match s.calls c with
  | some ⟨.mutate mutator, _, _⟩ => mutator cfg
  | _ => .ok cfg

/-- The configuration is what the changes of the calls that have succeeded make of the first one, in this order. -/
structure Serialized (cfg : C) (s : State C) (order : List CallId) : Prop where
  nodup : order.Nodup
  succeeded : ∀ c, c ∈ order ↔ Succeeded s c
  applied : order.foldlM s.apply cfg = .ok s.cfg

/-- The gateway takes a configuration whose original is still the current one, while nobody is about to publish. -/
def Undisturbed (s : State C) : Action C → Prop
  | .reload c none => (∀ call, s.calls c = some call → call.copy = s.cfg) ∧
      ∀ d call next, s.calls d = some call → call.phase ≠ .publishing next
  | _ => True

/-- What is known of a call in its phase. -/
def Call.Sound (s : State C) (call : Call C) : Prop :=
  match call.phase with
  | .reloading next => State.changed call = .reloading next
  | .publishing next => (∃ mutator, call.request = .mutate mutator ∧ mutator s.cfg = .ok next) ∧ s.config = next
  | _ => True

/-- The published configuration comes from the calls one after the other. -/
structure Serial (cfg : C) (s : State C) : Prop where
  order : ∃ order, Serialized cfg s order
  calls : ∀ c call, s.calls c = some call → call.Sound s
  /-- At most one call is about to publish. -/
  one : ∀ c d call call' next next', s.calls c = some call → s.calls d = some call' → call.phase = .publishing next →
    call'.phase = .publishing next' → c = d
  /-- If nobody is, the two are the same. -/
  same : (∀ c call next, s.calls c = some call → call.phase ≠ .publishing next) → s.config = s.cfg

theorem foldlM_congr {α β : Type} {m : Type → Type} [Monad m] {f g : β → α → m β} {l : List α}
    (h : ∀ a ∈ l, ∀ b, f b a = g b a) (b : β) :
    l.foldlM f b = l.foldlM g b := by
  induction l generalizing b with
  | nil => rfl
  | cons a l ih =>
    have hrest : ∀ b, l.foldlM f b = l.foldlM g b := ih fun x hx => h x (List.mem_cons_of_mem a hx)
    rw [List.foldlM_cons, List.foldlM_cons, h a List.mem_cons_self b]
    simp only [hrest]

section

variable {call call' : Call C} {order : List CallId}

theorem apply_of_ne (hcalls : t.calls = Function.update s.calls c (some call')) {d : CallId} (hd : d ≠ c) (cfg : C) :
    t.apply cfg d = s.apply cfg d := by
  unfold State.apply
  rw [hcalls, Function.update_of_ne hd]

theorem succeeded_of_ne (hcalls : t.calls = Function.update s.calls c (some call')) {d : CallId} (hd : d ≠ c) :
    Succeeded t d ↔ Succeeded s d := by
  unfold Succeeded
  rw [hcalls, Function.update_of_ne hd]

theorem Succeeded.phase (h : Succeeded s c) (hcall : s.calls c = some call) : call.phase = .returned (.ok ()) := by
  obtain ⟨x, mutator, hx, -, hphase⟩ := h
  rw [hcall] at hx
  cases hx
  exact hphase

/-- The changes before are not touched by a call that has not succeeded. -/
theorem Serialized.foldlM (hs : Serialized cfg s order) (hc : ¬ Succeeded s c)
    (hcalls : t.calls = Function.update s.calls c (some call')) : order.foldlM t.apply cfg = .ok s.cfg := by
  rw [← hs.applied]
  refine foldlM_congr (fun d hd b => apply_of_ne hcalls ?_ b) cfg
  rintro rfl
  exact hc ((hs.succeeded d).1 hd)

theorem Serialized.keep (hs : Serialized cfg s order) (hc : ¬ Succeeded s c)
    (hcalls : t.calls = Function.update s.calls c (some call')) (hcfg : t.cfg = s.cfg)
    (ht : ¬ Succeeded t c) : Serialized cfg t order := by
  refine ⟨hs.nodup, fun d => ?_, by rw [hs.foldlM hc hcalls, hcfg]⟩
  rw [hs.succeeded d]
  by_cases hd : d = c
  · subst hd
    exact iff_of_false hc ht
  · exact (succeeded_of_ne hcalls hd).symm

/-- A call that publishes is the next in the order. -/
theorem Serialized.publish (hs : Serialized cfg s order) (hcall : s.calls c = some call) {next : C}
    (hphase : call.phase = .publishing next)
    {mutator : C → Except String C} (hrequest : call.request = .mutate mutator) (hnext : mutator s.cfg = .ok next) :
    Serialized cfg (s.published c call next) (order ++ [c]) := by
  have hc : ¬ Succeeded s c := by
    intro h
    have := h.phase hcall
    rw [hphase] at this
    cases this
  have hself : (s.published c call next).calls c = some { call with phase := .returned (.ok ()) } :=
    Function.update_self _ _ _
  refine ⟨?_, fun d => ?_, ?_⟩
  · refine List.nodup_append.2 ⟨hs.nodup, List.nodup_singleton c, fun d hd e he hde => ?_⟩
    rw [List.mem_singleton.1 he] at hde
    subst hde
    exact hc ((hs.succeeded d).1 hd)
  · rw [List.mem_append, List.mem_singleton, hs.succeeded d]
    by_cases hd : d = c
    · subst hd
      exact iff_of_true (.inr rfl) ⟨_, mutator, hself, hrequest, rfl⟩
    · rw [or_iff_left hd]
      exact (succeeded_of_ne rfl hd).symm
  · have hone : (s.published c call next).apply s.cfg c = .ok next := by
      unfold State.apply
      simp only [hself, hrequest]
      exact hnext
    have hbefore : order.foldlM (s.published c call next).apply cfg = .ok s.cfg := hs.foldlM hc rfl
    rw [List.foldlM_append, hbefore]
    show [c].foldlM (s.published c call next).apply s.cfg = .ok next
    rw [List.foldlM_cons, hone]
    rfl

/-- A call goes on without publishing anything. -/
theorem Serial.proceed (hs : Serial cfg s) (hcalls : t.calls = Function.update s.calls c (some call'))
    (hcfg : t.cfg = s.cfg)
    (hconfig : t.config = s.config) (hc : ¬ Succeeded s c) (ht : ¬ Succeeded t c) (hsound : call'.Sound t)
    (hbefore : ∀ call next, s.calls c = some call → call.phase ≠ .publishing next)
    (hafter : ∀ next, call'.phase ≠ .publishing next) :
    Serial cfg t := by
  have hother : ∀ {d x next}, t.calls d = some x → x.phase = .publishing next → s.calls d = some x := by
    intro d x next hx hphase
    rw [hcalls] at hx
    by_cases hd : d = c
    · subst hd
      rw [Function.update_self] at hx
      cases hx
      exact absurd hphase (hafter next)
    · rwa [Function.update_of_ne hd] at hx
  refine ⟨?_, fun d x hx => ?_, fun d e x y n m hx hy hn hm => ?_, fun hnone => ?_⟩
  · obtain ⟨order, horder⟩ := hs.order
    exact ⟨order, horder.keep hc hcalls hcfg ht⟩
  · rw [hcalls] at hx
    by_cases hd : d = c
    · subst hd
      rw [Function.update_self] at hx
      cases hx
      exact hsound
    · rw [Function.update_of_ne hd] at hx
      have hold := hs.calls d x hx
      unfold Call.Sound at hold ⊢
      rwa [hcfg, hconfig]
  · exact hs.one d e x y n m (hother hx hn) (hother hy hm) hn hm
  · rw [hcfg, hconfig]
    refine hs.same fun d x next hx hphase => ?_
    by_cases hd : d = c
    · subst hd
      exact hbefore x next hx hphase
    · exact hnone d x next (by rw [hcalls, Function.update_of_ne hd, hx]) hphase

end

theorem Serial.clone (hs : Serial cfg s) {request : Request C} (h : s.clone c request = some t) : Serial cfg t := by
  obtain ⟨hc, rfl⟩ := clone_cases h
  refine hs.proceed rfl rfl rfl ?_ ?_ trivial (fun call next hcall => ?_) fun next hphase => by cases hphase
  · rintro ⟨x, mutator, hx, -⟩
    rw [hc] at hx
    cases hx
  · intro hsucc
    cases hsucc.phase (Function.update_self c _ s.calls)
  · rw [hc] at hcall
    cases hcall

theorem changed_cases (call : Call C) : (∃ e, State.changed call = .returned (.error e)) ∨
    ∃ next, State.changed call = .reloading next := by
  unfold State.changed
  split
  · exact .inr ⟨_, rfl⟩
  · split
    · exact .inl ⟨_, rfl⟩
    · exact .inr ⟨_, rfl⟩

theorem Serial.change (hs : Serial cfg s) (h : s.change c = some t) : Serial cfg t := by
  obtain ⟨call, hcall, hphase, rfl⟩ := change_cases h
  have hc : ¬ Succeeded s c := by
    intro hsucc
    rw [hsucc.phase hcall] at hphase
    cases hphase
  have hbefore : ∀ x next, s.calls c = some x → x.phase ≠ .publishing next := by
    intro x next hx hpub
    rw [hcall] at hx
    cases hx
    rw [hphase] at hpub
    cases hpub
  have hself : (s.setPhase c call (State.changed call)).calls c = some { call with phase := State.changed call } :=
    Function.update_self _ _ _
  refine hs.proceed rfl rfl rfl hc (fun hsucc => ?_) ?_ hbefore fun next hpub => ?_
  · have hdone : State.changed call = .returned (.ok ()) := hsucc.phase hself
    rcases changed_cases call with ⟨e, he⟩ | ⟨next, he⟩ <;> rw [he] at hdone <;> cases hdone
  · unfold Call.Sound
    rcases changed_cases call with ⟨e, he⟩ | ⟨next, he⟩
    · rw [he]
      trivial
    · simp only [he]
      exact he
  · have hpub : State.changed call = .publishing next := hpub
    rcases changed_cases call with ⟨e, he⟩ | ⟨next, he⟩ <;> rw [he] at hpub <;> cases hpub

/-- A request that has not returned has not succeeded. -/
theorem not_succeeded {call : Call C} (hcall : s.calls c = some call) (hphase : call.phase ≠ .returned (.ok ())) :
    ¬ Succeeded s c :=
  fun hsucc => hphase (hsucc.phase hcall)

theorem Call.Sound.other {call : Call C} (h : call.Sound s) (hphase : ∀ next, call.phase ≠ .publishing next) :
    call.Sound t := by
  unfold Call.Sound at h ⊢
  split
  · rename_i next hreloading
    rwa [hreloading] at h
  · rename_i next hpublishing
    exact absurd hpublishing (hphase next)
  · trivial

/-- The gateway takes the configuration of a request that is going to publish it. -/
theorem Serial.accept (hs : Serial cfg s) {call : Call C} {next : C} (hcall : s.calls c = some call)
    (hphase : call.phase = .reloading next)
    {mutator : C → Except String C} (hrequest : call.request = .mutate mutator) (hnext : mutator s.cfg = .ok next)
    (hquiet : ∀ d x next, s.calls d = some x → x.phase ≠ .publishing next) : Serial cfg (s.reloaded c call next) := by
  have hself : (s.reloaded c call next).calls c = some { call with phase := .publishing next } := by
    have haccepted : State.accepted call next = .publishing next := by
      unfold State.accepted
      rw [hrequest]
    rw [← haccepted]
    exact Function.update_self _ _ _
  have hother : ∀ {d x}, d ≠ c → (s.reloaded c call next).calls d = some x → s.calls d = some x :=
    fun hd hx => (Function.update_of_ne hd _ _).symm.trans hx
  have honly : ∀ {d x m}, (s.reloaded c call next).calls d = some x → x.phase = .publishing m → d = c := by
    intro d x m hx hm
    by_contra hd
    exact hquiet d x m (hother hd hx) hm
  refine ⟨?_, fun d x hx => ?_, fun d e x y n m hx hy hn hm => ?_, fun hnone => ?_⟩
  · obtain ⟨order, horder⟩ := hs.order
    refine ⟨order, horder.keep (not_succeeded hcall ?_) rfl rfl (not_succeeded hself fun h => by cases h)⟩
    rw [hphase]
    exact fun h => by cases h
  · by_cases hd : d = c
    · subst hd
      rw [hself] at hx
      cases hx
      exact ⟨⟨mutator, hrequest, hnext⟩, rfl⟩
    · exact (hs.calls d x (hother hd hx)).other (hquiet d x · (hother hd hx))
  · rw [honly hx hn, honly hy hm]
  · exact absurd rfl (hnone c _ next hself)

/-- The gateway takes what comes from the current configuration. -/
theorem Serial.reload (hs : Serial cfg s) {err : Option String} (hok : Undisturbed s (.reload c err))
    (h : s.reload c err = some t) :
    Serial cfg t := by
  obtain ⟨call, next, hcall, hphase, hrest⟩ := reload_cases h
  have hc : ¬ Succeeded s c := not_succeeded hcall (by rw [hphase]; exact fun h => by cases h)
  have hbefore : ∀ x next, s.calls c = some x → x.phase ≠ .publishing next := by
    intro x m hx hpub
    rw [hcall] at hx
    cases hx
    rw [hphase] at hpub
    cases hpub
  have hsound := hs.calls c call hcall
  unfold Call.Sound at hsound
  rw [hphase] at hsound
  rcases hrest with ⟨e, rfl, rfl⟩ | ⟨rfl, rfl⟩
  · exact hs.proceed rfl rfl rfl hc (not_succeeded (Function.update_self c _ s.calls)
      fun h => by cases h) trivial hbefore
      fun next hpub => by cases hpub
  · obtain ⟨hcurrent, hquiet⟩ := hok
    have hcopy := hcurrent call hcall
    unfold State.changed at hsound
    cases hrequest : call.request with
    | reload =>
      -- The gateway gets what it has.
      simp only [hrequest] at hsound
      cases hsound
      have haccepted : State.accepted call call.copy = .returned (.ok ()) := by
        unfold State.accepted
        rw [hrequest]
      have hself : (s.reloaded c call call.copy).calls c = some { call with phase := .returned (.ok ()) } := by
        rw [← haccepted]
        exact Function.update_self _ _ _
      refine hs.proceed (show _ = Function.update s.calls c (some { call with phase := .returned (.ok ()) }) from
        ?_) rfl (hcopy.trans (hs.same hquiet).symm) hc ?_ trivial hbefore
        fun next hpub => by cases hpub
      · rw [← haccepted]
        rfl
      · rintro ⟨x, mutator, hx, hmutate, -⟩
        rw [hself] at hx
        cases hx
        rw [hrequest] at hmutate
        cases hmutate
    | mutate mutator =>
      simp only [hrequest, hcopy] at hsound
      cases hresult : mutator s.cfg with
      | error e =>
        rw [hresult] at hsound
        cases hsound
      | ok next' =>
        rw [hresult] at hsound
        cases hsound
        exact hs.accept hcall hphase hrequest hresult hquiet

/-- The call that publishes goes to the end of the order. -/
theorem Serial.publish (hs : Serial cfg s) (h : s.publish c = some t) : Serial cfg t := by
  obtain ⟨call, next, hcall, hphase, rfl⟩ := publish_cases h
  have hsound := hs.calls c call hcall
  unfold Call.Sound at hsound
  rw [hphase] at hsound
  obtain ⟨⟨mutator, hrequest, hnext⟩, hconfig⟩ := hsound
  have hquiet : ∀ {d x n}, d ≠ c → s.calls d = some x → x.phase ≠ .publishing n :=
    fun hd hx hpub => hd (hs.one _ c _ call _ next hx hcall hpub hphase)
  have hother : ∀ {d x}, d ≠ c → (s.published c call next).calls d = some x → s.calls d = some x :=
    fun hd hx => (Function.update_of_ne hd _ _).symm.trans hx
  have hself : (s.published c call next).calls c = some { call with phase := .returned (.ok ()) } :=
    Function.update_self _ _ _
  have hnobody : ∀ {d x n}, (s.published c call next).calls d = some x → x.phase ≠ .publishing n := by
    intro d x n hx
    by_cases hd : d = c
    · subst hd
      rw [hself] at hx
      cases hx
      exact fun h => by cases h
    · exact hquiet hd (hother hd hx)
  refine ⟨?_, fun d x hx => ?_, fun d e x y n m hx hy hn hm => absurd hn (hnobody hx), fun _ => hconfig⟩
  · obtain ⟨order, horder⟩ := hs.order
    exact ⟨order ++ [c], horder.publish hcall hphase hrequest hnext⟩
  · by_cases hd : d = c
    · subst hd
      rw [hself] at hx
      cases hx
      trivial
    · exact (hs.calls d x (hother hd hx)).other fun n => hquiet hd (hother hd hx)

theorem Serial.of_reach (h : Reach (system cfg) Undisturbed s) : Serial cfg s := by
  refine h.invariant (fun s hinit => ?_) fun s a t _ hs hok hstep => ?_
  · cases hinit
    refine ⟨⟨[], List.nodup_nil, fun c => ?_, rfl⟩, fun c call h => (by cases h),
      fun c d x y n m hx => (by cases hx), fun _ => rfl⟩
    refine iff_of_false List.not_mem_nil ?_
    rintro ⟨call, mutator, hcall, -⟩
    cases hcall
  · cases a with
    | clone c request => exact hs.clone hstep
    | change c => exact hs.change hstep
    | reload c err => exact hs.reload hok hstep
    | publish c => exact hs.publish hstep

/-- Every request has been answered. -/
def Done (s : State C) : Prop := ∀ c call, s.calls c = some call → ∃ result, call.phase = .returned result

/-- **Changes one after the other**: if the gateway takes only configurations whose original is still current, while
nobody is about to publish, then in the end the configuration is what the successful changes make of the first one in
some order, and the gateway runs it. -/
theorem serializable (cfg : C) (hreach : Reach (system cfg) Undisturbed s) (hdone : Done s) :
    (∃ order, Serialized cfg s order) ∧ s.config = s.cfg := by
  have hs := Serial.of_reach hreach
  refine ⟨hs.order, hs.same fun c call next hcall hphase => ?_⟩
  obtain ⟨result, hresult⟩ := hdone c call hcall
  rw [hphase] at hresult
  cases hresult

/-! ## Two rotations of the key -/

/-- The two fields of `AdminConfig` that a rotation writes. -/
structure AdminConfig where
  apiKey : Text
  keyVersion : Int
  deriving DecidableEq

/-- The handler that replaces the admin key. -/
def rotateKey (newKey : Text) (cfg : AdminConfig) : Except String AdminConfig := .ok ⟨newKey, cfg.keyVersion + 1⟩

def firstKey : AdminConfig := ⟨['k'], 0⟩

def beginning : State AdminConfig := ⟨firstKey, firstKey, fun _ => none⟩

/-- Two rotations, one after the other. -/
def rotation : List (Action AdminConfig) :=
  [.clone 0 (.mutate (rotateKey ['a'])), .change 0, .reload 0 none, .publish 0,
    .clone 1 (.mutate (rotateKey ['b'])), .change 1, .reload 1 none, .publish 1]

def rotated (n : Nat) : State AdminConfig :=
  ((system firstKey).exec (fun _ _ => True) beginning (rotation.take n)).getD beginning

/-- Both changes are there. -/
theorem serializable_rotation : Reach (system firstKey) Undisturbed (rotated 8) ∧ Done (rotated 8) ∧
    (∃ order, Serialized firstKey (rotated 8) order) ∧ (rotated 8).cfg = ⟨['b'], 2⟩ ∧
      (rotated 8).config = (rotated 8).cfg := by
  have hcloned : Reach (system firstKey) Undisturbed (rotated 1) :=
    (Reach.of_init rfl).step (show Undisturbed beginning (.clone 0 (.mutate (rotateKey ['a']))) from trivial) rfl
  have hchanged : Reach (system firstKey) Undisturbed (rotated 2) :=
    hcloned.step (show Undisturbed _ (.change 0) from trivial) rfl
  have halone : Undisturbed (rotated 2) (.reload 0 none) := by
    refine ⟨fun call hcall => ?_, fun d call next hcall => ?_⟩
    · cases hcall
      rfl
    · match d with
      | 0 =>
        cases hcall
        exact fun h => by cases h
      | d + 1 => cases hcall
  have hpublished : Reach (system firstKey) Undisturbed (rotated 4) :=
    (hchanged.step (t := rotated 3) halone rfl).step (show Undisturbed _ (.publish 0) from trivial) rfl
  have hcloned' : Reach (system firstKey) Undisturbed (rotated 5) :=
    hpublished.step (show Undisturbed _ (.clone 1 (.mutate (rotateKey ['b']))) from trivial) rfl
  have hchanged' : Reach (system firstKey) Undisturbed (rotated 6) :=
    hcloned'.step (show Undisturbed _ (.change 1) from trivial) rfl
  -- the first call has published, and the second has its configuration
  have halone' : Undisturbed (rotated 6) (.reload 1 none) := by
    refine ⟨fun call hcall => ?_, fun d call next hcall => ?_⟩
    · cases hcall
      rfl
    · match d with
      | 0 | 1 =>
        cases hcall
        exact fun h => by cases h
      | d + 2 => cases hcall
  have hpublished' : Reach (system firstKey) Undisturbed (rotated 8) :=
    (hchanged'.step (t := rotated 7) halone' rfl).step (show Undisturbed _ (.publish 1) from trivial) rfl
  have hdone : Done (rotated 8) := by
    intro c call hcall
    match c with
    | 0 | 1 =>
      cases hcall
      exact ⟨_, rfl⟩
    | c + 2 => cases hcall
  have hserial := serializable firstKey hpublished' hdone
  exact ⟨hpublished', hdone, hserial.1, rfl, hserial.2⟩

/-- Both copy the first configuration; the gateway takes 0 and then 1, the admin server 1 and then 0. -/
def crossing : List (Action AdminConfig) :=
  [.clone 0 (.mutate (rotateKey ['a'])), .clone 1 (.mutate (rotateKey ['b'])), .change 0, .change 1,
    .reload 0 none, .reload 1 none,
    .publish 1, .publish 0]

/-- **Both rotations succeed, but the version has gone up by one only**, and the gateway runs the other key. -/
theorem change_dropped : ∃ s, Reach (system firstKey) (fun _ _ => True) s ∧ Done s ∧ Succeeded s 0 ∧ Succeeded s 1 ∧
    s.cfg = ⟨['a'], 1⟩ ∧ s.config = ⟨['b'], 1⟩ ∧ ∀ order, ¬ Serialized firstKey s order := by
  refine ⟨_, .of_exec rfl crossing rfl, fun c call hcall => ?_, ⟨_, _, rfl, rfl, rfl⟩, ⟨_, _, rfl, rfl, rfl⟩, rfl, rfl,
    fun order h => ?_⟩
  · match c with
    | 0 | 1 =>
      cases hcall
      exact ⟨_, rfl⟩
    | c + 2 => cases hcall
  · have hperm : order.Perm [0, 1] := by
      refine (List.perm_ext_iff_of_nodup h.nodup (by decide)).2 fun c => ?_
      rw [h.succeeded c]
      match c with
      | 0 => exact iff_of_true ⟨_, _, rfl, rfl, rfl⟩ (by decide)
      | 1 => exact iff_of_true ⟨_, _, rfl, rfl, rfl⟩ (by decide)
      | c + 2 =>
        refine iff_of_false ?_ (by simp)
        rintro ⟨call, mutator, hcall, -⟩
        cases hcall
    -- Two rotations in any order would give the version 2.
    obtain ⟨x, y, rfl⟩ := List.length_eq_two.1 hperm.length_eq
    have hx : x ∈ [0, 1] := hperm.subset (by simp)
    have hy : y ∈ [0, 1] := hperm.subset (by simp)
    have happlied := h.applied
    rcases List.mem_pair.1 hx with rfl | rfl <;> rcases List.mem_pair.1 hy with rfl | rfl <;> cases happlied

end Admin
