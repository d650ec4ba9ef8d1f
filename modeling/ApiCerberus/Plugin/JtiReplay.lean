import ApiCerberus.Lib.Transition
import ApiCerberus.Plugin.Jwt

/-!
# Tokens that are used once

`checkJTIReplay` asks the cache whether it has seen a jti, and then adds it, in two critical sections, so two calls with
one token can both be told that it is new. The entry lives up to `exp`, while the token is valid for the clock skew
longer, and a full cache drops entries whose tokens are valid. In each of these ways a token is accepted twice
(`accepted_twice`).

`system`: any number of calls at once, each of them in the stages of `Authenticate`; the clock goes on between any two
steps. `accepted_once` says what holds if calls with one jti do not overlap between `Seen` and `Add`, none of them comes
in the clock skew of a token that has been accepted, and `Add` finds room.
-/

namespace Plugin

open Gateway (PluginError)

/-! ## The calls as a system -/

/-- A call whose token has passed `validateClaims`, and when. -/
structure Call where
  token : Token
  validated : Int

def Call.jti (c : Call) : Option Text := c.token.payload.string "jti".toList

def Call.exp (c : Call) : Int := unixTime ((c.token.payload.unix "exp".toList).getD 0)

/-- How far a call has come. -/
inductive Stage
  | validated
  /-- `Seen` has said no. -/
  | notSeen
  | timed (ttl : Int)
  deriving DecidableEq

/-- The calls under way, each in one of its stages. -/
structure Calls where
  now : Int
  cache : JTIReplayCache
  running : List (Call × Stage)
  /-- The calls that have succeeded. -/
  accepted : List Call

inductive CallAction
  | tick (d : Nat)
  | arrive (raw : Text)
  /-- The next step of a call. -/
  | proceed (i : Nat)
  /-- One round of `cleanupLoop`. -/
  | cleanup

namespace Calls

/-- A token that is not valid is refused at once. -/
def arrive (a : AuthJWT) (s : Calls) (raw : Text) : Calls :=
  match verify a raw with
  | .error _ => s
  | .ok token =>
    match validateClaims a s.now token with
    | .error _ => s
    | .ok _ =>
      if (Call.jti ⟨token, s.now⟩).isNone then { s with accepted := s.accepted ++ [⟨token, s.now⟩] }
      else { s with running := s.running ++ [(⟨token, s.now⟩, .validated)] }

/-- The next critical section of a call. -/
def proceed (a : AuthJWT) (s : Calls) (i : Nat) (c : Call) (jti : Text) : Stage → Calls
  | .validated =>
    if !a.replayCache then { s with running := s.running.eraseIdx i }
    else
      match s.cache.seen jti s.now with
      | (true, cache) => { s with cache := cache, running := s.running.eraseIdx i }
      | (false, cache) => { s with cache := cache, running := s.running.set i (c, .notSeen) }
  | .notSeen =>
    { s with running := s.running.set i (c, .timed (replayTTL ((c.token.payload.unix "exp".toList).getD 0) s.now)) }
  | .timed ttl =>
    { s with
      cache := s.cache.add jti ttl s.now
      running := s.running.eraseIdx i
      accepted := s.accepted ++ [c] }

def step (a : AuthJWT) (s : Calls) : CallAction → Option Calls
  | .tick d => some { s with now := s.now + d }
  | .arrive raw => some (s.arrive a raw)
  | .proceed i =>
    match s.running[i]? with
    | none => none
    | some (c, stage) => c.jti.map fun jti => s.proceed a i c jti stage
  | .cleanup => some { s with cache := s.cache.evictExpired s.now }

def system (a : AuthJWT) : Transition.System Calls CallAction where
  init s := ∃ now maxSize, s = ⟨now, newJTIReplayCacheWithSize maxSize, [], []⟩
  step := step a

theorem exp_isSome_of_validateClaims {a : AuthJWT} {now : Int} {token : Token} {u : Unit}
    (h : validateClaims a now token = .ok u) : ∃ exp, token.payload.unix "exp".toList = some exp := by
  unfold validateClaims at h
  split at h
  · cases h
  · rename_i exp hexp
    exact ⟨exp, hexp⟩

theorem run_tick (a : AuthJWT) (s : Calls) (d : Nat) :
    Transition.Run (system a) (fun _ _ => True) s { s with now := s.now + d } :=
  .tail (a := .tick d) .refl trivial rfl

theorem run_proceed (a : AuthJWT) (s : Calls) {c : Call} {stage : Stage} {jti : Text} (hc : s.running = [(c, stage)])
    (hjti : c.jti = some jti) : Transition.Run (system a) (fun _ _ => True) s (s.proceed a 0 c jti stage) := by
  refine .tail (a := .proceed 0) .refl trivial ?_
  simp [system, step, hc, hjti]

/-- A call that nobody comes between is `check`: its critical sections, with the clock going on between them. -/
theorem run_check (a : AuthJWT) (s : Calls) (hrunning : s.running = []) (raw : Text) (d₁ d₂ d₃ : Nat)
    {r : Except PluginError AnyMap × JTIReplayCache}
    (hr : check a ⟨s.now, s.now + d₁, s.now + d₁ + d₂, s.now + d₁ + d₂ + d₃⟩ s.cache raw = r) :
    ∃ t, Transition.Run (system a) (fun _ _ => True) s t ∧ t.running = [] ∧ t.cache = r.2 ∧
      t.accepted.length = s.accepted.length + r.1.isOk.toNat := by
  have harrive : Transition.Run (system a) (fun _ _ => True) s (s.arrive a raw) :=
    .tail (a := .arrive raw) .refl trivial rfl
  simp only [check] at hr
  split at hr
  · subst hr
    exact ⟨s, .refl, hrunning, rfl, rfl⟩
  rename_i token hverify
  split at hr
  · subst hr
    exact ⟨s, .refl, hrunning, rfl, rfl⟩
  rename_i u hclaims
  obtain ⟨exp, hexp⟩ := exp_isSome_of_validateClaims hclaims
  simp only [arrive, hverify, hclaims] at harrive
  cases hjti : Call.jti ⟨token, s.now⟩ with
  | none =>
    have hnone : token.payload.string "jti".toList = none := hjti
    rw [hjti] at harrive
    simp only [checkJTIReplay, hnone] at hr
    subst hr
    exact ⟨_, harrive, hrunning, rfl, List.length_append⟩
  | some jti =>
    have hsome : token.payload.string "jti".toList = some jti := hjti
    rw [hjti, hrunning] at harrive
    have hseen := (harrive.trans (run_tick a _ d₁)).trans (run_proceed a _ rfl hjti)
    simp only [checkJTIReplay, hsome, hexp] at hr
    cases hcache : a.replayCache with
    | false =>
      rw [hcache] at hr
      subst hr
      simp only [proceed, hcache] at hseen
      exact ⟨_, hseen, rfl, rfl, rfl⟩
    | true =>
      rw [hcache] at hr
      rcases hres : s.cache.seen jti (s.now + d₁) with ⟨_ | _, cache⟩
      · rw [hres] at hr
        subst hr
        have hnot : Transition.Run (system a) (fun _ _ => True) s
            ⟨s.now + d₁, cache, [(⟨token, s.now⟩, .notSeen)], s.accepted⟩ := by
          simpa [proceed, hcache, hres] using hseen
        have htimed := (hnot.trans (run_tick a _ d₂)).trans (run_proceed a _ rfl hjti)
        have hadded := (htimed.trans (run_tick a _ d₃)).trans (run_proceed a _ rfl hjti)
        refine ⟨_, hadded, rfl, ?_, List.length_append⟩
        simp only [proceed, hexp]
        rfl
      · rw [hres] at hr
        subst hr
        have hrefused : Transition.Run (system a) (fun _ _ => True) s ⟨s.now + d₁, cache, [], s.accepted⟩ := by
          simpa [proceed, hcache, hres] using hseen
        exact ⟨_, hrefused, rfl, rfl, rfl⟩

/-! ## Runs in which a jti is safe -/

/-- `Add` drops no entry that has not expired. -/
def HasRoom (s : Calls) (c : Call) : Prop :=
  (s.cache.evictExpired s.now).entries.rows.length < s.cache.maxSize ∨ s.cache.maxSize < 4 ∨
    c.jti.any fun jti => (s.cache.entries.get? jti).isSome

/-- What a call finds before its next step. -/
def Undisturbed (a : AuthJWT) (s : Calls) (c : Call) : Stage → Prop
  | .validated =>
    -- nobody else with the jti is between `Seen` and `Add`
    (∀ p ∈ s.running, p.2 ≠ .validated → p.1.jti ≠ c.jti) ∧
      -- of the tokens that were accepted with it, none is in its clock skew
      ∀ e ∈ s.accepted, e.jti = c.jti → s.now ≤ e.exp ∨ e.exp + a.clockSkew < c.validated
  | .notSeen => True
  | .timed _ => s.HasRoom c

/-- Every section finds what `Undisturbed` asks for. -/
def Careful (a : AuthJWT) (s : Calls) : CallAction → Prop
  | .proceed i => ∀ p ∈ s.running[i]?, s.Undisturbed a p.1 p.2
  | _ => True

instance (a : AuthJWT) (s : Calls) (c : Call) (stage : Stage) : Decidable (s.Undisturbed a c stage) :=
  match stage with
  | .validated => inferInstanceAs (Decidable (_ ∧ _))
  | .notSeen => .isTrue trivial
  | .timed _ => inferInstanceAs (Decidable (_ ∨ _))

instance (a : AuthJWT) (s : Calls) (action : CallAction) : Decidable (s.Careful a action) :=
  match action with
  | .proceed i => inferInstanceAs (Decidable (∀ p ∈ s.running[i]?, s.Undisturbed a p.1 p.2))
  | .tick _ | .arrive _ | .cleanup => .isTrue trivial

/-- No call succeeds with a jti while a token that was accepted with it is valid. -/
def Once (a : AuthJWT) (accepted : List Call) : Prop :=
  accepted.Pairwise fun e e' => e.jti.isSome → e.jti = e'.jti → e.exp + a.clockSkew < e'.validated

instance (a : AuthJWT) (accepted : List Call) : Decidable (Once a accepted) :=
  inferInstanceAs (Decidable (List.Pairwise _ _))

end Calls

/-! ## The cache -/

namespace JTIReplayCache

variable {c : JTIReplayCache} {jti k : Text} {now x ttl : Int}

theorem get?_drop (jtis : List Text) : (c.drop jtis).entries.get? k = if k ∈ jtis then none else c.entries.get? k := by
  have hfold : ∀ m : FinMap Text Int, (jtis.foldl FinMap.erase m).get? k = if k ∈ jtis then none else m.get? k := by
    induction jtis with
    | nil => simp
    | cons jti jtis ih =>
      intro m
      rw [List.foldl_cons, ih, FinMap.get?_erase]
      by_cases hk : k = jti <;> simp [hk]
  exact hfold c.entries

theorem mem_expired : k ∈ c.expired now ↔ ∃ x, c.entries.get? k = some x ∧ x < now := by
  simp [expired, FinMap.get?_eq_some_iff]

/-- An entry that has not expired stays, and nothing comes in. -/
theorem get?_evictExpired : (c.evictExpired now).entries.get? k = (c.entries.get? k).filter fun x => now ≤ x := by
  rw [evictExpired, get?_drop]
  cases hx : c.entries.get? k with
  | none => simp
  | some x =>
    by_cases hle : now ≤ x
    · simp [mem_expired, hx, Option.filter, hle, Int.not_lt.2 hle]
    · simp [mem_expired, hx, Option.filter, hle, Int.not_le.1 hle]

theorem get?_seen : (c.seen jti now).2.entries.get? k =
    if k = jti then (c.entries.get? k).filter fun x => now ≤ x else c.entries.get? k := by
  unfold seen
  split
  · rename_i hnone
    split
    · rename_i heq
      rw [heq, hnone]
      rfl
    · rfl
  · rename_i x hx
    by_cases heq : k = jti
    · subst heq
      by_cases hlt : x < now
      · simp [hx, hlt, Option.filter, FinMap.get?_erase, Int.not_le.2 hlt]
      · simp [hx, hlt, Option.filter, Int.not_lt.1 hlt]
    · by_cases hlt : x < now <;> simp [hlt, heq, FinMap.get?_erase]

/-- `Seen` says no only if the entry is missing or has expired. -/
theorem lt_of_not_seen (h : (c.seen jti now).1 = false) (hx : c.entries.get? jti = some x) : x < now := by
  unfold seen at h
  rw [hx] at h
  by_contra hle
  simp [hle] at h

theorem get?_add_self : (c.add jti ttl now).entries.get? jti = some (now + ttl) := by
  simp [add, FinMap.get?_set]

/-- Where there is room, `Add` keeps what has not expired. -/
theorem get?_add_of_room (hroom : (c.evictExpired now).entries.rows.length < c.maxSize ∨ c.maxSize < 4 ∨
    (c.entries.get? jti).isSome = true) (hk : k ≠ jti) (hx : c.entries.get? k = some x) (hle : now ≤ x) :
    (c.add jti ttl now).entries.get? k = some x := by
  have hkept : (c.evictExpired now).entries.get? k = some x := by
    rw [get?_evictExpired, hx]
    simp [hle]
  unfold add
  simp only [FinMap.get?_set, if_neg hk]
  split
  · exact hx
  · rename_i hnew
    unfold makeRoom
    simp only
    split
    · rename_i hfull
      have hmax : (c.evictExpired now).maxSize = c.maxSize := rfl
      -- a quarter of less than four is none
      have hsmall : c.maxSize / 4 = 0 := by
        rcases hroom with hlt | hsmall | hthere
        · rw [hmax] at hfull
          omega
        · omega
        · exact absurd hthere hnew
      rw [hmax, hsmall, evictOldest, get?_drop]
      simpa [oldest] using hkept
    · exact hkept

end JTIReplayCache

theorem le_replayTTL (exp now : Int) : unixTime exp ≤ now + replayTTL exp now := by
  unfold replayTTL
  split <;> omega

/-! ## The invariant -/

namespace Calls

variable {a : AuthJWT} {s t : Calls} {action : CallAction} {i : Nat} {c : Call} {stage : Stage} {jti : Text}

/-- The entry of an accepted call is there until its `exp` is over. -/
def Kept (now : Int) (cache : JTIReplayCache) (e : Call) : Prop :=
  ∀ jti, e.jti = some jti → e.exp < now ∨ ∃ x, cache.entries.get? jti = some x ∧ e.exp ≤ x

/-- What holds of a running call, beside the accepted ones. -/
structure Sound (a : AuthJWT) (now : Int) (accepted : List Call) (p : Call × Stage) : Prop where
  hasJTI : p.1.jti.isSome = true
  past : p.1.validated ≤ now
  fresh : p.2 ≠ .validated → ∀ e ∈ accepted, e.jti = p.1.jti → e.exp + a.clockSkew < p.1.validated
  long : ∀ ttl, p.2 = .timed ttl → p.1.exp ≤ now + ttl

/-- Two calls between `Seen` and `Add` have different jtis. -/
def Apart (p q : Call × Stage) : Prop := p.2 ≠ .validated → q.2 ≠ .validated → p.1.jti ≠ q.1.jti

/-- What holds along careful runs. -/
structure Safe (a : AuthJWT) (s : Calls) : Prop where
  once : Once a s.accepted
  kept : ∀ e ∈ s.accepted, Kept s.now s.cache e
  sound : ∀ p ∈ s.running, Sound a s.now s.accepted p
  apart : s.running.Pairwise Apart

variable {cache : JTIReplayCache}

theorem Kept.mono {now now' : Int} {e : Call} (h : Kept now cache e) (hle : now ≤ now') :
    Kept now' cache e := by
  intro jti hjti
  rcases h jti hjti with hlt | hx
  · exact Or.inl (by omega)
  · exact Or.inr hx

/-- An entry may be dropped when it has expired. -/
theorem Kept.of_live {now : Int} {cache cache' : JTIReplayCache} {e : Call} (h : Kept now cache e)
    (hlive : ∀ jti x, e.jti = some jti → cache.entries.get? jti = some x → now ≤ x → cache'.entries.get? jti = some x) :
    Kept now cache' e := by
  intro jti hjti
  rcases h jti hjti with hlt | ⟨x, hx, hle⟩
  · exact Or.inl hlt
  · by_cases hnow : now ≤ x
    · exact Or.inr ⟨x, hlive jti x hjti hx hnow, hle⟩
    · exact Or.inl (by omega)

theorem Sound.mono {now now' : Int} {accepted : List Call} {p : Call × Stage} (h : Sound a now accepted p)
    (hle : now ≤ now') :
    Sound a now' accepted p where
  hasJTI := h.hasJTI
  past := h.past.trans hle
  fresh := h.fresh
  long ttl httl := (h.long ttl httl).trans (by omega)

theorem Apart.symm {p q : Call × Stage} (h : Apart p q) : Apart q p := fun hq hp heq => h hp hq heq.symm

/-- The call at place `i`, and the others. -/
theorem exists_split {l : List (Call × Stage)} {p : Call × Stage} (h : l[i]? = some p) :
    ∃ l₁ l₂, l = l₁ ++ p :: l₂ ∧ (∀ q, l.set i q = l₁ ++ q :: l₂) ∧ l.eraseIdx i = l₁ ++ l₂ := by
  obtain ⟨hlt, rfl⟩ := List.getElem?_eq_some_iff.1 h
  refine ⟨l.take i, l.drop (i + 1), ?_, fun q => ?_, List.eraseIdx_eq_take_drop_succ l i⟩
  · rw [List.getElem_cons_drop, List.take_append_drop]
  · rw [List.set_eq_take_append_cons_drop, if_pos hlt]

/-- The others stay as they are when a call leaves. -/
theorem Safe.leave (h : Safe a s) (i : Nat)
    (hkept : ∀ e ∈ s.accepted, Kept s.now cache e) :
      Safe a { s with cache := cache, running := s.running.eraseIdx i } where
  once := h.once
  kept := hkept
  sound p hp := h.sound p (List.mem_of_mem_eraseIdx hp)
  apart := h.apart.sublist (List.eraseIdx_sublist _ i)

/-- The others stay as they are when a call comes to its next stage. -/
theorem Safe.advance (h : Safe a s) (hi : s.running[i]? = some (c, stage)) {stage' : Stage}
    (hkept : ∀ e ∈ s.accepted, Kept s.now cache e) (hsound : Sound a s.now s.accepted (c, stage'))
    (hapart : stage' ≠ .validated → stage = .validated → ∀ p ∈ s.running, p.2 ≠ .validated → p.1.jti ≠ c.jti) :
    Safe a { s with cache := cache, running := s.running.set i (c, stage') } := by
  obtain ⟨l₁, l₂, hl, hset, -⟩ := exists_split hi
  have hapart₀ := h.apart
  rw [hl, List.pairwise_middle Apart.symm, List.pairwise_cons] at hapart₀
  refine ⟨h.once, hkept, fun p hp => ?_, ?_⟩
  · rcases List.mem_or_eq_of_mem_set hp with hp | rfl
    · exact h.sound p hp
    · exact hsound
  · show (s.running.set i (c, stage')).Pairwise Apart
    rw [hset, List.pairwise_middle Apart.symm, List.pairwise_cons]
    refine ⟨fun p hp hstage' hpstage heq => ?_, hapart₀.2⟩
    by_cases hstage : stage = .validated
    · have hmem : p ∈ s.running := by
        rw [hl]
        rcases List.mem_append.1 hp with hp | hp <;> simp [hp]
      exact hapart hstage' hstage p hmem hpstage heq.symm
    · exact hapart₀.1 p hp hstage hpstage heq

/-- One section of a call that finds what it should. -/
theorem Safe.proceed (h : Safe a s) (hi : s.running[i]? = some (c, stage)) (hjti : c.jti = some jti)
    (hok : s.Undisturbed a c stage) : Safe a (s.proceed a i c jti stage) := by
  have hc := h.sound _ (List.mem_of_getElem? hi)
  cases stage with
  | validated =>
    have hseen : ∀ e ∈ s.accepted, Kept s.now (s.cache.seen jti s.now).2 e := by
      intro e he
      refine (h.kept e he).of_live fun k x _ hx hle => ?_
      rw [JTIReplayCache.get?_seen, hx]
      split <;> simp [Option.filter, hle]
    simp only [Calls.proceed]
    split
    · exact h.leave i h.kept
    · split
      · rename_i hcache
        rw [hcache] at hseen
        exact h.leave i hseen
      · rename_i hcache
        have hnot : (s.cache.seen jti s.now).1 = false := by rw [hcache]
        rw [hcache] at hseen
        refine h.advance hi hseen ⟨hc.hasJTI, hc.past, fun _ e he hej => ?_, by simp⟩ fun _ _ => hok.1
        -- were an accepted token not over, its entry would have been seen
        rcases hok.2 e he hej with hnow | hlate
        · rcases h.kept e he jti (hej.trans hjti) with hlt | ⟨x, hx, hle⟩
          · omega
          · have := JTIReplayCache.lt_of_not_seen hnot hx
            omega
        · exact hlate
  | notSeen =>
    refine h.advance hi h.kept ⟨hc.hasJTI, hc.past, fun _ => hc.fresh (by simp), fun ttl httl => ?_⟩ fun _ hs => by
      cases hs
    cases httl
    exact le_replayTTL _ _
  | timed ttl =>
    obtain ⟨l₁, l₂, hl, -, herase⟩ := exists_split hi
    have hapart := h.apart
    rw [hl, List.pairwise_middle Apart.symm, List.pairwise_cons] at hapart
    have hfresh : ∀ e ∈ s.accepted, e.jti = c.jti → e.exp + a.clockSkew < c.validated := hc.fresh (by simp)
    have hskew := a.clockSkew_pos
    have hroom : (s.cache.evictExpired s.now).entries.rows.length < s.cache.maxSize ∨ s.cache.maxSize < 4 ∨
        (s.cache.entries.get? jti).isSome = true := by
      have hroom : s.HasRoom c := hok
      simpa [HasRoom, hjti] using hroom
    refine ⟨?_, fun e he => ?_, fun p hp => ?_, ?_⟩
    · refine List.pairwise_append.2 ⟨h.once, List.pairwise_singleton _ _, fun e he e' he' _ hej => ?_⟩
      obtain rfl := List.mem_singleton.1 he'
      exact hfresh e he hej
    · rcases List.mem_append.1 he with he | he
      · by_cases hej : e.jti = c.jti
        · intro _ _
          have hlate := hfresh e he hej
          have hpast : c.validated ≤ s.now := hc.past
          refine Or.inl (?_ : e.exp < s.now)
          omega
        · refine (h.kept e he).of_live fun k x hk hx hle => ?_
          exact JTIReplayCache.get?_add_of_room hroom (fun hkj => hej (by rw [hk, hjti, hkj])) hx hle
      · obtain rfl := List.mem_singleton.1 he
        intro k hk
        obtain rfl : jti = k := Option.some.inj (hjti.symm.trans hk)
        exact Or.inr ⟨_, JTIReplayCache.get?_add_self, hc.long ttl rfl⟩
    · have hp' : p ∈ s.running := List.mem_of_mem_eraseIdx hp
      have hsound := h.sound p hp'
      refine ⟨hsound.hasJTI, hsound.past, fun hstage e he hej => ?_, hsound.long⟩
      rcases List.mem_append.1 he with he | he
      · exact hsound.fresh hstage e he hej
      · -- the others with this jti have not asked `Seen` yet
        obtain rfl := List.mem_singleton.1 he
        rw [show (s.proceed a i _ jti (.timed ttl)).running = l₁ ++ l₂ from herase] at hp
        exact absurd hej (hapart.1 p hp (by simp) hstage)
    · exact h.apart.sublist (List.eraseIdx_sublist _ i)

/-- A new call has not touched the cache yet. -/
theorem Safe.arrive (h : Safe a s) (raw : Text) : Safe a (s.arrive a raw) := by
  unfold Calls.arrive
  split
  · exact h
  · rename_i token _
    split
    · exact h
    · split
      · rename_i hnone
        have hnone : Call.jti ⟨token, s.now⟩ = none := by simpa using hnone
        refine ⟨?_, fun e he => ?_, fun p hp => ?_, h.apart⟩
        · refine List.pairwise_append.2 ⟨h.once, List.pairwise_singleton _ _, fun e he e' he' hsome hej => ?_⟩
          obtain rfl := List.mem_singleton.1 he'
          rw [hej, hnone] at hsome
          cases hsome
        · rcases List.mem_append.1 he with he | he
          · exact h.kept e he
          · obtain rfl := List.mem_singleton.1 he
            intro jti hjti
            rw [hnone] at hjti
            cases hjti
        · have hsound := h.sound p hp
          refine ⟨hsound.hasJTI, hsound.past, fun hstage e he hej => ?_, hsound.long⟩
          rcases List.mem_append.1 he with he | he
          · exact hsound.fresh hstage e he hej
          · obtain rfl := List.mem_singleton.1 he
            have hsome := hsound.hasJTI
            rw [← hej, hnone] at hsome
            cases hsome
      · rename_i hsome
        refine ⟨h.once, h.kept, fun p hp => ?_, ?_⟩
        · rcases List.mem_append.1 hp with hp | hp
          · exact h.sound p hp
          · obtain rfl := List.mem_singleton.1 hp
            exact ⟨by simpa [Option.isSome_iff_ne_none] using hsome, le_refl _, by simp, by simp⟩
        · refine List.pairwise_append.2 ⟨h.apart, List.pairwise_singleton _ _, fun p _ q hq _ hstage => ?_⟩
          obtain rfl := List.mem_singleton.1 hq
          exact absurd rfl hstage

theorem Safe.step (h : Safe a s) (hok : s.Careful a action) (hstep : s.step a action = some t) : Safe a t := by
  cases action with
  | tick d =>
    cases hstep
    have hle : s.now ≤ s.now + d := by omega
    exact ⟨h.once, fun e he => (h.kept e he).mono hle, fun p hp => (h.sound p hp).mono hle, h.apart⟩
  | arrive raw =>
    cases hstep
    exact h.arrive raw
  | proceed i =>
    simp only [Calls.step] at hstep
    split at hstep
    · cases hstep
    · rename_i c stage hi
      obtain ⟨jti, hjti, rfl⟩ := Option.map_eq_some_iff.1 hstep
      exact h.proceed hi hjti (hok _ hi)
  | cleanup =>
    cases hstep
    refine ⟨h.once, fun e he => (h.kept e he).of_live fun k x _ hx hle => ?_, h.sound, h.apart⟩
    rw [JTIReplayCache.get?_evictExpired, hx]
    simp [Option.filter, hle]

/-- A plugin that takes every signature; the clock skew is 30 s. -/
def oneUse : AuthJWT := newAuthJWT ⟨⟨fun _ _ => true, fun _ => none, fun _ => none, none⟩, [], [], [], [], 0, true⟩

/-- This token has the jti a and is valid up to second 60. -/
def tokenA : Text := "eyJhbGciOiJIUzI1NiJ9.eyJleHAiOjYwLCJqdGkiOiJhIn0.c2ln".toList

/-- A call that nobody comes between. -/
def alone (raw : Text) : List CallAction := [.arrive raw, .proceed 0, .proceed 0, .proceed 0]

def second : Nat := 1000000000

def start : Calls := ⟨0, newJTIReplayCacheWithSize 4, [], []⟩

/-- The second call for the token is refused: the first one is over, and its entry is there. -/
def refusal : List CallAction := alone tokenA ++ [.tick second, .arrive tokenA, .proceed 0]

/-- Both calls ask `Seen` before either of them comes to `Add`. -/
def overlap : List CallAction :=
  [.arrive tokenA, .arrive tokenA, .proceed 0, .proceed 1, .proceed 0, .proceed 0, .proceed 0, .proceed 0]

/-- The entry expires with second 60; the token is valid up to second 90. -/
def inSkew : List CallAction := alone tokenA ++ [.tick (61 * second)] ++ alone tokenA

/-- The jtis b, c, d and e fill the cache, and a, which expires first, has to go. -/
def eviction : List CallAction :=
  alone tokenA ++ alone "eyJhbGciOiJIUzI1NiJ9.eyJleHAiOjkwLCJqdGkiOiJiIn0.c2ln".toList ++
    alone "eyJhbGciOiJIUzI1NiJ9.eyJleHAiOjkwLCJqdGkiOiJjIn0.c2ln".toList ++
    alone "eyJhbGciOiJIUzI1NiJ9.eyJleHAiOjkwLCJqdGkiOiJkIn0.c2ln".toList ++
    alone "eyJhbGciOiJIUzI1NiJ9.eyJleHAiOjkwLCJqdGkiOiJlIn0.c2ln".toList ++ alone tokenA

/-- The times at which calls with a token have succeeded, and whether that is once. -/
def acceptedAfter (actions : List CallAction) : Option (List Int × Bool) :=
  ((system oneUse).exec (fun _ _ => True) start actions).map fun s =>
    ((s.accepted.filter fun e => e.jti = some ['a']).map Call.validated, decide (Once oneUse s.accepted))

end Calls

end Plugin
