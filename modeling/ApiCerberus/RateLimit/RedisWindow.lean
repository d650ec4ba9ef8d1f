import ApiCerberus.RateLimit.RedisBucket

/-!
# The sliding window in Redis

`internal/ratelimit/redis.go:291-433`. Every request adds a member with the milliseconds of its time as the score, and a
request counts the members that are left when those a window old are removed. The gateways and Redis read one clock.

A member is the milliseconds and an identifier that comes from another reading of the clock, so that two requests may
have the same one: the second is allowed and not counted. Scores and ends of windows are truncated to milliseconds, so
that a request at the end of a millisecond is removed up to a millisecond early. A window below a millisecond has no
time to expire: `EXPIRE` deletes the key. `redisWindow_bound`: in a run that meets none of these the bound holds.
-/

namespace RateLimit

open Transition

structure DistributedSlidingWindow where
  limit : Int
  window : Int
  limit_pos : 0 < limit
  window_pos : 0 < window

theorem orSecond_pos (n : Int) : 0 < if n ≤ 0 then 1000000000 else n := by split <;> omega

def newDistributedSlidingWindow (limit window : Int) : DistributedSlidingWindow where
  limit := if limit ≤ 0 then 1 else limit
  window := if window ≤ 0 then 1000000000 else window
  limit_pos := orOne_pos limit
  window_pos := orSecond_pos window

structure WindowRequest where
  now : Time
  /-- What `generateRequestID` reads. -/
  stamp : Time

/-- `sum` is `hex.EncodeToString` of `sha256.Sum256`. -/
def generateRequestID (sum : Text → Text) (stamp : Time) : Text := (sum (Text.ofInt stamp)).take 8

/-- Two requests of one millisecond differ in their identifiers only. -/
def memberOf (sum : Text → Text) (r : WindowRequest) : Text :=
  Text.ofInt (unixMilli r.now) ++ ':' :: generateRequestID sum r.stamp

/-- Members with their scores. -/
structure WindowKey where
  members : List (Text × Int)
  /-- Milliseconds. -/
  expireAt : Int

/-- What a command finds. -/
def liveMembers (t : Time) (key : Option WindowKey) : List (Text × Int) :=
  (key.filter fun k => unixMilli t ≤ k.expireAt).elim [] WindowKey.members

/-- From the score 0 on. -/
def zremrangebyscore (last : Int) (members : List (Text × Int)) : List (Text × Int) :=
  members.filter fun z => ¬ (0 ≤ z.2 ∧ z.2 ≤ last)

/-- A member that is there gets the score. -/
def zadd (member : Text) (score : Int) (members : List (Text × Int)) : List (Text × Int) :=
  (members.filter fun z => z.1 ≠ member) ++ [(member, score)]

namespace DistributedSlidingWindow

def windowMs (dsw : DistributedSlidingWindow) : Int := dsw.window / 1000000

/-- The seconds that `EXPIRE` is called with. -/
def expiry (dsw : DistributedSlidingWindow) : Int := ⌈(dsw.windowMs : ℚ) / 1000⌉ * 2

/-- The Lua script: old members go, and the request is added if there is room. -/
def evaluateSlidingWindow (dsw : DistributedSlidingWindow) (sum : Text → Text) (r : WindowRequest)
    (key : Option WindowKey) :
    Decision × Option WindowKey :=
  let nowMilli := unixMilli r.now
  let members := zremrangebyscore (unixMilli (r.now - dsw.window)) (liveMembers r.now key)
  if dsw.limit ≤ members.length then
    let oldest := (members.map Prod.snd).min?
    (⟨false, 0, (oldest.getD nowMilli + dsw.windowMs) * 1000000⟩, key.map fun k => { k with members := members })
  else
    (⟨true, max (dsw.limit - members.length - 1) 0, (nowMilli + dsw.windowMs) * 1000000⟩,
      if dsw.expiry ≤ 0 then none
      else some ⟨zadd (memberOf sum r) nowMilli members, nowMilli + dsw.expiry * 1000⟩)

end DistributedSlidingWindow

/-! ## Runs -/

/-- The key, and the requests so far with their decisions. -/
structure WindowRun where
  key : Option WindowKey
  log : List (WindowRequest × Decision)

/-- How many requests were allowed in the interval of this length that begins at `a`. -/
def WindowRun.allowedIn (s : WindowRun) (a : Time) (length : Int) : Nat :=
  s.log.countP fun e => e.2.allowed && (decide (a ≤ e.1.now) && decide (e.1.now < a + length))

namespace DistributedSlidingWindow

variable {dsw : DistributedSlidingWindow} {sum : Text → Text} {key : Option WindowKey}
  {r : WindowRequest} {s t : WindowRun}

/-- One run of the script. -/
def serve (dsw : DistributedSlidingWindow) (sum : Text → Text) (s : WindowRun) (r : WindowRequest) : WindowRun :=
  ⟨(dsw.evaluateSlidingWindow sum r s.key).2, s.log ++ [(r, (dsw.evaluateSlidingWindow sum r s.key).1)]⟩

def start : WindowRun := ⟨none, []⟩

def system (dsw : DistributedSlidingWindow) (sum : Text → Text) : System WindowRun WindowRequest where
  init s := s = start
  step s r := some (dsw.serve sum s r)

/-- The scripts run in the order of the clock, and a request that was allowed has another member and, while it is
younger than the window, a score that is not removed yet. -/
structure Spared (dsw : DistributedSlidingWindow) (sum : Text → Text) (s : WindowRun) (r : WindowRequest) : Prop where
  ordered : ∀ e ∈ s.log, e.1.now ≤ r.now
  member : ∀ e ∈ s.log, e.2.allowed = true → memberOf sum e.1 ≠ memberOf sum r
  score : ∀ e ∈ s.log, e.2.allowed = true → r.now - dsw.window < e.1.now →
    unixMilli (r.now - dsw.window) < unixMilli e.1.now

/-- The members that a request counts. -/
def found (dsw : DistributedSlidingWindow) (r : WindowRequest) (key : Option WindowKey) : List (Text × Int) :=
  zremrangebyscore (unixMilli (r.now - dsw.window)) (liveMembers r.now key)

structure Kept (dsw : DistributedSlidingWindow) (sum : Text → Text) (s : WindowRun) : Prop where
  /-- Who is still in the window of everyone has a member. -/
  present : ∀ e ∈ s.log, e.2.allowed = true → (∀ e' ∈ s.log, e'.1.now - dsw.window < e.1.now) →
    ∃ k, s.key = some k ∧ (memberOf sum e.1, unixMilli e.1.now) ∈ k.members
  distinct : ((s.log.filter fun e => e.2.allowed).map fun e => memberOf sum e.1).Nodup
  expires : ∀ k, s.key = some k → ∀ e ∈ s.log, e.2.allowed = true → unixMilli e.1.now + dsw.expiry * 1000 ≤ k.expireAt

theorem unixMilli_mono {t t' : Time} (h : t ≤ t') : unixMilli t ≤ unixMilli t' := Int.ediv_le_ediv (by decide) h

theorem one_le_windowMs (h : 1000000 ≤ dsw.window) : 1 ≤ dsw.windowMs := by
  unfold windowMs
  omega

theorem le_expiry (dsw : DistributedSlidingWindow) : 2 * dsw.windowMs ≤ dsw.expiry * 1000 := by
  have hceil := Int.le_ceil ((dsw.windowMs : ℚ) / 1000)
  rw [div_le_iff₀ (by norm_num)] at hceil
  have hint : dsw.windowMs ≤ ⌈(dsw.windowMs : ℚ) / 1000⌉ * 1000 := by exact_mod_cast hceil
  unfold expiry
  omega

/-- A key expires when everything in it is a window old. -/
theorem old_of_expired (hwindow : 1000000 ≤ dsw.window) {t t' : Time}
    (h : unixMilli t + dsw.expiry * 1000 < unixMilli t') :
    unixMilli t ≤ unixMilli (t' - dsw.window) := by
  have hms := one_le_windowMs hwindow
  have hexpiry := dsw.le_expiry
  refine unixMilli_mono ?_
  simp only [unixMilli, windowMs, Time] at *
  omega

/-- A request that was allowed less than a window ago is counted. -/
theorem Kept.mem_found (h : dsw.Kept sum s) (hwindow : 1000000 ≤ dsw.window) (hr : dsw.Spared sum s r)
    {e : WindowRequest × Decision}
    (he : e ∈ s.log) (hallowed : e.2.allowed = true) (hyoung : r.now - dsw.window < e.1.now) :
    (memberOf sum e.1, unixMilli e.1.now) ∈ dsw.found r s.key := by
  have hall : ∀ e' ∈ s.log, e'.1.now - dsw.window < e.1.now := fun e' he' =>
    lt_of_le_of_lt (Int.sub_le_sub_right (hr.ordered e' he') _) hyoung
  obtain ⟨k, hk, hmem⟩ := h.present e he hallowed hall
  have hscore := hr.score e he hallowed hyoung
  have hlive : unixMilli r.now ≤ k.expireAt := by
    by_contra hexpired
    have hexpires := h.expires k hk e he hallowed
    have hold : unixMilli e.1.now ≤ unixMilli (r.now - dsw.window) := old_of_expired hwindow (by omega)
    omega
  rw [found, zremrangebyscore, List.mem_filter, hk, liveMembers, Option.filter_some, if_pos (decide_eq_true hlive)]
  exact ⟨hmem, decide_eq_true fun hold => absurd hold.2 (not_le.2 hscore)⟩

/-- A request finds the limit reached, or it is added to the members. -/
theorem serve_cases (dsw : DistributedSlidingWindow) (sum : Text → Text) (s : WindowRun) (r : WindowRequest) :
    (∃ d : Decision, d.allowed = false ∧
      dsw.serve sum s r = ⟨s.key.map fun k => { k with members := dsw.found r s.key }, s.log ++ [(r, d)]⟩) ∨
    ∃ d : Decision, d.allowed = true ∧ ((dsw.found r s.key).length : Int) < dsw.limit ∧
      dsw.serve sum s r = ⟨if dsw.expiry ≤ 0 then none
        else some ⟨zadd (memberOf sum r) (unixMilli r.now) (dsw.found r s.key),
        unixMilli r.now + dsw.expiry * 1000⟩, s.log ++ [(r, d)]⟩ := by
  unfold DistributedSlidingWindow.serve evaluateSlidingWindow found
  dsimp only
  split
  · exact .inl ⟨_, rfl, rfl⟩
  · rename_i hroom
    exact .inr ⟨_, rfl, not_le.1 hroom, rfl⟩

/-- A request that is spared removes no member that still counts. -/
theorem Kept.serve (h : dsw.Kept sum s) (hwindow : 1000000 ≤ dsw.window) (hr : dsw.Spared sum s r) :
    dsw.Kept sum (dsw.serve sum s r) := by
  rcases serve_cases dsw sum s r with ⟨d, hd, hserve⟩ | ⟨d, hd, -, hserve⟩
  · rw [hserve]
    have hlog : ∀ e ∈ s.log ++ [(r, d)], e.2.allowed = true → e ∈ s.log := by
      intro e he hallowed
      rcases List.mem_append.1 he with he | he
      · exact he
      · rw [List.mem_singleton.1 he, hd] at hallowed
        cases hallowed
    refine ⟨fun e he hallowed hyoung => ?_, ?_, fun k' hk' e he hallowed => ?_⟩
    · have he := hlog e he hallowed
      obtain ⟨k, hk, -⟩ := h.present e he hallowed fun e' he' => hyoung e' (List.mem_append_left _ he')
      have hfound := h.mem_found hwindow hr he hallowed (hyoung (r, d) (by simp))
      exact ⟨{ k with members := dsw.found r s.key }, by rw [hk]; rfl, hfound⟩
    · simpa [List.filter_append, hd] using h.distinct
    · obtain ⟨k, hk, rfl⟩ := Option.map_eq_some_iff.1 hk'
      exact h.expires k hk e (hlog e he hallowed) hallowed
  · have hexpiry : ¬ dsw.expiry ≤ 0 := by
      have := one_le_windowMs hwindow
      have := dsw.le_expiry
      omega
    rw [hserve, if_neg hexpiry]
    refine ⟨fun e he hallowed hyoung => ⟨_, rfl, ?_⟩, ?_, fun k hk e he hallowed => ?_⟩
    · rw [zadd, List.mem_append]
      rcases List.mem_append.1 he with he | he
      · have hfound := h.mem_found hwindow hr he hallowed (hyoung (r, d) (by simp))
        exact .inl (List.mem_filter.2 ⟨hfound, decide_eq_true (hr.member e he hallowed)⟩)
      · rw [List.mem_singleton.1 he]
        exact .inr (List.mem_singleton_self _)
    · rw [List.filter_append, List.map_append, List.filter_singleton, hd]
      refine List.nodup_append.2 ⟨h.distinct, List.nodup_singleton _, fun m hm m' hm' heq => ?_⟩
      obtain ⟨e, he, rfl⟩ := List.mem_map.1 hm
      obtain ⟨he, hallowed⟩ := List.mem_filter.1 he
      exact hr.member e he hallowed (heq.trans (List.mem_singleton.1 hm'))
    · cases hk
      rcases List.mem_append.1 he with he | he
      · have := unixMilli_mono (hr.ordered e he)
        dsimp only
        omega
      · rw [List.mem_singleton.1 he]

/-- One more request is allowed in an interval only if there were less than `limit`. -/
theorem Kept.allowedIn_serve (h : dsw.Kept sum s) (hwindow : 1000000 ≤ dsw.window) (hr : dsw.Spared sum s r) (a : Time)
    (hle : (s.allowedIn a dsw.window : Int) ≤ dsw.limit) :
      ((dsw.serve sum s r).allowedIn a dsw.window : Int) ≤ dsw.limit := by
  rcases serve_cases dsw sum s r with ⟨d, hd, hserve⟩ | ⟨d, hd, hroom, hserve⟩
  · rw [hserve, WindowRun.allowedIn, List.countP_append, List.countP_singleton]
    simpa [hd, WindowRun.allowedIn] using hle
  · by_cases hin : a ≤ r.now ∧ r.now < a + dsw.window
    · -- whoever was allowed in the interval is among the members that `r` finds
      have hsub :
        ((s.log.filter fun e => e.2.allowed && (decide (a ≤ e.1.now) && decide (e.1.now < a + dsw.window))).map
          fun e => memberOf sum e.1) ⊆ (dsw.found r s.key).map Prod.fst := by
        intro m hm
        obtain ⟨e, he, rfl⟩ := List.mem_map.1 hm
        obtain ⟨he, hboth⟩ := List.mem_filter.1 he
        simp only [Bool.and_eq_true, decide_eq_true_eq] at hboth
        have hyoung : r.now - dsw.window < e.1.now := by
          have := hin.2
          have := hboth.2.1
          simp only [Time] at *
          omega
        exact List.mem_map.2 ⟨_, h.mem_found hwindow hr he hboth.1 hyoung, rfl⟩
      have hnodup :
        ((s.log.filter fun e => e.2.allowed && (decide (a ≤ e.1.now) && decide (e.1.now < a + dsw.window))).map
          fun e => memberOf sum e.1).Nodup := by
        refine h.distinct.sublist (List.Sublist.map _ (List.monotone_filter_right _ fun e he => ?_))
        exact (Bool.and_eq_true _ _ ▸ he).1
      have hlength := (hnodup.subperm hsub).length_le
      rw [List.length_map, List.length_map, ← List.countP_eq_length_filter] at hlength
      rw [hserve, WindowRun.allowedIn, List.countP_append, List.countP_singleton]
      simp only [hd, hin.1, hin.2, decide_true, Bool.and_self, if_true]
      omega
    · rw [hserve, WindowRun.allowedIn, List.countP_append, List.countP_singleton]
      have hout : (d.allowed && (decide (a ≤ r.now) && decide (r.now < a + dsw.window))) = false := by
        simpa [hd] using hin
      rw [hout]
      simpa [WindowRun.allowedIn] using hle

end DistributedSlidingWindow

open DistributedSlidingWindow

/-- **The sliding window in Redis**: with a window of a millisecond at least, in every run in which every script is
spared the defects at most `limit` requests are allowed in any interval of the length of the window. -/
theorem redisWindow_bound (dsw : DistributedSlidingWindow) (sum : Text → Text)
    (hwindow : 1000000 ≤ dsw.window) {s : WindowRun}
    (hs : Reach (dsw.system sum) (dsw.Spared sum) s) (a : Time) : (s.allowedIn a dsw.window : Int) ≤ dsw.limit := by
  have hinv : dsw.Kept sum s ∧ (s.allowedIn a dsw.window : Int) ≤ dsw.limit := by
    refine Reach.invariant (P := fun s => dsw.Kept sum s ∧ (s.allowedIn a dsw.window : Int) ≤ dsw.limit) ?_ ?_ hs
    · rintro s rfl
      exact ⟨⟨nofun, List.nodup_nil, nofun⟩, dsw.limit_pos.le⟩
    · rintro s r t - ⟨hkept, hle⟩ hr hstep
      cases hstep
      exact ⟨hkept.serve hwindow hr, hkept.allowedIn_serve hwindow hr a hle⟩
  exact hinv.2

/-- One request a second: of three that are half a second apart the second one is refused. -/
theorem redisWindow_bound_second : ∃ s : WindowRun,
    [⟨0, 1⟩, ⟨500000000, 2⟩, ⟨1000000000, 3⟩].foldl ((newDistributedSlidingWindow 1 1000000000).serve id) start = s ∧
      s.log.map (fun e => e.2.allowed) = [true, false, true] ∧ ∀ a, (s.allowedIn a 1000000000 : Int) ≤ 1 := by
  refine ⟨_, rfl, by decide +kernel, redisWindow_bound (newDistributedSlidingWindow 1 1000000000) id (by decide) ?_⟩
  refine Reach.step (a := ⟨1000000000, 3⟩)
    (Reach.step (a := ⟨500000000, 2⟩) (Reach.step (a := ⟨0, 1⟩) (.of_init rfl) ?_ rfl) ?_ rfl) ?_ rfl
  all_goals exact ⟨by decide +kernel, by decide +kernel, by decide +kernel⟩

/-- Three requests are allowed in one millisecond with the limit two if their identifiers come from one reading; two
with the limit one in less than the window if the first is at the end of its millisecond; and two at once with a window
of half a millisecond. -/
theorem redisWindow_exceeds :
    ([⟨0, 7⟩, ⟨0, 7⟩, ⟨0, 7⟩].foldl ((newDistributedSlidingWindow 2 1000000000).serve id) start).allowedIn
      0 1000000000 = 3 ∧
    ([⟨999999, 1⟩, ⟨1000000000, 2⟩].foldl
      ((newDistributedSlidingWindow 1 1000000000).serve id) start).allowedIn 999999 1000000000 = 2 ∧
    ([⟨0, 1⟩, ⟨1, 2⟩].foldl ((newDistributedSlidingWindow 1 500000).serve id) start).allowedIn 0 500000 = 2 := by
  decide +kernel

end RateLimit
