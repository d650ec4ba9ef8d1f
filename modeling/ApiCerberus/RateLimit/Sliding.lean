import ApiCerberus.RateLimit.Concurrency
import ApiCerberus.RateLimit.Purge

/-!
# How far the sliding window looks back

`pruneLocked` keeps `windowSpan` slots, the one of the call among them (`sliding_window.go:90-97`). A call at the start
of its slot looks back over `windowSpan - 1` whole slots and no further, so the calls of the slot before them are
forgotten although they may be less than a window old.

The slots that are kept count exactly the allowed calls in them (`Kept`), and so the limit holds for intervals of a
length up to `(windowSpan - 1) * subWindow + 1` and for no longer ones (`bounded_iff`, `slidingWindow_bound_iff`).
-/

namespace RateLimit

open Keyed

namespace SlidingWindow

variable {sw : SlidingWindow} {state : SlidingWindowState} {x : Option SlidingWindowState} {t : Time}
  {log : List (Time × Decision)}

/-! ## Slots -/

/-- What the slots from `m` on have counted. -/
def weight (m : Int) (state : SlidingWindowState) : Nat :=
  ((state.counts.rows.filter fun r => m ≤ r.1).map Prod.snd).sum

theorem total_eq_sum (state : SlidingWindowState) : total state = (state.counts.rows.map Prod.snd).sum := by
  have hfold : ∀ (rows : List (Int × Nat)) (n : Nat), rows.foldl (fun total r => total + r.2) n =
      n + (rows.map Prod.snd).sum := by
    intro rows
    induction rows with
    | nil => exact fun n => rfl
    | cons r rows ih =>
      intro n
      rw [List.foldl_cons, ih, List.map_cons, List.sum_cons, Nat.add_assoc]
  rw [total, hfold, Nat.zero_add]

theorem total_pruneLocked (state : SlidingWindowState) (slot : Int) :
    total (sw.pruneLocked state slot) = weight (slot - sw.windowSpan + 1) state := total_eq_sum _

theorem weight_pruneLocked {m slot : Int} (h : slot - sw.windowSpan + 1 ≤ m) :
    weight m (sw.pruneLocked state slot) = weight m state := by
  unfold weight pruneLocked FinMap.filter
  rw [List.filter_filter]
  congr 2
  refine List.filter_congr fun r _ => ?_
  rw [← Bool.decide_and, decide_eq_decide]
  omega

/-- One more call in a slot. -/
theorem weight_count (state : SlidingWindowState) (slot m : Int) :
    weight m ⟨state.counts.set slot ((state.counts.get? slot).getD 0 + 1)⟩ = weight m state + if m ≤ slot then 1
      else 0 := by
  have hsum : ∀ {rows rows' : List (Int × Nat)}, rows.Perm rows' →
      ((rows.filter fun r => decide (m ≤ r.1)).map Prod.snd).sum =
        ((rows'.filter fun r => decide (m ≤ r.1)).map Prod.snd).sum :=
    fun h => ((h.filter _).map _).sum_eq
  unfold weight
  cases hget : state.counts.get? slot with
  | none =>
    rw [hsum (FinMap.rows_set_perm ..), FinMap.erase_of_none hget, List.filter_cons]
    split <;> simp_all [Nat.add_comm]
  | some n =>
    rw [hsum (FinMap.rows_set_perm ..), hsum (FinMap.rows_perm_erase hget), List.filter_cons, List.filter_cons]
    by_cases hm : m ≤ slot
    · simp only [hm, decide_true, if_true, Option.getD_some, List.map_cons, List.sum_cons]
      omega
    · simp [hm]

/-- A slot is `subWindow` long, and the one around zero is longer. -/
theorem slotID_le_add {t' : Time} {n : Int} (hn : 0 ≤ n) (h : t ≤ t' + n * sw.subWindow) :
    sw.slotID t ≤ sw.slotID t' + n := by
  have hpos := sw.subWindow_pos
  have hmono : sw.slotID t ≤ sw.slotID (t' + n * sw.subWindow) := sw.slotID_mono h
  refine hmono.trans ?_
  unfold slotID
  rw [Int.tdiv_eq_ediv, Int.tdiv_eq_ediv, Int.add_mul_ediv_right _ _ (by omega), Int.sign_eq_one_of_pos hpos]
  have hdvd : sw.subWindow ∣ t' → sw.subWindow ∣ t' + n * sw.subWindow := fun h => Int.dvd_add h (Dvd.intro_left n rfl)
  have hprod : 0 ≤ n * sw.subWindow := Int.mul_nonneg hn (by omega)
  split
  · split <;> omega
  · rename_i hnot
    rw [if_neg fun hor => hnot (hor.imp (by omega) hdvd)]
    omega

/-! ## What is kept -/

/-- The slots that the next call looks at count the allowed calls in them. -/
def Kept (sw : SlidingWindow) (x : Option SlidingWindowState) (log : List (Time × Decision)) : Prop :=
  ∀ m, (∀ e ∈ log, sw.slotID e.1 - sw.windowSpan + 1 ≤ m) →
    weight m (x.getD ⟨.empty⟩) = allowedWhen (fun t => m ≤ sw.slotID t) log

/-- The calls in the slots that a call at `t` looks at. -/
def lookback (sw : SlidingWindow) (t : Time) (log : List (Time × Decision)) : Nat :=
  allowedWhen (fun t' => sw.slotID t - sw.windowSpan + 1 ≤ sw.slotID t') log

theorem Kept.total (h : sw.Kept x log) (hlog : ∀ e ∈ log, e.1 ≤ t) :
    SlidingWindow.total (sw.pruneLocked (x.getD ⟨.empty⟩) (sw.slotID t)) = sw.lookback t log := by
  rw [total_pruneLocked, h _ fun e he => ?_]
  · rfl
  · have := sw.slotID_mono (hlog e he)
    omega

/-- A call is allowed if it finds less than the limit. -/
theorem Kept.allowed_iff (h : sw.Kept x log) (hlog : ∀ e ∈ log, e.1 ≤ t) :
    (sw.allow t (x.getD ⟨.empty⟩)).1.allowed = true ↔ (sw.lookback t log : Int) < sw.limit := by
  unfold allow
  dsimp only
  rw [h.total hlog]
  split
  · exact iff_of_false nofun (by omega)
  · exact iff_of_true rfl (by omega)

theorem Kept.enter (h : sw.Kept x log) (t : Time) :
    sw.Kept (some (sw.allow t (x.getD ⟨.empty⟩)).2) (log ++ [(t, (sw.allow t (x.getD ⟨.empty⟩)).1)]) := by
  intro m hm
  have hlast : sw.slotID t - sw.windowSpan + 1 ≤ m := hm (t, _) (List.mem_append_right _ (List.mem_singleton_self _))
  have hbefore := h m fun e he => hm e (List.mem_append_left _ he)
  have hpruned : weight m (sw.pruneLocked (x.getD ⟨.empty⟩) (sw.slotID t)) =
    allowedWhen (fun t => m ≤ sw.slotID t) log :=
    (weight_pruneLocked hlast).trans hbefore
  rw [allowedWhen_snoc, Option.getD_some]
  unfold allow
  dsimp only
  split
  · exact hpruned
  · dsimp only
    rw [weight_count, hpruned, Bool.true_and]
    simp only [decide_eq_true_iff]

theorem kept_serve {ts : List Time} (hts : ts.Pairwise (· ≤ ·)) :
    sw.Kept (serve sw.cell none ts).2 (serve sw.cell none ts).1 :=
  serve_invariant (P := sw.Kept) (fun _ _ => rfl) (fun t _ _ h _ => h.enter t) hts

/-! ## The bound -/

/-- At most `limit` calls are allowed in a half-open interval of length `length`, whenever calls are made. -/
def Bounded (sw : SlidingWindow) (length : Int) : Prop :=
  ∀ ts : List Time, ts.Pairwise (· ≤ ·) → ∀ a : Time,
    (allowedWhen (fun t => a ≤ t ∧ t < a + length) (serve sw.cell none ts).1 : Int) ≤ sw.limit

/-- What a call surely looks at is enough for an interval of that length: the last call that is allowed in it has
counted the others. -/
theorem bounded_lookback (sw : SlidingWindow) : sw.Bounded ((sw.windowSpan - 1) * sw.subWindow + 1) := by
  intro ts hts a
  have hboth : sw.Kept (serve sw.cell none ts).2 (serve sw.cell none ts).1 ∧
      (allowedWhen (fun t => a ≤ t ∧ t < a + ((sw.windowSpan - 1) * sw.subWindow + 1)) (serve sw.cell none ts).1 :
        Int) ≤ sw.limit := by
    refine serve_invariant (P := fun x log => sw.Kept x log ∧
      (allowedWhen (fun t => a ≤ t ∧ t < a + ((sw.windowSpan - 1) * sw.subWindow + 1)) log : Int) ≤ sw.limit) ?_ ?_ hts
    · exact ⟨fun _ _ => rfl, Int.le_of_lt sw.limit_pos⟩
    · rintro t x log ⟨hkept, hle⟩ hlog
      refine ⟨hkept.enter t, ?_⟩
      rw [allowedWhen_snoc]
      split
      · rename_i hboth
        obtain ⟨hallowed, hin⟩ := (Bool.and_eq_true _ _).mp hboth
        have hfound := (hkept.allowed_iff hlog).1 hallowed
        have hin : a ≤ t ∧ t < a + ((sw.windowSpan - 1) * sw.subWindow + 1) := of_decide_eq_true hin
        have hcovered : allowedWhen (fun t => a ≤ t ∧ t < a + ((sw.windowSpan - 1) * sw.subWindow + 1)) log ≤
            sw.lookback t log := by
          refine allowedWhen_mono (fun t' ht' => ?_) log
          have ht' : a ≤ t' ∧ t' < a + ((sw.windowSpan - 1) * sw.subWindow + 1) := of_decide_eq_true ht'
          refine decide_eq_true ?_
          dsimp only [Time] at hin ht'
          have hspan : 0 ≤ sw.windowSpan - 1 := by
            by_contra hneg
            have := Int.mul_le_mul_of_nonneg_right (show sw.windowSpan - 1 ≤ -1 by omega)
              (Int.le_of_lt sw.subWindow_pos)
            have := sw.subWindow_pos
            omega
          have := sw.slotID_le_add hspan (show t ≤ t' + (sw.windowSpan - 1) * sw.subWindow by dsimp only [Time]; omega)
          omega
        omega
      · exact_mod_cast hle
  exact hboth.2

theorem Bounded.mono {length length' : Int} (h : sw.Bounded length) (hle : length' ≤ length) : sw.Bounded length' := by
  intro ts hts a
  have hfewer := allowedWhen_mono (p := fun t => a ≤ t ∧ t < a + length') (q := fun t => a ≤ t ∧ t < a + length)
    (fun t ht => by
      simp only [decide_eq_true_iff] at ht ⊢
      exact ⟨ht.1, ht.2.trans_le (Int.add_le_add_left hle a)⟩) (serve sw.cell none ts).1
  have := h ts hts a
  omega

theorem times_burst {n : Nat} {t : Time} : ∀ e ∈ (serve sw.cell none (List.replicate n t)).1, e.1 = t := by
  intro e he
  have hmem : e.1 ∈ (serve sw.cell none (List.replicate n t)).1.map Prod.fst := List.mem_map_of_mem he
  rw [map_fst_serve] at hmem
  exact List.eq_of_mem_replicate hmem

/-- The first calls are allowed until the limit is reached. -/
theorem allowedWhen_burst (hspan : 1 ≤ sw.windowSpan) (t : Time) {n : Nat} (hn : n ≤ sw.limit) {p : Time → Bool}
    (hp : p t = true) :
    allowedWhen p (serve sw.cell none (List.replicate n t)).1 = n := by
  induction n generalizing p with
  | zero => rfl
  | succ n ih =>
    have hkept : sw.Kept (serve sw.cell none (List.replicate n t)).2 (serve sw.cell none (List.replicate n t)).1 :=
      sw.kept_serve (List.pairwise_replicate.2 (.inr (Int.le_refl t)))
    have hfound : sw.lookback t (serve sw.cell none (List.replicate n t)).1 = n :=
      ih (by omega) (decide_eq_true (by omega))
    have hallowed : (sw.allow t ((serve sw.cell none (List.replicate n t)).2.getD ⟨.empty⟩)).1.allowed = true := by
      rw [hkept.allowed_iff fun e he => Int.le_of_eq (times_burst e he), hfound]
      omega
    rw [List.replicate_succ', serve_snoc, allowedWhen_snoc, ih (by omega) hp, hp]
    show n + (if (sw.allow t ((serve sw.cell none (List.replicate n t)).2.getD ⟨.empty⟩)).1.allowed && true then 1
      else 0) = n + 1
    rw [hallowed]
    rfl

/-- As many calls as are allowed in the last nanosecond of a slot, and one more when that slot is forgotten. -/
def forgotten (sw : SlidingWindow) : List Time :=
  List.replicate sw.limit.toNat (sw.subWindow - 1) ++ [sw.windowSpan * sw.subWindow]

theorem forgotten_sorted (hspan : 1 ≤ sw.windowSpan) : sw.forgotten.Pairwise (· ≤ ·) := by
  have hlater : sw.subWindow - 1 ≤ sw.windowSpan * sw.subWindow := by
    have := Int.mul_le_mul_of_nonneg_right hspan (Int.le_of_lt sw.subWindow_pos)
    omega
  refine List.pairwise_append.2 ⟨List.pairwise_replicate.2 (.inr (Int.le_refl _)), List.pairwise_singleton _ _, ?_⟩
  rintro t ht t' ht'
  rw [List.eq_of_mem_replicate ht, List.mem_singleton.1 ht']
  exact hlater

theorem allowedWhen_forgotten (hspan : 1 ≤ sw.windowSpan) {p : Time → Bool} (hfirst : p (sw.subWindow - 1) = true)
    (hlast : p (sw.windowSpan * sw.subWindow) = true) :
      (allowedWhen p (serve sw.cell none sw.forgotten).1 : Int) = sw.limit + 1 := by
  have hlimit := sw.limit_pos
  have hpos := sw.subWindow_pos
  have hslots : sw.slotID (sw.subWindow - 1) = 0 ∧ sw.slotID (sw.windowSpan * sw.subWindow) = sw.windowSpan :=
    ⟨Int.tdiv_eq_zero_of_lt (by omega) (by omega), Int.mul_tdiv_cancel _ (by omega)⟩
  have hsorted : (List.replicate sw.limit.toNat (sw.subWindow - 1)).Pairwise (· ≤ ·) :=
    List.pairwise_replicate.2 (.inr (Int.le_refl _))
  have hkept := sw.kept_serve hsorted
  have hbefore := (List.pairwise_append.1 (sw.forgotten_sorted hspan)).2.2
  have hnone : sw.lookback (sw.windowSpan * sw.subWindow)
      (serve sw.cell none (List.replicate sw.limit.toNat (sw.subWindow - 1))).1 = 0 := by
    refine allowedWhen_eq_zero fun e he => decide_eq_false ?_
    rw [times_burst e he, hslots.1, hslots.2]
    omega
  have hallowed : (sw.allow (sw.windowSpan * sw.subWindow)
      ((serve sw.cell none (List.replicate sw.limit.toNat (sw.subWindow - 1))).2.getD ⟨.empty⟩)).1.allowed = true := by
    rw [hkept.allowed_iff, hnone]
    · exact hlimit
    · intro e he
      have hmem : e.1 ∈ List.replicate sw.limit.toNat (sw.subWindow - 1) := by
        rw [← map_fst_serve (c := sw.cell) none (List.replicate sw.limit.toNat (sw.subWindow - 1))]
        exact List.mem_map_of_mem he
      exact hbefore e.1 hmem _ (List.mem_singleton_self _)
  rw [forgotten, serve_snoc, allowedWhen_snoc, allowedWhen_burst hspan _ (by omega) hfirst, hlast]
  show ((sw.limit.toNat + (if (sw.allow (sw.windowSpan * sw.subWindow)
    ((serve sw.cell none (List.replicate sw.limit.toNat (sw.subWindow - 1))).2.getD ⟨.empty⟩)).1.allowed && true then 1
      else 0) : Nat) : Int) = _
  rw [hallowed]
  simp only [Bool.and_true, if_true]
  omega

/-- The bound holds for exactly the lengths that a call surely looks back over. -/
theorem bounded_iff (hspan : 1 ≤ sw.windowSpan) (length : Int) : sw.Bounded length ↔
    length ≤ (sw.windowSpan - 1) * sw.subWindow + 1 := by
  constructor
  · intro h
    by_contra hlong
    have hbound := h sw.forgotten (sw.forgotten_sorted hspan) (sw.subWindow - 1)
    have hpos := sw.subWindow_pos
    have hprod := Int.mul_le_mul_of_nonneg_right hspan (Int.le_of_lt hpos)
    have hexpand : (sw.windowSpan - 1) * sw.subWindow = sw.windowSpan * sw.subWindow - sw.subWindow := by ring
    have hfirst : sw.subWindow - 1 < sw.subWindow - 1 + length := by omega
    have hlast : sw.subWindow - 1 ≤ sw.windowSpan * sw.subWindow ∧
      sw.windowSpan * sw.subWindow < sw.subWindow - 1 + length := by omega
    rw [allowedWhen_forgotten hspan (decide_eq_true ⟨Int.le_refl _, hfirst⟩) (decide_eq_true hlast)] at hbound
    omega
  · exact fun hle => sw.bounded_lookback.mono hle

end SlidingWindow

/-- The quotient of the constructor is rounded three times, but there is always a slot. -/
theorem one_le_windowSpan (limit window : Int) : 1 ≤ (newSlidingWindow limit window).windowSpan := by
  obtain ⟨w, s, hw, hs, hle, hspan⟩ : ∃ w s : Int, 0 < w ∧ 0 < s ∧ s ≤ 100000000 * w ∧
    (newSlidingWindow limit window).windowSpan =
      ⌈Float64.round (Float64.round w / Float64.round s)⌉ := by
    refine ⟨_, _, ?_, (newSlidingWindow limit window).subWindow_pos, ?_, rfl⟩
    · show 0 < if window ≤ 0 then 1000000000 else window
      split <;> omega
    · show (if (if window ≤ 0 then 1000000000 else window).tdiv 10 ≤ 0 then 100000000
        else (if window ≤ 0 then 1000000000 else window).tdiv 10) ≤ 100000000 * if window ≤ 0 then
          1000000000 else window
      rw [Int.tdiv_eq_ediv_of_nonneg (by split <;> omega)]
      split <;> split <;> omega
  have hbottom : (2 : ℚ) ^ (-1074 : Int) ≤ 1 / 400000000 := by decide +kernel
  have hw' : (1 : ℚ) ≤ w := by exact_mod_cast hw
  have hs' : (1 : ℚ) ≤ s := by exact_mod_cast hs
  have hle' : (s : ℚ) ≤ 100000000 * w := by exact_mod_cast hle
  obtain ⟨hwindow, -⟩ := Float64.round_mem (q := w) (by linarith)
  obtain ⟨hlow, hsub⟩ := Float64.round_mem (q := s) (by linarith)
  have hquot : 1 / 400000000 ≤ Float64.round w / Float64.round s := by
    rw [div_le_div_iff₀ (by norm_num) (by linarith)]
    linarith
  obtain ⟨hround, -⟩ := Float64.round_mem (hbottom.trans hquot)
  rw [hspan, Int.one_le_ceil_iff]
  linarith

/-- **The sliding window**: at most `limit` calls are allowed in every interval of length `window` exactly if a call
surely looks back that far, over the slots before its own and the first nanosecond of its own. -/
theorem slidingWindow_bound_iff (limit window : Int) :
    (newSlidingWindow limit window).Bounded (newSlidingWindow limit window).window ↔
      (newSlidingWindow limit window).window ≤
        ((newSlidingWindow limit window).windowSpan - 1) * (newSlidingWindow limit window).subWindow + 1 :=
  SlidingWindow.bounded_iff (one_le_windowSpan limit window) _

/-- One request a second: the one in the last nanosecond of a slot is forgotten 900000001 nanoseconds later. -/
theorem slidingWindow_forgets : ¬ (newSlidingWindow 1 1000000000).Bounded 1000000000 := by
  intro h
  have htwo : allowedWhen (fun t => 99999999 ≤ t ∧ t < 99999999 + 1000000000)
      (serve (newSlidingWindow 1 1000000000).cell none [99999999, 1000000000]).1 = 2 := by decide +kernel
  have hbound := h [99999999, 1000000000] (by decide) 99999999
  rw [htwo] at hbound
  exact absurd hbound (by decide)

end RateLimit
