import Mathlib.Data.Nat.ModEq
import Mathlib.Data.List.Basic

/-!
# The ring buffer of recent requests

`RingBuffer` in `internal/analytics/engine.go`. `Push` draws a number from a counter and stores the item in the slot
that is this number modulo the size; `Snapshot` goes back from the counter in the same way. What carries the proof over
any number of rounds is `Holds`: among the last `size` items, the item with number `j` is in the slot `j % size`.
-/

/-- A slot is the pointer that was stored last, `none` as long as there is none. -/
structure RingBuffer (α : Type*) where
  slots : List (Option α)
  size : UInt64
  written : UInt64

namespace RingBuffer

variable {α : Type*}

def newRingBuffer (size : Int64) : RingBuffer α :=
  let size := if size ≤ 0 then 1 else size
  ⟨List.replicate size.toNatClampNeg none, size.toUInt64, 0⟩

/-- The slot is that of the counter before the increment. -/
def push (r : RingBuffer α) (item : α) : RingBuffer α :=
  if r.size = 0 then r
  else
    let written := r.written + 1
    let index := written - 1
    let slot := index % r.size
    { r with slots := r.slots.set slot.toNat (some item), written }

/-- The newest items, oldest first. -/
def snapshot (r : RingBuffer α) (limit : Int64) : List α :=
  if r.size = 0 then []
  else if r.written = 0 then []
  else
    let count := r.written.toInt64
    let count := if count > r.size.toInt64 then r.size.toInt64 else count
    let count := if limit > 0 ∧ limit < count then limit else count
    (List.range count.toNatClampNeg).filterMap fun i =>
      -- an empty slot is passed over
      r.slots[((r.written - 1 - .ofNat i) % r.size).toNat]?.join

/-- `items` were pushed, in this order, into a buffer with `cap` slots. -/
structure Holds (r : RingBuffer α) (cap : Nat) (items : List α) : Prop where
  pos : 0 < cap
  bound : cap < 2 ^ 63
  size : r.size = .ofNat cap
  length : r.slots.length = cap
  written : r.written = .ofNat items.length
  slot : ∀ j item, items[j]? = some item → items.length ≤ j + cap → r.slots[j % cap]? = some (some item)

/-- The number of slots that a buffer gets. -/
def capacity (size : Int64) : Nat := if size ≤ 0 then 1 else size.toNatClampNeg

theorem holds_new (size : Int64) : (newRingBuffer size : RingBuffer α).Holds (capacity size) [] := by
  by_cases h : size ≤ 0
  · refine ⟨?_, ?_, ?_, ?_, rfl, by simp⟩ <;> simp [newRingBuffer, capacity, h]
    rfl
  · have hsize : 0 < size.toInt := by
      simpa [Int64.le_iff_toInt_le] using h
    have hlt : size.toInt < 2 ^ 63 := Int64.toInt_lt size
    have htoNat : size.toNatClampNeg = size.toInt.toNat := rfl
    have hpos : 0 < size.toNatClampNeg := by omega
    have hbound : size.toNatClampNeg < 2 ^ 63 := by omega
    have hof : size.toUInt64 = .ofNat size.toNatClampNeg := by
      have hle : 0 ≤ size := by
        simpa [Int64.le_iff_toInt_le] using hsize.le
      rw [← Int64.toNat_toUInt64_of_le hle, UInt64.ofNat_toNat]
    refine ⟨?_, ?_, ?_, ?_, rfl, by simp⟩
    · simpa [capacity, h] using hpos
    · simpa [capacity, h] using hbound
    · simpa [newRingBuffer, capacity, h] using hof
    · simp [newRingBuffer, capacity, h]

variable {cap n : Nat}

/-- Two of `cap` numbers in a row are in different slots. -/
theorem mod_ne_mod {j : Nat} (hlt : j < n) (hn : n < j + cap) : j % cap ≠ n % cap := by
  intro h
  have hdvd : cap ∣ n - j := (Nat.modEq_iff_dvd' hlt.le).1 h
  have hle : cap ≤ n - j := Nat.le_of_dvd (by omega) hdvd
  omega

theorem toNat_ofNat (h : n < 2 ^ 63) : (UInt64.ofNat n).toNat = n :=
  UInt64.toNat_ofNat_of_lt' (by simp only [UInt64.size]; omega)

theorem ofNat_ne_zero (hpos : 0 < n) (h : n < 2 ^ 63) : UInt64.ofNat n ≠ 0 := by
  intro h0
  have hn := congrArg UInt64.toNat h0
  rw [toNat_ofNat h] at hn
  exact hpos.ne' hn

theorem Holds.size_ne_zero {r : RingBuffer α} {items : List α} (h : r.Holds cap items) : r.size ≠ 0 := by
  rw [h.size]
  exact ofNat_ne_zero h.pos h.bound

theorem Holds.push {r : RingBuffer α} {cap : Nat} {items : List α} (h : r.Holds cap items) (item : α)
    (hn : items.length < 2 ^ 63) : (r.push item).Holds cap (items ++ [item]) := by
  have hslot : ((r.written + 1 - 1) % r.size).toNat = items.length % cap := by
    rw [UInt64.add_sub_cancel, UInt64.toNat_mod, h.written, h.size, toNat_ofNat hn, toNat_ofNat h.bound]
  have hpush : r.push item = ⟨r.slots.set (items.length % cap) (some item), r.size, r.written + 1⟩ := by
    simp only [RingBuffer.push, if_neg h.size_ne_zero, hslot]
  rw [hpush]
  refine ⟨h.pos, h.bound, h.size, by simp [h.length], by simp [h.written], fun j x hj hle => ?_⟩
  have hmod : items.length % cap < cap := Nat.mod_lt _ h.pos
  rw [List.length_append, List.length_singleton] at hle
  obtain hlt | rfl | hgt := Nat.lt_trichotomy j items.length
  · -- an item that is still in reach is in another slot
    rw [List.getElem?_append_left hlt] at hj
    rw [List.getElem?_set_ne (mod_ne_mod hlt (by omega)).symm]
    exact h.slot j x hj (by omega)
  · rw [List.getElem?_concat_length] at hj
    cases hj
    rw [List.getElem?_set_self (by rw [h.length]; exact hmod)]
  · rw [List.getElem?_eq_none (by simp; omega)] at hj
    cases hj

theorem Holds.pushes {r : RingBuffer α} {cap : Nat} : ∀ {before : List α} (items : List α), r.Holds cap before →
    before.length + items.length < 2 ^ 63 → (items.foldl RingBuffer.push r).Holds cap (before ++ items)
  | before, [], h, _ => by simpa using h
  | before, item :: items, h, hn => by
    rw [List.length_cons] at hn
    have hrest := (h.push item (by omega)).pushes items (by rw [List.length_append, List.length_singleton]; omega)
    simpa using hrest

/-- How many of `n` pushed items a snapshot returns. -/
def shown (cap : Nat) (limit : Int64) (n : Nat) : Nat :=
  if 0 < limit then min (min n cap) limit.toNatClampNeg else min n cap

/-- The count of the loop of `Snapshot`, where nothing overflows. -/
theorem count_eq (hcap : cap < 2 ^ 63) (hn : n < 2 ^ 63) (limit : Int64) :
    (let count := (UInt64.ofNat n).toInt64
     let count := if count > (UInt64.ofNat cap).toInt64 then (UInt64.ofNat cap).toInt64 else count
     if limit > 0 ∧ limit < count then limit else count) = .ofNat (shown cap limit n) := by
  have hmin : (if Int64.ofNat n > Int64.ofNat cap then Int64.ofNat cap else Int64.ofNat n) = .ofNat (min n cap) := by
    simp only [gt_iff_lt, Int64.ofNat_lt_iff_lt hcap hn]
    split
    · rw [Nat.min_eq_right (by omega)]
    · rw [Nat.min_eq_left (by omega)]
  simp only [UInt64.toInt64_ofNat', hmin, shown]
  by_cases hlimit : 0 < limit
  · obtain ⟨l, hl, rfl⟩ : ∃ l : Nat, l < 2 ^ 63 ∧ limit = .ofNat l := by
      have hlt : limit.toInt < 2 ^ 63 := Int64.toInt_lt limit
      have htoNat : limit.toNatClampNeg = limit.toInt.toNat := rfl
      exact ⟨limit.toNatClampNeg, by omega, (Int64.ofNat_toNatClampNeg limit (Int64.le_of_lt hlimit)).symm⟩
    simp only [gt_iff_lt, hlimit, true_and, if_true, Int64.toNatClampNeg_ofNat_of_lt hl,
      Int64.ofNat_lt_iff_lt hl (show min n cap < 2 ^ 63 by omega)]
    split
    · rw [Nat.min_eq_right (show l ≤ min n cap by omega)]
    · rw [Nat.min_eq_left (show min n cap ≤ l by omega)]
  · simp [hlimit]

/-- The slot that the `i`-th round of the loop of `Snapshot` reads. -/
theorem Holds.read {r : RingBuffer α} {items : List α} (h : r.Holds cap items) (hn : items.length < 2 ^ 63)
    {i : Nat} (hi : i < items.length) (hcap : i < cap) :
    r.slots[((r.written - 1 - .ofNat i) % r.size).toNat]?.join = items.reverse[i]? := by
  have hindex : ((r.written - 1 - .ofNat i) % r.size).toNat = (items.length - 1 - i) % cap := by
    have hsub : r.written - 1 - .ofNat i = .ofNat (items.length - 1 - i) := by
      rw [h.written, UInt64.ofNat_sub (by omega), UInt64.ofNat_sub (by omega)]
      rfl
    rw [hsub, UInt64.toNat_mod, h.size, toNat_ofNat (by omega), toNat_ofNat h.bound]
  have hitem : items[items.length - 1 - i]? = some items[items.length - 1 - i] := List.getElem?_eq_getElem (by omega)
  rw [hindex, h.slot _ _ hitem (by omega), List.getElem?_reverse hi, hitem]
  rfl

theorem filterMap_range {f : Nat → Option α} {items : List α} :
    ∀ k, (∀ i < k, f i = items[i]?) → (List.range k).filterMap f = items.take k
  | 0, _ => by simp
  | k + 1, h => by
    have hlast : f k = items[k]? := h k (by omega)
    rw [List.range_succ, List.filterMap_append, filterMap_range k fun i hi => h i (by omega),
      List.take_add_one, ← hlast]
    cases hk : f k <;> simp [hk]

/-- **Snapshot**: after any number of pushes below `2 ^ 63`, a snapshot is the last `k` pushed items, the newest first,
where `k` is the smaller of their number and the size, and not more than a positive limit. -/
theorem snapshot_pushes (size limit : Int64) (items : List α) (hn : items.length < 2 ^ 63) :
    (items.foldl push (newRingBuffer size)).snapshot limit =
      items.reverse.take (shown (capacity size) limit items.length) := by
  have h : (items.foldl push (newRingBuffer size)).Holds (capacity size) items :=
    (holds_new size).pushes items (by simpa using hn)
  generalize items.foldl push (newRingBuffer size) = r at h
  have hle : shown (capacity size) limit items.length ≤ min items.length (capacity size) := by
    unfold shown
    split <;> omega
  simp only [snapshot, if_neg h.size_ne_zero]
  split
  · rename_i h0
    -- nothing was pushed
    have hnil : items = [] := by
      by_contra hne
      exact ofNat_ne_zero (List.length_pos_of_ne_nil hne) hn (h.written.symm.trans h0)
    simp [hnil]
  · rw [h.written, h.size, count_eq h.bound hn, Int64.toNatClampNeg_ofNat_of_lt (by omega), ← h.written, ← h.size]
    exact filterMap_range _ fun i hi => h.read hn (by omega) (by omega)

theorem snapshot_pushes_wrapped : (([10, 20, 30].foldl push (newRingBuffer 2) : RingBuffer Nat).snapshot 0) =
    [30, 20] :=
  (snapshot_pushes 2 0 [10, 20, 30] (by decide)).trans (by decide)

end RingBuffer
