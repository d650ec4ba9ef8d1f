import Mathlib.Data.String.Basic
import Mathlib.Order.Defs.LinearOrder

/-!
# Tables in the order of their primary key

A table is the list of its rows in ascending order of a key. `upsert` is `INSERT OR REPLACE`. A table
is determined by its rows as a set.

A `FinMap` is a finite map, kept as the table of its bindings, so that two maps with the same bindings
are equal.
-/

namespace Table

variable {α β : Type*} [LinearOrder β] (key : α → β)

def Sorted (rows : List α) : Prop := rows.Pairwise fun x y => key x < key y

/-- A row with the same key is replaced. -/
def upsert (row : α) : List α → List α
  | [] => [row]
  | x :: rows =>
    if key row < key x then row :: x :: rows
    else if key row = key x then row :: rows
    else x :: upsert row rows

variable {key} {row x : α} {rows rows' : List α}

theorem Sorted.nil : Sorted key ([] : List α) := List.Pairwise.nil

theorem mem_upsert (h : Sorted key rows) : x ∈ upsert key row rows ↔ x = row ∨ (x ∈ rows ∧ key x ≠ key row) := by
  induction rows with
  | nil => simp [upsert]
  | cons y rows ih =>
    obtain ⟨hy, hs⟩ := List.pairwise_cons.1 h
    have hne : ∀ z ∈ rows, key y < key z := hy
    unfold upsert
    split
    · rename_i hlt
      have hout : ∀ z, z = y ∨ z ∈ rows → key z ≠ key row := by
        rintro z (rfl | hz)
        · exact ne_of_gt hlt
        · exact ne_of_gt (lt_trans hlt (hne z hz))
      simp only [List.mem_cons]
      grind
    · split
      · rename_i heq
        have hout : ∀ z ∈ rows, key z ≠ key row := fun z hz => by rw [heq]; exact ne_of_gt (hne z hz)
        simp only [List.mem_cons]
        grind
      · simp only [List.mem_cons, ih hs]
        grind

theorem Sorted.upsert (h : Sorted key rows) (row : α) : Sorted key (upsert key row rows) := by
  induction rows with
  | nil => exact List.pairwise_singleton _ _
  | cons y rows ih =>
    obtain ⟨hy, hs⟩ := List.pairwise_cons.1 h
    unfold Table.upsert
    split
    · rename_i hlt
      exact List.pairwise_cons.2 ⟨fun z hz => by
        rcases List.mem_cons.1 hz with rfl | hz
        · exact hlt
        · exact lt_trans hlt (hy z hz), h⟩
    · split
      · rename_i heq
        exact List.pairwise_cons.2 ⟨fun z hz => by rw [heq]; exact hy z hz, hs⟩
      · rename_i hlt hne
        refine List.pairwise_cons.2 ⟨fun z hz => ?_, ih hs⟩
        rcases (mem_upsert hs).1 hz with rfl | ⟨hz, -⟩
        · exact lt_of_le_of_ne (not_lt.1 hlt) (Ne.symm hne)
        · exact hy z hz

/-- A table is determined by its rows. -/
theorem Sorted.ext (h : Sorted key rows) (h' : Sorted key rows') (hm : ∀ x, x ∈ rows ↔ x ∈ rows') : rows = rows' := by
  have hnd : ∀ {l : List α}, Sorted key l → l.Nodup := fun hl => hl.imp fun hlt he => by
    rw [he] at hlt
    exact lt_irrefl _ hlt
  have hp := (List.perm_ext_iff_of_nodup (hnd h) (hnd h')).2 hm
  exact hp.eq_of_pairwise (fun a b _ _ h1 h2 => absurd h1 (lt_asymm h2)) h h'

/-- A row behind all others is appended. -/
theorem upsert_last (h : ∀ x ∈ rows, key x < key row) : upsert key row rows = rows ++ [row] := by
  induction rows with
  | nil => rfl
  | cons y rows ih =>
    have hy := h y List.mem_cons_self
    rw [upsert, if_neg (lt_asymm hy), if_neg (ne_of_gt hy),
      ih fun x hx => h x (List.mem_cons_of_mem _ hx), List.cons_append]

/-- Rows can be changed as long as their keys stay. -/
theorem upsert_map {γ : Type*} {key' : γ → β} (f : α → γ) (hf : ∀ x, key' (f x) = key x) :
    (upsert key row rows).map f = upsert key' (f row) (rows.map f) := by
  induction rows with
  | nil => rfl
  | cons y rows ih =>
    simp only [upsert, List.map_cons, hf]
    split
    · rfl
    · split
      · rfl
      · rw [List.map_cons, ih]

end Table

/-- A finite map: its bindings in the order of their keys. -/
structure FinMap (β α : Type*) [LinearOrder β] where
  rows : List (β × α)
  sorted : Table.Sorted Prod.fst rows
deriving DecidableEq

namespace FinMap

variable {β α γ : Type*} [LinearOrder β]

def empty : FinMap β α := ⟨[], .nil⟩

def get? (m : FinMap β α) (k : β) : Option α := (m.rows.find? fun r => r.1 = k).map Prod.snd

def set (m : FinMap β α) (k : β) (v : α) : FinMap β α := ⟨Table.upsert Prod.fst (k, v) m.rows, m.sorted.upsert (k, v)⟩

def erase (m : FinMap β α) (k : β) : FinMap β α := ⟨m.rows.filter fun r => r.1 ≠ k, m.sorted.filter _⟩

/-- The bindings whose keys satisfy `p`. -/
def filter (p : β → Bool) (m : FinMap β α) : FinMap β α := ⟨m.rows.filter fun r => p r.1, m.sorted.filter _⟩

def map (f : α → γ) (m : FinMap β α) : FinMap β γ where
  rows := m.rows.map fun r => (r.1, f r.2)
  sorted := by
    have h : m.rows.Pairwise fun x y => x.1 < y.1 := m.sorted
    exact List.pairwise_map.2 h

theorem get?_empty (k : β) : (empty : FinMap β α).get? k = none := rfl

/-- Lookup after a write. -/
theorem get?_set (m : FinMap β α) (k k' : β) (v : α) : (m.set k v).get? k' = if k' = k then some v else m.get? k' := by
  have hfind : ∀ rows : List (β × α), (Table.upsert Prod.fst (k, v) rows).find? (fun r => r.1 = k') =
      if k' = k then some (k, v) else rows.find? fun r => r.1 = k' := by
    intro rows
    induction rows with
    | nil => by_cases h : k' = k <;> simp [Table.upsert, h, eq_comm]
    | cons r rows ih =>
      unfold Table.upsert
      split
      · by_cases h : k' = k <;> simp [h, eq_comm]
      · split
        · rename_i heq
          have heq : k = r.1 := heq
          by_cases h : k' = k
          · simp [h]
          · have hr : r.1 ≠ k' := fun h' => h (h'.symm.trans heq.symm)
            simp [h, hr, Ne.symm h]
        · rename_i hne
          have hne : k ≠ r.1 := hne
          rw [List.find?_cons, List.find?_cons, ih]
          by_cases h : k' = k
          · subst h
            simp [Ne.symm hne]
          · simp [h]
  unfold get? set
  simp only [hfind]
  split <;> rfl

theorem get?_erase (m : FinMap β α) (k k' : β) : (m.erase k).get? k' = if k' = k then none else m.get? k' := by
  unfold get? erase
  simp only [List.find?_filter]
  split
  · rename_i heq
    subst heq
    simp
  · rename_i hne
    have hsame : (fun r : β × α => decide (decide (r.1 ≠ k) = true ∧ decide (r.1 = k') = true)) = fun r =>
        decide (r.1 = k') := by
      funext r
      by_cases hr : r.1 = k'
      · simp [hr, hne]
      · simp [hr]
    rw [hsame]

variable {m m' : FinMap β α} {ι : Type*} {k : β}

/-- What a loop leaves that sets the key of each item to a value that depends on the key. -/
theorem get?_foldl_set (key : ι → β) (f : β → α) (items : List ι) (m : FinMap β α) (k : β) :
    (items.foldl (fun m i => m.set (key i) (f (key i))) m).get? k =
      if ∃ i ∈ items, key i = k then some (f k) else m.get? k := by
  induction items generalizing m with
  | nil => simp
  | cons i items ih =>
    rw [List.foldl_cons, ih, get?_set]
    by_cases hrest : ∃ i' ∈ items, key i' = k
    · simp [hrest]
    · by_cases hi : key i = k
      · simp [hi]
      · simp [hrest, hi, Ne.symm hi]

/-- What a loop leaves under a key is the value of an item with that key, if there is one. -/
theorem get?_foldl_set_cases (key : ι → β) (val : ι → α) (items : List ι) (m : FinMap β α) (k : β) :
    (∃ i ∈ items, key i = k ∧ (items.foldl (fun m i => m.set (key i) (val i)) m).get? k = some (val i)) ∨
      (∀ i ∈ items, key i ≠ k) ∧ (items.foldl (fun m i => m.set (key i) (val i)) m).get? k = m.get? k := by
  induction items generalizing m with
  | nil => exact .inr ⟨by simp, rfl⟩
  | cons i items ih =>
    rw [List.foldl_cons]
    rcases ih (m.set (key i) (val i)) with ⟨j, hj, hkey, hget⟩ | ⟨hnone, hget⟩
    · exact .inl ⟨j, List.mem_cons_of_mem i hj, hkey, hget⟩
    · rw [get?_set] at hget
      by_cases hi : k = key i
      · exact .inl ⟨i, List.mem_cons_self, hi.symm, by rw [hget, if_pos hi]⟩
      · exact .inr ⟨List.forall_mem_cons.2 ⟨Ne.symm hi, hnone⟩, by rw [hget, if_neg hi]⟩

/-- What a loop leaves under a key that it sets does not depend on what was there. -/
theorem get?_foldl_set_congr (key : ι → β) (val : ι → α) {items : List ι}
    (h : m.get? k = m'.get? k ∨ ∃ i ∈ items, key i = k) :
    (items.foldl (fun m i => m.set (key i) (val i)) m).get? k =
      (items.foldl (fun m i => m.set (key i) (val i)) m').get? k := by
  induction items generalizing m m' with
  | nil => simpa using h
  | cons i items ih =>
    rw [List.foldl_cons, List.foldl_cons]
    refine ih ?_
    rw [get?_set, get?_set]
    by_cases hk : k = key i
    · exact .inl (by rw [if_pos hk, if_pos hk])
    · rw [if_neg hk, if_neg hk]
      refine h.imp_right fun ⟨j, hj, hkey⟩ => ?_
      rcases List.mem_cons.1 hj with rfl | hj
      · exact absurd hkey.symm hk
      · exact ⟨j, hj, hkey⟩

theorem get?_eq_some_iff {v : α} : m.get? k = some v ↔ (k, v) ∈ m.rows := by
  have hrows : ∀ rows : List (β × α), Table.Sorted Prod.fst rows →
      ((rows.find? fun r => r.1 = k).map Prod.snd = some v ↔ (k, v) ∈ rows) := by
    intro rows
    induction rows with
    | nil => simp
    | cons r rows ih =>
      intro hsorted
      obtain ⟨hlt, hrest⟩ := List.pairwise_cons.1 hsorted
      by_cases hr : r.1 = k
      · -- no other row has the key
        have hnot : (k, v) ∉ rows := fun hmem => absurd (hlt _ hmem) (by simp [hr])
        obtain ⟨k', v'⟩ := r
        subst hr
        simp [hnot, eq_comm]
      · have hne : (k, v) ≠ r := fun h => hr (by rw [← h])
        rw [List.find?_cons_of_neg (by simpa using hr), ih hrest, List.mem_cons, or_iff_right hne]
  exact hrows m.rows m.sorted

theorem ext (h : m.rows = m'.rows) : m = m' := by
  cases m
  cases m'
  congr

theorem ext_get? (h : ∀ k, m.get? k = m'.get? k) : m = m' := by
  refine ext (Table.Sorted.ext m.sorted m'.sorted fun r => ?_)
  rw [← Prod.mk.eta (p := r), ← get?_eq_some_iff, ← get?_eq_some_iff, h]

/-- A map is rebuilt from its bindings. -/
theorem foldl_set (m : FinMap β α) : m.rows.foldl (fun m r => m.set r.1 r.2) empty = m := by
  -- what has been read so far is a table in front of the rest
  have hrows : ∀ (rows : List (β × α)) (acc : FinMap β α), Table.Sorted Prod.fst (acc.rows ++ rows) →
      (rows.foldl (fun m r => m.set r.1 r.2) acc).rows = acc.rows ++ rows := by
    intro rows
    induction rows with
    | nil => exact fun acc _ => (List.append_nil _).symm
    | cons r rows ih =>
      intro acc hsorted
      have hlast : (acc.set r.1 r.2).rows = acc.rows ++ [r] :=
        Table.upsert_last fun x hx => (List.pairwise_append.1 hsorted).2.2 x hx r List.mem_cons_self
      rw [List.foldl_cons, ih _ (by rw [hlast, List.append_assoc]; exact hsorted), hlast, List.append_assoc]
      rfl
  exact ext (hrows m.rows empty m.sorted)

theorem map_set (f : α → γ) (m : FinMap β α) (k : β) (v : α) : (m.set k v).map f = (m.map f).set k (f v) :=
  ext (Table.upsert_map (fun r : β × α => (r.1, f r.2)) fun _ => rfl)

theorem get?_map (f : α → γ) (m : FinMap β α) (k : β) : (m.map f).get? k = (m.get? k).map f := by
  rw [get?, get?, map, List.find?_map, Option.map_map, Option.map_map]
  rfl

theorem map_map {η : Type*} (f : α → γ) (g : γ → η) (m : FinMap β α) : (m.map f).map g = m.map fun v => g (f v) :=
  ext (List.map_map ..)

/-- A binding, and the others. -/
theorem rows_perm_erase {v : α} (h : m.get? k = some v) : m.rows.Perm ((k, v) :: (m.erase k).rows) := by
  have hmem := get?_eq_some_iff.1 h
  have hnodup : m.rows.Nodup := m.sorted.imp fun hlt heq => by rw [heq] at hlt; exact lt_irrefl _ hlt
  refine (List.perm_ext_iff_of_nodup hnodup (List.nodup_cons.2 ⟨?_, hnodup.filter _⟩)).2 fun r => ?_
  · simp
  · rw [List.mem_cons]
    have hkey : r ∈ m.rows → r.1 = k → r = (k, v) := by
      rintro hr rfl
      have hget := get?_eq_some_iff.2 (show (r.1, r.2) ∈ m.rows from hr)
      rw [h] at hget
      rw [Option.some.inj hget]
    by_cases hr : r.1 = k
    · constructor
      · exact fun hmem => .inl (hkey hmem hr)
      · rintro (rfl | hmem')
        · exact hmem
        · simp [hr] at hmem'
    · have hne : r ≠ (k, v) := fun heq => hr (by rw [heq])
      simp [hr, hne]

theorem erase_set (m : FinMap β α) (k : β) (v : α) : (m.set k v).erase k = m.erase k := by
  refine ext_get? fun k' => ?_
  rw [get?_erase, get?_erase, get?_set]
  split
  · rfl
  · rfl

theorem rows_set_perm (m : FinMap β α) (k : β) (v : α) : (m.set k v).rows.Perm ((k, v) :: (m.erase k).rows) := by
  have hperm := rows_perm_erase (m := m.set k v) (k := k) (v := v) (by rw [get?_set, if_pos rfl])
  rwa [erase_set] at hperm

theorem erase_of_none (h : m.get? k = none) : m.erase k = m := by
  refine ext_get? fun k' => ?_
  rw [get?_erase]
  split
  · rename_i hk
    rw [hk, h]
  · rfl

end FinMap
