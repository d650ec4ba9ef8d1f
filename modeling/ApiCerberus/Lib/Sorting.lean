import Mathlib.Data.List.Sort

/-!
# Sorting by a strict comparison

A stable sort is given a comparison `less`. If `less` compares keys of a linear order, the result is ordered by them.
-/

namespace Sorting

variable {α κ : Type*} [LinearOrder κ] {less : α → α → Bool} {key : α → κ}

theorem not_less_iff (h : ∀ a b, less a b = true ↔ key a < key b) (a b : α) : less b a = false ↔ key a ≤ key b := by
  rw [← not_lt, ← h, Bool.not_eq_true]

theorem pairwise_insertionSort (h : ∀ a b, less a b = true ↔ key a < key b) (l : List α) :
    (l.insertionSort fun a b => less b a = false).Pairwise fun a b => less b a = false := by
  have : Std.Total fun a b => less b a = false :=
    ⟨fun a b => by simpa only [not_less_iff h] using le_total (key a) (key b)⟩
  have : IsTrans α fun a b => less b a = false :=
    ⟨fun a b c hab hbc => (not_less_iff h a c).2 (((not_less_iff h a b).1 hab).trans ((not_less_iff h b c).1 hbc))⟩
  exact List.pairwise_insertionSort _ l

/-! ## The order of the insertions -/

theorem orderedInsert_comm {a b : α} (hne : key a ≠ key b) (l : List α) :
    (l.orderedInsert (key · ≤ key ·) b).orderedInsert (key · ≤ key ·) a =
      (l.orderedInsert (key · ≤ key ·) a).orderedInsert (key · ≤ key ·) b := by
  wlog hlt : key a < key b generalizing a b
  · exact (this hne.symm (lt_of_le_of_ne (not_lt.1 hlt) hne.symm)).symm
  induction l with
  | nil => simp [hlt.le, hlt.not_ge]
  | cons c l ih =>
    by_cases hb : key b ≤ key c
    · simp [hb, hlt.le.trans hb, hlt.le, hlt.not_ge]
    · by_cases ha : key a ≤ key c
      · simp [ha, hb, hlt.not_ge]
      · simp [ha, hb, ih]

theorem foldr_foldr_comm {β : Type*} {g : α → β → β} {l l' : List α}
    (h : ∀ a ∈ l, ∀ b ∈ l', ∀ s, g a (g b s) = g b (g a s)) (s : β) :
    l.foldr g (l'.foldr g s) = l'.foldr g (l.foldr g s) := by
  have hone : ∀ a ∈ l, ∀ s, g a (l'.foldr g s) = l'.foldr g (g a s) := by
    intro a ha s
    have hcomm := h a ha
    clear h
    induction l' with
    | nil => rfl
    | cons b l' ih =>
      obtain ⟨hb, hrest⟩ := List.forall_mem_cons.1 hcomm
      rw [List.foldr_cons, List.foldr_cons, hb, ih hrest]
  clear h
  induction l with
  | nil => rfl
  | cons a l ih =>
    obtain ⟨ha, hrest⟩ := List.forall_mem_cons.1 hone
    rw [List.foldr_cons, List.foldr_cons, ih hrest, ha]

/-- Blocks without a common key may come in any order. -/
theorem insertionSort_flatMap_perm {ι : Type*} (h : ∀ a b, less a b = true ↔ key a < key b) (f : ι → List α)
    {items items' : List ι}
    (hperm : items.Perm items') (hapart : items.Pairwise fun i j => ∀ a ∈ f i, ∀ b ∈ f j, key a ≠ key b) :
    (items.flatMap f).insertionSort (fun a b => less b a = false) = (items'.flatMap f).insertionSort fun a b =>
      less b a = false := by
  simp only [not_less_iff h]
  unfold List.insertionSort
  induction hperm with
  | nil => rfl
  | cons i _ ih =>
    rw [List.flatMap_cons, List.flatMap_cons, List.foldr_append, List.foldr_append, ih (List.pairwise_cons.1 hapart).2]
  | swap i j items =>
    have hij := (List.pairwise_cons.1 hapart).1 i List.mem_cons_self
    simp only [List.flatMap_cons, List.foldr_append]
    exact foldr_foldr_comm (fun a ha b hb => orderedInsert_comm (hij a ha b hb)) _
  | trans h₁ _ ih₁ ih₂ =>
    rw [ih₁ hapart, ih₂ ((h₁.pairwise_iff fun hij a ha b hb => (hij b hb a ha).symm).1 hapart)]

end Sorting
