import Mathlib.Data.List.Nodup
import Mathlib.Data.List.Perm.Basic

/-!
# Linked lists with elements that know their list

A list from front to back. Every element has a field that says to which list it belongs, and the operations look at that
field and not at the links: `remove` and `moveToFront` do nothing for an element that belongs to no list. `init` empties
the list and leaves the elements as they are.
-/

structure LinkedList (ε : Type*) where
  /-- From the front to the back. -/
  linked : List ε
  /-- The elements that belong to the list, as they say. -/
  owned : List ε
  len : Int

namespace LinkedList

variable {ε : Type*} [DecidableEq ε]

def new : LinkedList ε := ⟨[], [], 0⟩

def back (l : LinkedList ε) : Option ε := l.linked.getLast?

def pushFront (l : LinkedList ε) (e : ε) : LinkedList ε := ⟨e :: l.linked, e :: l.owned, l.len + 1⟩

/-- Only an element of this list is removed. -/
def remove (l : LinkedList ε) (e : ε) : LinkedList ε :=
  if e ∈ l.owned then ⟨l.linked.erase e, l.owned.filter (· ≠ e), l.len - 1⟩ else l

def moveToFront (l : LinkedList ε) (e : ε) : LinkedList ε :=
  if e ∉ l.owned ∨ l.linked.head? = some e then l else { l with linked := e :: l.linked.erase e }

def init (l : LinkedList ε) : LinkedList ε := { l with linked := [], len := 0 }

/-- The elements say what the links say. -/
structure Valid (l : LinkedList ε) : Prop where
  nodup : l.linked.Nodup
  mem_owned : ∀ e, e ∈ l.owned ↔ e ∈ l.linked
  len_eq : l.len = l.linked.length

variable {l : LinkedList ε} {e : ε}

omit [DecidableEq ε] in
theorem Valid.new : (new : LinkedList ε).Valid := ⟨List.nodup_nil, fun _ => Iff.rfl, rfl⟩

omit [DecidableEq ε] in
theorem Valid.pushFront (h : l.Valid) (he : e ∉ l.linked) : (l.pushFront e).Valid where
  nodup := List.nodup_cons.2 ⟨he, h.nodup⟩
  mem_owned e' := by rw [LinkedList.pushFront, List.mem_cons, List.mem_cons, h.mem_owned]
  len_eq := by
    rw [LinkedList.pushFront, List.length_cons, h.len_eq]
    rfl

theorem Valid.linked_remove (h : l.Valid) (e : ε) : (l.remove e).linked = l.linked.erase e := by
  unfold LinkedList.remove
  split
  · rfl
  · rename_i he
    rw [h.mem_owned] at he
    exact (List.erase_of_not_mem he).symm

theorem Valid.remove (h : l.Valid) (e : ε) : (l.remove e).Valid := by
  unfold LinkedList.remove
  split
  · rename_i he
    have hmem := (h.mem_owned e).1 he
    refine ⟨h.nodup.erase e, fun e' => ?_, ?_⟩
    · rw [List.mem_filter, h.nodup.mem_erase_iff, h.mem_owned, and_comm, decide_eq_true_iff]
    · have hlen := List.length_erase_of_mem hmem
      have hpos := List.length_pos_of_mem hmem
      have := h.len_eq
      dsimp only
      omega
  · exact h

/-- An element that is in the list comes to its front, and another one changes nothing. -/
theorem Valid.linked_moveToFront (h : l.Valid) (e : ε) :
    (l.moveToFront e).linked = if e ∈ l.linked then e :: l.linked.erase e else l.linked := by
  unfold LinkedList.moveToFront
  by_cases he : e ∈ l.linked
  · have howned := (h.mem_owned e).2 he
    rw [if_pos he]
    split
    · rename_i hor
      obtain ⟨rest, hrest⟩ := List.head?_eq_some_iff.1 (hor.resolve_left (not_not.2 howned))
      rw [hrest, List.erase_cons_head]
    · rfl
  · rw [if_neg he, if_pos (.inl fun howned => he ((h.mem_owned e).1 howned))]

theorem Valid.perm_moveToFront (h : l.Valid) (e : ε) : (l.moveToFront e).linked.Perm l.linked := by
  rw [h.linked_moveToFront]
  split
  · rename_i he
    exact (List.perm_cons_erase he).symm
  · exact List.Perm.refl _

theorem Valid.moveToFront (h : l.Valid) (e : ε) : (l.moveToFront e).Valid := by
  have hperm := h.perm_moveToFront e
  have hrest : (l.moveToFront e).owned = l.owned ∧ (l.moveToFront e).len = l.len := by
    unfold LinkedList.moveToFront
    split <;> exact ⟨rfl, rfl⟩
  refine ⟨hperm.nodup_iff.2 h.nodup, fun e' => ?_, ?_⟩
  · rw [hrest.1, h.mem_owned, hperm.mem_iff]
  · rw [hrest.2, h.len_eq, hperm.length_eq]

omit [DecidableEq ε] in
/-- An empty list stays valid. -/
theorem Valid.init (h : l.Valid) (hnil : l.linked = []) : l.init.Valid := by
  refine ⟨List.nodup_nil, fun e => ?_, rfl⟩
  show e ∈ l.owned ↔ e ∈ []
  rw [h.mem_owned, hnil]

end LinkedList
