import ApiCerberus.Consensus.Election
import Mathlib.Data.List.Basic

/-!
# Replicated logs: the state and the invariant

The abstract protocol behind a replicated log. Logs are the *full* logs from the first entry on: a member that has
discarded a prefix after a snapshot still has its whole log here, and `base` says how much of it can no longer be
rewritten.

`llog T` is the log of the leader of term `T`, as far as it grew while that leader led. An entry is named by its
position and its term, and the log up to it is the log `llog T` up to it (`Canon`).

`Choosable T p` says that position `p` of term `T` may still be (or has been) acknowledged by a quorum. It can only be
lost, never gained, and every invariant about durable entries is stated for choosable ones.
-/

namespace Consensus

/-- Entries of a log have the term of their leader. -/
class Termed (α : Type*) where
  term : α → Nat

export Termed (term)

/-! ## Agreement of logs on their first positions -/

section Lists
variable {α : Type*}

/-- Two logs are the same below position `n`. -/
def Agree (n : Nat) (x y : List α) : Prop := ∀ m < n, x[m]? = y[m]?

theorem Agree.refl (n : Nat) (x : List α) : Agree n x x := fun _ _ => rfl

variable {x y : List α} {n : Nat}

theorem Agree.symm (h : Agree n x y) : Agree n y x := fun m hm => (h m hm).symm

theorem Agree.trans {z : List α} (h : Agree n x y) (h' : Agree n y z) : Agree n x z :=
  fun m hm => (h m hm).trans (h' m hm)

theorem Agree.sub {n' : Nat} (h : Agree n x y) (hn : n' ≤ n) : Agree n' x y :=
  fun m hm => h m (by omega)

theorem agree_append (y : List α) (hn : n ≤ x.length) : Agree n (x ++ y) x :=
  fun m hm => List.getElem?_append_left (by omega)

variable {q c : Nat}

theorem agree_take (hn : n ≤ q) : Agree n (x.take q) x :=
  fun m hm => by rw [List.getElem?_take, if_pos (by omega)]

theorem Agree.le_length (h : Agree n x y) (hn : n ≤ y.length) : n ≤ x.length := by
  by_contra hlt
  have := h x.length (by omega)
  rw [List.getElem?_eq_none (le_refl _), List.getElem?_eq_getElem (by omega)] at this
  cases this

theorem getElem?_concat_cases {e f : α} {m : Nat} (h : (x ++ [e])[m]? = some f) :
    (m < x.length ∧ x[m]? = some f) ∨ (m = x.length ∧ f = e) := by
  rcases Nat.lt_trichotomy m x.length with hm | rfl | hm
  · left; rw [List.getElem?_append_left hm] at h; exact ⟨hm, h⟩
  · right; simp at h; exact ⟨rfl, h.symm⟩
  · rw [List.getElem?_append_right (by omega), List.getElem?_eq_none (by simp; omega)] at h; cases h

/-- Keep `c` positions of `x`, then take `y` from there up to `q`. -/
def splice (x y : List α) (c q : Nat) : List α := x.take c ++ (y.take q).drop c

theorem getElem?_splice (hx : c ≤ x.length) (m : Nat) :
    (splice x y c q)[m]? = if m < c then x[m]? else if m < q then y[m]? else none := by
  unfold splice
  rw [List.getElem?_append]
  simp only [List.length_take, Nat.min_eq_left hx]
  split
  · rename_i h; rw [List.getElem?_take]; simp [h]
  · rename_i h
    rw [List.getElem?_drop, List.getElem?_take, show c + (m - c) = m by omega]

theorem agree_splice (hx : c ≤ x.length) (hn : n ≤ c) : Agree n (splice x y c q) x :=
  fun m hm => by rw [getElem?_splice hx, if_pos (by omega)]

theorem splice_eq_take (hcx : c ≤ x.length) (hcq : c ≤ q) (hxy : Agree c x y) :
    splice x y c q = y.take q := by
  apply List.ext_getElem?
  intro m
  rw [getElem?_splice hcx, List.getElem?_take]
  split
  · rename_i hm; rw [if_pos (by omega)]; exact hxy m hm
  · rfl

end Lists

section Marks
variable {α : Type*} [Termed α]

/-- The last of the first `q` entries has the same term in both logs. -/
def Meet (q : Nat) (x y : List α) : Prop :=
  ∀ d, q = d + 1 → ∃ e f, x[d]? = some e ∧ y[d]? = some f ∧ term e = term f

/-- Term of the last entry and length: what a candidate announces. -/
def lastMark (x : List α) : Nat × Nat := ((x.getLast?.map term).getD 0, x.length)

/-- The order in which logs are compared when voting. -/
def LexLe (a b : Nat × Nat) : Prop := a.1 < b.1 ∨ (a.1 = b.1 ∧ a.2 ≤ b.2)

theorem LexLe.trans {a b c : Nat × Nat} (h : LexLe a b) (h' : LexLe b c) : LexLe a c := by
  unfold LexLe at *; omega

end Marks

/-- `sent S x`: the leader of term `S` has read its log `x` to send parts of it under term `S` (the
read may come after it stopped leading). `com T p`: the leader of `T` has marked position `p`
committed. `base i`: the prefix member `i` only keeps as a snapshot. -/
structure Replicas (ι α : Type*) where
  ballots : Ballots ι
  log : ι → List α
  base : ι → Nat
  cand : ι → Nat → Nat × Nat
  llog : Nat → List α
  ack : ι → Nat → Nat
  sent : Nat → List α → Prop
  com : Nat → Nat → Prop

namespace Replicas

variable {ι α : Type*} [Termed α] [Fintype ι]

/-! ## Derived notions -/

/-- Position `p` of the log of term `T` holds an entry of term `T`. -/
def Own (a : Replicas ι α) (T p : Nat) : Prop := ∃ e, (a.llog T)[p]? = some e ∧ term e = T

/-- A majority has the position, or may still take it over. -/
def Choosable (a : Replicas ι α) (T p : Nat) : Prop :=
  a.Own T p ∧ ∃ Q : Finset ι, Majority Q ∧ ∀ x ∈ Q, p < a.ack x T ∨ a.ballots.term x ≤ T

/-- A majority has taken the position over. -/
def Chosen (a : Replicas ι α) (T p : Nat) : Prop :=
  a.Own T p ∧ ∃ Q : Finset ι, Majority Q ∧ ∀ x ∈ Q, p < a.ack x T

/-- The first `k` entries of `x` are covered by a commitment of a term up to `S`. -/
def Settled (a : Replicas ι α) (S : Nat) (x : List α) (k : Nat) : Prop :=
  k = 0 ∨ ∃ T p, a.com T p ∧ T ≤ S ∧ k ≤ p + 1 ∧ Agree k x (a.llog T)

/-- Entry `e` at position `m` is covered by a commitment. -/
def Committed (a : Replicas ι α) (m : Nat) (e : α) : Prop := ∃ T p, a.com T p ∧ m ≤ p ∧ (a.llog T)[m]? = some e

/-- Some commitment of a term up to `S` covers `k` entries. -/
def Announced (a : Replicas ι α) (S k : Nat) : Prop := k = 0 ∨ ∃ T p, a.com T p ∧ T ≤ S ∧ k ≤ p + 1

/-- What member `i` may treat as committed in its own term. -/
def Known (a : Replicas ι α) (i : ι) (k : Nat) : Prop := a.Settled (a.ballots.term i) (a.log i) k

/-- What member `i` may treat as committed: a snapshot may come from a term it has not heard of. -/
def Safe (a : Replicas ι α) (i : ι) (k : Nat) : Prop := k ≤ a.base i ∨ a.Known i k

/-- Every entry fixes the log below it. -/
def Canon (a : Replicas ι α) (x : List α) : Prop := ∀ j e, x[j]? = some e → Agree (j + 1) x (a.llog (term e))

/-- `x` holds position `p` of term `T`, and nothing older above it. -/
def Holds (a : Replicas ι α) (T p : Nat) (x : List α) : Prop :=
  Agree (p + 1) x (a.llog T) ∧ ∀ m e, p ≤ m → x[m]? = some e → T ≤ term e

/-- `x` holds position `p` of term `T`, or is too short and agrees as far as it goes. -/
def Compat (a : Replicas ι α) (T p : Nat) (x : List α) : Prop :=
  Agree (min (p + 1) x.length) x (a.llog T) ∧ ∀ m e, p ≤ m → x[m]? = some e → T ≤ term e

/-- Nobody leads in term `T`. -/
def Unwon (a : Replicas ι α) (T : Nat) : Prop := ∀ l, ¬ a.ballots.won l T

/-- Some higher term was won by a quorum none of which voted for `c` in term `S`. -/
def Doomed (a : Replicas ι α) (c : ι) (S : Nat) : Prop :=
  ∃ S' l Q, S < S' ∧ a.ballots.won l S' ∧ a.ballots.Elects Q l S' ∧ ∀ w ∈ Q, ¬ a.ballots.granted w S c

/-- The log of `c` stems from terms below `S`, and so does what it knows of its snapshot. -/
def Early (a : Replicas ι α) (c : ι) (S : Nat) : Prop :=
  (∀ (m : Nat) (e : α), (a.log c)[m]? = some e → term e < S) ∧ a.Settled S (a.log c) (a.base c)

/-! ## The invariant -/

/-- What holds of the logs in every reachable state. -/
structure Inv (a : Replicas ι α) : Prop where
  ballots : a.ballots.Inv
  won_role : ∀ l, a.ballots.won l (a.ballots.term l) → a.ballots.role l = .leader
  leader_log : ∀ i, a.ballots.role i = .leader → a.log i = a.llog (a.ballots.term i)
  llog_won : ∀ T, a.Unwon T → a.llog T = []
  llog_sorted : ∀ (T i j : Nat) (e f : α), i ≤ j → (a.llog T)[i]? = some e → (a.llog T)[j]? = some f → term e ≤ term f
  llog_le : ∀ T (e : α), e ∈ a.llog T → term e ≤ T
  llog_canon : ∀ T, a.Canon (a.llog T)
  log_canon : ∀ i, a.Canon (a.log i)
  base_settled : ∀ i, ∃ S, a.Settled S (a.log i) (a.base i)
  base_leader : ∀ i, a.ballots.role i = .leader → a.Known i (a.base i)
  ack_le : ∀ x T, a.ack x T ≤ (a.llog T).length
  ack_term : ∀ x T, 0 < a.ack x T → T ≤ a.ballots.term x
  ack_winner : ∀ l T, a.ballots.won l T → a.ack l T = (a.llog T).length
  chosen : ∀ T p, a.com T p → a.Chosen T p
  /-- Leader completeness. -/
  complete : ∀ T p S l, a.Choosable T p → T < S → a.ballots.won l S → Agree (p + 1) (a.llog T) (a.llog S)
  hold : ∀ T p x, a.Choosable T p → (p < a.ack x T ∨ ∃ S, T < S ∧ a.ballots.won x S) → a.Holds T p (a.log x)
  vote : ∀ w S c T p, a.ballots.granted w S c → T < S → a.Choosable T p → p < a.ack w T →
    LexLe (T, p + 1) (a.cand c S)
  cand : ∀ c, a.ballots.role c = .candidate → a.Unwon (a.ballots.term c) →
    a.cand c (a.ballots.term c) = lastMark (a.log c)
  early : ∀ c, a.ballots.role c = .candidate → a.Unwon (a.ballots.term c) →
    a.Doomed c (a.ballots.term c) ∨ a.Early c (a.ballots.term c)
  sent_won : ∀ S x, a.sent S x → ∃ l, a.ballots.won l S
  sent_canon : ∀ S x, a.sent S x → a.Canon x
  sent_compat : ∀ S x T p, a.sent S x → T ≤ S → a.Choosable T p → a.Compat T p x
  sent_leader : ∀ S x l, a.sent S x → a.ballots.won l S → a.ballots.term l = S → Agree x.length x (a.llog S)

end Replicas

end Consensus
