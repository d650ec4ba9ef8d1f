import ApiCerberus.Consensus.Replication
import ApiCerberus.Raft.Log

/-!
# The log of a node as a window of its full log

After a compaction at `b` a node keeps a boundary entry and what is behind it: `window x b`, where `x`
is the full log from the first entry on. The functions of the node are turned into functions of `x`.
-/

namespace Raft

open Consensus

variable {ι κ : Type} {x y : List (LogEntry κ)} {b k : Nat}

instance : Termed (LogEntry κ) := ⟨LogEntry.term⟩

/-- The term of the entry with index `k`; index 0 is the dummy entry. -/
def termAt (x : List (LogEntry κ)) : Nat → Nat
  | 0 => 0
  | k + 1 => (x[k]?.map (·.term)).getD 0

def window (x : List (LogEntry κ)) (b : Nat) : List (LogEntry κ) := boundary b (termAt x b) :: x.drop b

theorem termAt_of_getElem? {e : LogEntry κ} (h : x[k]? = some e) : termAt x (k + 1) = e.term := by simp [termAt, h]

theorem termAt_of_agree {n : Nat} (h : Agree n x y) (hk : k ≤ n) : termAt x k = termAt y k := by
  cases k with
  | zero => rfl
  | succ k => simp [termAt, h k (by omega)]

theorem take_of_agree {n : Nat} (h : Agree n x y) (hk : k ≤ n) : x.take k = y.take k := by
  apply List.ext_getElem?
  intro m
  rw [List.getElem?_take, List.getElem?_take]
  split
  · exact h m (by omega)
  · rfl

theorem lastMark_eq (x : List (LogEntry κ)) : lastMark x = (termAt x x.length, x.length) := by
  unfold lastMark
  rw [List.getLast?_eq_getElem?]
  cases h : x.length with
  | zero => simp [List.length_eq_zero_iff.1 h, termAt]
  | succ n => simp only [Nat.add_sub_cancel, termAt]; rfl

@[simp] theorem baseIndex_window (x : List (LogEntry κ)) (b : Nat) : baseIndex (window x b) = b := by
  simp [baseIndex, window, boundary]

theorem length_window (x : List (LogEntry κ)) (b : Nat) : (window x b).length = x.length - b + 1 := by
  simp [window]

theorem getElem?_window_succ (x : List (LogEntry κ)) (b j : Nat) : (window x b)[j + 1]? = x[b + j]? := by
  simp [window, List.getElem?_drop]

theorem indexed_window (hx : Indexed 1 x) (b : Nat) : Indexed b (window x b) := by
  refine Indexed.cons rfl ?_
  have := hx.drop b
  rwa [Nat.add_comm] at this

theorem lastLogIndex_window (hx : Indexed 1 x) (hb : b ≤ x.length) : lastLogIndex (window x b) = x.length := by
  have := (indexed_window hx b).lastLogIndex_eq (by simp [window])
  rw [length_window] at this
  omega

theorem lastLogTerm_window (hb : b ≤ x.length) : lastLogTerm (window x b) = termAt x x.length := by
  unfold lastLogTerm
  rw [List.getLast?_eq_getElem?, length_window, Nat.add_sub_cancel]
  cases h : x.length - b with
  | zero =>
    obtain rfl : b = x.length := by omega
    simp [window, boundary]
  | succ d =>
    rw [getElem?_window_succ, show x.length = (b + d) + 1 by omega, termAt]

/-- An entry of the window behind its base. -/
theorem entryAt_window_succ (hk : b ≤ k) : entryAt (window x b) (k + 1) = x[k]? := by
  unfold entryAt entryFrom
  rw [baseIndex_window, if_pos (by omega), show k + 1 - b = (k - b) + 1 by omega, getElem?_window_succ]
  congr 1
  omega

theorem entryAt_window {e : LogEntry κ} (h : entryAt (window x b) k = some e) (hb : b ≤ x.length) :
    b ≤ k ∧ k ≤ x.length ∧ e.term = termAt x k := by
  have hbk : b ≤ k := (entryAt_bounds h).1
  rcases Nat.eq_or_lt_of_le hbk with rfl | hlt
  · simp only [entryAt, entryFrom, baseIndex_window, le_refl, if_true, Nat.sub_self] at h
    cases h
    exact ⟨le_refl _, hb, rfl⟩
  · obtain ⟨j, rfl⟩ : ∃ j, k = j + 1 := ⟨k - 1, by omega⟩
    rw [entryAt_window_succ (by omega)] at h
    exact ⟨hbk, (List.getElem?_eq_some_iff.1 h).1, (termAt_of_getElem? h).symm⟩

theorem entryAt_window_none (h : entryAt (window x b) k = none) : k < b ∨ x.length < k := by
  by_contra hc
  simp only [not_or, Nat.not_lt] at hc
  rw [entryAt, entryFrom, baseIndex_window, if_pos hc.1, List.getElem?_eq_none_iff, length_window] at h
  omega

theorem entryAt_window_isSome (hb : b ≤ k) (hk : k ≤ x.length) : ∃ e, entryAt (window x b) k = some e := by
  cases h : entryAt (window x b) k with
  | some e => exact ⟨e, rfl⟩
  | none =>
    rcases entryAt_window_none h with h | h
    · omega
    · omega

/-! ## Voting -/

theorem upToDate_window (hx : Indexed 1 x) (hb : b ≤ x.length) {req : RequestVoteRequest ι} :
    upToDate (window x b) req = true ↔ LexLe (lastMark x) (req.lastLogTerm, req.lastLogIndex) := by
  rw [lastMark_eq]
  simp only [upToDate, decide_eq_true_eq, LexLe, lastLogTerm_window hb, lastLogIndex_window hx hb]
  rw [eq_comm (a := req.lastLogTerm)]

/-! ## Growth and compaction -/

theorem window_append (es : List (LogEntry κ)) (hb : b ≤ x.length) : window (x ++ es) b = window x b ++ es := by
  unfold window
  rw [List.drop_append_of_le_length hb, termAt_of_agree (agree_append es hb) (le_refl b)]
  rfl

theorem window_take {j : Nat} (hj : b ≤ j) : (window x b).take (j - b + 1) = window (x.take j) b := by
  unfold window
  rw [List.take_succ_cons, List.drop_take, termAt_of_agree (agree_take hj) (le_refl b)]

theorem drop_window {j : Nat} (hj : b ≤ j) : (window x b).drop (j - b + 1) = x.drop j := by
  unfold window
  rw [List.drop_succ_cons, List.drop_drop, show b + (j - b) = j by omega]

theorem snapshotTerm_window (hb : b ≤ x.length) (hk : b ≤ k) (hkx : k ≤ x.length) :
    snapshotTerm (window x b) k = termAt x k := by
  obtain ⟨e, he⟩ := entryAt_window_isSome hk hkx
  simp only [snapshotTerm, he]
  exact (entryAt_window he hb).2.2

theorem trimLog_window (hk : b ≤ k) (hkx : k ≤ x.length) :
    trimLog (window x b) k (termAt x k) = window x k := by
  obtain ⟨e, he⟩ := entryAt_window_isSome hk hkx
  simp only [trimLog, he, baseIndex_window, drop_window hk]
  rfl

/-- `HandleInstallSnapshot` on the log: start anew, cut, or leave it. -/
theorem installLog_window (hb : b ≤ x.length) {index term : Nat} :
    installLog (window x b) index term =
      if x.length < index then [boundary index term]
      else if b ≤ index then boundary index term :: x.drop index else window x b := by
  unfold installLog
  simp only [baseIndex_window, length_window]
  by_cases h : x.length < index
  · rw [if_pos h, if_pos (by omega)]
  · rw [if_neg h, if_neg (by omega)]
    by_cases h' : b ≤ index
    · rw [if_pos h', if_pos h', drop_window h']
    · rw [if_neg h', if_neg h']

/-! ## Sending -/

theorem prevLogTerm_window (hb : b ≤ x.length) (hk : b ≤ k) (hkx : k ≤ x.length) :
    prevLogTerm (window x b) k = termAt x k := by
  obtain ⟨e, he⟩ := entryAt_window_isSome hk hkx
  simp only [prevLogTerm, he]
  exact (entryAt_window he hb).2.2

theorem prevLogTerm_window_none (hb : b ≤ x.length) (h : k < b ∨ x.length < k) : prevLogTerm (window x b) k = 0 := by
  cases he : entryAt (window x b) k with
  | none => simp [prevLogTerm, he]
  | some e =>
    have := entryAt_window he hb
    omega

/-- A request carries a part of the full log. -/
theorem entriesFrom_window (hk : b ≤ k) (limit : Nat) : entriesFrom (window x b) limit (k + 1) <+: x.drop k := by
  unfold entriesFrom
  dsimp only
  split
  · split
    · rw [baseIndex_window, List.drop_take, show k + 1 - b = (k - b) + 1 by omega, drop_window hk]
      exact List.take_prefix _ _
    · exact List.nil_prefix
  · exact List.nil_prefix

/-! ## Receiving -/

theorem prevConflict_window (hb : b ≤ x.length) {prev prevTerm : Nat}
    (h : prevConflict (window x b) prev prevTerm = none) :
    prev = 0 ∨ (b ≤ prev ∧ prev ≤ x.length ∧ termAt x prev = prevTerm) := by
  rcases prevConflict_none h with h0 | ⟨e, he, ht⟩
  · exact Or.inl h0
  · obtain ⟨h1, h2, h3⟩ := entryAt_window he hb
    exact Or.inr ⟨h1, h2, h3.symm.trans ht⟩

variable {es : List (LogEntry κ)}

theorem getElem?_of_slice {p d : Nat} {f : LogEntry κ} (hes : es <+: y.drop p)
    (hf : es[d]? = some f) : y[p + d]? = some f := by
  obtain ⟨t, ht⟩ := hes
  rw [← List.getElem?_drop, ← ht, List.getElem?_append_left (List.getElem?_eq_some_iff.1 hf).1]
  exact hf

theorem splice_of_slice {p : Nat} (hes : es <+: y.drop p) (c : Nat) :
    x.take (p + c) ++ es.drop c = splice x y (p + c) (p + es.length) := by
  have hy : es = (y.take (p + es.length)).drop p := by
    rw [List.drop_take, Nat.add_sub_cancel_left]
    exact List.prefix_iff_eq_take.1 hes
  unfold splice
  rw [← List.drop_drop, ← hy]

/-- What the append loop does to the full log. -/
theorem appendLoop_window {p : Nat} (hbp : b ≤ p) (hp : p ≤ x.length) (hes : es <+: y.drop p) :
    (Matches x es p es.length ∧ appendLoop b (p + 1) es (window x b, []) = (window x b, [])) ∨
    ∃ c, c < es.length ∧ p + c ≤ x.length ∧ Matches x es p c ∧
      (∀ e f, x[p + c]? = some e → es[c]? = some f → e.term ≠ f.term) ∧
      appendLoop b (p + 1) es (window x b, []) = (window (splice x y (p + c) (p + es.length)) b, es.drop c) := by
  have hpos : ∀ j, (window x b)[(p - b + 1) + j]? = x[p + j]? := by
    intro j
    rw [show (p - b + 1) + j = (p - b + j) + 1 by omega, getElem?_window_succ]
    congr 1
    omega
  have hm : ∀ c, Matches (window x b) es (p - b + 1) c → Matches x es p c := by
    intro c h j hj
    obtain ⟨e, f, h1, h2⟩ := h j hj
    exact ⟨e, f, by rw [← hpos]; exact h1, h2⟩
  have hlen : p - b + 1 ≤ (window x b).length := by rw [length_window]; omega
  have hloop := appendLoop_cases b es [] hlen
  rw [show b + (p - b + 1) = p + 1 by omega] at hloop
  rcases hloop with ⟨h1, h2⟩ | ⟨c, h1, h2, h3, h4, h5⟩
  · exact Or.inl ⟨hm _ h1, h2⟩
  · rw [length_window] at h2
    refine Or.inr ⟨c, h1, by omega, hm c h3, ?_, ?_⟩
    · rw [← hpos]; exact h4
    · rw [h5, show p - b + 1 + c = (p + c) - b + 1 by omega, window_take (by omega), List.nil_append,
        ← splice_of_slice hes c, window_append _ (by rw [List.length_take]; omega)]

end Raft
