import ApiCerberus.Raft.Node
import Mathlib.Data.List.Basic

/-!
# Logs

What the functions of a node do to its log, on lists: indices that run on without a gap
(`Contiguous`), and the append loop of `HandleAppendEntries` (`node.go:915-934`) as the one
replacement it amounts to (`appendLoop_cases`).
-/

namespace Raft

variable {κ : Type}

/-! ## Logs whose entries carry consecutive indices -/

section Lists

/-- The entries of `log` carry the indices `b`, `b + 1`, … -/
def Indexed (b : Nat) (log : List (LogEntry κ)) : Prop :=
  ∀ (k : Nat) (e : LogEntry κ), log[k]? = some e → e.index = b + k

variable {b k : Nat} {log es : List (LogEntry κ)}

theorem indexed_nil : Indexed b ([] : List (LogEntry κ)) := fun k e he => by simp at he

theorem Indexed.cons {e : LogEntry κ} (he : e.index = b) (h : Indexed (b + 1) log) : Indexed b (e :: log) := by
  intro k f hf
  cases k with
  | zero => simp at hf; subst hf; exact he
  | succ k => have := h k f (by simpa using hf); omega

theorem Indexed.append (h : Indexed b log) (h' : Indexed (b + log.length) es) : Indexed b (log ++ es) := by
  intro k e he
  rcases Nat.lt_or_ge k log.length with hk | hk
  · rw [List.getElem?_append_left hk] at he; exact h k e he
  · rw [List.getElem?_append_right hk] at he
    have := h' _ e he
    omega

theorem Indexed.take (h : Indexed b log) (k : Nat) : Indexed b (log.take k) := by
  intro j e he
  rw [List.getElem?_take] at he
  split at he
  · exact h j e he
  · cases he

theorem Indexed.drop (h : Indexed b log) (k : Nat) : Indexed (b + k) (log.drop k) := by
  intro j e he
  rw [List.getElem?_drop] at he
  have := h _ e he
  omega

theorem indexed_one {e : LogEntry κ} (he : e.index = b) : Indexed b [e] := indexed_nil.cons he

theorem Indexed.baseIndex_eq (h : Indexed b log) (hne : log ≠ []) : baseIndex log = b := by
  cases log with
  | nil => exact absurd rfl hne
  | cons e log => exact h 0 e rfl

theorem Indexed.lastLogIndex_eq (h : Indexed b log) (hne : log ≠ []) : lastLogIndex log + 1 = b + log.length := by
  have hlen := List.length_pos_iff.2 hne
  have hlast : log.getLast? = some (log[log.length - 1]) := by
    rw [List.getLast?_eq_getElem?, List.getElem?_eq_getElem]
  have := h (log.length - 1) _ (List.getElem?_eq_getElem (by omega))
  simp only [lastLogIndex, hlast, Option.map_some, Option.getD_some]
  omega

end Lists

/-- `Log[i].Index = Log[0].Index + i` for all `i`. -/
def Contiguous (log : List (LogEntry κ)) : Prop := log ≠ [] ∧ Indexed (baseIndex log) log

theorem Indexed.contiguous {b : Nat} {log : List (LogEntry κ)} (h : Indexed b log) (hne : log ≠ []) :
    Contiguous log := ⟨hne, by rw [h.baseIndex_eq hne]; exact h⟩

theorem indexed_iff_range {b : Nat} {log : List (LogEntry κ)} :
    Indexed b log ↔ log.map (·.index) = List.range' b log.length := by
  constructor
  · intro h
    refine List.ext_getElem (by simp) fun k hk _ => ?_
    simp only [List.length_map] at hk
    simpa using h k log[k] (List.getElem?_eq_getElem hk)
  · intro h k e he
    obtain ⟨hlt, rfl⟩ := List.getElem?_eq_some_iff.1 he
    have hk := congrArg (·[k]?) h
    simpa [List.getElem?_range', hlt] using hk

instance (log : List (LogEntry κ)) : Decidable (Contiguous log) :=
  decidable_of_iff (log ≠ [] ∧ log.map (·.index) = List.range' (baseIndex log) log.length)
    (and_congr_right fun _ => indexed_iff_range.symm)

theorem contiguous_boundary (index term : Nat) : Contiguous [(boundary index term : LogEntry κ)] :=
  (indexed_one (e := boundary index term) rfl).contiguous (by simp)

/-! ## The functions that rewrite a log -/

section Logs
variable {log es : List (LogEntry κ)}

variable {e : LogEntry κ} {idx : Nat}

theorem entryAt_bounds (h : entryAt log idx = some e) :
    baseIndex log ≤ idx ∧ idx < baseIndex log + log.length := by
  unfold entryAt entryFrom at h
  split at h
  · have := (List.getElem?_eq_some_iff.1 h).1
    omega
  · cases h

/-- A boundary in the place of everything up to it. -/
theorem Contiguous.cut (h : Contiguous log) {index : Nat} (term : Nat) (hb : baseIndex log ≤ index) :
    Contiguous (boundary index term :: log.drop (index - baseIndex log + 1)) := by
  refine Indexed.contiguous (b := index) (Indexed.cons rfl ?_) (by simp)
  have := h.2.drop (index - baseIndex log + 1)
  rwa [show baseIndex log + (index - baseIndex log + 1) = index + 1 by omega] at this

theorem Contiguous.trimLog (h : Contiguous log) (index term : Nat) : Contiguous (trimLog log index term) := by
  unfold Raft.trimLog
  split
  · rename_i e he
    exact h.cut term (entryAt_bounds he).1
  · exact contiguous_boundary index term

theorem Contiguous.installLog (h : Contiguous log) (index term : Nat) : Contiguous (installLog log index term) := by
  unfold Raft.installLog
  split
  · exact contiguous_boundary index term
  · split
    · rename_i hb; exact h.cut term hb
    · exact h

theorem Contiguous.snoc (h : Contiguous log) (he : e.index = lastLogIndex log + 1) :
    Contiguous (log ++ [e]) := by
  refine (h.2.append (indexed_one ?_)).contiguous (by simp)
  rw [he, h.2.lastLogIndex_eq h.1]

/-- The first `c` of the entries `es` are in `log` from position `p` on, as far as their terms tell. -/
def Matches (log es : List (LogEntry κ)) (p c : Nat) : Prop :=
  ∀ j < c, ∃ e f, log[p + j]? = some e ∧ es[j]? = some f ∧ e.term = f.term

theorem Matches.cons {f : LogEntry κ} {p c : Nat} (he : log[p]? = some e) (ht : e.term = f.term)
    (h : Matches log es (p + 1) c) : Matches log (f :: es) p (c + 1) := by
  intro j hj
  cases j with
  | zero => exact ⟨e, f, he, rfl, ht⟩
  | succ j =>
    obtain ⟨e', f', h1, h2, h3⟩ := h j (by omega)
    exact ⟨e', f', by rw [← h1]; congr 1; omega, h2, h3⟩

/-- Behind the last entry there is nothing to compare with. -/
theorem appendLoop_end (base : Nat) : ∀ (es log new : List (LogEntry κ)),
    appendLoop base (base + log.length) es (log, new) = (log ++ es, new ++ es)
  | [], log, new => by simp [Raft.appendLoop]
  | e :: es, log, new => by
    have hone : appendOne base (base + log.length) e (log, new) = (log ++ [e], new ++ [e]) := by
      simp [appendOne, entryFrom]
    have := appendLoop_end base es (log ++ [e]) (new ++ [e])
    simp only [List.length_append, List.length_singleton, List.append_assoc, List.singleton_append] at this
    simp only [Raft.appendLoop, hone]
    rw [Nat.add_assoc, this]

/-- **The append loop**: either every entry is there already, or everything from the first conflict
(or the end of the log) on is replaced by the rest of the entries. -/
theorem appendLoop_cases (base : Nat) : ∀ (es : List (LogEntry κ)) {log : List (LogEntry κ)} (new : List (LogEntry κ))
    {p : Nat}, p ≤ log.length →
      (Matches log es p es.length ∧ appendLoop base (base + p) es (log, new) = (log, new)) ∨
      ∃ c, c < es.length ∧ p + c ≤ log.length ∧ Matches log es p c ∧
        (∀ e f, log[p + c]? = some e → es[c]? = some f → e.term ≠ f.term) ∧
        appendLoop base (base + p) es (log, new) = (log.take (p + c) ++ es.drop c, new ++ es.drop c)
  | [], log, new, p, hp => Or.inl ⟨fun j hj => by simp at hj, rfl⟩
  | f :: es, log, new, p, hp => by
    have hget : entryFrom base log (base + p) = log[p]? := by simp [entryFrom]
    cases he : log[p]? with
    | none =>
      have hlen : p = log.length := by
        have := List.getElem?_eq_none_iff.1 he
        omega
      subst hlen
      refine Or.inr ⟨0, by simp, by omega, fun j hj => by omega, fun e f' h => ?_, ?_⟩
      · rw [Nat.add_zero, he] at h; cases h
      · rw [appendLoop_end]; simp
    | some e =>
      have hlt := (List.getElem?_eq_some_iff.1 he).1
      by_cases ht : e.term = f.term
      · have hone : appendOne base (base + p) f (log, new) = (log, new) := by
          simp [appendOne, hget, he, ht]
        have hrec : appendLoop base (base + p) (f :: es) (log, new) =
            appendLoop base (base + (p + 1)) es (log, new) := by
          rw [Raft.appendLoop, hone]; rfl
        rw [hrec]
        rcases appendLoop_cases base es new (p := p + 1) (by omega : p + 1 ≤ log.length) with
          ⟨hm, hr⟩ | ⟨c, hc, hl, hm, hd, hr⟩
        · exact Or.inl ⟨hm.cons he ht, hr⟩
        · refine Or.inr ⟨c + 1, by simpa using hc, by omega, hm.cons he ht, ?_, ?_⟩
          · rw [show p + (c + 1) = p + 1 + c by omega]; exact hd
          · rw [show p + (c + 1) = p + 1 + c by omega]; exact hr
      · have hone : appendOne base (base + p) f (log, new) = (log.take p ++ [f], new ++ [f]) := by
          simp [appendOne, hget, he, ht]
        refine Or.inr ⟨0, by simp, by omega, fun j hj => by omega, fun e' f' h h' => ?_, ?_⟩
        · rw [Nat.add_zero, he] at h; cases h; cases h'; exact ht
        · have := appendLoop_end base es (log.take p ++ [f]) (new ++ [f])
          simp only [List.length_append, List.length_take, List.length_singleton, Nat.min_eq_left hp] at this
          rw [Raft.appendLoop, hone, Nat.add_assoc, this]
          simp

theorem appendLoop_indexed {base : Nat} {new : List (LogEntry κ)} (hs : Indexed base log)
    (hes : Indexed idx es) (hb : base ≤ idx) (hl : idx ≤ base + log.length) :
    Indexed base (appendLoop base idx es (log, new)).1 := by
  obtain ⟨p, rfl⟩ := Nat.exists_eq_add_of_le hb
  rcases appendLoop_cases base es new (p := p) (by omega : p ≤ log.length) with ⟨-, hr⟩ | ⟨c, hc, hlc, -, -, hr⟩
  · rw [hr]; exact hs
  · rw [hr]
    refine (hs.take _).append ?_
    rw [List.length_take, Nat.min_eq_left hlc, ← Nat.add_assoc]
    exact hes.drop c

theorem appendLoop_ne_nil {base : Nat} {new : List (LogEntry κ)} (hne : log ≠ []) (hb : base ≤ idx)
    (hl : idx ≤ base + log.length) : (appendLoop base idx es (log, new)).1 ≠ [] := by
  obtain ⟨p, rfl⟩ := Nat.exists_eq_add_of_le hb
  rcases appendLoop_cases base es new (p := p) (by omega : p ≤ log.length) with ⟨-, hr⟩ | ⟨c, hc, -, -, -, hr⟩
  · rw [hr]; exact hne
  · rw [hr]
    intro h0
    have := congrArg List.length (List.append_eq_nil_iff.1 h0).2
    simp only [List.length_drop, List.length_nil] at this
    omega

/-- What an accepted request says about the entry before its first one. -/
theorem prevConflict_none {prev prevTerm : Nat} (h : prevConflict log prev prevTerm = none) :
    prev = 0 ∨ ∃ e, entryAt log prev = some e ∧ e.term = prevTerm := by
  unfold prevConflict at h
  dsimp only at h
  split at h
  · exact Or.inl ‹_›
  · split at h
    · cases h
    · split at h
      · cases h
      · rename_i e he
        split at h
        · cases h
        · rename_i ht
          exact Or.inr ⟨e, by rw [entryAt, entryFrom, if_pos (by omega)]; exact he, not_not.1 ht⟩

/-- The append loop keeps a log contiguous if it starts at or behind the base. -/
theorem Contiguous.appendLoop (h : Contiguous log) {prev prevTerm : Nat} (hc : prevConflict log prev prevTerm = none)
    (hes : Indexed (prev + 1) es) (hb : es ≠ [] → baseIndex log ≤ prev + 1) (new : List (LogEntry κ)) :
    Contiguous (appendLoop (baseIndex log) (prev + 1) es (log, new)).1 := by
  cases es with
  | nil => exact h
  | cons e es =>
    have hlen := List.length_pos_iff.2 h.1
    have hl : prev + 1 ≤ baseIndex log + log.length := by
      rcases prevConflict_none hc with rfl | ⟨f, hf, -⟩
      · omega
      · have := entryAt_bounds hf
        omega
    exact (appendLoop_indexed h.2 hes (hb (by simp)) hl).contiguous (appendLoop_ne_nil h.1 (hb (by simp)) hl)

/-- What `replicateTo` sends is indexed from `PrevLogIndex + 1` on. -/
theorem Contiguous.entriesFrom (h : Contiguous log) (limit nextIdx : Nat) :
    Indexed nextIdx (entriesFrom log limit nextIdx) := by
  unfold Raft.entriesFrom
  dsimp only
  split
  · split
    · rename_i hc
      have := (h.2.take (min (nextIdx + limit) (lastLogIndex log + 1) - baseIndex log)).drop (nextIdx - baseIndex log)
      rwa [show baseIndex log + (nextIdx - baseIndex log) = nextIdx by omega] at this
    · exact indexed_nil
  · exact indexed_nil

end Logs

end Raft
