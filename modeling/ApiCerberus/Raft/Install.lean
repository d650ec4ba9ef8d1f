import ApiCerberus.Raft.Instances
import ApiCerberus.Raft.Log

/-!
# The log after a snapshot has been installed

`HandleInstallSnapshot` keeps what is behind the snapshot without a look at the terms (`node.go:983-995`). The log stays
contiguous. Its terms stay in order and its suffix belongs to the snapshot if and only if the follower had the entry
that the snapshot ends with, or had nothing behind it (`handleInstallSnapshot_consistent_iff`).
-/

namespace Raft

variable {ι κ σ δ S : Type}

/-- The terms of a log do not decrease. -/
def TermsOrdered (log : List (LogEntry κ)) : Prop := log.Pairwise fun e f => e.term ≤ f.term

instance (log : List (LogEntry κ)) : Decidable (TermsOrdered log) := inferInstanceAs (Decidable (List.Pairwise _ _))

/-- The log has an entry with this index and this term. -/
def HasBoundary (log : List (LogEntry κ)) (index term : Nat) : Prop := ∃ e, entryAt log index = some e ∧ e.term = term

section Log
variable {log : List (LogEntry κ)} {index term : Nat}

/-- Everything behind the snapshot is kept. -/
theorem mem_installLog (h : Contiguous log) {e : LogEntry κ} (he : e ∈ log)
    (hlt : index < e.index) : e ∈ installLog log index term := by
  obtain ⟨k, hk⟩ := List.mem_iff_getElem?.1 he
  have hidx := h.2 k e hk
  have hlen := (List.getElem?_eq_some_iff.1 hk).1
  rw [installLog, if_neg (by omega)]
  split
  · refine List.mem_cons_of_mem _ (List.mem_iff_getElem?.2 ⟨k - (index - baseIndex log + 1), ?_⟩)
    rw [List.getElem?_drop, ← hk]
    congr 1
    omega
  · exact he

theorem installLog_of_last_le (h : Contiguous log) (hle : lastLogIndex log ≤ index) :
    installLog log index term = [boundary index term] := by
  have hlast := h.2.lastLogIndex_eq h.1
  have hlen := List.length_pos_iff.2 h.1
  rw [installLog]
  split
  · rfl
  · rw [if_pos (by omega), List.drop_eq_nil_of_le (by omega)]

theorem TermsOrdered.installLog (h : TermsOrdered log) (hb : HasBoundary log index term) :
    TermsOrdered (installLog log index term) := by
  obtain ⟨e, he, rfl⟩ := hb
  have hbounds := entryAt_bounds he
  rw [Raft.installLog, if_neg (by omega), if_pos hbounds.1]
  rw [entryAt, entryFrom, if_pos hbounds.1] at he
  obtain ⟨hlt, rfl⟩ := List.getElem?_eq_some_iff.1 he
  refine List.pairwise_cons.2 ⟨fun f hf => ?_, h.sublist (List.drop_sublist _ _)⟩
  obtain ⟨k, hk, rfl⟩ := List.mem_iff_getElem.1 hf
  rw [List.getElem_drop]
  exact List.pairwise_iff_getElem.1 h _ _ _ _ (by omega)

theorem exists_last (h : Contiguous log) : ∃ e ∈ log, e.index = lastLogIndex log := by
  obtain ⟨e, he⟩ := Option.ne_none_iff_exists'.1 fun hnone => h.1 (List.getLast?_eq_none_iff.1 hnone)
  refine ⟨e, List.mem_of_getLast? he, ?_⟩
  rw [lastLogIndex, he]
  rfl

theorem index_le_last (h : Contiguous log) {e : LogEntry κ} (he : e ∈ log) : e.index ≤ lastLogIndex log := by
  obtain ⟨k, hk⟩ := List.mem_iff_getElem?.1 he
  have hidx := h.2 k e hk
  have hlen := (List.getElem?_eq_some_iff.1 hk).1
  have hlast := h.2.lastLogIndex_eq h.1
  omega

end Log

variable [ByteSlice δ] {E : Env ι κ σ δ S} {n : Node ι κ σ S} {req : InstallSnapshotRequest ι δ}

omit [ByteSlice δ] in
theorem log_observeLeader (n : Node ι κ σ S) (term : Nat)
    (leader : ι) : (observeLeader E n term leader).log = n.log := by
  unfold observeLeader
  dsimp only
  split <;> rfl

/-- The log is rewritten, or left if the data cannot be restored. -/
theorem log_handleInstallSnapshot (hterm : n.currentTerm ≤ req.term) :
    (handleInstallSnapshot E n req).1.log = n.log ∨
      (handleInstallSnapshot E n req).1.log = installLog n.log req.lastIncludedIndex req.lastIncludedTerm := by
  have hlog := log_observeLeader (E := E) n req.term req.leaderID
  rw [handleInstallSnapshot, if_neg (not_lt.2 hterm)]
  dsimp only
  split
  · exact .inl hlog
  · rename_i m hm
    have hsame : m.log = n.log := by
      unfold restoreFSM at hm
      split at hm
      · obtain ⟨fsm, -, rfl⟩ := Option.map_eq_some_iff.1 hm
        exact hlog
      · rw [← Option.some.inj hm]
        exact hlog
    exact .inr (by rw [install, hsame])

/-- **What an installed snapshot leaves of the log.** It stays contiguous. Its terms are in order, and what is behind
the snapshot is kept only if the follower had the last entry of the snapshot, if and only if the follower had that entry
or nothing behind it. -/
theorem handleInstallSnapshot_consistent_iff (E : Env ι κ σ δ S) (n : Node ι κ σ S) (req : InstallSnapshotRequest ι δ)
    (hlog : Contiguous n.log)
    (hterms : TermsOrdered n.log) (hterm : n.currentTerm ≤ req.term) :
    Contiguous (handleInstallSnapshot E n req).1.log ∧
      ((TermsOrdered (handleInstallSnapshot E n req).1.log ∧
          ∀ e ∈ (handleInstallSnapshot E n req).1.log, e ∈ n.log → req.lastIncludedIndex < e.index →
            HasBoundary n.log req.lastIncludedIndex req.lastIncludedTerm) ↔
        (HasBoundary n.log req.lastIncludedIndex req.lastIncludedTerm ∨
          lastLogIndex n.log ≤ req.lastIncludedIndex)) := by
  have hkept : ∀ e ∈ n.log, req.lastIncludedIndex < e.index → e ∈ (handleInstallSnapshot E n req).1.log := by
    intro e he hlt
    rcases log_handleInstallSnapshot (E := E) hterm with heq | heq
    · rwa [heq]
    · rw [heq]
      exact mem_installLog hlog he hlt
  refine ⟨?_, ⟨?_, ?_⟩⟩
  · rcases log_handleInstallSnapshot (E := E) hterm with heq | heq
    · rwa [heq]
    · rw [heq]
      exact hlog.installLog _ _
  · -- the last entry is kept if it is behind the snapshot
    rintro ⟨-, hretained⟩
    obtain ⟨e, he, hidx⟩ := exists_last hlog
    rcases Nat.lt_or_ge req.lastIncludedIndex (lastLogIndex n.log) with hlt | hge
    · rw [← hidx] at hlt
      exact .inl (hretained e (hkept e he hlt) he hlt)
    · exact .inr hge
  · rintro (hb | hle)
    · refine ⟨?_, fun _ _ _ _ => hb⟩
      rcases log_handleInstallSnapshot (E := E) hterm with heq | heq
      · rwa [heq]
      · rw [heq]
        exact hterms.installLog hb
    · refine ⟨?_, fun e _ he hlt => absurd (index_le_last hlog he) (by omega)⟩
      rcases log_handleInstallSnapshot (E := E) hterm with heq | heq
      · rwa [heq]
      · rw [heq, installLog_of_last_le hlog hle]
        exact List.pairwise_singleton _ _

/-- A follower with two entries of term 1. -/
def staleFollower : Node Trio Nat (List (LogEntry Nat)) (Inmem Trio Nat (List (LogEntry Nat))) :=
  { newNode (recorderEnv Trio Nat) .b ⟨10, 1⟩ [.a, .c] none with
    currentTerm := 1
    log := [boundary 0 0, ⟨1, 1, some 0⟩, ⟨2, 1, some 0⟩] }

/-- A snapshot that ends with an entry of term `term` at index 1. -/
def snapshotOfOne (term : Nat) : InstallSnapshotRequest Trio (List (LogEntry Nat)) :=
  { term := 2, leaderID := .a, lastIncludedIndex := 1, lastIncludedTerm := term,
    data := [⟨1, term, some 0⟩], done := true }

theorem handleInstallSnapshot_consistent_same :
    TermsOrdered (handleInstallSnapshot (recorderEnv Trio Nat) staleFollower (snapshotOfOne 1)).1.log ∧
      ∀ e ∈ (handleInstallSnapshot (recorderEnv Trio Nat) staleFollower (snapshotOfOne 1)).1.log, e ∈
        staleFollower.log → 1 < e.index →
        HasBoundary staleFollower.log 1 1 :=
  (handleInstallSnapshot_consistent_iff (recorderEnv Trio Nat) staleFollower (snapshotOfOne 1) (by decide)
    (by decide) (by decide)).2.2
    (.inl ⟨_, rfl, rfl⟩)

/-- The leader has an entry of term 2 at index 1. The follower keeps its entry of term 1 behind it. -/
theorem divergent_suffix_kept :
    Contiguous staleFollower.log ∧ TermsOrdered staleFollower.log ∧ staleFollower.currentTerm ≤ (snapshotOfOne 2).term ∧
      (handleInstallSnapshot (recorderEnv Trio Nat) staleFollower (snapshotOfOne 2)).1.log =
        [boundary 1 2, ⟨2, 1, some 0⟩] ∧
      ¬ TermsOrdered (handleInstallSnapshot (recorderEnv Trio Nat) staleFollower (snapshotOfOne 2)).1.log ∧
        ¬ HasBoundary staleFollower.log 1 2 := by
  refine ⟨by decide, by decide, by decide, rfl, by decide, ?_⟩
  rintro ⟨e, he, hterm⟩
  cases he
  cases hterm

end Raft
