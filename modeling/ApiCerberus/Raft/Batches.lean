import ApiCerberus.Raft.Instances
import ApiCerberus.Raft.Log

/-!
# The entries of a request

`replicateTo` cuts the entries for a peer out of the log with `uint64` offsets, up to `MaxEntriesPerAppend`, an `int`
that `NewNode` takes as it is and `run.go` does not set (`node.go:478-502`, `cli/run.go:112-118`). `collectEntries` is
the block "Collect entries to send"; `none` is the panic of `make`.

For settings that are not negative this is the request of `replicateTo` (`appendRequest_eq_replicateTo`).
-/

namespace Raft

variable {ι κ σ δ S : Type}

/-- `uint64` difference. -/
def sub64 (a b : Nat) : Nat := (a + 2 ^ 64 - b) % 2 ^ 64

/-- `uint64(max)` for an `int`. -/
def toUint64 (max : Int) : Nat := (max % 2 ^ 64).toNat

def collectEntries (log : List (LogEntry κ)) (maxEntriesPerAppend : Int) (nextIdx : Nat) : Option (List (LogEntry κ)) :=
  let lastLogIdx := lastLogIndex log
  if nextIdx ≤ lastLogIdx then
    let startOffset := sub64 nextIdx (baseIndex log)
    let stop := (nextIdx + toUint64 maxEntriesPerAppend) % 2 ^ 64
    let stop := if (lastLogIdx + 1) % 2 ^ 64 < stop then (lastLogIdx + 1) % 2 ^ 64 else stop
    let endOffset := sub64 stop (baseIndex log)
    if startOffset < log.length ∧ endOffset ≤ log.length then
      if endOffset < startOffset then none else some ((log.take endOffset).drop startOffset)
    else some []
  else some []

def appendRequest (n : Node ι κ σ S) (maxEntriesPerAppend : Int)
    (nextIdx term commitIndex : Nat) : Option (AppendEntriesRequest ι κ) :=
  (collectEntries n.log maxEntriesPerAppend nextIdx).map fun entries =>
    { term := term
      leaderID := n.id
      prevLogIndex := nextIdx - 1
      prevLogTerm := prevLogTerm n.log (nextIdx - 1)
      entries := entries
      leaderCommit := commitIndex }

/-- The indices behind the end of the log are still `uint64`. -/
structure Fits64 (log : List (LogEntry κ)) : Prop where
  slice : baseIndex log + log.length < 2 ^ 64
  last : lastLogIndex log + 1 < 2 ^ 64

section Log
variable {log : List (LogEntry κ)} {nextIdx : Nat} {max : Int}

theorem toUint64_lt (max : Int) : toUint64 max < 2 ^ 64 := by
  have := Int.emod_lt_of_pos max (show (0 : Int) < 2 ^ 64 by decide)
  have := Int.emod_nonneg max (show (2 ^ 64 : Int) ≠ 0 by decide)
  unfold toUint64
  omega

/-- An offset is inside the slice only if its index is not below the base. -/
theorem sub64_le_length {k : Nat} (h : Fits64 log) (hk : k < 2 ^ 64) (hle : sub64 k (baseIndex log) ≤ log.length) :
    baseIndex log ≤ k ∧ sub64 k (baseIndex log) = k - baseIndex log := by
  have hslice := h.slice
  unfold sub64 at hle ⊢
  omega

theorem sub64_of_le {k b : Nat} (hk : k < 2 ^ 64) (hle : b ≤ k) : sub64 k b = k - b := by
  unfold sub64
  omega

/-- The index behind the last one that is sent. -/
def stopIndex (last max nextIdx : Nat) : Nat := min ((nextIdx + max) % 2 ^ 64) (last + 1)

/-- The limit is at least one and the sum does not wrap around. -/
theorem lt_stopIndex_iff {last max nextIdx : Nat} (hle : nextIdx ≤ last) (hlast : last + 1 < 2 ^ 64)
    (hmax : max < 2 ^ 64) :
    nextIdx < stopIndex last max nextIdx ↔ 0 < max ∧ nextIdx + max < 2 ^ 64 := by
  unfold stopIndex
  omega

/-- The batch as a part of the log, in wrapping arithmetic. -/
theorem collectEntries_eq (h : Fits64 log) (hle : nextIdx ≤ lastLogIndex log) (max : Int) :
    collectEntries log max nextIdx =
      if baseIndex log ≤ nextIdx ∧ nextIdx < baseIndex log + log.length ∧
        baseIndex log ≤ stopIndex (lastLogIndex log) (toUint64 max) nextIdx ∧
          stopIndex (lastLogIndex log) (toUint64 max) nextIdx ≤ baseIndex log + log.length then
        if stopIndex (lastLogIndex log) (toUint64 max) nextIdx < nextIdx then none
        else some ((log.take (stopIndex (lastLogIndex log) (toUint64 max) nextIdx - baseIndex log)).drop
          (nextIdx - baseIndex log))
      else some [] := by
  have hlast := h.last
  have hslice := h.slice
  have hstop : (if (lastLogIndex log + 1) % 2 ^ 64 < (nextIdx + toUint64 max) % 2 ^ 64 then
    (lastLogIndex log + 1) % 2 ^ 64
      else (nextIdx + toUint64 max) % 2 ^ 64) = stopIndex (lastLogIndex log) (toUint64 max) nextIdx := by
    unfold stopIndex
    rw [Nat.mod_eq_of_lt hlast]
    split <;> omega
  have hfits : stopIndex (lastLogIndex log) (toUint64 max) nextIdx < 2 ^ 64 := by
    unfold stopIndex
    omega
  rw [collectEntries]
  dsimp only
  rw [if_pos hle, hstop]
  generalize stopIndex (lastLogIndex log) (toUint64 max) nextIdx = stop at hfits ⊢
  by_cases hin : sub64 nextIdx (baseIndex log) < log.length ∧ sub64 stop (baseIndex log) ≤ log.length
  · obtain ⟨hb, hstart⟩ := sub64_le_length h (by omega) hin.1.le
    obtain ⟨hb', hend⟩ := sub64_le_length h hfits hin.2
    have hcond : baseIndex log ≤ nextIdx ∧ nextIdx < baseIndex log + log.length ∧ baseIndex log ≤ stop ∧
        stop ≤ baseIndex log + log.length := by
      omega
    rw [if_pos hin, hstart, hend, if_pos hcond]
    by_cases hlt : stop < nextIdx
    · rw [if_pos hlt, if_pos (show stop - baseIndex log < nextIdx - baseIndex log by omega)]
    · rw [if_neg hlt, if_neg (show ¬ stop - baseIndex log < nextIdx - baseIndex log by omega)]
  · rw [if_neg hin, if_neg]
    rintro ⟨hb, hlt, hb', hstop'⟩
    rw [sub64_of_le (by omega) hb, sub64_of_le hfits hb'] at hin
    omega

/-- **When a request has entries.** -/
theorem collectEntries_ne_nil_iff (h : Fits64 log) (hle : nextIdx ≤ lastLogIndex log) :
    (∃ entries, collectEntries log max nextIdx = some entries ∧ entries ≠ []) ↔
      baseIndex log ≤ nextIdx ∧ 0 < toUint64 max ∧ nextIdx + toUint64 max < 2 ^ 64 ∧
        min (nextIdx + toUint64 max) (lastLogIndex log + 1) ≤ baseIndex log + log.length := by
  have hlt := lt_stopIndex_iff hle h.last (toUint64_lt max)
  have hstop : 0 < toUint64 max ∧ nextIdx + toUint64 max < 2 ^ 64 →
      stopIndex (lastLogIndex log) (toUint64 max) nextIdx = min (nextIdx + toUint64 max) (lastLogIndex log + 1) := by
    rintro ⟨-, hsum⟩
    rw [stopIndex, Nat.mod_eq_of_lt hsum]
  rw [collectEntries_eq h hle]
  constructor
  · rintro ⟨entries, heq, hne⟩
    split at heq
    · rename_i hin
      split at heq
      · cases heq
      · cases heq
        have hlen := List.length_pos_iff.2 hne
        rw [List.length_drop, List.length_take] at hlen
        have hcond := hlt.1 (by omega)
        rw [← hstop hcond]
        exact ⟨hin.1, hcond.1, hcond.2, hin.2.2.2⟩
    · cases heq
      exact absurd rfl hne
  · rintro ⟨hb, hpos, hsum, hslice⟩
    have hgt := hlt.2 ⟨hpos, hsum⟩
    rw [← hstop ⟨hpos, hsum⟩] at hslice
    rw [if_pos (by omega), if_neg (by omega)]
    refine ⟨_, rfl, List.ne_nil_of_length_pos ?_⟩
    rw [List.length_drop, List.length_take]
    omega

end Log

theorem toUint64_natCast {m : Nat} (h : m < 2 ^ 64) : toUint64 (m : Int) = m := by
  unfold toUint64
  omega

theorem collectEntries_natCast {log : List (LogEntry κ)} {nextIdx limit : Nat} (h : Fits64 log)
    (hsum : nextIdx + limit < 2 ^ 64) :
    collectEntries log limit nextIdx = some (entriesFrom log limit nextIdx) := by
  by_cases hle : nextIdx ≤ lastLogIndex log
  · have hstop : stopIndex (lastLogIndex log) limit nextIdx = min (nextIdx + limit) (lastLogIndex log + 1) := by
      rw [stopIndex, Nat.mod_eq_of_lt hsum]
    rw [collectEntries_eq h hle, toUint64_natCast (by omega), hstop, entriesFrom]
    dsimp only
    rw [if_pos hle]
    generalize hs : min (nextIdx + limit) (lastLogIndex log + 1) = stop
    by_cases hin : baseIndex log ≤ nextIdx ∧ nextIdx - baseIndex log < log.length ∧ stop - baseIndex log ≤ log.length
    · rw [if_pos hin, if_pos (by omega), if_neg (by omega)]
    · rw [if_neg hin, if_neg (by omega)]
  · rw [collectEntries, entriesFrom]
    dsimp only
    rw [if_neg hle, if_neg hle]

/-- The request of `replicateTo`, for a limit that is not negative. -/
theorem appendRequest_eq_replicateTo [ByteSlice δ] {E : Env ι κ σ δ S} {n : Node ι κ σ S} {peer : ι} {nextIdx : Nat}
    (h : Fits64 n.log)
    (hnext : n.nextIndex peer = some nextIdx) (hlt : n.lastSnapshotIndex < nextIdx)
    (hsum : nextIdx + n.config.maxEntriesPerAppend < 2 ^ 64) (term commitIndex : Nat) :
    replicateTo E n peer term commitIndex =
      (appendRequest n n.config.maxEntriesPerAppend nextIdx term commitIndex).map .append := by
  rw [replicateTo, hnext]
  dsimp only
  rw [if_neg (by omega), appendRequest, collectEntries_natCast h hsum]
  rfl

/-! ## Replies -/

section Replies
variable {E : Env ι κ σ δ S}

theorem nextIndex_applyCommitted (n : Node ι κ σ S) : (applyCommitted E n).nextIndex = n.nextIndex := by
  obtain ⟨fsm, applied, hloop⟩ := applyLoop_eq E (n.commitIndex - n.lastApplied) n
  unfold applyCommitted
  obtain ⟨storage, hn | hn⟩ := maybeSnapshot_cases E (applyLoop E (n.commitIndex - n.lastApplied) n)
  · rw [hn, hloop]
  · rw [hn, hloop]
    rfl

variable [DecidableEq ι]

theorem nextIndex_advanceCommitIndex (n : Node ι κ σ S) : (advanceCommitIndex E n).nextIndex = n.nextIndex := by
  unfold advanceCommitIndex
  split
  · exact nextIndex_applyCommitted _
  · rfl

/-- A reply that is not stale moves the peer behind what was sent. -/
theorem nextIndex_receiveAppend {n : Node ι κ σ S} {peer : ι} {req : AppendEntriesRequest ι κ}
    {resp : AppendEntriesResponse}
    (hstate : n.state = .leader) (hterm : n.currentTerm = req.term) (hresp : resp.term ≤ n.currentTerm)
    (hsuccess : resp.success = true) :
    (receiveAppend E n peer req resp).nextIndex peer = some (req.prevLogIndex + req.entries.length + 1) := by
  rw [receiveAppend, if_neg (not_lt.2 hresp), if_neg (by simp [hstate, hterm]), if_pos hsuccess,
    nextIndex_advanceCommitIndex, recordMatch]
  exact Function.update_self ..

end Replies

/-! ## Progress -/

/-- A request for a peer carries an entry, and whenever a successful reply to it comes, the peer is further than it
was. -/
def Proceeds [DecidableEq ι] (E : Env ι κ σ δ S) (n : Node ι κ σ S) (maxEntriesPerAppend : Int) (peer : ι)
    (nextIdx term commitIndex : Nat) : Prop :=
  ∃ req, appendRequest n maxEntriesPerAppend nextIdx term commitIndex = some req ∧ req.entries ≠ [] ∧
    ∀ (m : Node ι κ σ S) (resp : AppendEntriesResponse), m.state = .leader → m.currentTerm = term →
      resp.term ≤ m.currentTerm →
      resp.success = true → ∃ k, (receiveAppend E m peer req resp).nextIndex peer = some k ∧ nextIdx < k

/-- **Progress.** A peer that is neither at the end of the log nor behind the snapshot gets an entry if and only if its
next index is not below the base of the log, the limit as a `uint64` is positive and does not carry the sum over `2 ^
64`, and the indices of the slice are not beyond its end. -/
theorem proceeds_iff [DecidableEq ι] (E : Env ι κ σ δ S) {n : Node ι κ σ S} {peer : ι} {nextIdx : Nat}
    (hfits : Fits64 n.log)
    (hle : nextIdx ≤ lastLogIndex n.log) (hlt : n.lastSnapshotIndex < nextIdx) (max : Int) (term commitIndex : Nat) :
    Proceeds E n max peer nextIdx term commitIndex ↔
      baseIndex n.log ≤ nextIdx ∧ 0 < toUint64 max ∧ nextIdx + toUint64 max < 2 ^ 64 ∧
        min (nextIdx + toUint64 max) (lastLogIndex n.log + 1) ≤ baseIndex n.log + n.log.length := by
  rw [← collectEntries_ne_nil_iff hfits hle]
  constructor
  · rintro ⟨req, hreq, hne, -⟩
    obtain ⟨entries, hentries, rfl⟩ := Option.map_eq_some_iff.1 hreq
    exact ⟨entries, hentries, hne⟩
  · rintro ⟨entries, hentries, hne⟩
    refine ⟨_, Option.map_eq_some_iff.2 ⟨entries, hentries, rfl⟩, hne, fun m resp hstate hterm hresp hsuccess => ?_⟩
    have hlen := List.length_pos_iff.2 hne
    refine ⟨_, nextIndex_receiveAppend hstate hterm hresp hsuccess, ?_⟩
    dsimp only
    omega

/-- The settings that `run.go` leaves out are zero. -/
def runConfig : Config := ⟨0, 0⟩

/-- With the settings of `run.go` no peer ever gets an entry. -/
theorem not_proceeds_runConfig [DecidableEq ι] (E : Env ι κ σ δ S) {n : Node ι κ σ S} {peer : ι} {nextIdx : Nat}
    (hfits : Fits64 n.log)
    (hle : nextIdx ≤ lastLogIndex n.log) (term commitIndex : Nat) :
    ¬ Proceeds E n runConfig.maxEntriesPerAppend peer nextIdx term commitIndex := by
  rintro ⟨req, hreq, hne, -⟩
  obtain ⟨entries, hentries, rfl⟩ := Option.map_eq_some_iff.1 hreq
  have hiff := (collectEntries_ne_nil_iff hfits hle).1 ⟨entries, hentries, hne⟩
  exact absurd hiff.2.1 (by decide)

/-- A leader whose peers have none of its two entries. -/
def aheadLeader (config : Config) : Node Trio Nat (List (LogEntry Nat)) (Inmem Trio Nat (List (LogEntry Nat))) :=
  { newNode (recorderEnv Trio Nat) .a config [.b, .c] none with
    currentTerm := 1
    state := .leader
    log := [boundary 0 0, ⟨1, 1, some 0⟩, ⟨2, 1, some 0⟩]
    nextIndex := fun _ => some 1 }

theorem proceeds_hundred : Proceeds (recorderEnv Trio Nat) (aheadLeader ⟨100, 0⟩) 100 .b 1 1 0 :=
  (proceeds_iff (recorderEnv Trio Nat) ⟨by decide, by decide⟩ (by decide) (by decide) 100 1 0).2 (by decide)

/-- With the settings of `run.go` the request is empty, and its reply leaves the peer where it is. -/
theorem stuck_runConfig :
    ¬ Proceeds (recorderEnv Trio Nat) (aheadLeader runConfig)
      (aheadLeader runConfig).config.maxEntriesPerAppend .b 1 1 0 ∧
      replicateTo (recorderEnv Trio Nat) (aheadLeader runConfig) .b 1 0 = some (.append ⟨1, .a, 0, 0, [], 0⟩) ∧
      (receiveAppend (recorderEnv Trio Nat) (aheadLeader runConfig) .b ⟨1, .a, 0, 0, [], 0⟩ ⟨1, true, 0,
        0⟩).nextIndex .b = some 1 :=
  ⟨not_proceeds_runConfig (recorderEnv Trio Nat) ⟨by decide, by decide⟩ (by decide) 1 0, rfl, rfl⟩

end Raft
