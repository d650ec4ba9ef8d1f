import ApiCerberus.Raft.Types

/-!
# Raft node: the critical sections

`internal/raft/node.go`. Every function below is one critical section under `n.mu`, or a named part of one:

* `start`: the restore part of `Start` (`:209-238`)
* `becomeCandidate`, `voteRequest`, `receiveVote`: `becomeCandidate` (`:291`): the caller's part, its request, the part
after the response
* `replicateTo`: `replicateTo` up to its first `RUnlock` (`:414-524`)
* `receiveAppend`, `receiveSnapshot`: `replicateTo` after the response (`:526-551`, `:464-476`)

Left out: timers, logging, channels, and membership changes. The state machine is never nil; the storage may be.
-/

namespace Raft

variable {ι κ σ δ S : Type}

/-! ## Starting -/

/-- A node before `Start`: the log holds the dummy entry at index 0. -/
def newNode (E : Env ι κ σ δ S) (id : ι) (config : Config) (peers : List ι) (storage : Option S) : Node ι κ σ S where
  id := id
  currentTerm := 0
  votedFor := none
  log := [boundary 0 0]
  commitIndex := 0
  lastApplied := 0
  nextIndex := fun _ => none
  matchIndex := fun _ => none
  lastSnapshotIndex := 0
  lastSnapshotTerm := 0
  state := .follower
  leaderID := none
  peers := peers
  heartbeat := .off
  fsm := E.fresh
  storage := storage
  config := config
  votesReceived := 0
  ledTerms := []
  applied := []
  committed := []

section Start
variable [ByteSlice δ] (E : Env ι κ σ δ S)

def loadState (n : Node ι κ σ S) : Node ι κ σ S :=
  match n.storage.bind E.storage.loadState with
  | some (term, votedFor) => { n with currentTerm := term, votedFor := votedFor }
  | none => n

def loadLog (n : Node ι κ σ S) : Node ι κ σ S :=
  match n.storage.bind E.storage.loadLog with
  | some [] => n
  | some entries => { n with log := entries }
  | none => n

def loadSnapshot (n : Node ι κ σ S) : Node ι κ σ S :=
  match n.storage.bind E.storage.loadSnapshot with
  | some (index, term, data) =>
    if 0 < index ∧ 0 < ByteSlice.len data then
      match E.fsm.restore n.fsm data with
      | some fsm =>
        { n with
          fsm := fsm
          lastSnapshotIndex := index
          lastSnapshotTerm := term
          lastApplied := max n.lastApplied index
          commitIndex := max n.commitIndex index }
      | none => n
    else n
  | none => n

/-- What `Start` takes from the storage. -/
def start (n : Node ι κ σ S) : Node ι κ σ S := loadSnapshot E (loadLog E (loadState E n))

/-- A crash and a restart: a fresh node over the same storage. The histories go on. -/
def restart (n : Node ι κ σ S) : Node ι κ σ S :=
  { start E (newNode E n.id n.config n.peers n.storage) with
    ledTerms := n.ledTerms, applied := n.applied, committed := n.committed }

end Start

/-! ## Persistence -/

def persistState (E : Env ι κ σ δ S) (n : Node ι κ σ S) : Node ι κ σ S :=
  { n with storage := n.storage.map fun s => E.storage.saveState s n.currentTerm n.votedFor }

def persistLog (E : Env ι κ σ δ S) (n : Node ι κ σ S) (entries : List (LogEntry κ)) : Node ι κ σ S :=
  { n with storage := n.storage.map fun s => E.storage.saveLog s entries }

/-! ## Elections -/

/-- The vote is forgotten with the term. -/
def becomeFollower (E : Env ι κ σ δ S) (n : Node ι κ σ S) (term : Nat) : Node ι κ σ S :=
  persistState E { n with state := .follower, currentTerm := term, votedFor := none }

/-- A node votes for itself. -/
def becomeCandidate (E : Env ι κ σ δ S) (n : Node ι κ σ S) : Node ι κ σ S :=
  persistState E
    { n with
      state := .candidate
      currentTerm := n.currentTerm + 1
      votedFor := some n.id
      leaderID := none
      votesReceived := 1 }

def voteRequest (n : Node ι κ σ S) : RequestVoteRequest ι where
  term := n.currentTerm
  candidateID := n.id
  lastLogIndex := lastLogIndex n.log
  lastLogTerm := lastLogTerm n.log

def votesNeeded (n : Node ι κ σ S) : Nat := (n.peers.length + 1) / 2 + 1

section Leader
variable [DecidableEq ι]

/-- The heartbeat goroutine is started by a compare-and-swap: not while an old one still runs. -/
def becomeLeader (n : Node ι κ σ S) : Node ι κ σ S :=
  if n.state = .leader then n
  else
    { n with
      state := .leader
      leaderID := some n.id
      nextIndex := fun p => if p ∈ n.peers then some (lastLogIndex n.log + 1) else n.nextIndex p
      matchIndex := fun p => if p ∈ n.peers then some 0 else n.matchIndex p
      heartbeat := if n.heartbeat = .off then .running else n.heartbeat
      ledTerms := n.currentTerm :: n.ledTerms }

/-- One more vote of the current candidacy. -/
def countVote (n : Node ι κ σ S) : Node ι κ σ S :=
  let m := { n with votesReceived := n.votesReceived + 1 }
  if votesNeeded m ≤ m.votesReceived then becomeLeader m else m

def receiveVote (E : Env ι κ σ δ S) (n : Node ι κ σ S) (req : RequestVoteRequest ι) (resp : RequestVoteResponse) :
    Node ι κ σ S :=
  if n.state ≠ .candidate ∨ n.currentTerm ≠ req.term then n
  else if n.currentTerm < resp.term then becomeFollower E n resp.term
  else if resp.voteGranted then countVote n
  else n

/-- Step down on a higher term, in `HandleRequestVote` (`node.go:836-842`). -/
def observeTerm (E : Env ι κ σ δ S) (n : Node ι κ σ S) (term : Nat) : Node ι κ σ S :=
  if n.currentTerm < term then
    persistState E { n with currentTerm := term, state := .follower, votedFor := none, leaderID := none }
  else n

/-- The log of the candidate is not behind. -/
def upToDate (log : List (LogEntry κ)) (req : RequestVoteRequest ι) : Bool :=
  decide (lastLogTerm log < req.lastLogTerm ∨
    (req.lastLogTerm = lastLogTerm log ∧ lastLogIndex log ≤ req.lastLogIndex))

def mayVote (n : Node ι κ σ S) (req : RequestVoteRequest ι) : Bool :=
  decide (n.votedFor = none ∨ n.votedFor = some req.candidateID) && upToDate n.log req

/-- The response carries the term the node had before it looked at the request. -/
def handleRequestVote (E : Env ι κ σ δ S) (n : Node ι κ σ S) (req : RequestVoteRequest ι) :
    Node ι κ σ S × RequestVoteResponse :=
  if req.term < n.currentTerm then (n, ⟨n.currentTerm, false⟩)
  else
    let m := observeTerm E n req.term
    if mayVote m req then (persistState E { m with votedFor := some req.candidateID }, ⟨n.currentTerm, true⟩)
    else (m, ⟨n.currentTerm, false⟩)

end Leader

/-! ## Snapshots and the application of committed entries -/

section Apply
variable (E : Env ι κ σ δ S)

/-- The log after a compaction at `index`. -/
def trimLog (log : List (LogEntry κ)) (index term : Nat) : List (LogEntry κ) :=
  match entryAt log index with
  | some _ => boundary index term :: log.drop (index - baseIndex log + 1)
  | none => [boundary index term]

def snapshotTerm (log : List (LogEntry κ)) (index : Nat) : Nat :=
  match entryAt log index with
  | some e => e.term
  | none => lastLogTerm log

def trim (n : Node ι κ σ S) (index term : Nat) : Node ι κ σ S :=
  { n with log := trimLog n.log index term, lastSnapshotIndex := index, lastSnapshotTerm := term }

/-- A snapshot is taken, and the log behind it is dropped. -/
def compactLog (n : Node ι κ σ S) : Node ι κ σ S :=
  match E.fsm.snapshot n.fsm with
  | none => n
  | some data =>
    let term := snapshotTerm n.log n.lastApplied
    match n.storage with
    | none => trim n n.lastApplied term
    | some s =>
      let saved := E.storage.saveSnapshot s n.lastApplied term data
      let m := { n with storage := some saved.1 }
      if saved.2 then trim m n.lastApplied term else m

/-- `LastApplied - lastSnapshotIndex` wraps around when the snapshot is ahead of `LastApplied`. -/
def maybeSnapshot (n : Node ι κ σ S) : Node ι κ σ S :=
  if n.config.snapshotThreshold = 0 then n
  else if n.lastApplied < n.lastSnapshotIndex ∨ n.config.snapshotThreshold ≤ n.lastApplied - n.lastSnapshotIndex then
    compactLog E n
  else n

/-- One iteration of the loop of `applyCommitted`. -/
def applyNext (n : Node ι κ σ S) : Node ι κ σ S :=
  match entryAt n.log (n.lastApplied + 1) with
  | some e =>
    { n with lastApplied := n.lastApplied + 1, fsm := E.fsm.apply n.fsm e, applied := n.applied ++ [e] }
  | none => { n with lastApplied := n.lastApplied + 1 }

def applyLoop : Nat → Node ι κ σ S → Node ι κ σ S
  | 0, n => n
  | k + 1, n => applyLoop k (applyNext E n)

/-- Every committed entry is applied, in order. -/
def applyCommitted (n : Node ι κ σ S) : Node ι κ σ S :=
  maybeSnapshot E (applyLoop E (n.commitIndex - n.lastApplied) n)

theorem applyLoop_eq : ∀ (k : Nat) (n : Node ι κ σ S), ∃ fsm applied,
    applyLoop E k n = { n with lastApplied := n.lastApplied + k, fsm, applied }
  | 0, n => ⟨n.fsm, n.applied, rfl⟩
  | k + 1, n => by
    obtain ⟨fsm, applied, hnext⟩ : ∃ fsm applied, applyNext E n =
        { n with lastApplied := n.lastApplied + 1, fsm, applied } := by
      unfold applyNext
      split <;> exact ⟨_, _, rfl⟩
    obtain ⟨fsm', applied', hrest⟩ := applyLoop_eq k (applyNext E n)
    refine ⟨fsm', applied', ?_⟩
    rw [applyLoop, hrest, hnext]
    simp only [Nat.add_assoc, Nat.add_comm 1]

/-- A snapshot is saved or not, and the log is compacted or not. -/
theorem maybeSnapshot_cases (n : Node ι κ σ S) : ∃ storage, maybeSnapshot E n = { n with storage } ∨
    maybeSnapshot E n = trim { n with storage } n.lastApplied (snapshotTerm n.log n.lastApplied) := by
  have hsame : ∃ storage, n = { n with storage } ∨
    n = trim { n with storage } n.lastApplied (snapshotTerm n.log n.lastApplied) :=
    ⟨n.storage, .inl rfl⟩
  unfold maybeSnapshot
  split
  · exact hsame
  split
  · unfold compactLog
    split
    · exact hsame
    split
    · exact ⟨n.storage, .inr rfl⟩
    dsimp only
    split
    · exact ⟨_, .inr rfl⟩
    · exact ⟨_, .inl rfl⟩
  · exact hsame

end Apply

/-! ## Replication: the leader's side -/

section Replicate
variable [DecidableEq ι]

/-- The number of members known to hold `idx`, the node itself included. -/
def replicaCount (n : Node ι κ σ S) (idx : Nat) : Nat :=
  1 + n.peers.countP fun p => decide (p ≠ n.id) && decide (idx ≤ (n.matchIndex p).getD 0)

/-- Only entries of the current term are committed by counting replicas. -/
def committable (n : Node ι κ σ S) (idx : Nat) : Bool :=
  match entryAt n.log idx with
  | some e => decide (e.term = n.currentTerm) && decide ((n.peers.length + 1) / 2 < replicaCount n idx)
  | none => false

/-- The downward loop of `advanceCommitIndex`. -/
def scanCommit (n : Node ι κ σ S) : Nat → Option Nat
  | 0 => none
  | idx + 1 =>
    if idx + 1 ≤ n.commitIndex ∨ idx + 1 < baseIndex n.log then none
    else if committable n (idx + 1) then some (idx + 1)
    else scanCommit n idx

/-- Mark the log committed up to `idx`. -/
def commitTo (n : Node ι κ σ S) (idx : Nat) : Node ι κ σ S :=
  { n with
    commitIndex := idx
    committed := n.committed ++ (n.log.take (idx - baseIndex n.log + 1)).drop 1 }

def advanceCommitIndex (E : Env ι κ σ δ S) (n : Node ι κ σ S) : Node ι κ σ S :=
  match scanCommit n (lastLogIndex n.log) with
  | some idx => applyCommitted E (commitTo n idx)
  | none => n

/-- What a goroutine of one `replicateTo` call is about to do. -/
inductive Outgoing (ι κ δ : Type) where
  | append (req : AppendEntriesRequest ι κ)
  | snapshot (req : InstallSnapshotRequest ι δ)

def Outgoing.term : Outgoing ι κ δ → Nat
  | .append req => req.term
  | .snapshot req => req.term

section
variable [ByteSlice δ]

/-- A live snapshot of the state machine (`node.go:437-442`). -/
def liveSnapshot (E : Env ι κ σ δ S) (n : Node ι κ σ S) : Option δ :=
  match E.fsm.snapshot n.fsm with
  | some data => if ByteSlice.isNil data then none else some data
  | none => none

/-- Whatever snapshot the storage holds, else a live one; its label is not looked at. -/
def snapshotData (E : Env ι κ σ δ S) (n : Node ι κ σ S) : Option δ :=
  match n.storage.bind E.storage.loadSnapshot with
  | some (_, _, data) => if 0 < ByteSlice.len data then some data else liveSnapshot E n
  | none => liveSnapshot E n

def prevLogTerm (log : List (LogEntry κ)) (prev : Nat) : Nat :=
  match entryAt log prev with
  | some e => e.term
  | none => 0

/-- The entries from `nextIdx` on, at most `limit` of them. -/
def entriesFrom (log : List (LogEntry κ)) (limit nextIdx : Nat) : List (LogEntry κ) :=
  let last := lastLogIndex log
  let base := baseIndex log
  if nextIdx ≤ last then
    let stop := min (nextIdx + limit) (last + 1)
    if base ≤ nextIdx ∧ nextIdx - base < log.length ∧ stop - base ≤ log.length then
      (log.take (stop - base)).drop (nextIdx - base)
    else []
  else []

/-- `term` and `commitIndex` were captured by the heartbeat tick; the rest is read now. -/
def replicateTo (E : Env ι κ σ δ S) (n : Node ι κ σ S) (peer : ι) (term commitIndex : Nat) :
    Option (Outgoing ι κ δ) :=
  match n.nextIndex peer with
  | none => none
  | some nextIdx =>
    if 0 < n.lastSnapshotIndex ∧ nextIdx ≤ n.lastSnapshotIndex then
      (snapshotData E n).map fun data =>
        .snapshot
          { term := term
            leaderID := n.id
            lastIncludedIndex := n.lastSnapshotIndex
            lastIncludedTerm := n.lastSnapshotTerm
            data := data
            done := true }
    else
      some <| .append
        { term := term
          leaderID := n.id
          prevLogIndex := nextIdx - 1
          prevLogTerm := prevLogTerm n.log (nextIdx - 1)
          entries := entriesFrom n.log n.config.maxEntriesPerAppend nextIdx
          leaderCommit := commitIndex }

omit [DecidableEq ι] in
/-- The two kinds of request a goroutine sends. -/
theorem replicateTo_cases {E : Env ι κ σ δ S} {n : Node ι κ σ S} {peer : ι} {term commitIndex : Nat}
    {out : Outgoing ι κ δ} (h : replicateTo E n peer term commitIndex = some out) :
    ∃ nextIdx, n.nextIndex peer = some nextIdx ∧
      ((∃ data, (0 < n.lastSnapshotIndex ∧ nextIdx ≤ n.lastSnapshotIndex) ∧ snapshotData E n = some data ∧
        out = .snapshot
          { term := term
            leaderID := n.id
            lastIncludedIndex := n.lastSnapshotIndex
            lastIncludedTerm := n.lastSnapshotTerm
            data := data
            done := true }) ∨
      (¬ (0 < n.lastSnapshotIndex ∧ nextIdx ≤ n.lastSnapshotIndex) ∧
        out = .append
          { term := term
            leaderID := n.id
            prevLogIndex := nextIdx - 1
            prevLogTerm := prevLogTerm n.log (nextIdx - 1)
            entries := entriesFrom n.log n.config.maxEntriesPerAppend nextIdx
            leaderCommit := commitIndex })) := by
  unfold replicateTo at h
  split at h
  · cases h
  · rename_i nextIdx hnext
    refine ⟨nextIdx, hnext, ?_⟩
    split at h
    · rename_i hsnap
      obtain ⟨data, hd, rfl⟩ := Option.map_eq_some_iff.1 h
      exact Or.inl ⟨data, hsnap, hd, rfl⟩
    · rename_i hsnap
      cases h
      exact Or.inr ⟨hsnap, rfl⟩

omit [DecidableEq ι] in
/-- Requests go out under the captured term, whatever the term of the node is by now. -/
theorem replicateTo_term {E : Env ι κ σ δ S} {n : Node ι κ σ S} {peer : ι} {term commitIndex : Nat}
    {out : Outgoing ι κ δ} (h : replicateTo E n peer term commitIndex = some out) : out.term = term := by
  obtain ⟨_, _, ⟨_, _, _, rfl⟩ | ⟨_, rfl⟩⟩ := replicateTo_cases h <;> rfl

end

/-- A successful response: `matchIndex` never goes down here, `nextIndex` may. -/
def recordMatch (n : Node ι κ σ S) (peer : ι) (newMatch : Nat) : Node ι κ σ S :=
  { n with
    matchIndex :=
      if (n.matchIndex peer).getD 0 < newMatch then Function.update n.matchIndex peer (some newMatch) else n.matchIndex
    nextIndex := Function.update n.nextIndex peer (some (newMatch + 1)) }

/-- A rejection: one step back unless the follower named a conflicting term. -/
def backtrack (n : Node ι κ σ S) (peer : ι) (resp : AppendEntriesResponse) : Node ι κ σ S :=
  if 0 < resp.conflictTerm ∧ 0 < resp.conflictIndex then
    { n with nextIndex := Function.update n.nextIndex peer (some resp.conflictIndex) }
  else if 1 < (n.nextIndex peer).getD 0 then
    { n with nextIndex := Function.update n.nextIndex peer (some ((n.nextIndex peer).getD 0 - 1)) }
  else n

/-- The leader takes the answer of a follower. -/
def receiveAppend (E : Env ι κ σ δ S) (n : Node ι κ σ S) (peer : ι) (req : AppendEntriesRequest ι κ)
    (resp : AppendEntriesResponse) : Node ι κ σ S :=
  if n.currentTerm < resp.term then becomeFollower E n resp.term
  else if n.state ≠ .leader ∨ n.currentTerm ≠ req.term then n
  else if resp.success then advanceCommitIndex E (recordMatch n peer (req.prevLogIndex + req.entries.length))
  else backtrack n peer resp

/-- Unlike `receiveAppend`, this checks neither the state nor the term. -/
def receiveSnapshot (E : Env ι κ σ δ S) (n : Node ι κ σ S) (peer : ι) (req : InstallSnapshotRequest ι δ)
    (resp : InstallSnapshotResponse) : Node ι κ σ S :=
  if n.currentTerm < resp.term then becomeFollower E n resp.term
  else if resp.success then
    { n with
      nextIndex := Function.update n.nextIndex peer (some (req.lastIncludedIndex + 1))
      matchIndex := Function.update n.matchIndex peer (some req.lastIncludedIndex) }
  else n

/-- The entry `AppendEntry` creates for the marshalled command `data`. -/
def newEntry (n : Node ι κ σ S) (data : κ) : LogEntry κ :=
  { index := lastLogIndex n.log + 1, term := n.currentTerm, command := some data }

def appendLocal (E : Env ι κ σ δ S) (n : Node ι κ σ S) (data : κ) : Node ι κ σ S :=
  let entry := newEntry n data
  { persistLog E { n with log := n.log ++ [entry] } [entry] with
    matchIndex := Function.update n.matchIndex n.id (some entry.index) }

/-- `AppendEntry` of a node that leads. -/
def appendEntry (E : Env ι κ σ δ S) (n : Node ι κ σ S) (data : Except String κ) : Except String (Node ι κ σ S × Nat) :=
  if n.state ≠ .leader then .error "not leader"
  else
    match data with
    | .error err => .error err
    | .ok data => .ok (appendLocal E n data, (newEntry n data).index)

end Replicate

/-! ## Replication: the follower's side -/

section Follow
variable (E : Env ι κ σ δ S)

/-- Accept the sender as leader (`node.go:876-883`): the vote is forgotten even in the same term. -/
def followLeader (n : Node ι κ σ S) (term : Nat) (leader : ι) : Node ι κ σ S :=
  let m := { n with leaderID := some leader }
  if n.currentTerm < term ∨ n.state ≠ .follower then
    persistState E { m with currentTerm := term, state := .follower, votedFor := none }
  else m

/-- The first index of the conflicting term, from offset `i` downwards; 0 if the loop finds none. -/
def conflictStart (base : Nat) (log : List (LogEntry κ)) (term : Nat) : Nat → Nat
  | 0 => 0
  | i + 1 => if (log[i]?.map (·.term)) ≠ some term then base + (i + 1) else conflictStart base log term i

/-- The consistency check on the previous entry: `ConflictIndex` and `ConflictTerm` if it fails.
`PrevLogIndex = 0` passes unchecked, whatever the base of the log is. -/
def prevConflict (log : List (LogEntry κ)) (prevLogIndex prevLogTerm : Nat) : Option (Nat × Nat) :=
  let base := baseIndex log
  if prevLogIndex = 0 then none
  else if prevLogIndex < base then some (base + 1, 0)
  else
    match log[prevLogIndex - base]? with
    | none => some (base + log.length, 0)
    | some e =>
      if e.term ≠ prevLogTerm then some (conflictStart base log e.term (prevLogIndex - base), e.term) else none

/-- One iteration of the append loop: the log and the entries that were new. -/
def appendOne (base index : Nat) (entry : LogEntry κ) (s : List (LogEntry κ) × List (LogEntry κ)) :
    List (LogEntry κ) × List (LogEntry κ) :=
  match entryFrom base s.1 index with
  | some e => if e.term ≠ entry.term then (s.1.take (index - base) ++ [entry], s.2 ++ [entry]) else s
  | none => (s.1 ++ [entry], s.2 ++ [entry])

def appendLoop (base : Nat) : Nat → List (LogEntry κ) → List (LogEntry κ) × List (LogEntry κ) →
    List (LogEntry κ) × List (LogEntry κ)
  | _, [], s => s
  | index, entry :: entries, s => appendLoop base (index + 1) entries (appendOne base index entry s)

def appendNew (n : Node ι κ σ S) (req : AppendEntriesRequest ι κ) : Node ι κ σ S :=
  let r := appendLoop (baseIndex n.log) (req.prevLogIndex + 1) req.entries (n.log, [])
  let m := { n with log := r.1 }
  if r.2 = [] then m else persistLog E m r.2

/-- `CommitIndex` may move backwards here: the minimum is not compared with the old value. -/
def updateCommit (n : Node ι κ σ S) (req : AppendEntriesRequest ι κ) : Node ι κ σ S :=
  if n.commitIndex < req.leaderCommit then
    applyCommitted E { n with commitIndex := min req.leaderCommit (req.prevLogIndex + req.entries.length) }
  else n

/-- The handler for the requests of a leader. -/
def handleAppendEntries (n : Node ι κ σ S) (req : AppendEntriesRequest ι κ) : Node ι κ σ S × AppendEntriesResponse :=
  if req.term < n.currentTerm then (n, ⟨n.currentTerm, false, 0, 0⟩)
  else
    let m := followLeader E n req.term req.leaderID
    match prevConflict m.log req.prevLogIndex req.prevLogTerm with
    | some (index, term) => (m, ⟨n.currentTerm, false, index, term⟩)
    | none => (updateCommit E (appendNew E m req) req, ⟨n.currentTerm, true, 0, 0⟩)

/-- Like `followLeader`, but in the same term the node stays what it is (`node.go:965-971`). -/
def observeLeader (n : Node ι κ σ S) (term : Nat) (leader : ι) : Node ι κ σ S :=
  let m := { n with leaderID := some leader }
  if n.currentTerm < term then
    persistState E { m with currentTerm := term, state := .follower, votedFor := none }
  else m

/-- What is behind the snapshot is kept without a look at its terms. -/
def installLog (log : List (LogEntry κ)) (index term : Nat) : List (LogEntry κ) :=
  if baseIndex log + log.length ≤ index then [boundary index term]
  else if baseIndex log ≤ index then boundary index term :: log.drop (index - baseIndex log + 1)
  else log

section
variable [ByteSlice δ]

def restoreFSM (n : Node ι κ σ S) (data : δ) : Option (Node ι κ σ S) :=
  if 0 < ByteSlice.len data then (E.fsm.restore n.fsm data).map fun fsm => { n with fsm := fsm } else some n

def install (n : Node ι κ σ S) (req : InstallSnapshotRequest ι δ) : Node ι κ σ S :=
  { n with
    log := installLog n.log req.lastIncludedIndex req.lastIncludedTerm
    lastApplied := max n.lastApplied req.lastIncludedIndex
    commitIndex := max n.commitIndex req.lastIncludedIndex
    lastSnapshotIndex := req.lastIncludedIndex
    lastSnapshotTerm := req.lastIncludedTerm
    storage := n.storage.map fun s =>
      (E.storage.saveSnapshot s req.lastIncludedIndex req.lastIncludedTerm req.data).1 }

/-- The handler for a snapshot. -/
def handleInstallSnapshot (n : Node ι κ σ S) (req : InstallSnapshotRequest ι δ) :
    Node ι κ σ S × InstallSnapshotResponse :=
  if req.term < n.currentTerm then (n, ⟨n.currentTerm, false⟩)
  else
    let m := observeLeader E n req.term req.leaderID
    match restoreFSM E m req.data with
    | none => (m, ⟨n.currentTerm, false⟩)
    | some m => (install E m req, ⟨n.currentTerm, true⟩)

end

end Follow

end Raft
