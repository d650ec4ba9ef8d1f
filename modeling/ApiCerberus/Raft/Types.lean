import Mathlib.Logic.Function.Basic

/-!
# Raft node: data types and interfaces

The types of `internal/raft/node.go:14-143` and of the requests in `rpc.go`. `entryAt` is `n.Log[idx-baseIndex]`
behind its bounds check.

Terms and indices are natural numbers. A `uint64` difference `idx - baseIndex` that would wrap around is larger than
every slice length, and the code only ever compares such a difference with a slice length; here it is the case `idx <
baseIndex` of `entryAt`.

Node identifiers are an arbitrary type; the empty string in `VotedFor` and `leaderID` is `none`. `Command` is `any`:
`none` is its nil.
-/

namespace Raft

/-- What the code asks of a `[]byte`. -/
class ByteSlice (δ : Type) where
  len : δ → Nat
  isNil : δ → Bool

inductive NodeState where
  | follower | candidate | leader
deriving DecidableEq, Repr

structure LogEntry (κ : Type) where
  index : Nat
  term : Nat
  command : Option κ
deriving DecidableEq, Repr

/-- The two settings the modelled code reads. -/
structure Config where
  maxEntriesPerAppend : Nat
  snapshotThreshold : Nat
deriving DecidableEq, Repr

/-- `Restore` fails without touching the state machine. -/
structure StateMachine (κ σ δ : Type) where
  apply : σ → LogEntry κ → σ
  snapshot : σ → Option δ
  restore : σ → δ → Option σ

/-- A load that returns an error is `none`; `SaveSnapshot` also says whether it succeeded. Errors of
`SaveState` and `SaveLog` are only logged by the node (`node.go:689-704`). -/
structure Storage (ι κ δ S : Type) where
  saveState : S → Nat → Option ι → S
  loadState : S → Option (Nat × Option ι)
  saveLog : S → List (LogEntry κ) → S
  loadLog : S → Option (List (LogEntry κ))
  saveSnapshot : S → Nat → Nat → δ → S × Bool
  loadSnapshot : S → Option (Nat × Nat × δ)

/-- What a node is built from: its state machine, the state that machine starts in, and a storage
backend. -/
structure Env (ι κ σ δ S : Type) where
  fsm : StateMachine κ σ δ
  fresh : σ
  storage : Storage ι κ δ S

/-! ## Messages -/

structure RequestVoteRequest (ι : Type) where
  term : Nat
  candidateID : ι
  lastLogIndex : Nat
  lastLogTerm : Nat
deriving DecidableEq, Repr

structure RequestVoteResponse where
  term : Nat
  voteGranted : Bool
deriving DecidableEq, Repr

structure AppendEntriesRequest (ι κ : Type) where
  term : Nat
  leaderID : ι
  prevLogIndex : Nat
  prevLogTerm : Nat
  entries : List (LogEntry κ)
  leaderCommit : Nat
deriving DecidableEq, Repr

structure AppendEntriesResponse where
  term : Nat
  success : Bool
  conflictIndex : Nat
  conflictTerm : Nat
deriving DecidableEq, Repr

structure InstallSnapshotRequest (ι δ : Type) where
  term : Nat
  leaderID : ι
  lastIncludedIndex : Nat
  lastIncludedTerm : Nat
  data : δ
  done : Bool
deriving DecidableEq, Repr

structure InstallSnapshotResponse where
  term : Nat
  success : Bool
deriving DecidableEq, Repr

/-! ## The node -/

/-- The heartbeat goroutine: `heartbeatRunning` is false exactly when it is `off`. Between the read
that makes it return and its deferred `Store(false)` it is `returning` (`node.go:379-392`). -/
inductive Heartbeat where
  | off | running | returning
deriving DecidableEq, Repr

/-- `votesReceived` is the counter the goroutines of the current candidacy share (`node.go:300`);
those of an earlier candidacy return before they touch theirs (`node.go:327`).

The last three fields are histories: the terms in which `becomeLeader` ran, the entries passed to
`fsm.Apply`, and the entries `advanceCommitIndex` marked committed. -/
structure Node (ι κ σ S : Type) where
  id : ι
  currentTerm : Nat
  votedFor : Option ι
  log : List (LogEntry κ)
  commitIndex : Nat
  lastApplied : Nat
  nextIndex : ι → Option Nat
  matchIndex : ι → Option Nat
  lastSnapshotIndex : Nat
  lastSnapshotTerm : Nat
  state : NodeState
  leaderID : Option ι
  peers : List ι
  heartbeat : Heartbeat
  fsm : σ
  storage : Option S
  config : Config
  votesReceived : Nat
  ledTerms : List Nat
  applied : List (LogEntry κ)
  committed : List (LogEntry κ)

/-! ## Log access -/

section Log
variable {κ : Type}

def baseIndex (log : List (LogEntry κ)) : Nat := (log.head?.map (·.index)).getD 0

def lastLogIndex (log : List (LogEntry κ)) : Nat := (log.getLast?.map (·.index)).getD 0

def lastLogTerm (log : List (LogEntry κ)) : Nat := (log.getLast?.map (·.term)).getD 0

/-- The entry at offset `idx - base`, if that offset is inside the slice. -/
def entryFrom (base : Nat) (log : List (LogEntry κ)) (idx : Nat) : Option (LogEntry κ) :=
  if base ≤ idx then log[idx - base]? else none

def entryAt (log : List (LogEntry κ)) (idx : Nat) : Option (LogEntry κ) := entryFrom (baseIndex log) log idx

/-- The entry that marks a snapshot boundary. -/
def boundary (index term : Nat) : LogEntry κ := { index, term, command := none }

end Log

end Raft
