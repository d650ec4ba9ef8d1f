import ApiCerberus.Lib.Table
import ApiCerberus.Raft.Ballots

/-!
# Storage backends, and a state machine that keeps what it is given

`InmemStorage` and `SQLiteStorage` in `internal/raft/storage.go`. The table `raft_log` is a `Table`: the rows in the
order of the primary key `idx`, in which `LoadLog` reads them; `upsert` is `INSERT OR REPLACE`. A `LoadSnapshot` that
finds no snapshot returns index 0 and no data; both callers treat that like an error (`node.go:224`, `node.go:432`), so
it is `none` here.
-/

namespace Raft

variable {ι κ δ : Type}

/-! ## In memory -/

structure Inmem (ι κ δ : Type) where
  term : Nat
  votedFor : Option ι
  log : List (LogEntry κ)
  snap : Option (Nat × Nat × δ)

def newInmem : Inmem ι κ δ := { term := 0, votedFor := none, log := [], snap := none }

/-- `SaveLog` only appends: an entry that is replaced stays. -/
def inmemStorage : Storage ι κ δ (Inmem ι κ δ) where
  saveState s term votedFor := { s with term := term, votedFor := votedFor }
  loadState s := some (s.term, s.votedFor)
  saveLog s entries := { s with log := s.log ++ entries }
  loadLog s := some s.log
  saveSnapshot s index term data := ({ s with snap := some (index, term, data) }, true)
  loadSnapshot s := s.snap

theorem inmem_keepsState : (inmemStorage : Storage ι κ δ _).KeepsState := by
  constructor <;> intros <;> rfl

theorem inmem_blank [ByteSlice δ] : (inmemStorage : Storage ι κ δ _).Blank newInmem :=
  ⟨Or.inr rfl, Or.inr rfl, fun _ _ _ h => by cases h⟩

/-! ## SQLite -/

structure LogRow (κ : Type) where
  idx : Nat
  term : Nat
  command : κ

/-- The three tables of `SQLiteStorage`. -/
structure SQLite (ι κ δ : Type) where
  currentTerm : Nat
  votedFor : Option ι
  raftLog : List (LogRow κ)
  raftSnapshot : Option (Nat × Nat × δ)

/-- A database right after `migrate`. -/
def newSQLite : SQLite ι κ δ := { currentTerm := 0, votedFor := none, raftLog := [], raftSnapshot := none }

/-- `INSERT OR REPLACE INTO raft_log`. -/
def upsert (row : LogRow κ) (rows : List (LogRow κ)) : List (LogRow κ) := Table.upsert LogRow.idx row rows

/-- The rows of one `SaveLog` transaction: it rolls back as soon as a command cannot be marshalled. -/
def saveRows (marshal : Option κ → Except String κ) : List (LogEntry κ) → List (LogRow κ) →
    Except String (List (LogRow κ))
  | [], rows => .ok rows
  | e :: entries, rows =>
    match marshal e.command with
    | .error err => .error err
    | .ok data => saveRows marshal entries (upsert { idx := e.index, term := e.term, command := data } rows)

/-- `marshal` is `json.Marshal` as `SaveLog` applies it to `Command`. -/
def sqliteStorage (marshal : Option κ → Except String κ) : Storage ι κ δ (SQLite ι κ δ) where
  saveState s term votedFor := { s with currentTerm := term, votedFor := votedFor }
  loadState s := some (s.currentTerm, s.votedFor)
  saveLog s entries :=
    match saveRows marshal entries s.raftLog with
    | .ok rows => { s with raftLog := rows }
    | .error _ => s
  loadLog s := some (s.raftLog.map fun r => { index := r.idx, term := r.term, command := some r.command })
  saveSnapshot s index term data := ({ s with raftSnapshot := some (index, term, data) }, true)
  loadSnapshot s := s.raftSnapshot

/-! ## The machine that keeps every entry -/

/-- The members of a cluster of three. -/
inductive Trio where
  | a
  | b
  | c
deriving DecidableEq

instance : Fintype Trio where
  elems := {.a, .b, .c}
  complete x := by cases x <;> decide

/-- Its state is the list of the entries applied, its snapshots are its states. -/
def recorder : StateMachine κ (List (LogEntry κ)) (List (LogEntry κ)) where
  apply s e := s ++ [e]
  snapshot s := some s
  restore _ data := some data

instance {α : Type} : ByteSlice (List α) where
  len := List.length
  isNil _ := false

def recorderEnv (ι κ : Type) : Env ι κ (List (LogEntry κ)) (List (LogEntry κ)) (Inmem ι κ (List (LogEntry κ))) where
  fsm := recorder
  fresh := []
  storage := inmemStorage

theorem recorder_boot {ι κ : Type} [DecidableEq ι] {members : List ι} (hnd : members.Nodup)
    (hall : ∀ i, i ∈ members) (config : Config) :
    Cluster.Init (recorderEnv ι κ) (boot (recorderEnv ι κ) members config (some newInmem)) :=
  boot_init hnd hall fun s hs => by cases hs; exact inmem_blank

end Raft
