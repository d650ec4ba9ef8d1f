import Mathlib.Data.List.Perm.Basic
import ApiCerberus.Lib.Text
import ApiCerberus.Lib.Transition

/-!
# Running the steps of a plan

`ExecuteParallel` (`internal/federation/executor.go:558-651`) and `mergeResult` (521-555). `Exec.commit` is what is done
with the outcome of a step.

`executeStep` is a parameter: what it returns for a step and the data of its dependencies, as far as one can see it from
map to map.

The data of a step is a map that stays in two places: among the completed steps, for the steps that depend on it, and in
the result, where later steps write into it. So maps are cells of a heap. A cell has the name of the step it came with:
the maps in the data of a step, and those that `mergeResult` makes on its way for it. Arrays are not looked into and are
leaves; `nil` is an empty map.

In `executeParallel` a step is one access to a shared map, or what is done under the lock.
-/

namespace Federation.Executor

open Transition

/-- What the executor reads of a step. -/
structure PlanStep where
  id : Text
  path : List Text
  deriving DecidableEq

structure Plan where
  steps : List PlanStep
  /-- An ID that is not in the map has no dependencies. -/
  dependsOn : Text → List Text

/-! ## Data -/

/-- What a subgraph answers. -/
inductive Tree (α : Type*)
  | leaf (a : α)
  | node (fields : List (Text × Tree α))

/-- The data of an object. -/
abbrev Fields (α : Type*) := List (Text × Tree α)

/-- What stands at the end of a path. -/
inductive Shape (α : Type*)
  | leaf (a : α)
  | node
  deriving DecidableEq

/-- The objects that there are: the result, those made on the way, and those in the data of a step. -/
inductive Ref
  | result
  | made (step : Text) (place : List Text)
  | data (step : Text) (place : List Text)
  deriving DecidableEq

inductive Value (α : Type*)
  | leaf (a : α)
  | ref (r : Ref)

abbrev Record (α : Type*) := Text → Option (Value α)

abbrev Heap (α : Type*) := Ref → Record α

variable {α : Type*}

namespace Tree

def get : Tree α → Text → Option (Tree α)
  | .leaf _, _ => none
  | .node fields, k => (fields.find? fun f => f.1 = k).map Prod.snd

/-- What stands at a path. -/
def at? : Tree α → List Text → Option (Tree α)
  | t, [] => some t
  | t, k :: p => (t.get k).bind fun t => at? t p

/-- What the map at a place of the data of a step has in it. -/
def record (t : Tree α) (step : Text) (place : List Text) : Record α := fun k =>
  (t.at? (place ++ [k])).map fun
    | .leaf a => .leaf a
    | .node _ => .ref (.data step (place ++ [k]))

end Tree

namespace Heap

variable (heap : Heap α)

/-- What is seen at a path from a value. -/
def look : Value α → List Text → Option (Shape α)
  | .leaf a, [] => some (.leaf a)
  | .leaf _, _ :: _ => none
  | .ref _, [] => some .node
  | .ref r, k :: p => (heap r k).bind fun v => look v p

/-- `executeStep` has returned new maps. -/
def allocate (step : Text) (data : Tree α) : Heap α
  | .data s place => if s = step then data.record step place else heap (.data s place)
  | r => heap r

/-- `m[k] = v`. -/
def write (r : Ref) (k : Text) (v : Value α) : Heap α := fun r' k' => if r' = r ∧ k' = k then some v else heap r' k'

/-- `current[key] = make(map[string]any)` -/
def make (current : Ref) (key : Text) (new : Ref) : Heap α := fun r k =>
  if r = new then none else (heap.write current key (.ref new)) r k

/-- `for k, v := range source { target[k] = v }` -/
def copy (source target : Ref) : Heap α :=
  fun r k => if r = target then (heap source k).or (heap target k) else heap r k

/-- Down the path, for a step. It ends where a value is not a map. -/
def navigate (step : Text) : (heap : Heap α) → (current : Ref) → (place path : List Text) → Heap α × Option Ref
  | heap, current, _, [] => (heap, some current)
  | heap, current, place, key :: path =>
    match heap current key with
    | none =>
      let new := .made step (place ++ [key])
      navigate step (heap.make current key new) new (place ++ [key]) path
    | some (.ref next) => navigate step heap next (place ++ [key]) path
    | some (.leaf _) => (heap, none)

/-- The data of a step is put at its path. -/
def mergeResult (step : Text) (path : List Text) : Heap α :=
  match path.getLast? with
  | none => heap.copy (.data step []) .result
  | some lastKey =>
    match navigate step heap .result [] path.dropLast with
    | (heap, none) => heap
    | (heap, some current) =>
      match heap current lastKey with
      | some (.ref existing) => heap.copy (.data step []) existing
      | _ => heap.write current lastKey (.ref (.data step []))

end Heap

/-! ## Outcomes -/

abbrev Outcome (α : Type*) := Except Text (Fields α)

/-- What the client is told of a step that failed. -/
structure ExecutionError where
  message : Text
  path : List Text
  deriving DecidableEq

/-- `heap .result` is `Data`; the data of a completed step is its cell. -/
structure Exec (α : Type*) where
  heap : Heap α
  errors : List ExecutionError
  completed : List Text

def Exec.new : Exec α := ⟨fun _ _ => none, [], []⟩

def failure (step : PlanStep) (err : Text) : ExecutionError :=
  ⟨"step ".toList ++ step.id ++ " failed: ".toList ++ err, step.path⟩

namespace Exec

variable (ex : Exec α)

/-- What happens under the lock when a step is over. -/
def commit (step : PlanStep) : Outcome α → Exec α
  | .error err => { ex with errors := ex.errors ++ [failure step err] }
  | .ok fields =>
    { ex with
      completed := step.id :: ex.completed
      heap := (ex.heap.allocate step.id (.node fields)).mergeResult step.id step.path }

/-- The data of a step that is completed is copied for its dependents. -/
def gather (dep : Text) (depData : Record α) : Record α :=
  if dep ∈ ex.completed then fun k => (ex.heap (.data dep []) k).or (depData k) else depData

/-- What `executeStep` sees of the dependency data when it is called. -/
def view (depData : Record α) : List Text → Option (Shape α)
  | [] => some .node
  | k :: p => (depData k).bind fun v => ex.heap.look v p

end Exec

abbrev ExecuteStep (α : Type*) := PlanStep → (List Text → Option (Shape α)) → Outcome α

/-! ## In parallel -/

/-- Where the goroutine of a step has got to. -/
inductive Phase (α : Type*)
  | gathering (deps : List Text) (depData : Record α)
  | executed (outcome : Outcome α)
  | done (outcome : Outcome α)

structure Routine (α : Type*) where
  step : PlanStep
  phase : Phase α

/-- Where the loop is. It returns the result, or `deadlock detected: unable to execute remaining steps`. -/
inductive Main
  | scanning
  | spawning (executable : List PlanStep)
  | waiting
  | returned (deadlock : Bool)
  deriving DecidableEq

/-- The loop, and its goroutines. -/
structure State (α : Type*) where
  pending : List PlanStep
  inProgress : List Text
  exec : Exec α
  /-- In the order in which they were started. -/
  routines : List (Routine α)
  main : Main

def Routine.outcome? (r : Routine α) : Option (Outcome α) :=
  match r.phase with
  | .done outcome => some outcome
  | _ => none

/-- A step may be started when all that it depends on is completed. -/
def State.canExecute (plan : Plan) (s : State α) (step : PlanStep) : Bool :=
  step.id ∉ s.inProgress ∧ ∀ dep ∈ plan.dependsOn step.id, dep ∈ s.exec.completed

def State.executable (plan : Plan) (s : State α) : List PlanStep := s.pending.filter (s.canExecute plan)

inductive Action (α : Type*)
  /-- The steps that can be executed, in the order in which the map gives them. -/
  | scan (executable : List PlanStep)
  | spawn
  | wait
  | gather (i : Nat)
  | execute (i : Nat) (outcome : Outcome α)
  | commit (i : Nat)

/-- One critical section, of the loop or of a goroutine. -/
def step (plan : Plan) (s : State α) : Action α → Option (State α)
  | .scan executable =>
    if s.main = .scanning then
      if s.pending = [] then some { s with main := .returned false }
      else if executable.Perm (s.executable plan) then
        if executable = [] then some { s with main := .returned (s.inProgress = []) }
        else some { s with main := .spawning executable }
      else none
    else none
  | .spawn =>
    match s.main with
    | .spawning (step :: executable) =>
      some { s with
        main := .spawning executable
        inProgress := step.id :: s.inProgress
        routines := s.routines ++ [⟨step, .gathering (plan.dependsOn step.id) fun _ => none⟩] }
    | .spawning [] => some { s with main := .waiting }
    | _ => none
  | .wait => if s.main = .waiting ∧ ∀ r ∈ s.routines, r.outcome?.isSome then some { s with main := .scanning } else none
  | .gather i =>
    match s.routines[i]? with
    | some ⟨step, .gathering (dep :: deps) depData⟩ =>
      some { s with routines := s.routines.set i ⟨step, .gathering deps (s.exec.gather dep depData)⟩ }
    | _ => none
  | .execute i outcome =>
    match s.routines[i]? with
    | some ⟨step, .gathering [] _⟩ => some { s with routines := s.routines.set i ⟨step, .executed outcome⟩ }
    | _ => none
  | .commit i =>
    match s.routines[i]? with
    | some ⟨step, .executed outcome⟩ =>
      some { s with
        exec := s.exec.commit step outcome
        inProgress := s.inProgress.filter fun id => id ≠ step.id
        pending := s.pending.filter fun p => p.id ≠ step.id
        routines := s.routines.set i ⟨step, .done outcome⟩ }
    | _ => none

/-- `pendingSteps[step.ID] = step`, for each of them. -/
def pendingSteps (steps : List PlanStep) : List PlanStep :=
  steps.foldl (fun pending step => pending.filter (fun p => p.id ≠ step.id) ++ [step]) []

def start (plan : Plan) : State α := ⟨pendingSteps plan.steps, [], .new, [], .scanning⟩

def executeParallel (plan : Plan) : System (State α) (Action α) := ⟨fun s => s = start plan, step plan⟩

/-- The outcomes are those of `executeStep`. -/
def Follows (executeStep : ExecuteStep α) (s : State α) : Action α → Prop
  | .execute i outcome => ∀ step depData, s.routines[i]? = some ⟨step, .gathering [] depData⟩ →
      outcome = executeStep step (s.exec.view depData)
  | _ => True

end Federation.Executor
