import ApiCerberus.Federation.Executor
import Mathlib.Algebra.Order.Ring.Nat
import Mathlib.Data.Fintype.Order
import Mathlib.Data.Prod.Lex
import Mathlib.Order.WellFoundedSet

/-!
# Parallel execution is complete and ordered

The loop starts the steps whose dependencies have completed, waits for all of them, and looks again. So between two
rounds nothing is in progress, and a round that finds nothing to start ends in the deadlock error.

`executeParallel_complete`: it ends; a step runs at most once, and only after all its dependencies have succeeded; and
the error comes iff some step depends on one that is missing, that failed or that depends on itself.
-/

namespace Federation.Executor

open Transition Relation

variable {α : Type*} {plan : Plan} {s t : State α} {a : Action α}

/-- The steps that were started, and what came of them. -/
def State.progress (s : State α) : List (PlanStep × Option (Outcome α)) := s.routines.map fun r => (r.step, r.outcome?)

/-! ## What one access changes -/

section Progress

variable {i : Nat} {P : List (PlanStep × Option (Outcome α))} {st st' : PlanStep} {outcome : Outcome α}
  {o : Option (Outcome α)}

theorem map_set_same {β γ : Type*} {l : List γ} {x y : γ} {f : γ → β} (h : l[i]? = some x) (hsame : f y = f x) :
    (l.set i y).map f = l.map f := by
  refine List.ext_getElem? fun j => ?_
  rw [List.getElem?_map, List.getElem?_map, List.getElem?_set]
  split
  · rename_i hij
    subst hij
    split
    · simp [h, hsame]
    · rename_i hlt
      simp [List.getElem?_eq_none (Nat.not_lt.1 hlt)]
  · rfl

theorem index_unique {β : Type*} {l : List (PlanStep × β)} (hnodup : (l.map Prod.fst).Nodup) {j : Nat} {x y : β}
    (h : l[i]? = some (st, x)) (h' : l[j]? = some (st, y)) : i = j := by
  refine (List.getElem?_inj (by simpa using (List.getElem?_eq_some_iff.1 h).1) hnodup).1 ?_
  simp [h, h']

theorem outcome_unique {β : Type*} {l : List (PlanStep × β)} (hnodup : (l.map Prod.fst).Nodup)
    {x y : β} (h : (st, x) ∈ l)
    (h' : (st, y) ∈ l) : x = y := by
  obtain ⟨i, hi⟩ := List.mem_iff_getElem?.1 h
  obtain ⟨j, hj⟩ := List.mem_iff_getElem?.1 h'
  obtain rfl := index_unique hnodup hi hj
  rw [hi] at hj
  cases hj
  rfl

/-- What is known after a step has finished. -/
theorem mem_set_iff (hnodup : (P.map Prod.fst).Nodup) (h : P[i]? = some (st, none)) :
    (st', o) ∈ P.set i (st, some outcome) ↔ st' = st ∧ o = some outcome ∨ st' ≠ st ∧ (st', o) ∈ P := by
  have hlt : i < P.length := (List.getElem?_eq_some_iff.1 h).1
  rw [List.mem_iff_getElem?]
  constructor
  · rintro ⟨j, hj⟩
    rw [List.getElem?_set] at hj
    split at hj
    · cases hj
      exact .inl ⟨rfl, rfl⟩
    · rename_i hij
      refine .inr ⟨?_, List.mem_of_getElem? hj⟩
      rintro rfl
      exact hij (index_unique hnodup h hj)
  · rintro (⟨rfl, rfl⟩ | ⟨hne, hmem⟩)
    · exact ⟨i, by simp [hlt]⟩
    · obtain ⟨j, hj⟩ := List.mem_iff_getElem?.1 hmem
      refine ⟨j, ?_⟩
      rw [List.getElem?_set_ne, hj]
      rintro rfl
      rw [h] at hj
      exact hne (by cases hj; rfl)

end Progress

section Routines

variable {i : Nat} {r : Routine α} {phase : Phase α}

/-- A routine that goes on, up to the lock. -/
def State.advance (s : State α) (i : Nat) (st : PlanStep) (phase : Phase α) : State α :=
  { s with routines := s.routines.set i ⟨st, phase⟩ }

theorem progress_advance (hget : s.routines[i]? = some r)
    (hsame : (⟨r.step, phase⟩ : Routine α).outcome? = r.outcome?) :
    (s.advance i r.step phase).progress = s.progress :=
  map_set_same hget (by rw [hsame])

/-- With one more routine. -/
def State.spawned (s : State α) (plan : Plan) (st : PlanStep) (todo : List PlanStep) : State α :=
  { s with
    main := .spawning todo
    inProgress := st.id :: s.inProgress
    routines := s.routines ++ [⟨st, .gathering (plan.dependsOn st.id) fun _ => none⟩] }

theorem progress_spawned (plan : Plan) (st : PlanStep) (todo : List PlanStep) :
    (s.spawned plan st todo).progress = s.progress ++ [(st, none)] := by
  simp [State.spawned, State.progress, Routine.outcome?]

/-- After the lock. -/
def State.committed (s : State α) (i : Nat) (st : PlanStep) (outcome : Outcome α) : State α :=
  { s with
    exec := s.exec.commit st outcome
    inProgress := s.inProgress.filter fun id => id ≠ st.id
    pending := s.pending.filter fun p => p.id ≠ st.id
    routines := s.routines.set i ⟨st, .done outcome⟩ }

theorem progress_committed (i : Nat) (st : PlanStep) (outcome : Outcome α) :
    (s.committed i st outcome).progress = s.progress.set i (st, some outcome) := by
  rw [State.progress, State.committed, List.map_set]
  rfl

theorem progress_executed {st : PlanStep} {outcome : Outcome α} (hget : s.routines[i]? = some ⟨st, .executed outcome⟩) :
    s.progress[i]? = some (st, none) := by
  simp [State.progress, hget, Routine.outcome?]

/-- All that `step` does. -/
inductive Moves (plan : Plan) (s : State α) : Action α → State α → Prop
  | finish {executable : List PlanStep} : s.main = .scanning → s.pending = [] →
    Moves plan s (.scan executable) { s with main := .returned false }
  | stuck : s.main = .scanning → s.pending ≠ [] → s.executable plan = [] →
    Moves plan s (.scan []) { s with main := .returned (s.inProgress = []) }
  | found {executable : List PlanStep} : s.main = .scanning → executable.Perm (s.executable plan) → executable ≠ [] →
    Moves plan s (.scan executable) { s with main := .spawning executable }
  | spawn {st : PlanStep} {todo : List PlanStep} : s.main = .spawning (st :: todo) →
    Moves plan s .spawn (s.spawned plan st todo)
  | rest : s.main = .spawning [] → Moves plan s .spawn { s with main := .waiting }
  | wait : s.main = .waiting → (∀ r ∈ s.routines, r.outcome?.isSome) → Moves plan s .wait { s with main := .scanning }
  | gather {i : Nat} {st : PlanStep} {dep : Text} {deps : List Text} {depData : Record α} :
    s.routines[i]? = some ⟨st, .gathering (dep :: deps) depData⟩ →
    Moves plan s (.gather i) (s.advance i st (.gathering deps (s.exec.gather dep depData)))
  | execute {i : Nat} {st : PlanStep} {depData : Record α}
    {outcome : Outcome α} : s.routines[i]? = some ⟨st, .gathering [] depData⟩ →
    Moves plan s (.execute i outcome) (s.advance i st (.executed outcome))
  | commit {i : Nat} {st : PlanStep} {outcome : Outcome α} : s.routines[i]? = some ⟨st, .executed outcome⟩ →
    Moves plan s (.commit i) (s.committed i st outcome)

/-- All that a step may do. -/
theorem step_moves (h : step plan s a = some t) : Moves plan s a t := by
  cases a with
  | scan executable =>
    obtain ⟨hmain, h⟩ := Option.ite_none_right_eq_some.1 h
    split at h
    · rename_i hpending
      cases h
      exact .finish hmain hpending
    · rename_i hpending
      obtain ⟨hperm, h⟩ := Option.ite_none_right_eq_some.1 h
      split at h
      · rename_i hnil
        cases h
        subst hnil
        exact .stuck hmain hpending (List.nil_perm.1 hperm)
      · rename_i hsome
        cases h
        exact .found hmain hperm hsome
  | spawn =>
    simp only [Executor.step] at h
    split at h
    · rename_i hmain
      cases h
      exact .spawn hmain
    · rename_i hmain
      cases h
      exact .rest hmain
    · cases h
  | wait =>
    obtain ⟨⟨hmain, hdone⟩, h⟩ := Option.ite_none_right_eq_some.1 h
    cases h
    exact .wait hmain hdone
  | gather i =>
    simp only [Executor.step] at h
    split at h
    · rename_i hget
      cases h
      exact .gather hget
    · cases h
  | execute i outcome =>
    simp only [Executor.step] at h
    split at h
    · rename_i hget
      cases h
      exact .execute hget
    · cases h
  | commit i =>
    simp only [Executor.step] at h
    split at h
    · rename_i hget
      cases h
      exact .commit hget
    · cases h

end Routines

/-! ## Between the accesses -/

/-- What holds at each place of the loop. -/
def MainInv (plan : Plan) (s : State α) : Prop :=
  match s.main with
  | .scanning => ∀ st, (st, none) ∉ s.progress
  | .spawning todo => todo.Nodup ∧ ∀ st ∈ todo, st ∈ s.pending ∧ (∀ o, (st, o) ∉ s.progress) ∧
      ∀ d ∈ plan.dependsOn st.id, d ∈ s.exec.completed
  | .waiting => True
  | .returned deadlock => (∀ st, (st, none) ∉ s.progress) ∧
      if deadlock then s.pending ≠ [] ∧ ∀ st ∈ s.pending, ∃ d ∈ plan.dependsOn st.id, d ∉ s.exec.completed
        else s.pending = []

/-- The lists of the loop are those of the routines. -/
structure Inv (plan : Plan) (s : State α) : Prop where
  nodup : (s.progress.map Prod.fst).Nodup
  planned : ∀ st o, (st, o) ∈ s.progress → st ∈ plan.steps
  pending_nodup : s.pending.Nodup
  pending_iff : ∀ st : PlanStep, st ∈ s.pending ↔ st ∈ plan.steps ∧ ∀ outcome, (st, some outcome) ∉ s.progress
  inProgress_iff : ∀ id, id ∈ s.inProgress ↔ ∃ st : PlanStep, st.id = id ∧ (st, none) ∈ s.progress
  completed_iff : ∀ id, id ∈ s.exec.completed ↔ ∃ (st : PlanStep)
    (fields : Fields α), st.id = id ∧ (st, some (.ok fields)) ∈ s.progress
  ordered : ∀ (i : Nat) (st : PlanStep) o, s.progress[i]? = some (st, o) → ∀ d ∈ plan.dependsOn st.id,
    ∃ (j : Nat) (st' : PlanStep) (fields : Fields α), j < i ∧ st'.id = d ∧
      s.progress[j]? = some (st', some (.ok fields))
  main : MainInv plan s

theorem pendingSteps_eq {steps : List PlanStep} (h : (steps.map PlanStep.id).Nodup) : pendingSteps steps = steps := by
  have hfold : ∀ (steps acc : List PlanStep), (steps.map PlanStep.id).Nodup → (∀ st ∈ steps, ∀ p ∈ acc, p.id ≠ st.id) →
      steps.foldl (fun pending step => pending.filter (fun p => p.id ≠ step.id) ++ [step]) acc = acc ++ steps := by
    intro steps
    induction steps with
    | nil => simp
    | cons st steps ih =>
      intro acc hnodup hacc
      rw [List.map_cons, List.nodup_cons] at hnodup
      have hkeep : acc.filter (fun p => p.id ≠ st.id) = acc := by
        simpa using fun p hp => hacc st List.mem_cons_self p hp
      rw [List.foldl_cons, hkeep, ih _ hnodup.2, List.append_assoc, List.singleton_append]
      intro st' hst' p hp
      rcases List.mem_append.1 hp with hp | hp
      · exact hacc st' (List.mem_cons_of_mem _ hst') p hp
      · rw [List.mem_singleton.1 hp]
        exact fun heq => hnodup.1 (heq ▸ List.mem_map_of_mem hst')
  simpa [pendingSteps] using hfold steps [] h (by simp)

/-- When the loop looks for steps to start, nothing is in progress. -/
theorem Inv.idle (hs : Inv plan s) (hmain : s.main = .scanning) : ∀ st, (st, none) ∉ s.progress := by
  have hinv := hs.main
  rwa [MainInv, hmain] at hinv

theorem Inv.inProgress_eq_nil (hs : Inv plan s) (hmain : s.main = .scanning) : s.inProgress = [] := by
  refine List.eq_nil_iff_forall_not_mem.2 fun id hid => ?_
  obtain ⟨st, -, hprogress⟩ := (hs.inProgress_iff id).1 hid
  exact hs.idle hmain st hprogress

theorem Inv.mem_executable (hs : Inv plan s) (hmain : s.main = .scanning) {st : PlanStep} :
    st ∈ s.executable plan ↔ st ∈ s.pending ∧ ∀ d ∈ plan.dependsOn st.id, d ∈ s.exec.completed := by
  rw [State.executable, List.mem_filter]
  simp [State.canExecute, hs.inProgress_eq_nil hmain]

/-- No step can be started. -/
theorem Inv.stuck (hs : Inv plan s) (hmain : s.main = .scanning) (hpending : s.pending ≠ [])
    (hnone : s.executable plan = []) :
    Inv plan { s with main := .returned (s.inProgress = []) } := by
  refine { hs with main := ⟨hs.idle hmain, ?_⟩ }
  rw [if_pos (by simpa using hs.inProgress_eq_nil hmain)]
  refine ⟨hpending, fun st hst => ?_⟩
  by_contra hall
  push Not at hall
  have hmem := (hs.mem_executable hmain).2 ⟨hst, hall⟩
  rw [hnone] at hmem
  cases hmem

theorem Inv.found {executable : List PlanStep} (hs : Inv plan s) (hmain : s.main = .scanning)
    (hperm : executable.Perm (s.executable plan)) :
    Inv plan { s with main := .spawning executable } := by
  refine { hs with main := ⟨hperm.nodup_iff.2 (hs.pending_nodup.filter _), fun st hst => ?_⟩ }
  obtain ⟨hpending, hdeps⟩ := (hs.mem_executable hmain).1 (hperm.mem_iff.1 hst)
  refine ⟨hpending, fun o ho => ?_, hdeps⟩
  cases o with
  | none => exact hs.idle hmain st ho
  | some outcome => exact ((hs.pending_iff st).1 hpending).2 outcome ho

theorem Inv.advance {i : Nat} {r : Routine α} {phase : Phase α} (hs : Inv plan s) (hget : s.routines[i]? = some r)
    (hsame : (⟨r.step, phase⟩ : Routine α).outcome? = r.outcome?) : Inv plan (s.advance i r.step phase) := by
  have hprogress := progress_advance hget hsame
  have hmain := hs.main
  unfold MainInv at hmain
  rw [← hprogress] at hmain
  exact {
    nodup := hprogress ▸ hs.nodup
    planned := hprogress ▸ hs.planned
    pending_nodup := hs.pending_nodup
    pending_iff := hprogress ▸ hs.pending_iff
    inProgress_iff := hprogress ▸ hs.inProgress_iff
    completed_iff := hprogress ▸ hs.completed_iff
    ordered := hprogress ▸ hs.ordered
    main := hmain }

theorem mem_spawned {st st' : PlanStep} {todo : List PlanStep} {o : Option (Outcome α)} :
    (st', o) ∈ (s.spawned plan st todo).progress ↔ (st', o) ∈ s.progress ∨ st' = st ∧ o = none := by
  rw [progress_spawned, List.mem_append, List.mem_singleton, Prod.mk.injEq]

/-- A step is started at most once. -/
theorem Inv.spawn {st : PlanStep} {todo : List PlanStep} (hs : Inv plan s) (hmain : s.main = .spawning (st :: todo)) :
    Inv plan (s.spawned plan st todo) := by
  obtain ⟨htodo, hall⟩ : (st :: todo).Nodup ∧ _ := by
    have hinv := hs.main
    rwa [MainInv, hmain] at hinv
  obtain ⟨hpending, hfresh, hdeps⟩ := hall st List.mem_cons_self
  rw [List.nodup_cons] at htodo
  refine ⟨?_, ?_, hs.pending_nodup, ?_, ?_, ?_, ?_, ?_⟩
  · rw [progress_spawned, List.map_append, List.nodup_append]
    refine ⟨hs.nodup, by simp, ?_⟩
    rintro x hx y hy rfl
    obtain ⟨⟨x, o⟩, hmem, rfl⟩ := List.mem_map.1 hx
    simp only [List.map_cons, List.map_nil, List.mem_singleton] at hy
    subst hy
    exact hfresh o hmem
  · intro st' o h
    rcases mem_spawned.1 h with h | ⟨rfl, -⟩
    · exact hs.planned st' o h
    · exact ((hs.pending_iff st').1 hpending).1
  · intro st'
    exact (hs.pending_iff st').trans (by simp [mem_spawned])
  · intro id
    refine (List.mem_cons.trans (or_congr_right (hs.inProgress_iff id))).trans ?_
    constructor
    · rintro (rfl | ⟨st', hid, hmem⟩)
      · exact ⟨st, rfl, mem_spawned.2 (.inr ⟨rfl, rfl⟩)⟩
      · exact ⟨st', hid, mem_spawned.2 (.inl hmem)⟩
    · rintro ⟨st', hid, hmem⟩
      rcases mem_spawned.1 hmem with hmem | ⟨rfl, -⟩
      · exact .inr ⟨st', hid, hmem⟩
      · exact .inl hid.symm
  · intro id
    exact (hs.completed_iff id).trans (by simp [mem_spawned])
  · intro i st' o h d hd
    rw [progress_spawned] at h ⊢
    rw [List.getElem?_append] at h
    split at h
    · obtain ⟨j, st'', fields, hj, hid, hget⟩ := hs.ordered i st' o h d hd
      exact ⟨j, st'', fields, hj, hid, by rw [List.getElem?_append_left (by omega), hget]⟩
    · -- It is the one that starts: what it depends on has completed.
      rename_i hlt
      obtain ⟨rfl, rfl⟩ : st' = st ∧ o = none := by simpa using List.mem_of_getElem? h
      obtain ⟨st'', fields, hid, hmem⟩ := (hs.completed_iff d).1 (hdeps d hd)
      obtain ⟨j, hj⟩ := List.mem_iff_getElem?.1 hmem
      have hjlt : j < s.progress.length := (List.getElem?_eq_some_iff.1 hj).1
      exact ⟨j, st'', fields, by omega, hid, by rw [List.getElem?_append_left hjlt, hj]⟩
  · refine ⟨htodo.2, fun st' hst' => ?_⟩
    obtain ⟨hpending', hfresh', hdeps'⟩ := hall st' (List.mem_cons_of_mem _ hst')
    refine ⟨hpending', fun o ho => ?_, hdeps'⟩
    rcases mem_spawned.1 ho with ho | ⟨rfl, -⟩
    · exact hfresh' o ho
    · exact htodo.1 hst'

section Commit

variable {i : Nat} {st : PlanStep} {outcome : Outcome α} (hs : Inv plan s)
  (hget : s.routines[i]? = some ⟨st, .executed outcome⟩)

include hs hget

theorem Inv.mem_committed {st' : PlanStep} {o : Option (Outcome α)} :
    (st', o) ∈ (s.committed i st outcome).progress ↔ st' = st ∧ o = some outcome ∨ st' ≠ st ∧
      (st', o) ∈ s.progress := by
  rw [progress_committed]
  exact mem_set_iff hs.nodup (progress_executed hget)

theorem Inv.ne_of_finished {st' : PlanStep} {outcome' : Outcome α}
    (h : (st', some outcome') ∈ s.progress) : st' ≠ st := by
  rintro rfl
  cases outcome_unique hs.nodup h (List.mem_of_getElem? (progress_executed hget))

theorem Inv.ordered_committed {k : Nat} {st' : PlanStep} {o : Option (Outcome α)}
    (h : (s.committed i st outcome).progress[k]? = some (st', o)) {d : Text} (hd : d ∈ plan.dependsOn st'.id) :
    ∃ (j : Nat) (st'' : PlanStep) (fields : Fields α), j < k ∧ st''.id = d ∧
      (s.committed i st outcome).progress[j]? = some (st'', some (.ok fields)) := by
  have hbefore := progress_executed hget
  rw [progress_committed] at h ⊢
  obtain ⟨o', h⟩ : ∃ o', s.progress[k]? = some (st', o') := by
    rw [List.getElem?_set] at h
    split at h
    · rename_i hik
      subst hik
      rw [if_pos (List.getElem?_eq_some_iff.1 hbefore).1] at h
      cases h
      exact ⟨none, hbefore⟩
    · exact ⟨o, h⟩
  obtain ⟨j, st'', fields, hj, hdep, hjget⟩ := hs.ordered k st' o' h d hd
  refine ⟨j, st'', fields, hj, hdep, ?_⟩
  rw [List.getElem?_set_ne, hjget]
  rintro rfl
  rw [hbefore] at hjget
  cases hjget

end Commit

theorem mem_completed_commit {ex : Exec α} {st : PlanStep} {outcome : Outcome α} {id : Text} :
    id ∈ (ex.commit st outcome).completed ↔ id ∈ ex.completed ∨ id = st.id ∧ ∃ fields, outcome = .ok fields := by
  cases outcome with
  | error err => simp [Exec.commit]
  | ok fields => simp [Exec.commit, or_comm]

section Step

variable (hids : (plan.steps.map PlanStep.id).Nodup)

include hids

theorem id_unique {st st' : PlanStep} (h : st ∈ plan.steps) (h' : st' ∈ plan.steps) (heq : st.id = st'.id) : st = st' :=
  List.inj_on_of_nodup_map hids h h' heq

theorem Inv.start : Inv plan (start plan : State α) := by
  refine ⟨List.nodup_nil, ?_, ?_, ?_, ?_, ?_, ?_, ?_⟩
  · exact fun st o h => (nomatch h)
  · rw [Executor.start, pendingSteps_eq hids]
    exact hids.of_map
  · intro st
    simp [Executor.start, pendingSteps_eq hids, State.progress]
  · intro id
    simp [Executor.start, State.progress]
  · intro id
    simp [Executor.start, State.progress, Exec.new]
  · intro i st o h
    simp [Executor.start, State.progress] at h
  · intro st h
    simp [Executor.start, State.progress] at h

section Commit

variable {i : Nat} {st : PlanStep} {outcome : Outcome α} (hs : Inv plan s)
  (hget : s.routines[i]? = some ⟨st, .executed outcome⟩)

include hs hget

theorem Inv.id_ne {st' : PlanStep} (hst' : st' ∈ plan.steps) (hne : st' ≠ st) : st'.id ≠ st.id := fun heq =>
  hne (id_unique hids hst' (hs.planned st none (List.mem_of_getElem? (progress_executed hget))) heq)

theorem Inv.main_committed : MainInv plan (s.committed i st outcome) := by
  have hbusy : (st, none) ∈ s.progress := List.mem_of_getElem? (progress_executed hget)
  have hmain := hs.main
  unfold MainInv at hmain ⊢
  rw [show (s.committed i st outcome).main = s.main from rfl]
  split
  · rename_i heq
    rw [heq] at hmain
    exact absurd hbusy (hmain st)
  · rename_i todo heq
    rw [heq] at hmain
    refine ⟨hmain.1, fun st' hst' => ?_⟩
    obtain ⟨hpending, hfresh, hdeps⟩ := hmain.2 st' hst'
    have hne : st' ≠ st := by
      rintro rfl
      exact hfresh none hbusy
    refine ⟨?_, fun o ho => ?_, fun d hd => mem_completed_commit.2 (.inl (hdeps d hd))⟩
    · exact List.mem_filter.2 ⟨hpending, by simpa using hs.id_ne hids hget ((hs.pending_iff st').1 hpending).1 hne⟩
    · rcases (hs.mem_committed hget).1 ho with ⟨rfl, -⟩ | ⟨-, ho⟩
      · exact hne rfl
      · exact hfresh o ho
  · trivial
  · rename_i heq
    rw [heq] at hmain
    exact absurd hbusy (hmain.1 st)

/-- Under the lock. -/
theorem Inv.commit : Inv plan (s.committed i st outcome) := by
  have hbefore := progress_executed hget
  have hmem : ∀ {st' o}, (st', o) ∈ (s.committed i st outcome).progress ↔ _ := hs.mem_committed hget
  refine ⟨?_, ?_, hs.pending_nodup.filter _, ?_, ?_, ?_, fun k st' o h d hd => hs.ordered_committed hget h hd,
    hs.main_committed hids hget⟩
  · rw [progress_committed, map_set_same (f := Prod.fst) (y := (st, some outcome)) hbefore rfl]
    exact hs.nodup
  · intro st' o h
    rcases hmem.1 h with ⟨rfl, -⟩ | ⟨-, h⟩
    · exact hs.planned st' none (List.mem_of_getElem? hbefore)
    · exact hs.planned st' o h
  · intro st'
    refine (List.mem_filter.trans (and_congr (hs.pending_iff st') decide_eq_true_iff)).trans ?_
    constructor
    · rintro ⟨⟨hst', hnot⟩, hne⟩
      refine ⟨hst', fun o ho => ?_⟩
      rcases hmem.1 ho with ⟨rfl, -⟩ | ⟨-, ho⟩
      · exact hne rfl
      · exact hnot o ho
    · rintro ⟨hst', hnot⟩
      have hne : st' ≠ st := by
        rintro rfl
        exact hnot outcome (hmem.2 (.inl ⟨rfl, rfl⟩))
      exact ⟨⟨hst', fun o ho => hnot o (hmem.2 (.inr ⟨hne, ho⟩))⟩, hs.id_ne hids hget hst' hne⟩
  · intro id
    refine (List.mem_filter.trans (and_congr (hs.inProgress_iff id) decide_eq_true_iff)).trans ?_
    constructor
    · rintro ⟨⟨st', rfl, h⟩, hne⟩
      refine ⟨st', rfl, hmem.2 (.inr ⟨?_, h⟩)⟩
      rintro rfl
      exact hne rfl
    · rintro ⟨st', rfl, h⟩
      rcases hmem.1 h with ⟨-, h⟩ | ⟨hne, h⟩
      · cases h
      · exact ⟨⟨st', rfl, h⟩, hs.id_ne hids hget (hs.planned st' _ h) hne⟩
  · intro id
    refine (mem_completed_commit.trans (or_congr_left (hs.completed_iff id))).trans ?_
    constructor
    · rintro (⟨st', fields, rfl, h⟩ | ⟨rfl, fields, rfl⟩)
      · exact ⟨st', fields, rfl, hmem.2 (.inr ⟨hs.ne_of_finished hget h, h⟩)⟩
      · exact ⟨st, fields, rfl, hmem.2 (.inl ⟨rfl, rfl⟩)⟩
    · rintro ⟨st', fields, rfl, h⟩
      rcases hmem.1 h with ⟨rfl, heq⟩ | ⟨-, hold⟩
      · exact .inr ⟨rfl, fields, (Option.some.inj heq).symm⟩
      · exact .inl ⟨st', fields, rfl, hold⟩

end Commit

theorem Inv.step (hs : Inv plan s) (h : step plan s a = some t) : Inv plan t := by
  cases step_moves h with
  | finish hmain hpending => exact { hs with main := ⟨hs.idle hmain, hpending⟩ }
  | stuck hmain hpending hnone => exact hs.stuck hmain hpending hnone
  | found hmain hperm _ => exact hs.found hmain hperm
  | spawn hmain => exact hs.spawn hmain
  | rest => exact { hs with main := trivial }
  | wait _ hdone =>
    refine { hs with main := fun st hst => ?_ }
    obtain ⟨r, hr, heq⟩ := List.mem_map.1 hst
    have hsome := hdone r hr
    cases heq' : r.outcome? with
    | none => simp [heq'] at hsome
    | some o => simp [heq'] at heq
  | gather hget => exact hs.advance hget rfl
  | execute hget => exact hs.advance hget rfl
  | commit hget => exact hs.commit hids hget

theorem inv_of_reach (h : Reach (executeParallel plan) (fun _ _ => True) s) : Inv plan s := by
  refine Reach.invariant (P := Inv plan) ?_ (fun s a t _ hs _ hstep => hs.step hids hstep) h
  rintro s rfl
  exact .start hids

end Step

/-! ## It ends -/

/-- The sections that a routine still has before it. -/
def Routine.work (r : Routine α) : Nat :=
  match r.phase with
  | .gathering deps _ => deps.length + 2
  | .executed _ => 1
  | .done _ => 0

def State.work (plan : Plan) (s : State α) : Nat :=
  (s.routines.map Routine.work).sum +
    match s.main with
    | .spawning todo => (todo.map fun st => (plan.dependsOn st.id).length + 3).sum
    | _ => 0

/-- A routine is not done. -/
def State.busy (s : State α) : Bool := s.progress.any fun r => r.2.isNone

/-- A round goes from `scanning` to where nothing is in progress any more; then there are fewer pending steps. -/
def rank : Main → (busy : Bool) → Nat
  | .returned _, _ => 0
  | .scanning, _ => 2
  | .spawning [], false => 4
  | .spawning _, _ => 1
  | .waiting, true => 0
  | .waiting, false => 3

abbrev Smaller : Nat × Nat × Nat → Nat × Nat × Nat → Prop := Prod.Lex (· < ·) (Prod.Lex (· < ·) (· < ·))

theorem wellFounded_smaller : WellFounded Smaller :=
  WellFounded.prod_lex wellFounded_lt (WellFounded.prod_lex wellFounded_lt wellFounded_lt)

/-- What every step makes smaller. -/
def State.measure (plan : Plan) (s : State α) : Nat × Nat × Nat := (s.pending.length, rank s.main s.busy, s.work plan)

theorem sum_map_set_lt {γ : Type*} {f : γ → Nat} {l : List γ} {i : Nat} {x y : γ} (h : l[i]? = some x)
    (hlt : f y < f x) :
    ((l.set i y).map f).sum < (l.map f).sum := by
  induction l generalizing i with
  | nil => cases h
  | cons z l ih =>
    cases i with
    | zero =>
      obtain rfl : z = x := by simpa using h
      simpa using hlt
    | succ i =>
      have := ih (i := i) (by simpa using h)
      simpa using this

theorem advance_smaller {i : Nat} {r : Routine α} {phase : Phase α} (hget : s.routines[i]? = some r)
    (hsame : (⟨r.step, phase⟩ : Routine α).outcome? = r.outcome?) (hlt : (⟨r.step, phase⟩ : Routine α).work < r.work) :
    Smaller ((s.advance i r.step phase).measure plan) (s.measure plan) := by
  have hbusy : (s.advance i r.step phase).busy = s.busy := by rw [State.busy, progress_advance hget hsame, State.busy]
  have hwork : (s.advance i r.step phase).work plan < s.work plan := Nat.add_lt_add_right (sum_map_set_lt hget hlt) _
  refine .right _ ?_
  rw [hbusy]
  exact .right _ hwork

/-- Every step makes the measure smaller. -/
theorem step_smaller (hs : Inv plan s) (h : step plan s a = some t) : Smaller (t.measure plan) (s.measure plan) := by
  cases step_moves h with
  | finish hmain => exact .right _ (.left _ _ (by simp [rank, hmain]))
  | stuck hmain => exact .right _ (.left _ _ (by simp [rank, hmain]))
  | @found executable hmain _ hsome =>
    refine .right _ (.left _ _ ?_)
    cases executable with
    | nil => exact absurd rfl hsome
    | cons st executable => simp [rank, hmain]
  | @spawn st todo hmain =>
    refine .right _ ?_
    have hbusy : (s.spawned plan st todo).busy = true := by
      rw [State.busy, progress_spawned]
      simp
    have hrank : rank (.spawning todo) true = rank (.spawning (st :: todo)) s.busy := by cases todo <;> simp [rank]
    rw [hbusy, hmain, ← hrank]
    refine .right _ ?_
    simp only [State.work, State.spawned, hmain, Routine.work, List.map_append, List.sum_append,
      List.map_cons, List.map_nil,
      List.sum_cons, List.sum_nil]
    omega
  | rest hmain =>
    refine .right _ (.left _ _ ?_)
    change rank .waiting s.busy < rank s.main s.busy
    rw [hmain]
    cases s.busy <;> simp [rank]
  | wait hmain hdone =>
    refine .right _ (.left _ _ ?_)
    have hbusy : s.busy = false := by
      rw [State.busy, State.progress, List.any_map, List.any_eq_false]
      intro r hr
      simpa [Option.isSome_iff_ne_none] using hdone r hr
    change rank .scanning s.busy < rank s.main s.busy
    simp [rank, hmain, hbusy]
  | gather hget => exact advance_smaller hget rfl (by simp [Routine.work])
  | execute hget => exact advance_smaller hget rfl (by simp [Routine.work])
  | @commit i st outcome hget =>
    refine .left _ _ ?_
    have hmem := List.mem_of_getElem? (progress_executed hget)
    have hpending : st ∈ s.pending := by
      refine (hs.pending_iff st).2 ⟨hs.planned st none hmem, fun o ho => ?_⟩
      cases outcome_unique hs.nodup ho hmem
    exact List.length_filter_lt_length_iff_exists.2 ⟨st, hpending, by simp⟩

/-- It never gets stuck, whatever `executeStep` is. -/
theorem exists_step (plan : Plan) (executeStep : ExecuteStep α) (s : State α) :
    (∃ deadlock, s.main = .returned deadlock) ∨ ∃ a t, Follows executeStep s a ∧ step plan s a = some t := by
  cases hmain : s.main with
  | returned deadlock => exact .inl ⟨deadlock, rfl⟩
  | scanning =>
    refine .inr ⟨.scan (s.executable plan), ?_⟩
    simp only [Executor.step, hmain, List.Perm.refl, if_true]
    split_ifs <;> exact ⟨_, trivial, rfl⟩
  | spawning todo =>
    refine .inr ⟨.spawn, ?_⟩
    cases todo <;> simp [Executor.step, hmain, Follows]
  | waiting =>
    by_cases hdone : ∀ r ∈ s.routines, r.outcome?.isSome
    · exact .inr ⟨.wait, _, trivial, if_pos ⟨hmain, hdone⟩⟩
    · push Not at hdone
      obtain ⟨⟨st, phase⟩, hr, hnone⟩ := hdone
      obtain ⟨i, hi⟩ := List.mem_iff_getElem?.1 hr
      cases phase with
      | gathering deps depData =>
        cases deps with
        | nil => exact .inr ⟨.execute i (executeStep st (s.exec.view depData)), by simp [Executor.step, hi, Follows]⟩
        | cons dep deps => exact .inr ⟨.gather i, by simp [Executor.step, hi, Follows]⟩
      | executed outcome => exact .inr ⟨.commit i, by simp [Executor.step, hi, Follows]⟩
      | done outcome => simp [Routine.outcome?] at hnone

/-! ## The deadlock error -/

def DependsOn (plan : Plan) (id dep : Text) : Prop := dep ∈ plan.dependsOn id

def Failed (s : State α) (id : Text) : Prop :=
  ∃ (st : PlanStep) (err : Text), st.id = id ∧ (st, some (.error err)) ∈ s.progress

/-- What no step can be run after. -/
def Lost (plan : Plan) (s : State α) (id : Text) : Prop :=
  id ∉ plan.steps.map PlanStep.id ∨ Failed s id ∨ TransGen (DependsOn plan) id id

theorem completed_before (hs : Inv plan s) {i : Nat} {st : PlanStep} {o : Option (Outcome α)} {d : Text}
    (h : s.progress[i]? = some (st, o)) (hdep : TransGen (DependsOn plan) st.id d) :
    ∃ (j : Nat) (st' : PlanStep) (fields : Fields α), j < i ∧ st'.id = d ∧
      s.progress[j]? = some (st', some (.ok fields)) := by
  induction hdep with
  | single hone => exact hs.ordered i st o h _ hone
  | tail _ hone ih =>
    obtain ⟨j, st', fields, hj, rfl, hget⟩ := ih
    obtain ⟨k, st'', fields', hk, hid, hget'⟩ := hs.ordered j st' _ hget _ hone
    exact ⟨k, st'', fields', by omega, hid, hget'⟩

theorem not_lost_of_started (hids : (plan.steps.map PlanStep.id).Nodup) (hs : Inv plan s) {st : PlanStep}
    {o : Option (Outcome α)} {d : Text} (h : (st, o) ∈ s.progress) (hdep : TransGen (DependsOn plan) st.id d) :
      ¬ Lost plan s d := by
  obtain ⟨i, hi⟩ := List.mem_iff_getElem?.1 h
  obtain ⟨j, st', fields, -, rfl, hj⟩ := completed_before hs hi hdep
  have hst' := hs.planned st' _ (List.mem_of_getElem? hj)
  rintro (hmissing | ⟨st'', err, hid, hfailed⟩ | hcycle)
  · exact hmissing (List.mem_map_of_mem hst')
  · obtain rfl := id_unique hids (hs.planned _ _ hfailed) hst' hid
    cases outcome_unique hs.nodup hfailed (List.mem_of_getElem? hj)
  · obtain ⟨k, st'', fields', hk, hid, hget⟩ := completed_before hs hj hcycle
    obtain rfl := id_unique hids (hs.planned _ _ (List.mem_of_getElem? hget)) hst' hid
    exact absurd (index_unique hs.nodup hget hj) (by omega)

/-- A round that finds nothing to start. Among the steps that are left, one depends on no other that is left, or some of
them depend on each other. -/
theorem exists_lost (hs : Inv plan s) (hpending : s.pending ≠ [])
    (hstuck : ∀ st ∈ s.pending, ∃ d ∈ plan.dependsOn st.id, d ∉ s.exec.completed) :
    ∃ st ∈ plan.steps, ∃ d, TransGen (DependsOn plan) st.id d ∧ Lost plan s d := by
  by_contra hno
  push Not at hno
  let r : {st // st ∈ s.pending} → {st // st ∈ s.pending} → Prop := fun x y => TransGen (DependsOn plan) y.1.id x.1.id
  have htrans : IsTrans _ r := ⟨fun x y z hxy hyz => hyz.trans hxy⟩
  have hirrefl : Std.Irrefl r := ⟨fun x hx => hno x.1 ((hs.pending_iff x.1).1 x.2).1 _ hx (.inr (.inr hx))⟩
  have hwf : WellFounded r := Finite.wellFounded_of_trans_of_irrefl r
  obtain ⟨st, hst⟩ := List.exists_mem_of_ne_nil _ hpending
  obtain ⟨⟨m, hm⟩, -, hmin⟩ := hwf.has_min Set.univ ⟨⟨st, hst⟩, trivial⟩
  obtain ⟨d, hd, hnot⟩ := hstuck m hm
  have hlost := hno m ((hs.pending_iff m).1 hm).1 d (.single hd)
  obtain ⟨hplanned, hfailed, -⟩ : d ∈ plan.steps.map PlanStep.id ∧ ¬ Failed s d ∧ _ := by
    simpa [Lost, not_or] using hlost
  obtain ⟨st', hst', rfl⟩ := List.mem_map.1 hplanned
  have hleft : st' ∈ s.pending := by
    refine (hs.pending_iff st').2 ⟨hst', fun outcome ho => ?_⟩
    cases outcome with
    | error err => exact hfailed ⟨st', err, rfl, ho⟩
    | ok fields => exact hnot ((hs.completed_iff st'.id).2 ⟨st', fields, rfl, ho⟩)
  exact hmin ⟨st', hleft⟩ trivial (.single hd)

/-- **`ExecuteParallel`** ends on every plan with unique IDs, whatever the outcomes and the order of the routines. A
step is started at most once, and only after all its dependencies have succeeded. It returns the error iff some step
depends on one that is missing, has failed or depends on itself; else every step was run. -/
theorem executeParallel_complete (plan : Plan) (hids : (plan.steps.map PlanStep.id).Nodup) :
    Terminates (executeParallel (α := α) plan) (fun _ _ => True) ∧
      ∀ s : State α, Reach (executeParallel plan) (fun _ _ => True) s →
        ((∃ deadlock, s.main = .returned deadlock) ∨ ∃ a t, step plan s a = some t) ∧
        (s.progress.map Prod.fst).Nodup ∧
        (∀ (i : Nat) (st : PlanStep) o, s.progress[i]? = some (st, o) → st ∈ plan.steps ∧ ∀ d ∈ plan.dependsOn st.id,
          ∃ (j : Nat) (st' : PlanStep) (fields : Fields α), j < i ∧ st'.id = d ∧
            s.progress[j]? = some (st', some (.ok fields))) ∧
        ∀ deadlock, s.main = .returned deadlock →
          (deadlock = true ↔ ∃ st ∈ plan.steps, ∃ d, TransGen (DependsOn plan) st.id d ∧ Lost plan s d) ∧
          (deadlock = false → ∀ st ∈ plan.steps, ∃ outcome, (st, some outcome) ∈ s.progress) := by
  refine ⟨.of_measure wellFounded_smaller (State.measure plan)
    fun s a t hr _ hstep => step_smaller (inv_of_reach hids hr) hstep, fun s hr => ?_⟩
  have hs := inv_of_reach hids hr
  have hgoes := exists_step plan (fun _ _ => .error []) s
  refine ⟨hgoes.imp_right fun ⟨a, t, _, hstep⟩ => ⟨a, t, hstep⟩, hs.nodup,
    fun i st o h => ⟨hs.planned st o (List.mem_of_getElem? h), hs.ordered i st o h⟩, ?_⟩
  intro deadlock hmain
  have hend := hs.main
  rw [MainInv, hmain] at hend
  cases deadlock with
  | true => exact ⟨⟨fun _ => exists_lost hs hend.2.1 hend.2.2, fun _ => rfl⟩, fun h => (nomatch h)⟩
  | false =>
    have hran : ∀ st ∈ plan.steps, ∃ outcome, (st, some outcome) ∈ s.progress := by
      intro st hst
      by_contra hnone
      push Not at hnone
      have hpending := (hs.pending_iff st).2 ⟨hst, hnone⟩
      rw [show s.pending = [] from hend.2] at hpending
      cases hpending
    refine ⟨⟨fun h => (nomatch h), ?_⟩, fun _ => hran⟩
    rintro ⟨st, hst, d, hdep, hlost⟩
    obtain ⟨outcome, hstarted⟩ := hran st hst
    exact absurd hlost (not_lost_of_started hids hs hstarted hdep)

/-- Two steps that depend on each other. -/
def circular : Plan := ⟨[⟨['a'], []⟩, ⟨['b'], []⟩], fun id => if id = ['a'] then [['b']] else [['a']]⟩

theorem executeParallel_complete_circular : ∃ s : State Nat, Reach (executeParallel circular) (fun _ _ => True) s ∧
    s.main = .returned true ∧ ∃ st ∈ circular.steps, ∃ d, TransGen (DependsOn circular) st.id d ∧
      Lost circular s d := by
  have hids : (circular.steps.map PlanStep.id).Nodup := by decide
  have hrun : ∃ s : State Nat, (executeParallel circular).exec (fun _ _ => True) (start circular) [.scan []] = some s ∧
      s.main = .returned true := ⟨_, rfl, rfl⟩
  obtain ⟨s, hexec, hmain⟩ := hrun
  have hreach : Reach (executeParallel circular) (fun _ _ => True) s := .of_exec rfl _ hexec
  obtain ⟨-, -, -, hend⟩ := (executeParallel_complete circular hids).2 s hreach
  exact ⟨s, hreach, hmain, ((hend true hmain).1).1 rfl⟩

end Federation.Executor
