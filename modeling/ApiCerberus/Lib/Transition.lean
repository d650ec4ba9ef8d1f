import Mathlib.Data.Nat.Find
import Mathlib.Order.WellFounded
import Mathlib.Logic.Relation
import Mathlib.Data.List.Basic

/-!
# Transition systems with labelled, partial steps

A system is a set of initial states and a partial step function `S → A → Option S`. Runs are
taken under a side condition `ok` on the steps: `ok` may exclude some actions (no restarts) or some
inputs (no stale message), so that one system carries the statements about all runs and the
statements about the runs that avoid a defect.
-/

namespace Transition

/-- Initial states, and partial steps. -/
structure System (S A : Type*) where
  init : S → Prop
  step : S → A → Option S

variable {S A : Type*} {sys : System S A} {ok ok' : S → A → Prop}

/-- States reached from `s` by steps that all satisfy `ok`. -/
inductive Run (sys : System S A) (ok : S → A → Prop) (s : S) : S → Prop
  | refl : Run sys ok s s
  | tail {t u : S} {a : A} : Run sys ok s t → ok t a → sys.step t a = some u → Run sys ok s u

/-- States reached from an initial one. -/
def Reach (sys : System S A) (ok : S → A → Prop) (s : S) : Prop :=
  ∃ s₀, sys.init s₀ ∧ Run sys ok s₀ s

theorem Reach.of_init {s : S} (h : sys.init s) : Reach sys ok s := ⟨s, h, .refl⟩

variable {s t : S}

theorem Reach.step {a : A} (h : Reach sys ok s) (hok : ok s a)
    (hs : sys.step s a = some t) : Reach sys ok t := by
  obtain ⟨s₀, h₀, hr⟩ := h
  exact ⟨s₀, h₀, hr.tail hok hs⟩

theorem Run.trans {s t u : S} (h₁ : Run sys ok s t) (h₂ : Run sys ok t u) : Run sys ok s u := by
  induction h₂ with
  | refl => exact h₁
  | tail _ hok hs ih => exact ih.tail hok hs

theorem Run.mono (hk : ∀ s a, ok s a → ok' s a) (h : Run sys ok s t) : Run sys ok' s t := by
  induction h with
  | refl => exact .refl
  | tail _ hok hs ih => exact ih.tail (hk _ _ hok) hs

theorem Reach.mono (hk : ∀ s a, ok s a → ok' s a) {s : S} (h : Reach sys ok s) : Reach sys ok' s := by
  obtain ⟨s₀, h₀, hr⟩ := h
  exact ⟨s₀, h₀, hr.mono hk⟩

theorem Reach.run (h : Reach sys ok s) (hr : Run sys ok s t) : Reach sys ok t := by
  obtain ⟨s₀, h₀, hr₀⟩ := h
  exact ⟨s₀, h₀, hr₀.trans hr⟩

/-- **Invariance**: what holds initially and is kept by every step from a reachable state holds
in every reachable state. -/
theorem Reach.invariant {P : S → Prop} (hinit : ∀ s, sys.init s → P s)
    (hstep : ∀ s a t, Reach sys ok s → P s → ok s a → sys.step s a = some t → P t) {s : S}
    (h : Reach sys ok s) : P s := by
  obtain ⟨s₀, h₀, hr⟩ := h
  have aux : Reach sys ok s ∧ P s := by
    induction hr with
    | refl => exact ⟨.of_init h₀, hinit _ h₀⟩
    | tail _ hok hs ih => exact ⟨ih.1.step hok hs, hstep _ _ _ ih.1 ih.2 hok hs⟩
  exact aux.2

/-- What is kept by every step of a run holds at its end. -/
theorem Run.invariant {P : S → Prop} (hstep : ∀ s a t, P s → ok s a → sys.step s a = some t → P t)
    (h : Run sys ok s t) (hs : P s) : P t := by
  induction h with
  | refl => exact hs
  | tail _ hok hu ih => exact hstep _ _ _ ih hok hu

/-- No run from an initial state goes on for ever. -/
def Terminates (sys : System S A) (ok : S → A → Prop) : Prop :=
  ∀ f : ℕ → S, sys.init (f 0) → ¬ ∀ n, ∃ a, ok (f n) a ∧ sys.step (f n) a = some (f (n + 1))

/-- **Termination**: every step from a reachable state makes a measure smaller. -/
theorem Terminates.of_measure {β : Type*} {r : β → β → Prop} (hr : WellFounded r) (μ : S → β)
    (hstep : ∀ s a t, Reach sys ok s → ok s a → sys.step s a = some t → r (μ t) (μ s)) : Terminates sys ok := by
  intro f hinit hrun
  have hreach : ∀ n, Reach sys ok (f n) := by
    intro n
    induction n with
    | zero => exact .of_init hinit
    | succ n ih =>
      obtain ⟨a, hok, hs⟩ := hrun n
      exact ih.step hok hs
  refine (wellFounded_iff_isEmpty_descending_chain.1 hr).elim ⟨fun n => μ (f n), fun n => ?_⟩
  obtain ⟨a, hok, hs⟩ := hrun n
  exact hstep _ _ _ (hreach n) hok hs

/-- The run that takes the listed actions, if each of them is enabled and satisfies `ok`. -/
def System.exec (sys : System S A) (ok : S → A → Prop) [∀ s a, Decidable (ok s a)] : S → List A → Option S
  | s, [] => some s
  | s, a :: as => if ok s a then (sys.step s a).bind fun t => sys.exec ok t as else none

theorem Run.of_exec [∀ s a, Decidable (ok s a)] :
    ∀ (as : List A) {s t : S}, sys.exec ok s as = some t → Run sys ok s t
  | [], s, t, h => by
    cases h
    exact .refl
  | a :: as, s, t, h => by
    simp only [System.exec] at h
    split at h
    · rename_i hok
      obtain ⟨u, hu, ht⟩ := Option.bind_eq_some_iff.1 h
      have hone : Run sys ok s u := Run.refl.tail hok hu
      exact hone.trans (Run.of_exec as ht)
    · cases h

theorem Reach.of_exec [∀ s a, Decidable (ok s a)] (hs : sys.init s) (as : List A) (h : sys.exec ok s as = some t) :
    Reach sys ok t := ⟨s, hs, .of_exec as h⟩

end Transition
