import ApiCerberus.Lib.Transition
import Mathlib.Data.List.Induction
import Mathlib.Logic.Function.Basic
import Mathlib.Order.Basic

/-!
# State per key, made on demand and used under a lock

A `Cell` says what is stored for a key that has no state yet, and what a call does to the state of its key in its
critical section. A call comes with a stamp that it took before it looked at the map.

`system`: any number of calls at once. Looking the state up (`load`) and the critical section (`enter`) are two steps,
so calls enter in any order, with any stamps (`reach_cell`). `run`: one call after the other, with sweeps over the map
that change or drop states (`run_eq_run_calls`). `serve`: the calls for one key, one after the other.
-/

/-- `fresh` is the state of a new key, `enter` the critical section, with its result. -/
structure Cell (τ σ ρ : Type*) where
  fresh : τ → σ
  enter : τ → σ → ρ × σ

namespace Keyed

variable {κ τ σ ρ : Type*} [DecidableEq κ] {c : Cell τ σ ρ}

/-! ## Calls at the same time -/

structure State (κ τ σ ρ : Type*) where
  cells : κ → Option σ
  /-- The calls between the lookup and the critical section. -/
  waiting : List (κ × τ)
  log : List (κ × τ × ρ)

/-- A call looks its cell up, and enters it later. -/
inductive Action (κ τ : Type*)
  | load (k : κ) (t : τ)
  | enter (i : Nat)

/-- `LoadOrStore`. -/
def loadOrStore (c : Cell τ σ ρ) (cells : κ → Option σ) (k : κ) (t : τ) : κ → Option σ :=
  Function.update cells k (some ((cells k).getD (c.fresh t)))

def step (c : Cell τ σ ρ) (s : State κ τ σ ρ) : Action κ τ → Option (State κ τ σ ρ)
  | .load k t => some { s with cells := loadOrStore c s.cells k t, waiting := s.waiting ++ [(k, t)] }
  | .enter i =>
    match s.waiting[i]? with
    | none => none
    | some (k, t) =>
      (s.cells k).map fun x =>
        { cells := Function.update s.cells k (some (c.enter t x).2)
          waiting := s.waiting.eraseIdx i
          log := s.log ++ [(k, t, (c.enter t x).1)] }

def system (κ : Type*) [DecidableEq κ] (c : Cell τ σ ρ) : Transition.System (State κ τ σ ρ) (Action κ τ) where
  init s := s = ⟨fun _ => none, [], []⟩
  step := step c

/-- The calls for one key that have left their critical section, in the order in which they entered. -/
def State.logOf (s : State κ τ σ ρ) (k : κ) : List (τ × ρ) := (s.log.filter fun e => e.1 = k).map Prod.snd

/-- A condition on the stamp of a call and on the state that it finds in its critical section. -/
def Enters (ok : τ → σ → Prop) (s : State κ τ σ ρ) : Action κ τ → Prop
  | .load _ _ => True
  | .enter i => ∀ k t x, s.waiting[i]? = some (k, t) → s.cells k = some x → ok t x

instance (ok : τ → σ → Prop) [∀ t x, Decidable (ok t x)] (s : State κ τ σ ρ)
    (a : Action κ τ) : Decidable (Enters ok s a) :=
  match a with
  | .load _ _ => .isTrue trivial
  | .enter i =>
    match hw : s.waiting[i]? with
    | none => .isTrue fun _ _ _ h => by rw [hw] at h; cases h
    | some (k, t) =>
      match hc : s.cells k with
      | none => .isTrue fun _ _ _ h hx => by rw [hw] at h; cases h; rw [hc] at hx; cases hx
      | some x =>
        decidable_of_iff (ok t x) ⟨fun hok _ _ _ h hx => by rw [hw] at h; cases h; rw [hc] at hx; cases hx; exact hok,
          fun hok => hok k t x hw hc⟩

/-- `P` holds of the state of the key, and of the calls for it. -/
def Holds (P : σ → List (τ × ρ) → Prop) (s : State κ τ σ ρ) (k : κ) : Prop :=
  match s.cells k with
  | none => s.logOf k = []
  | some x => P x (s.logOf k)

/-- **One key at a time**: what holds of a fresh state, and is kept by every critical section that is entered
as `ok` says, holds for every key. -/
theorem reach_cell {ok : τ → σ → Prop} {P : σ → List (τ × ρ) → Prop} (hfresh : ∀ t, P (c.fresh t) [])
    (henter : ∀ t x l, P x l → ok t x → P (c.enter t x).2 (l ++ [(t, (c.enter t x).1)])) {s : State κ τ σ ρ}
    (h : Transition.Reach (system κ c) (Enters ok) s) (k : κ) : Holds P s k := by
  refine Transition.Reach.invariant (P := fun s => ∀ k, Holds P s k) ?_ ?_ h k
  · rintro s rfl k
    simp [Holds, State.logOf]
  · intro s a t _ hs hok hstep k
    have hk := hs k
    cases a with
    | load k' stamp =>
      simp only [system, step, Option.some.injEq] at hstep
      subst hstep
      by_cases heq : k = k'
      · subst heq
        cases hc : s.cells k with
        | none =>
          simp only [Holds, hc, State.logOf] at hk
          simpa [Holds, loadOrStore, State.logOf, hc, hk] using hfresh stamp
        | some x => simpa [Holds, loadOrStore, State.logOf, hc] using hk
      · simpa [Holds, loadOrStore, State.logOf, heq] using hk
    | enter i =>
      simp only [system, step] at hstep
      split at hstep
      · cases hstep
      · rename_i k' stamp hw
        obtain ⟨x, hx, rfl⟩ := Option.map_eq_some_iff.1 hstep
        by_cases heq : k = k'
        · subst heq
          simp only [Holds, hx] at hk
          simpa [Holds, State.logOf] using henter stamp x _ hk (hok k stamp x hw hx)
        · simpa [Holds, State.logOf, heq, Ne.symm heq] using hk

/-! ## One call after the other -/

/-- Calls, and sweeps of the whole map. -/
inductive Event (κ τ : Type*)
  | call (k : κ) (t : τ)
  | sweep (t : τ)

def Event.time : Event κ τ → τ
  | call _ t => t
  | sweep t => t

def Event.isCall : Event κ τ → Bool
  | call _ _ => true
  | sweep _ => false

/-- The results of the calls. A sweep leaves of each state what `sweep` says. -/
def run (c : Cell τ σ ρ) (sweep : τ → σ → Option σ) : (κ → Option σ) → List (Event κ τ) → List ρ
  | _, [] => []
  | cells, .call k t :: es =>
    let r := c.enter t ((cells k).getD (c.fresh t))
    r.1 :: run c sweep (Function.update cells k (some r.2)) es
  | cells, .sweep t :: es => run c sweep (fun k => (cells k).bind (sweep t)) es

/-- The states `a` and `b` of a key, if any, cannot be told apart from time `t` on, and a sweep may be made on
`b` alone. -/
structure Alike [LE τ] (c : Cell τ σ ρ) (sweep : τ → σ → Option σ) (R : τ → Option σ → Option σ → Prop) : Prop where
  none : ∀ t, R t none none
  later : ∀ {t t' a b}, t ≤ t' → R t a b → R t' a b
  result : ∀ {t a b}, R t a b → (c.enter t (a.getD (c.fresh t))).1 = (c.enter t (b.getD (c.fresh t))).1
  call : ∀ {t a b}, R t a b →
    R t (some (c.enter t (a.getD (c.fresh t))).2) (some (c.enter t (b.getD (c.fresh t))).2)
  sweep : ∀ {t a b}, R t a b → R t a (b.bind (sweep t))

/-- **Sweeps that nobody notices**: the results are those of the calls alone. -/
theorem run_eq_run_calls [LE τ] {sweep : τ → σ → Option σ} {R : τ → Option σ → Option σ → Prop}
    (hR : Alike c sweep R) {es : List (Event κ τ)} (hes : es.Pairwise fun e e' => e.time ≤ e'.time)
    {cells cells' : κ → Option σ} (h : ∀ k, ∀ e ∈ es, R e.time (cells k) (cells' k)) :
    run c sweep cells' es = run c sweep cells (es.filter Event.isCall) := by
  induction es generalizing cells cells' with
  | nil => rfl
  | cons e es ih =>
    obtain ⟨hle, hrest⟩ := List.pairwise_cons.1 hes
    cases e with
    | call k t =>
      have hhead : ∀ k', R t (cells k') (cells' k') := fun k' => h k' _ List.mem_cons_self
      have hnext : ∀ k', ∀ e ∈ es, R e.time
          (Function.update cells k (some (c.enter t ((cells k).getD (c.fresh t))).2) k')
          (Function.update cells' k (some (c.enter t ((cells' k).getD (c.fresh t))).2) k') := by
        intro k' e he
        by_cases heq : k' = k
        · subst heq
          simpa [Event.time] using hR.later (hle e he) (hR.call (hhead k'))
        · simpa [heq] using h k' e (List.mem_cons_of_mem _ he)
      simp only [Event.isCall, List.filter_cons, if_true, run]
      rw [hR.result (hhead k), ih hrest hnext]
    | sweep t =>
      have hhead : ∀ k', R t (cells k') (cells' k') := fun k' => h k' _ List.mem_cons_self
      have hnext : ∀ k', ∀ e ∈ es, R e.time (cells k') ((cells' k').bind (sweep t)) :=
        fun k' e he => hR.later (hle e he) (hR.sweep (hhead k'))
      simpa [Event.isCall, run] using ih hrest hnext

/-- A sweep drops nothing but states that are as good as new, and leaves the others as they are. -/
theorem alike_of_reset [LE τ] {sweep : τ → σ → Option σ} {P : σ → Prop} {Q : τ → σ → Prop}
    (hfresh : ∀ t, P (c.fresh t)) (henter : ∀ t x, P x → P (c.enter t x).2)
    (hlater : ∀ {t t' x}, t ≤ t' → Q t x → Q t' x)
    (hold : ∀ t x, P x → Q t x → c.enter t x = c.enter t (c.fresh t))
    (hsweep : ∀ t x, sweep t x = some x ∨ sweep t x = none ∧ Q t x) :
    Alike c sweep fun t a b => (∀ x, a = some x → P x) ∧ (a = b ∨ b = none ∧ ∃ x, a = some x ∧ Q t x) := by
  have hsame : ∀ {t : τ} {a b : Option σ}, (∀ x, a = some x → P x) ∧ (a = b ∨ b = none ∧ ∃ x, a = some x ∧ Q t x) →
      c.enter t (a.getD (c.fresh t)) = c.enter t (b.getD (c.fresh t)) := by
    rintro t a b ⟨hgood, rfl | ⟨rfl, x, rfl, hx⟩⟩
    · rfl
    · exact hold t x (hgood x rfl) hx
  refine ⟨fun t => ⟨by simp, Or.inl rfl⟩, ?_, fun h => by rw [hsame h], ?_, ?_⟩
  · rintro t t' a b hle ⟨hgood, heq | ⟨hb, x, ha, hx⟩⟩
    · exact ⟨hgood, Or.inl heq⟩
    · exact ⟨hgood, Or.inr ⟨hb, x, ha, hlater hle hx⟩⟩
  · intro t a b h
    refine ⟨?_, Or.inl (by rw [hsame h])⟩
    rintro x hx
    obtain rfl := Option.some.inj hx
    refine henter t _ ?_
    cases ha : a with
    | none => exact hfresh t
    | some y => exact h.1 y ha
  · rintro t a b ⟨hgood, rfl | ⟨rfl, hx⟩⟩
    · refine ⟨hgood, ?_⟩
      cases a with
      | none => exact Or.inl rfl
      | some x =>
        rcases hsweep t x with hkeep | ⟨hdrop, hx⟩
        · exact Or.inl (by simp [hkeep])
        · exact Or.inr ⟨by simp [hdrop], x, rfl, hx⟩
    · exact ⟨hgood, Or.inr ⟨rfl, hx⟩⟩

/-! ### Many calls at one time -/

/-- The states after a history. -/
def after (c : Cell τ σ ρ) (sweep : τ → σ → Option σ) : (κ → Option σ) → List (Event κ τ) → κ → Option σ
  | cells, [] => cells
  | cells, .call k t :: es =>
    after c sweep (Function.update cells k (some (c.enter t ((cells k).getD (c.fresh t))).2)) es
  | cells, .sweep t :: es => after c sweep (fun k => (cells k).bind (sweep t)) es

theorem run_append (sweep : τ → σ → Option σ) (cells : κ → Option σ) (es es' : List (Event κ τ)) :
    run c sweep cells (es ++ es') = run c sweep cells es ++ run c sweep (after c sweep cells es) es' := by
  induction es generalizing cells with
  | nil => rfl
  | cons e es ih => cases e <;> simp [run, after, ih]

theorem after_append (sweep : τ → σ → Option σ) (cells : κ → Option σ) (es es' : List (Event κ τ)) :
    after c sweep cells (es ++ es') = after c sweep (after c sweep cells es) es' := by
  induction es generalizing cells with
  | nil => rfl
  | cons e es ih => cases e <;> simp [after, ih]

/-- `n` calls at time `t` from the state `x`. -/
def burst (c : Cell τ σ ρ) (t : τ) : Nat → σ → List ρ × σ
  | 0, x => ([], x)
  | n + 1, x => ((c.enter t x).1 :: (burst c t n (c.enter t x).2).1, (burst c t n (c.enter t x).2).2)

theorem run_burst (sweep : τ → σ → Option σ) (cells : κ → Option σ) (k : κ) (t : τ) (n : Nat) :
    run c sweep cells (List.replicate n (.call k t)) = (burst c t n ((cells k).getD (c.fresh t))).1 := by
  induction n generalizing cells with
  | zero => rfl
  | succ n ih => simp [List.replicate_succ, run, burst, ih]

theorem after_burst (sweep : τ → σ → Option σ) (cells : κ → Option σ) (k : κ) (t : τ) (n : Nat) :
    after c sweep cells (List.replicate (n + 1) (.call k t)) k =
      some (burst c t (n + 1) ((cells k).getD (c.fresh t))).2 := by
  induction n generalizing cells with
  | zero => simp [after, burst]
  | succ n ih =>
    rw [List.replicate_succ, after, ih]
    simp [burst]

/-! ## One key -/

/-- The calls with their results, and the state after them. -/
def serve (c : Cell τ σ ρ) : Option σ → List τ → List (τ × ρ) × Option σ
  | x, [] => ([], x)
  | x, t :: ts =>
    let r := c.enter t (x.getD (c.fresh t))
    let rest := serve c (some r.2) ts
    ((t, r.1) :: rest.1, rest.2)

theorem serve_append (x : Option σ) (ts ts' : List τ) :
    serve c x (ts ++ ts') = ((serve c x ts).1 ++ (serve c (serve c x ts).2 ts').1,
      (serve c (serve c x ts).2 ts').2) := by
  induction ts generalizing x with
  | nil => rfl
  | cons t ts ih =>
    simp only [List.cons_append, serve]
    rw [ih]

theorem serve_snoc (ts : List τ) (t : τ) :
    serve c none (ts ++ [t]) =
      ((serve c none ts).1 ++ [(t, (c.enter t ((serve c none ts).2.getD (c.fresh t))).1)],
        some (c.enter t ((serve c none ts).2.getD (c.fresh t))).2) := by
  rw [serve_append]
  rfl

theorem map_fst_serve (x : Option σ) (ts : List τ) : (serve c x ts).1.map Prod.fst = ts := by
  induction ts generalizing x with
  | nil => rfl
  | cons t ts ih =>
    simp only [serve, List.map_cons]
    rw [ih]

theorem serve_burst (x : Option σ) (t : τ) (n : Nat) :
    (serve c x (List.replicate (n + 1) t)).2 = some (burst c t (n + 1) (x.getD (c.fresh t))).2 := by
  induction n generalizing x with
  | zero => rfl
  | succ n ih =>
    rw [List.replicate_succ, serve]
    dsimp only
    rw [ih]
    rfl

theorem map_snd_serve_burst (x : Option σ) (t : τ) (n : Nat) :
    (serve c x (List.replicate n t)).1.map Prod.snd = (burst c t n (x.getD (c.fresh t))).1 := by
  induction n generalizing x with
  | zero => rfl
  | succ n ih =>
    rw [List.replicate_succ, serve, burst]
    dsimp only
    rw [List.map_cons, ih]
    rfl

/-- **Calls one after the other**: what holds at the start, and is kept by a call that is related by `R` to those before
it. -/
theorem serve_invariant {R : τ → τ → Prop} {P : Option σ → List (τ × ρ) → Prop} (hnone : P none [])
    (henter : ∀ t x l, P x l → (∀ e ∈ l, R e.1 t) →
      P (some (c.enter t (x.getD (c.fresh t))).2) (l ++ [(t, (c.enter t (x.getD (c.fresh t))).1)]))
    {ts : List τ} (hts : ts.Pairwise R) : P (serve c none ts).2 (serve c none ts).1 := by
  induction ts using List.reverseRecOn with
  | nil => exact hnone
  | append_singleton ts t ih =>
    obtain ⟨hinit, -, hlast⟩ := List.pairwise_append.1 hts
    rw [serve_snoc]
    refine henter t _ _ (ih hinit) fun e he => ?_
    have hmem : e.1 ∈ ts := map_fst_serve (c := c) none ts ▸ List.mem_map_of_mem he
    exact hlast e.1 hmem t (List.mem_singleton_self t)

end Keyed
