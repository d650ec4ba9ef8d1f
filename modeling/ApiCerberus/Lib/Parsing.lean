import Mathlib.Data.List.TakeWhile
import Mathlib.Order.Basic

/-!
# Parsers with a meter

A parser that moves over a list of symbols and counts its steps: the symbols that a scan passes, and the tests of its
loops. It returns a value or an error, or it halts: a loop has made as many rounds as there is `gas`, or calls are
nested deeper than the `stack`. A parser only moves forward (`Parser.forward`). `Outcome.Sat` is what holds where a
parser returns.
-/

namespace Parsing

/-- What is left to read, and the steps that were made. -/
structure Cursor (τ : Type) where
  rest : List τ
  steps : Nat

def Cursor.after {τ : Type} (c : Cursor τ) (n : Nat) : Cursor τ := ⟨c.rest, c.steps + n⟩

inductive Halt
  /-- There is no gas for another round. -/
  | spins
  /-- There is no stack for another call. -/
  | overflow
  deriving DecidableEq

/-- Success and failure leave a cursor, a halt does not. -/
inductive Outcome (τ ε α : Type)
  | ok (a : α) (c : Cursor τ)
  | fail (e : ε) (c : Cursor τ)
  | halt (h : Halt)

variable {τ ε α β σ : Type}

namespace Outcome

def bind (o : Outcome τ ε α) (f : α → Cursor τ → Outcome τ ε β) : Outcome τ ε β :=
  match o with
  | ok a c => f a c
  | fail e c => fail e c
  | halt h => halt h

/-- `Q` of the value and the cursor, or `E` of the cursor at an error. -/
def Sat (o : Outcome τ ε α) (Q : α → Cursor τ → Prop) (E : Cursor τ → Prop) : Prop :=
  match o with
  | ok a c => Q a c
  | fail _ c => E c
  | halt _ => True

theorem Sat.mono {o : Outcome τ ε α} {Q Q' : α → Cursor τ → Prop} {E E' : Cursor τ → Prop} (h : o.Sat Q E)
    (hQ : ∀ a c, Q a c → Q' a c) (hE : ∀ c, E c → E' c) : o.Sat Q' E' := by
  cases o with
  | ok a c => exact hQ a c h
  | fail e c => exact hE c h
  | halt h => trivial

end Outcome

/-! ## Parsers -/

/-- Neither the symbols nor the steps run back. -/
def Cursor.Onward (c c' : Cursor τ) : Prop := c'.rest <:+ c.rest ∧ c.steps ≤ c'.steps

theorem Cursor.Onward.refl (c : Cursor τ) : c.Onward c := ⟨List.suffix_rfl, le_rfl⟩

theorem Cursor.Onward.trans {c c' c'' : Cursor τ} (h : c.Onward c') (h' : c'.Onward c'') : c.Onward c'' :=
  ⟨h'.1.trans h.1, h.2.trans h'.2⟩

/-- A parser never goes back. -/
structure Parser (τ ε α : Type) where
  run : Cursor τ → Outcome τ ε α
  forward : ∀ c, (run c).Sat (fun _ c' => c.Onward c') fun _ => True

instance : Monad (Parser τ ε) where
  pure a := ⟨fun c => .ok a c, fun c => .refl c⟩
  bind p f :=
    { run := fun c => (p.run c).bind fun a c => (f a).run c
      forward := by
        intro c
        have hp := p.forward c
        cases h : p.run c with
        | ok a c' =>
          rw [h] at hp
          exact ((f a).forward c').mono (fun _ _ hf => hp.trans hf) fun _ _ => trivial
        | fail e c' => trivial
        | halt k => trivial }

def fail (e : ε) : Parser τ ε α := ⟨fun c => .fail e c, fun _ => trivial⟩

def halt (h : Halt) : Parser τ ε α := ⟨fun _ => .halt h, fun _ => trivial⟩

/-- What is left to read. -/
def rest : Parser τ ε (List τ) := ⟨fun c => .ok c.rest c, fun c => .refl c⟩

def tick (n : Nat) : Parser τ ε Unit := ⟨fun c => .ok () (c.after n), fun _ => ⟨List.suffix_rfl, Nat.le_add_right _ _⟩⟩

/-- `n` characters are passed over, in one step. -/
def advance (n : Nat) : Parser τ ε Unit :=
  ⟨fun c => .ok () ⟨c.rest.drop n, c.steps + 1⟩, fun c => ⟨List.drop_suffix n c.rest, Nat.le_add_right _ _⟩⟩

/-- As many symbols as `n` says. -/
def take (n : List τ → Nat) : Parser τ ε (List τ) :=
  ⟨fun c => .ok (c.rest.take (n c.rest)) ⟨c.rest.drop (n c.rest), c.steps + ((c.rest.take (n c.rest)).length + 1)⟩,
    fun c => ⟨List.drop_suffix _ c.rest, Nat.le_add_right _ _⟩⟩

/-- The symbols up to the first one that does not satisfy `p`. -/
def scan (p : τ → Bool) : Parser τ ε (List τ) :=
  ⟨fun c => .ok (c.rest.takeWhile p) ⟨c.rest.dropWhile p, c.steps + ((c.rest.takeWhile p).length + 1)⟩,
    fun _ => ⟨List.dropWhile_suffix p, Nat.le_add_right _ _⟩⟩

def when (b : Bool) (p : Parser τ ε Unit) : Parser τ ε Unit := if b then p else pure ()

/-- Rounds of `body` until `stop` holds of what is left. -/
def loop (stop : List τ → Bool) (body : σ → Parser τ ε σ) : (gas : Nat) → σ → Parser τ ε σ
  | 0, _ => halt .spins
  | gas + 1, s => do
    tick 1
    let t ← rest
    if stop t then pure s
    else do
      let s ← body s
      loop stop body gas s

/-! ## Reading

The rules for parsers that succeed, without regard to the steps. -/

/-- From the symbols `t` the parser returns `a`, and `r` is left. -/
def Parser.Reads (p : Parser τ ε α) (t : List τ) (a : α) (r : List τ) : Prop :=
  ∀ n, ∃ n', p.run ⟨t, n⟩ = .ok a ⟨r, n'⟩

/-- A scan for `p` ends before `r`. -/
def Ends (p : τ → Bool) (r : List τ) : Prop := ∀ c ∈ r.head?, p c = false

/-- From some amount of gas and of stack on. -/
def Enough (P : (gas stack : Nat) → Prop) : Prop := ∃ g, ∀ gas stack, g ≤ gas → g ≤ stack → P gas stack

section

variable {P Q R : Nat → Nat → Prop}

theorem Enough.of_forall (h : ∀ gas stack, P gas stack) : Enough P := ⟨0, fun gas stack _ _ => h gas stack⟩

theorem Enough.gas (n : Nat) : Enough fun gas _ => n ≤ gas := ⟨n, fun _ _ h _ => h⟩

theorem Enough.and (h : Enough P) (h' : Enough Q) : Enough fun gas stack => P gas stack ∧ Q gas stack := by
  obtain ⟨g, hg⟩ := h
  obtain ⟨g', hg'⟩ := h'
  exact ⟨max g g', fun gas stack h1 h2 => ⟨hg gas stack (by omega) (by omega), hg' gas stack (by omega) (by omega)⟩⟩

theorem Enough.mono (h : Enough P) (hPQ : ∀ gas stack, P gas stack → Q gas stack) : Enough Q := by
  obtain ⟨g, hg⟩ := h
  exact ⟨g, fun gas stack h1 h2 => hPQ gas stack (hg gas stack h1 h2)⟩

/-- One more call, in which a loop makes `n` rounds. -/
theorem Enough.call (n : Nat) (h : Enough P) (hPQ : ∀ gas stack, n ≤ gas → P gas stack → Q gas (stack + 1)) :
    Enough Q := by
  obtain ⟨g, hg⟩ := h
  refine ⟨max g n + 1, fun gas stack h1 h2 => ?_⟩
  obtain ⟨stack, rfl⟩ : ∃ k, stack = k + 1 := ⟨stack - 1, by omega⟩
  exact hPQ gas stack (by omega) (hg gas stack (by omega) (by omega))

end

section

variable {p : Parser τ ε α} {f : α → Parser τ ε β} {s t r r' : List τ} {a : α} {b : β}

theorem reads_pure (a : α) (t : List τ) : (pure a : Parser τ ε α).Reads t a t := fun n => ⟨n, rfl⟩

theorem Parser.Reads.bind (h : p.Reads t a r) (h' : (f a).Reads r b r') : (p >>= f).Reads t b r' := by
  intro n
  obtain ⟨n', hp⟩ := h n
  obtain ⟨n'', hf⟩ := h' n'
  refine ⟨n'', ?_⟩
  change (p.run ⟨t, n⟩).bind _ = _
  rw [hp]
  exact hf

theorem reads_rest (t : List τ) : (rest : Parser τ ε (List τ)).Reads t t t := fun n => ⟨n, rfl⟩

theorem reads_tick (n : Nat) (t : List τ) : (tick n : Parser τ ε Unit).Reads t () t := fun k => ⟨k + n, rfl⟩

theorem reads_advance (n : Nat) (t : List τ) : (advance n : Parser τ ε Unit).Reads t () (t.drop n) :=
  fun k => ⟨k + 1, rfl⟩

theorem reads_take {n : List τ → Nat} (h : n (s ++ r) = s.length) :
    (take n : Parser τ ε (List τ)).Reads (s ++ r) s r := by
  intro k
  refine ⟨k + (s.length + 1), ?_⟩
  simp [take, h]

variable {q : τ → Bool}

theorem ends_of_head? {c : τ} (hc : r.head? = some c) (h : q c = false) : Ends q r := by
  intro c' hc'
  obtain rfl : c = c' := Option.some.inj (hc.symm.trans hc')
  exact h

theorem takeWhile_of_ends (hs : ∀ c ∈ s, q c = true) (hr : Ends q r) : (s ++ r).takeWhile q = s := by
  rw [List.takeWhile_append_of_pos hs]
  cases r with
  | nil => simp
  | cons c r => simp [hr c rfl]

theorem reads_scan (hs : ∀ c ∈ s, q c = true) (hr : Ends q r) : (scan q : Parser τ ε (List τ)).Reads (s ++ r) s r := by
  have hdrop : (s ++ r).dropWhile q = r := by
    have h := List.takeWhile_append_dropWhile (p := q) (l := s ++ r)
    rw [takeWhile_of_ends hs hr] at h
    exact List.append_cancel_left h
  intro k
  refine ⟨k + (s.length + 1), ?_⟩
  simp [scan, takeWhile_of_ends hs hr, hdrop]

theorem reads_when_true {c : Bool} {p : Parser τ ε Unit} (hc : c = true)
    (h : p.Reads t () r) : (when c p).Reads t () r := by
  rwa [when, if_pos hc]

theorem reads_when_false {c : Bool} {p : Parser τ ε Unit} (hc : c = false) : (when c p).Reads t () t := by
  rw [when, if_neg (by simp [hc])]
  exact reads_pure () t

variable {stop : List τ → Bool} {body : σ → Parser τ ε σ} {gas : Nat} {x x' x'' : σ}

theorem reads_loop_stop (h : stop t = true) (gas : Nat) (x : σ) : (loop stop body (gas + 1) x).Reads t x t := by
  refine (reads_tick 1 t).bind ((reads_rest t).bind ?_)
  rw [if_pos h]
  exact reads_pure x t

theorem reads_loop_round (h : stop t = false) (hbody : (body x).Reads t x' r)
    (hloop : (loop stop body gas x').Reads r x'' r') :
    (loop stop body (gas + 1) x).Reads t x'' r' := by
  refine (reads_tick 1 t).bind ((reads_rest t).bind ?_)
  rw [if_neg (by simp [h])]
  exact hbody.bind hloop

end

end Parsing
