import Mathlib.Data.List.Basic
import ApiCerberus.Lib.Json

/-!
# Places in a JSON value

A place is a list of steps, into a member of an object or into an element of an array. `get?` is the value at a place.

`replace s P` writes the text `s` in the place of every member that a path of `P` leads to. A path names members only:
it passes through every element of an array. `replaced_replace` says what is at each place then, and `replace_replace`
that two sets of paths, one after the other, do what they do together.
-/

namespace Json

/-- Induction with one hypothesis for all elements, and one for all members. -/
theorem induct {motive : Json → Prop} (null : motive .null) (bool : ∀ b, motive (.bool b))
    (number : ∀ n, motive (.number n))
    (string : ∀ s, motive (.string s)) (array : ∀ elems, (∀ x ∈ elems, motive x) → motive (.array elems))
    (object : ∀ fields, (∀ f ∈ fields, motive f.2) → motive (.object fields)) (j : Json) : motive j :=
  @Json.rec motive (fun elems => ∀ x ∈ elems, motive x) (fun fields => ∀ f ∈ fields, motive f.2) (fun f => motive f.2)
    null bool number string array object (List.forall_mem_nil _) (fun _ _ hx hxs => List.forall_mem_cons.2 ⟨hx, hxs⟩)
    (List.forall_mem_nil _) (fun _ _ hf hfs => List.forall_mem_cons.2 ⟨hf, hfs⟩) (fun _ _ hx => hx) j

/-! ## Places -/

/-- A step into a document. -/
inductive Step
  | member (name : String)
  | element (i : Nat)

/-- What stands at a place. -/
def get? : Json → List Step → Option Json
  | j, [] => some j
  | .object fields, .member name :: a => (fields.lookup name).bind fun x => x.get? a
  | .array elems, .element i :: a => elems[i]?.bind fun x => x.get? a
  | _, _ => none

theorem get?_cons (j : Json) (step : Step) (a : List Step) :
    j.get? (step :: a) = (j.get? [step]).bind fun x => x.get? a := by
  cases j <;> cases step <;> simp [get?]

theorem get?_string_cons (s : String) (step : Step) (a : List Step) : (Json.string s).get? (step :: a) = none := by
  cases step <;> rfl

/-- A value without what is in it. -/
inductive Head
  | null
  | bool (b : Bool)
  | number (n : Number)
  | string (s : String)
  | array (length : Nat)
  | object (names : List String)

/-- What can be seen of a value from outside. -/
def head : Json → Head
  | .null => .null
  | .bool b => .bool b
  | .number n => .number n
  | .string s => .string s
  | .array elems => .array elems.length
  | .object fields => .object (fields.map Prod.fst)

/-! ## Paths -/

def Step.name? : Step → Option String
  | .member name => some name
  | .element _ => none

/-- A path leads to a member; what it names are the members on the way. -/
def Reached (P : List String → Bool) (a : List Step) : Prop :=
  ∃ above name, a = above ++ [.member name] ∧ P (a.filterMap Step.name?) = true

variable {P Q : List String → Bool} {s name : String} {i : Nat} {j j' : Json} {a b : List Step}

theorem not_reached_nil : ¬ Reached P [] := by
  rintro ⟨above, name, h, -⟩
  simp at h

theorem reached_member : Reached P (.member name :: a) ↔ a = [] ∧ P [name] = true ∨
    Reached (fun q => P (name :: q)) a := by
  constructor
  · rintro ⟨above, k, heq, hP⟩
    cases above with
    | nil =>
      obtain ⟨⟨⟩, rfl⟩ : Step.member name = .member k ∧ a = [] := by simpa using heq
      exact .inl ⟨rfl, hP⟩
    | cons step above =>
      obtain ⟨-, rfl⟩ : Step.member name = step ∧ a = above ++ [.member k] := by simpa using heq
      exact .inr ⟨above, k, rfl, hP⟩
  · rintro (⟨rfl, hP⟩ | ⟨above, k, rfl, hP⟩)
    · exact ⟨[], name, rfl, hP⟩
    · exact ⟨.member name :: above, k, rfl, hP⟩

theorem reached_element : Reached P (.element i :: a) ↔ Reached P a := by
  constructor
  · rintro ⟨above, k, heq, hP⟩
    cases above with
    | nil => simp at heq
    | cons step above =>
      obtain ⟨-, rfl⟩ : Step.element i = step ∧ a = above ++ [.member k] := by simpa using heq
      exact ⟨above, k, rfl, hP⟩
  · rintro ⟨above, k, rfl, hP⟩
    exact ⟨.element i :: above, k, rfl, hP⟩

/-- `j'` is `j` with `s` at the places that are reached, but for those below other such places. -/
structure Replaced (s : String) (P : List String → Bool) (j j' : Json) : Prop where
  reached : ∀ a, Reached P a → (∀ b, Reached P b → b <+: a → b = a) → j'.get? a = (j.get? a).map fun _ => .string s
  below : ∀ a b, Reached P b → b <+: a → b ≠ a → j'.get? a = none
  other : ∀ a, (∀ b, Reached P b → ¬ b <+: a) → (j'.get? a).map head = (j.get? a).map head

/-! ## Replacing -/

mutual

/-- Values at the places `P` become the string `s`. -/
def replace (s : String) (P : List String → Bool) : Json → Json
  | .array elems => .array (replaceElems s P elems)
  | .object fields => .object (replaceFields s P fields)
  | .null => .null
  | .bool b => .bool b
  | .number n => .number n
  | .string t => .string t

def replaceElems (s : String) (P : List String → Bool) : List Json → List Json
  | [] => []
  | x :: xs => replace s P x :: replaceElems s P xs

def replaceFields (s : String) (P : List String → Bool) : List (String × Json) → List (String × Json)
  | [] => []
  | (k, x) :: xs => (k, if P [k] then .string s else replace s (fun q => P (k :: q)) x) :: replaceFields s P xs

end

@[simp] theorem replace_array (elems : List Json) : replace s P (.array elems) = .array (elems.map (replace s P)) := by
  rw [replace]
  congr 1
  induction elems with
  | nil => rfl
  | cons x xs ih => rw [replaceElems, ih, List.map_cons]

@[simp] theorem replace_object (fields : List (String × Json)) : replace s P (.object fields) =
    .object (fields.map fun f => (f.1, if P [f.1] then .string s else replace s (fun q => P (f.1 :: q)) f.2)) := by
  rw [replace]
  congr 1
  induction fields with
  | nil => rfl
  | cons f fs ih => rw [replaceFields, ih, List.map_cons]

theorem replace_false (j : Json) : replace s (fun _ => false) j = j := by
  induction j using Json.induct with
  | null | bool | number | string => rfl
  | array elems ih => simpa using (List.map_congr_left ih).trans (List.map_id elems)
  | object fields ih =>
    have hfield : ∀ f ∈ fields, (f.1, replace s (fun _ => false) f.2) = id f := fun f hf => by rw [ih f hf, id]
    simpa using (List.map_congr_left hfield).trans (List.map_id fields)

/-- Two sets of paths, one after the other. -/
theorem replace_replace (j : Json) : replace s Q (replace s P j) = replace s (fun q => P q || Q q) j := by
  induction j using Json.induct generalizing P Q with
  | null | bool | number | string => rfl
  | array elems ih =>
    simp only [replace_array, List.map_map]
    congr 1
    exact List.map_congr_left fun x hx => ih x hx
  | object fields ih =>
    simp only [replace_object, List.map_map]
    congr 1
    refine List.map_congr_left fun f hf => ?_
    -- A member that the first set replaces is a text, in which the second one finds nothing.
    by_cases hP : P [f.1] <;> by_cases hQ : Q [f.1] <;> simp [hP, hQ, replace, ih f hf]

theorem head_replace (j : Json) : head (replace s P j) = head j := by
  cases j with
  | array elems => simp [head]
  | object fields => simp [head]
  | _ => rfl

theorem lookup_map {α β : Type} (g : String → α → β) (fields : List (String × α)) :
    (fields.map fun f => (f.1, g f.1 f.2)).lookup name = (fields.lookup name).map (g name) := by
  induction fields with
  | nil => rfl
  | cons f fields ih =>
    obtain ⟨k, x⟩ := f
    by_cases h : name = k
    · subst h
      rw [List.map_cons, List.lookup_cons_self, List.lookup_cons_self]
      rfl
    · have hne : (name == k) = false := beq_false_of_ne h
      simp only [List.map_cons, List.lookup_cons, hne, ih]

theorem get?_replace_member (j : Json) : (replace s P j).get? [.member name] =
    (j.get? [.member name]).map fun x => if P [name] then .string s else replace s (fun q => P (name :: q)) x := by
  cases j with
  | object fields =>
    simp only [replace_object, get?, lookup_map fun k x => if P [k] then Json.string s
      else replace s (fun q => P (k :: q)) x]
    cases fields.lookup name <;> rfl
  | _ => simp [get?, replace]

theorem get?_replace_element (j : Json) : (replace s P j).get? [.element i] =
    (j.get? [.element i]).map (replace s P) := by
  cases j with
  | array elems =>
    simp only [replace_array, get?, List.getElem?_map]
    cases elems[i]? <;> rfl
  | _ => simp [get?, replace]

/-- There is nothing below a replaced value. -/
theorem get?_replace_below (hb : Reached P b) (hpre : b <+: a) (hne : b ≠ a) : (replace s P j).get? a = none := by
  induction a generalizing P b j with
  | nil => exact absurd (List.prefix_nil.1 hpre) hne
  | cons step a ih =>
    cases b with
    | nil => exact absurd hb not_reached_nil
    | cons step' b =>
      obtain ⟨rfl, hrest⟩ := List.cons_prefix_cons.1 hpre
      have hne' : b ≠ a := fun h => hne (h ▸ rfl)
      rw [get?_cons, Option.bind_eq_none_iff]
      intro x hx
      cases step' with
      | element i =>
        rw [get?_replace_element, Option.map_eq_some_iff] at hx
        obtain ⟨y, -, rfl⟩ := hx
        exact ih (reached_element.1 hb) hrest hne'
      | member name =>
        rw [get?_replace_member, Option.map_eq_some_iff] at hx
        obtain ⟨y, -, rfl⟩ := hx
        split
        · -- The member itself is replaced, and a text has nothing in it.
          obtain ⟨step, a, rfl⟩ : ∃ step rest, a = step :: rest :=
            List.exists_cons_of_ne_nil fun h => hne' ((List.prefix_nil.1 (h ▸ hrest)).trans h.symm)
          exact get?_string_cons s step a
        · rename_i hP
          rcases reached_member.1 hb with ⟨-, hP'⟩ | hb
          · exact absurd hP' hP
          · exact ih hb hrest hne'

/-- The first reached place on a way becomes the string. -/
theorem get?_replace_reached (ha : Reached P a) (hfirst : ∀ b, Reached P b → b <+: a → b = a) :
    (replace s P j).get? a = (j.get? a).map fun _ => .string s := by
  induction a generalizing P j with
  | nil => exact absurd ha not_reached_nil
  | cons step a ih =>
    rw [get?_cons, get?_cons j]
    cases step with
    | element i =>
      have hfirst' : ∀ b, Reached P b → b <+: a → b = a := fun b hb hpre =>
        (List.cons.inj (hfirst _ (reached_element.2 hb) (List.cons_prefix_cons.2 ⟨rfl, hpre⟩))).2
      rw [get?_replace_element]
      cases j.get? [.element i] with
      | none => rfl
      | some x => exact ih (reached_element.1 ha) hfirst'
    | member name =>
      rw [get?_replace_member]
      cases j.get? [.member name] with
      | none => rfl
      | some x =>
        simp only [Option.map_some, Option.bind_some]
        split
        · rename_i hP
          obtain rfl : [] = a :=
            (List.cons.inj (hfirst [.member name] (reached_member.2 (.inl ⟨rfl, hP⟩))
              (List.cons_prefix_cons.2 ⟨rfl, List.nil_prefix⟩))).2
          rfl
        · rename_i hP
          have ha' := (reached_member.1 ha).resolve_left fun h => hP h.2
          exact ih ha' fun b hb hpre =>
            (List.cons.inj (hfirst _ (reached_member.2 (.inr hb)) (List.cons_prefix_cons.2 ⟨rfl, hpre⟩))).2

theorem get?_replace_other (hnone : ∀ b, Reached P b → ¬ b <+: a) :
    ((replace s P j).get? a).map head = (j.get? a).map head := by
  induction a generalizing P j with
  | nil => exact congrArg some (head_replace j)
  | cons step a ih =>
    rw [get?_cons, get?_cons j]
    cases step with
    | element i =>
      rw [get?_replace_element]
      cases j.get? [.element i] with
      | none => rfl
      | some x => exact ih fun b hb hpre => hnone _ (reached_element.2 hb) (List.cons_prefix_cons.2 ⟨rfl, hpre⟩)
    | member name =>
      have hP : P [name] ≠ true := fun hP =>
        hnone [.member name] (reached_member.2 (.inl ⟨rfl, hP⟩)) (List.cons_prefix_cons.2 ⟨rfl, List.nil_prefix⟩)
      rw [get?_replace_member]
      cases j.get? [.member name] with
      | none => rfl
      | some x =>
        simp only [Option.map_some, Option.bind_some, if_neg hP]
        exact ih fun b hb hpre => hnone _ (reached_member.2 (.inr hb)) (List.cons_prefix_cons.2 ⟨rfl, hpre⟩)

theorem replaced_replace (s : String) (P : List String → Bool) (j : Json) : Replaced s P j (replace s P j) where
  reached _ := get?_replace_reached
  below _ _ := get?_replace_below
  other _ := get?_replace_other

theorem get?_append (j : Json) (a b : List Step) : j.get? (a ++ b) = (j.get? a).bind fun x => x.get? b := by
  induction a generalizing j with
  | nil => rfl
  | cons step a ih =>
    rw [List.cons_append, get?_cons, get?_cons j step a, Option.bind_assoc]
    exact congrArg _ (funext fun x => ih x)

/-- The first place on the way to one that is reached. -/
theorem exists_first_reached (hb : Reached P b) : ∃ c, Reached P c ∧ c <+: b ∧ ∀ d, Reached P d → d <+: c → d = c := by
  induction hn : b.length using Nat.strong_induction_on generalizing b with
  | _ n ih =>
    by_cases hfirst : ∀ d, Reached P d → d <+: b → d = b
    · exact ⟨b, hb, List.prefix_rfl, hfirst⟩
    · push Not at hfirst
      obtain ⟨d, hd, hpre, hne⟩ := hfirst
      have hlt : d.length < n := hn ▸ lt_of_le_of_ne hpre.length_le fun hlen => hne (hpre.eq_of_length hlen)
      obtain ⟨c, hc, hcd, hfirst⟩ := ih d.length hlt hd rfl
      exact ⟨c, hc, hcd.trans hpre, hfirst⟩

/-- Nothing has to be replaced: what the paths lead to first is the text already. -/
theorem replaced_self : Replaced s P j j ↔
    ∀ a, Reached P a → (∀ b, Reached P b → b <+: a → b = a) → ∀ x ∈ j.get? a, x = .string s := by
  have hmap : ∀ a, j.get? a = ((j.get? a).map fun _ => .string s) ↔ ∀ x ∈ j.get? a, x = .string s := by
    intro a
    cases j.get? a <;> simp
  constructor
  · exact fun h a ha hfirst => (hmap a).1 (h.reached a ha hfirst)
  · intro h
    refine ⟨fun a ha hfirst => (hmap a).2 (h a ha hfirst), fun a b hb hpre hne => ?_, fun a _ => rfl⟩
    obtain ⟨c, hc, hcb, hfirst⟩ := exists_first_reached hb
    obtain ⟨rest, rfl⟩ := hcb.trans hpre
    obtain ⟨step, rest, rfl⟩ : ∃ step tail, rest = step :: tail := by
      refine List.exists_cons_of_ne_nil fun hnil => hne (hpre.eq_of_length_le ?_)
      rw [hnil, List.append_nil]
      exact hcb.length_le
    -- the first place on the way is a text, in which there is nothing
    rw [get?_append]
    cases hget : j.get? c with
    | none => rfl
    | some x =>
      rw [h c hc hfirst x hget]
      exact get?_string_cons s step rest

end Json
