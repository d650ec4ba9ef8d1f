import Mathlib.Data.Prod.Lex
import ApiCerberus.Lib.Sorting
import ApiCerberus.Gateway.Router

/-!
# What the trie finds

A pattern is a list of labels: a literal segment, a parameter (whatever its name) or the wildcard. A trie stands for a
partial map from patterns to routes (`RadixNode.lookup`): inserting a path binds its pattern unless it is bound
(`lookup_insertSegments`), and the search returns the binding of the matching pattern whose kinds come first, literal
before parameter before wildcard (`searchPath_spec`). Both need the shape `WellFormed`: one child per label, and
wildcards at the leaves.
-/

namespace Gateway

/-! ## Patterns -/

/-- What a segment of a pattern stands for. -/
inductive Label
  | literal (seg : Text)
  | param
  | wild
  deriving DecidableEq

/-- The kind of a segment, in the order in which the search tries them. -/
inductive Kind
  | literal
  | param
  | wild
  deriving DecidableEq, Repr

def Kind.rank : Kind → Nat
  | .literal => 0
  | .param => 1
  | .wild => 2

theorem Kind.rank_injective : Function.Injective Kind.rank := by
  intro k k' h
  cases k <;> cases k' <;> first | rfl | cases h

instance : LinearOrder Kind := LinearOrder.lift' Kind.rank Kind.rank_injective

def Label.kind : Label → Kind
  | .literal _ => .literal
  | .param => .param
  | .wild => .wild

/-- What `create` makes of a segment. -/
def labelOf (seg : Text) : Label :=
  if seg = ['*'] then .wild else if Text.hasPrefix seg [':'] then .param else .literal seg

def labels (segs : List Text) : List Label := segs.map labelOf

def kinds (pattern : List Label) : List Kind := pattern.map Label.kind

/-- The pattern matches the segments: a literal itself, a parameter one segment, a wildcard at the end
any number of them. -/
def fits : List Label → List Text → Bool
  | [], segs => segs.isEmpty
  | .wild :: pattern, _ => pattern.isEmpty
  | .literal s :: pattern, seg :: segs => s = seg && fits pattern segs
  | .param :: pattern, _ :: segs => fits pattern segs
  | _ :: _, [] => false

/-- `*` is the last segment only, and parameters have a name. -/
def Proper : List Text → Prop
  | [] => True
  | seg :: segs => seg ≠ [':'] ∧ (seg = ['*'] → segs = []) ∧ Proper segs

instance : DecidablePred Proper := fun segs => by
  induction segs with
  | nil => exact isTrue trivial
  | cons seg segs ih => exact inferInstanceAs (Decidable (_ ∧ _ ∧ _))

namespace RadixNode

variable {α : Type}

def label (n : RadixNode α) : Label :=
  if n.isWild then .wild else if n.paramKey ≠ [] then .param else .literal n.path

/-- The child under a label. -/
def child (cs : List (RadixNode α)) (l : Label) : Option (RadixNode α) := cs.find? fun c => c.label = l

/-- The route bound to a pattern. -/
def lookup (n : RadixNode α) : List Label → Option α
  | [] => n.route
  | l :: pattern => (child n.children l).bind fun c => c.lookup pattern

/-- A wildcard ends its pattern. -/
structure Leaf (n : RadixNode α) : Prop where
  paramKey : n.paramKey = []
  children : n.children = []
  route : n.route.isSome

/-- Children have different labels, and a wildcard is a leaf. -/
inductive WellFormed : RadixNode α → Prop
  | mk {path : Text} {cs : List (RadixNode α)} {route : Option α} {isWild : Bool} {paramKey : Text}
    (nodup : (cs.map label).Nodup) (wild : ∀ c ∈ cs, c.isWild = true → c.Leaf) (sub : ∀ c ∈ cs, WellFormed c) :
    WellFormed (mk path cs route isWild paramKey)

theorem WellFormed.nodup {n : RadixNode α} (h : n.WellFormed) : (n.children.map label).Nodup := by
  cases h with
  | mk nodup wild sub => exact nodup

theorem WellFormed.wild {n : RadixNode α} (h : n.WellFormed) : ∀ c ∈ n.children, c.isWild = true → c.Leaf := by
  cases h with
  | mk nodup wild sub => exact wild

theorem WellFormed.sub {n : RadixNode α} (h : n.WellFormed) : ∀ c ∈ n.children, c.WellFormed := by
  cases h with
  | mk nodup wild sub => exact sub

theorem WellFormed.induct {motive : RadixNode α → Prop}
    (step : ∀ n, n.WellFormed → (∀ c ∈ n.children, motive c) → motive n) {n : RadixNode α}
    (h : n.WellFormed) : motive n := by
  induction h with
  | mk nodup wild sub ih => exact step _ (.mk nodup wild sub) ih

theorem wellFormed_empty : (empty : RadixNode α).WellFormed := .mk List.nodup_nil (by simp) (by simp)

theorem label_eq_wild {n : RadixNode α} : n.label = .wild ↔ n.isWild = true := by
  unfold label
  grind

theorem label_eq_param {n : RadixNode α} : n.label = .param ↔ n.isWild = false ∧ n.paramKey ≠ [] := by
  unfold label
  grind

theorem label_eq_literal {n : RadixNode α} {s : Text} :
    n.label = .literal s ↔ n.isWild = false ∧ n.paramKey = [] ∧ n.path = s := by
  unfold label
  grind

/-! ## Children -/

variable {cs : List (RadixNode α)} {c : RadixNode α} {seg : Text} {f : RadixNode α → RadixNode α}

theorem mem_of_child {l : Label} (h : child cs l = some c) : c ∈ cs ∧ c.label = l :=
  ⟨List.mem_of_find?_eq_some h, by simpa using List.find?_some h⟩

theorem child_cons (d : RadixNode α) (l : Label) : child (d :: cs) l = if d.label = l then some d else child cs l := by
  unfold child
  rw [List.find?_cons]
  split <;> simp_all

/-- No other child has the label of the first one. -/
theorem child_tail {d : RadixNode α} (hn : ((d :: cs).map label).Nodup) : child cs d.label = none := by
  refine List.find?_eq_none.2 fun c hc he => ?_
  exact (List.nodup_cons.1 hn).1 (List.mem_map.2 ⟨c, hc, of_decide_eq_true he⟩)

/-- `findOrCreate` looks for the label of the segment. -/
theorem holds_iff (hseg : seg ≠ [':']) (hc : c.isWild = true → c.paramKey = []) :
    c.holds seg = true ↔ c.label = labelOf seg := by
  unfold labelOf
  split
  · rename_i h
    subst h
    rw [label_eq_wild]
    simp [holds, Text.hasPrefix]
  · split
    · rename_i hstar hpar
      rw [label_eq_param]
      simp only [holds, hstar, hpar]
      grind
    · rename_i hstar hpar
      rw [label_eq_literal]
      simp only [holds, hstar, hpar]
      grind

theorem label_create (hseg : seg ≠ [':']) : (create seg : RadixNode α).label = labelOf seg := by
  unfold create labelOf
  split
  · rfl
  · split
    · rename_i hpar
      rw [Bool.and_eq_true] at hpar
      rw [if_pos hpar.1, label_eq_param]
      refine ⟨rfl, fun h => ?_⟩
      have hlen : seg.length ≤ 1 := List.drop_eq_nil_iff.1 h
      exact absurd hlen (not_le.2 (of_decide_eq_true hpar.2))
    · rename_i hpar
      rw [if_neg, label_eq_literal]
      · exact ⟨rfl, rfl, rfl⟩
      · intro hp
        -- a segment that starts with a colon and is not `:` has a name
        obtain ⟨rest, rfl⟩ := List.isPrefixOf_iff_prefix.1 hp
        cases rest with
        | nil => exact hseg rfl
        | cons d rest => simp [Text.hasPrefix] at hpar

theorem create_children (seg : Text) : (create seg : RadixNode α).children = [] ∧
    (create seg : RadixNode α).route = none := by
  unfold create
  split
  · exact ⟨rfl, rfl⟩
  · split <;> exact ⟨rfl, rfl⟩

theorem create_paramKey (h : (create seg : RadixNode α).isWild = true) : (create seg : RadixNode α).paramKey = [] := by
  unfold create at h ⊢
  split
  · rfl
  · rename_i hstar
    rw [if_neg hstar] at h
    split at h <;> cases h

theorem wellFormed_create (seg : Text) : (create seg : RadixNode α).WellFormed := by
  unfold create
  split
  · exact .mk List.nodup_nil (by simp) (by simp)
  · split <;> exact .mk List.nodup_nil (by simp) (by simp)

variable (hseg : seg ≠ [':']) (hwild : ∀ c ∈ cs, c.isWild = true → c.paramKey = [])
include hseg hwild

/-- The labels of the children after an update: those from before, and the one of the segment. -/
theorem labels_findOrCreate (hf : ∀ c, (f c).label = c.label) :
    (findOrCreate seg f cs).map label =
      if labelOf seg ∈ cs.map label then cs.map label else cs.map label ++ [labelOf seg] := by
  induction cs with
  | nil => simp [findOrCreate, hf, label_create hseg]
  | cons d cs ih =>
    have hd := holds_iff hseg (hwild d List.mem_cons_self)
    have ih := ih fun c hc => hwild c (List.mem_cons_of_mem _ hc)
    unfold findOrCreate
    by_cases h : d.holds seg = true
    · simp [h, hf, hd.1 h]
    · have hne : labelOf seg ≠ d.label := fun he => h (hd.2 he.symm)
      rw [if_neg h, List.map_cons, ih]
      simp only [List.map_cons, List.mem_cons, hne, false_or]
      split <;> simp

theorem child_findOrCreate (hf : ∀ c, (f c).label = c.label) (l : Label) :
    child (findOrCreate seg f cs) l =
      if l = labelOf seg then some (f ((child cs l).getD (create seg))) else child cs l := by
  induction cs with
  | nil =>
    have hl : (f (create seg)).label = labelOf seg := (hf _).trans (label_create hseg)
    by_cases h : l = labelOf seg
    · simp [findOrCreate, child, hl, h]
    · simp [findOrCreate, child, hl, h, Ne.symm h]
  | cons d cs ih =>
    have hd := holds_iff hseg (hwild d List.mem_cons_self)
    have ih := ih fun c hc => hwild c (List.mem_cons_of_mem _ hc)
    unfold child at ih ⊢
    unfold findOrCreate
    by_cases h : d.holds seg = true
    · rw [if_pos h]
      by_cases hl : l = labelOf seg
      · simp [hl, hf, hd.1 h]
      · have hne : d.label ≠ l := fun he => hl (he.symm.trans (hd.1 h))
        simp [hl, hf, hne]
    · rw [if_neg h]
      by_cases hl : d.label = l
      · have hne : l ≠ labelOf seg := fun he => h (hd.2 (hl.trans he))
        simp [hl, hne]
      · simp only [List.find?_cons, hl, decide_false]
        exact ih

omit hseg hwild in
theorem mem_findOrCreate {c' : RadixNode α} (h : c' ∈ findOrCreate seg f cs) :
    c' ∈ cs ∨ (∃ c ∈ cs, c.holds seg = true ∧ c' = f c) ∨ c' = f (create seg) := by
  induction cs with
  | nil => exact Or.inr (Or.inr (List.mem_singleton.1 h))
  | cons d cs ih =>
    unfold findOrCreate at h
    split at h
    · rename_i hd
      rcases List.mem_cons.1 h with rfl | h
      · exact Or.inr (Or.inl ⟨d, List.mem_cons_self, hd, rfl⟩)
      · exact Or.inl (List.mem_cons_of_mem _ h)
    · rcases List.mem_cons.1 h with rfl | h
      · exact Or.inl List.mem_cons_self
      · rcases ih h with h | ⟨c, hc, h⟩ | h
        · exact Or.inl (List.mem_cons_of_mem _ h)
        · exact Or.inr (Or.inl ⟨c, List.mem_cons_of_mem _ hc, h⟩)
        · exact Or.inr (Or.inr h)

end RadixNode

/-! ## Insertion -/

open RadixNode

variable {α : Type} {r : α} {n : RadixNode α} {segs : List Text}

theorem label_insertSegments (r : α) (segs : List Text)
    (n : RadixNode α) : (insertSegments r segs n).label = n.label := by
  cases segs <;> rfl

theorem insertSegments_isWild (r : α) (segs : List Text)
    (n : RadixNode α) : (insertSegments r segs n).isWild = n.isWild := by
  cases segs <;> rfl

/-- The tree stays well-formed. -/
theorem wellFormed_insertSegments (hn : n.WellFormed) (hp : Proper segs) : (insertSegments r segs n).WellFormed := by
  induction segs generalizing n with
  | nil => exact .mk hn.nodup hn.wild hn.sub
  | cons seg segs ih =>
    obtain ⟨hseg, hstar, hp⟩ := hp
    have hkey : ∀ c ∈ n.children, c.isWild = true → c.paramKey = [] := fun c hc hw => (hn.wild c hc hw).paramKey
    refine .mk ?_ (fun c' hc' hw => ?_) (fun c' hc' => ?_)
    · rw [labels_findOrCreate hseg hkey (label_insertSegments r segs)]
      split
      · exact hn.nodup
      · rename_i hnew
        exact List.nodup_append.2 ⟨hn.nodup, List.nodup_singleton _, fun a ha b hb => by
          rw [List.mem_singleton.1 hb]
          exact fun he => hnew (he ▸ ha)⟩
    · -- an updated wildcard is the end of the path, so it gets its route here
      have hend : ∀ c : RadixNode α, c.label = labelOf seg → (insertSegments r segs c).isWild = true →
          c.paramKey = [] → c.children = [] → (insertSegments r segs c).Leaf := by
        intro c hl hcw hk hcs
        rw [insertSegments_isWild] at hcw
        have hseg' : seg = ['*'] := by
          rw [label_eq_wild.2 hcw] at hl
          unfold labelOf at hl
          grind
        rw [hstar hseg']
        exact ⟨hk, hcs, rfl⟩
      rcases mem_findOrCreate hc' with hc | ⟨c, hc, hholds, rfl⟩ | rfl
      · exact hn.wild c' hc hw
      · have hcw := hw
        rw [insertSegments_isWild] at hcw
        have hleaf := hn.wild c hc hcw
        exact hend c ((holds_iff hseg (hkey c hc)).1 hholds) hw hleaf.paramKey hleaf.children
      · have hcw := hw
        rw [insertSegments_isWild] at hcw
        exact hend _ (label_create hseg) hw (create_paramKey hcw) (create_children seg).1
    · rcases mem_findOrCreate hc' with hc | ⟨c, hc, -, rfl⟩ | rfl
      · exact hn.sub c' hc
      · exact ih (hn.sub c hc) hp
      · exact ih (wellFormed_create seg) hp

theorem lookup_create (seg : Text) (pattern : List Label) : (create seg : RadixNode α).lookup pattern = none := by
  cases pattern with
  | nil => exact (create_children seg).2
  | cons l pattern =>
    rw [lookup, (create_children seg).1]
    rfl

/-- **Insertion binds one pattern**, and keeps its first route. -/
theorem lookup_insertSegments (hn : n.WellFormed) (hp : Proper segs) (pattern : List Label) :
    (insertSegments r segs n).lookup pattern =
      if pattern = labels segs then some ((n.lookup pattern).getD r) else n.lookup pattern := by
  induction segs generalizing n pattern with
  | nil =>
    cases pattern with
    | nil => simp [labels, lookup, insertSegments, offer, RadixNode.route]
    | cons l pattern => simp [labels, lookup, insertSegments, offer, RadixNode.children]
  | cons seg segs ih =>
    obtain ⟨hseg, -, hp⟩ := hp
    have hkey : ∀ c ∈ n.children, c.isWild = true → c.paramKey = [] := fun c hc hw => (hn.wild c hc hw).paramKey
    cases pattern with
    | nil => simp [labels, lookup, insertSegments, setChildren, RadixNode.route]
    | cons l pattern =>
      have hchild := child_findOrCreate hseg hkey (label_insertSegments r segs) l
      have hcs : (insertSegments r (seg :: segs) n).children =
          findOrCreate seg (insertSegments r segs) n.children := rfl
      simp only [lookup, hcs, hchild]
      by_cases hl : l = labelOf seg
      · have hlabels : l :: pattern = labels (seg :: segs) ↔ pattern = labels segs := by simp [labels, hl]
        simp only [hl, if_true, Option.bind_some, labels, List.map_cons, List.cons.injEq, true_and]
        cases hc : child n.children (labelOf seg) with
        | none =>
          rw [Option.getD_none, ih (wellFormed_create seg) hp pattern, lookup_create]
          rfl
        | some c =>
          rw [Option.getD_some, ih (hn.sub c (mem_of_child hc).1) hp pattern]
          rfl
      · have hne : ¬ (l :: pattern = labels (seg :: segs)) := by
          intro h
          exact hl (List.cons.inj h).1
        rw [if_neg hl, if_neg hne]

/-! ## Search -/

variable {cs : List (RadixNode α)} {seg : Text} {params : Params}

theorem searchLiteral_eq (hn : (cs.map label).Nodup) (seg : Text) (segs : List Text) (params : Params) :
    searchLiteral cs seg segs params = (child cs (.literal seg)).bind fun c => searchPath c segs params := by
  induction cs with
  | nil => rfl
  | cons d cs ih =>
    rw [searchLiteral, ih (List.nodup_cons.1 hn).2, child_cons]
    by_cases h : d.label = .literal seg
    · have hd := label_eq_literal.1 h
      have htail := child_tail hn
      rw [h] at htail
      simp [h, htail, hd.1, hd.2.1, hd.2.2]
    · have hd : ¬ (d.isWild = false ∧ d.paramKey = [] ∧ d.path = seg) := fun hd => h (label_eq_literal.2 hd)
      rw [if_neg (by simpa [and_assoc] using hd), if_neg h]

theorem searchParam_eq (hn : (cs.map label).Nodup) (hw : ∀ c ∈ cs, c.isWild = true → c.Leaf) (seg : Text)
    (segs : List Text) (params : Params) :
    searchParam cs seg segs params =
      (child cs .param).bind fun c => searchPath c segs (params.set c.paramKey seg) := by
  induction cs with
  | nil => rfl
  | cons d cs ih =>
    rw [searchParam, ih (List.nodup_cons.1 hn).2 fun c hc => hw c (List.mem_cons_of_mem _ hc), child_cons]
    by_cases h : d.label = .param
    · have htail := child_tail hn
      rw [h] at htail
      simp [h, htail, (label_eq_param.1 h).2]
    · have hkey : d.paramKey = [] := by
        by_contra hk
        cases hdw : d.isWild with
        | true => exact hk (hw d List.mem_cons_self hdw).paramKey
        | false => exact h (label_eq_param.2 ⟨hdw, hk⟩)
      rw [if_pos hkey, if_neg h]

theorem searchWild_eq (hw : ∀ c ∈ cs, c.isWild = true → c.Leaf) (segs : List Text) (params : Params) :
    searchWild cs segs params = (child cs .wild).bind fun c => c.route.map fun r => (r, params) := by
  induction cs with
  | nil => rfl
  | cons d cs ih =>
    rw [searchWild, ih fun c hc => hw c (List.mem_cons_of_mem _ hc), child_cons]
    by_cases h : d.isWild = true
    · obtain ⟨r, hr⟩ := Option.isSome_iff_exists.1 (hw d List.mem_cons_self h).route
      simp [h, label_eq_wild.2 h, searchWildcard, hr]
    · rw [if_neg h, if_neg (mt label_eq_wild.1 h)]

theorem wildRoute_eq (hw : ∀ c ∈ cs, c.isWild = true → c.Leaf) (params : Params) :
    wildRoute cs params = (child cs .wild).bind fun c => c.route.map fun r => (r, params) := by
  induction cs with
  | nil => rfl
  | cons d cs ih =>
    have ih := ih fun c hc => hw c (List.mem_cons_of_mem _ hc)
    unfold wildRoute at ih ⊢
    rw [List.findSome?_cons, child_cons]
    by_cases h : d.isWild = true
    · obtain ⟨r, hr⟩ := Option.isSome_iff_exists.1 (hw d List.mem_cons_self h).route
      simp [h, label_eq_wild.2 h, hr]
    · rw [if_neg h, if_neg (mt label_eq_wild.1 h)]
      exact ih

theorem lookup_cons (n : RadixNode α) (l : Label) (q : List Label) :
    n.lookup (l :: q) = (child n.children l).bind fun c => c.lookup q := by
  cases n
  rfl

theorem lookup_wild (n : RadixNode α) (params : Params) :
    ((child n.children .wild).bind fun c => c.route.map fun r => (r, params)) =
      (n.lookup [.wild]).map fun r => (r, params) := by
  rw [lookup_cons, Option.map_bind]
  refine congrArg _ (funext fun c => ?_)
  cases c
  rfl

/-- The end of the path. -/
theorem searchPath_nil (hn : n.WellFormed) (params : Params) :
    searchPath n [] params = ((n.lookup []).or (n.lookup [.wild])).map fun r => (r, params) := by
  rw [Option.map_or, ← lookup_wild]
  cases hn with
  | @mk path cs route isWild paramKey nodup wild sub =>
    cases route with
    | some r => rfl
    | none => exact wildRoute_eq wild params

/-- One segment: the three loops in turn. -/
theorem searchPath_cons (hn : n.WellFormed) (seg : Text) (segs : List Text) (params : Params) :
    searchPath n (seg :: segs) params =
      ((child n.children (.literal seg)).bind fun c => searchPath c segs params).or
        (((child n.children .param).bind fun c => searchPath c segs (params.set c.paramKey seg)).or
          ((n.lookup [.wild]).map fun r => (r, params))) := by
  rw [← lookup_wild]
  cases hn with
  | mk nodup wild sub =>
    rw [searchPath, searchLiteral_eq nodup, searchParam_eq nodup wild, searchWild_eq wild]
    rfl

/-! ## The first match -/

/-- What a search for the segments must return: the route of the matching pattern whose kinds come first,
or nothing if no pattern matches. `look` gives the routes of the patterns. -/
def Finds (look : List Label → Option α) (segs : List Text) : Option (α × Params) → Prop
  | some (r, _) => ∃ p, fits p segs = true ∧ look p = some r ∧
      ∀ q, fits q segs = true → (look q).isSome → kinds p ≤ kinds q
  | none => ∀ q, fits q segs = true → look q = none

theorem kinds_cons_le {l : Label} {p q : List Label} (h : kinds p ≤ kinds q) : kinds (l :: p) ≤ kinds (l :: q) := by
  rcases h.lt_or_eq with h | h
  · exact (List.cons_lt_cons_iff.2 (Or.inr ⟨rfl, h⟩)).le
  · exact (congrArg (l.kind :: ·) h).le

theorem kinds_cons_lt (l l' : Label) (p q : List Label) (h : l.kind < l'.kind) : kinds (l :: p) ≤ kinds (l' :: q) :=
  (List.cons_lt_cons_iff.2 (Or.inl h)).le

/-- The patterns below one child. -/
theorem finds_child {l : Label} {g : RadixNode α → Option (α × Params)}
    (hg : ∀ c ∈ n.children, Finds c.lookup segs (g c)) :
    Finds (fun q => n.lookup (l :: q)) segs ((child n.children l).bind g) := by
  simp only [lookup_cons]
  cases hc : child n.children l with
  | none => exact fun q _ => rfl
  | some c => exact hg c (mem_of_child hc).1

theorem fits_nil {q : List Label} : fits q [] = true ↔ q = [] ∨ q = [.wild] := by
  cases q with
  | nil => simp [fits]
  | cons l q => cases l <;> simp [fits]

theorem fits_cons {q : List Label} : fits q (seg :: segs) = true ↔
    (∃ q', q = .literal seg :: q' ∧ fits q' segs = true) ∨
      (∃ q', q = .param :: q' ∧ fits q' segs = true) ∨ q = [.wild] := by
  cases q with
  | nil => simp [fits]
  | cons l q => cases l <;> simp [fits]

/-- **The search returns the first match**, in the order of the kinds. -/
theorem searchPath_spec (hn : n.WellFormed) : ∀ (segs : List Text) (params : Params),
    Finds n.lookup segs (searchPath n segs params) := by
  refine WellFormed.induct (motive := fun n => ∀ segs params, Finds n.lookup segs (searchPath n segs params))
    (fun n hn ih segs params => ?_) hn
  cases segs with
  | nil =>
    rw [searchPath_nil hn]
    cases hroot : n.lookup [] with
    | some r => exact ⟨[], rfl, hroot, fun q _ _ => not_lt.1 (List.not_lt_nil _)⟩
    | none =>
      cases hw : n.lookup [.wild] with
      | some r =>
        refine ⟨[.wild], rfl, hw, fun q hq hs => ?_⟩
        rcases fits_nil.1 hq with rfl | rfl
        · simp [hroot] at hs
        · exact le_refl _
      | none =>
        intro q hq
        rcases fits_nil.1 hq with rfl | rfl
        · exact hroot
        · exact hw
  | cons seg segs =>
    rw [searchPath_cons hn]
    have hlit := finds_child (l := .literal seg) fun c hc => ih c hc segs params
    have hpar := finds_child (l := .param) fun c hc => ih c hc segs (params.set c.paramKey seg)
    -- each alternative is about the patterns that start with its label
    cases hx : (child n.children (.literal seg)).bind fun c => searchPath c segs params with
    | some v =>
      rw [hx] at hlit
      obtain ⟨p, hp, hr, hmin⟩ := hlit
      refine ⟨.literal seg :: p, fits_cons.2 (Or.inl ⟨p, rfl, hp⟩), hr, fun q hq hs => ?_⟩
      rcases fits_cons.1 hq with ⟨q, rfl, hq'⟩ | ⟨q, rfl, -⟩ | rfl
      · exact kinds_cons_le (hmin q hq' hs)
      · exact kinds_cons_lt (.literal seg) .param p q (show Kind.literal < Kind.param by decide)
      · exact kinds_cons_lt (.literal seg) .wild p [] (show Kind.literal < Kind.wild by decide)
    | none =>
      rw [hx] at hlit
      have hnone : ∀ q, fits q segs = true → n.lookup (.literal seg :: q) = none := hlit
      cases hy : (child n.children .param).bind fun c => searchPath c segs (params.set c.paramKey seg) with
      | some v =>
        rw [hy] at hpar
        obtain ⟨p, hp, hr, hmin⟩ := hpar
        refine ⟨.param :: p, fits_cons.2 (Or.inr (Or.inl ⟨p, rfl, hp⟩)), hr, fun q hq hs => ?_⟩
        rcases fits_cons.1 hq with ⟨q, rfl, hq'⟩ | ⟨q, rfl, hq'⟩ | rfl
        · simp [hnone q hq'] at hs
        · exact kinds_cons_le (hmin q hq' hs)
        · exact kinds_cons_lt .param .wild p [] (by decide)
      | none =>
        rw [hy] at hpar
        have hnone' : ∀ q, fits q segs = true → n.lookup (.param :: q) = none := hpar
        cases hw : n.lookup [.wild] with
        | some r =>
          refine ⟨[.wild], fits_cons.2 (Or.inr (Or.inr rfl)), hw, fun q hq hs => ?_⟩
          rcases fits_cons.1 hq with ⟨q, rfl, hq'⟩ | ⟨q, rfl, hq'⟩ | rfl
          · simp [hnone q hq'] at hs
          · simp [hnone' q hq'] at hs
          · exact le_refl _
        | none =>
          intro q hq
          rcases fits_cons.1 hq with ⟨q, rfl, hq'⟩ | ⟨q, rfl, hq'⟩ | rfl
          · exact hnone q hq'
          · exact hnone' q hq'
          · exact hw

/-! ## The bindings of one root -/

variable {χ : Type} {root : RadixNode (Target χ)} {bs : List (RouteBinding χ)} {b b' : RouteBinding χ}

/-- The pattern of a binding. -/
def RouteBinding.pattern (b : RouteBinding χ) : List Label := labels (splitPath b.path)

/-- What `before` compares. -/
def sortKey (b : RouteBinding χ) : ℕ ×ₗ ℤ ×ₗ ℤ ×ₗ Text :=
  toLex (b.kind.rank, toLex (-b.route.priority, toLex (-(Text.byteLen b.path : ℤ), b.route.name)))

theorem before_iff : before b b' = true ↔ sortKey b < sortKey b' := by
  have hrank : b.kind.rank = b'.kind.rank ↔ b.kind = b'.kind := by
    cases b.kind <;> cases b'.kind <;> decide
  unfold before sortKey
  simp only [Prod.Lex.toLex_lt_toLex, hrank]
  split
  · simp_all
  · split
    · simp_all
    · split
      · rename_i hlen
        have hcast : (Text.byteLen b.path : ℤ) ≠ Text.byteLen b'.path := fun h => hlen (Int.ofNat.inj h)
        simp_all
      · simp_all

theorem sorted_sortBindings (bs : List (RouteBinding χ)) :
    (sortBindings bs).Pairwise fun b b' => before b' b = false := by
  have hkey : ∀ b b' : RouteBinding χ, before b b' = true ↔ sortKey b < sortKey b' := fun _ _ => before_iff
  exact Sorting.pairwise_insertionSort hkey bs

theorem mem_sortBindings : b ∈ sortBindings bs ↔ b ∈ bs := List.mem_insertionSort _

theorem wellFormed_insertAll (hroot : root.WellFormed) (hp : ∀ b ∈ bs, Proper (splitPath b.path)) :
    (insertAll root bs).WellFormed := by
  induction bs generalizing root with
  | nil => exact hroot
  | cons b bs ih =>
    exact ih (wellFormed_insertSegments hroot (hp b List.mem_cons_self)) fun b' hb' =>
      hp b' (List.mem_cons_of_mem _ hb')

/-- A pattern is bound to the first binding that has it. -/
theorem lookup_insertAll (hroot : root.WellFormed) (hp : ∀ b ∈ bs, Proper (splitPath b.path)) (q : List Label) :
    (insertAll root bs).lookup q =
      (root.lookup q).or ((bs.find? fun b => b.pattern = q).map fun b => (b.route, b.service)) := by
  induction bs generalizing root with
  | nil => simp [insertAll]
  | cons b bs ih =>
    have hb := hp b List.mem_cons_self
    have hrest := ih (wellFormed_insertSegments (r := (b.route, b.service)) hroot hb)
      fun b' hb' => hp b' (List.mem_cons_of_mem _ hb')
    refine hrest.trans ?_
    rw [lookup_insertSegments hroot hb, List.find?_cons]
    by_cases hq : q = b.pattern
    · have hq' : q = labels (splitPath b.path) := hq
      rw [if_pos hq']
      cases root.lookup q <;> simp [hq]
    · have hq' : ¬ q = labels (splitPath b.path) := hq
      rw [if_neg hq']
      simp [Ne.symm hq]

/-- The binding wins for the path: it matches, and among those that match its kinds come first; where they
are the same, no other comes before it in the order of `Rebuild`. -/
structure Wins (bs : List (RouteBinding χ)) (path : Text) (b : RouteBinding χ) : Prop where
  mem : b ∈ bs
  fits : fits b.pattern (splitPath path) = true
  least : ∀ b' ∈ bs, Gateway.fits b'.pattern (splitPath path) = true →
    kinds b.pattern < kinds b'.pattern ∨ (kinds b.pattern = kinds b'.pattern ∧ before b' b = false)

/-- Two patterns of the same kinds that match one path are the same. -/
theorem pattern_eq_of_kinds : ∀ {p q : List Label} {segs : List Text}, fits p segs = true → fits q segs = true →
    kinds p = kinds q → p = q
  | [], [], _, _, _, _ => rfl
  | [], _ :: _, _, _, _, hk => by cases hk
  | _ :: _, [], _, _, _, hk => by cases hk
  | l :: p, l' :: q, segs, hp, hq, hk => by
    obtain ⟨hl, htl⟩ := List.cons.inj hk
    cases segs with
    | nil =>
      rcases fits_nil.1 hp with h | h <;> rcases fits_nil.1 hq with h' | h' <;> simp_all
    | cons seg segs =>
      rcases fits_cons.1 hp with ⟨p', h, hp'⟩ | ⟨p', h, hp'⟩ | h <;>
        rcases fits_cons.1 hq with ⟨q', h', hq'⟩ | ⟨q', h', hq'⟩ | h' <;> cases h <;> cases h' <;>
        first | exact congrArg _ (pattern_eq_of_kinds hp' hq' htl) | rfl | cases hl

/-- **The route trie is correct**: after the insertion of any bindings in the order of `Rebuild`, a search
finds a route iff some pattern matches the path, and the route is that of a binding that wins. -/
theorem route_found (hp : ∀ b ∈ bs, Proper (splitPath b.path)) (path : Text) :
    ((searchPath (insertAll .empty (sortBindings bs)) (splitPath path) .empty).isSome ↔
        ∃ b ∈ bs, fits b.pattern (splitPath path) = true) ∧
      ∀ target params, searchPath (insertAll .empty (sortBindings bs)) (splitPath path) .empty = some (target, params) →
        ∃ b, Wins bs path b ∧ (b.route, b.service) = target := by
  have hp' : ∀ b ∈ sortBindings bs, Proper (splitPath b.path) := fun b hb => hp b (mem_sortBindings.1 hb)
  have hspec := searchPath_spec (wellFormed_insertAll wellFormed_empty hp') (splitPath path) .empty
  have hlook : ∀ q, (insertAll .empty (sortBindings bs)).lookup q =
      ((sortBindings bs).find? fun b => b.pattern = q).map fun b => (b.route, b.service) := by
    intro q
    rw [lookup_insertAll wellFormed_empty hp']
    cases q <;> rfl
  have hbound : ∀ b ∈ bs, ((insertAll .empty (sortBindings bs)).lookup b.pattern).isSome := by
    intro b hb
    rw [hlook, Option.isSome_map, List.find?_isSome]
    exact ⟨b, mem_sortBindings.2 hb, by simp⟩
  cases hx : searchPath (insertAll .empty (sortBindings bs)) (splitPath path) .empty with
  | none =>
    rw [hx] at hspec
    refine ⟨⟨?_, ?_⟩, ?_⟩
    · intro h
      cases h
    · rintro ⟨b, hb, hf⟩
      have hsome := hbound b hb
      rw [hspec b.pattern hf] at hsome
      cases hsome
    · intro _ _ h
      cases h
  | some v =>
    rw [hx] at hspec
    obtain ⟨p, hf, hr, hmin⟩ := hspec
    rw [hlook] at hr
    obtain ⟨b, hb, htarget⟩ := Option.map_eq_some_iff.1 hr
    obtain ⟨hpb, front, back, hsplit, hfront⟩ := List.find?_eq_some_iff_append.1 hb
    have hpb : b.pattern = p := of_decide_eq_true hpb
    have hmem : b ∈ bs := mem_sortBindings.1 (List.mem_of_find?_eq_some hb)
    have hwins : Wins bs path b := by
      refine ⟨hmem, hpb ▸ hf, fun b' hb' hf' => ?_⟩
      have hle := hmin b'.pattern hf' (hbound b' hb')
      rw [← hpb] at hle
      rcases hle.lt_or_eq with hlt | heq
      · exact Or.inl hlt
      · refine Or.inr ⟨heq, ?_⟩
        -- the same pattern, so `b'` stands behind `b` in the sorted list
        have hsame : b'.pattern = p := (pattern_eq_of_kinds hf' (hpb ▸ hf) heq.symm).trans hpb
        have hb'' := mem_sortBindings.2 hb'
        have hsorted := sorted_sortBindings bs
        rw [hsplit] at hb'' hsorted
        rcases List.mem_append.1 hb'' with h | h
        · have := hfront b' h
          simp [hsame] at this
        · rcases List.mem_cons.1 h with rfl | h
          · rw [← Bool.not_eq_true, before_iff]
            exact lt_irrefl _
          · exact (List.pairwise_cons.1 (List.pairwise_append.1 hsorted).2.1).1 b' h
    refine ⟨⟨fun _ => ⟨b, hmem, hpb ▸ hf⟩, fun _ => rfl⟩, fun target params h => ⟨b, hwins, ?_⟩⟩
    cases h
    exact htarget

/-- A binding of a path, as `Rebuild` makes it. -/
def bindingOf (path name : String) : RouteBinding Unit where
  host := []
  method := "GET".toList
  path := path.toList
  kind := classifyPath path.toList
  route := ⟨[], name.toList, [], [], [path.toList], [], false, 0, []⟩
  service := ⟨[], [], [], [], 0⟩

/-- Four routes under `/users`. -/
def userRoutes : List (RouteBinding Unit) :=
  [bindingOf "/users/:id" "user", bindingOf "/users/*" "rest", bindingOf "/users/me" "me",
    bindingOf "/users/:name" "named"]

/-- `/users/7` goes to the parameter with the longer path, not to the wildcard. -/
theorem route_found_users : ∃ b, Wins userRoutes "/users/7".toList b ∧ b.route.name = "named".toList := by
  have hfound : (searchPath (insertAll .empty (sortBindings userRoutes)) (splitPath "/users/7".toList) .empty).map
      (fun v => v.1.1.name) = some "named".toList := by decide +kernel
  obtain ⟨⟨target, params⟩, hv, hname⟩ := Option.map_eq_some_iff.1 hfound
  have hp : ∀ b ∈ userRoutes, Proper (splitPath b.path) := by decide +kernel
  obtain ⟨b, hb, ht⟩ := (route_found hp "/users/7".toList).2 target params hv
  exact ⟨b, hb, by rw [← hname, ← ht]⟩

end Gateway
