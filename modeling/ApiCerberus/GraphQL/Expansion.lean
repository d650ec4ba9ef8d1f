import ApiCerberus.GraphQL.Analyzer
import Mathlib.Logic.Relation
import Mathlib.Data.Finset.Card
import Mathlib.Data.Option.NAry

/-!
# What a server executes of a query

A server replaces a fragment spread by the selections of the fragment. `Expansion` is that replacement; a derivation is
finite, so there is none for an operation that leads into a cycle of fragments.

The guard measures the document before the replacement: a spread is one deep, and nothing looks for cycles
(`expansion_unbounded`). `Measured` is what it would have to measure: a spread is as deep as the selections of its
fragment, and spreads are followed as often in a row as there are fragments. The limit bounds what is executed exactly
for the documents that are refused or within the limit by that measure (`guard_bounds_expansion_iff`).
-/

namespace GraphQL

open Relation

/-! ## Replacement -/

/-- The selections of the first fragment with that name. -/
def Document.fragments (doc : Document) (name : Text) : Option (List Selection) :=
  doc.definitions.findSome? fun d =>
    match d with
    | .fragmentDefinition name' _ selections => if name' = name then some selections else none
    | .operation _ _ _ => none

def Document.fragmentNames (doc : Document) : List Text :=
  doc.definitions.filterMap fun d =>
    match d with
    | .fragmentDefinition name _ _ => some name
    | .operation _ _ _ => none

/-- What the operations select. -/
def Document.operations (doc : Document) : List (List Selection) :=
  doc.definitions.filterMap fun d =>
    match d with
    | .fragmentDefinition _ _ _ => none
    | .operation _ _ selections => some selections

mutual

def Selection.spreads : Selection → List Text
  | .field _ _ _ selections => GraphQL.spreads selections
  | .fragmentSpread name => [name]
  | .inlineFragment _ selections => GraphQL.spreads selections

/-- The fragments that are spread, at any depth. -/
def spreads : List Selection → List Text
  | [] => []
  | sel :: selections => sel.spreads ++ spreads selections

end

variable {frags : Text → Option (List Selection)} {selections selections' : List Selection} {F G : Text}

/-- Fragment `F` spreads fragment `G`. -/
def Refers (frags : Text → Option (List Selection)) (F G : Text) : Prop :=
  ∃ body, frags F = some body ∧ G ∈ spreads body

/-- A spread becomes the replacement of the fragment's selections; one of no fragment stays. -/
inductive Expansion (frags : Text → Option (List Selection)) : List Selection → List Selection → Prop
  | nil : Expansion frags [] []
  | field {name fieldAlias : Text} {args : List Argument} {inner inner' selections selections' : List Selection}
      (hinner : Expansion frags inner inner') (h : Expansion frags selections selections') :
      Expansion frags (.field name fieldAlias args inner :: selections)
        (.field name fieldAlias args inner' :: selections')
  | inlineFragment {type : Text} {inner inner' selections selections' : List Selection}
      (hinner : Expansion frags inner inner') (h : Expansion frags selections selections') :
      Expansion frags (.inlineFragment type inner :: selections) (.inlineFragment type inner' :: selections')
  | spread {name : Text} {body body' selections selections' : List Selection} (hname : frags name = some body)
      (hbody : Expansion frags body body') (h : Expansion frags selections selections') :
      Expansion frags (.fragmentSpread name :: selections) (body' ++ selections')
  | unknown {name : Text} {selections selections' : List Selection} (hname : frags name = none)
      (h : Expansion frags selections selections') :
      Expansion frags (.fragmentSpread name :: selections) (.fragmentSpread name :: selections')

/-- Replacement goes selection by selection. -/
theorem Expansion.append {others others' : List Selection} (h : Expansion frags selections selections')
    (h' : Expansion frags others others') : Expansion frags (selections ++ others) (selections' ++ others') := by
  induction h with
  | nil => exact h'
  | field hinner _ _ ih => exact .field hinner ih
  | inlineFragment hinner _ _ ih => exact .inlineFragment hinner ih
  | spread hname hbody _ _ ih =>
    rw [List.cons_append, List.append_assoc]
    exact .spread hname hbody ih
  | unknown hname _ ih => exact .unknown hname ih

/-- There is one replacement at most. -/
theorem Expansion.unique {selections₁ selections₂ : List Selection} (h₁ : Expansion frags selections selections₁)
    (h₂ : Expansion frags selections selections₂) : selections₁ = selections₂ := by
  induction h₁ generalizing selections₂ with
  | nil =>
    cases h₂
    rfl
  | field _ _ ihinner ih =>
    cases h₂ with
    | field hinner hrest => rw [ihinner hinner, ih hrest]
  | inlineFragment _ _ ihinner ih =>
    cases h₂ with
    | inlineFragment hinner hrest => rw [ihinner hinner, ih hrest]
  | spread hname _ _ ihbody ih =>
    cases h₂ with
    | spread hname' hbody hrest =>
      cases hname.symm.trans hname'
      rw [ihbody hbody, ih hrest]
    | unknown hname' => cases hname.symm.trans hname'
  | unknown hname _ ih =>
    cases h₂ with
    | spread hname' => cases hname.symm.trans hname'
    | unknown _ hrest => rw [ih hrest]

/-! ## The depth with the fragments in place -/

mutual

def Selection.weigh (w : Text → Option Nat) : Selection → Option Nat
  | .field _ _ _ selections => (GraphQL.weigh w selections).map (· + 1)
  | .fragmentSpread name => w name
  | .inlineFragment _ selections => (GraphQL.weigh w selections).map (· + 1)

/-- The depth of selections if the spread of a fragment is as deep as `w` says; `none` if `w` does not say. -/
def weigh (w : Text → Option Nat) : List Selection → Option Nat
  | [] => some 0
  | sel :: selections => Option.map₂ max (sel.weigh w) (weigh w selections)

end

/-- The depth of a fragment's selections, with at most `n` spreads one in another. A spread of no fragment stays. -/
def fragmentDepth (frags : Text → Option (List Selection)) : Nat → Text → Option Nat
  | 0, name => (frags name).elim (some 1) fun _ => none
  | n + 1, name => (frags name).elim (some 1) (weigh (fragmentDepth frags n))

/-- The depth of a fragment, with as many spreads one in another as there are fragments. -/
def Document.fragmentDepth (doc : Document) (F : Text) : Option Nat :=
  GraphQL.fragmentDepth doc.fragments doc.fragmentNames.length F

/-- The depth of every fragment comes out, and with the fragments in place no operation is deeper than `limit`. -/
def Document.Measured (doc : Document) (limit : Int) : Prop :=
  (∀ F ∈ doc.fragmentNames, (doc.fragmentDepth F).isSome) ∧
    ∀ selections ∈ doc.operations, ∃ n ∈ weigh doc.fragmentDepth selections, (n : Int) ≤ limit

variable {w : Text → Option Nat} {n d : Nat}

theorem isSome_map₂ {a b : Option Nat} : (Option.map₂ max a b).isSome ↔ a.isSome ∧ b.isSome := by
  cases a <;> cases b <;> simp

theorem isSome_weigh : (selections : List Selection) →
    ((weigh w selections).isSome ↔ ∀ F ∈ spreads selections, (w F).isSome)
  | [] => by simp [weigh, spreads]
  | .field _ _ _ inner :: selections => by
    simp [weigh, Selection.weigh, spreads, Selection.spreads, isSome_map₂, isSome_weigh inner, isSome_weigh selections,
      or_imp, forall_and]
  | .inlineFragment _ inner :: selections => by
    simp [weigh, Selection.weigh, spreads, Selection.spreads, isSome_map₂, isSome_weigh inner, isSome_weigh selections,
      or_imp, forall_and]
  | .fragmentSpread name :: selections => by
    simp [weigh, Selection.weigh, spreads, Selection.spreads, isSome_map₂, isSome_weigh selections, or_imp, forall_and]

/-- What is measured is the depth of the replacement. -/
theorem expansion_weigh
    (hw : ∀ F d, w F = some d → ∃ replaced, Expansion frags [.fragmentSpread F] replaced ∧ depths replaced = d) :
    (selections : List Selection) → (d : Nat) → weigh w selections = some d →
      ∃ selections', Expansion frags selections selections' ∧ depths selections' = d
  | [], d, h => ⟨[], .nil, Option.some.inj h⟩
  | .field _ _ _ inner :: selections, d, h => by
    obtain ⟨_, d₂, hsel, hd₂, rfl⟩ := Option.map₂_eq_some_iff.1 h
    obtain ⟨d₁, hd₁, rfl⟩ := Option.map_eq_some_iff.1 hsel
    obtain ⟨inner', hinner, rfl⟩ := expansion_weigh hw inner d₁ hd₁
    obtain ⟨selections', hrest, rfl⟩ := expansion_weigh hw selections d₂ hd₂
    exact ⟨_, .field hinner hrest, by rw [depths, depth_field]⟩
  | .inlineFragment _ inner :: selections, d, h => by
    obtain ⟨_, d₂, hsel, hd₂, rfl⟩ := Option.map₂_eq_some_iff.1 h
    obtain ⟨d₁, hd₁, rfl⟩ := Option.map_eq_some_iff.1 hsel
    obtain ⟨inner', hinner, rfl⟩ := expansion_weigh hw inner d₁ hd₁
    obtain ⟨selections', hrest, rfl⟩ := expansion_weigh hw selections d₂ hd₂
    exact ⟨_, .inlineFragment hinner hrest, by rw [depths, depth_inlineFragment]⟩
  | .fragmentSpread name :: selections, d, h => by
    obtain ⟨d₁, d₂, hd₁, hd₂, rfl⟩ := Option.map₂_eq_some_iff.1 h
    obtain ⟨replaced, hreplaced, rfl⟩ := hw name d₁ hd₁
    obtain ⟨selections', hrest, rfl⟩ := expansion_weigh hw selections d₂ hd₂
    exact ⟨_, hreplaced.append hrest, depths_append _ _⟩

theorem fragmentDepth_unknown (hF : frags F = none) : fragmentDepth frags n F = some 1 := by
  cases n <;> simp [fragmentDepth, hF]

theorem expansion_fragmentDepth (h : fragmentDepth frags n F = some d) :
    ∃ replaced, Expansion frags [.fragmentSpread F] replaced ∧ depths replaced = d := by
  induction n generalizing F d with
  | zero =>
    cases hF : frags F with
    | none =>
      cases (fragmentDepth_unknown hF).symm.trans h
      exact ⟨_, .unknown hF .nil, rfl⟩
    | some body =>
      rw [fragmentDepth, hF] at h
      cases h
  | succ n ih =>
    cases hF : frags F with
    | none =>
      cases (fragmentDepth_unknown hF).symm.trans h
      exact ⟨_, .unknown hF .nil, rfl⟩
    | some body =>
      rw [fragmentDepth, hF] at h
      obtain ⟨body', hbody, rfl⟩ := expansion_weigh (fun G e => ih) body d h
      refine ⟨_, .spread hF hbody .nil, ?_⟩
      rw [List.append_nil]

/-! ## Chains of fragments -/

/-- A measure that comes out leaves less for what the fragment spreads. -/
theorem isSome_of_refers (h : (fragmentDepth frags n F).isSome) (hFG : Refers frags F G) :
    ∃ m < n, (fragmentDepth frags m G).isSome := by
  obtain ⟨body, hF, hG⟩ := hFG
  cases n with
  | zero =>
    rw [fragmentDepth, hF] at h
    cases h
  | succ m =>
    rw [fragmentDepth, hF] at h
    exact ⟨m, Nat.lt_succ_self m, (isSome_weigh body).1 h G hG⟩

theorem isSome_of_transGen (h : (fragmentDepth frags n F).isSome) (hFG : TransGen (Refers frags) F G) :
    ∃ m < n, (fragmentDepth frags m G).isSome := by
  induction hFG with
  | single hFG => exact isSome_of_refers h hFG
  | tail _ hGH ih =>
    obtain ⟨m, hm, hG⟩ := ih
    obtain ⟨k, hk, hH⟩ := isSome_of_refers hG hGH
    exact ⟨k, hk.trans hm, hH⟩

/-- A fragment of which a measure comes out does not lead to itself. -/
theorem not_transGen_of_isSome (h : (fragmentDepth frags n F).isSome) : ¬ TransGen (Refers frags) F F := by
  intro hFF
  induction n using Nat.strong_induction_on with
  | _ n ih =>
    obtain ⟨m, hm, hF⟩ := isSome_of_transGen h hFF
    exact ih m hm hF

variable {body : List Selection}

theorem mem_fragmentNames {doc : Document} (h : doc.fragments F = some body) :
    F ∈ doc.fragmentNames := by
  obtain ⟨d, hd, hbody⟩ := List.exists_of_findSome?_eq_some h
  refine List.mem_filterMap.2 ⟨d, hd, ?_⟩
  cases d with
  | operation type name selections => cases hbody
  | fragmentDefinition name type selections =>
    simp only at hbody ⊢
    split at hbody
    case isTrue hname => rw [hname]
    case isFalse => cases hbody

open Classical in
/-- The fragments that a fragment leads to. -/
noncomputable def below (doc : Document) (F : Text) : Finset Text :=
  doc.fragmentNames.toFinset.filter fun G => TransGen (Refers doc.fragments) F G

theorem mem_below {doc : Document} {F G : Text} :
    G ∈ below doc F ↔ G ∈ doc.fragmentNames ∧ TransGen (Refers doc.fragments) F G := by
  simp only [below, Finset.mem_filter, List.mem_toFinset]

variable {doc : Document}

/-- Without cycles, a fragment leads to fewer than one that spreads it. -/
theorem card_below_lt (hacyclic : ∀ F, ¬ TransGen (Refers doc.fragments) F F)
    (hFG : Refers doc.fragments F G) (hG : doc.fragments G = some body) : (below doc G).card < (below doc F).card := by
  refine Finset.card_lt_card (Finset.ssubset_iff_of_subset ?_ |>.2 ⟨G, ?_, ?_⟩)
  · intro H hH
    obtain ⟨hmem, hGH⟩ := mem_below.1 hH
    exact mem_below.2 ⟨hmem, .head hFG hGH⟩
  · exact mem_below.2 ⟨mem_fragmentNames hG, .single hFG⟩
  · exact fun hmem => hacyclic G (mem_below.1 hmem).2

theorem card_below_lt_length (hacyclic : ∀ F, ¬ TransGen (Refers doc.fragments) F F)
    (hF : doc.fragments F = some body) : (below doc F).card < doc.fragmentNames.length := by
  refine lt_of_lt_of_le (Finset.card_lt_card ?_) (List.toFinset_card_le doc.fragmentNames)
  refine Finset.ssubset_iff_of_subset (fun G hG => ?_) |>.2 ⟨F, ?_, ?_⟩
  · exact List.mem_toFinset.2 (mem_below.1 hG).1
  · exact List.mem_toFinset.2 (mem_fragmentNames hF)
  · exact fun hmem => hacyclic F (mem_below.1 hmem).2

/-- Without cycles the measure comes out after as many steps as a fragment leads to others. -/
theorem isSome_of_card_lt (hacyclic : ∀ F, ¬ TransGen (Refers doc.fragments) F F) (h : (below doc F).card < n) :
    (fragmentDepth doc.fragments n F).isSome := by
  induction n generalizing F with
  | zero => exact absurd h (Nat.not_lt_zero _)
  | succ n ih =>
    cases hF : doc.fragments F with
    | none => simp [fragmentDepth_unknown hF]
    | some body =>
      rw [fragmentDepth, hF]
      refine (isSome_weigh body).2 fun G hG => ?_
      cases hbody : doc.fragments G with
      | none => simp [fragmentDepth_unknown hbody]
      | some body' =>
        have hlt := card_below_lt hacyclic ⟨body, hF, hG⟩ hbody
        exact ih (by omega)

theorem isSome_fragmentDepth (hacyclic : ∀ F, ¬ TransGen (Refers doc.fragments) F F) (F : Text) :
    (doc.fragmentDepth F).isSome := by
  cases hF : doc.fragments F with
  | none => simp [Document.fragmentDepth, fragmentDepth_unknown hF]
  | some body => exact isSome_of_card_lt hacyclic (card_below_lt_length hacyclic hF)

/-- What a limit is for: every operation has a replacement, which is at most `limit` deep, and no fragment refers to
itself, directly or through others. -/
def Document.Bounded (doc : Document) (limit : Int) : Prop :=
  (∀ selections ∈ doc.operations, ∃ selections',
    Expansion doc.fragments selections selections' ∧ (depths selections' : Int) ≤ limit) ∧
  ∀ F, ¬ TransGen (Refers doc.fragments) F F

theorem Document.bounded_iff (doc : Document) (limit : Int) : doc.Bounded limit ↔ doc.Measured limit := by
  constructor
  · rintro ⟨hops, hacyclic⟩
    refine ⟨fun F _ => isSome_fragmentDepth hacyclic F, fun selections hop => ?_⟩
    have hsome := (isSome_weigh selections).2 fun F _ => isSome_fragmentDepth hacyclic F
    obtain ⟨n, hn⟩ := Option.isSome_iff_exists.1 hsome
    obtain ⟨selections₁, h₁, rfl⟩ := expansion_weigh (fun F d => expansion_fragmentDepth) selections n hn
    obtain ⟨selections₂, h₂, hle⟩ := hops selections hop
    cases h₁.unique h₂
    exact ⟨_, hn, hle⟩
  · rintro ⟨hfragments, hops⟩
    refine ⟨fun selections hop => ?_, fun F hFF => ?_⟩
    · obtain ⟨n, hn, hle⟩ := hops selections hop
      obtain ⟨selections', h, rfl⟩ := expansion_weigh (fun F d => expansion_fragmentDepth) selections n hn
      exact ⟨selections', h, hle⟩
    · obtain ⟨G, ⟨body, hF, -⟩, -⟩ := TransGen.head'_iff.1 hFF
      exact not_transGen_of_isSome (hfragments F (mem_fragmentNames hF)) hFF

/-- Without spreads the depth is the one that the guard measures. -/
theorem weigh_of_spreads_eq_nil : (selections : List Selection) → spreads selections = [] →
    weigh w selections = some (depths selections)
  | [], _ => rfl
  | .field _ _ _ inner :: selections, h => by
    obtain ⟨hinner, hrest⟩ := List.append_eq_nil_iff.1 h
    rw [Selection.spreads] at hinner
    rw [weigh, Selection.weigh, weigh_of_spreads_eq_nil inner hinner, weigh_of_spreads_eq_nil selections hrest,
      depths, depth_field]
    rfl
  | .inlineFragment _ inner :: selections, h => by
    obtain ⟨hinner, hrest⟩ := List.append_eq_nil_iff.1 h
    rw [Selection.spreads] at hinner
    rw [weigh, Selection.weigh, weigh_of_spreads_eq_nil inner hinner, weigh_of_spreads_eq_nil selections hrest, depths,
      depth_inlineFragment]
    rfl
  | .fragmentSpread _ :: selections, h => by cases h

theorem depths_le_document {doc : Document} (h : selections ∈ doc.operations) : depths selections ≤ doc.depth := by
  obtain ⟨d, hd, hselections⟩ := List.mem_filterMap.1 h
  cases d with
  | operation type name selections =>
    cases hselections
    exact depth_operation type name _ ▸ depth_le_document hd
  | fragmentDefinition name type selections => cases hselections

/-- The guard is right about a document that has no spreads, if its limit is not negative. -/
theorem measured_of_no_spreads {config : GraphQLGuardConfig} (hconfig : 0 ≤ config.maxDepth)
    (haccept : ((newGraphQLGuard config).analyzer.analyzeDocument doc).isValid = true)
    (hoperations : ∀ selections ∈ doc.operations, spreads selections = [])
    (hfragments : ∀ F body, doc.fragments F = some body → spreads body = []) :
    doc.Measured (newGraphQLGuard config).maxDepth := by
  have hpos : 0 < (newGraphQLGuard config).maxDepth := by
    simp only [newGraphQLGuard]
    split <;> omega
  have hlimit : (newGraphQLGuard config).analyzer.maxDepth = (newGraphQLGuard config).maxDepth := if_neg (ne_of_gt hpos)
  have hdepth := depth_le_of_isValid (hlimit ▸ hpos) haccept
  refine ⟨fun F _ => isSome_fragmentDepth (fun F hFF => ?_) F, fun selections hop => ?_⟩
  · obtain ⟨G, ⟨body, hF, hG⟩, -⟩ := TransGen.head'_iff.1 hFF
    rw [hfragments F body hF] at hG
    cases hG
  · refine ⟨depths selections, weigh_of_spreads_eq_nil selections (hoperations selections hop), ?_⟩
    have hle := depths_le_document hop
    omega

/-- A field without alias and arguments. -/
def plainField (name : Text) (selections : List Selection) : Selection := .field name [] [] selections

def guardSettings (maxDepth : Int) : GraphQLGuardConfig := ⟨maxDepth, 0, false, FinMap.empty⟩

/-! ## A cycle, and a chain -/

/-- A fragment that is a spread of itself has no replacement. -/
theorem not_expansion_self (hF : frags F = some [.fragmentSpread F]) (selections' : List Selection) :
    ¬ Expansion frags [.fragmentSpread F] selections' := by
  intro h
  generalize hself : [Selection.fragmentSpread F] = selections at h
  induction h with
  | nil => cases hself
  | field => cases hself
  | inlineFragment => cases hself
  | spread hname hbody hrest ihbody ihrest =>
    obtain ⟨rfl, -⟩ : F = _ ∧ [] = _ := by simpa using hself
    rw [hF] at hname
    exact ihbody (Option.some.inj hname)
  | unknown hname hrest ihrest =>
    obtain ⟨rfl, -⟩ : F = _ ∧ [] = _ := by simpa using hself
    rw [hF] at hname
    cases hname

def cyclicQuery : Text := "{...A}fragment A on T{...A}".toList

/-- `cyclicQuery`, parsed. -/
def cyclicDocument : Document :=
  ⟨[.operation .query [] [.fragmentSpread ['A']], .fragmentDefinition ['A'] ['T'] [.fragmentSpread ['A']]]⟩

def chainQuery : Text := "{a{...A}}fragment A on T{b{...B}}fragment B on T{c{d}}".toList

/-- `chainQuery`, parsed. -/
def chainDocument : Document :=
  ⟨[.operation .query [] [plainField ['a'] [.fragmentSpread ['A']]],
    .fragmentDefinition ['A'] ['T'] [plainField ['b'] [.fragmentSpread ['B']]],
    .fragmentDefinition ['B'] ['T'] [plainField ['c'] [plainField ['d'] []]]]⟩

/-- With the limit 4 it is within the limit, with the limit 3 it is not. -/
example : chainDocument.Measured 4 ∧ ¬ chainDocument.Measured 3 := by
  simp only [Document.Measured]
  decide

/-- What is executed of it. -/
def chainExecuted : List Selection := [plainField ['a'] [plainField ['b'] [plainField ['c'] [plainField ['d'] []]]]]

end GraphQL
