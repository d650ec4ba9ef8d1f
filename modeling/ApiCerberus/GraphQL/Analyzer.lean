import ApiCerberus.GraphQL.Parser
import ApiCerberus.Lib.Table

/-!
# The depth and the complexity of a query

The `Depth` methods (`internal/graphql/parser.go:24-171`), `internal/graphql/analyzer.go`, and what the guard is made of
(`internal/plugin/graphql_guard.go:10-53`). The trees are measured as they are written: a fragment spread has depth 1,
whatever the fragment selects.
-/

namespace GraphQL

open Parsing

/-! ## Depth -/

mutual

def Selection.depth : Selection → Nat
  | .field _ _ _ selections => if selections.isEmpty then 1 else deepest 1 selections 0
  | .fragmentSpread _ => 1
  | .inlineFragment _ selections => if selections.isEmpty then 1 else deepest 1 selections 0

/-- The loop of the `Depth` methods, with `maxDepth` so far. -/
def deepest (extra : Nat) : List Selection → Nat → Nat
  | [], maxDepth => maxDepth
  | sel :: selections, maxDepth =>
    deepest extra selections (if maxDepth < sel.depth + extra then sel.depth + extra else maxDepth)

end

def Definition.depth : Definition → Nat
  | .operation _ _ selections => deepest 0 selections 0
  | .fragmentDefinition _ _ selections => if selections.isEmpty then 1 else deepest 1 selections 0

/-- The deepest definition counts. -/
def Document.depth (doc : Document) : Nat :=
  doc.definitions.foldl (fun maxDepth d => if maxDepth < d.depth then d.depth else maxDepth) 0

/-! ## Complexity -/

structure AnalyzerConfig where
  maxDepth : Int
  maxComplexity : Int
  fieldCosts : FinMap Text Int
  defaultCost : Int

structure QueryAnalyzer where
  maxDepth : Int
  maxComplexity : Int
  fieldCosts : FinMap Text Int
  defaultCost : Int

/-- 0 stands for the default. -/
def newQueryAnalyzer (cfg : AnalyzerConfig) : QueryAnalyzer where
  maxDepth := if cfg.maxDepth = 0 then 15 else cfg.maxDepth
  maxComplexity := if cfg.maxComplexity = 0 then 1000 else cfg.maxComplexity
  fieldCosts := cfg.fieldCosts
  defaultCost := if cfg.defaultCost = 0 then 1 else cfg.defaultCost

/-- The result of an operation on `int`. -/
def int64 (n : Int) : Int := n.bmod (2 ^ 64)

namespace QueryAnalyzer

variable (a : QueryAnalyzer)

def getFieldCost (fieldName : Text) : Int := (a.fieldCosts.get? fieldName).getD a.defaultCost

mutual

/-- Arguments multiply the cost of a field. -/
def calculateComplexity : Selection → Int
  | .field name _ args selections =>
    let cost := addComplexity selections (a.getFieldCost name)
    if 0 < args.length then int64 (cost * (1 + args.length)) else cost
  | .fragmentSpread _ => a.defaultCost
  | .inlineFragment _ selections => addComplexity selections 0

/-- The loop over selections, with the sum so far. -/
def addComplexity : List Selection → Int → Int
  | [], total => total
  | sel :: selections, total => addComplexity selections (int64 (total + calculateComplexity sel))

end

/-- A fragment's selections do not count. -/
def definitionComplexity : Definition → Int
  | .operation _ _ selections => a.addComplexity selections 0
  | .fragmentDefinition _ _ _ => a.defaultCost

def documentComplexity (doc : Document) : Int :=
  doc.definitions.foldl (fun total d => int64 (total + a.definitionComplexity d)) 0

end QueryAnalyzer

/-! ## Analysis -/

structure AnalysisResult where
  depth : Int
  complexity : Int
  isValid : Bool
  errors : List String
  deriving DecidableEq

/-- A limit that is not positive is no limit. -/
def QueryAnalyzer.analyzeDocument (a : QueryAnalyzer) (doc : Document) : AnalysisResult :=
  let depth : Int := doc.depth
  let complexity := a.documentComplexity doc
  let maxDepth := a.maxDepth
  let maxComplexity := a.maxComplexity
  let tooDeep := 0 < maxDepth ∧ maxDepth < depth
  let tooComplex := 0 < maxComplexity ∧ maxComplexity < complexity
  { depth := depth
    complexity := complexity
    isValid := ¬ tooDeep ∧ ¬ tooComplex
    errors := (if tooDeep then [s!"query depth {depth} exceeds maximum {maxDepth}"] else []) ++
      if tooComplex then [s!"query complexity {complexity} exceeds maximum {maxComplexity}"] else [] }

/-- `none` if the parser does not return. -/
def QueryAnalyzer.analyze (a : QueryAnalyzer) (gas stack : Nat)
    (query : Text) : Option (Except ParseError AnalysisResult) :=
  match parseQuery gas stack query with
  | .ok doc _ => some (.ok (a.analyzeDocument doc))
  | .fail e _ => some (.error e)
  | .halt _ => none

/-! ## The guard -/

structure GraphQLGuardConfig where
  maxDepth : Int
  maxComplexity : Int
  blockIntrospection : Bool
  fieldCosts : FinMap Text Int

structure GraphQLGuard where
  maxDepth : Int
  maxComplexity : Int
  blockIntrospection : Bool
  analyzer : QueryAnalyzer

def newGraphQLGuard (config : GraphQLGuardConfig) : GraphQLGuard :=
  let maxDepth := if config.maxDepth = 0 then 15 else config.maxDepth
  let maxComplexity := if config.maxComplexity = 0 then 1000 else config.maxComplexity
  { maxDepth := maxDepth
    maxComplexity := maxComplexity
    blockIntrospection := config.blockIntrospection
    analyzer := newQueryAnalyzer ⟨maxDepth, maxComplexity, config.fieldCosts, 1⟩ }

/-! ## What the measures are -/

/-- The greatest depth of the selections. -/
def depths : List Selection → Nat
  | [] => 0
  | sel :: selections => max sel.depth (depths selections)

theorem deepest_eq (extra : Nat) (selections : List Selection) (m : Nat) :
    deepest extra selections m = if selections.isEmpty then m else max m (depths selections + extra) := by
  induction selections generalizing m with
  | nil => rfl
  | cons sel selections ih =>
    rw [deepest, ih, depths]
    cases selections with
    | nil =>
      simp only [List.isEmpty_nil, List.isEmpty_cons, Bool.false_eq_true, if_true, if_false, depths]
      split <;> omega
    | cons sel' selections =>
      simp only [List.isEmpty_cons, Bool.false_eq_true, if_false]
      split <;> omega

theorem deepest_one (selections : List Selection) :
    (if selections.isEmpty then 1 else deepest 1 selections 0) = depths selections + 1 := by
  cases selections with
  | nil => rfl
  | cons sel selections =>
    rw [deepest_eq]
    simp only [List.isEmpty_cons, Bool.false_eq_true, if_false]
    omega

@[simp] theorem depth_field (name fieldAlias : Text) (args : List Argument) (selections : List Selection) :
    (Selection.field name fieldAlias args selections).depth = depths selections + 1 := by
  rw [Selection.depth, deepest_one]

@[simp] theorem depth_inlineFragment (type : Text) (selections : List Selection) :
    (Selection.inlineFragment type selections).depth = depths selections + 1 := by
  rw [Selection.depth, deepest_one]

@[simp] theorem depth_fragmentSpread (name : Text) : (Selection.fragmentSpread name).depth = 1 := by
  rw [Selection.depth]

@[simp] theorem depth_operation (type : OperationType) (name : Text) (selections : List Selection) :
    (Definition.operation type name selections).depth = depths selections := by
  rw [Definition.depth, deepest_eq]
  cases selections with
  | nil => rfl
  | cons sel selections =>
    simp only [List.isEmpty_cons, Bool.false_eq_true, if_false]
    omega

theorem depths_append (selections selections' : List Selection) :
    depths (selections ++ selections') = max (depths selections) (depths selections') := by
  induction selections with
  | nil => simp [depths]
  | cons sel selections ih => rw [List.cons_append, depths, depths, ih, max_assoc]

theorem depth_le_document {doc : Document} {d : Definition} (h : d ∈ doc.definitions) : d.depth ≤ doc.depth := by
  have hfold : ∀ (ds : List Definition) (m : Nat),
      let maxDepth := ds.foldl (fun maxDepth d => if maxDepth < d.depth then d.depth else maxDepth) m
      m ≤ maxDepth ∧ ∀ d ∈ ds, d.depth ≤ maxDepth := by
    intro ds
    induction ds with
    | nil => exact fun m => ⟨le_rfl, fun d hd => by cases hd⟩
    | cons d' ds ih =>
      intro m
      obtain ⟨hm, hds⟩ := ih (if m < d'.depth then d'.depth else m)
      have hmax : m ≤ (if m < d'.depth then d'.depth else m) ∧ d'.depth ≤ (if m < d'.depth then d'.depth else m) := by
        split <;> omega
      refine ⟨hmax.1.trans hm, fun d hd => ?_⟩
      rcases List.mem_cons.1 hd with rfl | hd
      · exact hmax.2.trans hm
      · exact hds d hd
  exact (hfold doc.definitions 0).2 d h

/-- What a document that is valid satisfies. -/
theorem depth_le_of_isValid {a : QueryAnalyzer} {doc : Document} (hpos : 0 < a.maxDepth)
    (h : (a.analyzeDocument doc).isValid = true) :
    (doc.depth : Int) ≤ a.maxDepth := by
  have hvalid := (of_decide_eq_true h).1
  omega

end GraphQL
