import ApiCerberus.Gateway.Path
import ApiCerberus.Lib.Table

/-!
# The route trie

`radixNode` in `internal/gateway/router.go:53-60, 337-437`; `route` and `service` are set together and are one field.
The Go code updates nodes in place; here an insertion returns the new node. `idx` is replaced by the list of the
segments that are left.
-/

namespace Gateway

/-- The parameters taken from a path. -/
abbrev Params := FinMap Text Text

/-- A node of the tree, with the route that ends here. -/
inductive RadixNode (α : Type)
  | mk (path : Text) (children : List (RadixNode α)) (route : Option α) (isWild : Bool) (paramKey : Text)

namespace RadixNode

variable {α : Type}

def path : RadixNode α → Text
  | mk p _ _ _ _ => p

def children : RadixNode α → List (RadixNode α)
  | mk _ cs _ _ _ => cs

def route : RadixNode α → Option α
  | mk _ _ r _ _ => r

def isWild : RadixNode α → Bool
  | mk _ _ _ w _ => w

def paramKey : RadixNode α → Text
  | mk _ _ _ _ k => k

/-- `&radixNode{}`. -/
def empty : RadixNode α := mk [] [] none false []

def setChildren (n : RadixNode α) (cs : List (RadixNode α)) : RadixNode α := mk n.path cs n.route n.isWild n.paramKey

/-- The first route of a node is kept. -/
def offer (n : RadixNode α) (r : α) : RadixNode α := mk n.path n.children (some (n.route.getD r)) n.isWild n.paramKey

/-- The child is the one `findOrCreate` returns for this segment. -/
def holds (seg : Text) (child : RadixNode α) : Bool :=
  if seg = ['*'] && child.isWild then true
  else if Text.hasPrefix seg [':'] && child.paramKey ≠ [] then true
  else !Text.hasPrefix seg [':'] && seg ≠ ['*'] && !child.isWild && child.paramKey = [] && child.path = seg

/-- A new node for a segment. -/
def create (seg : Text) : RadixNode α :=
  if seg = ['*'] then mk ['*'] [] none true []
  else if Text.hasPrefix seg [':'] && 1 < seg.length then mk seg [] none false (seg.drop 1)
  else mk seg [] none false []

/-- `findOrCreate` followed by the update of the child it returns. -/
def findOrCreate (seg : Text) (update : RadixNode α → RadixNode α) : List (RadixNode α) → List (RadixNode α)
  | [] => [update (create seg)]
  | child :: cs => if child.holds seg then update child :: cs else child :: findOrCreate seg update cs

end RadixNode

variable {α : Type}

/-- The first route of a path stays. -/
def insertSegments (r : α) : List Text → RadixNode α → RadixNode α
  | [], n => n.offer r
  | seg :: segs, n => n.setChildren (RadixNode.findOrCreate seg (insertSegments r segs) n.children)

def insertPath (root : RadixNode α) (path : Text) (r : α) : RadixNode α := insertSegments r (splitPath path) root

/-- `searchWildcard`, given the search below the node. -/
def searchWildcard (node : RadixNode α) (search : List Text → Option (α × Params)) (segs : List Text)
    (params : Params) : Option (α × Params) :=
  match node.route with
  | some r => some (r, params)
  | none => segs.tails.findSome? search

/-- A wildcard child that has a route, at the end of the path. -/
def wildRoute (children : List (RadixNode α)) (params : Params) : Option (α × Params) :=
  children.findSome? fun child => if child.isWild then child.route.map fun r => (r, params) else none

mutual

/-- Literals before parameters before wildcards. -/
def searchPath : RadixNode α → List Text → Params → Option (α × Params)
  | .mk _ children route _ _, [], params =>
    match route with
    | some r => some (r, params)
    | none => wildRoute children params
  | .mk _ children _ _ _, seg :: segs, params =>
    (searchLiteral children seg segs params).or
      ((searchParam children seg segs params).or (searchWild children (seg :: segs) params))

/-- The first loop of `searchPath`. -/
def searchLiteral : List (RadixNode α) → Text → List Text → Params → Option (α × Params)
  | [], _, _, _ => none
  | child :: cs, seg, segs, params =>
    if !child.isWild && child.paramKey = [] && child.path = seg then
      (searchPath child segs params).or (searchLiteral cs seg segs params)
    else searchLiteral cs seg segs params

/-- The second loop. -/
def searchParam : List (RadixNode α) → Text → List Text → Params → Option (α × Params)
  | [], _, _, _ => none
  | child :: cs, seg, segs, params =>
    if child.paramKey = [] then searchParam cs seg segs params
    else (searchPath child segs (params.set child.paramKey seg)).or (searchParam cs seg segs params)

/-- The third loop. -/
def searchWild : List (RadixNode α) → List Text → Params → Option (α × Params)
  | [], _, _ => none
  | child :: cs, segs, params =>
    if child.isWild then
      (searchWildcard child (fun rest => searchPath child rest params) segs params).or (searchWild cs segs params)
    else searchWild cs segs params

end

end Gateway
