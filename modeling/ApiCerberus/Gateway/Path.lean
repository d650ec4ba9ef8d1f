import ApiCerberus.Lib.Text

/-!
# Paths

`normalizePath`, `splitPath` and `classifyPath` (`internal/gateway/router.go:592-632`). Every path the
router and the proxy look at is rooted, so `path.Clean` is modelled for rooted paths: empty and `.`
segments are dropped, `..` takes the segment before it away.

`render` writes a list of segments as a path. On cleaned segments it is inverse to `splitPath`, and the
rest of the development speaks about segments only.
-/

namespace Gateway

/-- The path with the given segments. -/
def render (segs : List Text) : Text := '/' :: Text.join '/' segs

/-- One segment of `path.Clean`. -/
def cleanStep (kept : List Text) (seg : Text) : List Text :=
  if seg = [] ∨ seg = ['.'] then kept else if seg = ['.', '.'] then kept.dropLast else kept ++ [seg]

/-- The segments that `path.Clean` leaves of a rooted path. -/
def cleanSegments (path : Text) : List Text := (Text.split '/' path).foldl cleanStep []

/-- `path.Clean` of a rooted path. -/
def clean (path : Text) : Text := render (cleanSegments path)

def normalizePath (path : Text) : Text :=
  if Text.trimSpace path = [] then ['/'] else clean (if Text.hasPrefix path ['/'] then path else '/' :: path)

def splitPath (path : Text) : List Text :=
  let p := normalizePath path
  if p = ['/'] then [] else Text.split '/' (Text.trim (· == '/') p)

/-- How a path of a route is matched. -/
inductive PathKind
  | exact
  | withPrefix
  | regex
  deriving DecidableEq, Repr

def hasRegexMeta (path : Text) : Bool := path.any fun c => c ∈ "[](){}+?|^$\\*".toList

/-- Parameters and wildcards first, then regular expressions. -/
def classifyPath (path : Text) : PathKind :=
  if (splitPath path).any fun seg => seg = ['*'] || Text.hasPrefix seg [':'] then .withPrefix
  else if hasRegexMeta path then .regex
  else .exact

/-! ## Cleaned segments -/

/-- A segment as `path.Clean` leaves it. -/
structure IsSegment (seg : Text) : Prop where
  ne_nil : seg ≠ []
  ne_dot : seg ≠ ['.']
  ne_dotdot : seg ≠ ['.', '.']
  no_slash : '/' ∉ seg

variable {segs : List Text}

theorem isSegment_cleanSegments (path : Text) : ∀ seg ∈ cleanSegments path, IsSegment seg := by
  -- the fold keeps cleaned segments, and every segment it meets is free of slashes
  have fold : ∀ parts kept : List Text, (∀ s ∈ parts, '/' ∉ s) → (∀ s ∈ kept, IsSegment s) →
      ∀ s ∈ parts.foldl cleanStep kept, IsSegment s := by
    intro parts
    induction parts with
    | nil => exact fun kept _ hk => hk
    | cons part parts ih =>
      intro kept hp hk
      refine ih _ (fun s hs => hp s (List.mem_cons_of_mem _ hs)) fun s hs => ?_
      unfold cleanStep at hs
      split at hs
      · exact hk s hs
      · split at hs
        · exact hk s (List.dropLast_subset _ hs)
        · rename_i hne hdd
          rcases List.mem_append.1 hs with hs | hs
          · exact hk s hs
          · rw [List.mem_singleton.1 hs]
            exact ⟨fun h => hne (Or.inl h), fun h => hne (Or.inr h), hdd, hp part List.mem_cons_self⟩
  exact fold _ _ (fun s hs => Text.not_mem_of_mem_split hs) (by simp)

theorem cleanSegments_render (h : ∀ seg ∈ segs, IsSegment seg) : cleanSegments (render segs) = segs := by
  have fold : ∀ parts kept : List Text, (∀ s ∈ parts, IsSegment s) → parts.foldl cleanStep kept = kept ++ parts := by
    intro parts
    induction parts with
    | nil => simp
    | cons part parts ih =>
      intro kept hp
      have hpart := hp part List.mem_cons_self
      have hstep : cleanStep kept part = kept ++ [part] := by
        rw [cleanStep, if_neg (not_or.2 ⟨hpart.ne_nil, hpart.ne_dot⟩), if_neg hpart.ne_dotdot]
      rw [List.foldl_cons, hstep, ih _ fun s hs => hp s (List.mem_cons_of_mem _ hs)]
      simp
  unfold cleanSegments render
  rw [Text.split_cons_self, List.foldl_cons]
  cases segs with
  | nil => decide
  | cons seg segs =>
    rw [Text.split_join (fun s hs => (h s hs).no_slash) (List.cons_ne_nil _ _), fold _ _ h]
    simp [cleanStep]

/-- The segments of a path. -/
def segments (path : Text) : List Text :=
  if Text.trimSpace path = [] then [] else cleanSegments (if Text.hasPrefix path ['/'] then path else '/' :: path)

theorem isSegment_segments (path : Text) : ∀ seg ∈ segments path, IsSegment seg := by
  unfold segments
  split
  · simp
  · exact isSegment_cleanSegments _

theorem normalizePath_eq (path : Text) : normalizePath path = render (segments path) := by
  unfold normalizePath segments
  split
  · rfl
  · rfl

theorem segments_render (h : ∀ seg ∈ segs, IsSegment seg) : segments (render segs) = segs := by
  have hne : Text.trimSpace (render segs) ≠ [] := Text.trim_ne_nil (c := '/') List.mem_cons_self (by decide)
  have hp : Text.hasPrefix (render segs) ['/'] = true := Text.hasPrefix_append ['/'] _
  rw [segments, if_neg hne, if_pos hp, cleanSegments_render h]

theorem render_ne_root (h : ∀ seg ∈ segs, IsSegment seg) (hne : segs ≠ []) : render segs ≠ ['/'] := by
  intro heq
  have hroot := segments_render h
  rw [heq] at hroot
  exact hne (hroot.symm.trans (by decide))

theorem head_join (h : ∀ seg ∈ segs, IsSegment seg) : ∀ c ∈ (Text.join '/' segs).head?, c ≠ '/' := by
  intro c hc
  cases segs with
  | nil => cases hc
  | cons seg segs =>
    have hseg := h seg List.mem_cons_self
    obtain ⟨d, seg', rfl⟩ := List.exists_cons_of_ne_nil hseg.ne_nil
    have hd : (Text.join '/' ((d :: seg') :: segs)).head? = some d := by cases segs <;> simp
    rw [hd] at hc
    rintro rfl
    cases hc
    exact hseg.no_slash List.mem_cons_self

theorem getLast_join (h : ∀ seg ∈ segs, IsSegment seg) : ∀ c ∈ (Text.join '/' segs).getLast?, c ≠ '/' := by
  intro c hc
  -- the text ends with its last segment
  rcases List.eq_nil_or_concat segs with rfl | ⟨front, seg, rfl⟩
  · cases hc
  · have hseg := h seg (by simp)
    have hlast : (Text.join '/' (front ++ [seg])).getLast? = seg.getLast? := by
      obtain ⟨d, seg', rfl⟩ := List.exists_cons_of_ne_nil hseg.ne_nil
      cases front with
      | nil => simp
      | cons f front =>
        rw [Text.join_append (List.cons_ne_nil f front) (List.cons_ne_nil _ _), List.getLast?_append]
        simp [List.getLast?_cons]
    rw [List.concat_eq_append, hlast] at hc
    rintro rfl
    exact hseg.no_slash (List.mem_of_getLast? hc)

theorem trim_render (h : ∀ seg ∈ segs, IsSegment seg) : Text.trim (· == '/') (render segs) = Text.join '/' segs := by
  rw [render, Text.trim_cons _ (by decide)]
  exact Text.trim_self (fun c hc => by simpa using head_join h c hc) (fun c hc => by simpa using getLast_join h c hc)

theorem splitPath_eq (path : Text) : splitPath path = segments path := by
  have h := isSegment_segments path
  unfold splitPath
  rw [normalizePath_eq]
  cases hs : segments path with
  | nil => rfl
  | cons seg segs =>
    rw [← hs]
    have hne : segments path ≠ [] := by rw [hs]; exact List.cons_ne_nil _ _
    rw [if_neg (render_ne_root h hne), trim_render h, Text.split_join (fun s hs => (h s hs).no_slash) hne]

/-- `normalizePath` is idempotent. -/
theorem normalizePath_render (h : ∀ seg ∈ segs, IsSegment seg) : normalizePath (render segs) = render segs := by
  rw [normalizePath_eq, segments_render h]

theorem splitPath_render (h : ∀ seg ∈ segs, IsSegment seg) : splitPath (render segs) = segs := by
  rw [splitPath_eq, segments_render h]

end Gateway
