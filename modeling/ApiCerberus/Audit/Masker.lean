import Mathlib.Data.String.Basic
import ApiCerberus.Lib.Codec
import ApiCerberus.Lib.JsonTree
import ApiCerberus.Lib.Text

/-!
# Masked bodies

`NewMasker` (without the headers), `MaskBody` and `maskJSONPath` in `internal/audit/masker.go`. `normal` is what
`json.Marshal` writes of an `any` that `json.Unmarshal` has read.

An object that was read is a map: of members with the same name the last one counts, and they are written in the
order of the names. Numbers become `float64`; `Float64` is how those are written.

Of a body that `json.Unmarshal` can read, exactly the members that the paths lead to are replaced, in whatever order the
paths are given. But a number that is too large for a `float64` is an error of `json.Unmarshal`, and so is nesting
beyond its limit; the body is then returned as it is, with every password in it (`password_shown`,
`maskBody_exact_iff`).
-/

namespace Audit

open Json Codec

/-! ## Configuration -/

/-- The parts of each path, and what stands in place of a value. -/
structure Masker where
  bodyFieldPath : List (List String)
  replacement : String

def defaultMaskBodyFields : List Text :=
  ["password".toList, "secret".toList, "token".toList, "access_token".toList, "refresh_token".toList, "api_key".toList,
    "api_secret".toList, "private_key".toList, "credit_card".toList]

/-- The segments of `a.b.c`. -/
def fieldParts (field : Text) : List String :=
  (((Text.split '.' (Text.trimSpace field)).map Text.trimSpace).filter (· ≠ [])).map String.ofList

/-- The paths of the configuration, or the default ones. -/
def bodyFieldPath (maskBodyFields : List Text) : List (List String) :=
  ((if maskBodyFields = [] then defaultMaskBodyFields else maskBodyFields).map fieldParts).filter (· ≠ [])

def newMasker (maskBodyFields : List Text) (replacement : Text) : Masker where
  bodyFieldPath := bodyFieldPath maskBodyFields
  replacement := if Text.trimSpace replacement = [] then "***REDACTED***" else String.ofList replacement

/-! ## Bodies -/

/-- How the `float64` that a number was read as is written. -/
structure Float64 where
  write : Number → Number
  write_write : ∀ n, write (write n) = write n
  finite : ∀ n, overflows n = false → overflows (write n) = false

/-- A member of a map, in the order of the names; one that is there already came later in the text. -/
def insertField (k : String) (x : Json) : List (String × Json) → List (String × Json)
  | [] => [(k, x)]
  | (k', x') :: fields =>
    if k < k' then (k, x) :: (k', x') :: fields else if k = k' then (k', x') :: fields
      else (k', x') :: insertField k x fields

mutual

/-- A document as `Unmarshal` reads it: numbers as floats, one member for each name. -/
def normal (float : Float64) : Json → Json
  | .number n => .number (float.write n)
  | .array elems => .array (normalElems float elems)
  | .object fields => .object (normalFields float fields)
  | .null => .null
  | .bool b => .bool b
  | .string s => .string s

def normalElems (float : Float64) : List Json → List Json
  | [] => []
  | x :: xs => normal float x :: normalElems float xs

def normalFields (float : Float64) : List (String × Json) → List (String × Json)
  | [] => []
  | (k, x) :: xs => insertField k (normal float x) (normalFields float xs)

end

mutual

/-- The values that the path leads to are replaced, in every element of an array on the way. -/
def maskJSONPath (replacement : String) : (parts : List String) → Json → Json
  | part :: parts, .object fields => .object (maskFields replacement part parts fields)
  | part :: parts, .array elems => .array (maskElems replacement (part :: parts) elems)
  | _, node => node

def maskElems (replacement : String) (parts : List String) : List Json → List Json
  | [] => []
  | x :: xs => maskJSONPath replacement parts x :: maskElems replacement parts xs

/-- The member `part`; a map has it at most once. -/
def maskFields (replacement : String) (part : String) (parts : List String) : List (String × Json) →
    List (String × Json)
  | [] => []
  | (k, x) :: xs =>
    (k, if k = part then if parts = [] then .string replacement else maskJSONPath replacement parts x else x) ::
      maskFields replacement part parts xs

end

def Masker.mask (m : Masker) (payload : Json) : Json :=
  m.bodyFieldPath.foldl (fun v path => maskJSONPath m.replacement path v) payload

/-- `json.Unmarshal` into an `any`. -/
def unmarshal (float : Float64) (raw : Text) : Option Json :=
  match parse raw with
  | .error _ => none
  | .ok payload =>
    match firstOverflow payload with
    | some _ => none
    | none => some (normal float payload)

/-- A body that cannot be read is returned as it is. -/
def maskBody (float : Float64) (m : Masker) (raw : Text) : Text :=
  if raw = [] then []
  else if m.bodyFieldPath = [] then raw
  else
    match unmarshal float raw with
    | none => raw
    | some payload => render (m.mask payload)

/-! ## Paths -/

variable {float : Float64} {m : Masker} {raw : Text}

theorem maskElems_eq (replacement : String) (parts : List String) (elems : List Json) :
    maskElems replacement parts elems = elems.map (maskJSONPath replacement parts) := by
  induction elems with
  | nil => rfl
  | cons x xs ih => rw [maskElems, ih, List.map_cons]

theorem maskFields_eq (replacement part : String) (parts : List String) (fields : List (String × Json)) :
    maskFields replacement part parts fields =
      fields.map fun f => (f.1, if f.1 = part then if parts = [] then .string replacement
        else maskJSONPath replacement parts f.2 else f.2) := by
  induction fields with
  | nil => rfl
  | cons f fs ih => rw [maskFields, ih, List.map_cons]

/-- One path. -/
theorem maskJSONPath_eq_replace (replacement : String) {parts : List String} (hne : parts ≠ []) (j : Json) :
    maskJSONPath replacement parts j = replace replacement (fun q => q = parts) j := by
  induction j using Json.induct generalizing parts with
  | null | bool | number | string => cases parts <;> rfl
  | array elems ih =>
    obtain ⟨part, parts, rfl⟩ := List.exists_cons_of_ne_nil hne
    rw [maskJSONPath, maskElems_eq, replace_array]
    exact congrArg Json.array (List.map_congr_left fun x hx => ih x hx hne)
  | object fields ih =>
    obtain ⟨part, parts, rfl⟩ := List.exists_cons_of_ne_nil hne
    rw [maskJSONPath, maskFields_eq, replace_object]
    refine congrArg Json.object (List.map_congr_left fun f hf => ?_)
    by_cases hpart : f.1 = part
    · by_cases hparts : parts = []
      · simp [hpart, hparts]
      · simp [hpart, hparts, Ne.symm hparts, ih f hf hparts]
    · simp [hpart, replace_false]

theorem mask_eq_replace (hne : ∀ path ∈ m.bodyFieldPath, path ≠ []) (j : Json) :
    m.mask j = replace m.replacement (fun q => q ∈ m.bodyFieldPath) j := by
  obtain ⟨paths, replacement⟩ := m
  unfold Masker.mask
  induction paths generalizing j with
  | nil => simp [replace_false]
  | cons path paths ih =>
    obtain ⟨hpath, hpaths⟩ := List.forall_mem_cons.1 hne
    rw [List.foldl_cons, ih _ hpaths, maskJSONPath_eq_replace replacement hpath, replace_replace]
    simp

theorem bodyFieldPath_ne_nil {fields : List Text} : ∀ path ∈ bodyFieldPath fields, path ≠ [] := fun path h => by
  simpa using (List.mem_filter.1 h).2

/-! ## Values that are written -/

/-- What `normal` makes of a value with at most `n` levels. -/
def Fits (float : Float64) : (n : Nat) → Json → Prop
  | _, .null | _, .bool _ | _, .string _ => True
  | _, .number x => float.write x = x ∧ overflows x = false
  | 0, .array _ | 0, .object _ => False
  | n + 1, .array elems => ∀ x ∈ elems, Fits float n x
  | n + 1, .object fields => fields.Pairwise (fun f f' => f.1 < f'.1) ∧ ∀ f ∈ fields, Fits float n f.2

variable {fields : List (String × Json)} {j : Json} {n : Nat}

theorem mem_insertField {k : String} {x : Json} {f : String × Json} (h : f ∈ insertField k x fields) :
    f = (k, x) ∨ f ∈ fields := by
  induction fields with
  | nil => exact .inl (List.mem_singleton.1 h)
  | cons f' fields ih =>
    unfold insertField at h
    split_ifs at h with h1 h2
    · exact List.mem_cons.1 h
    · exact .inr h
    · rcases List.mem_cons.1 h with rfl | h
      · exact .inr List.mem_cons_self
      · exact (ih h).imp_right (List.mem_cons_of_mem f')

theorem pairwise_insertField (k : String) (x : Json) (h : fields.Pairwise fun f f' => f.1 < f'.1) :
    (insertField k x fields).Pairwise fun f f' => f.1 < f'.1 := by
  induction fields with
  | nil => exact List.pairwise_singleton _ _
  | cons f fields ih =>
    obtain ⟨hf, hfields⟩ := List.pairwise_cons.1 h
    unfold insertField
    split_ifs with h1 h2
    · refine List.pairwise_cons.2 ⟨List.forall_mem_cons.2 ⟨h1, fun f' hf' => h1.trans (hf f' hf')⟩, h⟩
    · exact h
    · refine List.pairwise_cons.2 ⟨fun f' hf' => ?_, ih hfields⟩
      rcases mem_insertField hf' with rfl | hf'
      · exact lt_of_le_of_ne (not_lt.1 h1) (Ne.symm h2)
      · exact hf f' hf'

theorem insertField_of_lt {k : String} {x : Json} (h : ∀ f ∈ fields, k < f.1) :
    insertField k x fields = (k, x) :: fields := by
  cases fields with
  | nil => rfl
  | cons f fields => rw [insertField, if_pos (h f List.mem_cons_self)]

theorem fits_normal (hdepth : j.depth ≤ n) (hfinite : firstOverflow j = none) : Fits float n (normal float j) := by
  induction j using Json.induct generalizing n with
  | null | bool | string => cases n <;> trivial
  | number x =>
    have hx : overflows x = false := by simpa [firstOverflow] using hfinite
    cases n <;> exact ⟨float.write_write x, float.finite x hx⟩
  | array elems ih =>
    obtain ⟨n, rfl⟩ : ∃ k, n = k + 1 := Nat.exists_eq_add_one.2 (by rw [depth] at hdepth; omega)
    have hdepth' : depthElems elems ≤ n := Nat.le_of_succ_le_succ hdepth
    clear hdepth
    rw [firstOverflow] at hfinite
    change ∀ x ∈ normalElems float elems, Fits float n x
    induction elems with
    | nil => exact List.forall_mem_nil _
    | cons x xs ihxs =>
      obtain ⟨hx, hxs⟩ := List.forall_mem_cons.1 ih
      rw [depthElems, Nat.max_le] at hdepth'
      rw [firstOverflowElems, Option.or_eq_none_iff] at hfinite
      exact List.forall_mem_cons.2 ⟨hx hdepth'.1 hfinite.1, ihxs hxs hfinite.2 hdepth'.2⟩
  | object fields ih =>
    obtain ⟨n, rfl⟩ : ∃ k, n = k + 1 := Nat.exists_eq_add_one.2 (by rw [depth] at hdepth; omega)
    have hdepth' : depthFields fields ≤ n := Nat.le_of_succ_le_succ hdepth
    clear hdepth
    rw [firstOverflow] at hfinite
    change (normalFields float fields).Pairwise (fun f f' => f.1 < f'.1) ∧
      ∀ f ∈ normalFields float fields, Fits float n f.2
    induction fields with
    | nil => exact ⟨List.Pairwise.nil, List.forall_mem_nil _⟩
    | cons f fs ihfs =>
      obtain ⟨hf, hfs⟩ := List.forall_mem_cons.1 ih
      rw [depthFields, Nat.max_le] at hdepth'
      rw [firstOverflowFields, Option.or_eq_none_iff] at hfinite
      obtain ⟨hsorted, hfit⟩ := ihfs hfs hfinite.2 hdepth'.2
      refine ⟨pairwise_insertField _ _ hsorted, fun f' hf' => ?_⟩
      rcases mem_insertField hf' with rfl | hf'
      · exact hf hdepth'.1 hfinite.1
      · exact hfit f' hf'

theorem Fits.replace (s : String) (P : List String → Bool) (h : Fits float n j) : Fits float n (replace s P j) := by
  induction j using Json.induct generalizing n P with
  | null | bool | string | number => exact h
  | array elems ih =>
    cases n with
    | zero => exact h
    | succ n =>
      rw [replace_array]
      exact List.forall_mem_map.2 fun x hx => ih x hx P (h x hx)
  | object fields ih =>
    cases n with
    | zero => exact h
    | succ n =>
      rw [replace_object]
      refine ⟨List.pairwise_map.2 h.1, List.forall_mem_map.2 fun f hf => ?_⟩
      dsimp only
      split
      · cases n <;> trivial
      · exact ih f hf _ (h.2 f hf)

/-- Such a value is read as what it is. -/
theorem Fits.read (h : Fits float n j) : normal float j = j ∧ firstOverflow j = none ∧ j.depth ≤ n := by
  induction j using Json.induct generalizing n with
  | null | bool | string => exact ⟨rfl, rfl, Nat.zero_le _⟩
  | number x =>
    obtain ⟨hwrite, hx⟩ : float.write x = x ∧ overflows x = false := by cases n <;> exact h
    exact ⟨by rw [normal, hwrite], by simp [firstOverflow, hx], Nat.zero_le _⟩
  | array elems ih =>
    cases n with
    | zero => exact absurd h id
    | succ n =>
      have hall : normalElems float elems = elems ∧ firstOverflowElems elems = none ∧ depthElems elems ≤ n := by
        replace h : ∀ x ∈ elems, Fits float n x := h
        induction elems with
        | nil => exact ⟨rfl, rfl, Nat.zero_le _⟩
        | cons x xs ihxs =>
          obtain ⟨hx, hxs⟩ := List.forall_mem_cons.1 ih
          obtain ⟨hx1, hx2, hx3⟩ := hx (List.forall_mem_cons.1 h).1
          obtain ⟨hxs1, hxs2, hxs3⟩ := ihxs hxs (List.forall_mem_cons.1 h).2
          exact ⟨by rw [normalElems, hx1, hxs1], by rw [firstOverflowElems, hx2, hxs2]; rfl, Nat.max_le.2 ⟨hx3, hxs3⟩⟩
      exact ⟨congrArg Json.array hall.1, hall.2.1, Nat.succ_le_succ hall.2.2⟩
  | object fields ih =>
    cases n with
    | zero => exact absurd h id
    | succ n =>
      have hall : normalFields float fields = fields ∧ firstOverflowFields fields = none ∧ depthFields fields ≤ n := by
        obtain ⟨hsorted, h⟩ : fields.Pairwise (fun f f' : String × Json => f.1 < f'.1) ∧
          ∀ f ∈ fields, Fits float n f.2 := h
        induction fields with
        | nil => exact ⟨rfl, rfl, Nat.zero_le _⟩
        | cons f fs ihfs =>
          obtain ⟨hf, hfs⟩ := List.forall_mem_cons.1 ih
          obtain ⟨hlt, hsorted⟩ := List.pairwise_cons.1 hsorted
          obtain ⟨hf1, hf2, hf3⟩ := hf (List.forall_mem_cons.1 h).1
          obtain ⟨hfs1, hfs2, hfs3⟩ := ihfs hfs hsorted (List.forall_mem_cons.1 h).2
          exact ⟨by rw [normalFields, hf1, hfs1, insertField_of_lt hlt], by rw [firstOverflowFields, hf2, hfs2]; rfl,
            Nat.max_le.2 ⟨hf3, hfs3⟩⟩
      exact ⟨congrArg Json.object hall.1, hall.2.1, Nat.succ_le_succ hall.2.2⟩

theorem Fits.unmarshal_render (h : Fits float maxNestingDepth j) : unmarshal float (render j) = some j := by
  obtain ⟨hnormal, hfinite, hdepth⟩ := h.read
  have hparse := parse_render j
  rw [if_pos hdepth] at hparse
  simp [unmarshal, hparse, hfinite, hnormal]

/-! ## Masking a body -/

theorem mask_newMasker (fields : List Text) (replacement : Text) (j : Json) : (newMasker fields replacement).mask j =
    replace (newMasker fields replacement).replacement (fun q => q ∈ bodyFieldPath fields) j :=
  mask_eq_replace (m := newMasker fields replacement) bodyFieldPath_ne_nil j

theorem bodyFieldPath_perm {fields fields' : List Text} (h : fields'.Perm fields) :
    (bodyFieldPath fields').Perm (bodyFieldPath fields) := by
  unfold bodyFieldPath
  by_cases hnil : fields = []
  · have hnil' : fields' = [] := List.perm_nil.1 (hnil ▸ h)
    rw [hnil, hnil']
  · have hnil' : fields' ≠ [] := fun h' => hnil (List.nil_perm.1 (h' ▸ h))
    rw [if_neg hnil, if_neg hnil']
    exact (h.map fieldParts).filter _

theorem maskBody_of_unmarshal {payload : Json} (hread : unmarshal float raw = some payload)
    (hpaths : m.bodyFieldPath ≠ []) :
    maskBody float m raw = render (m.mask payload) := by
  have hraw : raw ≠ [] := by
    rintro rfl
    cases hread
  rw [maskBody, if_neg hraw, if_neg hpaths, hread]

theorem maskBody_no_paths (hpaths : m.bodyFieldPath = []) (raw : Text) : maskBody float m raw = raw := by
  unfold maskBody
  split_ifs with hraw
  · exact hraw.symm
  · rfl

theorem maskBody_of_none (hread : unmarshal float raw = none) : maskBody float m raw = raw := by
  unfold maskBody
  split_ifs with hraw
  · exact hraw.symm
  · rfl
  · rw [hread]

/-- The text is read as `d`, or is what is written of a `d` that nests too deep to be read. -/
def StandsFor (raw : Text) (d : Json) : Prop := if d.depth ≤ maxNestingDepth then parse raw = .ok d else raw = render d

theorem StandsFor.unique {d d' : Json} (h : StandsFor raw d) (h' : StandsFor raw d') : d = d' := by
  have hdeep : ∀ {x y : Json}, parse raw = .ok x → raw = render y → y.depth ≤ maxNestingDepth := by
    rintro x y hx rfl
    by_contra hy
    have hparse := parse_render y
    rw [if_neg hy, hx] at hparse
    obtain ⟨c, hc⟩ := hparse
    cases hc
  unfold StandsFor at h h'
  split at h <;> split at h'
  · rw [h] at h'
    cases h'
    rfl
  · exact absurd (hdeep h h') ‹_›
  · exact absurd (hdeep h' h) ‹_›
  · exact render_injective (h.symm.trans h')

/-- A text is read unless its document nests too deep or has a number that is no `float64`. -/
theorem StandsFor.unmarshal {d : Json} (h : StandsFor raw d) :
    unmarshal float raw = if d.depth ≤ maxNestingDepth ∧ firstOverflow d = none then
      some (normal float d) else none := by
  unfold StandsFor at h
  unfold Audit.unmarshal
  by_cases hdepth : d.depth ≤ maxNestingDepth
  · rw [if_pos hdepth] at h
    rw [h]
    cases hfinite : firstOverflow d <;> simp [hdepth, hfinite]
  · rw [if_neg hdepth] at h
    have hparse := parse_render d
    rw [if_neg hdepth, ← h] at hparse
    obtain ⟨c, hc⟩ := hparse
    rw [hc]
    simp [hdepth]

/-- Of a body that stands for `d` exactly what the paths lead to is replaced, in whatever order they are given, and once
for all. Documents are compared as they are read. -/
structure Masked (float : Float64) (fields : List Text) (replacement raw : Text) (d : Json) : Prop where
  exact : ∃ d', StandsFor (maskBody float (newMasker fields replacement) raw) d' ∧
    Replaced (newMasker fields replacement).replacement (fun q => q ∈ bodyFieldPath fields)
      (normal float d) (normal float d')
  order : ∀ fields', fields'.Perm fields → maskBody float (newMasker fields' replacement) raw =
    maskBody float (newMasker fields replacement) raw
  again : maskBody float (newMasker fields replacement) (maskBody float (newMasker fields replacement) raw) =
    maskBody float (newMasker fields replacement) raw

/-- A body that is read is masked at every place. -/
theorem masked_of_read (fields : List Text) (replacement : Text) {d : Json} (hd : StandsFor raw d)
    (hpaths : bodyFieldPath fields ≠ [])
    (hdepth : d.depth ≤ maxNestingDepth) (hfinite : firstOverflow d = none) :
      Masked float fields replacement raw d := by
  have hread : unmarshal float raw = some (normal float d) := by rw [hd.unmarshal, if_pos ⟨hdepth, hfinite⟩]
  have hmask := maskBody_of_unmarshal (m := newMasker fields replacement) hread hpaths
  have hfits : Fits float maxNestingDepth ((newMasker fields replacement).mask (normal float d)) := by
    rw [mask_newMasker]
    exact (fits_normal hdepth hfinite).replace _ _
  refine ⟨⟨(newMasker fields replacement).mask (normal float d), ?_, ?_⟩, fun fields' h => ?_, ?_⟩
  · have hparse := parse_render ((newMasker fields replacement).mask (normal float d))
    rw [if_pos hfits.read.2.2] at hparse
    rwa [hmask, StandsFor, if_pos hfits.read.2.2]
  · rw [hfits.read.1, mask_newMasker]
    exact replaced_replace _ _ _
  · have hperm := bodyFieldPath_perm h
    have hpaths' : bodyFieldPath fields' ≠ [] := fun h' => hpaths (List.nil_perm.1 (h' ▸ hperm))
    rw [maskBody_of_unmarshal (m := newMasker fields' replacement) hread hpaths', hmask, mask_newMasker, mask_newMasker]
    simp only [hperm.mem_iff]
    rfl
  · rw [hmask, maskBody_of_unmarshal (m := newMasker fields replacement) hfits.unmarshal_render hpaths]
    rw [mask_newMasker, mask_newMasker, replace_replace]
    simp

/-- A body that is returned as it is, whatever the order of the paths, is masked iff nothing in it has to be
replaced. -/
theorem masked_iff_of_same (fields : List Text) (replacement : Text) {d : Json} (hd : StandsFor raw d)
    (hsame : ∀ fields', fields'.Perm fields → maskBody float (newMasker fields' replacement) raw = raw) :
    Masked float fields replacement raw d ↔
      Replaced (newMasker fields replacement).replacement (fun q => q ∈ bodyFieldPath fields) (normal float d)
        (normal float d) := by
  have hraw := hsame fields (List.Perm.refl _)
  constructor
  · rintro ⟨⟨d', hd', hreplaced⟩, -, -⟩
    rw [hraw] at hd'
    rwa [hd'.unique hd] at hreplaced
  · intro h
    exact ⟨⟨d, by rwa [hraw], h⟩, fun fields' hperm => (hsame fields' hperm).trans hraw.symm, by rw [hraw, hraw]⟩

/-- **What is masked**: a body that stands for `d` is masked iff it can be read, or what the paths lead to first is the
replacement already; in particular if they lead nowhere. -/
theorem maskBody_exact_iff (float : Float64) (fields : List Text) (replacement : Text) {raw : Text} {d : Json}
    (hd : StandsFor raw d) :
    Masked float fields replacement raw d ↔ (d.depth ≤ maxNestingDepth ∧ firstOverflow d = none) ∨
      ∀ a, Reached (fun q => q ∈ bodyFieldPath fields) a →
        (∀ b, Reached (fun q => q ∈ bodyFieldPath fields) b → b <+: a → b = a) →
        ∀ x ∈ (normal float d).get? a, x = .string (newMasker fields replacement).replacement := by
  rw [← replaced_self]
  by_cases hpaths : bodyFieldPath fields = []
  · have hsame : ∀ fields', fields'.Perm fields → maskBody float (newMasker fields' replacement) raw = raw :=
      fun fields' h => maskBody_no_paths (List.perm_nil.1 (hpaths ▸ bodyFieldPath_perm h)) raw
    have hnone := replaced_replace (newMasker fields replacement).replacement
      (fun q => q ∈ bodyFieldPath fields) (normal float d)
    rw [masked_iff_of_same fields replacement hd hsame]
    simp only [hpaths, List.not_mem_nil, decide_false, replace_false] at hnone ⊢
    exact iff_of_true hnone (.inr hnone)
  · by_cases hread : d.depth ≤ maxNestingDepth ∧ firstOverflow d = none
    · exact iff_of_true (masked_of_read fields replacement hd hpaths hread.1 hread.2) (.inl hread)
    · have hsame : ∀ fields', fields'.Perm fields → maskBody float (newMasker fields' replacement) raw = raw :=
        fun fields' _ => maskBody_of_none (by rw [hd.unmarshal, if_neg hread])
      rw [or_iff_right hread, masked_iff_of_same fields replacement hd hsame]

/-- Numbers are written as they are read. -/
def asWritten : Float64 := ⟨id, fun _ => rfl, fun _ h => h⟩

def account : Json :=
  .object [("users", .array [.object [("password", .string "x"), ("id", .number (.ofNat 1))], .null]),
    ("password", .null)]

/-- A password below `users` is masked, the other one stays. -/
theorem maskBody_exact_iff_account : Masked asWritten ["users.password".toList] [] (render account) account := by
  have hdepth : account.depth ≤ maxNestingDepth := by decide
  have hparse := parse_render account
  rw [if_pos hdepth] at hparse
  exact (maskBody_exact_iff asWritten ["users.password".toList] [] (by rwa [StandsFor, if_pos hdepth])).2
    (.inl ⟨hdepth, by decide +kernel⟩)

/-- One member with a number that is too large, or one with too many levels, and nothing is masked. -/
theorem password_shown :
    maskBody asWritten (newMasker [] []) "\x7b\"password\":\"x\",\"n\":1e+40\x7d".toList =
      "\x7b\"n\":1e+40,\"password\":\"***REDACTED***\"\x7d".toList ∧
    (parse "\x7b\"password\":\"x\",\"n\":1e400\x7d".toList).isOk = true ∧
    maskBody asWritten (newMasker [] []) "\x7b\"password\":\"x\",\"n\":1e400\x7d".toList =
      "\x7b\"password\":\"x\",\"n\":1e400\x7d".toList ∧
    (∀ x : Json, maxNestingDepth ≤ x.depth →
      maskBody asWritten (newMasker [] []) (render (.object [("n", x), ("password", .string "x")])) =
      render (.object [("n", x), ("password", .string "x")])) := by
  refine ⟨by decide +kernel, by decide +kernel, by decide +kernel, fun x hx => maskBody_of_none ?_⟩
  have hdeep : ¬ (Json.object [("n", x), ("password", .string "x")]).depth ≤ maxNestingDepth := by
    simp only [depth, depthFields]
    omega
  rw [StandsFor.unmarshal (d := .object [("n", x), ("password", .string "x")]) (by rw [StandsFor, if_neg hdeep]),
    if_neg fun h => hdeep h.1]

end Audit
