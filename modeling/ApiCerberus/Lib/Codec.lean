import ApiCerberus.Lib.Json
import ApiCerberus.Lib.Rfc3339
import ApiCerberus.Lib.Table

/-!
# Go values as JSON

A `Codec` says how `encoding/json` writes the values of a Go type, and how it reads a JSON value into a variable of that
type. The Go types are built with `struct`, `ptr`, `slice` and `mapOf` from the basic ones.

Reading follows `Unmarshal`: a value of the wrong kind is skipped and the first such error is kept, an error of an
`UnmarshalJSON` method ends the reading at once; `null` leaves a variable as it is, or makes it nil; the key of an
object is matched exactly, or else without regard to case; a variable that is read into twice keeps what the second
value does not mention.

`Carried c d v`: the codec `c` reads `v` back from what it has written, at most `d` levels deep. `unmarshal_marshal` is
the round trip.
-/

namespace Json

/-! ## Errors -/

/-- The struct and the path of fields that is being read (`errorContext`). -/
structure Context where
  struct : String
  path : List String

def Context.root : Context := ⟨"", []⟩

def Context.enter (ctx : Context) (struct field : String) : Context := ⟨struct, ctx.path ++ [field]⟩

/-- `UnmarshalTypeError`, without the offset, which its text does not show. -/
structure TypeError where
  value : String
  goType : String
  ctx : Context

/-- The text of `UnmarshalTypeError`. -/
def TypeError.text (e : TypeError) : String :=
  if e.ctx.struct ≠ "" ∨ e.ctx.path ≠ [] then
    "json: cannot unmarshal " ++ e.value ++ " into Go struct field " ++ e.ctx.struct ++ "." ++
      ".".intercalate e.ctx.path ++ " of type " ++ e.goType
  else "json: cannot unmarshal " ++ e.value ++ " into Go value of type " ++ e.goType

/-- Reading keeps the first type error and goes on; other errors end it. -/
abbrev Decode := StateT (Option TypeError) (Except String)

/-- Only the first error is kept. -/
def saveError (e : TypeError) : Decode Unit := modify fun saved => saved.or (some e)

/-- How an error names a value. -/
def kind : Json → String
  | .null => "null"
  | .bool _ => "bool"
  | .number _ => "number"
  | .string _ => "string"
  | .array _ => "array"
  | .object _ => "object"

end Json

open Json

/-- How a Go type is written to JSON and read from it. -/
structure Codec (α : Type) where
  zero : α
  goType : String
  encode : α → Json
  decode : Context → α → Json → Decode α

namespace Codec

variable {α β : Type}

/-- A value of the wrong kind leaves the variable as it is. -/
def refuse (ctx : Context) (value goType : String) (v : α) : Decode α := do
  saveError ⟨value, goType, ctx⟩
  pure v

/-- `json.Marshal`. -/
def marshal (c : Codec α) (v : α) : List Char := render (c.encode v)

/-- What `Unmarshal` returns once the text has been read. -/
def read (c : Codec α) (v : α) (j : Json) : Except String α :=
  match (c.decode .root v j).run none with
  | .error err => .error err
  | .ok (_, some e) => .error e.text
  | .ok (a, none) => .ok a

/-- `json.Unmarshal`. -/
def unmarshal (c : Codec α) (v : α) (text : List Char) : Except String α :=
  match parse text with
  | .error e => .error e.text
  | .ok j => c.read v j

/-! ## Basic types -/

def string : Codec String where
  zero := ""
  goType := "string"
  encode := .string
  decode ctx v
    | .null => pure v
    | .string s => pure s
    | j => refuse ctx j.kind "string" v

def bool : Codec Bool where
  zero := false
  goType := "bool"
  encode := .bool
  decode ctx v
    | .null => pure v
    | .bool b => pure b
    | j => refuse ctx j.kind "bool" v

/-- A whole number, as `strconv.ParseInt` reads it before it looks at the range. -/
def whole (n : Number) : Option Int :=
  if n.fraction = none ∧ n.exponent = none then some (if n.negative then -(n.whole : Int) else n.whole) else none

/-- `int` and `int64`. -/
def int (goType : String) : Codec Int64 where
  zero := 0
  goType := goType
  encode v := .number { negative := v.toInt < 0, whole := v.toInt.natAbs, fraction := none, exponent := none }
  decode ctx v
    | .null => pure v
    | .number n =>
      match whole n with
      | some k =>
        if -9223372036854775808 ≤ k ∧ k < 9223372036854775808 then pure (Int64.ofInt k)
        else refuse ctx ("number " ++ String.ofList (renderNumber n)) goType v
      | none => refuse ctx ("number " ++ String.ofList (renderNumber n)) goType v
    | j => refuse ctx j.kind goType v

/-- `uint64`, for a natural number: `strconv.ParseUint` takes no sign. -/
def uint64 : Codec Nat where
  zero := 0
  goType := "uint64"
  encode v := .number (.ofNat (v % UInt64.size))
  decode ctx v
    | .null => pure v
    | .number n =>
      if n.negative = false ∧ n.fraction = none ∧ n.exponent = none ∧ n.whole < UInt64.size then pure n.whole
      else refuse ctx ("number " ++ String.ofList (renderNumber n)) "uint64" v
    | j => refuse ctx j.kind "uint64" v

/-- `time.Time`. -/
def time : Codec Time where
  zero := .zero
  goType := "time.Time"
  encode t := .string (String.ofList t.format)
  decode _ v
    | .null => pure v
    | .string s =>
      match Time.parse s.toList with
      | .ok t => pure t
      | .error err => throw err
    | _ => throw "Time.UnmarshalJSON: input is not a JSON string"

/-- `strconv.ParseFloat` reports what is rounded to infinity: numbers from `2^1024 - 2^970` on. -/
def overflows (n : Number) : Bool :=
  if 0 ≤ n.scale then Nat.pow 2 1024 - Nat.pow 2 970 ≤ n.digits * Nat.pow 10 n.scale.toNat
  else (Nat.pow 2 1024 - Nat.pow 2 970) * Nat.pow 10 (-n.scale).toNat ≤ n.digits

mutual

/-- The first number in a value that is no `float64`. -/
def firstOverflow : Json → Option Number
  | .number n => if overflows n then some n else none
  | .array elems => firstOverflowElems elems
  | .object fields => firstOverflowFields fields
  | .null | .bool _ | .string _ => none

def firstOverflowElems : List Json → Option Number
  | [] => none
  | x :: xs => (firstOverflow x).or (firstOverflowElems xs)

def firstOverflowFields : List (String × Json) → Option Number
  | [] => none
  | (_, x) :: xs => (firstOverflow x).or (firstOverflowFields xs)

end

def isNull : Json → Bool
  | .null => true
  | _ => false

/-- What is read into an `any`, unless that becomes nil: a bool, a `float64`, a string, a slice or a map.
It is kept as the JSON value it was read from. -/
def Any : Type := { v : Json // isNull v = false ∧ firstOverflow v = none }

/-- `any`; `none` is its nil. -/
def any : Codec (Option Any) where
  zero := none
  goType := "interface \x7b\x7d"
  encode v := v.elim .null Subtype.val
  decode ctx v j :=
    if h : isNull j = false ∧ firstOverflow j = none then pure (some ⟨j, h⟩)
    else
      match firstOverflow j with
      | some n => refuse ctx ("number " ++ String.ofList (renderNumber n)) "float64" v
      | none => pure none

def base64Digit (n : Nat) : Char :=
  if n < 26 then Char.ofNat ('A'.toNat + n)
  else if n < 52 then Char.ofNat ('a'.toNat + (n - 26))
  else if n < 62 then Char.ofNat ('0'.toNat + (n - 52))
  else if n = 62 then '+'
  else '/'

/-- `base64.StdEncoding`. -/
def base64 : List UInt8 → List Char
  | a :: b :: c :: rest =>
    let n := a.toNat * 65536 + b.toNat * 256 + c.toNat
    base64Digit (n / 262144) :: base64Digit (n / 4096 % 64) :: base64Digit (n / 64 % 64) :: base64Digit
      (n % 64) :: base64 rest
  | [a, b] =>
    let n := a.toNat * 65536 + b.toNat * 256
    [base64Digit (n / 262144), base64Digit (n / 4096 % 64), base64Digit (n / 64 % 64), '=']
  | [a] =>
    let n := a.toNat * 65536
    [base64Digit (n / 262144), base64Digit (n / 4096 % 64), '=', '=']
  | [] => []

/-- How a `[]byte` is written that holds the UTF-8 text `t`. -/
def encodeBytes (t : List Char) : Json := .string (String.ofList (base64 (t.flatMap String.utf8EncodeChar)))

/-- `json.RawMessage`, as the value its text stands for; `none` is its nil. -/
def raw : Codec (Option Json) where
  zero := none
  goType := "json.RawMessage"
  encode v := v.getD .null
  decode _ _ j := pure (some j)

/-! ## Types built from others -/

/-- A type that is kept in another form. -/
def via (c : Codec α) (f : α → β) (g : β → α) : Codec β where
  zero := f c.zero
  goType := c.goType
  encode v := c.encode (g v)
  decode ctx v j := do
    let a ← c.decode ctx (g v) j
    pure (f a)

/-- A pointer: `nil` is `null`. -/
def ptr (c : Codec α) : Codec (Option α) where
  zero := none
  goType := "*" ++ c.goType
  encode v := v.elim .null c.encode
  decode ctx v
    | .null => pure none
    | j => do
      let a ← c.decode ctx (v.getD c.zero) j
      pure (some a)

/-- A slice; `none` is its nil. -/
def slice (c : Codec α) : Codec (Option (List α)) where
  zero := none
  goType := "[]" ++ c.goType
  encode v := v.elim .null fun l => .array (l.map c.encode)
  decode ctx v
    | .null => pure none
    | .array elems => do
      let l ← elems.mapM (c.decode ctx c.zero)
      pure (some l)
    | j => refuse ctx j.kind ("[]" ++ c.goType) v

def nilIfEmpty : List α → Option (List α)
  | [] => none
  | l => some l

/-- A slice of which only the elements are looked at; it is nil if it is empty. -/
def list (c : Codec α) : Codec (List α) := c.slice.via (fun l => l.getD []) nilIfEmpty

/-- `map[string]T`; `none` is its nil. Keys are written in order. -/
def mapOf (c : Codec α) : Codec (Option (FinMap String α)) where
  zero := none
  goType := "map[string]" ++ c.goType
  encode v := v.elim .null fun m => .object (m.rows.map fun r => (r.1, c.encode r.2))
  decode ctx v
    | .null => pure none
    | .object fields => do
      let m ← fields.foldlM (fun m f => do
        let a ← c.decode ctx c.zero f.2
        pure (m.set f.1 a)) (v.getD .empty)
      pure (some m)
    | j => refuse ctx j.kind ("map[string]" ++ c.goType) v

/-- A field of a struct. `omitted`: the option `omitempty` leaves it out. -/
structure Field (α : Type) where
  name : String
  omitted : α → Bool
  write : α → Json
  read : Context → α → Json → Decode α

/-- A field of a struct, under its JSON name. -/
def field (name : String) (c : Codec β) (get : α → β) (set : α → β → α) : Field α where
  name := name
  omitted _ := false
  write a := c.encode (get a)
  read ctx a j := do
    let b ← c.decode ctx (get a) j
    pure (set a b)

/-- A pointer with the option `omitempty`. -/
def optional (name : String) (c : Codec β) (get : α → Option β) (set : α → Option β → α) : Field α :=
  { field name c.ptr get set with omitted := fun a => (get a).isNone }

/-- `foldRune`, as far as it ends at an ASCII character. -/
def foldChar (c : Char) : Char := if c = '\u017f' then 'S' else if c = '\u212a' then 'K' else c.toUpper

def foldName (s : String) : List Char := s.toList.map foldChar

/-- A name is matched exactly, or else up to case. -/
def findField (fields : List (Field α)) (key : String) : Option (Field α) :=
  (fields.find? fun f => f.name = key).or (fields.find? fun f => foldName f.name = foldName key)

/-- Keys that name no field are skipped. -/
def readField (name : String) (fields : List (Field α)) (ctx : Context) (a : α) (member : String × Json) : Decode α :=
  match findField fields member.1 with
  | some f => f.read (ctx.enter name f.name) a member.2
  | none => pure a

/-- A struct with the type name `name`; `goType` names the type in errors. -/
def struct (name goType : String) (zero : α) (fields : List (Field α)) : Codec α where
  zero := zero
  goType := goType
  encode a := .object ((fields.filter fun f => !f.omitted a).map fun f => (f.name, f.write a))
  decode ctx a
    | .null => pure a
    | .object members => members.foldlM (readField name fields ctx) a
    | j => refuse ctx j.kind goType a

/-! ## What is written is read back -/

/-- `v` comes back from its JSON, which is at most `d` levels deep. -/
structure Carried (c : Codec α) (d : Nat) (v : α) : Prop where
  decode : ∀ ctx, c.decode ctx c.zero (c.encode v) = pure v
  depth : (c.encode v).depth ≤ d

variable {fields : List (Field α)} {c : Codec α} {d : Nat} {name : String} {set : α → β → α} {get : α → β} {v acc : α}

/-- **Round trip** through the text. -/
theorem unmarshal_marshal (h : c.Carried d v) (hd : d ≤ maxNestingDepth) :
    c.unmarshal c.zero (c.marshal v) = .ok v := by
  have hparse := parse_render (c.encode v)
  rw [if_pos (h.depth.trans hd)] at hparse
  rw [unmarshal, marshal, hparse]
  dsimp only [read]
  rw [h.decode]
  rfl

/-- Without a bound on the depth, the text may be refused. -/
theorem unmarshal_marshal_or (h : ∀ ctx, c.decode ctx c.zero (c.encode v) = pure v) :
    c.unmarshal c.zero (c.marshal v) = .ok v ∨ ∃ err, c.unmarshal c.zero (c.marshal v) = .error err := by
  have hparse := parse_render (c.encode v)
  split at hparse
  · rename_i hd
    exact Or.inl (unmarshal_marshal ⟨h, le_refl _⟩ hd)
  · obtain ⟨x, hx⟩ := hparse
    exact Or.inr ⟨_, by rw [unmarshal, marshal, hx]⟩

theorem carried_string (s : String) : string.Carried 0 s := ⟨fun _ => rfl, le_refl _⟩

theorem carried_bool (b : Bool) : bool.Carried 0 b := ⟨fun _ => rfl, le_refl _⟩

theorem carried_int (goType : String) (v : Int64) : (int goType).Carried 0 v where
  decode ctx := by
    have hlo := v.le_toInt
    have hhi := v.toInt_lt
    have hval : (if decide (v.toInt < 0) = true then -(v.toInt.natAbs : Int) else v.toInt.natAbs) = v.toInt := by
      simp only [decide_eq_true_eq]
      split <;> omega
    simp only [int, whole, and_self, if_true, hval]
    rw [if_pos ⟨hlo, hhi⟩, Int64.ofInt_toInt]
  depth := le_refl _

theorem carried_uint64 {v : Nat} (h : v < UInt64.size) : uint64.Carried 0 v where
  decode ctx := by
    simp only [uint64, Number.ofNat, Nat.mod_eq_of_lt h, h, and_self, if_true]
  depth := le_refl _

theorem carried_time {t : Time} (h : t.Encodable) : time.Carried 0 t where
  decode ctx := by
    simp only [time, String.toList_ofList, Time.parse_format h]
  depth := le_refl _

theorem decode_any (v : Option Any) (ctx : Context) : any.decode ctx any.zero (any.encode v) = pure v := by
  cases v with
  | none => rfl
  | some v => exact dif_pos v.2

theorem Carried.via {f : α → β} {g : β → α} {v : β} (h : c.Carried d (g v)) (hz : g (f c.zero) = c.zero)
    (hv : f (g v) = v) : (c.via f g).Carried d v where
  decode ctx := by
    show (c.decode ctx (g (f c.zero)) (c.encode (g v)) >>= fun a => pure (f a)) = _
    rw [hz, h.decode, pure_bind, hv]
  depth := h.depth

theorem carried_nil (c : Codec α) (d : Nat) : c.ptr.Carried d none := ⟨fun _ => rfl, Nat.zero_le _⟩

theorem Carried.ptr (h : c.Carried d v) (hne : c.encode v ≠ .null) : c.ptr.Carried d (some v) where
  decode ctx := by
    show c.ptr.decode ctx none (c.encode v) = _
    have hread : c.ptr.decode ctx none (c.encode v) =
        (c.decode ctx c.zero (c.encode v) >>= fun a => pure (some a)) := by
      generalize c.encode v = j at hne
      cases j <;> first | exact absurd rfl hne | rfl
    rw [hread, h.decode, pure_bind]
  depth := h.depth

theorem depthElems_le {l : List Json} (h : ∀ j ∈ l, j.depth ≤ d) : depthElems l ≤ d := by
  induction l with
  | nil => exact Nat.zero_le _
  | cons j l ih =>
    rw [depthElems]
    exact Nat.max_le.2 ⟨h j List.mem_cons_self, ih fun x hx => h x (List.mem_cons_of_mem _ hx)⟩

theorem le_depthElems {l : List Json} {j : Json} (h : j ∈ l) : j.depth ≤ depthElems l := by
  induction l with
  | nil => cases h
  | cons x l ih =>
    rw [depthElems]
    rcases List.mem_cons.1 h with rfl | h
    · exact le_max_left _ _
    · exact le_max_of_le_right (ih h)

theorem depthFields_le {l : List (String × Json)} (h : ∀ f ∈ l, f.2.depth ≤ d) : depthFields l ≤ d := by
  induction l with
  | nil => exact Nat.zero_le _
  | cons f l ih =>
    rw [depthFields]
    exact Nat.max_le.2 ⟨h f List.mem_cons_self, ih fun x hx => h x (List.mem_cons_of_mem _ hx)⟩

theorem carried_slice {v : Option (List α)} (h : ∀ l ∈ v, ∀ x ∈ l, c.Carried d x) :
    c.slice.Carried (d + 1) v := by
  cases v with
  | none => exact ⟨fun _ => rfl, Nat.zero_le _⟩
  | some l =>
    have hl := h l rfl
    have hread : ∀ ctx, (l.map c.encode).mapM (c.decode ctx c.zero) = pure l := by
      intro ctx
      clear h
      induction l with
      | nil => rfl
      | cons x l ih =>
        rw [List.map_cons, List.mapM_cons, (hl x List.mem_cons_self).decode, pure_bind,
          ih fun y hy => hl y (List.mem_cons_of_mem _ hy), pure_bind]
    refine ⟨fun ctx => ?_, ?_⟩
    · show ((l.map c.encode).mapM (c.decode ctx c.zero) >>= fun l => pure (some l)) = _
      rw [hread, pure_bind]
    · refine Nat.succ_le_succ (depthElems_le fun j hj => ?_)
      obtain ⟨x, hx, rfl⟩ := List.mem_map.1 hj
      exact (hl x hx).depth

theorem carried_list {l : List α} (h : ∀ x ∈ l, c.Carried d x) : c.list.Carried (d + 1) l := by
  refine Carried.via (carried_slice fun l' hl' x hx => h x ?_) rfl ?_
  · cases l with
    | nil => cases hl'
    | cons y l => cases hl'; exact hx
  · cases l <;> rfl

theorem carried_mapOf {v : Option (FinMap String α)} (h : ∀ m ∈ v, ∀ r ∈ m.rows, c.Carried d r.2) :
    c.mapOf.Carried (d + 1) v := by
  cases v with
  | none => exact ⟨fun _ => rfl, Nat.zero_le _⟩
  | some m =>
    have hm := h m rfl
    refine ⟨fun ctx => ?_, ?_⟩
    · show ((m.rows.map fun r => (r.1, c.encode r.2)).foldlM (fun m f => c.decode ctx c.zero f.2 >>= fun a =>
        pure (m.set f.1 a)) FinMap.empty >>= fun m => pure (some m)) = _
      have hread : ∀ rows : List (String × α), (∀ r ∈ rows, c.Carried d r.2) → ∀ acc : FinMap String α,
          (rows.map fun r => (r.1, c.encode r.2)).foldlM (fun m f => c.decode ctx c.zero f.2 >>= fun a =>
            pure (m.set f.1 a)) acc = (pure (rows.foldl (fun m r => m.set r.1 r.2) acc) : Decode _) := by
        intro rows
        induction rows with
        | nil => exact fun _ _ => rfl
        | cons r rows ih =>
          intro hrows acc
          rw [List.map_cons, List.foldlM_cons, (hrows r List.mem_cons_self).decode, pure_bind, pure_bind,
            ih (fun x hx => hrows x (List.mem_cons_of_mem _ hx)), List.foldl_cons]
      rw [hread m.rows hm, pure_bind, FinMap.foldl_set]
    · refine Nat.succ_le_succ (depthFields_le fun f hf => ?_)
      obtain ⟨r, hr, rfl⟩ := List.mem_map.1 hf
      exact (hm r hr).depth

/-! ### Structs -/

/-- Reading back the fields `fields` of `a`, one after the other, completes `acc` to `a`. -/
inductive Fills (a : α) (d : Nat) : List (Field α) → α → Prop where
  | nil : Fills a d [] a
  | skip {f : Field α} {fields : List (Field α)} {acc : α} (h : f.omitted a = true) (rest : Fills a d fields acc) :
      Fills a d (f :: fields) acc
  | cons {f : Field α} {fields : List (Field α)} {acc acc' : α} (h : f.omitted a = false)
    (hdepth : (f.write a).depth ≤ d)
      (hread : ∀ ctx, f.read ctx acc (f.write a) = pure acc')
        (rest : Fills a d fields acc') : Fills a d (f :: fields) acc

variable {a : α}

theorem Fills.field {d' : Nat} {c : Codec β}
    (h : c.Carried d' (get a)) (hd : d' ≤ d) (hzero : get acc = c.zero)
    (rest : Fills a d fields (set acc (get a))) : Fills a d (field name c get set :: fields) acc :=
  .cons rfl (h.depth.trans hd) (fun ctx => by
    show (c.decode ctx (get acc) (c.encode (get a)) >>= fun b => pure (set acc b)) = _
    rw [hzero, h.decode, pure_bind]) rest

/-- A field without arrays and objects. -/
theorem Fills.scalar {c : Codec β}
    (h : c.Carried 0 (get a)) (hzero : get acc = c.zero) (rest : Fills a d fields (set acc (get a))) :
    Fills a d (Codec.field name c get set :: fields) acc :=
  .field h (Nat.zero_le _) hzero rest

theorem Fills.optional {d' : Nat} {c : Codec β}
    {get : α → Option β} {set : α → Option β → α} (h : ∀ b ∈ get a, c.Carried d' b ∧ c.encode b ≠ .null) (hd : d' ≤ d)
    (hzero : get acc = none) (hset : set acc none = acc) (rest : Fills a d fields (set acc (get a))) :
    Fills a d (optional name c get set :: fields) acc := by
  cases hb : get a with
  | none =>
    rw [hb, hset] at rest
    exact .skip (by show (get a).isNone = true; rw [hb]; rfl) rest
  | some b =>
    obtain ⟨hc, hne⟩ := h b hb
    refine .cons (by show (get a).isNone = false; rw [hb]; rfl) ?_ (fun ctx => ?_) rest
    · show (c.ptr.encode (get a)).depth ≤ d
      rw [hb]
      exact hc.depth.trans hd
    · have hptr : c.ptr.decode ctx none (c.ptr.encode (some b)) = pure (some b) := (hc.ptr hne).decode ctx
      show (c.ptr.decode ctx (get acc) (c.ptr.encode (get a)) >>= fun b => pure (set acc b)) = _
      rw [hzero, hb, hptr, pure_bind]

theorem findField_self (hnd : (fields.map Field.name).Nodup) {f : Field α} (hf : f ∈ fields) :
    findField fields f.name = some f := by
  have hfind : (fields.find? fun g => g.name = f.name) = some f := by
    induction fields with
    | nil => cases hf
    | cons g fields ih =>
      rw [List.map_cons, List.nodup_cons] at hnd
      rcases List.mem_cons.1 hf with rfl | hf
      · simp
      · have hne : g.name ≠ f.name := fun he => hnd.1 (List.mem_map.2 ⟨f, hf, he.symm⟩)
        rw [List.find?_cons_of_neg (by simpa using hne)]
        exact ih hnd.2 hf
  rw [findField, hfind]
  rfl

/-- A struct is read back if its fields are. -/
theorem carried_struct {goType : String} {zero : α}
    (hnd : (fields.map Field.name).Nodup) (h : Fills a d fields zero) :
      (struct name goType zero fields).Carried (d + 1) a := by
  have hread : ∀ ctx (sub : List (Field α)) (acc : α), Fills a d sub acc → (∀ f ∈ sub, f ∈ fields) →
      ((sub.filter fun f => !f.omitted a).map fun f => (f.name, f.write a)).foldlM
        (readField name fields ctx) acc = pure a := by
    intro ctx sub acc hfill
    induction hfill with
    | nil => exact fun _ => rfl
    | skip ho _ ih =>
      intro hsub
      rw [List.filter_cons_of_neg (by simp [ho])]
      exact ih fun f hf => hsub f (List.mem_cons_of_mem _ hf)
    | cons ho _ hstep _ ih =>
      intro hsub
      rw [List.filter_cons_of_pos (by simp [ho]), List.map_cons, List.foldlM_cons, readField,
        findField_self hnd (hsub _ List.mem_cons_self)]
      dsimp only
      rw [hstep, pure_bind]
      exact ih fun f hf => hsub f (List.mem_cons_of_mem _ hf)
  have hdepth : ∀ (sub : List (Field α)) (acc : α), Fills a d sub acc →
      ∀ f ∈ sub.filter fun f => !f.omitted a, (f.write a).depth ≤ d := by
    intro sub acc hfill
    induction hfill with
    | nil => exact fun f hf => by cases hf
    | skip ho _ ih =>
      rw [List.filter_cons_of_neg (by simp [ho])]
      exact ih
    | cons ho hd _ _ ih =>
      rw [List.filter_cons_of_pos (by simp [ho])]
      intro f hf
      rcases List.mem_cons.1 hf with rfl | hf
      · exact hd
      · exact ih f hf
  refine ⟨fun ctx => hread ctx fields zero h fun _ => id, ?_⟩
  refine Nat.succ_le_succ (depthFields_le fun m hm => ?_)
  obtain ⟨f, hf, rfl⟩ := List.mem_map.1 hm
  exact hdepth fields zero h f hf

/-! ## Reading to the end

Only an `UnmarshalJSON` method ends the reading early. -/

/-- Reading goes on to the end, and the saved error keeps having the property `P`. -/
def Keeps (P : Option TypeError → Prop) (m : Decode α) : Prop :=
  ∀ saved, P saved → ∃ a saved', m.run saved = .ok (a, saved') ∧ P saved'

section
variable {P : Option TypeError → Prop}

theorem keeps_pure (a : α) : Keeps P (pure a) := fun saved h => ⟨a, saved, rfl, h⟩

theorem keeps_bind {m : Decode α} {k : α → Decode β} (hm : Keeps P m)
    (hk : ∀ a, Keeps P (k a)) : Keeps P (m >>= k) := by
  intro saved h
  obtain ⟨a, saved', hr, h'⟩ := hm saved h
  obtain ⟨b, saved'', hr', h''⟩ := hk a saved' h'
  exact ⟨b, saved'', by rw [StateT.run_bind, hr]; exact hr', h''⟩

/-- The first error stays. -/
theorem keeps_refuse {ctx : Context} {value goType : String} (h : P (some ⟨value, goType, ctx⟩)) :
    Keeps P (refuse ctx value goType v) := by
  intro saved hs
  refine ⟨v, _, rfl, ?_⟩
  cases saved with
  | none => exact h
  | some e => exact hs

theorem keeps_foldlM {step : α → β → Decode α} (h : ∀ a b, Keeps P (step a b)) (l : List β) (a : α) :
    Keeps P (l.foldlM step a) := by
  induction l generalizing a with
  | nil => exact keeps_pure a
  | cons b l ih => exact keeps_bind (h a b) fun a' => ih a'

theorem keeps_mapM {f : β → Decode α} (h : ∀ b, Keeps P (f b)) (l : List β) : Keeps P (l.mapM f) := by
  induction l with
  | nil => exact keeps_pure []
  | cons b l ih =>
    rw [List.mapM_cons]
    exact keeps_bind (h b) fun a => keeps_bind ih fun as => keeps_pure _

end

/-- Whatever is read, reading goes on to the end. -/
def Total (c : Codec α) : Prop := ∀ ctx v j, Keeps (fun _ => True) (c.decode ctx v j)

theorem total_refuse (ctx : Context) (value goType : String)
    (v : α) : Keeps (fun _ => True) (refuse ctx value goType v) :=
  keeps_refuse trivial

@[simp] theorem total_string : string.Total := by
  intro ctx v j
  cases j <;> first | exact keeps_pure _ | exact total_refuse ctx _ _ v

@[simp] theorem total_bool : bool.Total := by
  intro ctx v j
  cases j <;> first | exact keeps_pure _ | exact total_refuse ctx _ _ v

@[simp] theorem total_int (goType : String) : (int goType).Total := by
  intro ctx v j
  cases j with
  | number n =>
    simp only [int]
    split
    · split
      · exact keeps_pure _
      · exact total_refuse ctx _ _ v
    · exact total_refuse ctx _ _ v
  | _ => first | exact keeps_pure _ | exact total_refuse ctx _ _ v

@[simp] theorem total_uint64 : uint64.Total := by
  intro ctx v j
  cases j with
  | number n =>
    simp only [uint64]
    split
    · exact keeps_pure _
    · exact total_refuse ctx _ _ v
  | _ => first | exact keeps_pure _ | exact total_refuse ctx _ _ v

@[simp] theorem Total.via (h : c.Total) (f : α → β) (g : β → α) : (c.via f g).Total :=
  fun ctx v j => keeps_bind (h ctx (g v) j) fun a => keeps_pure (f a)

theorem Total.ptr (h : c.Total) : c.ptr.Total := by
  intro ctx v j
  cases j with
  | null => exact keeps_pure _
  | _ => exact keeps_bind (h ctx _ _) fun a => keeps_pure (some a)

@[simp] theorem Total.slice (h : c.Total) : c.slice.Total := by
  intro ctx v j
  cases j with
  | null => exact keeps_pure _
  | array elems => exact keeps_bind (keeps_mapM (h ctx c.zero) elems) fun l => keeps_pure (some l)
  | _ => exact total_refuse ctx _ _ v

@[simp] theorem Total.mapOf (h : c.Total) : c.mapOf.Total := by
  intro ctx v j
  cases j with
  | null => exact keeps_pure _
  | object fields =>
    refine keeps_bind (keeps_foldlM (fun m f => ?_) fields _) fun m => keeps_pure (some m)
    exact keeps_bind (h ctx _ f.2) fun a => keeps_pure _
  | _ => exact total_refuse ctx _ _ v

/-- A field whose reading goes on to the end. -/
def Field.Total (f : Field α) : Prop := ∀ ctx a j, Keeps (fun _ => True) (f.read ctx a j)

@[simp] theorem Total.field {c : Codec β} (h : c.Total) :
    (Codec.field name c get set).Total :=
  fun ctx a j => keeps_bind (h ctx (get a) j) fun b => keeps_pure (set a b)

@[simp] theorem Total.optional {c : Codec β} (h : c.Total) {get : α → Option β} {set : α → Option β → α} :
    (Codec.optional name c get set).Total :=
  fun ctx a j => keeps_bind (h.ptr ctx (get a) j) fun b => keeps_pure (set a b)

theorem findField_mem {key : String} {f : Field α} (h : findField fields key = some f) : f ∈ fields := by
  rcases Option.or_eq_some_iff.1 h with h | ⟨-, h⟩
  · exact List.mem_of_find?_eq_some h
  · exact List.mem_of_find?_eq_some h

/-- What every field keeps, the whole struct keeps. -/
theorem keeps_members {P : Option TypeError → Prop} {ctx : Context}
    (h : ∀ f ∈ fields, ∀ a j, Keeps P (f.read (ctx.enter name f.name) a j)) (members : List (String × Json)) (a : α) :
    Keeps P (members.foldlM (readField name fields ctx) a) := by
  refine keeps_foldlM (fun a m => ?_) members a
  unfold readField
  split
  · rename_i f hf
    exact h f (findField_mem hf) a m.2
  · exact keeps_pure a

theorem total_struct {goType : String} {zero : α} (h : ∀ f ∈ fields, f.Total) :
    (struct name goType zero fields).Total := by
  intro ctx v j
  cases j with
  | null => exact keeps_pure _
  | object members => exact keeps_members (fun f hf => h f hf _) members v
  | _ => exact total_refuse ctx _ _ v

/-- Then what `Unmarshal` returns is a type error, if it is an error at all. -/
theorem Total.read (h : c.Total) {j : Json} {err : String} (he : c.read v j = .error err) :
    ∃ e : TypeError, err = e.text := by
  obtain ⟨a, saved, hr, -⟩ := h .root v j none trivial
  rw [Codec.read, hr] at he
  cases saved with
  | none => cases he
  | some e => exact ⟨e, (Except.error.inj he).symm⟩

end Codec
