import Mathlib.Data.List.Basic
import Mathlib.Tactic.Ring

/-!
# Frames of the WebSocket protocol

A frame as RFC 6455 lays it out in bytes, with the shortest form of its length; reading it back (`decode_encode`), and a
stream of frames (`frames_encodeAll`). A text message is a frame with the opcode 1 and the continuation frames that
follow it, up to the one with the FIN bit; control frames may come in between. `Conforms` says what one of the two ends
may send: the frames of a client are masked, those of a server are not.
-/

namespace WebSocket

abbrev Bytes := List UInt8

/-! ## Numbers -/

/-- The last `k` bytes of a number, the highest one first. -/
def bigEndian : Nat → Nat → Bytes
  | 0, _ => []
  | k + 1, n => bigEndian k (n / 256) ++ [UInt8.ofNat n]

def ofBigEndian (bs : Bytes) : Nat := bs.foldl (fun n b => 256 * n + b.toNat) 0

@[simp] theorem length_bigEndian (k n : Nat) : (bigEndian k n).length = k := by
  induction k generalizing n with
  | zero => rfl
  | succ k ih => simp [bigEndian, ih]

theorem ofBigEndian_bigEndian {k n : Nat} (h : n < 256 ^ k) : ofBigEndian (bigEndian k n) = n := by
  induction k generalizing n with
  | zero =>
    rw [pow_zero] at h
    obtain rfl : n = 0 := by omega
    rfl
  | succ k ih =>
    have hlt : n / 256 < 256 ^ k := by
      rw [pow_succ] at h
      omega
    have hsnoc : ofBigEndian (bigEndian k (n / 256) ++ [UInt8.ofNat n]) =
        256 * ofBigEndian (bigEndian k (n / 256)) + (UInt8.ofNat n).toNat := by
      simp [ofBigEndian]
    rw [bigEndian, hsnoc, ih hlt, UInt8.toNat_ofNat']
    omega

/-! ## Frames -/

/-- The key of a client's frame. -/
structure Mask where
  k₀ : UInt8
  k₁ : UInt8
  k₂ : UInt8
  k₃ : UInt8
  deriving DecidableEq

namespace Mask

def bytes (m : Mask) : Bytes := [m.k₀, m.k₁, m.k₂, m.k₃]

/-- The byte of the key for the byte `i` of a payload. -/
def keyByte (m : Mask) (i : Nat) : UInt8 :=
  match i % 4 with
  | 0 => m.k₀
  | 1 => m.k₁
  | 2 => m.k₂
  | _ => m.k₃

def apply (m : Mask) (payload : Bytes) : Bytes := payload.mapIdx fun i b => b ^^^ m.keyByte i

@[simp] theorem length_apply (m : Mask) (payload : Bytes) : (m.apply payload).length = payload.length := by simp [apply]

@[simp] theorem apply_apply (m : Mask) (payload : Bytes) : m.apply (m.apply payload) = payload := by
  refine List.ext_getElem (by simp) fun i h₁ h₂ => ?_
  simp only [apply, List.getElem_mapIdx]
  rw [UInt8.xor_assoc, UInt8.xor_self, UInt8.xor_zero]

end Mask

/-- A frame of RFC 6455, unmasked. -/
structure Frame where
  fin : Bool
  opcode : Fin 16
  mask : Option Mask
  payload : Bytes
  deriving DecidableEq

/-- The length as it stands in the second byte. -/
def shortLength (n : Nat) : Nat := if n ≤ 125 then n else if n ≤ 65535 then 126 else 127

/-- The length in the bytes that follow, if it does not fit there. -/
def longLength (n : Nat) : Bytes := if n ≤ 125 then [] else if n ≤ 65535 then bigEndian 2 n else bigEndian 8 n

def firstByte (fin : Bool) (opcode : Fin 16) : UInt8 := (if fin then 0x80 else 0) ||| UInt8.ofNat opcode

def secondByte (masked : Bool) (length : Nat) : UInt8 :=
  (if masked then 0x80 else 0) ||| UInt8.ofNat (shortLength length)

/-- With the shortest form of the length. -/
def Frame.encode (f : Frame) : Bytes :=
  firstByte f.fin f.opcode :: secondByte f.mask.isSome f.payload.length ::
    (longLength f.payload.length ++ f.mask.elim f.payload fun m => m.bytes ++ m.apply f.payload)

def encodeAll (fs : List Frame) : Bytes := fs.flatMap Frame.encode

/-! ## Reading -/

/-- `n` bytes, and what comes after them. -/
def readFull (n : Nat) (bs : Bytes) : Option (Bytes × Bytes) :=
  if n ≤ bs.length then some (bs.take n, bs.drop n) else none

theorem readFull_append {n : Nat} {bs rest : Bytes} (h : bs.length = n) :
    readFull n (bs ++ rest) = some (bs, rest) := by
  subst h
  simp [readFull]

/-- The length that starts in the second byte of the header. -/
def readLength (second : UInt8) (bs : Bytes) : Option (Nat × Bytes) :=
  let length := (second &&& 0x7F).toNat
  if length = 126 then (readFull 2 bs).map fun r => (ofBigEndian r.1, r.2)
  else if length = 127 then (readFull 8 bs).map fun r => (ofBigEndian r.1, r.2)
  else some (length, bs)

def readMask (masked : Bool) (bs : Bytes) : Option (Option Mask × Bytes) :=
  if masked then
    match bs with
    | k₀ :: k₁ :: k₂ :: k₃ :: rest => some (some ⟨k₀, k₁, k₂, k₃⟩, rest)
    | _ => none
  else some (none, bs)

def isMasked (second : UInt8) : Bool := second &&& 0x80 ≠ 0

def opcodeOf (first : UInt8) : Fin 16 := ⟨(first &&& 0x0F).toNat % 16, Nat.mod_lt _ (by omega)⟩

/-- The first frame, and the bytes behind it. -/
def Frame.decode : Bytes → Option (Frame × Bytes)
  | first :: second :: bs => do
    let (length, bs) ← readLength second bs
    let (mask, bs) ← readMask (isMasked second) bs
    let (payload, bs) ← readFull length bs
    return (⟨first &&& 0x80 ≠ 0, opcodeOf first, mask, mask.elim payload fun m => m.apply payload⟩, bs)
  | _ => none

/-- The frames of a stream, as far as they are complete; `n` bounds their number. -/
def framesUpTo : Nat → Bytes → List Frame
  | 0, _ => []
  | n + 1, bs =>
    match Frame.decode bs with
    | none => []
    | some (f, rest) => f :: framesUpTo n rest

def frames (bs : Bytes) : List Frame := framesUpTo bs.length bs

theorem shortLength_lt (n : Nat) : shortLength n < 128 := by
  unfold shortLength
  split
  · omega
  · split <;> omega

theorem firstByte_facts : ∀ (fin : Bool) (opcode : Fin 16),
    decide (firstByte fin opcode &&& 0x80 ≠ 0) = fin ∧ opcodeOf (firstByte fin opcode) = opcode := by
  decide +kernel

theorem secondByte_facts (masked : Bool) (n : Nat) :
    isMasked (secondByte masked n) = masked ∧ (secondByte masked n &&& 0x7F).toNat = shortLength n := by
  have hall : ∀ (masked : Bool) (l : Fin 128),
      isMasked ((if masked then 0x80 else 0) ||| UInt8.ofNat l) = masked ∧
        (((if masked then 0x80 else 0) ||| UInt8.ofNat l) &&& 0x7F : UInt8).toNat = l := by
    decide +kernel
  exact hall masked ⟨shortLength n, shortLength_lt n⟩

theorem readLength_secondByte {n : Nat} (h : n < 2 ^ 64) (masked : Bool) (rest : Bytes) :
    readLength (secondByte masked n) (longLength n ++ rest) = some (n, rest) := by
  unfold readLength
  simp only [(secondByte_facts masked n).2]
  unfold shortLength longLength
  by_cases hshort : n ≤ 125
  · simp [hshort, show n ≠ 126 by omega, show n ≠ 127 by omega]
  · by_cases htwo : n ≤ 65535
    · simp [hshort, htwo, readFull_append, ofBigEndian_bigEndian (show n < 256 ^ 2 by omega)]
    · simp [hshort, htwo, readFull_append, ofBigEndian_bigEndian (show n < 256 ^ 8 by omega)]

variable {fs : List Frame} {f : Frame}

/-- **A frame is read as it was written.** -/
theorem decode_encode (h : f.payload.length < 2 ^ 64) (rest : Bytes) :
    Frame.decode (f.encode ++ rest) = some (f, rest) := by
  obtain ⟨fin, opcode, mask, payload⟩ := f
  obtain ⟨hfin, hop⟩ := firstByte_facts fin opcode
  have hread := readLength_secondByte h mask.isSome
  unfold Frame.encode Frame.decode
  simp only [List.cons_append, List.append_assoc, hread, (secondByte_facts _ _).1, hfin, hop]
  cases mask with
  | none => simp [readMask, readFull_append]
  | some m => simp [readMask, Mask.bytes, readFull_append]

theorem length_le_encodeAll (fs : List Frame) : fs.length ≤ (encodeAll fs).length := by
  induction fs with
  | nil => exact le_rfl
  | cons f fs ih =>
    have hone : 1 ≤ f.encode.length := by simp [Frame.encode]
    rw [encodeAll, List.flatMap_cons, List.length_append, List.length_cons]
    have := ih
    unfold encodeAll at this
    omega

theorem frames_encodeAll (h : ∀ f ∈ fs, f.payload.length < 2 ^ 64) : frames (encodeAll fs) = fs := by
  have hread : ∀ (fs : List Frame) n, (∀ f ∈ fs, f.payload.length < 2 ^ 64) → fs.length ≤ n →
      framesUpTo n (encodeAll fs) = fs := by
    intro fs
    induction fs with
    | nil =>
      intro n _ _
      cases n <;> rfl
    | cons f fs ih =>
      intro n h hn
      obtain ⟨n, rfl⟩ : ∃ m, n = m + 1 := ⟨n - 1, by simp at hn; omega⟩
      have hcons : encodeAll (f :: fs) = f.encode ++ encodeAll fs := by simp [encodeAll]
      rw [hcons, framesUpTo, decode_encode (h f List.mem_cons_self)]
      simp only [List.cons.injEq, true_and]
      exact ih n (fun g hg => h g (List.mem_cons_of_mem _ hg)) (by simpa using hn)
  exact hread fs _ h (length_le_encodeAll fs)

/-! ## Messages -/

abbrev continuation : Fin 16 := 0
abbrev text : Fin 16 := 1
abbrev ping : Fin 16 := 9
abbrev pong : Fin 16 := 10

/-- The text messages; `acc` is what has come of the one that is open. -/
def assemble : Bytes → List Frame → List Bytes
  | _, [] => []
  | acc, f :: fs =>
    if f.opcode = text then if f.fin then f.payload :: assemble [] fs else assemble f.payload fs
    else if f.opcode = continuation then
      if f.fin then (acc ++ f.payload) :: assemble [] fs else assemble (acc ++ f.payload) fs
    else assemble acc fs

def texts (fs : List Frame) : List Bytes := assemble [] fs

/-- Who sends: only a client masks its frames. -/
inductive End
  | client
  | server
  deriving DecidableEq

def End.masks : End → Bool
  | .client => true
  | .server => false

/-- Complete text messages with pings and pongs in between, as `sender` may send them; `isOpen` if a message has
begun. -/
def Conforms (sender : End) : (isOpen : Bool) → List Frame → Prop
  | isOpen, [] => isOpen = false
  | isOpen, f :: fs =>
    f.mask.isSome = sender.masks ∧ f.payload.length < 2 ^ 63 ∧
      (f.opcode = text ∧ isOpen = false ∧ Conforms sender (!f.fin) fs ∨
        f.opcode = continuation ∧ isOpen = true ∧ Conforms sender (!f.fin) fs ∨
        (f.opcode = ping ∨ f.opcode = pong) ∧ f.fin = true ∧ f.payload.length ≤ 125 ∧ Conforms sender isOpen fs)

instance Conforms.decide (sender : End) : (isOpen : Bool) → (fs : List Frame) → Decidable (Conforms sender isOpen fs)
  | isOpen, [] => inferInstanceAs (Decidable (isOpen = false))
  | isOpen, f :: fs =>
    have := Conforms.decide sender (!f.fin) fs
    have := Conforms.decide sender isOpen fs
    inferInstanceAs (Decidable (_ ∧ _ ∧ (_ ∨ _ ∨ _)))

/-- What a conforming frame is, and what comes after it. -/
theorem conforms_cons {sender : End} {isOpen : Bool} (h : Conforms sender isOpen (f :: fs)) :
    f.mask.isSome = sender.masks ∧ f.payload.length < 2 ^ 64 ∧ f.opcode ∈ [continuation, text, ping, pong] ∧
      ∃ isOpen', Conforms sender isOpen' fs := by
  obtain ⟨hmask, hlen, hkind⟩ := h
  refine ⟨hmask, by omega, ?_, ?_⟩
  · rcases hkind with ⟨hop, -⟩ | ⟨hop, -⟩ | ⟨hop | hop, -⟩ <;> simp [hop]
  · rcases hkind with ⟨-, -, hrest⟩ | ⟨-, -, hrest⟩ | ⟨-, -, -, hrest⟩ <;> exact ⟨_, hrest⟩

/-- Only text is long. -/
theorem conforms_mem {sender : End} {isOpen : Bool} (h : Conforms sender isOpen fs) (hf : f ∈ fs) :
    f.payload.length < 2 ^ 64 ∧ (f.opcode = text ∨ f.opcode = continuation ∨ f.payload.length ≤ 125) := by
  induction fs generalizing isOpen with
  | nil => cases hf
  | cons g fs ih =>
    rcases List.mem_cons.1 hf with rfl | hf
    · obtain ⟨-, hlen, ⟨hop, -⟩ | ⟨hop, -⟩ | ⟨-, -, hshort, -⟩⟩ := h
      · exact ⟨by omega, .inl hop⟩
      · exact ⟨by omega, .inr (.inl hop)⟩
      · exact ⟨by omega, .inr (.inr hshort)⟩
    · obtain ⟨-, -, -, isOpen', hrest⟩ := conforms_cons h
      exact ih hrest hf

end WebSocket
