import ApiCerberus.GraphQL.Relay

/-!
# Frames written and read again

`readUnmaskedFrame` (`internal/graphql/subscription_sse.go:370-409`), with `io.ReadFull` on a `bufio.Reader`. A reader
is the list of the pieces in which its bytes arrive; a piece may be empty. What one call leaves of a piece is the first
piece of the next call. `readUnmaskedFrame_writeWSFrame` is one frame in front of any bytes, and
`readFrames_writeWSFrame` is a whole stream: the pieces do not matter.
-/

namespace GraphQL

open WebSocket

/-! ## The code -/

abbrev Reader := List Bytes

/-- Reads on until there are `n` bytes. -/
def readFullFrom : Nat → Reader → Option (Bytes × Reader)
  | 0, r => some ([], r)
  | _ + 1, [] => none
  | n + 1, piece :: r =>
    if n + 1 < piece.length then some (piece.take (n + 1), piece.drop (n + 1) :: r)
    else (readFullFrom (n + 1 - piece.length) r).map fun (bs, r) => (piece ++ bs, r)

/-- The length that starts in the second byte of the header. -/
def readLengthFrom (second : UInt8) (r : Reader) : Option (Nat × Reader) :=
  let length := (second &&& 0x7F).toNat
  if length = 126 then (readFullFrom 2 r).map fun (ext, r) => (ofBigEndian ext, r)
  else if length = 127 then (readFullFrom 8 r).map fun (ext, r) => (ofBigEndian ext, r)
  else some (length, r)

/-- The mask bit is not looked at. The text of `tooLarge` is `frame size %d exceeds maximum %d` here. -/
def readUnmaskedFrame (r : Reader) : Except ReadError (UInt8 × Bytes × Reader) :=
  match readFullFrom 2 r with
  | some ([first, second], r) =>
    match readLengthFrom second r with
    | none => .error .eof
    | some (length, r) =>
      if maxWebSocketFrameSize < length then .error (.tooLarge length)
      else
        match readFullFrom length r with
        | none => .error .eof
        | some (payload, r) => .ok (first &&& 0x0F, payload, r)
  | _ => .error .eof

/-- `n` calls, one after the other. -/
def readFrames : Nat → Reader → Except ReadError (List (UInt8 × Bytes) × Reader)
  | 0, r => .ok ([], r)
  | n + 1, r => do
    let (opcode, payload, r) ← readUnmaskedFrame r
    let (frames, r) ← readFrames n r
    return ((opcode, payload) :: frames, r)

/-! ## One frame -/

variable {r : Reader} {bs rest : Bytes}

/-- The bytes are read, however they come in pieces. -/
theorem readFullFrom_append (h : r.flatten = bs ++ rest) :
    ∃ r', readFullFrom bs.length r = some (bs, r') ∧ r'.flatten = rest := by
  induction r generalizing bs with
  | nil =>
    obtain ⟨rfl, rfl⟩ : bs = [] ∧ rest = [] := by simpa using h.symm
    exact ⟨[], rfl, rfl⟩
  | cons piece r ih =>
    cases bs with
    | nil => exact ⟨piece :: r, rfl, h⟩
    | cons b bs =>
      rw [List.flatten_cons] at h
      simp only [List.length_cons, readFullFrom]
      by_cases hlt : bs.length + 1 < piece.length
      · -- The bytes are the first ones of the piece.
        rw [if_pos hlt]
        have htake := congrArg (List.take (bs.length + 1)) h
        have hdrop := congrArg (List.drop (bs.length + 1)) h
        rw [List.take_append_of_le_length hlt.le, ← List.length_cons (a := b), List.take_left] at htake
        rw [List.drop_append_of_le_length hlt.le, ← List.length_cons (a := b), List.drop_left] at hdrop
        exact ⟨_, by rw [← htake, List.length_cons], by rw [List.flatten_cons, ← hdrop, List.length_cons]⟩
      · -- The piece is the first part of the bytes.
        rw [if_neg hlt]
        have hpiece : piece = (b :: bs).take piece.length := by
          have htake := congrArg (List.take piece.length) h
          rwa [List.take_left, List.take_append_of_le_length (by simp; omega)] at htake
        have hr : r.flatten = (b :: bs).drop piece.length ++ rest := by
          have hdrop := congrArg (List.drop piece.length) h
          rwa [List.drop_left, List.drop_append_of_le_length (by simp; omega)] at hdrop
        obtain ⟨r', hread, hrest⟩ := ih hr
        rw [List.length_drop, List.length_cons] at hread
        refine ⟨r', ?_, hrest⟩
        rw [hread, Option.map_some]
        nth_rewrite 1 [hpiece]
        simp

theorem readLengthFrom_secondByte {n : Nat} (hn : n < 2 ^ 64) (h : r.flatten = longLength n ++ rest) :
    ∃ r', readLengthFrom (secondByte false n) r = some (n, r') ∧ r'.flatten = rest := by
  unfold readLengthFrom
  simp only [(secondByte_facts false n).2]
  unfold shortLength
  by_cases hshort : n ≤ 125
  · refine ⟨r, ?_, by simpa [longLength, hshort] using h⟩
    simp [hshort, show n ≠ 126 by omega, show n ≠ 127 by omega]
  · obtain ⟨r', hread, hrest⟩ := readFullFrom_append h
    refine ⟨r', ?_, hrest⟩
    by_cases htwo : n ≤ 65535
    · have hlong : longLength n = bigEndian 2 n := by simp [longLength, hshort, htwo]
      rw [hlong, length_bigEndian] at hread
      simp [hshort, htwo, hread, ofBigEndian_bigEndian (show n < 256 ^ 2 by omega)]
    · have hlong : longLength n = bigEndian 8 n := by simp [longLength, hshort, htwo]
      rw [hlong, length_bigEndian] at hread
      simp [hshort, htwo, hread, ofBigEndian_bigEndian (show n < 256 ^ 8 by omega)]

theorem readUnmaskedFrame_writeWSFrame {opcode : UInt8} {payload : Bytes} (hop : opcode < 16)
    (hlen : payload.length ≤ maxWebSocketFrameSize) (h : r.flatten = writeWSFrame opcode payload ++ rest) :
    ∃ r', readUnmaskedFrame r = .ok (opcode, payload, r') ∧ r'.flatten = rest := by
  have hfirst : ∀ opcode : Fin 16, firstByte true opcode &&& 0x0F = UInt8.ofNat opcode := by decide +kernel
  obtain ⟨opcode, rfl⟩ : ∃ o : Fin 16, opcode = UInt8.ofNat o := ⟨⟨opcode.toNat, hop⟩, by simp⟩
  rw [writeWSFrame_eq, Frame.encode] at h
  simp only [Option.isSome_none, Option.elim_none, List.cons_append, List.append_assoc] at h
  obtain ⟨r₁, hheader, h₁⟩ :=
    readFullFrom_append (show r.flatten = [firstByte true opcode, secondByte false payload.length] ++ _ from h)
  have hsmall : payload.length < 2 ^ 64 := by
    unfold maxWebSocketFrameSize at hlen
    omega
  obtain ⟨r₂, hlength, h₂⟩ := readLengthFrom_secondByte hsmall h₁
  obtain ⟨r₃, hpayload, h₃⟩ := readFullFrom_append h₂
  refine ⟨r₃, ?_, h₃⟩
  unfold readUnmaskedFrame
  simp only [List.length_cons, List.length_nil] at hheader
  simp [hheader, hlength, hpayload, hfirst, Nat.not_lt.2 hlen]

/-! ## A stream of frames -/

theorem readUnmaskedFrame_end (h : r.flatten = []) : readUnmaskedFrame r = .error .eof := by
  have hnone : readFullFrom 2 r = none := by
    induction r with
    | nil => rfl
    | cons piece r ih =>
      obtain ⟨rfl, hr⟩ : piece = [] ∧ r.flatten = [] := by simpa using h
      simp [readFullFrom, ih hr]
  simp [readUnmaskedFrame, hnone]

/-- **What was written is read**, in whatever pieces it arrives: the same frames, no byte is left, and the next call
says so. -/
theorem readFrames_writeWSFrame (frames : List (UInt8 × Bytes)) (hop : ∀ f ∈ frames, f.1 < 16)
    (hlen : ∀ f ∈ frames, f.2.length ≤ maxWebSocketFrameSize) (r : Reader)
    (h : r.flatten = frames.flatMap fun f => writeWSFrame f.1 f.2) :
    ∃ r', readFrames frames.length r = .ok (frames, r') ∧ r'.flatten = [] ∧ readUnmaskedFrame r' = .error .eof := by
  induction frames generalizing r with
  | nil => exact ⟨r, rfl, h, readUnmaskedFrame_end h⟩
  | cons f frames ih =>
    rw [List.flatMap_cons] at h
    obtain ⟨r₁, hone, h₁⟩ := readUnmaskedFrame_writeWSFrame (hop f List.mem_cons_self) (hlen f List.mem_cons_self) h
    obtain ⟨r₂, hrest, h₂⟩ := ih (fun g hg => hop g (List.mem_cons_of_mem _ hg))
      (fun g hg => hlen g (List.mem_cons_of_mem _ hg)) r₁ h₁
    refine ⟨r₂, ?_, h₂⟩
    simp [readFrames, hone, hrest, bind, Except.bind, pure, Except.pure]

/-- A ping and a text of two bytes, in three pieces that do not end where the frames end. -/
theorem readFrames_writeWSFrame_threePieces : ∃ r',
    readFrames 2 [[0x89, 0, 0x81], [], [2, 104], [105]] = .ok ([(9, []), (1, [104, 105])], r') ∧ r'.flatten = [] ∧
      readUnmaskedFrame r' = .error .eof :=
  readFrames_writeWSFrame [(9, []), (1, [104, 105])] (by decide) (by decide) [[0x89, 0, 0x81], [], [2, 104], [105]]
    (by decide)

end GraphQL
