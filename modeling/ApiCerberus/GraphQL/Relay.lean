import ApiCerberus.Lib.WebSocket
import Mathlib.Data.List.TakeWhile

/-!
# The relay of subscriptions

`readWSFrame`, `writeWSFrame` and `relayMessages` in `internal/graphql/subscription.go:263-437`.

Both directions of a subscription run the same loop. It reads frames as a server reads those of its clients, and writes
as a server writes to them. So nothing passes from the upstream, whose frames are not masked; what goes to the upstream
is not masked, which it has to be; and in both directions the frames that continue a message are dropped
(`messages_lost`).

`relayed_iff`: messages arrive as they were sent, and masked as the direction asks, iff there are none. Their payloads
arrive iff they come from the client, in one piece each, of at most 1 MiB.
-/

namespace GraphQL

open WebSocket

/-! ## The code -/

def maxWebSocketFrameSize : Nat := 1048576

/-- What ends the reading of frames. -/
inductive ReadError
  | eof
  /-- `websocket frame size %d exceeds maximum %d` -/
  | tooLarge (length : Nat)
  /-- `websocket protocol violation: client frame must be masked` -/
  | unmasked
  deriving DecidableEq

/-- The opcode, the payload, and what is left to read. -/
def readWSFrame : Bytes → Except ReadError (UInt8 × Bytes × Bytes)
  | first :: second :: r =>
    match readLength second r with
    | none => .error .eof
    | some (length, r) =>
      if maxWebSocketFrameSize < length then .error (.tooLarge length)
      else if !isMasked second then .error .unmasked
      else
        match readMask true r with
        | none => .error .eof
        | some (maskKey, r) =>
          match readFull length r with
          | none => .error .eof
          | some (payload, r) => .ok (first &&& 0x0F, maskKey.elim payload fun m => m.apply payload, r)
  | _ => .error .eof

/-- One unmasked frame, with the shortest length. -/
def writeWSFrame (opcode : UInt8) (payload : Bytes) : Bytes :=
  (0x80 ||| opcode) :: UInt8.ofNat (shortLength payload.length) :: (longLength payload.length ++ payload)

/-- What a direction has written, and whether it has closed `done`. -/
structure Relayed where
  written : Bytes
  closed : Bool
  deriving DecidableEq

def Relayed.after (bs : Bytes) (r : Relayed) : Relayed := ⟨bs ++ r.written, r.closed⟩

/-- After `rounds` rounds the other direction has closed `done`. The writes succeed. -/
def relayMessages : (rounds : Nat) → Bytes → Relayed
  | 0, _ => ⟨[], false⟩
  | rounds + 1, src =>
    match readWSFrame src with
    | .error _ => ⟨[], true⟩
    | .ok (opcode, payload, src) =>
      if opcode = 8 then ⟨writeWSFrame 8 payload, true⟩
      else if opcode = 9 then (relayMessages rounds src).after (writeWSFrame 10 payload)
      else if opcode = 1 then (relayMessages rounds src).after (writeWSFrame 1 payload)
      else relayMessages rounds src

/-! ## What is written for a frame -/

variable {f : Frame} {fs : List Frame} {sender : End} {isOpen : Bool} {rounds : Nat}

theorem readWSFrame_encode (h : f.payload.length < 2 ^ 64) (rest : Bytes) : readWSFrame (f.encode ++ rest) =
    if maxWebSocketFrameSize < f.payload.length then .error (.tooLarge f.payload.length)
    else if f.mask.isSome then .ok (UInt8.ofNat f.opcode, f.payload, rest)
    else .error .unmasked := by
  have hopcode : ∀ (fin : Bool) (opcode : Fin 16), firstByte fin opcode &&& 0x0F = UInt8.ofNat opcode := by
    decide +kernel
  obtain ⟨fin, opcode, mask, payload⟩ := f
  have hread := readLength_secondByte h mask.isSome
  unfold Frame.encode readWSFrame
  simp only [List.cons_append, List.append_assoc, hread, (secondByte_facts _ _).1, hopcode]
  cases mask with
  | none => simp
  | some m => simp [readMask, Mask.bytes, readFull_append]

/-- Text goes on in a frame of its own, a ping is answered to the other side, the rest is dropped. -/
def relayFrame (f : Frame) : Option Frame :=
  if f.opcode = text then some ⟨true, text, none, f.payload⟩
  else if f.opcode = ping then some ⟨true, pong, none, f.payload⟩
  else none

theorem relayFrame_eq_some {g : Frame} (h : relayFrame f = some g) :
    g.mask = none ∧ g.payload = f.payload ∧ (g.opcode = text ↔ f.opcode = text) := by
  unfold relayFrame at h
  split at h
  case isTrue htext =>
    rw [← Option.some.inj h]
    exact ⟨rfl, rfl, by simp [htext]⟩
  case isFalse htext =>
    split at h
    · rw [← Option.some.inj h]
      exact ⟨rfl, rfl, by simp [htext, show pong ≠ text by decide]⟩
    · cases h

theorem writeWSFrame_eq (opcode : Fin 16) (payload : Bytes) :
    writeWSFrame (UInt8.ofNat opcode) payload = Frame.encode ⟨true, opcode, none, payload⟩ := by
  simp [writeWSFrame, Frame.encode, firstByte, secondByte]

/-- A frame that is not too large. -/
def Short (f : Frame) : Bool := f.payload.length ≤ maxWebSocketFrameSize

/-- One round of the loop. -/
theorem relayMessages_cons (h : f.payload.length < 2 ^ 64) (hopcode : f.opcode ∈ [continuation, text, ping, pong]) :
    (relayMessages (rounds + 1) (encodeAll (f :: fs))).written =
      if Short f && f.mask.isSome then
        encodeAll (relayFrame f).toList ++ (relayMessages rounds (encodeAll fs)).written
      else [] := by
  have hcons : encodeAll (f :: fs) = f.encode ++ encodeAll fs := by simp [encodeAll]
  have hone : ∀ g : Frame, encodeAll [g] = g.encode := by simp [encodeAll]
  rw [hcons, relayMessages, readWSFrame_encode h]
  by_cases hshort : f.payload.length ≤ maxWebSocketFrameSize
  · cases hmask : f.mask.isSome with
    | false => simp [Short, hshort, not_lt.2 hshort]
    | true =>
      simp only [not_lt.2 hshort, if_false, if_true, Short, hshort, decide_true, Bool.and_self]
      simp only [List.mem_cons, List.not_mem_nil, or_false] at hopcode
      have hping : UInt8.ofNat ping = 9 := rfl
      have hpong : UInt8.ofNat pong = 10 := rfl
      rcases hopcode with hop | hop | hop | hop
      · simp [hop, relayFrame, encodeAll, continuation, text, ping]
      · simp [hop, relayFrame, hone, Relayed.after, ← writeWSFrame_eq, text]
      · have hreply : writeWSFrame 10 f.payload = Frame.encode ⟨true, pong, none, f.payload⟩ :=
          writeWSFrame_eq pong f.payload
        rw [hop, hping]
        simp [hop, relayFrame, hone, Relayed.after, hreply, show ping ≠ text by decide]
      · rw [hop, hpong]
        simp [hop, relayFrame, encodeAll, show pong ≠ text by decide, show pong ≠ ping by decide]
  · simp [Short, hshort, not_le.1 hshort]

theorem relayMessages_nil : (relayMessages rounds (encodeAll [])).written = [] := by
  cases rounds <;> rfl

/-- The frames of a client pass, up to the first one that is too long. -/
theorem relayMessages_client (h : Conforms .client isOpen fs) (hrounds : fs.length < rounds) :
    (relayMessages rounds (encodeAll fs)).written = encodeAll ((fs.takeWhile Short).filterMap relayFrame) := by
  induction fs generalizing isOpen rounds with
  | nil => exact relayMessages_nil
  | cons f fs ih =>
    obtain ⟨hmask, hlen, hop, isOpen', hrest⟩ := conforms_cons h
    obtain ⟨rounds, rfl⟩ : ∃ n, rounds = n + 1 := ⟨rounds - 1, by omega⟩
    rw [relayMessages_cons hlen hop, hmask, ih hrest (by simpa using hrounds), List.takeWhile_cons]
    cases hshort : Short f with
    | false => rfl
    | true =>
      simp only [End.masks, Bool.and_self, if_true, List.filterMap_cons]
      cases relayFrame f <;> simp [encodeAll]

/-- The first frame of a server ends the relay. -/
theorem relayMessages_server (h : Conforms .server isOpen fs) : (relayMessages rounds (encodeAll fs)).written = [] := by
  cases fs with
  | nil => exact relayMessages_nil
  | cons f fs =>
    cases rounds with
    | zero => rfl
    | succ rounds =>
      obtain ⟨hmask, hlen, hop, -⟩ := conforms_cons h
      rw [relayMessages_cons hlen hop, hmask]
      simp [End.masks]

/-! ## Messages -/

/-- What the text frames carry, without what continues them. -/
def starts (fs : List Frame) : List Bytes := (fs.filter fun f => f.opcode = text).map Frame.payload

theorem starts_cons (f : Frame) (fs : List Frame) :
    starts (f :: fs) = if f.opcode = text then f.payload :: starts fs else starts fs := by
  unfold starts
  rw [List.filter_cons]
  by_cases hop : f.opcode = text <;> simp [hop]

/-- There is one frame for each message that begins it. -/
theorem length_assemble (h : Conforms sender isOpen fs) (acc : Bytes) :
    (assemble acc fs).length = isOpen.toNat + (starts fs).length := by
  induction fs generalizing isOpen acc with
  | nil =>
    obtain rfl : isOpen = false := h
    rfl
  | cons f fs ih =>
    rw [starts_cons, assemble]
    obtain ⟨-, -, ⟨hop, rfl, hrest⟩ | ⟨hop, rfl, hrest⟩ | ⟨hop, -, -, hrest⟩⟩ := h
    · have hlen := ih hrest
      rw [if_pos hop, if_pos hop]
      cases hfin : f.fin with
      | true => simp [hfin, hlen]
      | false =>
        simp only [hfin, Bool.false_eq_true, if_false, hlen]
        simp
        omega
    · have hne : f.opcode ≠ text := by rw [hop]; decide
      have hlen := ih hrest
      rw [if_neg hne, if_pos hop, if_neg hne]
      cases hfin : f.fin with
      | true =>
        simp only [hfin, if_true, List.length_cons, hlen]
        simp
        omega
      | false => simp [hfin, hlen]
    · have hne : f.opcode ≠ text ∧ f.opcode ≠ continuation := by
        rcases hop with hop | hop <;> rw [hop] <;> decide
      rw [if_neg hne.1, if_neg hne.2, if_neg hne.1]
      exact ih hrest acc

/-- The messages are what their first frames carry iff the others are empty. `c` is what has come after the first frame
of the open one. -/
theorem assemble_eq_starts_iff (h : Conforms sender isOpen fs) (p c : Bytes) :
    assemble (p ++ c) fs = (if isOpen then p :: starts fs else starts fs) ↔
      (isOpen = true → c = []) ∧ ∀ f ∈ fs, f.opcode = continuation → f.payload = [] := by
  induction fs generalizing isOpen p c with
  | nil =>
    obtain rfl : isOpen = false := h
    simp [assemble, starts]
  | cons f fs ih =>
    rw [starts_cons, assemble, List.forall_mem_cons]
    obtain ⟨-, -, ⟨hop, rfl, hrest⟩ | ⟨hop, rfl, hrest⟩ | ⟨hop, -, -, hrest⟩⟩ := h
    · have hne : f.opcode ≠ continuation := by rw [hop]; decide
      have hiff := ih hrest f.payload []
      rw [if_pos hop, if_pos hop]
      cases hfin : f.fin with
      | true =>
        have hiff := ih hrest [] []
        simp only [hfin, Bool.not_true, Bool.false_eq_true, if_false, false_implies, true_and, List.append_nil] at hiff
        simp [hiff, hne]
      | false =>
        simp only [hfin, Bool.not_false, if_true, List.append_nil] at hiff
        simp [hiff, hne]
    · have hne : f.opcode ≠ text := by rw [hop]; decide
      rw [if_neg hne, if_pos hop, if_neg hne]
      cases hfin : f.fin with
      | true =>
        have hiff := ih hrest [] []
        simp only [hfin, Bool.not_true, Bool.false_eq_true, if_false, false_implies, true_and, List.append_nil] at hiff
        simp [hiff, hop, and_assoc]
      | false =>
        have hiff := ih hrest p (c ++ f.payload)
        simp only [hfin, Bool.not_false, if_true] at hiff
        simp [hiff, hop, and_assoc]
    · have hne : f.opcode ≠ text ∧ f.opcode ≠ continuation := by
        rcases hop with hop | hop <;> rw [hop] <;> decide
      rw [if_neg hne.1, if_neg hne.2, if_neg hne.1, ih hrest]
      simp [hne.2]

/-- What is read from the frames that are written. -/
theorem texts_filterMap_relayFrame (fs : List Frame) : texts (fs.filterMap relayFrame) = starts fs := by
  unfold texts
  induction fs with
  | nil => rfl
  | cons f fs ih =>
    rw [starts_cons, List.filterMap_cons]
    by_cases htext : f.opcode = text
    · simp [relayFrame, htext, assemble, ih]
    · by_cases hping : f.opcode = ping
      · simp [relayFrame, hping, assemble, ih, ping, pong, text, continuation]
      · simp [relayFrame, htext, hping, ih]

/-! ## Delivery -/

/-- The frames that the other side reads, of a client. -/
theorem frames_client (h : Conforms .client isOpen fs) (hrounds : fs.length < rounds) :
    frames (relayMessages rounds (encodeAll fs)).written = (fs.takeWhile Short).filterMap relayFrame := by
  rw [relayMessages_client h hrounds]
  refine frames_encodeAll fun g hg => ?_
  obtain ⟨f, hf, hrelay⟩ := List.mem_filterMap.1 hg
  rw [(relayFrame_eq_some hrelay).2.1]
  exact (conforms_mem h (List.takeWhile_subset _ hf)).1

theorem frames_server (h : Conforms .server isOpen fs) : frames (relayMessages rounds (encodeAll fs)).written = [] := by
  rw [relayMessages_server h]
  rfl

theorem starts_append (fs gs : List Frame) : starts (fs ++ gs) = starts fs ++ starts gs := by simp [starts]

theorem starts_eq_nil : starts fs = [] ↔ ∀ f ∈ fs, f.opcode ≠ text := by simp [starts]

theorem texts_eq_nil (h : Conforms sender false fs) : texts fs = [] ↔ starts fs = [] := by
  rw [← List.length_eq_zero_iff, texts, length_assemble h, ← List.length_eq_zero_iff]
  simp

/-- The payloads that pass are those of all messages iff all come in one short piece. -/
theorem starts_takeWhile_iff (h : Conforms sender false fs) : starts (fs.takeWhile Short) = texts fs ↔
    (∀ f ∈ fs, f.opcode = continuation → f.payload = []) ∧
      ∀ f ∈ fs, f.opcode = text → f.payload.length ≤ maxWebSocketFrameSize := by
  have hstarts := starts_append (fs.takeWhile Short) (fs.dropWhile Short)
  rw [List.takeWhile_append_dropWhile] at hstarts
  have hiff : texts fs = starts fs ↔ _ := assemble_eq_starts_iff h [] []
  constructor
  · intro heq
    -- There are as many messages as frames that begin one, so none of these is left behind.
    have hlen : (texts fs).length = (starts fs).length := by simpa [texts] using length_assemble h []
    have hleft : starts (fs.dropWhile Short) = [] := by
      rw [← heq, hstarts, List.length_append] at hlen
      exact List.length_eq_zero_iff.1 (by omega)
    rw [hleft, List.append_nil] at hstarts
    refine ⟨(hiff.1 (heq.symm.trans hstarts.symm)).2, fun f hf htext => ?_⟩
    rw [← List.takeWhile_append_dropWhile (p := Short) (l := fs), List.mem_append] at hf
    rcases hf with hf | hf
    · have hpass : Short f = true := List.mem_takeWhile_imp hf
      exact of_decide_eq_true hpass
    · exact absurd htext (starts_eq_nil.1 hleft f hf)
  · rintro ⟨hempty, hshort⟩
    have hall : ∀ f ∈ fs, Short f = true := by
      intro f hf
      refine decide_eq_true ?_
      rcases (conforms_mem h hf).2 with htext | hcont | hlen
      · exact hshort f hf htext
      · simp [hempty f hf hcont]
      · exact hlen.trans (by decide)
    rw [List.takeWhile_eq_self_iff.2 hall]
    exact (hiff.2 ⟨fun h => absurd h (by decide), hempty⟩).symm

/-- **Text messages arrive, masked as the direction asks, iff there are none; their payloads arrive iff the client sends
each in one frame of at most 1 MiB**. -/
theorem relayed_iff (sender : End) (fs : List Frame) (rounds : Nat) (h : Conforms sender false fs)
    (hrounds : fs.length < rounds) :
    let out := frames (relayMessages rounds (encodeAll fs)).written
    ((texts out = texts fs ∧ ∀ g ∈ out, g.opcode = text → g.mask.isSome = sender.masks) ↔ texts fs = []) ∧
      (texts out = texts fs ↔ texts fs = [] ∨ sender = .client ∧
        (∀ f ∈ fs, f.opcode = continuation → f.payload = []) ∧
          ∀ f ∈ fs, f.opcode = text → f.payload.length ≤ maxWebSocketFrameSize) := by
  intro out
  cases sender with
  | client =>
    obtain hout : out = (fs.takeWhile Short).filterMap relayFrame := frames_client h hrounds
    have htexts : texts out = starts (fs.takeWhile Short) := by rw [hout, texts_filterMap_relayFrame]
    have hnil : texts fs = [] → ∀ f ∈ fs.takeWhile Short, f.opcode ≠ text := fun hfs f hf =>
      starts_eq_nil.1 ((texts_eq_nil h).1 hfs) f (List.takeWhile_subset _ hf)
    refine ⟨⟨?_, fun hfs => ⟨?_, ?_⟩⟩, ?_⟩
    · -- What carries a text is not masked.
      rintro ⟨harrive, hmasked⟩
      rw [← harrive, htexts, starts_eq_nil]
      intro f hf htext
      have hg : relayFrame f = some ⟨true, text, none, f.payload⟩ := by simp [relayFrame, htext]
      have hout : _ ∈ out := hout ▸ List.mem_filterMap.2 ⟨f, hf, hg⟩
      cases hmasked _ hout rfl
    · rw [hfs, htexts, starts_eq_nil]
      exact hnil hfs
    · intro g hg htext
      rw [hout] at hg
      obtain ⟨f, hf, hrelay⟩ := List.mem_filterMap.1 hg
      exact absurd ((relayFrame_eq_some hrelay).2.2.1 htext) (hnil hfs f hf)
    · rw [htexts, starts_takeWhile_iff h]
      constructor
      · exact fun hpieces => .inr ⟨rfl, hpieces⟩
      · rintro (hfs | ⟨-, hpieces⟩)
        · rw [← starts_takeWhile_iff h, hfs, starts_eq_nil]
          exact hnil hfs
        · exact hpieces
  | server =>
    obtain hout : out = [] := frames_server h
    rw [hout, show texts ([] : List Frame) = [] from rfl, eq_comm]
    simp

/-- A client's frame, with a mask. -/
def fromClient (fin : Bool) (opcode : Fin 16) (payload : Bytes) : Frame := ⟨fin, opcode, some ⟨1, 2, 3, 4⟩, payload⟩

def hi : Bytes := [104, 105]

theorem relayed_iff_ping : Conforms .client false [fromClient true text hi, fromClient true ping []] ∧
    texts (frames (relayMessages 3 (encodeAll [fromClient true text hi, fromClient true ping []])).written) = [hi] :=
  ⟨by decide, ((relayed_iff .client [fromClient true text hi, fromClient true ping []] 3 (by decide) (by decide)).2.2
    (.inr ⟨rfl, by decide, by decide⟩)).trans (by decide)⟩

/-- Nothing comes from a server, and its first frame closes the relay; a client's text goes on without a mask; of one in
two frames only the first half goes on. -/
theorem messages_lost :
    (Conforms .server false [⟨true, text, none, hi⟩] ∧
      relayMessages 2 (encodeAll [⟨true, text, none, hi⟩]) = ⟨[], true⟩) ∧
    (Conforms .client false [fromClient true text hi] ∧
      frames (relayMessages 2 (encodeAll [fromClient true text hi])).written = [⟨true, text, none, hi⟩]) ∧
    (Conforms .client false [fromClient false text hi, fromClient true continuation hi] ∧
      texts [fromClient false text hi, fromClient true continuation hi] = [hi ++ hi] ∧
      frames (relayMessages 3 (encodeAll [fromClient false text hi, fromClient true continuation hi])).written =
        [⟨true, text, none, hi⟩]) := by
  decide +kernel

end GraphQL
