import ApiCerberus.Raft.Instances
import ApiCerberus.Raft.Machine
import ApiCerberus.Raft.Node

/-!
# Commands on the wire and on disk

The JSON form of `LogEntry` (`internal/raft/node.go:36`) and `AppendEntriesRequest` (`rpc.go:18`). `carry` is what the
handler gets of a request (`postRPC` and `handleAppendEntries`, `transport.go:226, 300`), `marshalCommand` what
`SaveLog` writes (`storage.go:88`).

`AppendEntry` puts the marshalled command into the log, a `[]byte`. JSON has it as a string, and a string is what an
`any` is read as: `Apply` panics on every command that comes over the wire. On disk, the string stays as it is, with its
quotes, and `LoadLog` returns it as the `[]byte` to apply.
-/

namespace Raft

open Json Codec

variable {ι σ δ S : Type}

/-! ## The wire -/

def command : Codec (Option Command) where
  zero := none
  goType := Codec.any.goType
  encode
    | none => .null
    | some (.bytes data) => encodeBytes data
    | some (.decoded v) => v.1
  decode ctx _ j := do
    let v ← Codec.any.decode ctx none j
    pure (v.map .decoded)

def logEntry : Codec (LogEntry Command) :=
  .struct "LogEntry" "raft.LogEntry" ⟨0, 0, none⟩
    [field "index" Codec.uint64 (·.index) fun e v => { e with index := v },
      field "term" Codec.uint64 (·.term) fun e v => { e with term := v },
      field "command" command (·.command) fun e v => { e with command := v }]

def appendEntriesRequest : Codec (AppendEntriesRequest String Command) :=
  .struct "AppendEntriesRequest" "raft.AppendEntriesRequest" ⟨0, "", 0, 0, [], 0⟩
    [field "term" Codec.uint64 (·.term) fun r v => { r with term := v },
      field "leader_id" string (·.leaderID) fun r v => { r with leaderID := v },
      field "prev_log_index" Codec.uint64 (·.prevLogIndex) fun r v => { r with prevLogIndex := v },
      field "prev_log_term" Codec.uint64 (·.prevLogTerm) fun r v => { r with prevLogTerm := v },
      field "entries" logEntry.list (·.entries) fun r v => { r with entries := v },
      field "leader_commit" Codec.uint64 (·.leaderCommit) fun r v => { r with leaderCommit := v }]

def maxRaftRPCBodySize : Nat := 10 <<< 20

/-- A longer body is cut off, so it ends inside its value. -/
def carry (req : AppendEntriesRequest String Command) : Except String (AppendEntriesRequest String Command) :=
  let body := appendEntriesRequest.marshal req
  if maxRaftRPCBodySize < Text.byteLen body then .error "unexpected EOF"
  else appendEntriesRequest.unmarshal appendEntriesRequest.zero body

/-- What a command is once it has been sent. -/
def Command.received : Command → Command
  | .bytes data => .decoded ⟨encodeBytes data, rfl, rfl⟩
  | .decoded v => .decoded v

def LogEntry.received (e : LogEntry Command) : LogEntry Command :=
  { index := e.index % UInt64.size, term := e.term % UInt64.size, command := e.command.map Command.received }

def AppendEntriesRequest.received (req : AppendEntriesRequest String Command) : AppendEntriesRequest String Command :=
  { term := req.term % UInt64.size, leaderID := req.leaderID, prevLogIndex := req.prevLogIndex % UInt64.size,
    prevLogTerm := req.prevLogTerm % UInt64.size, entries := req.entries.map LogEntry.received,
    leaderCommit := req.leaderCommit % UInt64.size }

theorem encode_received (c : Option Command) : command.encode (c.map Command.received) = command.encode c := by
  rcases c with _ | data | v <;> rfl

theorem decode_received (c : Option Command) (ctx : Context) :
    command.decode ctx command.zero (command.encode (c.map Command.received)) = pure (c.map Command.received) := by
  have hany : ∀ v : Option Any, command.decode ctx command.zero (Codec.any.encode v) = pure (v.map .decoded) := by
    intro v
    show (Codec.any.decode ctx Codec.any.zero (Codec.any.encode v) >>= fun v => pure (v.map Command.decoded)) = _
    rw [decode_any, pure_bind]
  rcases c with _ | data | v
  · exact hany none
  · exact hany (some ⟨encodeBytes data, rfl, rfl⟩)
  · exact hany (some v)

theorem logEntry_encode_received (e : LogEntry Command) : logEntry.encode e.received = logEntry.encode e := by
  show Json.object [("index", .number (.ofNat (e.index % UInt64.size % UInt64.size))),
    ("term", .number (.ofNat (e.term % UInt64.size % UInt64.size))),
    ("command", command.encode (e.command.map Command.received))] = _
  rw [Nat.mod_mod, Nat.mod_mod, encode_received]
  rfl

theorem logEntry_decode_received (e : LogEntry Command) (ctx : Context) :
    logEntry.decode ctx logEntry.zero (logEntry.encode e.received) = pure e.received := by
  have hcommand : command.Carried (command.encode e.received.command).depth e.received.command :=
    ⟨decode_received e.command, le_refl _⟩
  have h : logEntry.Carried _ e.received := carried_struct (by decide)
    (.scalar (Codec.carried_uint64 (Nat.mod_lt _ (by decide))) rfl <|
      .scalar (Codec.carried_uint64 (Nat.mod_lt _ (by decide))) rfl <| .field hcommand (le_refl _) rfl .nil)
  exact h.decode ctx

theorem list_encode_received (l : List (LogEntry Command)) :
    logEntry.list.encode (l.map LogEntry.received) = logEntry.list.encode l := by
  have hmap : (l.map LogEntry.received).map logEntry.encode = l.map logEntry.encode := by
    rw [List.map_map]
    exact List.map_congr_left fun e _ => logEntry_encode_received e
  cases l with
  | nil => rfl
  | cons e l => exact congrArg Json.array hmap

theorem appendEntriesRequest_encode_received (req : AppendEntriesRequest String Command) :
    appendEntriesRequest.encode req.received = appendEntriesRequest.encode req := by
  show Json.object [("term", .number (.ofNat (req.term % UInt64.size % UInt64.size))),
    ("leader_id", .string req.leaderID),
    ("prev_log_index", .number (.ofNat (req.prevLogIndex % UInt64.size % UInt64.size))),
    ("prev_log_term", .number (.ofNat (req.prevLogTerm % UInt64.size % UInt64.size))),
    ("entries", logEntry.list.encode (req.entries.map LogEntry.received)),
    ("leader_commit", .number (.ofNat (req.leaderCommit % UInt64.size % UInt64.size)))] = _
  rw [Nat.mod_mod, Nat.mod_mod, Nat.mod_mod, Nat.mod_mod, list_encode_received]
  rfl

theorem decode_request (req : AppendEntriesRequest String Command) (ctx : Context) :
    appendEntriesRequest.decode ctx appendEntriesRequest.zero (appendEntriesRequest.encode req.received) =
      pure req.received := by
  have hentries : logEntry.list.Carried _ req.received.entries := carried_list fun e he =>
    ⟨by obtain ⟨e₀, -, rfl⟩ := List.mem_map.1 he; exact logEntry_decode_received e₀,
      le_depthElems (List.mem_map_of_mem he)⟩
  have hmod : ∀ n, Codec.uint64.Carried 0 (n % UInt64.size) := fun n => Codec.carried_uint64 (Nat.mod_lt n (by decide))
  have hreq : appendEntriesRequest.Carried _ req.received := carried_struct (by decide)
    (.scalar (hmod _) rfl <| .scalar (carried_string _) rfl <| .scalar (hmod _) rfl <| .scalar (hmod _) rfl <|
      .field hentries (le_refl _) rfl <| .scalar (hmod _) rfl .nil)
  exact hreq.decode ctx

theorem marshal_received (req : AppendEntriesRequest String Command) :
    appendEntriesRequest.marshal req.received = appendEntriesRequest.marshal req := by
  rw [marshal, appendEntriesRequest_encode_received]
  rfl

/-- What arrives: the request with its commands as JSON values, if its body is neither too long nor too
deep. -/
theorem carry_received (req : AppendEntriesRequest String Command) :
    carry req = .ok req.received ∨ ∃ err, carry req = .error err := by
  unfold carry
  dsimp only
  split
  · exact Or.inr ⟨_, rfl⟩
  · rw [← marshal_received]
    exact unmarshal_marshal_or (decode_request req)

theorem carry_of_short {req : AppendEntriesRequest String Command}
    (hlen : Text.byteLen (appendEntriesRequest.marshal req) ≤ maxRaftRPCBodySize)
    (hdepth : (appendEntriesRequest.encode req).depth ≤ maxNestingDepth) : carry req = .ok req.received := by
  rw [← appendEntriesRequest_encode_received] at hdepth
  unfold carry
  dsimp only
  rw [if_neg (not_lt.2 hlen), ← marshal_received]
  exact unmarshal_marshal ⟨decode_request req, le_refl _⟩ hdepth

/-- Entry `k` of the request has, where it arrives, the effect that `e` has, and is applied without a
failing type assertion. -/
def Survives (req : AppendEntriesRequest String Command) (k : Nat) (e : LogEntry Command) : Prop :=
  ∃ req' e', carry req = .ok req' ∧ req'.entries[k]? = some e' ∧ (∀ f : GatewayFSM, f.apply e' = f.apply e) ∧
    ∀ (f : GatewayFSM) (t : String), f.apply e' ≠ .error (.conversion t)

variable {e : LogEntry Text} {data : Text}

theorem apply_received (f : GatewayFSM) (e : LogEntry Command) (h : e.command = some (.bytes data)) :
    f.apply e.received = .error (.conversion "string") := by
  unfold GatewayFSM.apply LogEntry.received
  rw [h]
  rfl

/-- **No command survives the wire**: whatever `AppendEntry` has put into the log, in whatever request it
is sent, `Apply` does not do at the receiver what it does at the leader. -/
theorem wire_command_lost (n : Node String Command σ S) (data : Text)
    {req : AppendEntriesRequest String Command} {k : Nat}
    (hk : req.entries[k]? = some (newEntry n (.bytes data))) : ¬ Survives req k (newEntry n (.bytes data)) := by
  rintro ⟨req', e', hcarry, he', -, hpanic⟩
  rcases carry_received req with h | ⟨err, h⟩
  · rw [h] at hcarry
    cases hcarry
    have hentry : req.received.entries[k]? = some (newEntry n (.bytes data)).received := by
      show (req.entries.map LogEntry.received)[k]? = _
      rw [List.getElem?_map, hk]
      rfl
    rw [hentry] at he'
    cases he'
    exact hpanic newGatewayFSM "string" (apply_received newGatewayFSM _ rfl)
  · rw [h] at hcarry
    cases hcarry

/-- A leader with an empty log. -/
def wireLeader : Node String Command (List (LogEntry Command)) (Inmem String Command (List (LogEntry Command))) :=
  { newNode (recorderEnv String Command) "a" ⟨10, 0⟩ ["b"] none with state := .leader, currentTerm := 1 }

/-- It sends the entry of one command. -/
def wireRequest : AppendEntriesRequest String Command :=
  { term := 1, leaderID := "a", prevLogIndex := 0, prevLogTerm := 0,
    entries := [newEntry wireLeader (.bytes oneCredit)],
    leaderCommit := 0 }

/-- The request arrives, but its entry cannot be applied. -/
theorem carry_wireRequest : (carry wireRequest).toOption.map (fun req => req.entries.map fun e =>
    (newGatewayFSM.apply e).toOption.isSome) = some [false] := by
  have hcarry : carry wireRequest = .ok wireRequest.received := carry_of_short (by decide +kernel) (by decide +kernel)
  have hentry := apply_received newGatewayFSM (newEntry wireLeader (.bytes oneCredit)) rfl
  rw [hcarry]
  show some [(newGatewayFSM.apply (newEntry wireLeader (.bytes oneCredit)).received).toOption.isSome] = some [false]
  rw [hentry]
  rfl

theorem wire_command_lost_credit :
    (carry wireRequest).toOption.isSome = true ∧ ¬ Survives wireRequest 0 (newEntry wireLeader (.bytes oneCredit)) := by
  refine ⟨?_, wire_command_lost wireLeader oneCredit rfl⟩
  have h := carry_wireRequest
  cases hc : (carry wireRequest).toOption with
  | none => rw [hc] at h; cases h
  | some req => rfl

/-- The leader applies the command without an error, the follower panics. -/
theorem follower_panics :
    (newGatewayFSM.apply (newEntry wireLeader (.bytes oneCredit))).toOption.map Prod.snd = some none ∧
      ¬ Survives wireRequest 0 (newEntry wireLeader (.bytes oneCredit)) := by
  have hleader : (newGatewayFSM.apply (newEntry wireLeader (.bytes oneCredit))).toOption.map Prod.snd = some none := by
    decide +kernel
  have hfollower := carry_wireRequest
  refine ⟨hleader, ?_⟩
  rintro ⟨req', e', hcarry, he', hsame, -⟩
  rw [hcarry] at hfollower
  have happly : (newGatewayFSM.apply e').toOption.isSome = false := by
    have hall : (req'.entries.map fun e => (newGatewayFSM.apply e).toOption.isSome) = [false] :=
      Option.some.inj hfollower
    have hk : (req'.entries.map fun e => (newGatewayFSM.apply e).toOption.isSome)[0]? = some false := by rw [hall]; rfl
    rw [List.getElem?_map, he'] at hk
    exact Option.some.inj hk
  rw [hsame] at happly
  cases hrun : newGatewayFSM.apply (newEntry wireLeader (.bytes oneCredit)) with
  | error p => rw [hrun] at hleader; cases hleader
  | ok r => rw [hrun] at happly; cases happly

/-! ## The disk -/

/-- `json.Marshal` of a `Command`. -/
def marshalCommand (c : Option Text) : Except String Text := .ok (command.marshal (c.map .bytes))

/-- The error of `json.Unmarshal` for a command that is a JSON string. -/
def commandError : String := "json: cannot unmarshal string into Go value of type raft.FSMCommand"

/-- What `Apply` makes of it. -/
def stringError : String := "failed to unmarshal command: " ++ commandError

theorem apply_boxed (f : GatewayFSM) (he : e.command = some data) : f.apply e.boxed =
    match fsmCommand.unmarshal fsmCommand.zero data with
    | .error err => .ok (f, some ("failed to unmarshal command: " ++ err))
    | .ok cmd => applyCommand f cmd := by
  unfold GatewayFSM.apply LogEntry.boxed
  rw [he]
  rfl

theorem apply_string {s : String} (hp : parse data = .ok (.string s)) (f : GatewayFSM)
    (he : e.command = some data) : f.apply e.boxed = .ok (f, some stringError) := by
  have hread : fsmCommand.unmarshal fsmCommand.zero data = .error commandError := by
    rw [unmarshal, hp]
    rfl
  rw [apply_boxed f he, hread]
  rfl

/-! ### No other command gets this error -/

/-- Texts that part at position `k`. -/
theorem append_ne {a b t : String} {k : Nat} {x y : Char} (hx : a.toList[k]? = some x)
    (hy : t.toList[k]? = some y) (h : x ≠ y) :
    a ++ b ≠ t := by
  rintro rfl
  obtain ⟨hk, -⟩ := List.getElem?_eq_some_iff.1 hx
  rw [String.toList_append, List.getElem?_append_left hk, hx] at hy
  exact h (Option.some.inj hy)

/-- The error of a command of another kind, and of a command whose type is of another kind. -/
def kindError (value : String) : TypeError := ⟨value, "raft.FSMCommand", .root⟩

def typeKindError (value : String) : TypeError := ⟨value, "string", ⟨"FSMCommand", ["type"]⟩⟩

-- all that is evaluated of these texts
theorem error_texts :
    (stringError.toList[0]? = some 'f' ∧ stringError.toList[20]? = some 'c' ∧ stringError.toList[21]? = some 'o') ∧
    commandError.toList[0]? = some 'j' ∧
    (SyntaxError.unexpectedEnd.text ≠ stringError ∧ SyntaxError.unexpectedEnd.text ≠ commandError) ∧
    (∀ value ∈ ["bool", "number", "array"], (kindError value).text ≠ commandError) ∧
    ∀ value ∈ ["null", "bool", "number", "string", "array", "object"], (typeKindError value).text ≠ commandError := by
  decide +kernel

theorem stringError_at :
    stringError.toList[0]? = some 'f' ∧ stringError.toList[20]? = some 'c' ∧ stringError.toList[21]? = some 'o' :=
  error_texts.1

theorem commandError_at : commandError.toList[0]? = some 'j' := error_texts.2.1

theorem typeError_ne (e : TypeError) : e.text ≠ stringError := by
  have hx : "json: cannot unmarshal ".toList[0]? = some 'j' := by decide
  unfold TypeError.text
  simp only [String.append_assoc]
  split
  · exact append_ne hx stringError_at.1 (by decide)
  · exact append_ne hx stringError_at.1 (by decide)

theorem syntaxError_ne (e : SyntaxError) : e.text ≠ stringError ∧ e.text ≠ commandError := by
  cases e with
  | unexpectedEnd => exact error_texts.2.2.1
  | invalid c context =>
    show "invalid character " ++ quoteChar c ++ " " ++ context ≠ _ ∧
      "invalid character " ++ quoteChar c ++ " " ++ context ≠ _
    simp only [String.append_assoc]
    have hx : "invalid character ".toList[0]? = some 'i' := by decide
    exact ⟨append_ne hx stringError_at.1 (by decide), append_ne hx commandError_at (by decide)⟩

/-- A handler does not return `stringError`. -/
def Tells (handler : GatewayFSM → Option Json → Applied) : Prop :=
  ∀ f payload f', handler f payload ≠ .ok (f', some stringError)

theorem tells_applyPayload {α : Type} {c : Codec α} {context : String}
    {change : GatewayFSM → α → Except Panic GatewayFSM}
    (h : ∀ payload err, readPayload c payload = .error err → context ++ err ≠ stringError) :
    Tells (applyPayload c context change) := by
  intro f payload f' heq
  unfold applyPayload at heq
  split at heq
  · rename_i err herr
    exact h payload err herr (Option.some.inj (Prod.mk.inj (Except.ok.inj heq)).2)
  · rename_i v _
    cases hc : change f v with
    | error p => rw [hc] at heq; cases heq
    | ok g => rw [hc] at heq; cases heq

/-- The errors of payloads without a time are those of `encoding/json`. -/
theorem tells_total {α : Type} {c : Codec α} (hc : c.Total) {change : GatewayFSM → α → Except Panic GatewayFSM} :
    Tells (applyPayload c "" change) := by
  refine tells_applyPayload fun payload err herr => ?_
  rw [String.empty_append]
  cases payload with
  | none => cases herr; exact (syntaxError_ne .unexpectedEnd).1
  | some j =>
    obtain ⟨e, rfl⟩ := hc.read herr
    exact typeError_ne e

@[simp] theorem total_int : int.Total := Codec.total_int _

@[simp] theorem total_int64 : int64.Total := Codec.total_int _

@[simp] theorem total_uint64 : uint64.Total := Codec.total_uint64.via _ _

@[simp] theorem total_routeConfig : routeConfig.Total := total_struct (by simp)

@[simp] theorem total_serviceConfig : serviceConfig.Total := total_struct (by simp)

@[simp] theorem total_targetConfig : targetConfig.Total := total_struct (by simp)

@[simp] theorem total_healthCheckConfig : healthCheckConfig.Total := total_struct (by simp)

@[simp] theorem total_upstreamConfig : upstreamConfig.Total := total_struct (by simp)

@[simp] theorem total_healthStatus : healthStatus.Total := total_struct (by simp)

@[simp] theorem total_rateLimitUpdate : rateLimitUpdate.Total := total_struct (by simp)

@[simp] theorem total_creditUpdate : creditUpdate.Total := total_struct (by simp)

@[simp] theorem total_counterUpdate : counterUpdate.Total := total_struct (by simp)

theorem tells_handlers : ∀ h ∈ handlers, Tells h.2 := by
  simp only [handlers, List.forall_mem_cons]
  refine ⟨?_, ?_, ?_, ?_, ?_, ?_, ?_, ?_, ?_, ?_, ?_, ?_, fun _ h => by cases h⟩
  · exact tells_total total_routeConfig
  · exact tells_total total_string
  · exact tells_total total_serviceConfig
  · exact tells_total total_string
  · exact tells_total total_upstreamConfig
  · exact tells_total total_string
  · exact tells_total total_rateLimitUpdate
  · exact tells_total total_creditUpdate
  · exact tells_total total_healthStatus
  · exact tells_total total_counterUpdate
  -- the texts part at the name of what was to be read
  · have hx : "failed to unmarshal certificate update: ".toList[21]? = some 'e' := by decide
    exact tells_applyPayload fun _ _ _ => append_ne hx stringError_at.2.2 (by decide)
  · have hx : "failed to unmarshal ACME renewal lock: ".toList[20]? = some 'A' := by decide
    exact tells_applyPayload fun _ _ _ => append_ne hx stringError_at.2.1 (by decide)

theorem applyCommand_ne (f f' : GatewayFSM) (cmd : FSMCommand) : applyCommand f cmd ≠ .ok (f', some stringError) := by
  unfold applyCommand
  split
  · rename_i handler hl
    obtain ⟨l₁, l₂, heq, -⟩ := List.lookup_eq_some_iff.1 hl
    exact tells_handlers _ (by rw [heq]; exact List.mem_append_right _ List.mem_cons_self) f _ f'
  · have hx : "unknown command type: ".toList[0]? = some 'u' := by decide
    intro heq
    exact append_ne hx stringError_at.1 (by decide) (Option.some.inj (Prod.mk.inj (Except.ok.inj heq)).2)

/-- The only error that reading the members of a command can meet is about its type. -/
theorem fsmCommand_members (members : List (String × Json)) :
    Keeps (fun saved => saved = none ∨ ∃ j : Json, saved = some ⟨j.kind, "string", ⟨"FSMCommand", ["type"]⟩⟩)
      (fsmCommand.decode .root fsmCommand.zero (.object members)) := by
  refine keeps_members ?_ members _
  simp only [List.forall_mem_cons]
  refine ⟨fun a j => ?_, fun a j => keeps_bind (keeps_pure _) fun _ => keeps_pure _, by simp⟩
  refine keeps_bind ?_ fun _ => keeps_pure _
  cases j with
  | null => exact keeps_pure _
  | string s => exact keeps_pure _
  | bool b => exact keeps_refuse (Or.inr ⟨.bool b, rfl⟩)
  | number n => exact keeps_refuse (Or.inr ⟨.number n, rfl⟩)
  | array elems => exact keeps_refuse (Or.inr ⟨.array elems, rfl⟩)
  | object fields => exact keeps_refuse (Or.inr ⟨.object fields, rfl⟩)

theorem fsmCommand_read_ne {cmd : Json} (h : ∀ s, cmd ≠ .string s) :
    fsmCommand.read fsmCommand.zero cmd ≠ .error commandError := by
  obtain ⟨-, -, -, hroot, hfield⟩ := error_texts
  intro heq
  cases cmd with
  | null => cases heq
  | string s => exact h s rfl
  | bool b => exact hroot "bool" (by decide) (Except.error.inj heq)
  | number n => exact hroot "number" (by decide) (Except.error.inj heq)
  | array elems => exact hroot "array" (by decide) (Except.error.inj heq)
  | object members =>
    obtain ⟨a, saved, hr, hsaved⟩ := fsmCommand_members members none (Or.inl rfl)
    rw [Codec.read, hr] at heq
    rcases hsaved with rfl | ⟨j, rfl⟩
    · cases heq
    · exact hfield j.kind (by cases j <;> simp [kind]) (Except.error.inj heq)

theorem apply_other {cmd : Json} (h : ∀ s, cmd ≠ .string s) (f f' : GatewayFSM)
    (he : e.command = some (render cmd)) : f.apply e.boxed ≠ .ok (f', some stringError) := by
  have hcancel : ∀ err, err ≠ commandError → "failed to unmarshal command: " ++ err ≠ stringError := by
    intro err herr heq
    unfold stringError at heq
    exact herr ((String.append_right_inj _).1 heq)
  have hne : fsmCommand.unmarshal fsmCommand.zero (render cmd) ≠ .error commandError := by
    have hparse := parse_render cmd
    unfold unmarshal
    split at hparse
    · rw [hparse]
      exact fsmCommand_read_ne h
    · obtain ⟨c, hc⟩ := hparse
      rw [hc]
      exact fun heq => (syntaxError_ne _).2 (Except.error.inj heq)
  rw [apply_boxed f he]
  split
  · rename_i err herr
    rw [herr] at hne
    intro heq
    exact hcancel err (fun he => hne (by rw [he])) (Option.some.inj (Prod.mk.inj (Except.ok.inj heq)).2)
  · exact applyCommand_ne f f' _

/-! ### What is loaded -/

/-- There is one entry with the index of `e`, and its command is the marshalled command of `e`. -/
theorem loadLog_saveLog {db : SQLite ι Text δ} (hdb : Table.Sorted LogRow.idx db.raftLog) (e : LogEntry Text) :
    ∃ log, (sqliteStorage marshalCommand).loadLog ((sqliteStorage marshalCommand).saveLog db [e]) = some log ∧
      (∃ e' ∈ log, e'.index = e.index) ∧
      ∀ e' ∈ log, e'.index = e.index → e'.command = some (command.marshal (e.command.map .bytes)) := by
  refine ⟨_, rfl, ?_, fun e' he' hidx => ?_⟩
  · exact ⟨_, List.mem_map.2 ⟨_, (Table.mem_upsert hdb).2 (Or.inl rfl), rfl⟩, rfl⟩
  · obtain ⟨row, hrow, rfl⟩ := List.mem_map.1 he'
    rcases (Table.mem_upsert hdb).1 hrow with rfl | ⟨-, hne⟩
    · rfl
    · exact absurd hidx hne

theorem parse_render_string (s : String) : parse (render (.string s)) = .ok (.string s) := by
  have hdepth : (Json.string s).depth ≤ maxNestingDepth := Nat.zero_le _
  have h := parse_render (.string s)
  rwa [if_pos hdepth] at h

/-- **A command survives on disk exactly if it is a JSON string**, one on which `Apply` fails in the first
place: whatever is loaded is a JSON string. -/
theorem stored_command_iff {db : SQLite ι Text δ} (hdb : Table.Sorted LogRow.idx db.raftLog)
    (n : Node ι Text σ S) (cmd : Json) :
    (∃ log, (sqliteStorage marshalCommand).loadLog
        ((sqliteStorage marshalCommand).saveLog db [newEntry n (render cmd)]) = some log ∧
      ∃ e ∈ log, e.index = (newEntry n (render cmd)).index ∧
        ∀ f : GatewayFSM, f.apply e.boxed = f.apply (newEntry n (render cmd)).boxed) ↔
      ∃ s, cmd = .string s := by
  obtain ⟨log, hlog, ⟨e₀, he₀, hidx₀⟩, hcmd⟩ := loadLog_saveLog hdb (newEntry n (render cmd))
  have hstored : ∀ e ∈ log, e.index = (newEntry n (render cmd)).index →
      ∀ f : GatewayFSM, f.apply e.boxed = .ok (f, some stringError) := by
    intro e he hidx f
    exact apply_string (parse_render_string _) f (hcmd e he hidx)
  constructor
  · rintro ⟨log', hlog', e, he, hidx, hsame⟩
    rw [hlog] at hlog'
    cases hlog'
    by_contra hno
    have hother : ∀ s, cmd ≠ .string s := fun s hs => hno ⟨s, hs⟩
    exact apply_other hother newGatewayFSM newGatewayFSM rfl ((hsame _).symm.trans (hstored e he hidx _))
  · rintro ⟨s, rfl⟩
    refine ⟨log, hlog, e₀, he₀, hidx₀, fun f => ?_⟩
    rw [hstored e₀ he₀ hidx₀, apply_string (parse_render_string s) f rfl]

/-- A leader with an empty log, over an empty database. -/
def diskLeader : Node String Text (List (LogEntry Text)) (SQLite String Text (List (LogEntry Text))) :=
  { newNode ⟨recorder, [], sqliteStorage marshalCommand⟩ "a" ⟨10, 0⟩ ["b"] (some newSQLite) with
    state := .leader, currentTerm := 1 }

theorem stored_command_iff_text :
    Table.Sorted LogRow.idx (newSQLite : SQLite String Text (List (LogEntry Text))).raftLog ∧
    ∃ log, (sqliteStorage marshalCommand).loadLog ((sqliteStorage marshalCommand).saveLog
        (newSQLite : SQLite String Text (List (LogEntry Text))) [newEntry diskLeader (render (.string "reload"))]) =
          some log ∧
      ∃ e ∈ log, e.index = (newEntry diskLeader (render (.string "reload"))).index ∧
        ∀ f : GatewayFSM, f.apply e.boxed = f.apply (newEntry diskLeader (render (.string "reload"))).boxed :=
  ⟨.nil, (stored_command_iff .nil diskLeader (.string "reload")).2 ⟨"reload", rfl⟩⟩

/-- The credit is given before the restart, not after it. -/
theorem restored_command_fails :
    ¬ ∃ log, (sqliteStorage marshalCommand).loadLog ((sqliteStorage marshalCommand).saveLog
        (newSQLite : SQLite String Text (List (LogEntry Text))) [newEntry diskLeader oneCredit]) = some log ∧
      ∃ e ∈ log, e.index = (newEntry diskLeader oneCredit).index ∧
        ∀ f : GatewayFSM, f.apply e.boxed = f.apply (newEntry diskLeader oneCredit).boxed := by
  rintro ⟨log, hlog, e, he, hidx, hsame⟩
  have hempty : Table.Sorted LogRow.idx (newSQLite : SQLite String Text (List (LogEntry Text))).raftLog := .nil
  obtain ⟨log', hlog', -, hcmd⟩ := loadLog_saveLog hempty (newEntry diskLeader oneCredit)
  rw [hlog] at hlog'
  cases hlog'
  have hagain : newGatewayFSM.apply e.boxed = .ok (newGatewayFSM, some stringError) :=
    apply_string (parse_render_string _) newGatewayFSM (hcmd e he hidx)
  have hcommand : ∀ s, creditCommand ≠ .string s := fun s h => by cases h
  exact apply_other hcommand newGatewayFSM newGatewayFSM rfl ((hsame _).symm.trans hagain)

end Raft
