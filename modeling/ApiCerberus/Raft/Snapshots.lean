import ApiCerberus.Raft.Machine

/-!
# Snapshots of the gateway's state machine

`restore_snapshot`: what `Snapshot` has written, `Restore` reads back, up to the private keys, which a
snapshot leaves out. `keyless_apply`: what `Apply` does to the rest of the state does not depend on the
private keys.
-/

namespace Raft

open Json Codec

/-! ## The parts of a snapshot come back -/

theorem carried_uint64 (v : UInt64) : uint64.Carried 0 v :=
  (Codec.carried_uint64 v.toNat_lt).via rfl UInt64.ofNat_toNat

theorem carried_strings (v : Option (List String)) : string.slice.Carried 1 v :=
  carried_slice fun _ _ x _ => carried_string x

theorem carried_counters (m : GoMap Int64) : int64.mapOf.Carried 1 m :=
  carried_mapOf fun _ _ r _ => carried_int _ r.2

variable {α : Type}

/-- A map of pointers to structs. -/
theorem carried_pointers {name goType : String} {zero : α} {fields : List (Codec.Field α)} {d : Nat}
    (h : ∀ v, (struct name goType zero fields).Carried d v) (m : GoMap (Option α)) :
    (struct name goType zero fields).ptr.mapOf.Carried (d + 1) m := by
  refine carried_mapOf fun _ _ r _ => ?_
  obtain ⟨k, v⟩ := r
  cases v with
  | none => exact carried_nil _ _
  | some v => exact (h v).ptr (by rintro ⟨⟩)

theorem carried_routeConfig (r : RouteConfig) : routeConfig.Carried 2 r :=
  carried_struct (by decide)
    (.scalar (carried_string _) rfl <| .scalar (carried_string _) rfl <| .scalar (carried_string _) rfl <|
      .field (carried_strings _) (le_refl _) rfl <| .field (carried_strings _) (le_refl _) rfl <|
      .field (carried_strings _) (le_refl _) rfl <| .scalar (carried_bool _) rfl <| .scalar (carried_int _ _) rfl <|
      .scalar (carried_uint64 _) rfl .nil)

theorem carried_serviceConfig (s : ServiceConfig) : serviceConfig.Carried 2 s :=
  carried_struct (by decide)
    (.scalar (carried_string _) rfl <| .scalar (carried_string _) rfl <| .scalar (carried_string _) rfl <|
      .scalar (carried_string _) rfl <| .scalar (carried_int _ _) rfl <| .scalar (carried_int _ _) rfl <|
      .field (carried_mapOf fun _ _ r _ => carried_string r.2) (le_refl _) rfl <| .scalar (carried_uint64 _) rfl .nil)

theorem carried_targetConfig (t : TargetConfig) : targetConfig.Carried 1 t :=
  carried_struct (by decide)
    (.scalar (carried_string _) rfl <| .scalar (carried_string _) rfl <| .scalar (carried_int _ _) rfl <|
      .scalar (carried_bool _) rfl .nil)

theorem carried_healthCheckConfig (h : HealthCheckConfig) : healthCheckConfig.Carried 1 h :=
  carried_struct (by decide)
    (.scalar (carried_string _) rfl <| .scalar (carried_int _ _) rfl <| .scalar (carried_int _ _) rfl <|
      .scalar (carried_int _ _) rfl <| .scalar (carried_int _ _) rfl .nil)

theorem carried_upstreamConfig (u : UpstreamConfig) : upstreamConfig.Carried 3 u :=
  carried_struct (by decide)
    (.scalar (carried_string _) rfl <| .scalar (carried_string _) rfl <| .scalar (carried_string _) rfl <|
      .field (carried_slice fun _ _ t _ => carried_targetConfig t) (le_refl _) rfl <|
      .optional (fun h _ => ⟨carried_healthCheckConfig h, by rintro ⟨⟩⟩) (by decide) rfl rfl <|
      .scalar (carried_uint64 _) rfl .nil)

theorem carried_healthStatus (h : HealthStatus) : healthStatus.Carried 1 h :=
  carried_struct (by decide)
    (.scalar (carried_string _) rfl <| .scalar (carried_bool _) rfl <| .scalar (carried_int _ _) rfl <|
      .scalar (carried_int _ _) rfl <| .scalar (carried_int _ _) rfl .nil)

theorem carried_certSnapshot {c : CertSnapshot} (h : c.issuedAt.Encodable ∧ c.expiresAt.Encodable) :
    certSnapshot.Carried 1 c :=
  carried_struct (by decide)
    (.scalar (carried_string _) rfl <| .scalar (carried_string _) rfl <| .scalar (carried_time h.1) rfl <|
      .scalar (carried_time h.2) rfl <| .scalar (carried_string _) rfl .nil)

theorem carried_toSnapshot {f : GatewayFSM}
    (h : ∀ r ∈ f.certificates.rows, r.2.issuedAt.Encodable ∧ r.2.expiresAt.Encodable) :
      fsmSnapshot.Carried 5 f.toSnapshot := by
  have hcerts : certSnapshot.ptr.mapOf.Carried 2 f.toSnapshot.certificates := by
    refine carried_mapOf fun m hm r hr => ?_
    cases hm
    obtain ⟨c, hc, rfl⟩ := List.mem_map.1 hr
    exact (carried_certSnapshot (h c hc)).ptr (by rintro ⟨⟩)
  exact carried_struct (by decide)
    (.field (carried_pointers carried_routeConfig _) (by decide) rfl <|
      .field (carried_pointers carried_serviceConfig _) (by decide) rfl <|
      .field (carried_pointers carried_upstreamConfig _) (by decide) rfl <|
        .field (carried_counters _) (by decide) rfl <|
      .field (carried_counters _) (by decide) rfl <| .field (carried_pointers carried_healthStatus _) (by decide) rfl <|
      .field (carried_counters _) (by decide) rfl <| .field hcerts (by decide) rfl .nil)

/-! ## Without the private keys -/

def CertificateState.keyless (c : CertificateState) : CertificateState := { c with keyPEM := "" }

/-- The state as a snapshot shows it. -/
def GatewayFSM.keyless (f : GatewayFSM) : GatewayFSM :=
  { f with certificates := f.certificates.map CertificateState.keyless }

theorem GatewayFSM.keyless_keyless (f : GatewayFSM) : f.keyless.keyless = f.keyless := by
  show { f with certificates := (f.certificates.map _).map _ } = _
  rw [FinMap.map_map]
  rfl

theorem toState_toSnapshot (f : GatewayFSM) : f.toSnapshot.toState = .ok f.keyless := by
  unfold FsmSnapshot.toState
  dsimp only
  rw [if_pos]
  · have hcerts : (f.certificates.map fun c => some c.toSnapshot).map (fun c => (c.getD certSnapshot.zero).toState) =
        f.certificates.map CertificateState.keyless := FinMap.map_map _ _ _
    exact congrArg (fun m => Except.ok { f with certificates := m }) hcerts
  · intro r hr
    obtain ⟨c, -, rfl⟩ := List.mem_map.1 hr
    rfl

/-- **A snapshot restores to the state it was taken of**, but for the private keys. -/
theorem restore_snapshot {f : GatewayFSM} {data : Text} (h : f.snapshot = some data) :
    restore data = .ok (.ok f.keyless) := by
  unfold GatewayFSM.snapshot at h
  split at h
  · rename_i henc
    cases h
    rw [restore, unmarshal_marshal (carried_toSnapshot henc) (by decide)]
    exact congrArg Except.ok (toState_toSnapshot f)
  · cases h

/-! ## `Apply` and the private keys -/

/-- A handler shows the same with and without the private keys. -/
def Blind (handler : GatewayFSM → Option Json → Applied) : Prop :=
  ∀ f payload, (handler f.keyless payload).map (Prod.map GatewayFSM.keyless id) =
    (handler f payload).map (Prod.map GatewayFSM.keyless id)

theorem blind_applyPayload {c : Codec α} {context : String} {change : GatewayFSM → α → Except Panic GatewayFSM}
    (h : ∀ f v, (change f.keyless v).map GatewayFSM.keyless = (change f v).map GatewayFSM.keyless) :
    Blind (applyPayload c context change) := by
  have hmap : ∀ m : Except Panic GatewayFSM, (m.map fun f => (f, (none : Option String))).map
    (Prod.map GatewayFSM.keyless id) =
      (m.map GatewayFSM.keyless).map fun f => (f, none) := by
    intro m
    cases m <;> rfl
  intro f payload
  unfold applyPayload
  split
  · show Except.ok (f.keyless.keyless, _) = Except.ok (f.keyless, _)
    rw [f.keyless_keyless]
  · rw [hmap, hmap, h]

/-- A handler that does not touch the certificates. -/
theorem blind_of_commutes {c : Codec α} {context : String} {change : GatewayFSM → α → Except Panic GatewayFSM}
    (h : ∀ f v, change f.keyless v = (change f v).map GatewayFSM.keyless) : Blind (applyPayload c context change) := by
  refine blind_applyPayload fun f v => ?_
  rw [h]
  cases change f v with
  | error p => rfl
  | ok f => exact congrArg Except.ok f.keyless_keyless

theorem keyless_map {m : Except Panic α} {g h : α → GatewayFSM} (hgh : ∀ v, g v = (h v).keyless) :
    m.map g = (m.map h).map GatewayFSM.keyless := by
  cases m with
  | error p => rfl
  | ok v => exact congrArg Except.ok (hgh v)

theorem blind_handlers : ∀ h ∈ handlers, Blind h.2 := by
  simp only [handlers, List.forall_mem_cons]
  refine ⟨?_, ?_, ?_, ?_, ?_, ?_, ?_, ?_, ?_, ?_, ?_, ?_, fun _ h => by cases h⟩
  · exact blind_of_commutes fun _ _ => keyless_map fun _ => rfl
  · exact blind_of_commutes fun _ _ => rfl
  · exact blind_of_commutes fun _ _ => keyless_map fun _ => rfl
  · exact blind_of_commutes fun _ _ => rfl
  · exact blind_of_commutes fun _ _ => keyless_map fun _ => rfl
  · exact blind_of_commutes fun _ _ => rfl
  · exact blind_of_commutes fun _ _ => keyless_map fun _ => rfl
  · exact blind_of_commutes fun _ _ => keyless_map fun _ => rfl
  · exact blind_of_commutes fun _ _ => keyless_map fun _ => rfl
  · exact blind_of_commutes fun _ _ => keyless_map fun _ => rfl
  · refine blind_applyPayload fun f v => congrArg Except.ok ?_
    have hset : ((f.certificates.map CertificateState.keyless).set v.domain v).map CertificateState.keyless =
        (f.certificates.set v.domain v).map CertificateState.keyless := by
      rw [FinMap.map_set, FinMap.map_set, FinMap.map_map]
      rfl
    exact congrArg (fun m => { f with certificates := m }) hset
  · exact blind_of_commutes fun _ _ => rfl

theorem keyless_apply (f : GatewayFSM) (entry : LogEntry Command) :
    (f.keyless.apply entry).map (Prod.map GatewayFSM.keyless id) =
      (f.apply entry).map (Prod.map GatewayFSM.keyless id) := by
  have hsame : ∀ err : String, Except.map (ε := Panic) (Prod.map GatewayFSM.keyless id) (.ok (f.keyless, some err)) =
      .ok (f.keyless, some err) := by
    intro err
    show Except.ok (f.keyless.keyless, _) = _
    rw [f.keyless_keyless]
    rfl
  unfold GatewayFSM.apply
  split
  · rfl
  · rfl
  · split
    · exact hsame _
    · unfold applyCommand
      split
      · rename_i handler hl
        obtain ⟨l₁, l₂, heq, -⟩ := List.lookup_eq_some_iff.1 hl
        exact blind_handlers _ (by rw [heq]; exact List.mem_append_right _ List.mem_cons_self) f _
      · exact hsame _

end Raft
