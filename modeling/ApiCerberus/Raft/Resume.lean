import ApiCerberus.Raft.Snapshots

/-!
# A state machine that goes on from a snapshot

A snapshot in the middle of a run changes nothing: a `GatewayFSM` that is restored from it and gets the rest of the
entries ends in the state of one that has got them all, returns the same errors, and does not panic (`resumed_run`). It
has lost the private keys of the certificates that were not updated again.

The seven maps that `Restore` takes over as they come from the JSON are never nil, because those of the snapshot are not
(`Ready`).
-/

namespace Raft

open Json Codec

/-- The maps that are assigned to. -/
structure Ready (f : GatewayFSM) : Prop where
  routes : f.routes.isSome
  services : f.services.isSome
  upstreams : f.upstreams.isSome
  rateLimitCounters : f.rateLimitCounters.isSome
  creditBalances : f.creditBalances.isSome
  healthChecks : f.healthChecks.isSome
  requestCounts : f.requestCounts.isSome

/-- The certificate that an entry brings. -/
def certificateUpdate (entry : LogEntry Command) : Option CertificateUpdateLog :=
  match entry.command with
  | some (.bytes data) =>
    match fsmCommand.unmarshal fsmCommand.zero data with
    | .ok cmd =>
      if cmd.type = "certificate_update" then (readPayload certificateUpdateLog cmd.payload).toOption else none
    | .error _ => none
  | _ => none

/-- The calls of `Apply` for a list of entries: the state after them and the errors they have returned. -/
def applyAll : GatewayFSM → List (LogEntry Command) → Except Panic (GatewayFSM × List (Option String))
  | f, [] => .ok (f, [])
  | f, entry :: entries =>
    match f.apply entry with
    | .error p => .error p
    | .ok (f, err) => (applyAll f entries).map (Prod.map id (err :: ·))

/-! ## One entry -/

/-- A handler that neither panics nor looks at the certificates. -/
def Unmoved (handler : GatewayFSM → Option Json → Applied) : Prop :=
  ∀ f payload, Ready f → ∃ g err, Ready g ∧ ∀ m, handler { f with certificates := m } payload =
    .ok ({ g with certificates := m }, err)

theorem unmoved_applyPayload {α : Type} {c : Codec α} {context : String}
    {change : GatewayFSM → α → Except Panic GatewayFSM}
    (h : ∀ f v, Ready f → ∃ g, Ready g ∧ ∀ m, change { f with certificates := m } v =
      .ok { g with certificates := m }) :
    Unmoved (applyPayload c context change) := by
  intro f payload hf
  unfold applyPayload
  cases readPayload c payload with
  | error err => exact ⟨f, some (context ++ err), hf, fun _ => rfl⟩
  | ok v =>
    obtain ⟨g, hg, hchange⟩ := h f v hf
    exact ⟨g, none, hg, fun m => congrArg (Except.map _) (hchange m)⟩

theorem assign_some {α : Type} {m : GoMap α} (h : m.isSome) (k : String) (v : α) :
    ∃ m', assign m k v = .ok m' ∧ m'.isSome := by
  obtain ⟨rows, rfl⟩ := Option.isSome_iff_exists.1 h
  exact ⟨_, rfl, rfl⟩

theorem unmoved_handlers : ∀ h ∈ handlers, h.1 ≠ "certificate_update" → Unmoved h.2 := by
  simp only [handlers, List.forall_mem_cons]
  refine ⟨fun _ => ?_, fun _ => ?_, fun _ => ?_, fun _ => ?_, fun _ => ?_, fun _ => ?_, fun _ => ?_,
    fun _ => ?_, fun _ => ?_,
    fun _ => ?_, fun h => absurd rfl h, fun _ => ?_, fun _ h => by cases h⟩
  · refine unmoved_applyPayload fun f route hf => ?_
    obtain ⟨m', hm', hsome⟩ := assign_some hf.routes route.id (some route)
    exact ⟨{ f with routes := m' }, { hf with routes := hsome }, fun m => by dsimp only; rw [hm']; rfl⟩
  · exact unmoved_applyPayload fun f id hf =>
      ⟨{ f with routes := f.routes.map (·.erase id) }, { hf with routes := by rw [Option.isSome_map]; exact hf.routes },
        fun _ => rfl⟩
  · refine unmoved_applyPayload fun f service hf => ?_
    obtain ⟨m', hm', hsome⟩ := assign_some hf.services service.id (some service)
    exact ⟨{ f with services := m' }, { hf with services := hsome }, fun m => by dsimp only; rw [hm']; rfl⟩
  · exact unmoved_applyPayload fun f id hf =>
      ⟨{ f with services := f.services.map (·.erase id) },
        { hf with services := by rw [Option.isSome_map]; exact hf.services }, fun _ => rfl⟩
  · refine unmoved_applyPayload fun f upstream hf => ?_
    obtain ⟨m', hm', hsome⟩ := assign_some hf.upstreams upstream.id (some upstream)
    exact ⟨{ f with upstreams := m' }, { hf with upstreams := hsome }, fun m => by dsimp only; rw [hm']; rfl⟩
  · exact unmoved_applyPayload fun f id hf =>
      ⟨{ f with upstreams := f.upstreams.map (·.erase id) },
        { hf with upstreams := by rw [Option.isSome_map]; exact hf.upstreams }, fun _ => rfl⟩
  · refine unmoved_applyPayload fun f update hf => ?_
    obtain ⟨m', hm', hsome⟩ : ∃ m', (if update.reset then assign f.rateLimitCounters update.key 0
        else increment f.rateLimitCounters update.key update.count) = .ok m' ∧ m'.isSome := by
      split <;> exact assign_some hf.rateLimitCounters _ _
    exact ⟨{ f with rateLimitCounters := m' }, { hf with rateLimitCounters := hsome },
      fun m => by dsimp only; rw [hm']; rfl⟩
  · refine unmoved_applyPayload fun f update hf => ?_
    obtain ⟨m', hm', hsome⟩ : ∃ m', (if update.set then assign f.creditBalances update.userID update.amount
        else increment f.creditBalances update.userID update.amount) = .ok m' ∧ m'.isSome := by
      split <;> exact assign_some hf.creditBalances _ _
    exact ⟨{ f with creditBalances := m' }, { hf with creditBalances := hsome }, fun m => by dsimp only; rw [hm']; rfl⟩
  · refine unmoved_applyPayload fun f status hf => ?_
    obtain ⟨m', hm', hsome⟩ := assign_some hf.healthChecks status.id (some status)
    exact ⟨{ f with healthChecks := m' }, { hf with healthChecks := hsome }, fun m => by dsimp only; rw [hm']; rfl⟩
  · refine unmoved_applyPayload fun f update hf => ?_
    obtain ⟨m', hm', hsome⟩ : ∃ m', increment f.requestCounts update.key update.count = .ok m' ∧ m'.isSome :=
      assign_some hf.requestCounts _ _
    exact ⟨{ f with requestCounts := m' }, { hf with requestCounts := hsome }, fun m => by dsimp only; rw [hm']; rfl⟩
  · exact unmoved_applyPayload fun f _ hf => ⟨f, hf, fun _ => rfl⟩

/-- The certificates after an entry. -/
def updated (m : FinMap String CertificateState) (entry : LogEntry Command) : FinMap String CertificateState :=
  match certificateUpdate entry with
  | some update => m.set update.domain update
  | none => m

/-- **What an entry does.** The certificates neither decide what happens to the rest nor whether there is an error. -/
theorem apply_bytes {f : GatewayFSM} (hf : Ready f) {entry : LogEntry Command} {data : Text}
    (hdata : entry.command = some (.bytes data)) :
    ∃ g err, Ready g ∧ ∀ m, ({ f with certificates := m } : GatewayFSM).apply entry =
      .ok ({ g with certificates := updated m entry }, err) := by
  simp only [GatewayFSM.apply, updated, certificateUpdate, hdata]
  cases fsmCommand.unmarshal fsmCommand.zero data with
  | error err => exact ⟨f, _, hf, fun _ => rfl⟩
  | ok cmd =>
    dsimp only
    by_cases htype : cmd.type = "certificate_update"
    · simp only [applyCommand, htype, if_true]
      rw [show handlers.lookup "certificate_update" = some applyCertificateUpdate from rfl]
      simp only [applyCertificateUpdate, applyPayload]
      cases readPayload certificateUpdateLog cmd.payload with
      | error err => exact ⟨f, _, hf, fun _ => rfl⟩
      | ok update => exact ⟨f, none, hf, fun _ => rfl⟩
    · simp only [applyCommand, htype, if_false]
      cases hl : handlers.lookup cmd.type with
      | none => exact ⟨f, _, hf, fun _ => rfl⟩
      | some handler =>
        obtain ⟨l₁, l₂, heq, -⟩ := List.lookup_eq_some_iff.1 hl
        exact unmoved_handlers (cmd.type, handler)
          (by rw [heq]; exact List.mem_append_right _ List.mem_cons_self) htype f cmd.payload hf

/-! ## Runs -/

variable {f : GatewayFSM} {entries : List (LogEntry Command)}

/-- **What a run does.** -/
theorem applyAll_bytes (hf : Ready f) (hbytes : ∀ e ∈ entries, ∃ data, e.command = some (.bytes data)) :
    ∃ g errs, Ready g ∧ ∀ m, applyAll { f with certificates := m } entries =
      .ok ({ g with certificates := entries.foldl updated m }, errs) := by
  induction entries generalizing f with
  | nil => exact ⟨f, [], hf, fun _ => rfl⟩
  | cons entry entries ih =>
    obtain ⟨⟨data, hdata⟩, hrest⟩ := List.forall_mem_cons.1 hbytes
    obtain ⟨g, err, hg, happly⟩ := apply_bytes hf hdata
    obtain ⟨g', errs, hg', hall⟩ := ih hg hrest
    refine ⟨g', err :: errs, hg', fun m => ?_⟩
    rw [applyAll, happly]
    dsimp only
    rw [hall]
    rfl

theorem applyAll_append (f : GatewayFSM) (pre suf : List (LogEntry Command)) :
    applyAll f (pre ++ suf) = (applyAll f pre).bind fun r => (applyAll r.1 suf).map (Prod.map id (r.2 ++ ·)) := by
  induction pre generalizing f with
  | nil =>
    show applyAll f suf = (applyAll f suf).map _
    cases applyAll f suf <;> rfl
  | cons entry pre ih =>
    rw [List.cons_append, applyAll, applyAll]
    cases f.apply entry with
    | error p => rfl
    | ok r =>
      dsimp only
      rw [ih]
      cases applyAll r.1 pre with
      | error p => rfl
      | ok r' =>
        show ((applyAll r'.1 suf).map _).map _ = (applyAll r'.1 suf).map _
        cases applyAll r'.1 suf <;> rfl

theorem foldl_updated (m : FinMap String CertificateState) :
    entries.foldl updated m = (entries.filterMap certificateUpdate).foldl
      (fun m update => m.set update.domain update) m := by
  induction entries generalizing m with
  | nil => rfl
  | cons entry entries ih =>
    rw [List.foldl_cons, ih, List.filterMap_cons, updated]
    cases certificateUpdate entry <;> rfl

/-- The domains whose certificates are updated by one of the entries. -/
def updatedDomains (entries : List (LogEntry Command)) : List String :=
  (entries.filterMap certificateUpdate).map CertificateState.domain

/-- A certificate that is not updated again has lost its key. -/
theorem get?_foldl_updated_keyless (m : FinMap String CertificateState) (domain : String) :
    (entries.foldl updated (m.map CertificateState.keyless)).get? domain =
      if domain ∈ updatedDomains entries then (entries.foldl updated m).get? domain
      else ((entries.foldl updated m).get? domain).map CertificateState.keyless := by
  rw [foldl_updated, foldl_updated]
  split
  · rename_i hmem
    exact FinMap.get?_foldl_set_congr CertificateState.domain id (.inr (List.mem_map.1 hmem))
  · rename_i hnot
    have hnone : ∀ m' : FinMap String CertificateState,
        ((entries.filterMap certificateUpdate).foldl (fun m update => m.set update.domain update) m').get? domain =
          m'.get? domain := by
      intro m'
      rcases FinMap.get?_foldl_set_cases CertificateState.domain id (entries.filterMap certificateUpdate) m' domain with
        ⟨u, hu, hdomain, -⟩ | ⟨-, hget⟩
      · exact absurd (List.mem_map.2 ⟨u, hu, hdomain⟩) hnot
      · exact hget
    rw [hnone, hnone, FinMap.get?_map]

/-- The times of the certificates are those of the updates. -/
theorem snapshot_updated {g : GatewayFSM}
    (htimes : ∀ u ∈ entries.filterMap certificateUpdate, u.issuedAt.Encodable ∧ u.expiresAt.Encodable) :
    ∃ data, ({ g with certificates := entries.foldl updated .empty } : GatewayFSM).snapshot = some data := by
  refine ⟨_, if_pos fun r hr => ?_⟩
  have hget := FinMap.get?_eq_some_iff.2 hr
  rw [foldl_updated] at hget
  rcases FinMap.get?_foldl_set_cases CertificateState.domain id (entries.filterMap certificateUpdate) .empty r.1 with
    ⟨u, hu, -, hu'⟩ | ⟨-, hnone⟩
  · rw [← Option.some.inj (hu'.symm.trans hget)]
    exact htimes u hu
  · cases hnone.symm.trans hget

/-- **Resuming.** A state machine that is restored from a snapshot and gets the rest of the entries ends in the state
that one ends in that gets all of them, but for the keys of the certificates that are not updated again. Every `Apply`
returns what it returns there. -/
theorem resumed_run {pre suf : List (LogEntry Command)}
    (hbytes : ∀ e ∈ pre ++ suf, ∃ data, e.command = some (.bytes data))
    (htimes : ∀ u ∈ pre.filterMap certificateUpdate, u.issuedAt.Encodable ∧ u.expiresAt.Encodable) :
    ∃ f errs data restored direct resumed errs', applyAll newGatewayFSM pre = .ok (f, errs) ∧ f.snapshot = some data ∧
      restore data = .ok (.ok restored) ∧ applyAll newGatewayFSM (pre ++ suf) = .ok (direct, errs ++ errs') ∧
      applyAll restored suf = .ok (resumed, errs') ∧ resumed = { direct with certificates := resumed.certificates } ∧
      ∀ domain, resumed.certificates.get? domain = if domain ∈ updatedDomains suf then direct.certificates.get? domain
        else (direct.certificates.get? domain).map CertificateState.keyless := by
  obtain ⟨hpre, hsuf⟩ := List.forall_mem_append.1 hbytes
  obtain ⟨g, errs, hg, hall⟩ := applyAll_bytes (f := newGatewayFSM) ⟨rfl, rfl, rfl, rfl, rfl, rfl, rfl⟩ hpre
  obtain ⟨g', errs', -, hall'⟩ := applyAll_bytes hg hsuf
  obtain ⟨data, hdata⟩ := snapshot_updated (g := g) htimes
  have hfirst : applyAll newGatewayFSM pre = .ok ({ g with certificates := pre.foldl updated .empty }, errs) :=
    hall .empty
  refine ⟨_, errs, data, _, { g' with certificates := suf.foldl updated (pre.foldl updated .empty) }, _,
    errs', hfirst, hdata,
    restore_snapshot hdata, ?_, hall' _, rfl, fun domain => ?_⟩
  · rw [applyAll_append, hfirst]
    show (applyAll { g with certificates := pre.foldl updated .empty } suf).map _ = _
    rw [hall']
    rfl
  · exact get?_foldl_updated_keyless _ domain

/-- A certificate for example.com with a private key. -/
def certificateCommand : Json :=
  .object [("type", .string "certificate_update"),
    ("payload", .object [("domain", .string "example.com"), ("cert_pem", .string "C"), ("key_pem", .string "K"),
      ("issued_at", .string "2026-01-01T00:00:00Z"), ("expires_at", .string "2026-04-01T00:00:00Z"),
        ("issued_by", .string "n1")])]

theorem resumed_run_certificate :
    ∃ f errs data restored direct resumed errs',
      applyAll newGatewayFSM [⟨1, 1, some (.bytes oneCredit)⟩, ⟨2, 1, some (.bytes certificateCommand.render)⟩] =
        .ok (f, errs) ∧
      f.snapshot = some data ∧ restore data = .ok (.ok restored) ∧
      applyAll newGatewayFSM ([⟨1, 1, some (.bytes oneCredit)⟩, ⟨2, 1, some (.bytes certificateCommand.render)⟩] ++
        [⟨3, 1, some (.bytes oneCredit)⟩]) = .ok (direct, errs ++ errs') ∧
      applyAll restored [⟨3, 1, some (.bytes oneCredit)⟩] = .ok (resumed, errs') ∧
        resumed = { direct with certificates := resumed.certificates } ∧
      ∀ domain, resumed.certificates.get? domain =
        if domain ∈ updatedDomains [⟨3, 1, some (.bytes oneCredit)⟩] then direct.certificates.get? domain
        else (direct.certificates.get? domain).map CertificateState.keyless := by
  refine resumed_run ?_ (by decide +kernel)
  simp only [List.cons_append, List.nil_append, List.forall_mem_cons]
  exact ⟨⟨_, rfl⟩, ⟨_, rfl⟩, ⟨_, rfl⟩, nofun⟩

end Raft
