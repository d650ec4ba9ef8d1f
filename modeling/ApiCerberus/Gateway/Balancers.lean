import Mathlib.Data.List.Sort
import Mathlib.Data.Rat.Defs
import ApiCerberus.Gateway.ClientIP

/-!
# The balancers

`internal/gateway/balancer.go:24-203` and `ConsistentHash` (`balancer_extra.go:265-370`). Each balancer keeps its own
copy of the targets and of their health; the code for the two is the same in all of them, so it stands once here
(`Pool`). The points of a ring have to fit to that copy: they are those of the targets. This is a field of the
structure.

`sort.Slice` may order points with the same hash in any way; here they stay in the order of the targets.
-/

namespace Balancers

open Ip

structure UpstreamTarget where
  id : Text
  address : Text
  weight : Int
  deriving DecidableEq

/-- What the health of a target is filed under. -/
def targetKey (t : UpstreamTarget) : Text := if Text.trimSpace t.id ≠ [] then t.id else t.address

structure HttpRequest where
  remoteAddr : Text
  header : Header
  path : Text

/-- A call of `Next`: its request, the proxies that are trusted, and what it draws. -/
structure NextCall where
  request : Option HttpRequest
  trusted : List Network

/-- What `Next` gives. -/
inductive Outcome
  | selected (t : UpstreamTarget)
  | noHealthyTargets
  /-- An index out of range, or a division by zero. -/
  | panicked
  deriving DecidableEq

def pick (ts : List UpstreamTarget) (idx : Int) : Outcome :=
  if idx < 0 then .panicked else ts[idx.toNat]?.elim .panicked .selected

/-- `int(counter.Add(1)-1) % len`; `counter` is the value before. -/
def rotate (counter : UInt64) (ts : List UpstreamTarget) : Outcome := pick ts (counter.toInt64.toInt.tmod ts.length)

/-- `netutil.ExtractClientIP`, or nothing without a request. -/
def affinityKey (call : NextCall) : Text :=
  call.request.elim [] fun r => Gateway.extractClientIP call.trusted r.remoteAddr r.header

/-! ## Targets and their health -/

/-- The targets, and what was reported of them. -/
structure Pool where
  targets : List UpstreamTarget
  health : FinMap Text Bool

namespace Pool

def empty : Pool := ⟨[], .empty⟩

/-- Health that was reported stays, new targets are healthy. -/
def updateTargets (p : Pool) (targets : List UpstreamTarget) : Pool where
  targets := targets
  health := targets.foldl (fun m t => m.set (targetKey t) ((p.health.get? (targetKey t)).getD true)) .empty

/-- A target that is listed again keeps its health; the others are forgotten. -/
theorem get?_updateTargets (p : Pool) (targets : List UpstreamTarget) (k : Text) :
    (p.updateTargets targets).health.get? k =
      if ∃ t ∈ targets, targetKey t = k then some ((p.health.get? k).getD true) else none := by
  have hget := FinMap.get?_foldl_set targetKey (fun k => (p.health.get? k).getD true) targets .empty k
  by_cases hlisted : ∃ t ∈ targets, targetKey t = k
  · rwa [if_pos hlisted] at hget ⊢
  · rwa [if_neg hlisted] at hget ⊢

def reportHealth (p : Pool) (targetID : Text) (healthy : Bool) : Pool :=
  { p with health := p.health.set targetID healthy }

/-- The target is not known to be unhealthy. -/
def isHealthy (p : Pool) (t : UpstreamTarget) : Bool := (p.health.get? (targetKey t)).getD true

/-- The targets that may be selected, in their order. -/
def healthyTargets (p : Pool) : List UpstreamTarget := p.targets.filter p.isHealthy

end Pool

/-! ## Round robin -/

structure RoundRobin where
  pool : Pool
  counter : UInt64

namespace RoundRobin

def updateTargets (rr : RoundRobin) (targets : List UpstreamTarget) : RoundRobin :=
  { rr with pool := rr.pool.updateTargets targets }

def reportHealth (rr : RoundRobin) (targetID : Text) (healthy : Bool) : RoundRobin :=
  { rr with pool := rr.pool.reportHealth targetID healthy }

/-- `Next`, which draws a number only if there is a target. -/
def next (rr : RoundRobin) : Outcome × RoundRobin :=
  if rr.pool.healthyTargets = [] then (.noHealthyTargets, rr)
  else (rotate rr.counter rr.pool.healthyTargets, { rr with counter := rr.counter + 1 })

end RoundRobin

def newRoundRobin (targets : List UpstreamTarget) : RoundRobin := RoundRobin.updateTargets ⟨.empty, 0⟩ targets

structure WeightedRoundRobin where
  pool : Pool
  counter : UInt64

namespace WeightedRoundRobin

/-- The weight as it is used: at least 1, at most 1000. -/
def copies (t : UpstreamTarget) : Nat := if t.weight ≤ 0 then 1 else if 1000 < t.weight then 1000 else t.weight.toNat

/-- Each healthy target as often as its weight says. -/
def expandedHealthyTargets (w : WeightedRoundRobin) : List UpstreamTarget :=
  w.pool.targets.flatMap fun t => if w.pool.isHealthy t then List.replicate (copies t) t else []

def next (w : WeightedRoundRobin) : Outcome × WeightedRoundRobin :=
  if w.expandedHealthyTargets = [] then (.noHealthyTargets, w)
  else (rotate w.counter w.expandedHealthyTargets, { w with counter := w.counter + 1 })

end WeightedRoundRobin

/-! ## The hash of a key -/

def bytes (t : Text) : List UInt8 := t.flatMap String.utf8EncodeChar

def crcBit (crc : UInt32) : UInt32 := if crc &&& 1 = 1 then (crc >>> 1) ^^^ 0xEDB88320 else crc >>> 1

/-- `crc32.ChecksumIEEE`. -/
def crc32 (data : List UInt8) : UInt32 :=
  data.foldl (fun crc b => (crcBit ∘ crcBit ∘ crcBit ∘ crcBit ∘ crcBit ∘ crcBit ∘ crcBit ∘ crcBit)
    (crc ^^^ b.toUInt32)) 0xFFFFFFFF
    ^^^ 0xFFFFFFFF

example : crc32 (bytes "123456789".toList) = 0xCBF43926 := by decide +kernel

/-! ## The ring -/

/-- A point of the ring. -/
structure RingEntry where
  hash : UInt32
  target : UpstreamTarget

/-- `replicas` points of each target. -/
def ringPoints (replicas : Nat) (targets : List UpstreamTarget) : List RingEntry :=
  targets.flatMap fun t => (List.range replicas).map fun i => ⟨crc32 (bytes (targetKey t ++ '#' :: Text.decimal i)), t⟩

/-- 120 points for each target, in the order of their hashes. -/
def rebuildRing (targets : List UpstreamTarget) : List RingEntry :=
  (ringPoints 120 targets).insertionSort fun e e' => e.hash ≤ e'.hash

theorem mem_rebuildRing {targets : List UpstreamTarget} {t : UpstreamTarget} :
    (∃ e ∈ rebuildRing targets, e.target = t) ↔ t ∈ targets := by
  simp only [rebuildRing, List.mem_insertionSort, ringPoints, List.mem_flatMap, List.mem_map, List.mem_range]
  constructor
  · rintro ⟨e, ⟨t', ht', i, -, rfl⟩, rfl⟩
    exact ht'
  · intro ht
    exact ⟨_, ⟨t, ht, 0, by omega, rfl⟩, rfl⟩

/-- The loop of `sort.Search`, with a bound on its rounds. -/
def searchLoop (f : Nat → Bool) : Nat → Nat → Nat → Nat
  | 0, i, _ => i
  | fuel + 1, i, j =>
    if i < j then
      if f ((i + j) / 2) then searchLoop f fuel i ((i + j) / 2) else searchLoop f fuel ((i + j) / 2 + 1) j
    else i

/-- The ring has points of the targets of the pool, and of all of them. -/
structure ConsistentHash where
  pool : Pool
  ring : List RingEntry
  mem_ring : ∀ t, (∃ e ∈ ring, e.target = t) ↔ t ∈ pool.targets

namespace ConsistentHash

/-- The client, or else the path. -/
def keyOf (call : NextCall) : Text :=
  if affinityKey call ≠ [] then affinityKey call
  else
    let path := call.request.elim [] fun r => Text.trimSpace r.path
    if path ≠ [] then path else "default".toList

/-- The first healthy target from the place of the key on, once around the ring. -/
def next (ch : ConsistentHash) (call : NextCall) : Outcome :=
  let hash := crc32 (bytes (keyOf call))
  let idx := searchLoop (fun i => ch.ring[i]?.any fun e => hash ≤ e.hash) ch.ring.length 0 ch.ring.length
  let idx := if ch.ring.length ≤ idx then 0 else idx
  let entries := (List.range ch.ring.length).filterMap fun i => ch.ring[(idx + i) % ch.ring.length]?
  match entries.find? fun e => ch.pool.isHealthy e.target with
  | some e => .selected e.target
  | none => .noHealthyTargets

def updateTargets (ch : ConsistentHash) (targets : List UpstreamTarget) : ConsistentHash where
  pool := ch.pool.updateTargets targets
  ring := rebuildRing targets
  mem_ring _ := mem_rebuildRing

def reportHealth (ch : ConsistentHash) (targetID : Text) (healthy : Bool) : ConsistentHash :=
  { ch with pool := ch.pool.reportHealth targetID healthy }

end ConsistentHash

def newConsistentHash (targets : List UpstreamTarget) : ConsistentHash :=
  ConsistentHash.updateTargets ⟨.empty, [], by simp [Pool.empty]⟩ targets

/-! ## Two targets -/

def targetA : UpstreamTarget := ⟨"a".toList, "10.0.0.1:80".toList, 1⟩
def targetB : UpstreamTarget := ⟨"b".toList, "10.0.0.2:80".toList, 1⟩

/-- No request. -/
def plainCall : NextCall := ⟨none, []⟩

end Balancers
