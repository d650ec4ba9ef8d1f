import Mathlib.Data.List.Infix
import Mathlib.Logic.Function.Basic

/-!
# Rotation of the log file

`internal/logging/rotate.go`. A write that would make the file longer than `maxSize` first renames the chain of backups
(`shift`), drops the oldest, and opens a new file. The file operations of one call can each fail on their own
(`Faults`). While none fails and nothing is compressed, the backups and the current file are a suffix of what was
written, cut between writes (`stream_kept`).

`rotateLocked` closes the file before it does anything else and stores a new handle only at its end. If it fails in
between, the writer keeps a closed handle: every later write fails, either on this handle or because it cannot be closed
again (`recovers_unless_failed`).

An open handle is on the file at `path`, which is closed before it is renamed. No file has `2 ^ 63` bytes. A directory
is the map from its files to their contents.
-/

namespace Rotate

abbrev Bytes := List UInt8

/-- The log file and its backups. -/
inductive Name
  | path
  | backup (idx : Nat) (compressed : Bool)
deriving DecidableEq

abbrev Files := Name → Option Bytes

/-- The file operations of one call of `Write`. None of them is done twice in a call. -/
inductive Op
  | close
  | stat (name : Name)
  | remove (name : Name)
  | rename (src : Name)
  | openFile (name : Name)
  | copy
  | finish
deriving DecidableEq

/-- What the file system does during one call: which operations fail, after how many bytes the write to the file stops
with an error, and what the compression of a file leaves behind. -/
structure Faults where
  fails : Op → Bool
  short : Option Nat
  gzip : Bytes → Bytes

/-- The state of an `*os.File` that is not nil. -/
inductive Handle
  | opened
  | closed
deriving DecidableEq

/-- The writer, with the files in its directory. -/
structure Log where
  maxSize : Nat
  maxBackups : Nat
  compress : Bool
  file : Option Handle
  size : Nat
  files : Files

def newRotatingFileWriter (maxSize maxBackups : Int) (compress : Bool) (files : Files) : Log where
  maxSize := if maxSize ≤ 0 then 100 * 1024 * 1024 else maxSize.toNat
  maxBackups := if maxBackups ≤ 0 then 7 else maxBackups.toNat
  compress
  file := some .opened
  size := ((files .path).getD []).length
  files := Function.update files .path (some ((files .path).getD []))

/-! ## The file system -/

/-- What was at the new name is lost. -/
def Files.rename (files : Files) (src dst : Name) : Files :=
  Function.update (Function.update files dst (files src)) src none

/-- `os.Remove`, of which the error is ignored. -/
def Files.remove (files : Files) (f : Faults) (name : Name) : Files :=
  if f.fails (.remove name) then files else Function.update files name none

def fileExists (files : Files) (f : Faults) (name : Name) : Bool := (files name).isSome && !f.fails (.stat name)

/-! ## Rotation -/

/-- The loop from `i` down to 1. -/
def shift (f : Faults) (compressed : Bool) : Nat → Files → Files × Bool
  | 0, files => (files, true)
  | i + 1, files =>
    let src := .backup (i + 1) compressed
    let dst := .backup (i + 2) compressed
    if fileExists files f src then
      if f.fails (.rename src) then (files, false) else shift f compressed i (files.rename src dst)
    else shift f compressed i files

/-- The oldest backup goes, and the others move up by one. -/
def shiftAll (f : Faults) (compressed : Bool) (maxBackups : Nat) (files : Files) : Files × Bool :=
  if maxBackups > 0 then shift f compressed (maxBackups - 1) (files.remove f (.backup maxBackups compressed))
    else (files, true)

/-- Without compression the file is renamed. -/
def rotatePlain (f : Faults) (maxBackups : Nat) (files : Files) : Files × Bool :=
  let (files, ok) := shiftAll f false maxBackups files
  if !ok then (files, false)
  else if fileExists files f .path then
    if f.fails (.rename .path) then (files, false) else (files.rename .path (.backup 1 false), true)
  else (files, true)

/-- The file is copied through gzip. -/
def compressTo (f : Faults) (src dst : Name) (files : Files) : Files × Bool :=
  if f.fails (.openFile src) then (files, false)
  else if f.fails (.openFile dst) then (files, false)
  else (Function.update files dst (some (f.gzip ((files src).getD []))), !f.fails .copy && !f.fails .finish)

def rotateCompressed (f : Faults) (maxBackups : Nat) (files : Files) : Files × Bool :=
  let (files, ok) := shiftAll f true maxBackups files
  if !ok then (files, false)
  else if !fileExists files f .path then (files, true)
  else
    let tmp := .backup 1 false
    if f.fails (.rename .path) then (files, false)
    else
      let (files, ok) := compressTo f tmp (.backup 1 true) (files.rename .path tmp)
      (files.remove f tmp, ok)

namespace Log

/-- A handle that was closed before cannot be closed again, and one whose `Close` fails is closed all the same. -/
def rotateLocked (l : Log) (f : Faults) : Log × Bool :=
  if l.file = some .closed then (l, false)
  else
    let l := { l with file := l.file.map fun _ => .closed }
    if l.file.isSome && f.fails .close then (l, false)
    else
      let (files, ok) := if l.compress then rotateCompressed f l.maxBackups l.files
        else rotatePlain f l.maxBackups l.files
      let l := { l with files }
      if !ok then (l, false)
      else if f.fails (.openFile .path) then (l, false)
      else ({ l with file := some .opened, size := 0, files := Function.update l.files .path (some []) }, true)

/-- `w.file.Write(p)` and the update of the size. -/
def fileWrite (l : Log) (f : Faults) (p : Bytes) : Log × Bool :=
  if l.file = some .opened then
    let n := min p.length (f.short.getD p.length)
    ({ l with size := l.size + n, files := Function.update l.files .path (some ((l.files .path).getD [] ++ p.take n)) },
      n = p.length)
  else (l, false)

/-- Whether a write of `p` rotates. -/
def due (l : Log) (p : Bytes) : Bool := l.size + p.length > l.maxSize

/-- A write that finds no open file fails. -/
def write (l : Log) (f : Faults) (p : Bytes) : Log × Bool :=
  if l.file = none then (l, false)
  else
    let (l, ok) := if l.due p then l.rotateLocked f else (l, true)
    if ok then l.fileWrite f p else (l, false)

/-- The file number `i`: the current one is number 0. -/
def numbered (l : Log) : Nat → Option Bytes
  | 0 => l.files .path
  | i + 1 => l.files (.backup (i + 1) false)

/-- The backups `n`, `n - 1`, ..., 1 and the current file, one after the other. -/
def stream (l : Log) : Nat → Bytes
  | 0 => (l.numbered 0).getD []
  | n + 1 => (l.numbered (n + 1)).getD [] ++ l.stream n

end Log

/-- A file system without failures. -/
def healthy : Faults := ⟨fun _ => false, none, id⟩

@[simp] theorem fails_healthy (op : Op) : healthy.fails op = false := rfl

@[simp] theorem short_healthy : healthy.short = none := rfl

@[simp] theorem remove_healthy (files : Files) (name : Name) :
    files.remove healthy name = Function.update files name none := rfl

@[simp] theorem fileExists_healthy (files : Files) (name : Name) :
    fileExists files healthy name = (files name).isSome := by
  simp [fileExists]

/-! ## The stream of writes -/

/-- Number `i` becomes number `i + 1`. -/
def Shifted (n : Nat) (files files' : Files) : Prop :=
  ∀ i, 1 ≤ i → i ≤ n → files' (.backup (i + 1) false) = files (.backup i false)

theorem shift_ok (compressed : Bool) : ∀ (n : Nat) (files : Files), (shift healthy compressed n files).2 = true
  | 0, _ => rfl
  | n + 1, files => by
    simp only [shift, fails_healthy, Bool.false_eq_true, if_false]
    split <;> exact shift_ok compressed n _

theorem shift_healthy : ∀ (n : Nat) {files : Files}, files (.backup (n + 1) false) = none →
    Shifted n files (shift healthy false n files).1 ∧ (shift healthy false n files).1 .path = files .path ∧
      ∀ i, n + 1 < i → (shift healthy false n files).1 (.backup i false) = files (.backup i false)
  | 0, files, h => ⟨fun i _ _ => by omega, rfl, fun _ _ => rfl⟩
  | n + 1, files, h => by
    simp only [shift, fileExists_healthy, fails_healthy, Bool.false_eq_true, if_false]
    cases hsrc : files (.backup (n + 1) false) with
    | none =>
      obtain ⟨hshift, hpath, hrest⟩ := shift_healthy n hsrc
      refine ⟨fun i hi hle => ?_, hpath, fun i hi => hrest i (by omega)⟩
      obtain hlt | rfl : i ≤ n ∨ i = n + 1 := by omega
      · exact hshift i hi hlt
      · exact (hrest (n + 2) (by omega)).trans (h.trans hsrc.symm)
    | some content =>
      have hnone : (files.rename (.backup (n + 1) false) (.backup (n + 2) false)) (.backup (n + 1) false) = none := by
        simp [Files.rename]
      obtain ⟨hshift, hpath, hrest⟩ := shift_healthy n hnone
      simp only [Option.isSome_some, if_true]
      refine ⟨fun i hi hle => ?_, ?_, fun i hi => ?_⟩
      · obtain hlt | rfl : i ≤ n ∨ i = n + 1 := by omega
        · rw [hshift i hi hlt]
          simp [Files.rename, show i ≠ n + 1 by omega, show i ≠ n + 2 by omega]
        · rw [hrest _ (by omega)]
          simp [Files.rename]
      · rw [hpath]
        simp [Files.rename]
      · rw [hrest i (by omega)]
        simp [Files.rename, show i ≠ n + 1 by omega, show i ≠ n + 2 by omega]

theorem shiftAll_ok (compressed : Bool) (n : Nat) (files : Files) : (shiftAll healthy compressed n files).2 = true := by
  unfold shiftAll
  split
  · exact shift_ok compressed _ _
  · rfl

theorem rotatePlain_ok (n : Nat) (files : Files) : (rotatePlain healthy n files).2 = true := by
  simp only [rotatePlain, shiftAll_ok, fails_healthy, Bool.not_true, Bool.false_eq_true, if_false]
  split <;> rfl

theorem rotatePlain_healthy {n : Nat} {files : Files} {content : Bytes} (hpath : files .path = some content) :
    Shifted n files (rotatePlain healthy (n + 1) files).1 ∧
      (rotatePlain healthy (n + 1) files).1 (.backup 1 false) = files .path := by
  have hnone : (files.remove healthy (.backup (n + 1) false)) (.backup (n + 1) false) = none := by simp
  obtain ⟨hshift, hpath', -⟩ := shift_healthy n hnone
  have hall : shiftAll healthy false (n + 1) files = shift healthy false n
    (files.remove healthy (.backup (n + 1) false)) := rfl
  rw [← hall] at hshift hpath'
  have hkeep : (shiftAll healthy false (n + 1) files).1 .path = some content := by
    rw [hpath', ← hpath]
    simp
  have hrun : (rotatePlain healthy (n + 1) files).1 = (shiftAll healthy false (n + 1) files).1.rename .path
      (.backup 1 false) := by
    simp [rotatePlain, shiftAll_ok, hkeep]
  rw [hrun]
  refine ⟨fun i hi hle => ?_, by simp [Files.rename, hkeep, hpath]⟩
  have hold := hshift i hi hle
  rw [remove_healthy, Function.update_of_ne (by simp; omega)] at hold
  rw [← hold]
  simp [Files.rename, show i ≠ 0 by omega]

/-- The writes that make up the files `n`, ..., 1, 0, where file number `i` has the writes `g i`. -/
def chain (g : Nat → List Bytes) : Nat → List Bytes
  | 0 => g 0
  | n + 1 => g (n + 1) ++ chain g n

/-- The writes of the files after a rotation and a write of `p`. -/
def rotated (g : Nat → List Bytes) (p : Bytes) : Nat → List Bytes
  | 0 => [p]
  | i + 1 => g i

/-- The writes of the files after a write of `p` to the current one. -/
def extended (g : Nat → List Bytes) (p : Bytes) : Nat → List Bytes
  | 0 => g 0 ++ [p]
  | i + 1 => g (i + 1)

theorem chain_rotated (g : Nat → List Bytes) (p : Bytes) : ∀ n, chain (rotated g p) (n + 1) = chain g n ++ [p]
  | 0 => rfl
  | n + 1 => by
    rw [chain, chain_rotated g p n, ← List.append_assoc]
    rfl

theorem chain_extended (g : Nat → List Bytes) (p : Bytes) : ∀ n, chain (extended g p) n = chain g n ++ [p]
  | 0 => rfl
  | n + 1 => by
    rw [chain, chain_extended g p n, ← List.append_assoc]
    rfl

/-- At most `maxSize` bytes, or a single write. -/
def Bounded (maxSize : Nat) (group : List Bytes) : Prop := group.flatten.length ≤ maxSize ∨ ∃ p, group = [p]

/-- The files hold the groups `g` of writes, which end the list `writes`. -/
structure Holds (l : Log) (writes : List Bytes) (g : Nat → List Bytes) : Prop where
  opened : l.file = some .opened
  plain : l.compress = false
  backups : 0 < l.maxBackups
  path : l.files .path = some (g 0).flatten
  size : l.size = (g 0).flatten.length
  content : ∀ i ≤ l.maxBackups, (l.numbered i).getD [] = (g i).flatten
  chained : chain g l.maxBackups <:+ writes
  bounded : ∀ i, Bounded l.maxSize (g i)

theorem Holds.new (maxSize maxBackups : Int) :
    Holds (newRotatingFileWriter maxSize maxBackups false fun _ => none) [] fun _ => [] := by
  have hchain : ∀ n, chain (fun _ => []) n = [] := by
    intro n
    induction n with
    | zero => rfl
    | succ n ih => simp [chain, ih]
  refine ⟨rfl, rfl, ?_, rfl, rfl, fun i _ => ?_, by simp [hchain], fun i => .inl (by simp)⟩
  · simp only [newRotatingFileWriter]
    split <;> omega
  · cases i <;> rfl

/-- A write without failures keeps every byte in order. -/
theorem Holds.write {l : Log} {writes : List Bytes} {g : Nat → List Bytes} (h : Holds l writes g) (p : Bytes) :
    (l.write healthy p).2 = true ∧
      (l.write healthy p).1.maxBackups = l.maxBackups ∧ (l.write healthy p).1.maxSize = l.maxSize ∧
      ∃ g', Holds (l.write healthy p).1 (writes ++ [p]) g' ∧ (g' 0).getLast? = some p := by
  by_cases hdue : l.due p = true
  · obtain ⟨n, hn⟩ : ∃ n, l.maxBackups = n + 1 := ⟨l.maxBackups - 1, by have := h.backups; omega⟩
    obtain ⟨hshift, hone⟩ : Shifted n l.files (rotatePlain healthy l.maxBackups l.files).1 ∧
        (rotatePlain healthy l.maxBackups l.files).1 (.backup 1 false) = l.files .path := hn ▸
          rotatePlain_healthy h.path
    have hwrite : l.write healthy p =
        ({ l with
          size := p.length, files := Function.update (rotatePlain healthy l.maxBackups l.files).1 .path (some p) },
            true) := by
      simp [Log.write, h.opened, hdue, Log.rotateLocked, h.plain, rotatePlain_ok, Log.fileWrite]
    rw [hwrite]
    refine ⟨rfl, rfl, rfl, rotated g p, ⟨h.opened, h.plain, h.backups, by simp [rotated], by simp [rotated],
      fun i hi => ?_, ?_, ?_⟩, rfl⟩
    · match i with
      | 0 => simp [Log.numbered, rotated]
      | 1 => simpa [Log.numbered, rotated, hone] using h.content 0 (by omega)
      | i + 2 =>
        have hnext := hshift (i + 1) (by omega) (by dsimp only at hi; omega)
        simpa [Log.numbered, rotated, hnext] using h.content (i + 1) (by dsimp only at hi; omega)
    · have hsuffix : chain g n <:+ writes := by
        refine List.IsSuffix.trans ?_ h.chained
        rw [hn]
        exact List.suffix_append _ _
      rw [show l.maxBackups = n + 1 from hn, chain_rotated]
      exact List.suffix_append_self_iff.2 hsuffix
    · rintro (- | i)
      · exact .inr ⟨p, rfl⟩
      · exact h.bounded i
  · have hwrite : l.write healthy p =
        ({ l with size := l.size + p.length, files := Function.update l.files .path (some ((g 0).flatten ++ p)) },
          true) := by
      simp [Log.write, h.opened, hdue, Log.fileWrite, h.path]
    rw [hwrite]
    refine ⟨rfl, rfl, rfl, extended g p, ⟨h.opened, h.plain, h.backups, by simp [extended], by simp [extended, h.size],
      fun i hi => ?_, ?_, ?_⟩,
      by simp [extended]⟩
    · match i with
      | 0 => simp [Log.numbered, extended]
      | i + 1 => simpa [Log.numbered, extended] using h.content (i + 1) hi
    · rw [chain_extended]
      exact List.suffix_append_self_iff.2 h.chained
    · rintro (- | i)
      · have hsize := h.size
        simp only [Log.due, gt_iff_lt, decide_eq_true_eq, not_lt] at hdue
        refine .inl ?_
        simp only [extended, List.flatten_append, List.length_append, List.flatten_singleton]
        omega
      · exact h.bounded (i + 1)

/-- Writes in a row, without failures. -/
def writeAll (l : Log) (writes : List Bytes) : Log := writes.foldl (fun l p => (l.write healthy p).1) l

theorem Holds.writeAll {l : Log} : ∀ {before : List Bytes} {g : Nat → List Bytes}
    (writes : List Bytes), Holds l before g →
    (writeAll l writes).maxBackups = l.maxBackups ∧ (Rotate.writeAll l writes).maxSize = l.maxSize ∧
      ∃ g', Holds (Rotate.writeAll l writes) (before ++ writes) g'
  | before, g, [], h => ⟨rfl, rfl, g, by simpa [Rotate.writeAll] using h⟩
  | before, g, p :: writes, h => by
    obtain ⟨-, hbackups, hsize, g', h', -⟩ := h.write p
    obtain ⟨hbackups', hsize', hrest⟩ := h'.writeAll writes
    exact ⟨hbackups'.trans hbackups, hsize'.trans hsize, by simpa [Rotate.writeAll] using hrest⟩

theorem Holds.stream_eq {l : Log} {writes : List Bytes} {g : Nat → List Bytes} (h : Holds l writes g) :
    ∀ n ≤ l.maxBackups, l.stream n = (chain g n).flatten
  | 0, hn => h.content 0 hn
  | n + 1, hn => by
    rw [Log.stream, h.content (n + 1) hn, h.stream_eq n (by omega), chain, List.flatten_append]

/-- **The stream is kept**: after any writes in an empty directory, of which `p` is the last, the backups and the
current file in a row are the last writes, uncut and with `p` at the end, and each file has at most `maxSize` bytes or
is a single write. -/
theorem stream_kept (maxSize maxBackups : Int) (writes : List Bytes) (p : Bytes) :
    let l := writeAll (newRotatingFileWriter maxSize maxBackups false fun _ => none) (writes ++ [p])
    ∃ g : Nat → List Bytes, l.stream l.maxBackups = (chain g l.maxBackups).flatten ∧
      chain g l.maxBackups <:+ writes ++ [p] ∧
      (g 0).getLast? = some p ∧ ∀ i ≤ l.maxBackups, (l.numbered i).getD [] = (g i).flatten ∧
        Bounded l.maxSize (g i) := by
  obtain ⟨-, -, g, h⟩ := (Holds.new maxSize maxBackups).writeAll writes
  obtain ⟨-, -, -, g', h', hlast⟩ := h.write p
  have hall : writeAll (newRotatingFileWriter maxSize maxBackups false fun _ => none) (writes ++ [p]) =
      ((writeAll (newRotatingFileWriter maxSize maxBackups false fun _ => none) writes).write healthy p).1 := by
    simp [writeAll]
  simp only [hall]
  exact ⟨g', h'.stream_eq _ le_rfl, by simpa using h'.chained, hlast, fun i hi => ⟨h'.content i hi, h'.bounded i⟩⟩

/-! ## After a failed rotation -/

/-- A file is there and is found. -/
def Found (l : Log) (f : Faults) (name : Name) : Prop := (l.files name).isSome = true ∧ f.fails (.stat name) = false

/-- Nothing that a rotation needs is going to fail: to close and to open the current file, to rename the backups that
are found, and to rename the current file and compress it. Whether a file can be removed does not matter. -/
structure Spared (l : Log) (f : Faults) : Prop where
  close : f.fails .close = false
  backups : ∀ i, 1 ≤ i → i < l.maxBackups → Found l f (.backup i l.compress) →
    f.fails (.rename (.backup i l.compress)) = false
  current : Found l f .path → f.fails (.rename .path) = false
  compressed : Found l f .path → l.compress = true →
    f.fails (.openFile (.backup 1 false)) = false ∧ f.fails (.openFile (.backup 1 true)) = false ∧
      f.fails .copy = false ∧
      f.fails .finish = false
  opens : f.fails (.openFile .path) = false

def writeWith (l : Log) (history : List (Faults × Bytes)) : Log := history.foldl (fun l h => (l.write h.1 h.2).1) l

/-- Every write of the history that has to rotate, after those before it, is spared. -/
def AllSpared (l : Log) (history : List (Faults × Bytes)) : Prop :=
  ∀ before f p after, history = before ++ (f, p) :: after → (writeWith l before).due p = true →
    Spared (writeWith l before) f

/-- Writes without failures that all succeed, each with its bytes at the end of the current file. -/
def Delivered : Log → List Bytes → Prop
  | _, [] => True
  | l, p :: later =>
    (l.write healthy p).2 = true ∧ (∃ content, (l.write healthy p).1.files .path = some (content ++ p)) ∧
      Delivered (l.write healthy p).1 later

variable {l : Log} {f : Faults}

theorem found_iff {name : Name} : Found l f name ↔ fileExists l.files f name = true := by
  simp [Found, fileExists]

/-- No backup is touched before its turn. -/
theorem shift_ok_iff (compressed : Bool) : ∀ (n : Nat) (files : Files), (shift f compressed n files).2 = true ↔
    ∀ i, 1 ≤ i → i ≤ n → fileExists files f (.backup i compressed) = true →
      f.fails (.rename (.backup i compressed)) = false
  | 0, files => iff_of_true rfl fun i hi hle => by omega
  | n + 1, files => by
    have hsplit : ∀ P : Nat → Prop, (∀ i, 1 ≤ i → i ≤ n + 1 → P i) ↔ P (n + 1) ∧ ∀ i, 1 ≤ i → i ≤ n → P i := by
      refine fun P => ⟨fun h => ⟨h _ (by omega) le_rfl, fun i hi hle => h i hi (by omega)⟩, fun h i hi hle => ?_⟩
      rcases Nat.lt_or_eq_of_le hle with hlt | rfl
      · exact h.2 i hi (by omega)
      · exact h.1
    have hkept : ∀ i ≤ n, fileExists (files.rename (.backup (n + 1) compressed) (.backup (n + 2) compressed)) f
      (.backup i compressed) =
        fileExists files f (.backup i compressed) := by
      intro i hi
      simp [fileExists, Files.rename, show i ≠ n + 1 by omega, show i ≠ n + 2 by omega]
    rw [hsplit fun i => fileExists files f (.backup i compressed) = true →
      f.fails (.rename (.backup i compressed)) = false]
    cases hsrc : fileExists files f (.backup (n + 1) compressed) with
    | false =>
      simp only [shift, hsrc, Bool.false_eq_true, if_false, false_implies, true_and]
      exact shift_ok_iff compressed n files
    | true =>
      cases hfail : f.fails (.rename (.backup (n + 1) compressed)) with
      | true => simp [shift, hsrc, hfail]
      | false =>
        simp only [shift, hsrc, hfail, Bool.false_eq_true, if_false, if_true, imp_self, true_and]
        rw [shift_ok_iff compressed n]
        exact forall_congr' fun i => forall_congr' fun _ => forall_congr' fun hle => by rw [hkept i hle]

theorem shift_path (compressed : Bool) : ∀ (n : Nat) (files : Files), (shift f compressed n files).1 .path = files .path
  | 0, _ => rfl
  | n + 1, files => by
    unfold shift
    dsimp only
    split
    · split
      · rfl
      · rw [shift_path compressed n]
        simp [Files.rename]
    · exact shift_path compressed n files

theorem shiftAll_ok_iff {compressed : Bool} {n : Nat} {files : Files} : (shiftAll f compressed n files).2 = true ↔
    ∀ i, 1 ≤ i → i < n → fileExists files f (.backup i compressed) = true →
      f.fails (.rename (.backup i compressed)) = false := by
  unfold shiftAll
  split
  · rw [shift_ok_iff]
    refine forall_congr' fun i => forall_congr' fun hi => ?_
    rw [show i ≤ n - 1 ↔ i < n by omega]
    refine forall_congr' fun hlt => ?_
    have hkept : (files.remove f (.backup n compressed)) (.backup i compressed) = files (.backup i compressed) := by
      unfold Files.remove
      split
      · rfl
      · simp [show i ≠ n by omega]
    rw [fileExists, hkept, ← fileExists]
  · exact iff_of_true rfl fun i hi hlt => by omega

theorem shiftAll_path (compressed : Bool) (n : Nat) (files : Files) :
    fileExists (shiftAll f compressed n files).1 f .path = fileExists files f .path := by
  have hkept : (files.remove f (.backup n compressed)) .path = files .path := by
    unfold Files.remove
    split <;> simp
  unfold shiftAll fileExists
  split
  · rw [shift_path, hkept]
  · rfl

/-- What a rotation needs in either mode, once the file is closed. -/
theorem rotate_ok_iff : (if l.compress then rotateCompressed f l.maxBackups l.files
    else rotatePlain f l.maxBackups l.files).2 = true ↔
    (∀ i, 1 ≤ i → i < l.maxBackups → Found l f (.backup i l.compress) →
      f.fails (.rename (.backup i l.compress)) = false) ∧
      (Found l f .path → f.fails (.rename .path) = false) ∧
      (Found l f .path → l.compress = true →
        f.fails (.openFile (.backup 1 false)) = false ∧ f.fails (.openFile (.backup 1 true)) = false ∧
          f.fails .copy = false ∧
          f.fails .finish = false) := by
  simp only [found_iff]
  rw [← shiftAll_ok_iff]
  cases hcompress : l.compress with
  | false =>
    have hpath := shiftAll_path (f := f) false l.maxBackups l.files
    simp only [rotatePlain, hpath]
    cases (shiftAll f false l.maxBackups l.files).2 <;> cases fileExists l.files f .path <;>
      cases f.fails (.rename .path) <;> simp
  | true =>
    have hpath := shiftAll_path (f := f) true l.maxBackups l.files
    simp only [rotateCompressed, compressTo, hpath]
    cases (shiftAll f true l.maxBackups l.files).2 <;> cases fileExists l.files f .path <;>
      cases f.fails (.rename .path) <;>
      cases f.fails (.openFile (.backup 1 false)) <;> cases f.fails (.openFile (.backup 1 true)) <;> simp

theorem rotateLocked_ok_iff (hopen : l.file = some .opened) : (l.rotateLocked f).2 = true ↔ Spared l f := by
  have hok : (l.rotateLocked f).2 = (!f.fails .close &&
      (if l.compress then rotateCompressed f l.maxBackups l.files else rotatePlain f l.maxBackups l.files).2 &&
      !f.fails (.openFile .path)) := by
    simp only [Log.rotateLocked, hopen]
    generalize (if l.compress then rotateCompressed f l.maxBackups l.files else rotatePlain f l.maxBackups l.files) =
      run
    obtain ⟨files, ok⟩ := run
    cases f.fails .close <;> cases ok <;> cases f.fails (.openFile .path) <;> rfl
  rw [hok, Bool.and_eq_true, Bool.and_eq_true, rotate_ok_iff, Bool.not_eq_true', Bool.not_eq_true']
  exact ⟨fun ⟨⟨hclose, hbackups, hcurrent, hcompressed⟩, hopens⟩ => ⟨hclose, hbackups, hcurrent, hcompressed, hopens⟩,
    fun ⟨hclose, hbackups, hcurrent, hcompressed, hopens⟩ => ⟨⟨hclose, hbackups, hcurrent, hcompressed⟩, hopens⟩⟩

theorem rotateLocked_file (hopen : l.file = some .opened) :
    (l.rotateLocked f).1.file = if (l.rotateLocked f).2 then some .opened else some .closed := by
  simp only [Log.rotateLocked, hopen]
  repeat' split
  all_goals simp_all

theorem write_opened {p : Bytes} (hopen : l.file = some .opened) (hok : l.due p = true → Spared l f) :
    (l.write f p).1.file = some .opened ∧
      (f.short = none → (l.write f p).2 = true ∧ ∃ content, (l.write f p).1.files .path = some (content ++ p)) := by
  have hfile : ∀ l' : Log, l'.file = some .opened → (l'.fileWrite f p).1.file = some .opened ∧
      (f.short = none → (l'.fileWrite f p).2 = true ∧
        ∃ content, (l'.fileWrite f p).1.files .path = some (content ++ p)) := by
    intro l' hopen'
    refine ⟨by simp [Log.fileWrite, hopen'], fun hshort => ?_⟩
    simp [Log.fileWrite, hopen', hshort]
  by_cases hdue : l.due p = true
  · have hrot : (l.rotateLocked f).2 = true := (rotateLocked_ok_iff hopen).2 (hok hdue)
    have hnew : (l.rotateLocked f).1.file = some .opened := by rw [rotateLocked_file hopen, hrot, if_pos rfl]
    simpa [Log.write, hopen, hdue, hrot] using hfile _ hnew
  · simpa [Log.write, hopen, hdue] using hfile l hopen

theorem write_closed (hclosed : l.file = some .closed) (f : Faults) (p : Bytes) : l.write f p = (l, false) := by
  by_cases hdue : l.due p = true <;> simp [Log.write, hclosed, hdue, Log.rotateLocked, Log.fileWrite]

theorem write_failed {p : Bytes} (hopen : l.file = some .opened) (hdue : l.due p = true) (hfail : ¬ Spared l f) :
    (l.write f p).1.file = some .closed := by
  have hrot : (l.rotateLocked f).2 = false := by simpa using mt (rotateLocked_ok_iff hopen).1 hfail
  have hclosed : (l.rotateLocked f).1.file = some .closed := by simp [rotateLocked_file hopen, hrot]
  simpa [Log.write, hopen, hdue, hrot] using hclosed

theorem spared_healthy (l : Log) : Spared l healthy :=
  ⟨rfl, fun _ _ _ _ => rfl, fun _ => rfl, fun _ _ => ⟨rfl, rfl, rfl, rfl⟩, rfl⟩

theorem delivered_of_opened : ∀ (later : List Bytes) {l : Log}, l.file = some .opened → Delivered l later
  | [], _, _ => trivial
  | p :: later, l, hopen => by
    obtain ⟨hopen', hok⟩ := write_opened hopen fun _ => spared_healthy l
    exact ⟨(hok rfl).1, (hok rfl).2, delivered_of_opened later hopen'⟩

theorem writeWith_closed : ∀ (history : List (Faults × Bytes))
    {l : Log}, l.file = some .closed → writeWith l history = l
  | [], _, _ => rfl
  | (f, p) :: history, l, hclosed => by
    simp only [writeWith, List.foldl_cons, write_closed hclosed f p]
    exact writeWith_closed history hclosed

theorem allSpared_cons {p : Bytes} {history : List (Faults × Bytes)} :
    AllSpared l ((f, p) :: history) ↔ (l.due p = true → Spared l f) ∧ AllSpared (l.write f p).1 history := by
  constructor
  · refine fun h => ⟨h [] f p history rfl, fun before f' p' after heq => ?_⟩
    exact h ((f, p) :: before) f' p' after (congrArg ((f, p) :: ·) heq)
  · rintro ⟨hfirst, hrest⟩ (_ | ⟨head, before⟩) f' p' after heq
    · cases heq
      exact hfirst
    · cases heq
      exact hrest before f' p' after rfl

/-- The handle is open after a history exactly if every rotation was spared. -/
theorem file_writeWith : ∀ (history : List (Faults × Bytes)) {l : Log}, l.file = some .opened →
    (AllSpared l history → (writeWith l history).file = some .opened) ∧
      (¬ AllSpared l history → (writeWith l history).file = some .closed)
  | [], _, hopen => ⟨fun _ => hopen, fun h => (h fun before f p after heq => by simp at heq).elim⟩
  | (f, p) :: history, l, hopen => by
    rw [allSpared_cons]
    by_cases hspared : l.due p = true → Spared l f
    · obtain ⟨hkept, hlost⟩ := file_writeWith history (write_opened hopen hspared).1
      exact ⟨fun h => hkept h.2, fun h => hlost fun hrest => h ⟨hspared, hrest⟩⟩
    · refine ⟨fun h => absurd h.1 hspared, fun _ => ?_⟩
      have hclosed := write_failed hopen (Classical.not_imp.1 hspared).1 (Classical.not_imp.1 hspared).2
      have hstay : writeWith l ((f, p) :: history) = (l.write f p).1 := writeWith_closed history hclosed
      rw [hstay]
      exact hclosed

/-- **Recovery**: in both modes, after any history of writes with any failures, all later writes that meet no failure
succeed and reach the current file if every rotation of the history was spared; otherwise no write ever succeeds
again. -/
theorem recovers_unless_failed (maxSize maxBackups : Int) (compress : Bool) (files : Files)
    (history : List (Faults × Bytes)) :
    let l := newRotatingFileWriter maxSize maxBackups compress files
    (AllSpared l history → ∀ later, Delivered (writeWith l history) later) ∧
      (¬ AllSpared l history → ∀ later f p, ((writeWith l (history ++ later)).write f p).2 = false) := by
  intro l
  obtain ⟨hkept, hlost⟩ := file_writeWith history (show l.file = some .opened from rfl)
  refine ⟨fun h later => delivered_of_opened later (hkept h), fun h later f p => ?_⟩
  have hclosed := hlost h
  have hsplit : writeWith l (history ++ later) = writeWith (writeWith l history) later := List.foldl_append
  rw [hsplit, writeWith_closed later hclosed, write_closed hclosed]

/-- The rename of the current file fails. -/
def renameFails : Faults := { healthy with fails := fun op => op = .rename .path }

/-- Three bytes in a file, and a second write of two bytes whose rename fails. -/
def afterFailure (compress : Bool) : Log :=
  writeWith (newRotatingFileWriter 3 2 compress fun _ => none) [(healthy, [1, 2]), (renameFails, [3, 4])]

/-- The next write fails in both modes, if it does not have to rotate (one byte) and if it has to. -/
theorem no_recovery :
    (((afterFailure false).due [5] = false ∧ ((afterFailure false).write healthy [5]).2 = false) ∧
      (afterFailure false).due [5, 6] = true ∧ ((afterFailure false).write healthy [5, 6]).2 = false) ∧
    ((afterFailure true).due [5] = false ∧ ((afterFailure true).write healthy [5]).2 = false) ∧
      (afterFailure true).due [5, 6] = true ∧ ((afterFailure true).write healthy [5, 6]).2 = false := by
  decide

end Rotate
