import PconTng.CmdFsm.Actions
import PconTng.Foundations.Run

/-!
# The backup file

`ipc_save` writes shared memory to the backup file, `ipc_load` reads it back. Here shared memory is
what these two routines see of it: its `n` bytes, `n` the size of `_IPC_DAT`.

`fopen` with mode `w` empties the file before anything is written, and `fread` stores the bytes that
it finds before it reports that they were too few. So a load that fails has changed shared memory,
unless the file cannot be opened or holds the bytes with which shared memory begins
(`all_or_nothing_iff`). The backup file of the command processor is this one, as far as it shows in
the fields (`ipcLoad_means`, `ipcSave_means`).
-/

namespace PconTng.Ipc

/-- Shared memory, byte by byte. -/
abbrev Image (n : ℕ) : Type := Vector Byte n

variable {n : ℕ}

/-- What `fread` leaves in memory: the bytes of the file as far as they go. -/
def overlay (m : Image n) (file : List Byte) : Image n :=
  Vector.ofFn fun i => file.getD i (m.get i)

/-- `fread` of one item of `n` bytes: memory, and the number of items. -/
def fread (m : Image n) (file : List Byte) : Image n × ℤ :=
  (overlay m file, if n ≤ file.length then 1 else 0)

/-- `ipc_load`, given what can be opened: shared memory and the return value. -/
def ipcLoad (m : Image n) : Option (List Byte) → Image n × ℤ
  | none => (m, 1)
  | some file =>
    let (m, rtn) := fread m file
    if rtn ≠ 1 then (m, 1) else (m, 0)

/-- What becomes of an attempt to write the backup file: it cannot be opened, or the writing stops
after a number of bytes, if it has not come to the end by then. -/
inductive Attempt
  | closed
  | wrote (k : ℕ)

/-- `ipc_save`: the backup file and the return value. -/
def ipcSave (m : Image n) (bkup : Option (List Byte)) : Attempt → Option (List Byte) × ℤ
  | .closed => (bkup, 1)
  | .wrote k =>
    let written := m.toList.take k
    if written.length ≠ n then (some written, 1) else (some written, 0)

/-! ## One load -/

/-- A load that returns a non-zero value leaves shared memory unchanged, and one that returns 0
leaves the first `n` bytes of the file. -/
def AllOrNothing (m : Image n) (bkup : Option (List Byte)) : Prop :=
  ((ipcLoad m bkup).2 ≠ 0 → (ipcLoad m bkup).1 = m) ∧
    ((ipcLoad m bkup).2 = 0 → some (ipcLoad m bkup).1.toList = bkup.map (List.take n))

/-- What can be opened is complete, or holds the bytes with which shared memory begins. -/
def Whole (m : Image n) (bkup : Option (List Byte)) : Prop :=
  ∀ file, bkup = some file → n ≤ file.length ∨ file <+: m.toList

theorem toList_overlay (m : Image n) (file : List Byte) :
    (overlay m file).toList = file.take n ++ m.toList.drop file.length := by
  refine List.ext_getElem (by simp [overlay]; omega) fun i hi _ => ?_
  have hin : i < n := by simpa using hi
  by_cases h : i < file.length
  · have htake : i < (file.take n).length := by
      rw [List.length_take]
      omega
    rw [List.getElem_append_left htake]
    simp [overlay, h]
  · have htake : (file.take n).length ≤ i := by
      rw [List.length_take]
      omega
    rw [List.getElem_append_right htake, List.getElem_drop]
    have hi : file.length + (i - min n file.length) = i := by omega
    simp [overlay, h, hi, Vector.get]

/-- A complete file replaces all of shared memory. -/
theorem overlay_complete {file : List Byte} (h : n ≤ file.length) (m : Image n) :
    (overlay m file).toList = file.take n := by
  rw [toList_overlay, List.drop_of_length_le, List.append_nil]
  simpa using h

theorem overlay_toList (m m' : Image n) : overlay m' m.toList = m := by
  apply Vector.toList_inj.1
  rw [overlay_complete (by simp), List.take_of_length_le (by simp)]

/-- A file that is too short leaves shared memory alone only if memory begins with it. -/
theorem overlay_eq_iff {m : Image n} {file : List Byte} (h : file.length < n) :
    overlay m file = m ↔ file <+: m.toList := by
  rw [← Vector.toList_inj, toList_overlay, List.take_of_length_le h.le, List.prefix_iff_eq_append]

/-- A load of a complete file. -/
theorem ipcLoad_complete {file : List Byte} (h : n ≤ file.length) (m : Image n) :
    ipcLoad m (some file) = (overlay m file, 0) := by
  simp [ipcLoad, fread, h]

/-- A load of a file that is too short. -/
theorem ipcLoad_short {file : List Byte} (h : file.length < n) (m : Image n) :
    ipcLoad m (some file) = (overlay m file, 1) := by
  simp [ipcLoad, fread, Nat.not_le.2 h]

theorem allOrNothing_iff (m : Image n) (bkup : Option (List Byte)) :
    AllOrNothing m bkup ↔ Whole m bkup := by
  cases bkup with
  | none => simp [AllOrNothing, Whole, ipcLoad]
  | some file =>
    by_cases h : n ≤ file.length
    · simp [AllOrNothing, Whole, ipcLoad_complete h, overlay_complete h, h]
    · simp [AllOrNothing, Whole, ipcLoad_short (Nat.not_le.1 h), overlay_eq_iff (Nat.not_le.1 h), h]

/-! ## Runs -/

/-- Shared memory and the backup file, and beside them the image of the last save that succeeded,
and whether a save has failed. -/
structure Store (n : ℕ) where
  mem : Image n
  bkup : Option (List Byte)
  saved : Option (Image n)
  failed : Bool

/-- Shared memory is changed by the programs, saved or loaded. A load may fail to open the file even
if there is one: `ipc_load` never closes it. -/
inductive Event (n : ℕ)
  | work (m : Image n)
  | save (attempt : Attempt)
  | load (opens : Bool)

/-- What a load can open. -/
def Store.stream (s : Store n) (opens : Bool) : Option (List Byte) :=
  if opens then s.bkup else none

def Store.next (s : Store n) : Event n → Store n
  | .work m => { s with mem := m }
  | .save attempt =>
    let (bkup, ret) := ipcSave s.mem s.bkup attempt
    if ret = 0 then { s with bkup := bkup, saved := some s.mem }
    else { s with bkup := bkup, failed := true }
  | .load opens => { s with mem := (ipcLoad s.mem (s.stream opens)).1 }

def Store.Step (s : Store n) (e : Event n) (t : Store n) : Prop := t = s.next e

/-- The start of a run. A complete file is what the last successful save has left. -/
def Store.start (m : Image n) (bkup : Option (List Byte)) : Store n :=
  ⟨m, bkup, bkup.bind fun file => if n ≤ file.length then some (overlay m file) else none, false⟩

/-- The load restores the image of the last successful save, or fails and leaves shared memory
unchanged. -/
def Store.Restores (s : Store n) (opens : Bool) : Prop :=
  let (m, ret) := ipcLoad s.mem (s.stream opens)
  (ret = 0 ∧ some m = s.saved) ∨ (ret ≠ 0 ∧ m = s.mem)

/-- A complete backup file is the image of the last successful save. -/
def Store.Kept (s : Store n) : Prop :=
  ∀ file, s.bkup = some file → n ≤ file.length → ∀ m, some (overlay m file) = s.saved

theorem kept_start (m : Image n) (bkup : Option (List Byte)) : (Store.start m bkup).Kept := by
  rintro file hfile h m'
  simp only [Store.start] at hfile ⊢
  rw [hfile, Option.bind_some, if_pos h, Option.some_inj, ← Vector.toList_inj, overlay_complete h,
    overlay_complete h]

theorem Store.Kept.next {s : Store n} (h : s.Kept) (e : Event n) : (s.next e).Kept := by
  cases e with
  | work m => exact h
  | load opens => exact h
  | save attempt =>
    cases attempt with
    | closed => exact h
    | wrote k =>
      rintro file hfile hle m
      by_cases hw : (s.mem.toList.take k).length = n
      · -- everything has been written
        have hall : s.mem.toList.take k = s.mem.toList := by
          apply List.take_of_length_le
          simp only [List.length_take, Vector.length_toList] at hw ⊢
          omega
        simp only [Store.next, ipcSave, hw, ne_eq, not_true_eq_false, if_false, if_true,
          Option.some_inj] at hfile ⊢
        rw [← hfile, hall, overlay_toList]
      · -- what is left is too short
        simp only [Store.next, ipcSave, hw, ne_eq, not_false_eq_true, if_true, one_ne_zero,
          if_false, Option.some_inj] at hfile
        have hlt : (s.mem.toList.take k).length < n := by
          refine lt_of_le_of_ne ?_ hw
          simp
        rw [hfile] at hlt
        exact absurd hle (Nat.not_le.2 hlt)

theorem restores_iff {s : Store n} (h : s.Kept) (opens : Bool) :
    s.Restores opens ↔ Whole s.mem (s.stream opens) := by
  cases hstream : s.stream opens with
  | none => simp [Store.Restores, Whole, hstream, ipcLoad]
  | some file =>
    have hbkup : s.bkup = some file := by
      cases opens with
      | false => cases hstream
      | true => exact hstream
    by_cases hle : n ≤ file.length
    · simp [Store.Restores, Whole, hstream, ipcLoad_complete hle, h file hbkup hle, hle]
    · simp [Store.Restores, Whole, hstream, ipcLoad_short (Nat.not_le.1 hle),
        overlay_eq_iff (Nat.not_le.1 hle), hle]

/-- All states of a run are `Kept`. -/
theorem kept_of_path {m : Image n} {bkup : Option (List Byte)} {tr : List (Store n × Event n)}
    {t : Store n} (h : Path Store.Step (Store.start m bkup) tr t) :
    Path.Forall Store.Kept tr t := by
  refine Path.invariant (C := fun _ _ => True) ?_ h (kept_start m bkup) fun _ _ => trivial
  rintro s e _ hs - rfl
  exact hs.next e

/-- **When backup and restore are all-or-nothing.** The first part is about a load of any file, the
second about the loads behind a failed save in any run. -/
theorem all_or_nothing_iff (m : Image n) (bkup : Option (List Byte)) :
    (AllOrNothing m bkup ↔ Whole m bkup) ∧
      ∀ tr t, Path Store.Step (Store.start m bkup) tr t →
        ((∀ s opens, (s, Event.load opens) ∈ tr → s.failed = true → s.Restores opens) ↔
          ∀ s opens, (s, Event.load opens) ∈ tr → s.failed = true →
            Whole s.mem (s.stream opens)) := by
  refine ⟨allOrNothing_iff m bkup, fun tr t hrun => ?_⟩
  have hkept := (kept_of_path hrun).1
  constructor
  · intro h s opens hmem hfailed
    exact (restores_iff (hkept _ hmem) opens).1 (h s opens hmem hfailed)
  · intro h s opens hmem hfailed
    exact (restores_iff (hkept _ hmem) opens).2 (h s opens hmem hfailed)

/-- A file with one byte that is not the first byte of shared memory. -/
theorem not_whole_one : ¬ Whole (Vector.replicate (n + 2) (1 : Byte)) (some [0]) := by
  intro h
  rcases h [0] rfl with hle | hpre
  · rw [List.length_singleton] at hle
    omega
  · rw [Vector.toList_replicate, List.replicate_succ, List.cons_prefix_cons] at hpre
    exact absurd hpre.1 (by decide)

/-- A save that stops after one byte leaves a file whose first byte a load stores in shared memory
before it fails, whatever the size of shared memory from two bytes on. -/
theorem not_all_or_nothing :
    (¬ ∃ n, 2 ≤ n ∧ ∀ (m : Image n) (bkup : Option (List Byte)), AllOrNothing m bkup) ∧
      ¬ ∃ n, 2 ≤ n ∧ ∀ (m : Image n) (bkup : Option (List Byte)) (tr : List (Store n × Event n))
        (t : Store n), Path Store.Step (Store.start m bkup) tr t →
          ∀ s opens, (s, Event.load opens) ∈ tr → s.failed = true → s.Restores opens := by
  constructor
  · rintro ⟨n, hn, hall⟩
    obtain ⟨n, rfl⟩ := Nat.exists_eq_add_of_le' hn
    exact not_whole_one ((allOrNothing_iff _ _).1 (hall (.replicate (n + 2) 1) (some [0])))
  · rintro ⟨n, hn, hall⟩
    obtain ⟨n, rfl⟩ := Nat.exists_eq_add_of_le' hn
    let s₀ : Store (n + 2) := Store.start (.replicate (n + 2) 0) none
    let s₁ := s₀.next (.save (.wrote 1))
    let s₂ := s₁.next (.work (.replicate (n + 2) 1))
    have hs₁ : s₁ = ⟨.replicate (n + 2) 0, some [0], none, true⟩ := by
      simp [s₁, s₀, Store.next, Store.start, ipcSave, List.replicate_succ]
    have hrun : Path Store.Step s₀ [(s₀, .save (.wrote 1)), (s₁, .work (.replicate (n + 2) 1)),
        (s₂, .load true)] (s₂.next (.load true)) :=
      .cons rfl (.cons rfl (.cons rfl (.nil _)))
    have hkept : s₂.Kept := ((kept_start _ _).next _).next _
    have hs₂ : s₂ = ⟨.replicate (n + 2) 1, some [0], none, true⟩ := by
      simp only [s₂, hs₁, Store.next]
    have hrestores := hall _ _ _ _ hrun s₂ true (by simp) (by rw [hs₂])
    have hwhole := (restores_iff hkept true).1 hrestores
    rw [hs₂] at hwhole
    exact not_whole_one hwhole

/-! ## The backup file of the command processor -/

section Means

variable (decode : Image n → IpcDat)

/-- What the backup file of the command processor does to the fields of shared memory is what the
bytes of the file do to its bytes. -/
def Means : Option (List Byte) → Option Backup → Prop
  | none, none => True
  | some file, some read => ∀ m, read (decode m) = decode (overlay m file)
  | _, _ => False

/-- The attempts to write the backup file, on both levels. -/
def SavingMeans (m : Image n) : Attempt → Saving → Prop
  | .closed, .closed => True
  | .wrote k, .whole => n ≤ k
  | .wrote k, .cut read => k < n ∧ Means decode (some (m.toList.take k)) (some (read (decode m)))
  | _, _ => False

variable {decode} {m : Image n} {bkup : Option (List Byte)} {w : World}

theorem ipcLoad_means (hipc : w.ipc = decode m) (hbkup : Means decode bkup w.bkup) :
    (CmdFsm.ipcLoad w).ipc = decode (ipcLoad m bkup).1 := by
  obtain ⟨cb, ipc, queue, back⟩ := w
  cases bkup with
  | none =>
    cases back with
    | none => exact hipc
    | some read => exact hbkup.elim
  | some file =>
    cases back with
    | none => exact hbkup.elim
    | some read =>
      have hmem : (ipcLoad m (some file)).1 = overlay m file := by
        by_cases hle : n ≤ file.length
        · rw [ipcLoad_complete hle]
        · rw [ipcLoad_short (Nat.not_le.1 hle)]
      change read ipc = _
      rw [hmem, ← hbkup m, ← hipc]

theorem ipcSave_means {env : Env} {attempt : Attempt} (hipc : w.ipc = decode m)
    (hbkup : Means decode bkup w.bkup) (hsave : SavingMeans decode m attempt env.saving) :
    Means decode (ipcSave m bkup attempt).1 (CmdFsm.ipcSave env w).bkup := by
  obtain ⟨saving, clock, strayTmpl⟩ := env
  have hfile : ∀ k, (ipcSave m bkup (.wrote k)).1 = some (m.toList.take k) := by
    intro k
    simp only [ipcSave]
    split <;> rfl
  cases attempt with
  | closed =>
    cases saving with
    | closed => exact hbkup
    | whole => exact hsave.elim
    | cut read => exact hsave.elim
  | wrote k =>
    rw [hfile]
    cases saving with
    | closed => exact hsave.elim
    | whole =>
      have hk : m.toList.length ≤ k := by
        rw [Vector.length_toList]
        exact hsave
      intro m'
      rw [List.take_of_length_le hk, overlay_toList]
      exact hipc
    | cut read =>
      intro m'
      have hmeans := hsave.2 m'
      rw [← hipc] at hmeans
      exact hmeans

end Means

end PconTng.Ipc
