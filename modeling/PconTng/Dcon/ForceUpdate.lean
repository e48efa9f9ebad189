import PconTng.CmdFsm.Frame
import PconTng.Dcon.UpdateRelays

/-!
# Forced updates

A terminal that changes the mode, the state or the schedule of a channel sets `force_update`, in
the critical section in which it changes the data. The main loop of the daemon tests the flag
without the lock, clears it in one critical section and makes a pass over the relays in another.

`State` is the daemon and any number of terminals with the lock between them; a terminal's routine
is run in two steps, first its data and then the flag, since the daemon may test the flag in
between. `pending` records that a command has been completed since the last pass began.
-/

namespace PconTng.ForceUpdate

/-- The routines that set `force_update`. -/
def forcing : List Act := [.c9, .c10, .c11, .c12, .c18, .c49, .c39]

/-- Where the daemon is. -/
inductive Daemon
  /-- in the main loop, before the test of `force_update` -/
  | top
  /-- behind the test, before the lock -/
  | seen
  /-- locked, before `force_update = 0` -/
  | clearing
  /-- locked, behind `force_update = 0` -/
  | cleared
  /-- on the way to the pass, `force_update` cleared -/
  | forced
  /-- on the way to the pass, on a new minute -/
  | timed
  /-- in `update_relays`, locked -/
  | passing
  /-- in `update_relays`, locked, the relays updated -/
  | passed
  deriving DecidableEq

/-- Where a terminal is: in no command, at the start of one with its control block, behind the
change of the data with the value for the flag, or behind the change of the flag. -/
inductive Terminal
  | idle
  | entered (act : Act) (cb : CmdFsmCb)
  | written (force : ℤ)
  | flagged

/-- Who holds the lock. -/
inductive Lock (ι : Type*)
  | free
  | daemon
  | pcon (i : ι)

structure State (ι : Type*) where
  ipc : IpcDat
  hold : ℤ
  pins : ℕ → ℤ
  lock : Lock ι
  daemon : Daemon
  term : ι → Terminal
  pending : Bool

variable {ι : Type*} [DecidableEq ι]

/-- One step, of the daemon (`none`) or of a terminal, or of anything else that uses shared memory
and leaves `force_update` alone. -/
inductive Step (env : Env) : State ι → Option ι → State ι → Prop
  | testSet {s : State ι} (hd : s.daemon = .top) (hf : s.ipc.forceUpdate = 1) :
      Step env s none { s with daemon := .seen }
  | testClear {s : State ι} (hd : s.daemon = .top) (hf : s.ipc.forceUpdate ≠ 1) :
      Step env s none s
  | newMinute {s : State ι} (hd : s.daemon = .top) (hf : s.ipc.forceUpdate ≠ 1) :
      Step env s none { s with daemon := .timed }
  | lockClear {s : State ι} (hd : s.daemon = .seen) (hl : s.lock = .free) :
      Step env s none { s with daemon := .clearing, lock := .daemon }
  | clear {s : State ι} (hd : s.daemon = .clearing) :
      Step env s none { s with daemon := .cleared, ipc := { s.ipc with forceUpdate := 0 } }
  | freeClear {s : State ι} (hd : s.daemon = .cleared) :
      Step env s none { s with daemon := .forced, lock := .free }
  | lockPass {s : State ι} (hd : s.daemon = .forced ∨ s.daemon = .timed) (hl : s.lock = .free) :
      Step env s none { s with daemon := .passing, lock := .daemon, pending := false }
  | pass {s : State ι} (stray : Stray) (garbage : ℤ) (tm : Tm) (hd : s.daemon = .passing) :
      Step env s none { s with
        daemon := .passed
        ipc := (updateRelays stray garbage s.hold tm s.ipc s.pins).1
        hold := (updateRelays stray garbage s.hold tm s.ipc s.pins).2.1
        pins := (updateRelays stray garbage s.hold tm s.ipc s.pins).2.2 }
  | freePass {s : State ι} (hd : s.daemon = .passed) :
      Step env s none { s with daemon := .top, lock := .free }
  | lockCommand {s : State ι} (i : ι) (act : Act) (cb : CmdFsmCb) (hact : act ∈ forcing)
      (ht : s.term i = .idle) (hl : s.lock = .free) :
      Step env s (some i)
        { s with term := Function.update s.term i (.entered act cb), lock := .pcon i }
  | write {s : State ι} (i : ι) {act : Act} {w w' : World} {ret : ℤ}
      (ht : s.term i = .entered act w.cb) (hw : w.ipc = s.ipc)
      (hrun : act.run env w = .ok (w', ret)) :
      Step env s (some i) { s with
        term := Function.update s.term i (.written w'.ipc.forceUpdate)
        ipc := { w'.ipc with forceUpdate := s.ipc.forceUpdate } }
  | flag {s : State ι} (i : ι) {force : ℤ} (ht : s.term i = .written force) :
      Step env s (some i) { s with
        term := Function.update s.term i .flagged, ipc := { s.ipc with forceUpdate := force } }
  | freeCommand {s : State ι} (i : ι) (ht : s.term i = .flagged) :
      Step env s (some i) { s with
        term := Function.update s.term i .idle, lock := .free, pending := true }
  | other {s : State ι} (ipc : IpcDat) (hf : ipc.forceUpdate = s.ipc.forceUpdate) :
      Step env s none { s with ipc := ipc }

/-- No one is in a critical section, the daemon is at the top of its loop, and no command has been
completed. -/
structure Initial (s : State ι) : Prop where
  lock : s.lock = .free
  daemon : s.daemon = .top
  term : ∀ i, s.term i = .idle
  pending : s.pending = false

/-- A command that has been completed is not forgotten: the flag is set, or the daemon has cleared
it and not yet begun its pass. -/
def Remembered (s : State ι) : Prop :=
  s.pending = true → s.ipc.forceUpdate = 1 ∨ s.daemon = .cleared ∨ s.daemon = .forced

/-! ## The routines set the flag -/

theorem forceUpdate_of_forcing {env : Env} {act : Act} (hact : act ∈ forcing) {w w' : World}
    {ret : ℤ} (h : act.run env w = .ok (w', ret)) : w'.ipc.forceUpdate = 1 := by
  have hcontrols : ∀ {f : ChnDat → ChnDat}, Controls f w w' ret → w'.ipc.forceUpdate = 1 := by
    rintro f ⟨-, w₁, sDat, -, rfl⟩
    rfl
  simp only [forcing, List.mem_cons, List.not_mem_nil, or_false] at hact
  rcases hact with rfl | rfl | rfl | rfl | rfl | rfl | rfl
  · exact hcontrols (CmdFsm.setControl_controls h)
  · exact hcontrols (CmdFsm.setControl_controls h)
  · exact hcontrols (CmdFsm.setControl_controls h)
  · exact hcontrols (CmdFsm.setControl_controls h)
  · exact hcontrols (CmdFsm.c18_controls h)
  · exact hcontrols (CmdFsm.c49_controls h)
  · cases h
    rfl

/-! ## The invariant -/

/-- The lock says who is in a critical section, a terminal that has the flag still to write will
set it, and one that has written it has set it. -/
structure Inv (s : State ι) : Prop where
  daemon : s.daemon ∈ [Daemon.clearing, .cleared, .passing, .passed] → s.lock = .daemon
  term : ∀ i, s.term i ≠ .idle → s.lock = .pcon i
  entered : ∀ i act cb, s.term i = .entered act cb → act ∈ forcing
  written : ∀ i force, s.term i = .written force → force = 1
  flagged : ∀ i, s.term i = .flagged → s.ipc.forceUpdate = 1
  remembered : Remembered s

omit [DecidableEq ι] in
theorem Inv.of_initial {s : State ι} (h : Initial s) : Inv s where
  daemon hd := by simp [h.daemon] at hd
  term i hi := absurd (h.term i) hi
  entered i act cb hi := by simp [h.term i] at hi
  written i force hi := by simp [h.term i] at hi
  flagged i hi := by simp [h.term i] at hi
  remembered hp := by simp [h.pending] at hp

section

omit [DecidableEq ι]

variable {s : State ι}

theorem Inv.idle_of_free (hs : Inv s) (hl : s.lock = .free) (i : ι) : s.term i = .idle := by
  by_contra hi
  have := hs.term i hi
  rw [hl] at this
  cases this

theorem Inv.idle_of_daemon (hs : Inv s)
    (hd : s.daemon ∈ [Daemon.clearing, .cleared, .passing, .passed]) (i : ι) :
    s.term i = .idle := by
  by_contra hi
  have := hs.term i hi
  rw [hs.daemon hd] at this
  cases this

/-- While a terminal is in a command, the daemon is not in a critical section. -/
theorem Inv.daemon_outside (hs : Inv s) {i : ι} (hi : s.term i ≠ .idle) :
    s.daemon ∉ [Daemon.clearing, .cleared, .passing, .passed] := fun hd =>
  hi (hs.idle_of_daemon hd i)

/-- While a terminal is in a command, no other terminal is. -/
theorem Inv.others_idle (hs : Inv s) {i j : ι} (hi : s.term i ≠ .idle) (hj : j ≠ i) :
    s.term j = .idle := by
  by_contra h
  have := (hs.term j h).symm.trans (hs.term i hi)
  exact hj (by simpa using this)

/-- The daemon's steps that leave the lock free, and set no flag, while all terminals are idle. -/
theorem Inv.of_idle {t : State ι} (hidle : ∀ i, t.term i = .idle)
    (hd : t.daemon ∈ [Daemon.clearing, .cleared, .passing, .passed] → t.lock = .daemon)
    (hr : Remembered t) : Inv t where
  daemon := hd
  term i hi := absurd (hidle i) hi
  entered i act cb hi := by simp [hidle i] at hi
  written i force hi := by simp [hidle i] at hi
  flagged i hi := by simp [hidle i] at hi
  remembered := hr

end

/-- The steps of a terminal that ends up in a command. -/
theorem Inv.of_update {s t : State ι} {i : ι} {x : Terminal}
    (hterm : t.term = Function.update s.term i x) (hidle : ∀ j, j ≠ i → s.term j = .idle)
    (hlock : t.lock = .pcon i)
    (hd : t.daemon ∉ [Daemon.clearing, .cleared, .passing, .passed])
    (hentered : ∀ act cb, x = .entered act cb → act ∈ forcing)
    (hwritten : ∀ force, x = .written force → force = 1)
    (hflagged : x = .flagged → t.ipc.forceUpdate = 1) (hr : Remembered t) : Inv t := by
  have hself : t.term i = x := by rw [hterm, Function.update_self]
  have hother : ∀ j, t.term j ≠ .idle → j = i := by
    intro j hj
    by_contra hne
    rw [hterm, Function.update_of_ne hne] at hj
    exact hj (hidle j hne)
  refine ⟨fun h => absurd h hd, fun j hj => (hother j hj) ▸ hlock, fun j act cb hj => ?_,
    fun j force hj => ?_, fun j hj => ?_, hr⟩
  · obtain rfl := hother j (by simp [hj])
    exact hentered act cb (hself.symm.trans hj)
  · obtain rfl := hother j (by simp [hj])
    exact hwritten force (hself.symm.trans hj)
  · obtain rfl := hother j (by simp [hj])
    exact hflagged (hself.symm.trans hj)

theorem Inv.step {env : Env} {s t : State ι} {i : Option ι} (hs : Inv s) (h : Step env s i t) :
    Inv t := by
  have hrem := hs.remembered
  cases h with
  | testSet hd hf =>
    exact { hs with daemon := fun h => by simp at h, remembered := fun _ => .inl hf }
  | testClear hd hf => exact hs
  | newMinute hd hf =>
    refine { hs with daemon := fun h => by simp at h, remembered := fun hp => .inl ?_ }
    simpa [hd] using hrem hp
  | lockClear hd hl =>
    refine .of_idle (hs.idle_of_free hl) (fun _ => rfl) fun hp => .inl ?_
    simpa [hd] using hrem hp
  | clear hd =>
    exact .of_idle (hs.idle_of_daemon (by simp [hd])) (fun _ => hs.daemon (by simp [hd]))
      fun _ => .inr (.inl rfl)
  | freeClear hd =>
    exact .of_idle (hs.idle_of_daemon (by simp [hd])) (fun h => by simp at h)
      fun _ => .inr (.inr rfl)
  | lockPass hd hl =>
    exact .of_idle (hs.idle_of_free hl) (fun _ => rfl) fun hp => by simp at hp
  | pass stray garbage tm hd =>
    refine .of_idle (hs.idle_of_daemon (by simp [hd])) (fun _ => hs.daemon (by simp [hd]))
      fun hp => .inl ?_
    rw [updateRelays_forceUpdate]
    simpa [hd] using hrem hp
  | freePass hd =>
    refine .of_idle (hs.idle_of_daemon (by simp [hd])) (fun h => by simp at h) fun hp => .inl ?_
    simpa [hd] using hrem hp
  | lockCommand i act cb hact ht hl =>
    refine .of_update rfl (fun j _ => hs.idle_of_free hl j) rfl (fun h => ?_)
      (fun _ _ h => by cases h; exact hact) (fun _ h => by cases h) (fun h => by cases h) hrem
    have := hs.daemon h
    rw [hl] at this
    cases this
  | write i ht hw hrun =>
    have hi : s.term i ≠ .idle := by simp [ht]
    refine .of_update rfl (fun j => hs.others_idle hi) (hs.term i hi) (hs.daemon_outside hi)
      (fun _ _ h => by cases h) (fun _ h => ?_) (fun h => by cases h) hrem
    cases h
    exact forceUpdate_of_forcing (hs.entered i _ _ ht) hrun
  | flag i ht =>
    have hi : s.term i ≠ .idle := by simp [ht]
    exact .of_update rfl (fun j => hs.others_idle hi) (hs.term i hi) (hs.daemon_outside hi)
      (fun _ _ h => by cases h) (fun _ h => by cases h) (fun _ => hs.written i _ ht)
      fun _ => .inl (hs.written i _ ht)
  | freeCommand i ht =>
    have hi : s.term i ≠ .idle := by simp [ht]
    refine .of_idle (fun j => ?_) (fun h => absurd h (hs.daemon_outside hi))
      fun _ => .inl (hs.flagged i ht)
    by_cases hj : j = i
    · simp [hj]
    · simpa [hj] using hs.others_idle hi hj
  | other ipc hf =>
    exact { hs with flagged := fun i hi => hf.trans (hs.flagged i hi), remembered := fun hp =>
      (hrem hp).imp_left hf.trans }

/-- **No forced update is lost.** -/
theorem forced_update_remembered {env : Env} {s t : State ι} {tr : List (State ι × Option ι)}
    (hs : Initial s) (h : Path (Step env) s tr t) : Path.Forall Remembered tr t := by
  have hinv := h.invariant (I := Inv) (C := fun _ _ => True) (fun _ _ _ hs _ h => hs.step h)
    (Inv.of_initial hs) (fun _ _ => trivial)
  exact ⟨fun x hx => (hinv.1 x hx).remembered, hinv.2.remembered⟩

/-- The memory before anything has happened, with one terminal. -/
def quiet : State Unit :=
  ⟨IpcDat.zero, 0, fun _ => 0, .free, .top, fun _ => .idle, false⟩

/-- Channel 0 is switched on while the daemon is at the top of its loop. The daemon then clears the
flag, and the command is remembered by where the daemon is. -/
theorem forced_update_remembered_cleared : ∃ (tr : List (State Unit × Option Unit))
    (t : State Unit), Path (Step .calm) quiet tr t ∧ t.pending = true ∧ t.ipc.forceUpdate = 0 ∧
      t.daemon = .forced ∧ Path.Forall Remembered tr t := by
  have hrun : Path (Step .calm) quiet _ _ :=
    .cons (.lockCommand () .c9 CmdFsmCb.zero (by decide) rfl rfl) <|
    .cons (.write () (w := ⟨CmdFsmCb.zero, IpcDat.zero, [], none⟩) rfl rfl rfl) <|
    .cons (.flag () rfl) <| .cons (.freeCommand () rfl) <|
    .cons (.testSet rfl rfl) <| .cons (.lockClear rfl rfl) <| .cons (.clear rfl) <|
    .cons (.freeClear rfl) (.nil _)
  exact ⟨_, _, hrun, rfl, rfl, rfl, forced_update_remembered ⟨rfl, rfl, fun _ => rfl, rfl⟩ hrun⟩

end PconTng.ForceUpdate
