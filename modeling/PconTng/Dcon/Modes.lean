import PconTng.CmdFsm.Frame
import PconTng.Dcon.Pins
import PconTng.Foundations.Run

/-!
# Modes and states over a run

The user sets the modes of channels (`c_9` to `c_12`) and replaces the schedule (`c_39`), while the
daemon makes passes over the relays and sensors report readings, in any order. As long as the
schedules that are put in ask for the states 0 and 1, no mode but 0, 1 and 2 and no state but 0 and
1 ever comes up, and a channel in manual mode is in the state that the last "on" or "off" for it
has asked for (`modes_intact`).
-/

namespace PconTng.Modes

open CMemory CArray CmdFsm

/-- The records of a schedule are in its array, and have the states 0 and 1. -/
structure OnOff (t : TmplDat) : Prop where
  nonneg : 0 ≤ t.rcnt
  le_size : t.rcnt ≤ (maxScheduleRecs + 1 : ℕ)
  states : ∀ r ∈ t.live, r.state = 0 ∨ r.state = 1

/-- The commands that set the mode of a channel. -/
def setting : List Act := [.c9, .c10, .c11, .c12]

/-- What happens: a command for a channel, a new system schedule, a pass of the daemon, new
readings. -/
inductive Input
  | command (act : Act) (k : Fin numberOfChannels)
  | replace (sch : STab)
  | pass (tm : Tm)
  | readings (sDat : Vector SenDat numberOfSensors)

/-- Shared memory, the trend memory of the daemon, and the state that the last `c_9` or `c_10` for
each channel has asked for. -/
structure State where
  ipc : IpcDat
  hold : ℤ
  last : Fin numberOfChannels → ℤ

/-- What `last` is after a command. -/
def lastAfter (act : Act) (k : Fin numberOfChannels) (last : Fin numberOfChannels → ℤ) :
    Fin numberOfChannels → ℤ :=
  if act = .c9 then Function.update last k 1
  else if act = .c10 then Function.update last k 0
  else last

inductive Step : State → Input → State → Prop
  | command {s : State} {env : Env} {act : Act} {k : Fin numberOfChannels} {w w' : World} {ret : ℤ}
      (hact : act ∈ setting) (hk : w.cb.wChannel = k.val) (hw : w.ipc = s.ipc)
      (hrun : act.run env w = .ok (w', ret)) :
      Step s (.command act k) ⟨w'.ipc, s.hold, lastAfter act k s.last⟩
  | replace {s : State} {env : Env} {w w' : World} {ret : ℤ}
      (hsch : ∀ d c, OnOff (w.cb.wSch.cell d c)) (hw : w.ipc = s.ipc)
      (hrun : Act.c39.run env w = .ok (w', ret)) :
      Step s (.replace w.cb.wSch) ⟨w'.ipc, s.hold, s.last⟩
  | pass {s : State} {tm : Tm} (stray : Stray) (garbage : ℤ) (pins : ℕ → ℤ) :
      Step s (.pass tm) ⟨(updateRelays stray garbage s.hold tm s.ipc pins).1,
        (updateRelays stray garbage s.hold tm s.ipc pins).2.1, s.last⟩
  | readings {s : State} {sDat : Vector SenDat numberOfSensors} :
      Step s (.readings sDat) { s with ipc := { s.ipc with sDat := sDat } }

/-- Shared memory is zeroed, and nothing has been switched on. -/
def Initial (s : State) : Prop := s.ipc = IpcDat.zero ∧ s.last = fun _ => 0

/-- The modes and states of the channels are in order. -/
def Intact (s : State) : Prop :=
  ∀ c : Fin numberOfChannels, Supported s.ipc c ∧
    ((s.ipc.sysData.cData.get c).state = 0 ∨ (s.ipc.sysData.cData.get c).state = 1) ∧
    ((s.ipc.sysData.cData.get c).mode = 0 → (s.ipc.sysData.cData.get c).state = s.last c)

/-! ## What a pass asks for -/

theorem OnOff.zero : OnOff TmplDat.zero :=
  ⟨le_rfl, by decide, fun r hr => absurd hr List.not_mem_nil⟩

/-- A record that a schedule in order is read at. -/
theorem OnOff.peek {t : TmplDat} (h : OnOff t) (stray : ℤ → SRec) {i : ℕ} (hi : (i : ℤ) < t.rcnt) :
    (peek stray t.recs i).state = 0 ∨ (peek stray t.recs i).state = 1 := by
  have hsize := h.le_size
  have hi' : i < maxScheduleRecs + 1 := by omega
  have hlen : i < t.live.length := by
    rw [TmplDat.live, length_front _ (by omega)]
    omega
  rw [peek_natCast stray t.recs hi', ← TmplDat.getElem_live hlen]
  exact h.states _ (List.getElem_mem hlen)

/-- What holds of 0 and of the states of all records holds of what the schedule asks for, whether or
not its keys increase. -/
theorem testSchTime_of_forall {P : ℤ → Prop} (h0 : P 0) {t : TmplDat} (hnonneg : 0 ≤ t.rcnt)
    (stray : ℤ → SRec) (hrecs : ∀ z : ℤ, 0 ≤ z → z < t.rcnt → P (peek stray t.recs z).state)
    (key : ℤ) : P (testSchTime stray key t) := by
  unfold testSchTime
  dsimp only
  rcases (by omega : t.rcnt = 0 ∨ t.rcnt = 1 ∨ t.rcnt = 2 ∨ 2 < t.rcnt) with hz | h1 | h2 | h3
  · rw [if_pos hz]
    exact h0
  · rw [if_neg (by omega), if_pos h1]
    exact hrecs 0 le_rfl (by omega)
  · rw [if_neg (by omega), if_neg (by omega), if_pos h2]
    have hfirst := hrecs 0 le_rfl (by omega)
    have hsecond := hrecs 1 (by omega) (by omega)
    split_ifs <;> assumption
  · rw [if_neg (by omega), if_neg (by omega), if_neg (by omega)]
    have hlast := hrecs (t.rcnt - 1) (by omega) (by omega)
    split
    · rename_i i hi
      have hmem := List.mem_range.1 (List.mem_of_find?_eq_some hi)
      exact hrecs i (by omega) (by omega)
    · split_ifs
      · exact hlast
      · exact hlast
      · -- the last loop returns the state of a record that it has come to, or nothing
        cases hg : (List.range (t.rcnt - 1).toNat).findSome? _ with
        | none => exact h0
        | some v =>
          obtain ⟨i, hmem, hv⟩ := List.exists_of_findSome?_eq_some hg
          rw [List.mem_range] at hmem
          split_ifs at hv with hbetween hother <;> cases hv
          · exact hrecs i (by omega) (by omega)
          · omega

/-- A schedule in order asks for 0 or 1. -/
theorem OnOff.testSchTime {t : TmplDat} (h : OnOff t) (stray : ℤ → SRec) (key : ℤ) :
    testSchTime stray key t = 0 ∨ testSchTime stray key t = 1 := by
  refine testSchTime_of_forall (P := fun x => x = 0 ∨ x = 1) (.inl rfl) h.nonneg stray
    (fun z hz hlt => ?_) key
  obtain ⟨i, rfl⟩ := Int.eq_ofNat_of_zero_le hz
  exact h.peek stray hlt

/-- Where all modes are supported, every channel gets what its own mode asks for. -/
theorem asked_of_supported {stray : Stray} {garbage hold : ℤ} {tm : Tm} {ipc : IpcDat}
    {c : Fin numberOfChannels} (h : Supported ipc c) :
    asked stray garbage hold tm ipc c = wanted stray hold tm ipc c := by
  have hsource : source ipc (c + 1) = some c := by simp only [source, dif_pos c.isLt, if_pos h]
  unfold asked
  rw [hsource]

theorem wanted_mem {stray : Stray} {hold : ℤ} {tm : Tm} {ipc : IpcDat} {c : Fin numberOfChannels}
    (hstate : (ipc.sysData.cData.get c).state = 0 ∨ (ipc.sysData.cData.get c).state = 1)
    (hsch : OnOff (schedule tm ipc c)) :
    wanted stray hold tm ipc c = 0 ∨ wanted stray hold tm ipc c = 1 := by
  unfold wanted
  dsimp only
  split_ifs
  · exact hstate
  · exact hsch.testSchTime _ _
  · exact .inr rfl
  · exact .inl rfl

/-! ## What a command does -/

theorem setControl_eq {mode state ret : ℤ} {w w' : World} {k : Fin numberOfChannels}
    (hk : w.cb.wChannel = k.val) (h : setControl mode state w = .ok (w', ret)) :
    w'.ipc.sysData.cData = w.ipc.sysData.cData.set k
        { w.ipc.sysData.cData.get k with mode := mode, state := state } k.isLt ∧
      w'.ipc.sysData.sysSch = w.ipc.sysData.sysSch := by
  obtain ⟨-, w₁, sDat, h₁, rfl⟩ := setControl_controls h
  rw [World.onChannel_eq hk] at h₁
  cases h₁
  exact ⟨rfl, rfl⟩

/-- Every command that sets the mode of a channel sets a supported mode and a state of 0 or 1, and
for manual mode the state that it asks for. -/
theorem setting_cases {act : Act} (h : act ∈ setting) (k : Fin numberOfChannels)
    (last : Fin numberOfChannels → ℤ) : ∃ mode state : ℤ, mode ∈ [(0 : ℤ), 1, 2] ∧
      (state = 0 ∨ state = 1) ∧ (mode = 0 → state = lastAfter act k last k) ∧
      (∀ j, j ≠ k → lastAfter act k last j = last j) ∧
      ∀ env w, act.run env w = setControl mode state w := by
  simp only [setting, List.mem_cons, List.not_mem_nil, or_false] at h
  rcases h with rfl | rfl | rfl | rfl
  · refine ⟨0, 1, by decide, .inr rfl, fun _ => ?_, fun j hj => ?_, fun env w => rfl⟩
    · rw [lastAfter, if_pos rfl, Function.update_self]
    · rw [lastAfter, if_pos rfl, Function.update_of_ne hj]
  · refine ⟨0, 0, by decide, .inl rfl, fun _ => ?_, fun j hj => ?_, fun env w => rfl⟩
    · rw [lastAfter, if_neg (by decide), if_pos rfl, Function.update_self]
    · rw [lastAfter, if_neg (by decide), if_pos rfl, Function.update_of_ne hj]
  · exact ⟨1, 0, by decide, .inl rfl, fun h => absurd h (by decide), fun _ _ => rfl,
      fun env w => rfl⟩
  · exact ⟨2, 0, by decide, .inl rfl, fun h => absurd h (by decide), fun _ _ => rfl,
      fun env w => rfl⟩

/-! ## The invariant -/

/-- The channels are in order, and so are the schedules. -/
structure Inv (s : State) : Prop where
  intact : Intact s
  schedules : ∀ d c, OnOff (s.ipc.sysData.sysSch.cell d c)

theorem Inv.of_initial {s : State} (h : Initial s) : Inv s := by
  obtain ⟨hipc, hlast⟩ := h
  have hzero : ∀ c : Fin numberOfChannels, s.ipc.sysData.cData.get c = ChnDat.zero := by
    intro c
    rw [hipc]
    simp only [IpcDat.zero, SysDat.zero, get_eq, Vector.getElem_replicate]
  refine ⟨fun c => ⟨?_, ?_, ?_⟩, fun d c => ?_⟩
  · unfold Supported
    rw [hzero]
    decide
  · exact .inl (by rw [hzero]; rfl)
  · intro _
    rw [hzero, hlast]
    rfl
  · have hsch : s.ipc.sysData.sysSch = STab.zero := by rw [hipc]; rfl
    rw [hsch, STab.cell_zero]
    exact OnOff.zero

/-- A pass keeps the channels in order. -/
theorem Intact.pass {s : State} (hs : Inv s) (stray : Stray) (garbage : ℤ) (tm : Tm)
    (pins : ℕ → ℤ) : Intact ⟨(updateRelays stray garbage s.hold tm s.ipc pins).1,
      (updateRelays stray garbage s.hold tm s.ipc pins).2.1, s.last⟩ := by
  intro c
  obtain ⟨hmode, hstate, hmanual⟩ := hs.intact c
  have hafter := updateRelays_state stray garbage s.hold tm s.ipc pins c
  rw [asked_of_supported hmode] at hafter
  have hmode' : ((updateRelays stray garbage s.hold tm s.ipc pins).1.sysData.cData.get c).mode =
      (s.ipc.sysData.cData.get c).mode := by rw [updateRelays_cData]
  refine ⟨?_, ?_, fun h0 => ?_⟩
  · unfold Supported
    rw [hmode']
    exact hmode
  · rw [hafter]
    exact wanted_mem hstate (hs.schedules tm.tmWday c)
  · rw [hmode'] at h0
    rw [hafter, wanted]
    exact (if_pos h0).trans (hmanual h0)

theorem Inv.step {s t : State} {i : Input} (hs : Inv s) (h : Step s i t) : Inv t := by
  cases h with
  | @command env act k w w' ret hact hk hw hrun =>
    obtain ⟨mode, state, hmode, hstate, hmanual, hothers, hcontrol⟩ :=
      setting_cases hact k s.last
    rw [hcontrol] at hrun
    obtain ⟨hcData, hsch⟩ := setControl_eq hk hrun
    rw [hw] at hcData hsch
    refine ⟨fun c => ?_, fun d c => ?_⟩
    · unfold Supported
      dsimp only
      rw [hcData, get_eq, Vector.getElem_set]
      by_cases hkc : k = c
      · subst hkc
        rw [if_pos rfl]
        exact ⟨hmode, hstate, hmanual⟩
      · rw [if_neg fun h => hkc (Fin.ext h), hothers c (Ne.symm hkc)]
        exact hs.intact c
    · dsimp only
      rw [hsch]
      exact hs.schedules d c
  | replace hsch hw hrun =>
    cases hrun
    have hintact := hs.intact
    unfold Intact at hintact
    rw [← hw] at hintact
    exact ⟨hintact, hsch⟩
  | pass stray garbage pins =>
    refine ⟨Intact.pass hs stray garbage _ pins, ?_⟩
    simp only [updateRelays_eq]
    exact hs.schedules
  | readings => exact ⟨hs.intact, hs.schedules⟩

/-- **The modes and states of the channels stay in order.** -/
theorem modes_intact {s t : State} {tr : List (State × Input)} (hs : Initial s)
    (h : Path Step s tr t) : Path.Forall Intact tr t := by
  have hinv := h.invariant (I := Inv) (C := fun _ _ => True) (fun _ _ _ hs _ h => hs.step h)
    (.of_initial hs) (fun _ _ => trivial)
  exact ⟨fun x hx => (hinv.1 x hx).intact, hinv.2.intact⟩

/-- Zeroed memory, before anything has happened. -/
def zeroed : State := ⟨IpcDat.zero, 0, fun _ => 0⟩

/-- Channel 3 is switched on, and the daemon makes a pass at midnight. -/
theorem modes_intact_on : ∃ s t : State, Path Step zeroed
      [(zeroed, .command .c9 3), (s, .pass ⟨0, 0, 0⟩)] t ∧ Intact t := by
  let w : World := World.zero.setCb { CmdFsmCb.zero with wChannel := 3 }
  have hrun : Path Step zeroed _ _ :=
    .cons (@Step.command zeroed .calm .c9 3 w _ _ (by decide) rfl rfl rfl) <|
    .cons (@Step.pass _ ⟨0, 0, 0⟩ ⟨fun _ _ _ => SRec.zero, fun _ _ => 0⟩ 0 fun _ => 0) (.nil _)
  exact ⟨_, _, hrun, (modes_intact ⟨rfl, rfl⟩ hrun).2⟩

end PconTng.Modes
