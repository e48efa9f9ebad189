import PconTng.Foundations.Run
import PconTng.Sch.Lookup
import PconTng.Sch.Table

/-!
# A pass over the relays

`update_relays` of `Dcon.c` computes a state for every channel from its mode and then writes the
states to the pins. It may run on any shared memory, so what it reads outside the arrays
(`Stray`) and what its local variable `state` holds at the start are parameters. The trend memory
of the slab controller goes through all channels. `updateRelaysInt` is the pass as C runs it, and
`updateRelays` the pass with all integers; they agree if the numbers of the pass are in the range of
an `int`, and otherwise C leaves open what happens (`updateRelaysInt_eq`). Where the numbers of the
slab controller do not matter, as for the modes, the locks and the channels under the control of
time, runs are made of passes with all integers.

The states and the trend memory are also given channel by channel (`stateAfter`, `trendAt`), and
`updateRelays_cData` and `updateRelays_hold` say that the pass computes them.
-/

namespace PconTng

open CMemory CArray

/-- What lies in memory around the records of a schedule and around the sensors, as a pass finds
it when it comes to a channel. -/
structure Stray where
  recs : Fin daysPerWeek → Fin numberOfChannels → ℤ → SRec
  temp : Fin numberOfChannels → ℤ → ℚ

/-- The gpio numbers of `chan`, from `_CHAN0` to `_CHAN15`. -/
def chan : Vector ℕ numberOfChannels :=
  #v[86, 88, 87, 89, 10, 11, 9, 81, 8, 80, 78, 79, 86, 77, 74, 75]

/-- What a pass changes: the data of the channels, its local variable `state`, and the trend
memory. -/
structure Pass where
  cData : Vector ChnDat numberOfChannels
  state : ℤ
  hold : ℤ

section

variable (stray : Stray) (tm : Tm) (ipc : IpcDat)

/-- The schedule that is read for a channel. -/
def schedule (c : Fin numberOfChannels) : TmplDat := ipc.sysData.sysSch.cell tm.tmWday c

/-- The temperature that is read for a channel. -/
def temperature (c : Fin numberOfChannels) : ℚ :=
  let id := (ipc.sysData.cData.get c).sensorId
  if h : 0 ≤ id ∧ id.toNat < numberOfSensors then (getElem ipc.sDat id.toNat h.2).temp
  else stray.temp c id

variable {m : Type → Type} [Monad m] (ops : IntOps m)

/-- The state for a channel in the given mode, with the trend memory. In the modes that are not
supported the local variable keeps its value. -/
def channelStateWith (c : Fin numberOfChannels) (d : ChnDat) (state hold : ℤ) : m (ℤ × ℤ) := do
  if d.mode = 0 then return (d.state, hold)
  else if d.mode = 1 then
    return (testSchTime (stray.recs tm.tmWday c) tm.key (schedule tm ipc c), hold)
  else if d.mode = 2 then
    testSchSensorWith (stray.recs tm.tmWday c) ops hold tm.key (schedule tm ipc c)
      (← ops.conv (temperature stray ipc c))
  else return (state, hold)

/-- One turn of the first loop. -/
def channelStepWith (p : Pass) (c : Fin numberOfChannels) : m Pass := do
  let d := p.cData.get c
  let (state, hold) ← channelStateWith stray tm ipc ops c d p.state p.hold
  return ⟨p.cData.set c { d with state := state } c.isLt, state, hold⟩

/-- The first loop: the states of all channels. -/
def channelUpdateWith (garbage hold : ℤ) : m Pass :=
  (List.finRange numberOfChannels).foldlM (channelStepWith stray tm ipc ops)
    ⟨ipc.sysData.cData, garbage, hold⟩

end

/-- The level that is echoed to the pin of a channel in the given state. -/
def level (state : ℤ) : ℤ := if state ≠ 0 then 1 else 0

/-- One turn of the second loop. -/
def pinStep (cData : Vector ChnDat numberOfChannels) (pins : ℕ → ℤ) (c : Fin numberOfChannels) :
    ℕ → ℤ :=
  Function.update pins (chan.get c) (level (cData.get c).state)

/-- The second loop: each channel writes its pin. -/
def pinUpdate (cData : Vector ChnDat numberOfChannels) (pins : ℕ → ℤ) : ℕ → ℤ :=
  (List.finRange numberOfChannels).foldl (pinStep cData) pins

/-- `update_relays`: shared memory, the trend memory and the pins after a pass. -/
def updateRelaysWith {m : Type → Type} [Monad m] (ops : IntOps m) (stray : Stray)
    (garbage hold : ℤ) (tm : Tm) (ipc : IpcDat) (pins : ℕ → ℤ) : m (IpcDat × ℤ × (ℕ → ℤ)) := do
  let p ← channelUpdateWith stray tm ipc ops garbage hold
  return ({ ipc with sysData := { ipc.sysData with cData := p.cData } }, p.hold,
    pinUpdate p.cData pins)

section

variable (stray : Stray) (garbage hold : ℤ) (tm : Tm) (ipc : IpcDat) (pins : ℕ → ℤ)

/-- The pass as C runs it. -/
def updateRelaysInt : Except Stop (IpcDat × ℤ × (ℕ → ℤ)) :=
  updateRelaysWith .int stray garbage hold tm ipc pins

/-- The pass with all integers. -/
def updateRelays : IpcDat × ℤ × (ℕ → ℤ) :=
  updateRelaysWith .all stray garbage hold tm ipc pins

end

/-! ## The states channel by channel -/

section

variable (stray : Stray) (tm : Tm) (ipc : IpcDat) (garbage hold : ℤ)

/-- The temperature that is read for a channel, as an integer. -/
def reading (c : Fin numberOfChannels) : ℤ := intOfFloat (temperature stray ipc c)

/-- The state for a channel, with all integers. -/
def channelState (c : Fin numberOfChannels) (d : ChnDat) (state hold : ℤ) : ℤ × ℤ :=
  channelStateWith stray tm ipc .all c d state hold

/-- One turn of the first loop, with all integers. -/
def channelStep (p : Pass) (c : Fin numberOfChannels) : Pass :=
  channelStepWith stray tm ipc .all p c

/-- The first loop, with all integers. -/
def channelUpdate : Pass :=
  (List.finRange numberOfChannels).foldl (channelStep stray tm ipc)
    ⟨ipc.sysData.cData, garbage, hold⟩

theorem channelState_eq (c : Fin numberOfChannels) (d : ChnDat) (state hold : ℤ) :
    channelState stray tm ipc c d state hold =
      if d.mode = 0 then (d.state, hold)
      else if d.mode = 1 then
        (testSchTime (stray.recs tm.tmWday c) tm.key (schedule tm ipc c), hold)
      else if d.mode = 2 then
        testSchSensor (stray.recs tm.tmWday c) hold tm.key (schedule tm ipc c) (reading stray ipc c)
      else (state, hold) :=
  rfl

theorem channelStep_eq (p : Pass) (c : Fin numberOfChannels) : channelStep stray tm ipc p c =
    let d := p.cData.get c
    let (state, hold) := channelState stray tm ipc c d p.state p.hold
    ⟨p.cData.set c { d with state := state } c.isLt, state, hold⟩ :=
  rfl

theorem updateRelays_eq (pins : ℕ → ℤ) : updateRelays stray garbage hold tm ipc pins =
    let p := channelUpdate stray tm ipc garbage hold
    ({ ipc with sysData := { ipc.sysData with cData := p.cData } }, p.hold,
      pinUpdate p.cData pins) := by
  have hloop : channelUpdateWith stray tm ipc .all garbage hold =
      channelUpdate stray tm ipc garbage hold :=
    List.idRun_foldlM
  rw [← hloop]
  rfl

/-- Channel `c` consults the slab controller. -/
def Consults (c : Fin numberOfChannels) : Prop :=
  (ipc.sysData.cData.get c).mode = 2 ∧ (schedule tm ipc c).rcnt ≠ 0

instance (c : Fin numberOfChannels) : Decidable (Consults tm ipc c) :=
  inferInstanceAs (Decidable (_ ∧ _))

/-- The trend memory when the pass comes to the channel with the given number: the reading of the
last channel before it that consulted the slab controller. -/
def trendAt : ℕ → ℤ
  | 0 => hold
  | k + 1 =>
    if h : k < numberOfChannels then
      if Consults tm ipc ⟨k, h⟩ then reading stray ipc ⟨k, h⟩ else trendAt k
    else trendAt k

/-- The local variable `state` after the first `k` channels: what the mode of the last of them
asks for, or the value before if the mode is not supported. -/
def stateAfter : ℕ → ℤ
  | 0 => garbage
  | k + 1 =>
    if h : k < numberOfChannels then
      (channelState stray tm ipc ⟨k, h⟩ ipc.sysData.cData[k] (stateAfter k)
        (trendAt stray tm ipc hold k)).1
    else stateAfter k

theorem channelState_hold (c : Fin numberOfChannels) (state h : ℤ) :
    (channelState stray tm ipc c (ipc.sysData.cData.get c) state h).2 =
      if Consults tm ipc c then reading stray ipc c else h := by
  rw [channelState_eq]
  unfold Consults
  split_ifs with h0 h1 h2 h3 h4 <;> simp_all [testSchSensor_eq_ite, slabcon_eq]

variable {stray tm ipc} in
theorem channelState_manual {c : Fin numberOfChannels} {d : ChnDat} (h : d.mode = 0)
    (state hold : ℤ) : channelState stray tm ipc c d state hold = (d.state, hold) :=
  if_pos h

variable {stray tm ipc} in
theorem channelState_time {c : Fin numberOfChannels} {d : ChnDat} (h : d.mode = 1)
    (state hold : ℤ) : channelState stray tm ipc c d state hold =
      (testSchTime (stray.recs tm.tmWday c) tm.key (schedule tm ipc c), hold) := by
  rw [channelState_eq, if_neg (by omega), if_pos h]

variable {stray tm ipc} in
theorem channelState_sensor {c : Fin numberOfChannels} {d : ChnDat} (h : d.mode = 2)
    (state hold : ℤ) : channelState stray tm ipc c d state hold =
      testSchSensor (stray.recs tm.tmWday c) hold tm.key (schedule tm ipc c)
        (reading stray ipc c) := by
  rw [channelState_eq, if_neg (by omega), if_neg (by omega), if_pos h]

/-- What the first loop has done after `k` channels. -/
structure Upto (k : ℕ) (p : Pass) : Prop where
  done : ∀ (c : ℕ) (hc : c < numberOfChannels), c < k →
    p.cData[c] = { ipc.sysData.cData[c] with state := stateAfter stray tm ipc garbage hold (c + 1) }
  rest : ∀ (c : ℕ) (hc : c < numberOfChannels), k ≤ c → p.cData[c] = ipc.sysData.cData[c]
  state : p.state = stateAfter stray tm ipc garbage hold k
  hold : p.hold = trendAt stray tm ipc hold k

variable {stray tm ipc garbage hold}

theorem Upto.step {p : Pass} (c : Fin numberOfChannels)
    (h : Upto stray tm ipc garbage hold c p) :
    Upto stray tm ipc garbage hold (c + 1) (channelStep stray tm ipc p c) := by
  have hd : p.cData.get c = ipc.sysData.cData.get c := h.rest c c.isLt le_rfl
  have hs : (channelStep stray tm ipc p c).state =
      stateAfter stray tm ipc garbage hold (c + 1) := by
    simp only [channelStep_eq, hd, h.state, h.hold, stateAfter, dif_pos c.isLt]
    rfl
  have hset : (channelStep stray tm ipc p c).cData =
      p.cData.set c { ipc.sysData.cData.get c with
        state := stateAfter stray tm ipc garbage hold (c + 1) } := by
    rw [← hs, ← hd]
    rfl
  refine ⟨fun j hj hjc => ?_, fun j hj hjc => ?_, hs, ?_⟩
  · simp only [hset, Vector.getElem_set]
    split_ifs with hcj
    · subst hcj
      rfl
    · exact h.done j hj (by omega)
  · simp only [hset]
    rw [Vector.getElem_set_ne _ _ (by omega)]
    exact h.rest j hj (by omega)
  · simp only [channelStep_eq, hd, channelState_hold, h.hold, trendAt, dif_pos c.isLt]

theorem channelUpdate_upto (stray : Stray) (tm : Tm) (ipc : IpcDat) (garbage hold : ℤ) :
    Upto stray tm ipc garbage hold numberOfChannels
      (channelUpdate stray tm ipc garbage hold) :=
  foldl_finRange_invariant (fun k p => Upto stray tm ipc garbage hold k p)
    (fun c _ h => h.step c) ⟨fun _ _ h => absurd h (Nat.not_lt_zero _), fun _ _ _ => rfl, rfl, rfl⟩

variable (pins : ℕ → ℤ)

/-- A pass gives every channel its state and changes nothing else of its data. -/
theorem updateRelays_cData (c : Fin numberOfChannels) :
    (updateRelays stray garbage hold tm ipc pins).1.sysData.cData.get c =
      { ipc.sysData.cData.get c with state := stateAfter stray tm ipc garbage hold (c + 1) } := by
  simp only [updateRelays_eq]
  exact (channelUpdate_upto stray tm ipc garbage hold).done c c.isLt c.isLt

/-- A channel that is controlled by time gets what its schedule has for the time of day. -/
theorem updateRelays_time {c : Fin numberOfChannels} (h : (ipc.sysData.cData.get c).mode = 1) :
    ((updateRelays stray garbage hold tm ipc pins).1.sysData.cData.get c).state =
      testSchTime (stray.recs tm.tmWday c) tm.key (ipc.sysData.sysSch.cell tm.tmWday c) := by
  have hmode : ipc.sysData.cData[c.val].mode = 1 := h
  rw [updateRelays_cData]
  simp only [stateAfter, dif_pos c.isLt, channelState_time hmode, schedule]

theorem updateRelays_hold :
    (updateRelays stray garbage hold tm ipc pins).2.1 =
      trendAt stray tm ipc hold numberOfChannels := by
  simp only [updateRelays_eq]
  exact (channelUpdate_upto stray tm ipc garbage hold).hold

@[simp] theorem updateRelays_forceUpdate :
    (updateRelays stray garbage hold tm ipc pins).1.forceUpdate = ipc.forceUpdate := by
  simp only [updateRelays_eq]

end

/-! ## The range of an `int` -/

section

variable (stray : Stray) (tm : Tm) (ipc : IpcDat) (garbage hold : ℤ)

/-- The numbers that are computed for a channel fit an `int`: its reading if it is in the sensor
mode, and if it consults the slab controller the target and the sums as well. -/
def FitsAt (c : Fin numberOfChannels) (hold : ℤ) : Prop :=
  (ipc.sysData.cData.get c).mode = 2 → IsInt (reading stray ipc c) ∧
    TargetFits (stray.recs tm.tmWday c) hold tm.key (schedule tm ipc c) (reading stray ipc c)

instance (c : Fin numberOfChannels) (hold : ℤ) : Decidable (FitsAt stray tm ipc c hold) :=
  inferInstanceAs (Decidable (_ → _ ∧ _))

/-- The numbers that a pass computes for the channels fit an `int`. -/
def InRange : Prop := ∀ c, FitsAt stray tm ipc c (trendAt stray tm ipc hold c)

instance : Decidable (InRange stray tm ipc hold) := inferInstanceAs (Decidable (∀ _, _))

variable {stray tm ipc garbage hold}

theorem channelStateInt_eq (c : Fin numberOfChannels) (state hold : ℤ) :
    channelStateWith stray tm ipc .int c (ipc.sysData.cData.get c) state hold =
      if FitsAt stray tm ipc c hold then
        .ok (channelState stray tm ipc c (ipc.sysData.cData.get c) state hold)
      else .error .fault := by
  by_cases h2 : (ipc.sysData.cData.get c).mode = 2
  · have hfits : FitsAt stray tm ipc c hold ↔ IsInt (reading stray ipc c) ∧
        TargetFits (stray.recs tm.tmWday c) hold tm.key (schedule tm ipc c) (reading stray ipc c) :=
      imp_iff_right h2
    have hconv : IntOps.int.conv (temperature stray ipc c) =
        if IsInt (reading stray ipc c) then .ok (reading stray ipc c) else .error .fault := rfl
    rw [channelState_sensor h2, channelStateWith, if_neg (by omega), if_neg (by omega), if_pos h2,
      if_congr hfits rfl rfl, hconv]
    by_cases hread : IsInt (reading stray ipc c)
    · rw [if_congr (and_iff_right hread) rfl rfl, ← testSchSensorInt_eq, if_pos hread]
      rfl
    · rw [if_neg hread, if_neg fun h => hread h.1]
      rfl
  · have hfits : FitsAt stray tm ipc c hold := fun h => absurd h h2
    rw [if_pos hfits, channelState_eq, channelStateWith]
    split_ifs <;> rfl

/-- One turn of the first loop, as C runs it. -/
theorem Upto.stepInt {p : Pass} (c : Fin numberOfChannels)
    (h : Upto stray tm ipc garbage hold c p) :
    channelStepWith stray tm ipc .int p c =
      if FitsAt stray tm ipc c (trendAt stray tm ipc hold c) then
        .ok (channelStep stray tm ipc p c)
      else .error .fault := by
  have hd : p.cData.get c = ipc.sysData.cData.get c := h.rest c c.isLt le_rfl
  simp only [channelStepWith, channelStep_eq, hd, h.hold, channelStateInt_eq]
  split_ifs <;> rfl

/-- **The pass in the range of an `int`.** C runs a pass with the numbers of the integers exactly
when these fit. -/
theorem updateRelaysInt_eq (pins : ℕ → ℤ) : updateRelaysInt stray garbage hold tm ipc pins =
    if InRange stray tm ipc hold then .ok (updateRelays stray garbage hold tm ipc pins)
    else .error .fault := by
  have hloop : channelUpdateWith stray tm ipc .int garbage hold =
      if InRange stray tm ipc hold then .ok (channelUpdate stray tm ipc garbage hold)
      else .error .fault :=
    foldlM_finRange_eq (fun k p => Upto stray tm ipc garbage hold k p) (fun c _ h => h.step c)
      (fun c _ h => h.stepInt c)
      ⟨fun _ _ h => absurd h (Nat.not_lt_zero _), fun _ _ _ => rfl, rfl, rfl⟩
  rw [updateRelaysInt, updateRelaysWith, hloop, updateRelays_eq]
  split_ifs <;> rfl

/-- What holds after a pass as C runs it. -/
theorem updateRelaysInt_post_iff (pins : ℕ → ℤ) {P : IpcDat × ℤ × (ℕ → ℤ) → Prop} :
    (∃ r, updateRelaysInt stray garbage hold tm ipc pins = .ok r ∧ P r) ↔
      InRange stray tm ipc hold ∧ P (updateRelays stray garbage hold tm ipc pins) := by
  rw [updateRelaysInt_eq]
  by_cases h : InRange stray tm ipc hold
  · rw [if_pos h, and_iff_right h]
    exact ⟨fun ⟨_, hr, hP⟩ => Except.ok.inj hr ▸ hP, fun hP => ⟨_, rfl, hP⟩⟩
  · rw [if_neg h]
    refine iff_of_false ?_ fun hP => h hP.1
    rintro ⟨_, hr, _⟩
    cases hr

end

end PconTng
