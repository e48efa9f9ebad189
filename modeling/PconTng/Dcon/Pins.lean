import PconTng.Dcon.UpdateRelays

/-!
# The pins after a pass

The entries of `chan` for the channels 0 and 12 name the same gpio, so the pin of channel 0 ends
up with the level of channel 12. All other channels drive a pin of their own. Whether the pins
carry the states therefore depends on what the modes of the channels ask for (`asked`). The pass
has to stay in the range of an `int`; otherwise C leaves open what happens.
-/

namespace PconTng

/-- The last channel that writes the pin of a channel. -/
def lastWriter (c : Fin numberOfChannels) : Fin numberOfChannels := if c = 0 then 12 else c

theorem level_mem (state : ℤ) : level state = 0 ∨ level state = 1 := by
  unfold level
  split_ifs <;> simp

theorem level_eq {state : ℤ} (h : state = 0 ∨ state = 1) : level state = state := by
  rcases h with rfl | rfl <;> rfl

theorem chan_eq_iff : ∀ c k : Fin numberOfChannels,
    c < k → (chan.get c = chan.get k ↔ c = 0 ∧ k = 12) := by
  decide

/-- After `k` channels each of their pins has the level of the last writer among them. -/
def PinsUpto (cData : Vector ChnDat numberOfChannels) (k : ℕ) (pins : ℕ → ℤ) : Prop :=
  ∀ c : Fin numberOfChannels, c.val < k →
    pins (chan.get c) = level (cData.get (if c = 0 ∧ 12 < k then 12 else c)).state

theorem PinsUpto.step {cData : Vector ChnDat numberOfChannels} (k : Fin numberOfChannels)
    (pins : ℕ → ℤ) (h : PinsUpto cData k pins) : PinsUpto cData (k + 1) (pinStep cData pins k) := by
  intro c hc
  rcases (by omega : c.val < k.val ∨ c.val = k.val) with hlt | heq
  · by_cases hsame : chan.get c = chan.get k
    · obtain ⟨h0, h12⟩ := (chan_eq_iff c k hlt).1 hsame
      rw [pinStep, hsame, Function.update_self, h0, h12]
      rfl
    · have hne : ¬ (c = 0 ∧ k = 12) := fun h => hsame ((chan_eq_iff c k hlt).2 h)
      have hiff : (c = 0 ∧ 12 < k.val + 1) ↔ c = 0 ∧ 12 < k.val :=
        and_congr_right fun h0 => by
          have : k.val ≠ 12 := fun h => hne ⟨h0, Fin.ext h⟩
          omega
      rw [pinStep, Function.update_of_ne hsame, h c hlt]
      simp only [hiff]
  · obtain rfl : c = k := Fin.ext heq
    have hne : ¬ (c = 0 ∧ 12 < c.val + 1) := by
      rintro ⟨rfl, h⟩
      exact absurd h (by decide)
    rw [pinStep, Function.update_self]
    simp only [if_neg hne]

theorem pinUpdate_chan (cData : Vector ChnDat numberOfChannels) (pins : ℕ → ℤ)
    (c : Fin numberOfChannels) :
    pinUpdate cData pins (chan.get c) = level (cData.get (lastWriter c)).state := by
  have hupto : PinsUpto cData numberOfChannels (pinUpdate cData pins) :=
    foldl_finRange_invariant (PinsUpto cData) PinsUpto.step
      (fun _ h => absurd h (Nat.not_lt_zero _))
  have h12 : 12 < numberOfChannels := by decide
  simpa only [lastWriter, h12, and_true] using hupto c c.isLt

/-! ## What the modes ask for -/

section

variable (stray : Stray) (garbage hold : ℤ) (tm : Tm) (ipc : IpcDat)

/-- The mode is manual, time, or time and sensor. -/
def Supported (c : Fin numberOfChannels) : Prop := (ipc.sysData.cData.get c).mode ∈ [(0 : ℤ), 1, 2]

instance (c : Fin numberOfChannels) : Decidable (Supported ipc c) :=
  inferInstanceAs (Decidable (_ ∈ _))

/-- What a supported mode asks for: the state set by hand, the state of the schedule at the time of
day, or "on" if the slab controller demands it. -/
def wanted (c : Fin numberOfChannels) : ℤ :=
  let d := ipc.sysData.cData.get c
  if d.mode = 0 then d.state
  else if d.mode = 1 then testSchTime (stray.recs tm.tmWday c) tm.key (schedule tm ipc c)
  else if (schedule tm ipc c).rcnt ≠ 0 ∧
      demand (trendAt stray tm ipc hold c)
        (getTarTemp (stray.recs tm.tmWday c) tm.key (schedule tm ipc c)) (reading stray ipc c)
    then 1
    else 0

/-- The last channel in a supported mode among the first ones of the given number. -/
def source : ℕ → Option (Fin numberOfChannels)
  | 0 => none
  | k + 1 =>
    if h : k < numberOfChannels then
      if Supported ipc ⟨k, h⟩ then some ⟨k, h⟩ else source k
    else source k

/-- What is asked for a channel: what its mode asks for, and in an unsupported mode what the last
channel before it in a supported one asks for. -/
def asked (c : Fin numberOfChannels) : ℤ :=
  match source ipc (c + 1) with
  | some k => wanted stray hold tm ipc k
  | none => garbage

variable {stray garbage hold tm ipc}

theorem channelState_of_supported {c : Fin numberOfChannels} (h : Supported ipc c) (state : ℤ) :
    (channelState stray tm ipc c (ipc.sysData.cData.get c) state (trendAt stray tm ipc hold c)).1 =
      wanted stray hold tm ipc c := by
  have hmode := h
  simp only [Supported, List.mem_cons, List.not_mem_nil, or_false] at hmode
  unfold wanted
  dsimp only
  rcases hmode with h0 | h1 | h2
  · rw [channelState_manual h0, if_pos h0]
  · rw [channelState_time h1, if_neg (by omega), if_pos h1]
  · rw [channelState_sensor h2, if_neg (by omega), if_neg (by omega), testSchSensor_eq_ite,
      getTarTemp]
    by_cases hz : (schedule tm ipc c).rcnt = 0
    · rw [if_pos hz, if_neg fun h => h.1 hz]
    · simp only [slabcon_eq, hz, if_false, ne_eq, not_false_eq_true, true_and]

theorem channelState_of_not_supported {c : Fin numberOfChannels} (h : ¬ Supported ipc c)
    (state hold : ℤ) :
    (channelState stray tm ipc c (ipc.sysData.cData.get c) state hold).1 = state := by
  simp only [Supported, List.mem_cons, List.not_mem_nil, or_false, not_or] at h
  rw [channelState_eq, if_neg h.1, if_neg h.2.1, if_neg h.2.2]

theorem stateAfter_eq_source (k : ℕ) : stateAfter stray tm ipc garbage hold k =
    match source ipc k with
    | some c => wanted stray hold tm ipc c
    | none => garbage := by
  induction k with
  | zero => rfl
  | succ k ih =>
    by_cases hk : k < numberOfChannels
    · by_cases hs : Supported ipc ⟨k, hk⟩
      · simp only [stateAfter, source, dif_pos hk, if_pos hs]
        exact channelState_of_supported hs _
      · simp only [stateAfter, source, dif_pos hk, if_neg hs]
        rw [← ih]
        exact channelState_of_not_supported hs _ _
    · simp only [stateAfter, source, dif_neg hk]
      exact ih

/-- A pass gives every channel what is asked for it. -/
theorem stateAfter_eq_asked (c : Fin numberOfChannels) :
    stateAfter stray tm ipc garbage hold (c + 1) = asked stray garbage hold tm ipc c :=
  stateAfter_eq_source _

end

/-! ## The pins -/

variable (stray : Stray) (garbage hold : ℤ) (tm : Tm) (ipc : IpcDat) (pins : ℕ → ℤ)

theorem updateRelays_state (c : Fin numberOfChannels) :
    ((updateRelays stray garbage hold tm ipc pins).1.sysData.cData.get c).state =
      asked stray garbage hold tm ipc c := by
  rw [updateRelays_cData, ← stateAfter_eq_asked]

/-- The pin of a channel has the level of what is asked for its last writer. -/
theorem updateRelays_pin (c : Fin numberOfChannels) :
    (updateRelays stray garbage hold tm ipc pins).2.2 (chan.get c) =
      level (asked stray garbage hold tm ipc (lastWriter c)) := by
  have hpins : (updateRelays stray garbage hold tm ipc pins).2.2 =
      pinUpdate (updateRelays stray garbage hold tm ipc pins).1.sysData.cData pins := by
    simp only [updateRelays_eq]
  rw [hpins, pinUpdate_chan, updateRelays_state]

theorem pins_follow_all_iff :
    (∀ c : Fin numberOfChannels, (updateRelays stray garbage hold tm ipc pins).2.2 (chan.get c) =
        ((updateRelays stray garbage hold tm ipc pins).1.sysData.cData.get c).state) ↔
      (∀ c : Fin numberOfChannels, asked stray garbage hold tm ipc c = 0 ∨
        asked stray garbage hold tm ipc c = 1) ∧
      asked stray garbage hold tm ipc 0 = asked stray garbage hold tm ipc 12 := by
  simp only [updateRelays_pin, updateRelays_state]
  constructor
  · intro h
    refine ⟨fun c => h c ▸ level_mem _, ?_⟩
    -- both are the level written for channel 12
    exact (h 0).symm.trans (h 12)
  · rintro ⟨h01, heq⟩ c
    rw [level_eq (h01 _)]
    unfold lastWriter
    split_ifs with h0
    · subst h0
      exact heq.symm
    · rfl

/-- **When the pins follow the states.** A pass completes and leaves every pin with the state of its
channel exactly when its numbers fit an `int` and the modes ask for the states 0 and 1 only, and for
the same state for the channels 0 and 12. -/
theorem pins_follow_iff :
    (∃ r, updateRelaysInt stray garbage hold tm ipc pins = .ok r ∧
        ∀ c : Fin numberOfChannels, r.2.2 (chan.get c) = (r.1.sysData.cData.get c).state) ↔
      InRange stray tm ipc hold ∧
      (∀ c : Fin numberOfChannels, asked stray garbage hold tm ipc c = 0 ∨
        asked stray garbage hold tm ipc c = 1) ∧
      asked stray garbage hold tm ipc 0 = asked stray garbage hold tm ipc 12 :=
  (updateRelaysInt_post_iff pins).trans
    (and_congr_right fun _ => pins_follow_all_iff stray garbage hold tm ipc pins)

/-- Channel 0 switched on by hand, everything else off. -/
def firstOn : IpcDat :=
  { IpcDat.zero with sysData := { SysDat.zero with
      cData := SysDat.zero.cData.set 0 { ChnDat.zero with state := 1 } (Nat.pos_of_neZero _) } }

/-- The pin of channel 0 then stays off. -/
theorem pins_follow_not : ¬ ∀ (stray : Stray) (garbage hold : ℤ) (tm : Tm) (ipc : IpcDat)
    (pins : ℕ → ℤ) (r : IpcDat × ℤ × (ℕ → ℤ)) (c : Fin numberOfChannels),
    updateRelaysInt stray garbage hold tm ipc pins = .ok r →
    r.2.2 (chan.get c) = (r.1.sysData.cData.get c).state := by
  intro hall
  let stray : Stray := ⟨fun _ _ _ => SRec.zero, fun _ _ => 0⟩
  have hrun := @updateRelaysInt_eq stray ⟨0, 0, 0⟩ firstOn 0 0 fun _ => 0
  rw [if_pos (by decide)] at hrun
  have h := hall _ _ _ _ _ _ _ 0 hrun
  rw [updateRelays_pin, updateRelays_state] at h
  exact absurd h (by decide)

end PconTng
