import PconTng.Dcon.Isolation
import PconTng.Dcon.Pins

/-!
# Two passes in succession

The slab controller compares the readings of its last two calls, so a pass that is repeated at once
starts with another trend than the first one did. Only the first channel that consults the
controller can see it: the trend of all others is against a channel of the same pass. `repeat_iff`
says when the second pass leaves the states alone, and `third_pass` that all further ones do, as
long as the numbers of the passes are in the range of an `int`.
-/

namespace PconTng

open CMemory CArray

/-- What a second pass finds after the first one. -/
def PassInput.again (x : PassInput) (hold garbage : ℤ) : PassInput :=
  ⟨x.tm, (updateRelays x.stray x.garbage hold x.tm x.ipc fun _ => 0).1, x.stray, garbage⟩

/-- The trend memory that a pass leaves. -/
def PassInput.left (x : PassInput) (hold : ℤ) : ℤ :=
  (updateRelays x.stray x.garbage hold x.tm x.ipc fun _ => 0).2.1

/-- Channel `c` is the first one that consults the slab controller. -/
def PassInput.FirstConsults (x : PassInput) (c : Fin numberOfChannels) : Prop :=
  Consults x.tm x.ipc c ∧ ∀ k < c, ¬ Consults x.tm x.ipc k

/-- Channel `c` is the last one that consults the slab controller. -/
def PassInput.LastConsults (x : PassInput) (c : Fin numberOfChannels) : Prop :=
  Consults x.tm x.ipc c ∧ ∀ k, c < k → ¬ Consults x.tm x.ipc k

/-! ## The trend within a pass -/

section

variable (stray : Stray) {tm : Tm} {ipc : IpcDat} {hold : ℤ} {n : ℕ}

variable (tm ipc hold) in
theorem trendAt_succ (k : Fin numberOfChannels) : trendAt stray tm ipc hold (k + 1) =
    if Consults tm ipc k then reading stray ipc k else trendAt stray tm ipc hold k := by
  simp only [trendAt, dif_pos k.isLt]

/-- Before the first channel that consults the controller the trend memory is as it was. -/
theorem trendAt_of_none (hn : n ≤ numberOfChannels)
    (h : ∀ k : Fin numberOfChannels, k.val < n → ¬ Consults tm ipc k) :
    trendAt stray tm ipc hold n = hold := by
  induction n with
  | zero => rfl
  | succ n ih =>
    have hstep := trendAt_succ stray tm ipc hold ⟨n, hn⟩
    rw [if_neg (h ⟨n, hn⟩ (Nat.lt_succ_self n))] at hstep
    exact hstep.trans (ih (by omega) fun k hk => h k (by omega))

/-- Behind a channel that consults the controller the trend memory has a reading of this pass. -/
theorem trendAt_of_some (hn : n ≤ numberOfChannels) {k : Fin numberOfChannels} (hk : k.val < n)
    (h : Consults tm ipc k) : ∃ d : Fin numberOfChannels, Consults tm ipc d ∧ d.val < n ∧
      (∀ j : Fin numberOfChannels, d < j → j.val < n → ¬ Consults tm ipc j) ∧
      ∀ hold, trendAt stray tm ipc hold n = reading stray ipc d := by
  induction n with
  | zero => exact absurd hk (Nat.not_lt_zero _)
  | succ n ih =>
    by_cases hc : Consults tm ipc ⟨n, hn⟩
    · refine ⟨⟨n, hn⟩, hc, Nat.lt_succ_self n, fun j hj hjn => absurd hj ?_, fun hold => ?_⟩
      · rw [Fin.lt_def]
        dsimp only
        omega
      · exact (trendAt_succ stray tm ipc hold ⟨n, hn⟩).trans (if_pos hc)
    · have hkn : k.val < n := by
        rcases Nat.lt_succ_iff_lt_or_eq.1 hk with hlt | rfl
        · exact hlt
        · exact absurd h hc
      obtain ⟨d, hd, hdn, hlast, htrend⟩ := ih (by omega) hkn
      refine ⟨d, hd, by omega, fun j hj hjn => ?_, fun hold => ?_⟩
      · rcases Nat.lt_succ_iff_lt_or_eq.1 hjn with hlt | rfl
        · exact hlast j hj hlt
        · exact hc
      · exact ((trendAt_succ stray tm ipc hold ⟨n, hn⟩).trans (if_neg hc)).trans (htrend hold)

/-- The trend memory depends on what channels consult the controller, and on their readings. -/
theorem trendAt_congr {ipc' : IpcDat} (hc : ∀ k, Consults tm ipc k ↔ Consults tm ipc' k)
    (hr : ∀ k, reading stray ipc k = reading stray ipc' k) (n : ℕ) :
    trendAt stray tm ipc hold n = trendAt stray tm ipc' hold n := by
  induction n with
  | zero => rfl
  | succ n ih => simp only [trendAt, hc, hr, ih]

end

/-! ## The second pass -/

variable {x : PassInput} {c : Fin numberOfChannels}

theorem PassInput.again_cData (x : PassInput) (hold garbage : ℤ) (c : Fin numberOfChannels) :
    (x.again hold garbage).ipc.sysData.cData.get c =
      { x.ipc.sysData.cData.get c with state := x.state hold c } := by
  rw [PassInput.again, PassInput.state, updateRelays_cData]

theorem PassInput.again_tm (x : PassInput) (hold garbage : ℤ) :
    (x.again hold garbage).tm = x.tm := by
  simp only [PassInput.again]

theorem PassInput.again_stray (x : PassInput) (hold garbage : ℤ) :
    (x.again hold garbage).stray = x.stray := by
  simp only [PassInput.again]

theorem PassInput.again_sysSch (x : PassInput) (hold garbage : ℤ) :
    (x.again hold garbage).ipc.sysData.sysSch = x.ipc.sysData.sysSch := by
  simp only [PassInput.again, updateRelays_eq]

theorem PassInput.again_sDat (x : PassInput) (hold garbage : ℤ) :
    (x.again hold garbage).ipc.sDat = x.ipc.sDat := by
  simp only [PassInput.again, updateRelays_eq]

theorem PassInput.again_schedule (x : PassInput) (hold garbage : ℤ) (c : Fin numberOfChannels) :
    schedule x.tm (x.again hold garbage).ipc c = schedule x.tm x.ipc c := by
  simp only [schedule, x.again_sysSch]

theorem PassInput.again_consults (x : PassInput) (hold garbage : ℤ) (c : Fin numberOfChannels) :
    Consults x.tm (x.again hold garbage).ipc c ↔ Consults x.tm x.ipc c := by
  simp only [Consults, x.again_schedule, x.again_cData]

theorem PassInput.again_reading (x : PassInput) (hold garbage : ℤ) (c : Fin numberOfChannels) :
    reading x.stray (x.again hold garbage).ipc c = reading x.stray x.ipc c := by
  simp only [reading, temperature, x.again_sDat, x.again_cData]

theorem PassInput.again_trend (x : PassInput) (hold garbage hold' : ℤ) (n : ℕ) :
    trendAt x.stray x.tm (x.again hold garbage).ipc hold' n = x.trend hold' n :=
  trendAt_congr x.stray (x.again_consults hold garbage) (x.again_reading hold garbage) n

/-- The two passes agree on a channel in a supported mode. -/
theorem agreeOn_again (h : Supported x.ipc c) (hold garbage : ℤ) :
    AgreeOn c x (x.again hold garbage) := by
  refine ⟨?_, ?_, h, ?_, ?_, ?_, ?_⟩
  · rw [x.again_tm]
  · rw [x.again_cData]
  · intro h0
    rw [x.again_cData, x.state_eq, channelState_manual h0]
  · rw [x.again_tm, x.again_schedule]
  · rw [x.again_stray, x.again_reading]
  · rw [x.again_stray, x.again_tm]

/-- What the second pass makes of a channel, with the trend memory that the first pass leaves. -/
theorem again_state_iff (h : Supported x.ipc c) (hold hold' garbage : ℤ) :
    (x.again hold garbage).state hold' c = x.state hold c ↔ (x.InBand c →
      (x.trend hold c > reading x.stray x.ipc c ↔
        x.trend hold' c > reading x.stray x.ipc c)) := by
  rw [eq_comm, (agreeOn_again h hold garbage).state_eq_iff, PassInput.trend, PassInput.trend,
    x.again_stray, x.again_tm, x.again_reading, x.again_trend, PassInput.trend]

/-- A channel behind one that consults the controller sees the same trend in every pass. -/
theorem trend_eq_of_not_first (hc : Consults x.tm x.ipc c) (h : ¬ x.FirstConsults c)
    (hold hold' : ℤ) : x.trend hold c = x.trend hold' c := by
  have hbefore : ∃ k < c, Consults x.tm x.ipc k := by
    by_contra hnone
    push Not at hnone
    exact h ⟨hc, hnone⟩
  obtain ⟨k, hk, hcons⟩ := hbefore
  obtain ⟨d, -, -, -, htrend⟩ := trendAt_of_some x.stray c.isLt.le hk hcons
  exact (htrend hold).trans (htrend hold').symm

theorem trend_of_first (h : x.FirstConsults c) (hold : ℤ) : x.trend hold c = hold :=
  trendAt_of_none x.stray c.isLt.le h.2

/-- The pass leaves the reading of the last channel that consulted the controller. -/
theorem trend_of_consults (h : Consults x.tm x.ipc c) : ∃ d, x.LastConsults d ∧
    ∀ hold, x.trend hold numberOfChannels = reading x.stray x.ipc d := by
  obtain ⟨d, hd, -, hlast, htrend⟩ := trendAt_of_some x.stray le_rfl c.isLt h
  exact ⟨d, ⟨hd, fun k hk => hlast k hk k.isLt⟩, htrend⟩

theorem lastConsults_unique {d d' : Fin numberOfChannels} (h : x.LastConsults d)
    (h' : x.LastConsults d') : d = d' := by
  rcases lt_trichotomy d d' with hlt | heq | hlt
  · exact absurd h'.1 (h.2 d' hlt)
  · exact heq
  · exact absurd h.1 (h'.2 d hlt)

theorem PassInput.left_eq (x : PassInput) (hold : ℤ) :
    x.left hold = x.trend hold numberOfChannels := by
  rw [PassInput.left, updateRelays_hold, PassInput.trend]

/-- The second pass computes with the numbers of the first one, up to the trend. -/
theorem again_fits (x : PassInput) (hold hold' garbage : ℤ) :
    (x.again hold garbage).Fits hold' ↔ x.Fits hold' := by
  unfold PassInput.Fits InRange FitsAt
  simp only [x.again_stray, x.again_tm, x.again_cData, x.again_reading, x.again_schedule,
    x.again_trend, PassInput.trend]

/-- With all integers, a second pass leaves all channels in their states exactly when the first one
that consults the controller sees the same trend. -/
theorem repeat_all_iff (x : PassInput) (hold garbage : ℤ) (hmodes : ∀ c, Supported x.ipc c) :
    (∀ c, (x.again hold garbage).state (x.left hold) c = x.state hold c) ↔
      ∀ c d, x.FirstConsults c → x.LastConsults d → x.InBand c →
        (hold > reading x.stray x.ipc c ↔
          reading x.stray x.ipc d > reading x.stray x.ipc c) := by
  simp only [again_state_iff (hmodes _), x.left_eq]
  constructor
  · intro h c d hfirst hlast hband
    have hc := h c hband
    obtain ⟨d', hlast', htrend⟩ := trend_of_consults hfirst.1
    rwa [trend_of_first hfirst, trend_of_first hfirst, htrend, lastConsults_unique hlast' hlast]
      at hc
  · intro h c hband
    by_cases hfirst : x.FirstConsults c
    · obtain ⟨d, hlast, htrend⟩ := trend_of_consults hfirst.1
      rw [trend_of_first hfirst, trend_of_first hfirst, htrend]
      exact h c d hfirst hlast hband
    · rw [trend_eq_of_not_first hband.1 hfirst hold (x.trend hold numberOfChannels)]

/-- The states of the channels. -/
def stateOf (ipc : IpcDat) (c : Fin numberOfChannels) : ℤ := (ipc.sysData.cData.get c).state

/-- What holds of the states after two passes in succession, as C runs them. -/
theorem twice_iff (x : PassInput) (hold garbage : ℤ) (pins : ℕ → ℤ)
    {P : (Fin numberOfChannels → ℤ) → (Fin numberOfChannels → ℤ) → Prop} :
    (∃ r, updateRelaysInt x.stray x.garbage hold x.tm x.ipc pins = .ok r ∧
      ∃ r', updateRelaysInt x.stray garbage r.2.1 x.tm r.1 r.2.2 = .ok r' ∧
        P (stateOf r.1) (stateOf r'.1)) ↔
      x.Fits hold ∧ x.Fits (x.left hold) ∧
        P (x.state hold) ((x.again hold garbage).state (x.left hold)) := by
  have hstate : stateOf (updateRelays x.stray x.garbage hold x.tm x.ipc pins).1 = x.state hold := by
    funext c
    rw [stateOf, PassInput.state, updateRelays_state, updateRelays_state]
  have hipc : (updateRelays x.stray x.garbage hold x.tm x.ipc pins).1 =
      (x.again hold garbage).ipc := by
    simp only [PassInput.again, updateRelays_eq]
  have hleft : (updateRelays x.stray x.garbage hold x.tm x.ipc pins).2.1 = x.left hold := by
    rw [PassInput.left, updateRelays_hold, updateRelays_hold]
  have hagain : ∀ pins', stateOf (updateRelays x.stray garbage (x.left hold) x.tm
      (x.again hold garbage).ipc pins').1 = (x.again hold garbage).state (x.left hold) := by
    intro pins'
    funext c
    rw [stateOf, PassInput.state, updateRelays_state, updateRelays_state, x.again_stray, x.again_tm]
    rfl
  have hfits := again_fits x hold (x.left hold) garbage
  rw [PassInput.Fits, x.again_stray, x.again_tm] at hfits
  rw [updateRelaysInt_post_iff, hipc, hleft, updateRelaysInt_post_iff, hfits, hagain, ← hipc,
    hstate]
  rfl

/-- **When a repeated pass is neutral.** If all modes are supported, two passes in succession
complete and the second one leaves all channels in their states exactly when the numbers of both fit
an `int` and the first channel that consults the slab controller, if its reading is in the band,
sees the same trend against the reading remembered from before as against the last reading of the
first pass. -/
theorem repeat_iff (x : PassInput) (hold garbage : ℤ) (pins : ℕ → ℤ)
    (hmodes : ∀ c, Supported x.ipc c) :
    (∃ r, updateRelaysInt x.stray x.garbage hold x.tm x.ipc pins = .ok r ∧
      ∃ r', updateRelaysInt x.stray garbage r.2.1 x.tm r.1 r.2.2 = .ok r' ∧
        ∀ c, (r'.1.sysData.cData.get c).state = (r.1.sysData.cData.get c).state) ↔
      x.Fits hold ∧ x.Fits (x.trend hold numberOfChannels) ∧
      ∀ c d, x.FirstConsults c → x.LastConsults d → x.InBand c →
        (hold > reading x.stray x.ipc c ↔
          reading x.stray x.ipc d > reading x.stray x.ipc c) := by
  rw [← repeat_all_iff x hold garbage hmodes, ← x.left_eq]
  exact twice_iff x hold garbage pins (P := fun s s' => ∀ c, s' c = s c)

/-- The second pass leaves the trend memory that it has found, if any channel consults the
controller. -/
theorem left_again (hc : Consults x.tm x.ipc c) (hold garbage : ℤ) :
    (x.again hold garbage).left (x.left hold) = x.left hold := by
  obtain ⟨d, -, htrend⟩ := trend_of_consults hc
  rw [PassInput.left_eq, PassInput.trend, x.again_stray, x.again_tm, x.again_trend, x.left_eq,
    htrend, htrend]

/-- All further passes are neutral. -/
theorem third_pass (x : PassInput) (hold garbage garbage' : ℤ) (hmodes : ∀ c, Supported x.ipc c)
    (c : Fin numberOfChannels) :
    ((x.again hold garbage).again (x.left hold) garbage').state
        ((x.again hold garbage).left (x.left hold)) c =
      (x.again hold garbage).state (x.left hold) c := by
  have hmode : Supported (x.again hold garbage).ipc c := by
    unfold Supported
    rw [x.again_cData]
    exact hmodes c
  refine (again_state_iff hmode _ _ _).2 fun hband => ?_
  have hc : Consults x.tm x.ipc c := by
    rw [← x.again_consults hold garbage, ← x.again_tm hold garbage]
    exact hband.1
  rw [left_again hc, x.again_stray]

/-- The slabs of `slabs 0`, where only channel 1 consults the controller. -/
theorem consults_slabs : ∀ c, Consults (slabs 0).tm (slabs 0).ipc c → c = 1 := by decide

/-- Coming from below, the reading of channel 1 leaves it off, and off it stays. -/
theorem repeat_slabs : ∃ r,
    updateRelaysInt (slabs 0).stray 0 0 (slabs 0).tm (slabs 0).ipc (fun _ => 0) = .ok r ∧
    ∃ r', updateRelaysInt (slabs 0).stray 0 r.2.1 (slabs 0).tm r.1 r.2.2 = .ok r' ∧
      ∀ c, (r'.1.sysData.cData.get c).state = (r.1.sysData.cData.get c).state := by
  refine (repeat_iff (slabs 0) 0 0 (fun _ => 0) (by decide)).2
    ⟨fits_slabs 0 (by decide), by unfold PassInput.Fits; decide, fun c d hc hd _ => ?_⟩
  rw [consults_slabs c hc.1, consults_slabs d hd.1]
  decide

/-- Coming from above, the reading switches channel 1 on, and a second pass off. -/
theorem repeat_switches : ¬ ∀ (x : PassInput) (hold garbage : ℤ) (pins : ℕ → ℤ)
    (r r' : IpcDat × ℤ × (ℕ → ℤ)), (∀ c, Supported x.ipc c) →
    updateRelaysInt x.stray x.garbage hold x.tm x.ipc pins = .ok r →
    updateRelaysInt x.stray garbage r.2.1 x.tm r.1 r.2.2 = .ok r' →
    ∀ c, (r'.1.sysData.cData.get c).state = (r.1.sysData.cData.get c).state := by
  intro hall
  have hmodes : ∀ c, Supported (slabs 0).ipc c := by decide
  have hfits : (slabs 0).Fits 30 ∧ (slabs 0).Fits ((slabs 0).trend 30 numberOfChannels) := by
    unfold PassInput.Fits
    decide
  rw [← PassInput.left_eq] at hfits
  obtain ⟨r, hr, r', hr', hs, hs'⟩ := (twice_iff (slabs 0) 30 0 (fun _ => 0)
    (P := fun s s' => s = (slabs 0).state 30 ∧
      s' = ((slabs 0).again 30 0).state ((slabs 0).left 30))).2 ⟨hfits.1, hfits.2, rfl, rfl⟩
  have hkept : ((slabs 0).again 30 0).state ((slabs 0).left 30) 1 = (slabs 0).state 30 1 := by
    rw [← hs, ← hs']
    exact hall (slabs 0) 30 0 _ r r' hmodes hr hr' 1
  have hiff := (again_state_iff (hmodes 1) 30 _ 0).1 hkept ⟨by decide, by decide, by decide⟩
  rw [PassInput.left_eq] at hiff
  exact absurd hiff (by decide)

end PconTng
