import PconTng.Dcon.UpdateRelays

/-!
# Two runs of the daemon

The only thing a pass remembers for the next one, besides shared memory, is the trend memory of
the slab controller, and all channels share it. Two runs that agree on a channel `c` give it the
same states exactly when, at every pass where the reading of `c` lies in the controller's band, the
reading that was fed to the controller before lies on the same side of it in both runs, and the
numbers of all passes are in the range of an `int` (`isolation_iff`).
-/

namespace PconTng

open CMemory CArray

/-- What a pass finds: the clock, shared memory, and the memory around its arrays and in its local
variable. -/
structure PassInput where
  tm : Tm
  ipc : IpcDat
  stray : Stray
  garbage : ℤ

namespace PassInput

variable (x : PassInput)

/-- The trend memory when the pass comes to channel number `k`. -/
def trend (hold : ℤ) (k : ℕ) : ℤ := trendAt x.stray x.tm x.ipc hold k

/-- The target temperature of a channel. -/
def target (c : Fin numberOfChannels) : ℤ :=
  getTarTemp (x.stray.recs x.tm.tmWday c) x.tm.key (schedule x.tm x.ipc c)

/-- Channel `c` consults the slab controller with a reading for which the trend decides. -/
def InBand (c : Fin numberOfChannels) : Prop :=
  Consults x.tm x.ipc c ∧ reading x.stray x.ipc c < x.target c ∧
    x.target c < reading x.stray x.ipc c + 5

/-- The numbers of the pass fit an `int`. -/
def Fits (hold : ℤ) : Prop := InRange x.stray x.tm x.ipc hold

/-- The state that the pass gives to a channel, with all integers. -/
def state (hold : ℤ) (c : Fin numberOfChannels) : ℤ :=
  ((updateRelays x.stray x.garbage hold x.tm x.ipc fun _ => 0).1.sysData.cData.get c).state

end PassInput

/-- The states that the passes of a run give to a channel, the first one starting with the trend
memory `hold`. -/
def states (c : Fin numberOfChannels) : ℤ → List PassInput → Except Stop (List ℤ)
  | _, [] => .ok []
  | hold, x :: xs => do
    let (ipc, hold, _) ← updateRelaysInt x.stray x.garbage hold x.tm x.ipc fun _ => 0
    let later ← states c hold xs
    return (ipc.sysData.cData.get c).state :: later

/-- The numbers of all passes of a run fit an `int`. -/
def RunFits : ℤ → List PassInput → Prop
  | _, [] => True
  | hold, x :: xs => x.Fits hold ∧ RunFits (x.trend hold numberOfChannels) xs

/-- The passes have the same time and agree on everything that belongs to channel `c`, which is in
a supported mode. -/
structure AgreeOn (c : Fin numberOfChannels) (x y : PassInput) : Prop where
  tm : x.tm = y.tm
  mode : (x.ipc.sysData.cData.get c).mode = (y.ipc.sysData.cData.get c).mode
  supported : (x.ipc.sysData.cData.get c).mode ∈ [(0 : ℤ), 1, 2]
  manual : (x.ipc.sysData.cData.get c).mode = 0 →
    (x.ipc.sysData.cData.get c).state = (y.ipc.sysData.cData.get c).state
  schedule : schedule x.tm x.ipc c = schedule y.tm y.ipc c
  reading : reading x.stray x.ipc c = reading y.stray y.ipc c
  stray : x.stray.recs x.tm.tmWday c = y.stray.recs y.tm.tmWday c

/-- At every pass where the trend decides on channel `c`, the reading that was last fed to the
controller before is above that of `c` in both runs or in neither. -/
def SameTrend (c : Fin numberOfChannels) : ℤ → ℤ → List PassInput → List PassInput → Prop
  | hold, hold', x :: xs, y :: ys =>
    (x.InBand c →
      (x.trend hold c > reading x.stray x.ipc c ↔ y.trend hold' c > reading y.stray y.ipc c)) ∧
    SameTrend c (x.trend hold numberOfChannels) (y.trend hold' numberOfChannels) xs ys
  | _, _, _, _ => True

variable {c : Fin numberOfChannels}

theorem PassInput.state_eq (x : PassInput) (hold : ℤ) :
    x.state hold c = (channelState x.stray x.tm x.ipc c (x.ipc.sysData.cData.get c)
      (stateAfter x.stray x.tm x.ipc x.garbage hold c) (x.trend hold c)).1 := by
  rw [PassInput.state, updateRelays_cData]
  simp only [stateAfter, dif_pos c.isLt]
  rfl

/-- What a channel that consults the controller gets. -/
theorem PassInput.state_of_consults (x : PassInput) (hold : ℤ) (h : Consults x.tm x.ipc c) :
    x.state hold c =
      if demand (x.trend hold c) (x.target c) (reading x.stray x.ipc c) then 1 else 0 := by
  rw [x.state_eq, channelState_sensor h.1, testSchSensor_eq_ite, if_neg h.2, slabcon_eq,
    PassInput.target, getTarTemp, if_neg h.2]

theorem AgreeOn.consults_iff {x y : PassInput} (h : AgreeOn c x y) :
    Consults x.tm x.ipc c ↔ Consults y.tm y.ipc c := by
  rw [Consults, Consults, h.mode, h.schedule]

theorem AgreeOn.target_eq {x y : PassInput} (h : AgreeOn c x y) : x.target c = y.target c := by
  rw [PassInput.target, PassInput.target, h.schedule, h.stray, h.tm]

/-- A channel that does not consult the controller gets the same state in both runs. -/
theorem AgreeOn.state_eq_of_not_consults {x y : PassInput} (h : AgreeOn c x y)
    (hc : ¬ Consults x.tm x.ipc c) (hold hold' : ℤ) : x.state hold c = y.state hold' c := by
  have hmode := h.supported
  simp only [List.mem_cons, List.not_mem_nil, or_false] at hmode
  rw [x.state_eq, y.state_eq]
  rcases hmode with h0 | h1 | h2
  · rw [channelState_manual h0, channelState_manual (h.mode ▸ h0), h.manual h0]
  · rw [channelState_time h1, channelState_time (h.mode ▸ h1), h.schedule, h.stray, h.tm]
  · have hempty : (PconTng.schedule x.tm x.ipc c).rcnt = 0 := by
      by_contra hne
      exact hc ⟨h2, hne⟩
    rw [channelState_sensor h2, channelState_sensor (h.mode ▸ h2), testSchSensor_eq_ite,
      testSchSensor_eq_ite,
      ← h.schedule, if_pos hempty, if_pos hempty]

/-- One pass of both runs. -/
theorem AgreeOn.state_eq_iff {x y : PassInput} (h : AgreeOn c x y) (hold hold' : ℤ) :
    x.state hold c = y.state hold' c ↔ (x.InBand c →
      (x.trend hold c > PconTng.reading x.stray x.ipc c ↔
        y.trend hold' c > PconTng.reading y.stray y.ipc c)) := by
  by_cases hc : Consults x.tm x.ipc c
  · rw [x.state_of_consults hold hc, y.state_of_consults hold' (h.consults_iff.1 hc),
      ← h.target_eq, ← h.reading]
    have hif : ∀ (p q : Prop) [Decidable p] [Decidable q],
        ((if p then (1 : ℤ) else 0) = if q then 1 else 0) ↔ (p ↔ q) := by
      intro p q _ _
      by_cases hp : p <;> by_cases hq : q <;> simp [hp, hq]
    rw [hif]
    by_cases hb : PconTng.reading x.stray x.ipc c < x.target c ∧
        x.target c < PconTng.reading x.stray x.ipc c + 5
    · rw [demand_iff_of_band hb, demand_iff_of_band hb]
      exact ⟨fun he _ => he, fun he => he ⟨hc, hb⟩⟩
    · exact iff_of_true (demand_iff_of_not_band hb _ _) fun hin => absurd hin.2 hb
  · exact iff_of_true (h.state_eq_of_not_consults hc hold hold') fun hin => absurd hin.1 hc

/-- What a run begins with, if it has a first pass. -/
theorem states_cons {x : PassInput} {xs : List PassInput} {hold : ℤ} {l : List ℤ} :
    states c hold (x :: xs) = .ok l ↔ x.Fits hold ∧ ∃ later,
      states c (x.trend hold numberOfChannels) xs = .ok later ∧ l = x.state hold c :: later := by
  rw [states, updateRelaysInt_eq]
  by_cases h : x.Fits hold
  · rw [if_pos (show InRange _ _ _ _ from h), and_iff_right h]
    have hhold : (updateRelays x.stray x.garbage hold x.tm x.ipc fun _ => 0).2.1 =
        x.trend hold numberOfChannels := updateRelays_hold _
    rw [← hhold, PassInput.state]
    generalize updateRelays x.stray x.garbage hold x.tm x.ipc (fun _ => 0) = r
    constructor
    · intro hl
      obtain ⟨_, hr, hl⟩ := bind_eq_ok.1 hl
      cases hr
      obtain ⟨later, hlater, hl⟩ := bind_eq_ok.1 hl
      cases hl
      exact ⟨later, hlater, rfl⟩
    · rintro ⟨later, hlater, rfl⟩
      exact bind_eq_ok.2 ⟨r, rfl, bind_eq_ok.2 ⟨later, hlater, rfl⟩⟩
  · rw [if_neg (show ¬ InRange _ _ _ _ from h)]
    exact iff_of_false nofun fun hl => h hl.1

/-- **Channel isolation.** Two runs that agree on channel `c` at every pass complete and give it the
same states exactly when all their numbers fit an `int` and the trend memory agrees wherever it
decides on `c`. -/
theorem isolation_iff {xs ys : List PassInput} (h : List.Forall₂ (AgreeOn c) xs ys)
    (hold hold' : ℤ) : (∃ l, states c hold xs = .ok l ∧ states c hold' ys = .ok l) ↔
      RunFits hold xs ∧ RunFits hold' ys ∧ SameTrend c hold hold' xs ys := by
  induction h generalizing hold hold' with
  | nil => exact iff_of_true ⟨[], rfl, rfl⟩ ⟨trivial, trivial, trivial⟩
  | @cons x y xs ys hxy _ ih =>
    have hpass := hxy.state_eq_iff hold hold'
    have hrest := ih (x.trend hold numberOfChannels) (y.trend hold' numberOfChannels)
    simp only [states_cons, RunFits, SameTrend]
    constructor
    · rintro ⟨l, ⟨hx, later, hlater, rfl⟩, hy, later', hlater', hl⟩
      obtain ⟨hstate, rfl⟩ := List.cons.inj hl
      obtain ⟨hxs, hys, htrend⟩ := hrest.1 ⟨later, hlater, hlater'⟩
      exact ⟨⟨hx, hxs⟩, ⟨hy, hys⟩, hpass.1 hstate, htrend⟩
    · rintro ⟨⟨hx, hxs⟩, ⟨hy, hys⟩, hband, htrend⟩
      obtain ⟨later, hlater, hlater'⟩ := hrest.2 ⟨hxs, hys, htrend⟩
      exact ⟨_, ⟨hx, later, hlater, rfl⟩, hy, later, hlater', by rw [hpass.2 hband]⟩

/-- A pass at midnight in which every schedule asks for 22 degrees all day. Channel 0 is in the
given mode and its sensor reads 30 degrees; channel 1 is controlled by a sensor that reads 20. -/
def slabs (mode : ℤ) : PassInput where
  tm := .midnight
  ipc :=
    { IpcDat.zero with
      sysData := { SysDat.zero with
        sysSch := .replicate _ (.replicate _ { TmplDat.zero with
          rcnt := 1, recs := TmplDat.zero.recs.set 0 ⟨0, 1, 22, 0⟩ })
        cData := (SysDat.zero.cData.set 0 { ChnDat.zero with mode := mode }).set 1
          { ChnDat.zero with mode := 2, sensorId := 1 } }
      sDat := (IpcDat.zero.sDat.set 0 { SenDat.zero with temp := 30 }).set 1
        { SenDat.zero with temp := 20 } }
  stray := ⟨fun _ _ _ => SRec.zero, fun _ _ => 0⟩
  garbage := 0

theorem agreeOn_slabs (mode mode' : ℤ) : AgreeOn 1 (slabs mode) (slabs mode') :=
  ⟨rfl, rfl, List.mem_cons_of_mem _ (List.mem_cons_of_mem _ List.mem_cons_self), fun _ => rfl, rfl,
    rfl, rfl⟩

theorem fits_slabs : ∀ mode ∈ [(0 : ℤ), 1, 2], (slabs mode).Fits 0 := by
  unfold PassInput.Fits
  decide

/-- Whether channel 0 is controlled by hand or by time does not show in channel 1. -/
theorem isolation_slabs : ∃ l, states 1 0 [slabs 0] = .ok l ∧ states 1 0 [slabs 1] = .ok l :=
  (isolation_iff (.cons (agreeOn_slabs 0 1) .nil) 0 0).2
    ⟨⟨fits_slabs 0 (by decide), trivial⟩, ⟨fits_slabs 1 (by decide), trivial⟩, fun _ => by decide,
      trivial⟩

/-- Whether channel 0 is controlled by a sensor does. -/
theorem isolation_broken : ¬ ∀ (c : Fin numberOfChannels) (xs ys : List PassInput) (l l' : List ℤ),
    (∀ x ∈ xs ++ ys, ∀ k : Fin numberOfChannels,
      (x.ipc.sysData.cData.get k).mode ∈ [(0 : ℤ), 1, 2]) →
    List.Forall₂ (AgreeOn c) xs ys → states c 0 xs = .ok l → states c 0 ys = .ok l' → l = l' := by
  intro hall
  have hmodes : ∀ x ∈ [slabs 0] ++ [slabs 2], ∀ k : Fin numberOfChannels,
      (x.ipc.sysData.cData.get k).mode ∈ [(0 : ℤ), 1, 2] := by decide
  have hx : states 1 0 [slabs 0] = .ok [(slabs 0).state 0 1] :=
    states_cons.2 ⟨fits_slabs 0 (by decide), [], rfl, rfl⟩
  have hy : states 1 0 [slabs 2] = .ok [(slabs 2).state 0 1] :=
    states_cons.2 ⟨fits_slabs 2 (by decide), [], rfl, rfl⟩
  have heq := hall 1 _ _ _ _ hmodes (.cons (agreeOn_slabs 0 2) .nil) hx hy
  have hiff := ((agreeOn_slabs 0 2).state_eq_iff 0 0).1 (List.head_eq_of_cons_eq heq)
    ⟨by decide, by decide, by decide⟩
  exact absurd hiff (by decide)

end PconTng
