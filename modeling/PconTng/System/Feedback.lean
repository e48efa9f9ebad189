import PconTng.Dcon.Modes
import PconTng.Esp8266.Post
import PconTng.System.Switch

/-!
# From a thermometer to a relay

A channel in mode "time & sensor" is switched by the readings of its sensor, which go through all
parts of the system: the sensor posts them, Scon stores them in shared memory, and the passes of the
daemon compare them with the target of the schedule.

A pass that finds the target five degrees above the last reading switches the channel on, and one
that finds it not above the reading switches it off, whatever other sensors post and in whatever
order the passes and the posts come (`reading_switches`). What the daemon compares is the reading in
whole degrees; the rounding of Scon does not reach these (`intOfFloat_storedTemp`).
-/

namespace PconTng.Feedback

open CMemory CArray Esp8266 Switch
open Scon (Host)

/-! ## The readings -/

/-- The whole degrees Fahrenheit of a temperature in tenths of a degree centigrade. -/
def degrees (temp : ℤ) : ℤ := (18 * temp + 3200).tdiv 100

theorem intOfFloat_of_nonneg {x : ℚ} (h : 0 ≤ x) : intOfFloat x = ⌊x⌋ := by
  rw [intOfFloat, Int.tdiv_eq_ediv_of_nonneg (Rat.num_nonneg.2 h), Rat.floor_def']

theorem intOfFloat_of_nonpos {x : ℚ} (h : x ≤ 0) : intOfFloat x = ⌈x⌉ := by
  have hneg : intOfFloat (-x) = -intOfFloat x := by
    rw [intOfFloat, intOfFloat, Rat.neg_num, Rat.neg_den, Int.neg_tdiv]
  rw [← neg_inj, ← hneg, intOfFloat_of_nonneg (neg_nonneg.2 h), Int.floor_neg]

/-- An even number of hundredths that is not whole is at least two of them away from the next whole
number, so a small error does not change its conversion. -/
theorem intOfFloat_of_near {x : ℚ} {a : ℤ} (heven : 2 ∣ a) (hwhole : ¬ 100 ∣ a)
    (hx : |x - a / 100| < 1 / 50) : intOfFloat x = a.tdiv 100 := by
  obtain ⟨hlow, hhigh⟩ := abs_lt.1 hx
  obtain hneg | hpos := lt_or_ge a 0
  · have hmod : -a = 100 * (-a / 100) + -a % 100 := by omega
    have hr : 2 ≤ -a % 100 ∧ -a % 100 ≤ 98 := by omega
    have hq : 0 ≤ -a / 100 := by omega
    have htdiv : a.tdiv 100 = -(-a / 100) := by
      rw [← Int.tdiv_eq_ediv_of_nonneg (by omega), Int.neg_tdiv, neg_neg]
    generalize -a / 100 = q at hmod hq htdiv
    generalize -a % 100 = r at hmod hr
    have ha : (a : ℚ) = -(100 * q + r) := by exact_mod_cast neg_eq_iff_eq_neg.1 hmod
    have hr' : (2 : ℚ) ≤ r ∧ (r : ℚ) ≤ 98 := by exact_mod_cast hr
    have hq' : (0 : ℚ) ≤ q := by exact_mod_cast hq
    rw [ha] at hlow hhigh
    rw [intOfFloat_of_nonpos (by linarith), htdiv, Int.ceil_eq_iff]
    push_cast
    constructor <;> linarith
  · have hmod : a = 100 * (a / 100) + a % 100 := by omega
    have hr : 2 ≤ a % 100 ∧ a % 100 ≤ 98 := by omega
    have hq : 0 ≤ a / 100 := by omega
    rw [Int.tdiv_eq_ediv_of_nonneg hpos]
    generalize a / 100 = q at hmod hq
    generalize a % 100 = r at hmod hr
    have ha : (a : ℚ) = 100 * q + r := by exact_mod_cast hmod
    have hr' : (2 : ℚ) ≤ r ∧ (r : ℚ) ≤ 98 := by exact_mod_cast hr
    have hq' : (0 : ℚ) ≤ q := by exact_mod_cast hq
    rw [ha] at hlow hhigh
    rw [intOfFloat_of_nonneg (by linarith), Int.floor_eq_iff]
    constructor <;> linarith

/-- The stored temperature has the whole degrees of the reading. -/
theorem intOfFloat_storedTemp {host : Host} (hhost : Rounds host) {p : Sample} (hp : p.Measured)
    (hthrough : p.ComesThrough) : intOfFloat (p.storedTemp host) = degrees p.temp := by
  have htemp := hp.temp
  have hnear := hp.near_temp hhost
  have hwhole := hthrough.2.1
  rw [Near, Sample.fahrenheit_eq] at hnear
  refine intOfFloat_of_near (by omega) (by omega) (hnear.trans_lt ?_)
  have habs : |((18 * p.temp + 3200 : ℤ) : ℚ) / 100| ≤ 6000 := by
    rw [abs_div, abs_of_pos (by norm_num : (0 : ℚ) < 100), div_le_iff₀ (by norm_num),
      ← Int.cast_abs]
    have hint : |18 * p.temp + 3200| ≤ 6000 * 100 := abs_le.2 ⟨by omega, by omega⟩
    exact_mod_cast hint
  linarith

/-- The target is five degrees above a reading, which switches on, or not above it, which switches
off, whatever the trend is. -/
def Fits (v : Bool) (T target : ℤ) : Prop := if v then T + 5 ≤ target else target ≤ T

theorem demand_of_fits {v : Bool} {T target : ℤ} (h : Fits v T target) (hold : ℤ) :
    demand hold target T ↔ v := by
  cases v with
  | true =>
    have hfits : T + 5 ≤ target := h
    simp only [demand, hSetback, iff_true]
    split_ifs <;> omega
  | false =>
    have hfits : target ≤ T := h
    simp only [demand, hSetback, Bool.false_eq_true, iff_false]
    split_ifs <;> omega

/-! ## Posts and passes -/

/-- What happens to the board: a pass of the daemon, or the post of a sensor. -/
inductive Event
  | pass (p : Turn)
  | post (p : Sample)

/-- A post that is lost changes nothing. -/
def step (host : Host) (b : Board) : Event → Except Stop Board
  | .pass p => Switch.pass b p
  | .post p =>
    .ok ({ b.1 with sDat := (serve host p.now p.message b.1.sDat).getD b.1.sDat }, b.2)

/-- What is posted is what a thermometer measures. -/
def Event.Measured : Event → Prop
  | .pass _ => True
  | .post p => p.Measured

/-- The last reading of sensor `n` that has arrived, in whole degrees. -/
def lastReading (n : Fin numberOfSensors) (T : ℤ) : Event → ℤ
  | .pass _ => T
  | .post p => if p.sensor = n ∧ p.Arrives then degrees p.temp else T

/-- The target of a channel when a pass comes to it. -/
def target (sch : STab) (c : Fin numberOfChannels) (p : Turn) : ℤ :=
  getTarTemp (p.stray.recs p.tm.tmWday c) p.tm.key (sch.cell p.tm.tmWday c)

/-- Channel `c` is controlled by sensor `n`, with the given schedules. -/
structure Controlled (sch : STab) (c : Fin numberOfChannels) (n : Fin numberOfSensors)
    (b : Board) : Prop where
  mode : (b.1.sysData.cData.get c).mode = 2
  sensorId : (b.1.sysData.cData.get c).sensorId = n.val
  sch : b.1.sysData.sysSch = sch

/-- The channel is on, or off, and so is its pin if it is one of its own. -/
structure Switched (c : Fin numberOfChannels) (v : Bool) (b : Board) : Prop where
  state : (b.1.sysData.cData.get c).state = if v then 1 else 0
  pin : c ≠ 0 → b.2.2 (chan.get c) = if v then 1 else 0

/-- The daemon finds the reading `T` of sensor `n`. -/
def Finds (n : Fin numberOfSensors) (T : ℤ) (b : Board) : Prop :=
  intOfFloat (b.1.sDat.get n).temp = T

variable {host : Host} {sch : STab} {c : Fin numberOfChannels} {n : Fin numberOfSensors} {v : Bool}
  {T : ℤ} {b b' : Board} {p : Turn}

theorem Controlled.reading (h : Controlled sch c n b) (stray : Stray) :
    reading stray b.1 c = intOfFloat (b.1.sDat.get n).temp := by
  have hn : 0 ≤ (n.val : ℤ) ∧ (n.val : ℤ).toNat < numberOfSensors := ⟨by omega, n.isLt⟩
  simp only [PconTng.reading, temperature, h.sensorId, dif_pos hn]
  rfl

theorem Controlled.pass (h : Controlled sch c n b) (hpass : Switch.pass b p = .ok b') :
    Controlled sch c n b' := by
  obtain rfl := pass_eq_ok hpass
  refine ⟨?_, ?_, ?_⟩
  · rw [updateRelays_cData]
    exact h.mode
  · rw [updateRelays_cData]
    exact h.sensorId
  · simp only [updateRelays_eq]
    exact h.sch

theorem Finds.pass (h : Finds n T b) (hpass : Switch.pass b p = .ok b') : Finds n T b' := by
  obtain rfl := pass_eq_ok hpass
  have hsDat : (updateRelays p.stray p.garbage b.2.1 p.tm b.1 b.2.2).1.sDat = b.1.sDat := by
    simp only [updateRelays_eq]
  rwa [Finds, hsDat]

/-- A pass switches the channel as its sensor asks. -/
theorem pass_switches (h : Controlled sch c n b) (hfinds : Finds n T b)
    (hrcnt : (sch.cell p.tm.tmWday c).rcnt ≠ 0) (hpass : Switch.pass b p = .ok b')
    (hfits : Fits v T (target sch c p)) : Switched c v b' := by
  obtain rfl := pass_eq_ok hpass
  have hsupported : Supported b.1 c := by
    rw [Supported, h.mode]
    decide
  have hasked : asked p.stray p.garbage b.2.1 p.tm b.1 c = if v then 1 else 0 := by
    have hdemand := demand_of_fits hfits (trendAt p.stray p.tm b.1 b.2.1 c)
    rw [Modes.asked_of_supported hsupported, wanted, if_neg (by rw [h.mode]; decide),
      if_neg (by rw [h.mode]; decide), schedule, h.sch, h.reading, hfinds]
    exact if_congr ((and_iff_right hrcnt).trans hdemand) rfl rfl
  constructor
  · rw [updateRelays_state, hasked]
  · intro hc
    rw [updateRelays_pin, lastWriter, if_neg hc, hasked]
    cases v <;> rfl

/-- A post of another sensor, or one that does not arrive, does not change the temperature of a
sensor. -/
theorem temp_post (hhost : Rounds host) {p : Sample} (hp : p.Measured)
    (sDat : Vector SenDat numberOfSensors) :
    (((serve host p.now p.message sDat).getD sDat).get n).temp =
      if p.sensor = n ∧ p.Arrives then p.storedTemp host else (sDat.get n).temp := by
  rw [hp.serve hhost]
  by_cases hthrough : p.ComesThrough
  · rw [if_pos hthrough, Option.getD_some]
    by_cases hnow : p.now = -1
    · have hlost : ¬ (p.sensor = n ∧ p.Arrives) := fun h => h.2.2 hnow
      rw [if_pos hnow, if_neg hlost, untimed, get_eq, Vector.getElem_set]
      split_ifs with hn
      · rw [Fin.ext hn]
      · rfl
    · have harrives : p.Arrives := ⟨hthrough, hnow⟩
      rw [if_neg hnow, if_congr (and_iff_left harrives) rfl rfl, stored, get_eq,
        Vector.getElem_set, if_congr Fin.ext_iff.symm rfl rfl]
      split_ifs <;> rfl
  · have hlost : ¬ (p.sensor = n ∧ p.Arrives) := fun h => hthrough h.2.1
    rw [if_neg hthrough, Option.getD_none, if_neg hlost]

/-- Whatever happens leaves the control of the channel as it is, and the reading that the daemon
finds is the last one. -/
theorem step_keeps (hhost : Rounds host) {e : Event} (he : e.Measured)
    (h : Controlled sch c n b ∧ Finds n T b) (hstep : step host b e = .ok b') :
    Controlled sch c n b' ∧ Finds n (lastReading n T e) b' := by
  obtain ⟨hcontrolled, hfinds⟩ := h
  cases e with
  | pass p => exact ⟨hcontrolled.pass hstep, hfinds.pass hstep⟩
  | post p =>
    cases hstep
    refine ⟨⟨hcontrolled.mode, hcontrolled.sensorId, hcontrolled.sch⟩, ?_⟩
    rw [Finds, temp_post hhost he, lastReading]
    split_ifs with hnew
    · exact intOfFloat_storedTemp hhost he hnew.2.1
    · exact hfinds

theorem foldlM_keeps (hhost : Rounds host) {es : List Event} (hes : ∀ e ∈ es, e.Measured)
    (h : Controlled sch c n b ∧ Finds n T b) (hrun : es.foldlM (step host) b = .ok b') :
    Controlled sch c n b' ∧ Finds n (es.foldl (lastReading n) T) b' := by
  induction es generalizing b T with
  | nil =>
    cases hrun
    exact h
  | cons e es ih =>
    rw [List.forall_mem_cons] at hes
    rw [List.foldlM_cons] at hrun
    obtain ⟨b₁, hstep, hrun⟩ := bind_eq_ok.1 hrun
    exact ih hes.2 (step_keeps hhost hes.1 h hstep) hrun

/-- **A reading switches the relay.** A channel is controlled by a sensor, of which a reading
arrives. Then, whatever else is posted and however many passes are made, each pass compares the
target of its time with the last reading of the sensor that has arrived: it switches the channel on
if the target is at least five degrees above, and off if it is not above, and so its pin if it is
one of its own. -/
theorem reading_switches (host : Host) (hhost : Rounds host) (h : Controlled sch c n b)
    {first : Sample} (hfirst : first.Measured) (harrives : first.Arrives)
    (hsensor : first.sensor = n) {es : List Event} (hes : ∀ e ∈ es, e.Measured) {p : Turn}
    (hrcnt : (sch.cell p.tm.tmWday c).rcnt ≠ 0)
    (hrun : (Event.post first :: es ++ [Event.pass p]).foldlM (step host) b = .ok b') :
    (es.foldl (lastReading n) (degrees first.temp) + 5 ≤ target sch c p → Switched c true b') ∧
      (target sch c p ≤ es.foldl (lastReading n) (degrees first.temp) → Switched c false b') := by
  rw [List.cons_append, List.foldlM_cons] at hrun
  obtain ⟨b₁, hpost, hrun⟩ := bind_eq_ok.1 hrun
  rw [List.foldlM_append] at hrun
  obtain ⟨b₂, hrest, hlast⟩ := bind_eq_ok.1 hrun
  have hpass : Switch.pass b₂ p = .ok b' := (bind_pure _).symm.trans hlast
  have hfinds : Finds n (degrees first.temp) b₁ := by
    cases hpost
    rw [Finds, temp_post hhost hfirst, if_pos ⟨hsensor, harrives⟩]
    exact intOfFloat_storedTemp hhost hfirst harrives.1
  have hkept : Controlled sch c n b₁ := by
    cases hpost
    exact ⟨h.mode, h.sensorId, h.sch⟩
  obtain ⟨hcontrolled, hfinds₂⟩ := foldlM_keeps hhost hes ⟨hkept, hfinds⟩ hrest
  exact ⟨fun hfits => pass_switches hcontrolled hfinds₂ hrcnt hpass hfits,
    fun hfits => pass_switches hcontrolled hfinds₂ hrcnt hpass hfits⟩

/-- One record, with a target of 70 degrees. -/
def seventy : TmplDat :=
  { TmplDat.zero with rcnt := 1, recs := TmplDat.zero.recs.set 0 ⟨0, 1, 70, 0⟩ (Nat.succ_pos _) }

/-- Channel `c` is controlled by sensor 6, with the same schedule on all days. -/
def heated (c : Fin numberOfChannels) : IpcDat :=
  { IpcDat.zero with sysData := { SysDat.zero with
      cData := SysDat.zero.cData.set c { ChnDat.zero with mode := 2, sensorId := 6 } c.isLt
      sysSch := .replicate _ (.replicate _ seventy) } }

/-- The temperatures 15.1 and 21.6 degrees centigrade of one sensor, and that of another one. -/
def cold : Sample := ⟨6, 151, 431, 0⟩

def outside : Sample := ⟨3, 281, 433, 30⟩

def warm : Sample := ⟨6, 216, 437, 60⟩

theorem exists_run {es : List Event}
    (h : (es.foldlM (step rounding) (heated 4, 0, fun _ => 0)).toOption.isSome = true) :
    ∃ b, es.foldlM (step rounding) (heated 4, 0, fun _ => 0) = .ok b := by
  cases hrun : es.foldlM (step rounding) (heated 4, 0, fun _ => 0) with
  | ok b => exact ⟨b, rfl⟩
  | error e =>
    rw [hrun] at h
    cases h

theorem target_heated : target (heated 4).sysData.sysSch 4 midnight = 70 := by
  have hcell : (heated 4).sysData.sysSch.cell 0 4 = seventy := rfl
  rw [target, show midnight.tm.tmWday = 0 from rfl, hcell]
  exact intOfFloat_intCast 70

/-- At 59 degrees Fahrenheit the relay is switched on, and at 70 degrees off again. -/
theorem reading_switches_warm :
    (∃ b, (Event.post cold :: [] ++ [Event.pass midnight]).foldlM (step rounding)
        (heated 4, 0, fun _ => 0) = .ok b ∧ Switched 4 true b) ∧
    ∃ b, (Event.post cold :: [.pass midnight, .post outside, .post warm] ++
        [Event.pass midnight]).foldlM (step rounding) (heated 4, 0, fun _ => 0) = .ok b ∧
      Switched 4 false b := by
  have hcontrolled : Controlled (heated 4).sysData.sysSch 4 6 (heated 4, 0, fun _ => 0) :=
    ⟨rfl, rfl, rfl⟩
  have hmeasured : cold.Measured ∧ outside.Measured ∧ warm.Measured := by
    refine ⟨⟨?_, ?_⟩, ⟨?_, ?_⟩, ⟨?_, ?_⟩⟩ <;> decide
  have hrcnt : ((heated 4).sysData.sysSch.cell midnight.tm.tmWday 4).rcnt ≠ 0 := by
    decide +kernel
  have hevents : ∀ e ∈ [Event.pass midnight, .post outside, .post warm], e.Measured := by
    simpa [Event.Measured] using hmeasured.2
  constructor
  · obtain ⟨b, hb⟩ := @exists_run (Event.post cold :: [] ++ [Event.pass midnight])
      (by decide +kernel)
    refine ⟨b, hb, (reading_switches rounding rounds_rounding hcontrolled hmeasured.1 (by decide)
      rfl (List.forall_mem_nil _) hrcnt hb).1 ?_⟩
    rw [target_heated]
    decide
  · obtain ⟨b, hb⟩ := @exists_run (Event.post cold :: [.pass midnight, .post outside,
      .post warm] ++ [Event.pass midnight]) (by decide +kernel)
    refine ⟨b, hb, (reading_switches rounding rounds_rounding hcontrolled hmeasured.1 (by decide)
      rfl hevents hrcnt hb).2 ?_⟩
    rw [target_heated]
    decide

end PconTng.Feedback
