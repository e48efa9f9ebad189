import PconTng.Sch.Lookup

/-!
# Schedules for sensor control

For a channel controlled by a sensor the daemon needs the temperature of the record in force, the
record whose state `testSchTime` returns. `getTarTemp` and `testSchSensor` give it only in the
cases listed in `sensor_lookup_iff`.
-/

namespace PconTng

open CMemory CArray Keyed

variable {t : TmplDat}

theorem getTarTemp_eq (stray : ℤ → SRec) (h1 : 1 ≤ t.rcnt) (key : ℤ) :
    getTarTemp stray key t = intOfFloat (selectRec stray key t).temp :=
  if_neg (by omega)

theorem testSchSensor_eq (stray : ℤ → SRec) (h1 : 1 ≤ t.rcnt) (hold key sensor : ℤ) :
    testSchSensor stray hold key t sensor =
      slabcon hold (getTarTemp stray key t) sensor := by
  rw [testSchSensor_eq_ite, if_neg (by omega), getTarTemp_eq stray h1]

/-- Where the record in force is the first one. -/
theorem inForce_eq_first (h : t.Wf) {key : ℤ} {r : SRec} (hr : InForce SRec.key t.live key r)
    (hfirst : t.rcnt = 1 ∨ (t.recs.get 0).key = key) : r = t.recs.get 0 := by
  have hlen := h.length_live
  have h0 : 0 < t.live.length := List.length_pos_of_mem hr.1
  have heq : t.live[0] = t.recs.get 0 := TmplDat.getElem_live h0
  have hin : InForce SRec.key t.live key t.live[0] := by
    rcases hfirst with h1 | hkey
    · exact inForce_of_length_eq_one (by omega) key h0
    · rw [← heq] at hkey
      exact inForce_of_lt_next h.increasing h0 hkey.le fun hn =>
        hkey ▸ h.increasing.lt Nat.zero_lt_one hn
  rw [hr.unique hin h.increasing, heq]

/-- **What the sensor routines use.** There is a record in force and `testSchTime` returns its
state. `getTarTemp` returns its temperature, and `testSchSensor` the decision for it, exactly when
the schedule has one record, or the time is that of the first record, or the slot behind the last
record holds the same temperature. -/
theorem sensor_lookup_iff (stray : ℤ → SRec) (h : t.Wf) (h1 : 1 ≤ t.rcnt) (hold key sensor : ℤ) :
    ∃ r, InForce SRec.key t.live key r ∧ testSchTime stray key t = r.state ∧
      ((getTarTemp stray key t = intOfFloat r.temp ∧
          testSchSensor stray hold key t sensor = slabcon hold (intOfFloat r.temp) sensor) ↔
        t.rcnt = 1 ∨ (t.recs.get 0).key = key ∨
          intOfFloat (getElem t.recs t.rcnt.toNat h.toNat_lt).temp =
            intOfFloat r.temp) := by
  have hne : t.live ≠ [] := List.ne_nil_of_length_pos (by have := h.length_live; omega)
  obtain ⟨r, hr⟩ := exists_inForce h.increasing hne key
  refine ⟨r, hr, testSchTime_eq h hr, ?_⟩
  rw [testSchSensor_eq stray h1, getTarTemp_eq stray h1, selectRec_eq h h1]
  by_cases hfirst : t.rcnt = 1 ∨ (t.recs.get 0).key = key
  · rw [if_pos hfirst, ← or_assoc, inForce_eq_first h hr hfirst]
    exact iff_of_true ⟨rfl, rfl⟩ (.inl hfirst)
  · rw [if_neg hfirst, ← or_assoc, or_iff_right hfirst]
    exact ⟨And.left, fun he => ⟨he, by rw [he]⟩⟩

/-- Two records: 20 degrees from 8:00 and 22 degrees from 18:00. -/
def twoTemps : TmplDat :=
  { TmplDat.zero with
    rcnt := 2
    recs := (TmplDat.zero.recs.set 0 ⟨480, 1, 20, 0⟩ (Nat.succ_pos _)).set 1 ⟨1080, 1, 22, 0⟩ }

theorem twoTemps_live : twoTemps.live = [⟨480, 1, 20, 0⟩, ⟨1080, 1, 22, 0⟩] := rfl

theorem twoTemps_wf : twoTemps.Wf :=
  ⟨by decide, by decide, by simp [Increasing, twoTemps_live]⟩

/-- At 10:00 the target is that of the record of 8:00. -/
theorem twoTemps_inForce : InForce SRec.key twoTemps.live 600 ⟨480, 1, 20, 0⟩ := by
  simp [InForce, twoTemps_live]

/-- At 8:00 the first record is found. -/
theorem twoTemps_sensor_lookup : ∃ r, InForce SRec.key twoTemps.live 480 r ∧
    testSchTime (fun _ => SRec.zero) 480 twoTemps = r.state ∧
      (getTarTemp (fun _ => SRec.zero) 480 twoTemps = intOfFloat r.temp ∧
        testSchSensor (fun _ => SRec.zero) 0 480 twoTemps 15 =
          slabcon 0 (intOfFloat r.temp) 15) := by
  obtain ⟨r, hr, hs, hiff⟩ :=
    sensor_lookup_iff (fun _ => SRec.zero) twoTemps_wf (by decide) 0 480 15
  exact ⟨r, hr, hs, hiff.2 (.inr (.inl rfl))⟩

/-- At 10:00 the routines use the slot behind the last record. -/
theorem sensor_lookup_misses : ¬ ∀ (stray : ℤ → SRec) (t : TmplDat) (hold key sensor : ℤ),
    t.Wf → 1 ≤ t.rcnt → 0 ≤ key → key < 1440 → ∃ r, InForce SRec.key t.live key r ∧
      getTarTemp stray key t = intOfFloat r.temp ∧
      testSchSensor stray hold key t sensor = slabcon hold (intOfFloat r.temp) sensor := by
  intro hall
  obtain ⟨r, hr, htemp, -⟩ := hall (fun _ => SRec.zero) twoTemps 0 600 15 twoTemps_wf (by decide)
    (by decide) (by decide)
  obtain rfl := hr.unique twoTemps_inForce twoTemps_wf.increasing
  exact absurd htemp (by decide)

end PconTng
