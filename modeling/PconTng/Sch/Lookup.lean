import PconTng.Sch.Template
import PconTng.SlabControl

/-!
# Looking up a schedule

The three routines of `sch.c` that the daemon uses to read a schedule at a time of day: the state
(`testSchTime`), the target temperature (`getTarTemp`) and the slab controller's decision
(`testSchSensor`). They may be given any template, so what lies in memory around the records is a
parameter `stray`.

`testSchTime` finds the record in force (`testSchTime_eq`). The other two share a loop that stops
in its first turn, so with two or more records they take the first record or the slot behind the
last one (`selectRec_eq`).
-/

namespace PconTng

open CMemory CArray Keyed

variable (stray : ℤ → SRec)

/-- `test_sch_time` -/
def testSchTime (key : ℤ) (t : TmplDat) : ℤ :=
  let r := peek stray t.recs
  if t.rcnt = 0 then 0
  else if t.rcnt = 1 then (r 0).state
  else if t.rcnt = 2 then
    if key = (r 0).key then (r 0).state
    else if key = (r 1).key then (r 1).state
    else if key > (r 1).key then (r 1).state
    else if key < (r 0).key then (r 1).state
    else (r 0).state
  else
    -- look for matching keys
    match (List.range t.rcnt.toNat).find? fun (i : ℕ) => (r i).key = key with
    | some i => (r i).state
    | none =>
      if key < (r 0).key then (r (t.rcnt - 1)).state
      else if key > (r (t.rcnt - 1)).key then (r (t.rcnt - 1)).state
      else
        ((List.range (t.rcnt - 1).toNat).findSome? fun (i : ℕ) =>
          if key > (r i).key ∧ key < (r (i + 1)).key then some (r i).state
          else if key < (r i).key ∧ (i : ℤ) = t.rcnt - 1 then some (r (i - 1)).state
          else none).getD 0

/-- The record that `test_sch_sensor` and `get_tar_temp` take from a schedule that is not empty.
Every turn of the loop returns, and after the loop the record before the loop counter is taken. -/
def selectRec (key : ℤ) (t : TmplDat) : SRec :=
  let r := peek stray t.recs
  if t.rcnt = 1 then r 0
  else
    ((List.range t.rcnt.toNat).findSome? fun (i : ℕ) =>
      if (r i).key = key then some (r i)
      else if (r i).key > key ∧ i > 0 then some (r (i - 1))
      else some (r t.rcnt)).getD (r (t.rcnt.toNat - 1))

/-- `test_sch_sensor`, with the trend memory of the slab controller. -/
def testSchSensorWith {m : Type → Type} [Monad m] (ops : IntOps m) (hold key : ℤ) (t : TmplDat)
    (sensor : ℤ) : m (ℤ × ℤ) := do
  if t.rcnt = 0 then return (0, hold)
  else slabconWith ops hold (← ops.conv (selectRec stray key t).temp) sensor

/-- The routine with all integers. -/
def testSchSensor (hold key : ℤ) (t : TmplDat) (sensor : ℤ) : ℤ × ℤ :=
  testSchSensorWith stray .all hold key t sensor

/-- `get_tar_temp` -/
def getTarTemp (key : ℤ) (t : TmplDat) : ℤ :=
  if t.rcnt = 0 then 0
  else intOfFloat (selectRec stray key t).temp

theorem testSchSensor_eq_ite (hold key : ℤ) (t : TmplDat) (sensor : ℤ) :
    testSchSensor stray hold key t sensor =
      if t.rcnt = 0 then (0, hold)
      else slabcon hold (intOfFloat (selectRec stray key t).temp) sensor :=
  rfl

/-- The numbers that `test_sch_sensor` computes for a schedule fit an `int`: the target and the sums
of the controller. -/
def TargetFits (hold key : ℤ) (t : TmplDat) (sensor : ℤ) : Prop :=
  t.rcnt ≠ 0 → IsInt (getTarTemp stray key t) ∧ SumsFit hold (getTarTemp stray key t) sensor

instance (hold key : ℤ) (t : TmplDat) (sensor : ℤ) :
    Decidable (TargetFits stray hold key t sensor) :=
  inferInstanceAs (Decidable (_ → _ ∧ _))

/-- As C runs it, the routine computes with all integers exactly when the numbers fit. -/
theorem testSchSensorInt_eq (hold key : ℤ) (t : TmplDat) (sensor : ℤ) :
    testSchSensorWith stray .int hold key t sensor =
      if TargetFits stray hold key t sensor then .ok (testSchSensor stray hold key t sensor)
      else .error .fault := by
  rw [testSchSensor_eq_ite, testSchSensorWith]
  by_cases hz : t.rcnt = 0
  · have hfits : TargetFits stray hold key t sensor := fun hne => absurd hz hne
    rw [if_pos hz, if_pos hfits, if_pos hz]
    rfl
  · have hfits : TargetFits stray hold key t sensor ↔
        IsInt (intOfFloat (selectRec stray key t).temp) ∧
          SumsFit hold (intOfFloat (selectRec stray key t).temp) sensor := by
      rw [TargetFits, getTarTemp, if_neg hz]
      exact imp_iff_right hz
    rw [if_neg hz, if_neg hz, if_congr hfits rfl rfl, IntOps.int_conv]
    by_cases hconv : IsInt (intOfFloat (selectRec stray key t).temp)
    · rw [if_pos hconv, if_congr (and_iff_right hconv) rfl rfl]
      exact slabconInt_eq _ _ _
    · rw [if_neg hconv, if_neg fun h => hconv h.1]
      rfl

/-! ## What they find in a well formed schedule -/

variable {stray} {t : TmplDat}

theorem TmplDat.peek_eq_live (h : t.Wf) {z : ℤ} {i : ℕ} (hi : i < t.live.length) (hz : z = i) :
    peek stray t.recs z = t.live[i] := by
  have hlen := h.length_live
  have hmax := h.toNat_le
  rw [hz, peek_natCast stray t.recs (by omega), TmplDat.getElem_live]

theorem testSchTime_of_rcnt_eq_zero (h : t.rcnt = 0) (key : ℤ) : testSchTime stray key t = 0 := by
  simp only [testSchTime, if_pos h]

/-- With one record it is the state of the record. -/
theorem testSchTime_one (h : t.Wf) (h1 : t.rcnt = 1) (key : ℤ) :
    ∃ (i : ℕ) (hi : i < t.live.length), InForce SRec.key t.live key t.live[i] ∧
      testSchTime stray key t = t.live[i].state := by
  have hlen := h.length_live
  have h0 : 0 < t.live.length := by omega
  refine ⟨0, h0, inForce_of_length_eq_one (by omega) key h0, ?_⟩
  simp only [testSchTime, TmplDat.peek_eq_live h h0 (z := 0) rfl]
  rw [if_neg (by omega), if_pos h1]

/-- With two records the comparisons tell which one is in force. -/
theorem testSchTime_two (h : t.Wf) (h2 : t.rcnt = 2) (key : ℤ) :
    ∃ (i : ℕ) (hi : i < t.live.length), InForce SRec.key t.live key t.live[i] ∧
      testSchTime stray key t = t.live[i].state := by
  have hlen := h.length_live
  have h0 : 0 < t.live.length := by omega
  have h1 : 1 < t.live.length := by omega
  have hlt := h.increasing.lt Nat.zero_lt_one h1
  have second : t.live[1].key ≤ key → InForce SRec.key t.live key t.live[1] := fun hle =>
    inForce_of_lt_next h.increasing h1 hle fun hn => absurd hn (by omega)
  have first : t.live[0].key ≤ key → key < t.live[1].key →
      InForce SRec.key t.live key t.live[0] := fun hle hnext =>
    inForce_of_lt_next h.increasing h0 hle fun _ => hnext
  simp only [testSchTime, TmplDat.peek_eq_live h h0 (z := 0) rfl,
    TmplDat.peek_eq_live h h1 (z := 1) rfl]
  rw [if_neg (by omega), if_neg (by omega), if_pos h2]
  split_ifs with ha hb hc hd
  · exact ⟨0, h0, first (by omega) (by omega), rfl⟩
  · exact ⟨1, h1, second (by omega), rfl⟩
  · exact ⟨1, h1, second (by omega), rfl⟩
  · exact ⟨1, h1, inForce_of_lt_first h.increasing h1 (by omega) hd, rfl⟩
  · exact ⟨0, h0, first (by omega) (by omega), rfl⟩

variable (stray) in
/-- What the last loop of `test_sch_time` finds at a key between the first record and the last. -/
theorem between_eq (h : t.Wf) {key : ℤ} {r : SRec} (hr : InForce SRec.key t.live key r)
    (hne : ∀ (j : ℕ) (hj : j < t.live.length), t.live[j].key ≠ key)
    (hpos : 0 < t.live.length) (hfirst : t.live[0].key < key)
    (hlast : key < (getElem t.live (t.live.length - 1) (by omega)).key) :
    ∃ (j : ℕ) (hj : j < t.live.length), InForce SRec.key t.live key t.live[j] ∧
      ((List.range (t.rcnt - 1).toNat).findSome? fun (i : ℕ) =>
        if key > (peek stray t.recs i).key ∧ key < (peek stray t.recs (i + 1)).key then
          some (peek stray t.recs i).state
        else if key < (peek stray t.recs i).key ∧ (i : ℤ) = t.rcnt - 1 then
          some (peek stray t.recs (i - 1)).state
        else none) = some t.live[j].state := by
  have h0 := h.nonneg
  have hlen := h.length_live
  have hturn : ∀ j ∈ List.range (t.rcnt - 1).toNat, ∃ hj : j + 1 < t.live.length,
      peek stray t.recs j = t.live[j] ∧ peek stray t.recs (j + 1) = t.live[j + 1] := by
    intro j hj
    rw [List.mem_range] at hj
    have hj' : j + 1 < t.live.length := by omega
    exact ⟨hj', TmplDat.peek_eq_live h (by omega) rfl,
      TmplDat.peek_eq_live h hj' (by push_cast; rfl)⟩
  cases hg : (List.range (t.rcnt - 1).toNat).findSome? fun (i : ℕ) =>
      if key > (peek stray t.recs i).key ∧ key < (peek stray t.recs (i + 1)).key then
        some (peek stray t.recs i).state
      else if key < (peek stray t.recs i).key ∧ (i : ℤ) = t.rcnt - 1 then
        some (peek stray t.recs (i - 1)).state
      else none with
  | none =>
    -- the turn at the record in force returns
    obtain ⟨i, hi, rfl, ⟨hik, hia⟩ | ⟨hib, -⟩⟩ := hr.index h.increasing
    · have hi1 : i + 1 < t.live.length := by
        by_contra hend
        obtain rfl : i = t.live.length - 1 := by omega
        omega
      have hmem : i ∈ List.range (t.rcnt - 1).toNat := List.mem_range.2 (by omega)
      obtain ⟨_, hpeek, hpeek'⟩ := hturn i hmem
      have hnone := List.findSome?_eq_none_iff.1 hg i hmem
      have hik' := hne i hi
      have hnext := hia (i + 1) hi1 (Nat.lt_succ_self i)
      rw [hpeek, hpeek', if_pos (by omega)] at hnone
      cases hnone
    · exact absurd (hib 0 hpos) (by omega)
  | some v =>
    obtain ⟨j, hmem, hv⟩ := List.exists_of_findSome?_eq_some hg
    obtain ⟨hj, hpeek, hpeek'⟩ := hturn j hmem
    rw [hpeek, hpeek'] at hv
    split_ifs at hv with hbetween hother
    · exact ⟨j, by omega, inForce_of_lt_next h.increasing (by omega) hbetween.1.le
        fun _ => hbetween.2, hv.symm⟩
    · omega

/-- With more records there are the two loops. -/
theorem testSchTime_many (h : t.Wf) (h3 : 2 < t.rcnt) (key : ℤ) :
    ∃ (i : ℕ) (hi : i < t.live.length), InForce SRec.key t.live key t.live[i] ∧
      testSchTime stray key t = t.live[i].state := by
  have hlen := h.length_live
  have h0 : 0 < t.live.length := by omega
  have hend : t.live.length - 1 < t.live.length := by omega
  have hlast : peek stray t.recs (t.rcnt - 1) = t.live[t.live.length - 1] :=
    TmplDat.peek_eq_live h hend (by omega)
  simp only [testSchTime, hlast, TmplDat.peek_eq_live h h0 (z := 0) rfl]
  rw [if_neg (by omega), if_neg (by omega), if_neg (by omega)]
  cases hf : (List.range t.rcnt.toNat).find? fun (i : ℕ) => (peek stray t.recs i).key = key with
  | some j =>
    have hj : j < t.live.length := by
      have hmem := List.mem_range.1 (List.mem_of_find?_eq_some hf)
      omega
    have hpeek : peek stray t.recs j = t.live[j] := TmplDat.peek_eq_live h hj rfl
    have hjk : t.live[j].key = key := by
      have hfound := List.find?_some hf
      rwa [hpeek, decide_eq_true_iff] at hfound
    refine ⟨j, hj, inForce_of_lt_next h.increasing hj hjk.le fun hn => ?_, ?_⟩
    · exact hjk ▸ h.increasing.lt (Nat.lt_succ_self j) hn
    · simp only [hpeek]
  | none =>
    have hne : ∀ (j : ℕ) (hj : j < t.live.length), t.live[j].key ≠ key := by
      intro j hj hjk
      have hnone := List.find?_eq_none.1 hf j (List.mem_range.2 (by omega))
      rw [TmplDat.peek_eq_live h hj rfl, decide_eq_true_iff] at hnone
      exact hnone hjk
    have hne0 := hne 0 h0
    have hne1 := hne _ hend
    dsimp only
    split_ifs with ha hb
    · exact ⟨_, hend, inForce_of_lt_first h.increasing hend (by omega) ha, rfl⟩
    · exact ⟨_, hend, inForce_of_lt_next h.increasing hend hb.le fun hn => absurd hn (by omega),
        rfl⟩
    · obtain ⟨r, hr⟩ := exists_inForce h.increasing (List.ne_nil_of_length_pos h0) key
      obtain ⟨j, hj, hin, hfind⟩ := between_eq stray h hr hne h0 (by omega) (by omega)
      exact ⟨j, hj, hin, by rw [hfind]; rfl⟩

/-- **The time of day selects the record in force.** -/
theorem testSchTime_eq (h : t.Wf) {key : ℤ} {r : SRec} (hr : InForce SRec.key t.live key r) :
    testSchTime stray key t = r.state := by
  have hpos : 0 < t.rcnt := by
    have hlen := h.length_live
    have hmem := List.length_pos_of_mem hr.1
    omega
  obtain ⟨i, hi, hin, hstate⟩ : ∃ (i : ℕ) (hi : i < t.live.length),
      InForce SRec.key t.live key t.live[i] ∧ testSchTime stray key t = t.live[i].state := by
    rcases (by omega : t.rcnt = 1 ∨ t.rcnt = 2 ∨ 2 < t.rcnt) with h1 | h2 | h3
    · exact testSchTime_one h h1 key
    · exact testSchTime_two h h2 key
    · exact testSchTime_many h h3 key
  rw [hstate, hin.unique hr h.increasing]

/-- **The state over the day is a step function.** Without records it is 0. Otherwise it is the
state of the record with the greatest key that is not after the given one, or of the last record
when there is none. Nothing but the records in use is looked at. -/
theorem time_lookup (stray : ℤ → SRec) (h : t.Wf) (key : ℤ) :
    (t.rcnt = 0 → testSchTime stray key t = 0) ∧
    (t.rcnt ≠ 0 → ∃ r ∈ t.live, testSchTime stray key t = r.state ∧
      ((r.key ≤ key ∧ ∀ x ∈ t.live, x.key ≤ key → x.key ≤ r.key) ∨
        ((∀ x ∈ t.live, key < x.key) ∧ t.live.getLast? = some r))) ∧
    ∀ (stray' : ℤ → SRec) (t' : TmplDat), t'.rcnt = t.rcnt → t'.live = t.live →
      testSchTime stray' key t' = testSchTime stray key t := by
  have hlen := h.length_live
  have h0 := h.nonneg
  refine ⟨fun hzero => testSchTime_of_rcnt_eq_zero hzero key, fun hne => ?_,
    fun stray' t' hrcnt hlive => ?_⟩
  · have hnil : t.live ≠ [] := List.ne_nil_of_length_pos (by omega)
    obtain ⟨r, hr⟩ := exists_inForce h.increasing hnil key
    refine ⟨r, hr.1, testSchTime_eq h hr, hr.2.imp_right fun hbefore => ?_⟩
    exact ⟨hbefore.1, hr.last h.increasing hbefore.1⟩
  · by_cases hzero : t.rcnt = 0
    · rw [testSchTime_of_rcnt_eq_zero hzero, testSchTime_of_rcnt_eq_zero (hrcnt.trans hzero)]
    · have hnil : t.live ≠ [] := List.ne_nil_of_length_pos (by omega)
      have h' : t'.Wf := ⟨hrcnt ▸ h.nonneg, hrcnt ▸ h.le_max, hlive ▸ h.increasing⟩
      obtain ⟨r, hr⟩ := exists_inForce h.increasing hnil key
      rw [testSchTime_eq h hr, testSchTime_eq h' (hlive ▸ hr)]

/-- On from 8:00 and off from 18:00. -/
def workday : TmplDat :=
  { TmplDat.zero with
    rcnt := 2
    recs := (TmplDat.zero.recs.set 0 ⟨480, 1, 0, 0⟩ (Nat.succ_pos _)).set 1 ⟨1080, 0, 0, 0⟩
      one_lt_recs }

theorem workday_live : workday.live = [⟨480, 1, 0, 0⟩, ⟨1080, 0, 0, 0⟩] := rfl

theorem workday_wf : workday.Wf := ⟨by decide, by decide, by simp [Increasing, workday_live]⟩

/-- At midnight the last record decides. -/
theorem time_lookup_workday : testSchTime (fun _ => SRec.zero) 0 workday = 0 := by
  obtain ⟨r, hr, hstate, hforce⟩ :=
    (time_lookup (fun _ => SRec.zero) workday_wf 0).2.1 (by decide)
  rw [workday_live] at hr hforce
  rw [hstate]
  rcases hforce with ⟨hle, -⟩ | ⟨-, hlast⟩
  · simp only [List.mem_cons, List.not_mem_nil, or_false] at hr
    rcases hr with rfl | rfl <;> exact absurd hle (by decide)
  · cases hlast
    rfl

/-- With two or more records the choice is the first record or the slot behind the last. -/
theorem selectRec_eq (h : t.Wf) (h1 : 1 ≤ t.rcnt) (key : ℤ) :
    selectRec stray key t =
      if t.rcnt = 1 ∨ (t.recs.get 0).key = key then t.recs.get 0
      else getElem t.recs t.rcnt.toNat h.toNat_lt := by
  have hmax := h.toNat_le
  have hfirst : peek stray t.recs 0 = t.recs.get 0 := peek_natCast stray t.recs (by omega : 0 < 51)
  have hbehind : peek stray t.recs t.rcnt = t.recs[t.rcnt.toNat] := by
    rw [← peek_natCast stray t.recs, Int.toNat_of_nonneg h.nonneg]
  by_cases hone : t.rcnt = 1
  · simp only [selectRec, if_pos hone, if_pos (Or.inl hone : _ ∨ (t.recs.get 0).key = key), hfirst]
  · -- the loop stops in its first turn
    obtain ⟨k, hk⟩ : ∃ k, t.rcnt.toNat = k + 1 := ⟨t.rcnt.toNat - 1, by omega⟩
    simp only [selectRec, if_neg hone, hk, List.range_succ_eq_map, List.findSome?_cons,
      Nat.cast_zero, hfirst, hbehind, gt_iff_lt, lt_irrefl, and_false, if_false]
    by_cases hkey : t.recs[0].key = key
    · simp [hkey]
    · simp [hkey, hone]

end PconTng
