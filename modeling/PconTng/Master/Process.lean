import Mathlib.Algebra.BigOperators.Group.List.Basic
import Mathlib.Algebra.Order.Field.Rat
import PconTng.Foundations.CArray
import PconTng.Foundations.Running

/-!
# The summary of the master log

`process.c` reads the master log and prints, for each sensor that occurs in it, the mean, the
greatest and the least temperature and the times of its first and its last reading. The numbers are
exact here. The arrays for the times are used before they are given values, so these are parameters.

Both arrays of times keep the latest one, the extreme temperatures start from 0 and 999, the number
99 passes for one of a sensor, and the record behind one that is skipped is taken as it is.
`summary_iff` says when the summary is right nevertheless.
-/

namespace PconTng.Master

open CArray

/-! ## The program -/

/-- `_MAX_SENSOR_ID` -/
def maxSensorId : ℕ := 99

/-- `_SEN_DAT_REC` -/
structure SenDatRec where
  sensorId : ℤ
  temp : ℚ
  ts : ℤ

/-- The variables of `main`. -/
structure Totals where
  rcnt : ℤ
  avgT : Vector ℚ maxSensorId
  sumT : Vector ℚ maxSensorId
  maxT : Vector ℚ maxSensorId
  minT : Vector ℚ maxSensorId
  cDate : Vector ℤ maxSensorId
  fDate : Vector ℤ maxSensorId
  hitCnt : Vector ℤ maxSensorId

/-- The variables when the first record is read. -/
def Totals.init (cDate fDate : Vector ℤ maxSensorId) : Totals where
  rcnt := 0
  avgT := Vector.replicate maxSensorId 0
  sumT := Vector.replicate maxSensorId 0
  maxT := Vector.replicate maxSensorId 0
  minT := Vector.replicate maxSensorId 999
  cDate := cDate
  fDate := fDate
  hitCnt := Vector.replicate maxSensorId 0

/-- `if (p(x, a[i])) a[i] = x;` -/
def storeIf {α : Type} {n : ℕ} (p : α → α → Bool) (a : Vector α n) (i : ℤ) (x : α) :
    Except Stop (Vector α n) := do
  if p x (← load a i) then store a i x else return a

/-- Entering a record in the totals. -/
def Totals.add (s : Totals) (buffer : SenDatRec) : Except Stop Totals := do
  let hitCnt ← store s.hitCnt buffer.sensorId ((← load s.hitCnt buffer.sensorId) + 1)
  let sumT ← store s.sumT buffer.sensorId ((← load s.sumT buffer.sensorId) + buffer.temp)
  let maxT ← storeIf (fun x y => x > y) s.maxT buffer.sensorId buffer.temp
  let minT ← storeIf (fun x y => x < y) s.minT buffer.sensorId buffer.temp
  let fDate ← storeIf (fun x y => x > y) s.fDate buffer.sensorId buffer.ts
  let cDate ← storeIf (fun x y => x > y) s.cDate buffer.sensorId buffer.ts
  return { s with hitCnt, sumT, maxT, minT, fDate, cDate }

/-- The loop over the records of the log. -/
def readAll : List SenDatRec → Totals → Except Stop Totals
  | [], s => return s
  | buffer :: rest, s => do
    let s := { s with rcnt := s.rcnt + 1 }
    if buffer.sensorId < 0 ∨ buffer.sensorId > maxSensorId then
      -- the next record takes the place of this one
      match rest with
      | [] => throw .exit
      | buffer :: rest => readAll rest (← s.add buffer)
    else
      readAll rest (← s.add buffer)

/-- The loop that divides the sums. -/
def Totals.average (s : Totals) : Totals :=
  { s with avgT := Vector.ofFn fun i =>
      if s.hitCnt.get i > 0 then s.sumT.get i / s.hitCnt.get i else s.avgT.get i }

/-- A line of the summary. -/
structure Row where
  id : Fin maxSensorId
  ave : ℚ
  max : ℚ
  min : ℚ
  firstRead : ℤ
  lastRead : ℤ

/-- The loop that prints the lines. -/
def Totals.rows (s : Totals) : List Row :=
  (List.finRange maxSensorId).filterMap fun i =>
    if s.hitCnt.get i > 0 then
      some {
        id := i
        ave := s.avgT.get i
        max := s.maxT.get i
        min := s.minT.get i
        firstRead := s.fDate.get i
        lastRead := s.cDate.get i }
    else none

/-- `main`, from the log to the number of records read and the lines of the summary -/
def process (cDate fDate : Vector ℤ maxSensorId) (log : List SenDatRec) :
    Except Stop (ℤ × List Row) := do
  let s ← readAll log (.init cDate fDate)
  return (s.rcnt, s.average.rows)

/-! ## A right summary -/

/-- A record of the sensor. -/
def recordsOf (log : List SenDatRec) (i : Fin maxSensorId) : List SenDatRec :=
  log.filter fun r => r.sensorId = i.val

/-- The line says what the records `rs` say. -/
structure Describes (rs : List SenDatRec) (row : Row) : Prop where
  ave : row.ave = (rs.map (·.temp)).sum / rs.length
  max : IsGreatest {x | x ∈ rs.map (·.temp)} row.max
  min : IsLeast {x | x ∈ rs.map (·.temp)} row.min
  firstRead : IsLeast {t | t ∈ rs.map (·.ts)} row.firstRead
  lastRead : IsGreatest {t | t ∈ rs.map (·.ts)} row.lastRead

/-- There is a line for each sensor that occurs, about all records of that sensor. -/
structure Right (log : List SenDatRec) (rows : List Row) : Prop where
  ids : rows.map (·.id) = (List.finRange maxSensorId).filter fun i => (recordsOf log i).length > 0
  describes : ∀ row ∈ rows, Describes (recordsOf log row.id) row

/-- The whole log is processed, no element outside the arrays is touched, and the summary is
right. -/
def Summary (cDate fDate : Vector ℤ maxSensorId) (log : List SenDatRec) : Prop :=
  ∃ rcnt rows, process cDate fDate log = .ok (rcnt, rows) ∧ Right log rows

/-! ## The records that are entered -/

def InRange (r : SenDatRec) : Prop := 0 ≤ r.sensorId ∧ r.sensorId < maxSensorId

/-- The program takes the number for none of a sensor. -/
def OutOfRange (r : SenDatRec) : Prop := r.sensorId < 0 ∨ r.sensorId > maxSensorId

/-- Every number that is not one of a sensor is taken for none, and the next record has one. -/
def Readable : List SenDatRec → Prop
  | [] => True
  | r :: rest => (InRange r ∨ (OutOfRange r ∧ ∃ r' ∈ rest.head?, InRange r')) ∧ Readable rest

/-- The totals of one sensor. -/
structure Sensor where
  count : ℤ
  sum : ℚ
  max : ℚ
  min : ℚ
  first : ℤ
  last : ℤ

def Sensor.init (first last : ℤ) : Sensor := ⟨0, 0, 0, 999, first, last⟩

def Sensor.add (t : Sensor) (r : SenDatRec) : Sensor where
  count := t.count + 1
  sum := t.sum + r.temp
  max := Max.max t.max r.temp
  min := Min.min t.min r.temp
  first := Max.max t.first r.ts
  last := Max.max t.last r.ts

def Totals.sensor (s : Totals) (i : Fin maxSensorId) : Sensor :=
  ⟨s.hitCnt.get i, s.sumT.get i, s.maxT.get i, s.minT.get i, s.fDate.get i, s.cDate.get i⟩

theorem storeIf_eq {α : Type} {n : ℕ} (p : α → α → Bool) (a : Vector α n) (i : Fin n) (x : α) :
    storeIf p a i.val x = .ok (a.set i.val (if p x (a.get i) then x else a.get i) i.isLt) := by
  unfold storeIf
  rw [load_natCast a i.isLt, get_eq]
  simp only [bind, Except.bind]
  split
  · exact store_natCast a i.isLt x
  · rw [Vector.set_getElem_self]
    rfl

variable {s : Totals} {r : SenDatRec}

/-- A record of a sensor changes the totals of that sensor. -/
theorem Totals.add_eq (s : Totals) {i : Fin maxSensorId} (hi : r.sensorId = i.val) :
    ∃ s', s.add r = .ok s' ∧
      ∀ j, s'.sensor j = if j = i then (s.sensor i).add r else s.sensor j := by
  unfold Totals.add
  simp only [hi, load_natCast _ i.isLt, store_natCast _ i.isLt, storeIf_eq, bind, Except.bind]
  refine ⟨_, rfl, fun j => ?_⟩
  by_cases hj : j = i
  · subst hj
    have hmin : ∀ x y : ℚ, min x y = if y < x then y else x := fun x y => by
      rw [min_comm, min_def_lt]
    simp [sensor, Sensor.add, max_def_lt, hmin]
  · have hne : i.val ≠ j.val := fun h => hj (Fin.ext h.symm)
    simp [sensor, hj, Vector.getElem_set_ne _ _ hne]

/-- A record of no sensor is entered outside the arrays. -/
theorem Totals.add_fault (s : Totals) (h : ¬ InRange r) : s.add r = .error .fault := by
  unfold Totals.add
  rw [load_of_not s.hitCnt h]
  rfl

/-- The totals of the sensors are those of `f`. -/
def Follows (s : Totals) (f : ℤ → Sensor) : Prop := ∀ i : Fin maxSensorId, s.sensor i = f i.val

/-- The totals by number, of a record of any number. -/
def enter (f : ℤ → Sensor) (r : SenDatRec) : ℤ → Sensor :=
  Function.update f r.sensorId ((f r.sensorId).add r)

variable {f : ℤ → Sensor}

theorem inRange_iff : InRange r ↔ ∃ i : Fin maxSensorId, r.sensorId = i.val := by
  constructor
  · rintro ⟨h0, hlt⟩
    exact ⟨⟨r.sensorId.toNat, (Int.toNat_lt h0).2 hlt⟩, (Int.toNat_of_nonneg h0).symm⟩
  · rintro ⟨i, hi⟩
    have hlt := i.isLt
    exact ⟨by omega, by omega⟩

theorem OutOfRange.not_inRange (h : OutOfRange r) : ¬ InRange r := by
  unfold OutOfRange InRange at *
  omega

theorem Follows.add (h : Follows s f) (hr : InRange r) :
    ∃ s', s.add r = .ok s' ∧ Follows s' (enter f r) := by
  obtain ⟨i, hi⟩ := inRange_iff.1 hr
  obtain ⟨s', hs', hsensor⟩ := s.add_eq hi
  refine ⟨s', hs', fun j => ?_⟩
  rw [hsensor, h, h, enter, hi]
  by_cases hj : j = i
  · rw [if_pos hj, hj, Function.update_self]
  · have hne : (j.val : ℤ) ≠ i.val := fun he => hj (Fin.ext (Int.ofNat.inj he))
    rw [if_neg hj, Function.update_of_ne hne]

/-- A record of no sensor does not count for one. -/
theorem Follows.skip (h : Follows s f) (hr : OutOfRange r) : Follows s (enter f r) := by
  intro i
  have hne : (i.val : ℤ) ≠ r.sensorId := fun he => hr.not_inRange (inRange_iff.2 ⟨i, he.symm⟩)
  rw [h, enter, Function.update_of_ne hne]

theorem readAll_out (h : OutOfRange r) (next : SenDatRec) (rest : List SenDatRec) :
    readAll (r :: next :: rest) s =
      { s with rcnt := s.rcnt + 1 }.add next >>= readAll rest := by
  rw [readAll]
  exact if_pos h

theorem readAll_in (h : ¬ OutOfRange r) (rest : List SenDatRec) :
    readAll (r :: rest) s = { s with rcnt := s.rcnt + 1 }.add r >>= readAll rest := by
  rw [readAll.eq_def]
  exact if_neg h

/-- The loop enters each record of a sensor. -/
theorem Follows.readAll {log : List SenDatRec} (h : Follows s f) (hlog : Readable log) :
    ∃ s', readAll log s = .ok s' ∧ Follows s' (log.foldl enter f) := by
  induction log, s using readAll.induct generalizing f with
  | case1 s => exact ⟨s, rfl, h⟩
  | case2 buffer s hout =>
    rcases hlog.1 with hin | ⟨-, next, hnext, -⟩
    · exact absurd hin (OutOfRange.not_inRange hout)
    · cases hnext
  | case3 buffer s hout next rest ih =>
    obtain ⟨hhead, -, hrest⟩ := hlog
    rcases hhead with hin | ⟨-, next', hnext, hin⟩
    · exact absurd hin (OutOfRange.not_inRange hout)
    · cases hnext
      have hrcnt : Follows { s with rcnt := s.rcnt + 1 } (enter f buffer) := h.skip hout
      obtain ⟨s₁, hs₁, h₁⟩ := hrcnt.add hin
      obtain ⟨s', hs', h'⟩ := ih s₁ h₁ hrest
      refine ⟨s', ?_, h'⟩
      rw [readAll_out hout, hs₁]
      exact hs'
  | case4 buffer rest s hin ih =>
    have hrcnt : Follows { s with rcnt := s.rcnt + 1 } f := h
    obtain ⟨s₁, hs₁, h₁⟩ := hrcnt.add (hlog.1.resolve_right fun ⟨hout, _⟩ => hin hout)
    obtain ⟨s', hs', h'⟩ := ih s₁ h₁ hlog.2
    refine ⟨s', ?_, h'⟩
    rw [readAll_in hin, hs₁]
    exact hs'

theorem inRange_of_add {s' : Totals} (h : s.add r = .ok s') : InRange r := by
  by_contra hr
  rw [s.add_fault hr] at h
  cases h

/-- A log that is read to its end is readable. -/
theorem readable_of_readAll {log : List SenDatRec} {s' : Totals} (h : readAll log s = .ok s') :
    Readable log := by
  induction log, s using readAll.induct with
  | case1 s => trivial
  | case2 buffer s hout =>
    rw [readAll] at h
    cases (if_pos hout).symm.trans h
  | case3 buffer s hout next rest ih =>
    rw [readAll_out hout] at h
    obtain ⟨s₁, hs₁, hrest⟩ := bind_eq_ok.1 h
    have hin := inRange_of_add hs₁
    exact ⟨.inr ⟨hout, next, rfl, hin⟩, .inl hin, ih s₁ hrest⟩
  | case4 buffer rest s hin ih =>
    rw [readAll_in hin] at h
    obtain ⟨s₁, hs₁, hrest⟩ := bind_eq_ok.1 h
    exact ⟨.inl (inRange_of_add hs₁), ih s₁ hrest⟩

/-! ## The totals of a sensor -/

variable {rs : List SenDatRec} {i : Fin maxSensorId}

theorem foldl_add (rs : List SenDatRec) (t : Sensor) :
    rs.foldl Sensor.add t =
      { count := t.count + rs.length
        sum := t.sum + (rs.map (·.temp)).sum
        max := (rs.map (·.temp)).foldl Max.max t.max
        min := (rs.map (·.temp)).foldl Min.min t.min
        first := (rs.map (·.ts)).foldl Max.max t.first
        last := (rs.map (·.ts)).foldl Max.max t.last } := by
  induction rs generalizing t with
  | nil => simp
  | cons r rs ih =>
    rw [List.foldl_cons, ih]
    simp [Sensor.add, add_assoc, add_comm (1 : ℤ)]

/-- The line of a sensor. -/
def Sensor.row (t : Sensor) (i : Fin maxSensorId) : Row where
  id := i
  ave := t.sum / t.count
  max := t.max
  min := t.min
  firstRead := t.first
  lastRead := t.last

theorem average_rows (s : Totals) :
    s.average.rows = (List.finRange maxSensorId).filterMap fun i =>
      if (s.sensor i).count > 0 then some ((s.sensor i).row i) else none := by
  unfold Totals.rows
  refine List.filterMap_congr fun i _ => ?_
  show (if (s.sensor i).count > 0 then _ else _) = _
  by_cases hi : (s.sensor i).count > 0
  · have hmean : s.average.avgT.get i = s.sumT.get i / s.hitCnt.get i := by
      simp only [Totals.average, get_eq, Vector.getElem_ofFn]
      exact if_pos hi
    rw [if_pos hi, if_pos hi, hmean]
    rfl
  · rw [if_neg hi, if_neg hi]

/-- The start values do not win, and all readings are of one time. -/
structure Within (first last : ℤ) (rs : List SenDatRec) : Prop where
  max : ∃ r ∈ rs, 0 ≤ r.temp
  min : ∃ r ∈ rs, r.temp ≤ 999
  first : ∀ r ∈ rs, first ≤ r.ts ∧ ∀ r' ∈ rs, r.ts = r'.ts
  last : ∃ r ∈ rs, last ≤ r.ts

theorem describes_iff (first last : ℤ) (hrs : rs ≠ []) (i : Fin maxSensorId) :
    Describes rs ((rs.foldl Sensor.add (.init first last)).row i) ↔ Within first last rs := by
  have hmax : IsGreatest {x | x ∈ rs.map (·.temp)} ((rs.map (·.temp)).foldl Max.max 0) ↔
      ∃ r ∈ rs, 0 ≤ r.temp := Running.isGreatest_foldl_max_iff.trans (by simp)
  have hmin : IsLeast {x | x ∈ rs.map (·.temp)} ((rs.map (·.temp)).foldl Min.min 999) ↔
      ∃ r ∈ rs, r.temp ≤ 999 := Running.isLeast_foldl_min_iff.trans (by simp)
  have hfirst : IsLeast {t | t ∈ rs.map (·.ts)} ((rs.map (·.ts)).foldl Max.max first) ↔
      ∀ r ∈ rs, first ≤ r.ts ∧ ∀ r' ∈ rs, r.ts = r'.ts :=
    Running.isLeast_foldl_max_iff.trans (by simp [hrs])
  have hlast : IsGreatest {t | t ∈ rs.map (·.ts)} ((rs.map (·.ts)).foldl Max.max last) ↔
      ∃ r ∈ rs, last ≤ r.ts := Running.isGreatest_foldl_max_iff.trans (by simp)
  rw [foldl_add]
  constructor
  · intro h
    exact ⟨hmax.1 h.max, hmin.1 h.min, hfirst.1 h.firstRead, hlast.1 h.lastRead⟩
  · intro h
    refine ⟨?_, hmax.2 h.max, hmin.2 h.min, hfirst.2 h.first, hlast.2 h.last⟩
    simp [Sensor.row, Sensor.init]

/-! ## The summary -/

/-- The totals when reading starts. -/
def start (cDate fDate : Vector ℤ maxSensorId) (k : ℤ) : Sensor :=
  .init (peek (fun _ => 0) fDate k) (peek (fun _ => 0) cDate k)

variable {cDate fDate : Vector ℤ maxSensorId} {log : List SenDatRec}

theorem follows_start (cDate fDate : Vector ℤ maxSensorId) :
    Follows (.init cDate fDate) (start cDate fDate) := by
  intro i
  simp [Totals.sensor, Totals.init, start, Sensor.init]

/-- After reading, the totals of a sensor are those of its records. -/
theorem Follows.sensor_eq (h : Follows s (log.foldl enter (start cDate fDate)))
    (i : Fin maxSensorId) :
    s.sensor i = (recordsOf log i).foldl Sensor.add (.init (fDate.get i) (cDate.get i)) := by
  have hkey := Running.foldl_update_apply (·.sensorId) Sensor.add log (start cDate fDate) i.val
  have hstart : start cDate fDate i.val = .init (fDate.get i) (cDate.get i) := by
    simp [start]
  rw [h, ← hstart]
  exact hkey

/-- The summary is right if the totals of each sensor that occurs describe its records. -/
theorem right_iff (h : Follows s (log.foldl enter (start cDate fDate))) :
    Right log s.average.rows ↔ ∀ i, recordsOf log i ≠ [] →
      Within (fDate.get i) (cDate.get i) (recordsOf log i) := by
  have hcount : ∀ i, (s.sensor i).count = (recordsOf log i).length := fun i => by
    rw [h.sensor_eq, foldl_add]
    exact zero_add _
  have hrows : s.average.rows = ((List.finRange maxSensorId).filter
      fun i => (recordsOf log i).length > 0).map fun i => (s.sensor i).row i := by
    rw [average_rows, ← List.filterMap_eq_map', List.filterMap_filter]
    refine List.filterMap_congr fun i _ => ?_
    simp [hcount]
  have hdescribes : ∀ i, recordsOf log i ≠ [] →
      (Describes (recordsOf log i) ((s.sensor i).row i) ↔
        Within (fDate.get i) (cDate.get i) (recordsOf log i)) := fun i hi => by
    rw [h.sensor_eq]
    exact describes_iff _ _ hi i
  rw [hrows]
  constructor
  · intro hright i hi
    have hmem : i ∈ (List.finRange maxSensorId).filter fun i => (recordsOf log i).length > 0 :=
      List.mem_filter.2 ⟨List.mem_finRange i, decide_eq_true (List.length_pos_of_ne_nil hi)⟩
    exact (hdescribes i hi).1 (hright.describes _ (List.mem_map_of_mem hmem))
  · intro hall
    refine ⟨?_, fun row hrow => ?_⟩
    · rw [List.map_map]
      exact List.map_id _
    · obtain ⟨i, hmem, rfl⟩ := List.mem_map.1 hrow
      have hi : recordsOf log i ≠ [] :=
        List.ne_nil_of_length_pos (of_decide_eq_true (List.mem_filter.1 hmem).2)
      exact (hdescribes i hi).2 (hall i hi)

/-- The summary is right exactly if the log can be read and, for each sensor that occurs in it, the
values that its totals start from do not win and all its readings are of one time. -/
theorem summary_iff (cDate fDate : Vector ℤ maxSensorId) (log : List SenDatRec) :
    Summary cDate fDate log ↔ Readable log ∧ ∀ i, recordsOf log i ≠ [] →
      Within (fDate.get i) (cDate.get i) (recordsOf log i) := by
  constructor
  · rintro ⟨rcnt, rows, hprocess, hright⟩
    obtain ⟨s, hs, hrows⟩ := bind_eq_ok.1 hprocess
    have hlog := readable_of_readAll hs
    obtain ⟨s', hs', hfollows⟩ := (follows_start cDate fDate).readAll hlog
    cases hs.symm.trans hs'
    cases Except.ok.inj hrows
    exact ⟨hlog, (right_iff hfollows).1 hright⟩
  · rintro ⟨hlog, hall⟩
    obtain ⟨s, hs, hfollows⟩ := (follows_start cDate fDate).readAll hlog
    refine ⟨s.rcnt, s.average.rows, ?_, (right_iff hfollows).2 hall⟩
    rw [process, hs]
    rfl

/-- Of two readings, the time of the second is printed as that of the first. -/
theorem not_summary : ¬ Summary (Vector.replicate maxSensorId 0) (Vector.replicate maxSensorId 0)
    [⟨1, 20, 10⟩, ⟨1, 21, 20⟩] := by
  rintro ⟨rcnt, rows, hprocess, hright⟩
  have hlines : ((process (Vector.replicate maxSensorId 0) (Vector.replicate maxSensorId 0)
      [⟨1, 20, 10⟩, ⟨1, 21, 20⟩]).toOption.map fun y => y.2.map fun row =>
        (row.id.val, row.firstRead)) = some [(1, 20)] := rfl
  rw [hprocess] at hlines
  have hrows : (rows.map fun row => (row.id.val, row.firstRead)) = [(1, 20)] :=
    Option.some.inj hlines
  obtain ⟨row, hrow, hline⟩ := List.mem_map.1 (hrows ▸ List.mem_singleton_self _)
  obtain ⟨hid, hfirst⟩ := Prod.mk.inj hline
  have hmem : (10 : ℤ) ∈ (recordsOf [⟨1, 20, 10⟩, ⟨1, 21, 20⟩] row.id).map (·.ts) := by
    simp [recordsOf, hid]
  have hle : row.firstRead ≤ 10 := (hright.describes row hrow).firstRead.2 hmem
  rw [hfirst] at hle
  exact absurd hle (by decide)

end PconTng.Master
