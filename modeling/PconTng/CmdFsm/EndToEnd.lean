import PconTng.CmdFsm.Edit
import PconTng.Dcon.UpdateRelays
import PconTng.Foundations.Timetable

/-!
# Time schedules from the keyboard to the relays

What the user means by an editing session is given by a reference machine with timetables (`Ref`):
the buffer maps minutes to "on" or "off", an assignment copies it to the selected cells of the
working table, and a replacement copies the working table to the active one. The command processor
follows the reference machine step by step (`Follows.step`), and a pass of the daemon then gives a
channel controlled by time what its active timetable gives (`timetable_end_to_end`), in every
session in which no minute is typed with more than three characters: with the terminator the text
of a longer one does not fit its field and runs over into the hour.
-/

namespace PconTng.EndToEnd

open CMemory CArray Keyed CmdFsm

/-! ## The operations -/

/-- A day or a channel as it is typed: `*`, or a number. -/
inductive Pick
  | all
  | one (t : Token)

/-- The operations of the user on a time schedule. -/
inductive Edit
  | hour (t : Token)
  | minute (t : Token)
  | on
  | off
  | delete
  | clear
  | assign (day channel : Pick)
  | replace

/-- The numbers are in range: a day is typed as 1 to 7. -/
def Edit.Valid : Edit → Prop
  | .hour t => 0 ≤ t.value ∧ t.value ≤ 23
  | .minute t => 0 ≤ t.value ∧ t.value ≤ 59
  | .assign day channel =>
    (∀ t, day = .one t → 1 ≤ t.value ∧ t.value ≤ 7) ∧
      ∀ t, channel = .one t → 0 ≤ t.value ∧ t.value ≤ 15
  | _ => True

/-- The text of a minute fits its field. -/
def Edit.Fits : Edit → Prop
  | .minute t => t.bytes.length ≤ 3
  | _ => True

/-- `*` -/
def star : Token := ⟨str "*", by decide, by decide⟩

/-- The command that sets the day. -/
def Pick.dayOp (env : Env) : Pick → Op
  | .all => ⟨env, .c32, star⟩
  | .one t => ⟨env, .c30, t⟩

/-- The command that assigns the buffer to the day that is set and to a channel. -/
def Pick.channelOp (env : Env) : Pick → Op
  | .all => ⟨env, .c31, star⟩
  | .one t => ⟨env, .c29, t⟩

/-- The commands of an operation. -/
def Edit.ops (env : Env) : Edit → List Op
  | .hour t => [⟨env, .c20, t⟩]
  | .minute t => [⟨env, .c21, t⟩]
  | .on => [⟨env, .c22, .on⟩]
  | .off => [⟨env, .c23, ⟨str "off", by decide, by decide⟩⟩]
  | .delete => [⟨env, .c24, ⟨str "delete", by decide, by decide⟩⟩]
  | .clear => [⟨env, .c33, ⟨str "clear", by decide, by decide⟩⟩]
  | .assign day channel => [day.dayOp env, channel.channelOp env]
  | .replace => [⟨env, .c39, ⟨str "replace", by decide, by decide⟩⟩]

/-- An operation of the user on the memory of the command processor. -/
def Edit.exec (env : Env) (w : World) (e : Edit) : Except Stop World :=
  (e.ops env).foldlM Op.exec w

/-! ## The reference machine -/

/-- Minutes of the day and "on" or "off", at most 50 of them. -/
abbrev OnOff : Type := Timetable ℤ Bool maxScheduleRecs

/-- The state for "on" and "off". -/
def onOff (b : Bool) : ℤ := if b then 1 else 0

/-- The reference machine: the working time, the buffer, and the two tables. -/
structure Ref where
  hour : ℤ
  minute : ℤ
  buffer : OnOff
  working : Fin daysPerWeek → Fin numberOfChannels → OnOff
  active : Fin daysPerWeek → Fin numberOfChannels → OnOff

/-- The index, counted from `base` by the user, is picked. -/
def Pick.Has (base : ℤ) (i : ℕ) : Pick → Prop
  | .all => True
  | .one t => t.value = i + base

instance (base : ℤ) (i : ℕ) : (p : Pick) → Decidable (p.Has base i)
  | .all => inferInstanceAs (Decidable True)
  | .one _ => inferInstanceAs (Decidable (_ = _))

/-- What an operation means. -/
def Ref.step (r : Ref) : Edit → Ref
  | .hour t => { r with hour := t.value }
  | .minute t => { r with minute := t.value }
  | .on => { r with buffer := r.buffer.put (r.hour * 60 + r.minute) true }
  | .off => { r with buffer := r.buffer.put (r.hour * 60 + r.minute) false }
  | .delete => { r with buffer := r.buffer.drop (r.hour * 60 + r.minute) }
  | .clear => { r with buffer := .empty }
  | .assign day channel => { r with
      working := fun d c => if day.Has 1 d ∧ channel.Has 0 c then r.buffer else r.working d c }
  | .replace => { r with active := r.working }

/-- No entries anywhere. -/
def Ref.start (hour minute : ℤ) : Ref :=
  ⟨hour, minute, .empty, fun _ _ => .empty, fun _ _ => .empty⟩

/-- The state that a timetable asks for: 0 if it is empty, and otherwise what it gives. -/
def Asks (m : OnOff) (k state : ℤ) : Prop :=
  m.entries.keys = ∅ ∧ state = 0 ∨ ∃ b, m.Gives k b ∧ state = onOff b

/-! ## Templates and timetables -/

/-- The template is the timetable. -/
structure Shows (t : TmplDat) (m : OnOff) : Prop extends t.Wf where
  represents : m.Represents SRec.key SRec.state onOff t.live

section Shows

variable {t t' : TmplDat} {m : OnOff}

theorem shows_empty (h : t.rcnt = 0) : Shows t .empty := by
  refine ⟨TmplDat.wf_of_rcnt_eq_zero h, ?_⟩
  have hlive : t.live = [] := by simp [TmplDat.live, front, h]
  rw [hlive]
  exact Timetable.represents_nil

/-- Adding a record puts an entry. -/
theorem Shows.add (h : Shows t m) {hour minute temp humid ret : ℤ} {b : Bool}
    (hadd : addTmplRec t hour minute (onOff b) temp humid = .ok (t', ret)) :
    Shows t' (m.put (hour * 60 + minute) b) := by
  obtain ⟨-, -, hc⟩ :=
    of_exists_ok (addTmplRec_cases h.toWf hour minute (onOff b) temp humid) hadd
  refine ⟨addTmplRec_wf h.toWf hadd, ?_⟩
  have hlen := h.length_live
  rcases hc with ⟨-, i, hi, hkey, -, hlive⟩ | ⟨hnone, ⟨-, rfl, hfull⟩ |
    ⟨-, -, hroom, i, hi, hlt, hgt, hlive⟩⟩
  · rw [hlive]
    exact h.represents.put_set hi (x := ⟨hour * 60 + minute, _, _, _⟩) hkey.symm rfl
  · exact h.represents.put_full (by omega) hnone b
  · rw [hlive]
    have h0 := h.nonneg
    exact h.represents.put_insertIdx (by omega) hi (x := ⟨hour * 60 + minute, _, _, _⟩) hlt hgt rfl

/-- Deleting a record drops an entry. -/
theorem Shows.del (h : Shows t m) {hour minute ret : ℤ}
    (hdel : delTmplRec t hour minute = .ok (t', ret)) :
    Shows t' (m.drop (hour * 60 + minute)) := by
  obtain ⟨-, -, hc⟩ := of_exists_ok (delTmplRec_cases h.toWf hour minute) hdel
  refine ⟨delTmplRec_wf h.toWf hdel, ?_⟩
  rcases hc with ⟨-, i, hi, hkey, -, hlive⟩ | ⟨-, rfl, hnone⟩
  · rw [hlive, ← hkey]
    exact h.represents.drop_eraseIdx hi
  · exact h.represents.drop_absent hnone

/-- **Looking up a template is asking the timetable.** -/
theorem Shows.asks (h : Shows t m) (stray : ℤ → SRec) (key : ℤ) :
    Asks m key (testSchTime stray key t) := by
  by_cases hnil : t.live = []
  · have hlen := h.length_live
    have h0 := h.nonneg
    rw [hnil, List.length_nil] at hlen
    exact .inl ⟨h.represents.eq_nil_iff.1 hnil, testSchTime_of_rcnt_eq_zero (by omega) key⟩
  · obtain ⟨r, hr⟩ := exists_inForce h.increasing hnil key
    obtain ⟨b, hb, hstate⟩ := h.represents.exists_gives hr
    exact .inr ⟨b, hb, (testSchTime_eq h.toWf hr).trans hstate⟩

end Shows

/-! ## The command processor follows the reference machine -/

/-- The memory of the command processor is that of the reference machine. -/
structure Follows (w : World) (r : Ref) : Prop where
  hour : w.cb.wHours = r.hour
  minute : w.cb.wMinutes = r.minute
  buffer : Shows w.cb.wTemplateBuffer r.buffer
  working : ∀ d c, Shows (w.cb.wSch.cell d c) (r.working d c)
  active : ∀ d c, Shows (w.ipc.sysData.sysSch.cell d c) (r.active d c)

variable {w w' : World} {r : Ref} {env : Env}

theorem Follows.read (h : Follows w r) (t : Token) : Follows (w.read t) r :=
  ⟨h.hour, h.minute, h.buffer, h.working, h.active⟩

theorem star_ne_null : (tokenType star).2 ≠ ttNull := by decide +kernel

theorem exec_single {o : Op} {P : World → Prop} (h : ∃ w', o.exec w = .ok w' ∧ P w') :
    ∃ w', [o].foldlM Op.exec w = .ok w' ∧ P w' := by
  obtain ⟨w', hw', hP⟩ := h
  refine ⟨w', ?_, hP⟩
  rw [List.foldlM_cons, hw']
  rfl

theorem Follows.setHour (h : Follows w r) (hv : 0 ≤ w.cb.tokenValue ∧ w.cb.tokenValue ≤ 23) :
    ∃ w' ret, c20 w = .ok (w', ret) ∧ Follows w' { r with hour := w.cb.tokenValue } := by
  refine ⟨_, 0, if_neg (by omega), ?_, h.minute, h.buffer, h.working, h.active⟩
  simp only [World.setCb, pokeHoursStr_wHours]

theorem Follows.setMinute (h : Follows w r) (hv : 0 ≤ w.cb.tokenValue ∧ w.cb.tokenValue ≤ 59)
    (hlen : w.cb.token.bytes.length ≤ 3) :
    ∃ w' ret, c21 w = .ok (w', ret) ∧ Follows w' { r with minute := w.cb.tokenValue } := by
  refine ⟨_, 0, if_neg (by omega), ?_, ?_, h.buffer, h.working, h.active⟩
  · simp only [World.setCb, pokeMinutesStr_wHours_of_short _ hlen]
    exact h.hour
  · simp only [World.setCb, pokeMinutesStr_wMinutes]

/-- "On" and "off". -/
theorem Follows.edit (h : Follows w r) {args : SRec → ℤ × ℤ × ℤ} {b : Bool}
    (hargs : ∀ hold, (args hold).1 = onOff b) :
    ∃ w' ret, editRec args w = .ok (w', ret) ∧
      Follows w' { r with buffer := r.buffer.put (r.hour * 60 + r.minute) b } := by
  obtain ⟨hold, t', ret, hedit, -, hadd⟩ := editRec_eq h.buffer.toWf args
  rw [hargs, h.hour, h.minute] at hadd
  exact ⟨_, _, hedit, h.hour, h.minute, h.buffer.add hadd, h.working, h.active⟩

theorem Follows.on (h : Follows w r) : ∃ w' ret, c22 w = .ok (w', ret) ∧
    Follows w' { r with buffer := r.buffer.put (r.hour * 60 + r.minute) true } := by
  unfold c22
  exact h.edit fun _ => rfl

theorem Follows.off (h : Follows w r) : ∃ w' ret, c23 w = .ok (w', ret) ∧
    Follows w' { r with buffer := r.buffer.put (r.hour * 60 + r.minute) false } := by
  unfold c23
  exact h.edit fun _ => rfl

theorem Follows.delete (h : Follows w r) : ∃ w' ret, c24 w = .ok (w', ret) ∧
    Follows w' { r with buffer := r.buffer.drop (r.hour * 60 + r.minute) } := by
  obtain ⟨t', ret, hc, hdel⟩ := c24_eq h.buffer.toWf
  rw [h.hour, h.minute] at hdel
  exact ⟨_, _, hc, h.hour, h.minute, h.buffer.del hdel, h.working, h.active⟩

theorem Follows.clear (h : Follows w r) : ∃ w' ret, c33 w = .ok (w', ret) ∧
    Follows w' { r with buffer := .empty } :=
  ⟨_, _, rfl, h.hour, h.minute, shows_empty rfl, h.working, h.active⟩

theorem Follows.replace (h : Follows w r) : ∃ w' ret, c39 w = .ok (w', ret) ∧
    Follows w' { r with active := r.working } :=
  ⟨_, _, rfl, h.hour, h.minute, h.buffer, h.working, h.working⟩

/-- The working day is the day that was picked. -/
structure DayIs (w : World) (day : Pick) : Prop where
  range : IndexOrAll daysPerWeek w.cb.wDay
  selects : ∀ d : Fin daysPerWeek, Selects w.cb.wDay d ↔ day.Has 1 d

theorem Follows.setDay (h : Follows w r) {t : Token} (hv : 1 ≤ t.value ∧ t.value ≤ 7)
    (ht : w.cb.tokenValue = t.value) :
    ∃ w' ret, c30 w = .ok (w', ret) ∧ Follows w' r ∧ DayIs w' (.one t) := by
  refine ⟨_, 0, if_pos ?_, ⟨h.hour, h.minute, h.buffer, h.working, h.active⟩, ?_, fun d => ?_⟩
  · simp only [daysPerWeek, Nat.cast_ofNat]
    omega
  · simp only [World.setCb, IndexOrAll, daysPerWeek, Nat.cast_ofNat]
    omega
  · have hd := d.isLt
    simp only [World.setCb, Selects, Pick.Has, daysPerWeek] at hd ⊢
    omega

theorem Follows.setAllDays (h : Follows w r) :
    ∃ w' ret, c32 w = .ok (w', ret) ∧ Follows w' r ∧ DayIs w' .all :=
  ⟨_, _, rfl, ⟨h.hour, h.minute, h.buffer, h.working, h.active⟩, .inl rfl,
    fun _ => ⟨fun _ => trivial, fun _ => .inl rfl⟩⟩

/-- `load_wsch` assigns the buffer to the cells that were picked. -/
theorem Follows.assign (h : Follows w r) {day channel : Pick} (hday : DayIs w day) {k : ℤ}
    (hk : IndexOrAll numberOfChannels k)
    (hchannel : ∀ c : Fin numberOfChannels, Selects k c ↔ channel.Has 0 c) :
    ∃ cb, loadWsch { w.cb with wChannel := k } = .ok cb ∧
      Follows (w.setCb cb) (r.step (.assign day channel)) := by
  obtain ⟨s, hs, hcell⟩ := loadWsch_eq { w.cb with wChannel := k } hday.range hk
  refine ⟨_, hs, h.hour, h.minute, h.buffer, fun d c => ?_, h.active⟩
  simp only [World.setCb, hcell, Ref.step, hday.selects, hchannel]
  split_ifs
  · exact h.buffer
  · exact h.working d c

/-- Picking the day. -/
theorem Follows.pickDay (h : Follows w r) (env : Env) {day : Pick}
    (hday : ∀ t, day = .one t → 1 ≤ t.value ∧ t.value ≤ 7) :
    ∃ w', (day.dayOp env).exec w = .ok w' ∧ Follows w' r ∧ DayIs w' day := by
  cases day with
  | all => exact Op.exec_of_run star_ne_null (h.read star).setAllDays
  | one t =>
    have hv := hday t rfl
    have hnull := tokenType_ne_null (t := t) (by omega)
    exact Op.exec_of_run hnull ((h.read t).setDay hv (if_neg hnull))

/-- Picking the channel. -/
theorem Follows.pickChannel (h : Follows w r) (env : Env) {day channel : Pick} (hday : DayIs w day)
    (hchannel : ∀ t, channel = .one t → 0 ≤ t.value ∧ t.value ≤ 15) :
    ∃ w', (channel.channelOp env).exec w = .ok w' ∧ Follows w' (r.step (.assign day channel)) := by
  cases channel with
  | all =>
    apply Op.exec_of_run star_ne_null
    have hsel : ∀ c : Fin numberOfChannels, Selects allChannels c ↔ Pick.all.Has 0 c :=
      fun _ => ⟨fun _ => trivial, fun _ => .inl rfl⟩
    obtain ⟨cb, hcb, hf⟩ := (h.read star).assign ⟨hday.range, hday.selects⟩ (.inl rfl) hsel
    exact ⟨_, _, bind_eq_ok.2 ⟨cb, hcb, rfl⟩, hf⟩
  | one t =>
    have hv := hchannel t rfl
    have hnull := tokenType_ne_null (t := t) hv.1
    have hvalue : (w.read t).cb.tokenValue = t.value := if_neg hnull
    have hk : IndexOrAll numberOfChannels (w.read t).cb.tokenValue :=
      hvalue ▸ .inr ⟨hv.1, hv.2.trans_lt (by decide)⟩
    have hsel : ∀ c : Fin numberOfChannels, Selects (w.read t).cb.tokenValue c ↔
        (Pick.one t).Has 0 c := by
      intro c
      simp only [hvalue, Selects, Pick.Has]
      omega
    obtain ⟨cb, hcb, hf⟩ := (h.read t).assign ⟨hday.range, hday.selects⟩ hk hsel
    exact Op.exec_of_run hnull ⟨_, _, bind_eq_ok.2 ⟨cb, hcb, rfl⟩, hf⟩

/-- **Each operation does what it means.** -/
theorem Follows.step (h : Follows w r) {e : Edit} (hv : e.Valid) (hf : e.Fits) :
    ∃ w', e.exec env w = .ok w' ∧ Follows w' (r.step e) := by
  cases e with
  | hour t =>
    have hnull := tokenType_ne_null (t := t) hv.1
    have hvalue : (w.read t).cb.tokenValue = t.value := if_neg hnull
    refine exec_single (Op.exec_of_run hnull ?_)
    have hset := (h.read t).setHour (hvalue ▸ hv)
    rwa [hvalue] at hset
  | minute t =>
    have hnull := tokenType_ne_null (t := t) hv.1
    have hvalue : (w.read t).cb.tokenValue = t.value := if_neg hnull
    refine exec_single (Op.exec_of_run hnull ?_)
    have hset := (h.read t).setMinute (hvalue ▸ hv) ((Token.length_text t).trans_le hf)
    rwa [hvalue] at hset
  | on => exact exec_single (Op.exec_of_run (by decide +kernel) (h.read _).on)
  | off => exact exec_single (Op.exec_of_run (by decide +kernel) (h.read _).off)
  | delete => exact exec_single (Op.exec_of_run (by decide +kernel) (h.read _).delete)
  | clear => exact exec_single (Op.exec_of_run (by decide +kernel) (h.read _).clear)
  | replace => exact exec_single (Op.exec_of_run (by decide +kernel) (h.read _).replace)
  | assign day channel =>
    obtain ⟨w₁, hw₁, h₁, hday⟩ := h.pickDay env hv.1
    obtain ⟨w', hw', h'⟩ := exec_single (h₁.pickChannel env hday hv.2)
    refine ⟨w', ?_, h'⟩
    simp only [Edit.exec, Edit.ops, List.foldlM_cons, hw₁]
    exact hw'

/-! ## Sessions and passes -/

/-- The buffer and both tables are empty. -/
structure Empty (w : World) : Prop where
  buffer : w.cb.wTemplateBuffer.rcnt = 0
  working : ∀ d c, (w.cb.wSch.cell d c).rcnt = 0
  active : ∀ d c, (w.ipc.sysData.sysSch.cell d c).rcnt = 0

/-- The reference machine after a session that starts with the working time of `w`. -/
def refAfter (w : World) (es : List Edit) : Ref :=
  es.foldl Ref.step (.start w.cb.wHours w.cb.wMinutes)

theorem Follows.of_empty (h : Empty w) : Follows w (.start w.cb.wHours w.cb.wMinutes) :=
  ⟨rfl, rfl, shows_empty h.buffer, fun d c => shows_empty (h.working d c),
    fun d c => shows_empty (h.active d c)⟩

/-- **Time schedules end to end.** Start with an empty buffer and empty tables and run any session
whose minutes fit their field. The session runs to its end, and when the daemon then finds the
active table in shared memory, it gives every channel controlled by time, at every weekday and
minute, the state that the active timetable of the reference machine asks for. -/
theorem timetable_end_to_end (h : Empty w) (es : List Edit) (hv : ∀ e ∈ es, e.Valid)
    (hf : ∀ e ∈ es, e.Fits) :
    ∃ w', es.foldlM (Edit.exec env) w = .ok w' ∧
      ∀ (stray : Stray) (garbage hold : ℤ) (tm : Tm) (ipc : IpcDat) (pins : ℕ → ℤ)
        (c : Fin numberOfChannels), ipc.sysData.sysSch = w'.ipc.sysData.sysSch →
        (ipc.sysData.cData.get c).mode = 1 →
        Asks ((refAfter w es).active tm.tmWday c) tm.key
          ((updateRelays stray garbage hold tm ipc pins).1.sysData.cData.get c).state := by
  obtain ⟨w', hw', hfollows⟩ := foldlM_simulation (R := Follows) (g := Ref.step)
    (C := fun e => e.Valid ∧ e.Fits) (fun _ _ _ hs hc => hs.step hc.1 hc.2) es w _
    (.of_empty h) (fun e he => ⟨hv e he, hf e he⟩)
  refine ⟨w', hw', fun stray garbage hold tm ipc pins c hsch hmode => ?_⟩
  rw [updateRelays_time pins hmode, hsch]
  exact (hfollows.active tm.tmWday c).asks _ _

def nine : Token := ⟨str "9", by decide, by decide⟩

def zero : Token := ⟨str "0", by decide, by decide⟩

def thirty : Token := ⟨str "30", by decide, by decide⟩

def longThirty : Token := ⟨str "00030", by decide, by decide⟩

/-- On from 8:00 and off from 9:30, for all days and channels. -/
def morning (halfPast : Token) : List Edit :=
  [.hour .eight, .minute zero, .on, .hour nine, .minute halfPast, .off, .assign .all .all, .replace]

theorem morning_valid {t : Token} (ht : t = thirty ∨ t = longThirty) :
    ∀ e ∈ morning t, e.Valid := by
  have h8 : 0 ≤ Token.eight.value ∧ Token.eight.value ≤ 23 := by decide +kernel
  have h9 : 0 ≤ nine.value ∧ nine.value ≤ 23 := by decide +kernel
  have h0 : 0 ≤ zero.value ∧ zero.value ≤ 59 := by decide +kernel
  have h30 : 0 ≤ t.value ∧ t.value ≤ 59 := by
    rcases ht with rfl | rfl <;> decide +kernel
  simp [morning, Edit.Valid, h8, h9, h0, h30]

theorem empty_zero : Empty World.zero := by
  have hcell : ∀ d c, (STab.zero.cell d c).rcnt = 0 := fun d c => by
    rw [STab.cell_zero]
    rfl
  exact ⟨rfl, hcell, hcell⟩

/-- The end of the morning session, with a minute that fits. -/
theorem timetable_end_to_end_morning : ∃ w', (morning thirty).foldlM (Edit.exec .calm) World.zero =
      .ok w' ∧ ∀ (stray : Stray) (garbage hold : ℤ) (tm : Tm) (ipc : IpcDat) (pins : ℕ → ℤ)
        (c : Fin numberOfChannels), ipc.sysData.sysSch = w'.ipc.sysData.sysSch →
        (ipc.sysData.cData.get c).mode = 1 →
        Asks ((refAfter World.zero (morning thirty)).active tm.tmWday c) tm.key
          ((updateRelays stray garbage hold tm ipc pins).1.sysData.cData.get c).state :=
  timetable_end_to_end empty_zero _ (morning_valid (.inl rfl))
    (by simp [morning, Edit.Fits]; decide)

/-- The last two characters of "00030" are written over the hour: in the code the channels are
switched off at 48:30, and in the reference machine at 9:30. -/
theorem morning_state : (((morning longThirty).foldlM (Edit.exec .calm) World.zero).toOption.map
    fun w => testSchTime (fun _ => SRec.zero) 600 (w.ipc.sysData.sysSch.cell 0 0)) = some 1 := by
  decide +kernel

theorem morning_entries : ((refAfter World.zero (morning longThirty)).active 0 0).entries =
    Finmap.insert 570 false (Finmap.insert 480 true ∅) := by
  decide +kernel

theorem morning_not_asks :
    ¬ Asks ((refAfter World.zero (morning longThirty)).active 0 0) 600 1 := by
  unfold Asks Timetable.Gives
  rw [morning_entries]
  have h570 : 570 ∈ Finmap.insert 570 false
      (Finmap.insert 480 true (∅ : Finmap fun _ : ℤ => Bool)) := by
    simp [Finmap.mem_insert]
  rintro (⟨hempty, -⟩ | ⟨b, ⟨e, he, hgreatest⟩, hb⟩)
  · rw [← Finmap.mem_keys, hempty] at h570
    simp at h570
  · obtain rfl : b = true := by
      cases b
      · exact absurd hb (by decide)
      · rfl
    rcases hgreatest with ⟨-, hmax⟩ | ⟨hbefore, -⟩
    · -- the entry of 9:30 is later than the one that is on
      have h570e : 570 ≤ e := hmax ⟨h570, by decide⟩
      by_cases h : e = 570
      · rw [h, Finmap.lookup_insert] at he
        cases he
      · have hmem := Finmap.mem_of_lookup_eq_some he
        simp only [Finmap.mem_insert, Finmap.notMem_empty, or_false] at hmem
        omega
    · exact absurd (hbefore 570 h570) (by decide)

/-- At 10:00 the two differ. -/
theorem timetable_end_to_end_fails : ¬ ∀ (env : Env) (w w' : World) (es : List Edit), Empty w →
    (∀ e ∈ es, e.Valid) → es.foldlM (Edit.exec env) w = .ok w' →
    ∀ (stray : Stray) (garbage hold : ℤ) (tm : Tm) (ipc : IpcDat) (pins : ℕ → ℤ)
      (c : Fin numberOfChannels), ipc.sysData.sysSch = w'.ipc.sysData.sysSch →
      (ipc.sysData.cData.get c).mode = 1 →
      Asks ((refAfter w es).active tm.tmWday c) tm.key
        ((updateRelays stray garbage hold tm ipc pins).1.sysData.cData.get c).state := by
  intro hall
  obtain ⟨w', hw, hone⟩ := exists_ok_of_map_toOption morning_state
  let ipc : IpcDat := { IpcDat.zero with sysData := { SysDat.zero with
    sysSch := w'.ipc.sysData.sysSch
    cData := .replicate _ { ChnDat.zero with mode := 1 } } }
  have hmode : (ipc.sysData.cData.get 0).mode = 1 := rfl
  have hasks := hall .calm World.zero w' _ empty_zero (morning_valid (.inr rfl)) hw
    ⟨fun _ _ _ => SRec.zero, fun _ _ => 0⟩ 0 0 ⟨0, 10, 0⟩ ipc (fun _ => 0) 0 rfl hmode
  rw [updateRelays_time _ hmode] at hasks
  apply morning_not_asks
  rw [← hone]
  exact hasks

end PconTng.EndToEnd
