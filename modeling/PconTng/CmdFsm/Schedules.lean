import PconTng.CmdFsm.Edit
import PconTng.CmdFsm.Frame

/-!
# Schedules in order

Templates are kept in four places: the edit buffer, the working table, the active table in shared
memory and the template library. A template is sound if it is well formed, its keys are minutes of
the day and its states 0 or 1. All templates stay sound in every session in which no hour or minute
of more than four characters is accepted (`schedules_sound`): the fifth character of a minute would
be written over the hour.
-/

namespace PconTng.Schedules

open CMemory CArray CmdFsm

/-- A template as the daemon expects it. -/
structure Sound (t : TmplDat) : Prop extends t.Wf where
  keys : ∀ r ∈ t.live, 0 ≤ r.key ∧ r.key < 1440
  states : ∀ (j : ℕ) (hj : j < maxScheduleRecs + 1), t.recs[j].state = 0 ∨ t.recs[j].state = 1

/-- All templates are sound, and the count of the library is in range. -/
structure AllSound (w : World) : Prop where
  buffer : Sound w.cb.wTemplateBuffer
  working : ∀ d c, Sound (w.cb.wSch.cell d c)
  active : ∀ d c, Sound (w.ipc.sysData.sysSch.cell d c)
  library : ∀ (i : ℕ) (hi : i < maxTemplates), Sound w.ipc.sysData.tplLib[i]
  count : 0 ≤ w.ipc.sysData.tplIndex ∧ w.ipc.sysData.tplIndex ≤ maxTemplates

/-- The operations of a session, with the tokens they may be given. -/
def Allowed (o : Op) : Prop :=
  match o.act with
  | .c20 | .c21 | .c22 | .c23 | .c24 | .c27 | .c28 | .c33 | .c14 | .c30 | .c31 | .c32 | .c39 => True
  | .c51 => (dequote o.token.text.bytes).length ≤ 39
  | .c61 => 0 ≤ o.token.value ∧ o.token.value ≤ 9
  | .c29 => 0 ≤ o.token.value ∧ o.token.value < numberOfChannels
  | _ => False

/-- The text of an hour or a minute that is accepted is not longer than its field. -/
def Fits (o : Op) : Prop :=
  o.act = .c20 ∧ 0 ≤ o.token.value ∧ o.token.value ≤ 23 ∨
    o.act = .c21 ∧ 0 ≤ o.token.value ∧ o.token.value ≤ 59 → o.token.bytes.length ≤ 4

/-! ## Sound templates -/

section Template

variable {t t' : TmplDat}

theorem sound_of_rcnt_eq_zero (h : t.rcnt = 0)
    (hstates : ∀ (j : ℕ) (hj : j < maxScheduleRecs + 1),
      t.recs[j].state = 0 ∨ t.recs[j].state = 1) : Sound t :=
  ⟨TmplDat.wf_of_rcnt_eq_zero h, by simp [TmplDat.live, front, h], hstates⟩

theorem sound_zero : Sound TmplDat.zero :=
  sound_of_rcnt_eq_zero rfl fun j hj => by simp [TmplDat.zero, SRec.zero]

theorem Sound.rename (h : Sound t) (name : Vector Byte templateNameSize) :
    Sound { t with name := name } :=
  ⟨⟨h.nonneg, h.le_max, h.increasing⟩, h.keys, h.states⟩

theorem Sound.clear (h : Sound t) : Sound { t with rcnt := 0 } :=
  sound_of_rcnt_eq_zero rfl h.states

/-- The states of a template whose records come from a sound one. -/
theorem Sound.states_of_from (h : Sound t) {P : SRec → Prop}
    (hP : ∀ r, P r → r.state = 0 ∨ r.state = 1) (hfrom : From P t.recs t'.recs) (j : ℕ)
    (hj : j < maxScheduleRecs + 1) : t'.recs[j].state = 0 ∨ t'.recs[j].state = 1 := by
  rcases hfrom j hj with hp | ⟨m, hm, he⟩
  · exact hP _ hp
  · exact he ▸ h.states m hm

theorem Sound.add (h : Sound t) {hour minute state temp humid ret : ℤ}
    (hhour : 0 ≤ hour ∧ hour < 24) (hminute : 0 ≤ minute ∧ minute < 60)
    (hstate : state = 0 ∨ state = 1)
    (hadd : addTmplRec t hour minute state temp humid = .ok (t', ret)) : Sound t' := by
  obtain ⟨-, hfrom, hc⟩ :=
    of_exists_ok (addTmplRec_cases h.toWf hour minute state temp humid) hadd
  refine ⟨addTmplRec_wf h.toWf hadd, ?_,
    h.states_of_from (fun r hr => by rwa [hr]) hfrom⟩
  have hkey : 0 ≤ hour * 60 + minute ∧ hour * 60 + minute < 1440 := by omega
  rcases hc with ⟨-, i, hi, -, -, hlive⟩ | ⟨-, ⟨-, rfl, -⟩ | ⟨-, -, -, i, hi, -, -, hlive⟩⟩
  · -- a record is replaced
    intro r hr
    rw [hlive] at hr
    rcases List.mem_or_eq_of_mem_set hr with hr | rfl
    · exact h.keys r hr
    · exact hkey
  · exact h.keys
  · -- a record is inserted
    intro r hr
    rw [hlive, List.mem_insertIdx hi] at hr
    rcases hr with rfl | hr
    · exact hkey
    · exact h.keys r hr

theorem Sound.del (h : Sound t) {hour minute ret : ℤ}
    (hdel : delTmplRec t hour minute = .ok (t', ret)) : Sound t' := by
  obtain ⟨-, hfrom, hc⟩ := of_exists_ok (delTmplRec_cases h.toWf hour minute) hdel
  refine ⟨delTmplRec_wf h.toWf hdel, ?_, h.states_of_from (fun _ hr => hr.elim) hfrom⟩
  rcases hc with ⟨-, i, hi, -, -, hlive⟩ | ⟨-, rfl, -⟩
  · intro r hr
    rw [hlive] at hr
    exact h.keys r (List.mem_of_mem_eraseIdx hr)
  · exact h.keys

theorem pokeRec_nil (r : SRec) : pokeRec r [] = (r, []) := rfl

theorem pokeTmpl_eq (t : TmplDat) (bs : List Byte) :
    pokeTmpl t bs = ⟨(pokeStr t.name bs).1, (pokeInt t.rcnt (pokeStr t.name bs).2).1,
      Vector.ofFn fun i => (pokeRec (t.recs.get i)
        ((pokeInt t.rcnt (pokeStr t.name bs).2).2.drop (16 * i))).1⟩ := rfl

/-- Nothing is written on the records. -/
theorem pokeRecs_nil (recs : Vector SRec (maxScheduleRecs + 1)) :
    (Vector.ofFn fun i => (pokeRec (recs.get i) (([] : List Byte).drop (16 * i))).1) = recs := by
  apply Vector.ext
  intro i hi
  simp only [Vector.getElem_ofFn, List.drop_nil, pokeRec_nil, get_eq]

/-- A name that is not longer than its field changes nothing else. -/
theorem pokeTmpl_of_short (t : TmplDat) {bs : List Byte} (h : bs.length ≤ 39) :
    ∃ name, pokeTmpl t (bs ++ [0]) = { t with name := name } := by
  have hlen : (bs ++ [0]).length ≤ templateNameSize := by
    rw [List.length_append, List.length_singleton]
    exact Nat.succ_le_succ h
  refine ⟨(pokeStr t.name (bs ++ [0])).1, ?_⟩
  rw [pokeTmpl_eq, pokeStr_rest t.name hlen, pokeInt_nil, pokeRecs_nil]

end Template

/-! ## What the routines keep -/

/-- All templates are sound and the time and day that the routines work with are in range. -/
structure Inv (w : World) : Prop extends AllSound w where
  hour : 0 ≤ w.cb.wHours ∧ w.cb.wHours < 24
  minute : 0 ≤ w.cb.wMinutes ∧ w.cb.wMinutes < 60
  day : IndexOrAll daysPerWeek w.cb.wDay

variable {w w' : World} {ret : ℤ} {env : Env}

theorem Inv.read (h : Inv w) (t : Token) : Inv (w.read t) :=
  ⟨⟨h.buffer, h.working, h.active, h.library, h.count⟩, h.hour, h.minute, h.day⟩

theorem Inv.withBuffer (h : Inv w) {t : TmplDat} (ht : Sound t) :
    Inv (w.setCb { w.cb with wTemplateBuffer := t }) :=
  ⟨⟨ht, h.working, h.active, h.library, h.count⟩, h.hour, h.minute, h.day⟩

theorem Inv.day_byte (h : Inv w) : 0 ≤ w.cb.wDay ∧ w.cb.wDay < 256 := by
  have hday := h.day
  simp only [IndexOrAll, daysPerWeek] at hday
  omega

theorem indexOrAll_of_text {n m : ℤ} (h : IndexOrAll daysPerWeek n) (hm : m = n ∨ m = 0) :
    IndexOrAll daysPerWeek m := by
  rcases hm with rfl | rfl
  · exact h
  · exact .inr (by decide)

theorem Inv.setHour (h : Inv w)
    (hlen : 0 ≤ w.cb.tokenValue ∧ w.cb.tokenValue ≤ 23 → w.cb.token.bytes.length ≤ 4) :
    ∃ w' ret, c20 w = .ok (w', ret) ∧ Inv w' := by
  unfold c20
  split_ifs with hv
  · exact ⟨_, _, rfl, h⟩
  · replace hlen := hlen (by omega)
    refine ⟨_, _, rfl, ⟨h.buffer, h.working, h.active, h.library, h.count⟩, ?_, h.minute, ?_⟩
    · simp only [World.setCb, pokeHoursStr_wHours]
      omega
    · simp only [World.setCb, pokeHoursStr_wDay]
      exact indexOrAll_of_text h.day (pokeInt_drop hlen h.day_byte.1 h.day_byte.2)

theorem Inv.setMinute (h : Inv w)
    (hlen : 0 ≤ w.cb.tokenValue ∧ w.cb.tokenValue ≤ 59 → w.cb.token.bytes.length ≤ 4) :
    ∃ w' ret, c21 w = .ok (w', ret) ∧ Inv w' := by
  unfold c21
  split_ifs with hv
  · exact ⟨_, _, rfl, h⟩
  · replace hlen := hlen (by omega)
    refine ⟨_, _, rfl, ⟨h.buffer, h.working, h.active, h.library, h.count⟩, ?_, ?_, ?_⟩
    · -- the terminator may clear the hour
      have hhour := h.hour
      simp only [World.setCb, pokeMinutesStr_wHours]
      rcases pokeInt_drop hlen hhour.1 (by omega) with he | he <;> rw [he]
      · exact hhour
      · decide
    · simp only [World.setCb, pokeMinutesStr_wMinutes]
      omega
    · simp only [World.setCb, pokeMinutesStr_wDay]
      exact indexOrAll_of_text h.day
        (pokeInt_drop (hlen.trans (by decide)) h.day_byte.1 h.day_byte.2)

/-- The commands that edit the record at the working time. -/
theorem Inv.edit (h : Inv w) {args : SRec → ℤ × ℤ × ℤ}
    (hargs : ∀ r : SRec, r.state = 0 ∨ r.state = 1 → (args r).1 = 0 ∨ (args r).1 = 1) :
    ∃ w' ret, editRec args w = .ok (w', ret) ∧ Inv w' := by
  obtain ⟨hold, t', ret, hedit, hfrom, hadd⟩ := editRec_eq h.buffer.toWf args
  refine ⟨_, _, hedit, h.withBuffer (h.buffer.add h.hour h.minute (hargs hold ?_) hadd)⟩
  rcases hfrom with rfl | ⟨i, hi, rfl⟩
  · exact .inl rfl
  · exact h.buffer.states i hi

theorem Inv.on (h : Inv w) : ∃ w' ret, c22 w = .ok (w', ret) ∧ Inv w' := by
  unfold c22
  exact h.edit fun _ _ => .inr rfl

theorem Inv.off (h : Inv w) : ∃ w' ret, c23 w = .ok (w', ret) ∧ Inv w' := by
  unfold c23
  exact h.edit fun _ _ => .inl rfl

theorem Inv.temperature (h : Inv w) : ∃ w' ret, c27 w = .ok (w', ret) ∧ Inv w' := by
  unfold c27
  exact h.edit fun _ hr => hr

theorem Inv.humidity (h : Inv w) : ∃ w' ret, c28 w = .ok (w', ret) ∧ Inv w' := by
  unfold c28
  exact h.edit fun _ hr => hr

theorem Inv.delete (h : Inv w) : ∃ w' ret, c24 w = .ok (w', ret) ∧ Inv w' := by
  obtain ⟨t', ret, hc, hdel⟩ := c24_eq h.buffer.toWf
  exact ⟨_, _, hc, h.withBuffer (h.buffer.del hdel)⟩

theorem Inv.clear (h : Inv w) : ∃ w' ret, c33 w = .ok (w', ret) ∧ Inv w' :=
  ⟨_, _, rfl, h.withBuffer h.buffer.clear⟩

theorem Inv.deleteTemplate (h : Inv w) : ∃ w' ret, c14 env w = .ok (w', ret) ∧ Inv w' := by
  have hcount := h.count
  unfold c14
  dsimp only
  split_ifs with hv
  · exact ⟨_, _, rfl, h⟩
  · obtain ⟨tplLib, hs, -, hfrom⟩ := shiftDown_erase env.strayTmpl w.ipc.sysData.tplLib
      (i := w.cb.tokenValue.toNat) (k := w.ipc.sysData.tplIndex.toNat) (by omega) (by omega)
    have hk : (w.ipc.sysData.tplIndex - 1 - w.cb.tokenValue).toNat =
        w.ipc.sysData.tplIndex.toNat - 1 - w.cb.tokenValue.toNat := by omega
    have hi : w.cb.tokenValue = (w.cb.tokenValue.toNat : ℕ) := by omega
    rw [← hk, ← hi] at hs
    simp only [hs, bind, Except.bind]
    refine ⟨_, _, rfl, ⟨h.buffer, h.working, h.active, fun i hi => ?_, ?_⟩, h.hour, h.minute,
      h.day⟩
    · rcases hfrom i hi with hf | ⟨m, hm, he⟩
      · exact hf.elim
      · exact he ▸ h.library m hm
    · simp only [World.setSysData]
      omega

theorem Inv.saveTemplate (h : Inv w) (hname : (dequote w.cb.token.bytes).length ≤ 39) :
    ∃ w' ret, c51 w = .ok (w', ret) ∧ Inv w' := by
  have hcount := h.count
  unfold c51
  dsimp only
  split_ifs with hfull
  · exact ⟨_, _, rfl, h⟩
  · obtain ⟨name, hpoke⟩ := pokeTmpl_of_short w.cb.wTemplateBuffer hname
    have hi : w.ipc.sysData.tplIndex = (w.ipc.sysData.tplIndex.toNat : ℕ) := by omega
    have hlt : w.ipc.sysData.tplIndex.toNat < maxTemplates := by omega
    have hstore := store_natCast w.ipc.sysData.tplLib hlt
      (pokeTmpl w.cb.wTemplateBuffer (dequote w.cb.token.bytes ++ [0]))
    rw [← hi] at hstore
    simp only [Token.dequote, hstore, bind, Except.bind, c33]
    refine ⟨_, _, rfl, ⟨h.buffer.clear, h.working, h.active, fun i hi => ?_, ?_⟩, h.hour,
      h.minute, h.day⟩
    · simp only [World.setCb, World.setSysData, Vector.getElem_set]
      split_ifs
      · exact hpoke ▸ h.buffer.rename name
      · exact h.library i hi
    · simp only [World.setCb, World.setSysData]
      omega

theorem Inv.loadTemplate (h : Inv w) (hv : 0 ≤ w.cb.tokenValue ∧ w.cb.tokenValue ≤ 9) :
    ∃ w' ret, c61 env w = .ok (w', ret) ∧ Inv w' := by
  refine ⟨_, _, rfl, h.withBuffer ?_⟩
  have hi : w.cb.tokenValue = (w.cb.tokenValue.toNat : ℕ) := by omega
  have hlt : w.cb.tokenValue.toNat < 10 := by omega
  rw [hi, peek_natCast _ _ hlt]
  exact h.library _ hlt

theorem Inv.setDay (h : Inv w) : ∃ w' ret, c30 w = .ok (w', ret) ∧ Inv w' := by
  unfold c30
  split_ifs with hv
  · refine ⟨_, _, rfl, ⟨h.buffer, h.working, h.active, h.library, h.count⟩, h.hour, h.minute,
      .inr ?_⟩
    simp only [World.setCb]
    omega
  · exact ⟨_, _, rfl, h⟩

theorem Inv.setAllDays (h : Inv w) : ∃ w' ret, c32 w = .ok (w', ret) ∧ Inv w' :=
  ⟨_, _, rfl, ⟨h.buffer, h.working, h.active, h.library, h.count⟩, h.hour, h.minute, .inl rfl⟩

/-- Assigning the edit buffer to one channel or to all. -/
theorem Inv.assign (h : Inv w) {k : ℤ} (hk : IndexOrAll numberOfChannels k) :
    ∃ cb, loadWsch { w.cb with wChannel := k } = .ok cb ∧ Inv (w.setCb cb) := by
  obtain ⟨s, hs, hcell⟩ := loadWsch_eq { w.cb with wChannel := k } h.day hk
  refine ⟨_, hs, ⟨h.buffer, fun d c => ?_, h.active, h.library, h.count⟩, h.hour, h.minute, h.day⟩
  simp only [World.setCb, hcell]
  split_ifs
  · exact h.buffer
  · exact h.working d c

theorem Inv.replace (h : Inv w) : ∃ w' ret, c39 w = .ok (w', ret) ∧ Inv w' :=
  ⟨_, _, rfl, ⟨h.buffer, h.working, h.working, h.library, h.count⟩, h.hour, h.minute, h.day⟩

/-! ## Sessions -/

/-- An operation returns and keeps all templates sound. -/
theorem Inv.step (h : Inv w) {o : Op} (ha : Allowed o) (hf : Fits o) :
    ∃ w', o.exec w = .ok w' ∧ Inv w' := by
  have hr := h.read o.token
  by_cases hnull : (tokenType o.token).2 = ttNull
  · exact ⟨_, by rw [Op.exec_eq, if_pos hnull], hr⟩
  · have hvalue : (w.read o.token).cb.tokenValue = o.token.value := if_neg hnull
    have hlen : (w.read o.token).cb.token.bytes.length = o.token.bytes.length :=
      Token.length_text o.token
    obtain ⟨env, act, token⟩ := o
    apply Op.exec_of_run hnull
    cases act <;> try exact ha.elim
    case c20 => exact hr.setHour fun hv => hlen ▸ hf (.inl ⟨rfl, hvalue ▸ hv⟩)
    case c21 => exact hr.setMinute fun hv => hlen ▸ hf (.inr ⟨rfl, hvalue ▸ hv⟩)
    case c22 => exact hr.on
    case c23 => exact hr.off
    case c24 => exact hr.delete
    case c27 => exact hr.temperature
    case c28 => exact hr.humidity
    case c33 => exact hr.clear
    case c14 => exact hr.deleteTemplate
    case c51 => exact hr.saveTemplate ha
    case c61 => exact hr.loadTemplate (hvalue ▸ ha)
    case c29 =>
      obtain ⟨cb, hcb, hinv⟩ := hr.assign (.inr (hvalue.symm ▸ (show 0 ≤ token.value ∧ _ from ha)))
      exact ⟨_, _, bind_eq_ok.2 ⟨cb, hcb, rfl⟩, hinv⟩
    case c30 => exact hr.setDay
    case c31 =>
      obtain ⟨cb, hcb, hinv⟩ := hr.assign (k := allChannels) (.inl rfl)
      exact ⟨_, _, bind_eq_ok.2 ⟨cb, hcb, rfl⟩, hinv⟩
    case c32 => exact hr.setAllDays
    case c39 => exact hr.replace

/-- Everything is zeroed. -/
def Zeroed (w : World) : Prop := w.cb = CmdFsmCb.zero ∧ w.ipc = IpcDat.zero

theorem Inv.of_zeroed (h : Zeroed w) : Inv w := by
  obtain ⟨cb, ipc, queue, bkup⟩ := w
  obtain ⟨rfl, rfl⟩ := h
  have hcell : ∀ d c, Sound (STab.zero.cell d c) := fun d c => by
    rw [STab.cell_zero]
    exact sound_zero
  have hlib : ∀ (i : ℕ) (hi : i < maxTemplates), Sound SysDat.zero.tplLib[i] := fun i hi => by
    simp only [SysDat.zero, Vector.getElem_replicate]
    exact sound_zero
  have h24 : (0 : ℤ) < 24 := by decide
  have h60 : (0 : ℤ) < 60 := by decide
  have h7 : (0 : ℤ) < daysPerWeek := by decide
  exact ⟨⟨sound_zero, hcell, hcell, hlib, ⟨le_rfl, Int.natCast_nonneg 10⟩⟩, ⟨le_rfl, h24⟩,
    ⟨le_rfl, h60⟩, .inr ⟨le_rfl, h7⟩⟩

/-- **All schedules stay in order.** From zeroed memory, every session of allowed operations whose
accepted hours and minutes fit their fields runs to its end, and all templates are sound then. -/
theorem schedules_sound (h : Zeroed w) (ops : List Op) (ha : ∀ o ∈ ops, Allowed o)
    (hf : ∀ o ∈ ops, Fits o) : ∃ w', ops.foldlM Op.exec w = .ok w' ∧ AllSound w' := by
  obtain ⟨w', hw', hinv⟩ := foldlM_simulation (R := fun w (_ : Unit) => Inv w)
    (g := fun _ _ => ()) (C := fun o => Allowed o ∧ Fits o)
    (fun _ _ _ hs hc => hs.step hc.1 hc.2) ops w () (.of_zeroed h)
    (fun o ho => ⟨ha o ho, hf o ho⟩)
  exact ⟨w', hw', hinv.toAllSound⟩

def longMinute : Token := ⟨str "00059", by decide, by decide⟩

/-- The hour 8 is set and a record is switched on. -/
theorem schedules_sound_eight : ∃ w', [⟨.calm, .c20, .eight⟩, ⟨.calm, .c22, .on⟩].foldlM Op.exec
    World.zero = .ok w' ∧ AllSound w' :=
  schedules_sound ⟨rfl, rfl⟩ _ (by simp [Allowed]) fun o ho _ => by
    simp only [List.mem_cons, List.not_mem_nil, or_false] at ho
    rcases ho with rfl | rfl <;> decide

/-- A session with a long minute. -/
def longSession : List Op :=
  [⟨.calm, .c20, .eight⟩, ⟨.calm, .c21, longMinute⟩, ⟨.calm, .c22, .on⟩]

/-- The last two characters of the minute are written over the hour, which becomes 57. -/
theorem longSession_key : ((longSession.foldlM Op.exec World.zero).toOption.map fun w =>
    w.cb.wTemplateBuffer.live.map SRec.key) = some [57 * 60 + 59] := by
  decide +kernel

/-- The record is then added for a minute that the day does not have. -/
theorem schedules_not_sound : ¬ ∀ (ops : List Op) (w w' : World), Zeroed w →
    (∀ o ∈ ops, Allowed o) → ops.foldlM Op.exec w = .ok w' → AllSound w' := by
  intro hall
  obtain ⟨w', hw, hlive⟩ := exists_ok_of_map_toOption longSession_key
  have hsound := hall longSession World.zero w' ⟨rfl, rfl⟩ (by simp [longSession, Allowed]) hw
  have hmem : (57 * 60 + 59 : ℤ) ∈ w'.cb.wTemplateBuffer.live.map SRec.key := by
    rw [hlive]
    exact List.mem_singleton_self _
  obtain ⟨r, hr, hk⟩ := List.mem_map.1 hmem
  have hrange := (hsound.buffer.keys r hr).2
  rw [hk] at hrange
  exact absurd hrange (by decide)

end PconTng.Schedules
