import PconTng.CmdFsm.Session

/-!
# The edit buffer

What the routines that set the time and edit the template in the edit buffer do, as long as the
template is well formed: they return (`editRec_eq`, `c24_eq`), and the texts of the hour and the
minute that they keep change what lies behind only when they are too long.
-/

namespace PconTng

open CMemory CArray

/-! ## The texts of the hour and the minute -/

@[simp] theorem pokeHoursStr_wHours (cb : CmdFsmCb) (bs : List Byte) :
    (pokeHoursStr cb bs).wHours = cb.wHours := rfl

@[simp] theorem pokeHoursStr_wMinutes (cb : CmdFsmCb) (bs : List Byte) :
    (pokeHoursStr cb bs).wMinutes = cb.wMinutes := rfl

@[simp] theorem pokeHoursStr_wTemplateBuffer (cb : CmdFsmCb) (bs : List Byte) :
    (pokeHoursStr cb bs).wTemplateBuffer = cb.wTemplateBuffer := rfl

@[simp] theorem pokeHoursStr_wSch (cb : CmdFsmCb) (bs : List Byte) :
    (pokeHoursStr cb bs).wSch = cb.wSch := rfl

@[simp] theorem pokeMinutesStr_wMinutes (cb : CmdFsmCb) (bs : List Byte) :
    (pokeMinutesStr cb bs).wMinutes = cb.wMinutes := rfl

@[simp] theorem pokeMinutesStr_wTemplateBuffer (cb : CmdFsmCb) (bs : List Byte) :
    (pokeMinutesStr cb bs).wTemplateBuffer = cb.wTemplateBuffer := rfl

@[simp] theorem pokeMinutesStr_wSch (cb : CmdFsmCb) (bs : List Byte) :
    (pokeMinutesStr cb bs).wSch = cb.wSch := rfl

theorem pokeMinutesStr_wHours (cb : CmdFsmCb) (bs : List Byte) :
    (pokeMinutesStr cb bs).wHours = (pokeInt cb.wHours (bs.drop 4)).1 := rfl

/-- A minute of at most three characters leaves the hour alone. -/
theorem pokeMinutesStr_wHours_of_short (cb : CmdFsmCb) {bs : List Byte} (h : bs.length ≤ 3) :
    (pokeMinutesStr cb (bs ++ [0])).wHours = cb.wHours := by
  have hlen : (bs ++ [0]).length ≤ 4 := by
    rw [List.length_append, List.length_singleton]
    omega
  rw [pokeMinutesStr_wHours, List.drop_eq_nil_of_le hlen]
  rfl

/-! ## Editing the template -/

variable {t : TmplDat} {w : World}

/-- The record that is looked for is one of the template's or a record of zeros. -/
theorem holdRec_eq (h : t.Wf) (hour minute : ℤ) :
    ∃ r, CmdFsm.holdRec t hour minute = .ok r ∧
      (r = SRec.zero ∨ ∃ (i : ℕ) (hi : i < maxScheduleRecs + 1), r = t.recs[i]) := by
  unfold CmdFsm.holdRec findTmplKey
  dsimp only
  cases hf : (List.range t.rcnt.toNat).find? fun _ => (t.recs.get 0).key = hour * 60 + minute with
  | none => exact ⟨SRec.zero, if_neg (by decide), .inl rfl⟩
  | some i =>
    have hi : i < maxScheduleRecs + 1 := by
      have hmem := List.mem_range.1 (List.mem_of_find?_eq_some hf)
      have hmax := h.toNat_le
      omega
    refine ⟨t.recs[i], ?_, .inr ⟨i, hi, rfl⟩⟩
    dsimp only
    rw [if_pos (by omega), load_natCast _ hi]

theorem loadTemps_eq (h : t.Wf) : loadTemps t = .ok () := by
  unfold loadTemps
  rw [if_neg (not_lt.2 h.le_max), ite_self]

/-- Editing a record adds the record to the template in the edit buffer. -/
theorem editRec_eq (h : w.cb.wTemplateBuffer.Wf) (args : SRec → ℤ × ℤ × ℤ) :
    ∃ hold t' ret, CmdFsm.editRec args w = .ok (w.setCb { w.cb with wTemplateBuffer := t' }, 0) ∧
      (hold = SRec.zero ∨
        ∃ (i : ℕ) (hi : i < maxScheduleRecs + 1), hold = w.cb.wTemplateBuffer.recs[i]) ∧
      addTmplRec w.cb.wTemplateBuffer w.cb.wHours w.cb.wMinutes (args hold).1 (args hold).2.1
        (args hold).2.2 = .ok (t', ret) := by
  obtain ⟨hold, hhold, hfrom⟩ := holdRec_eq h w.cb.wHours w.cb.wMinutes
  obtain ⟨t', ret, hadd, -⟩ := addTmplRec_cases h w.cb.wHours w.cb.wMinutes (args hold).1
    (args hold).2.1 (args hold).2.2
  refine ⟨hold, t', ret, ?_, hfrom, hadd⟩
  simp only [CmdFsm.editRec, hhold, hadd, loadTemps_eq (addTmplRec_wf h hadd), bind, Except.bind]
  rfl

/-- Deleting a record deletes it from the template in the edit buffer. -/
theorem c24_eq (h : w.cb.wTemplateBuffer.Wf) :
    ∃ t' ret, CmdFsm.c24 w = .ok (w.setCb { w.cb with wTemplateBuffer := t' }, 0) ∧
      delTmplRec w.cb.wTemplateBuffer w.cb.wHours w.cb.wMinutes = .ok (t', ret) := by
  obtain ⟨t', ret, hdel, -⟩ := delTmplRec_cases h w.cb.wHours w.cb.wMinutes
  refine ⟨t', ret, ?_, hdel⟩
  simp only [CmdFsm.c24, hdel, loadTemps_eq (delTmplRec_wf h hdel), bind, Except.bind]
  rfl

end PconTng
