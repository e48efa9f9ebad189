import PconTng.Foundations.Run
import PconTng.Pcon.Keys

/-!
# The history

A line that is recorded goes to the row `rb_in_idx` of the ring buffer, and the row behind is
cleared. So the rows in front of `rb_in_idx` hold lines that have been recorded, and as long as
there is one, the arrows bring back one of them. With `rb_in_idx` at 0, which it is before the first
line and again after every tenth, an arrow up goes to the row with the index -1, and an arrow down
to the cleared row 0. These are the only keys at which the history fails (`history_valid_iff`).
-/

namespace PconTng.LineEditor

open CMemory CArray CharFsm

/-! ## Sessions -/

/-- An editor with all lines that it has recorded. -/
structure Session where
  editor : Editor
  recorded : List (List Byte)

/-- The line that a key records. -/
def recordedBy (s : Editor) : Key → Option (List Byte)
  | .cr => s.newLine.toOption.join
  | _ => none

def Session.step (stray : ℤ → Row) (x : Session) (k : Key) : Except Stop Session := do
  let s ← LineEditor.step stray x.editor k
  return ⟨s, x.recorded ++ (recordedBy x.editor k).toList⟩

def Session.start : Session := ⟨Editor.start, []⟩

/-- The text in the work buffer. -/
def Editor.line (s : Editor) : List Byte := front s.workBuffer s.workBufferPtr

/-- An index of the ring buffer. -/
def IsIndex (idx : ℤ) : Prop := 0 ≤ idx ∧ idx < cmdBufferDepth

/-- The line is one that has been recorded, or empty if there is none. -/
def FromHistory (x : Session) (s : Editor) : Prop :=
  s.line ∈ x.recorded ∨ x.recorded = [] ∧ s.line = []

/-- The key uses indices of the ring buffer only, and an arrow brings back a recorded line, or an
empty one if there is none. -/
def HistoryValid (stray : ℤ → Row) (x : Session) : Key → Prop
  | .up => IsIndex x.editor.upIdx ∧ Post (FromHistory x) (LineEditor.step stray x.editor .up)
  | .down =>
    IsIndex x.editor.downIdx ∧ Post (FromHistory x) (LineEditor.step stray x.editor .down)
  | .cr => IsIndex x.editor.rbInIdx ∧ Post (fun s => IsIndex s.rbInIdx)
      (LineEditor.step stray x.editor .cr)
  | _ => True

/-- There is something to go back to in front of `rb_in_idx`. An arrow down may also find the
history empty, or an empty line in it. -/
def HistoryReady (x : Session) : Key → Prop
  | .up => x.editor.rbInIdx ≠ 0
  | .down => x.editor.rbInIdx ≠ 0 ∨ x.recorded = [] ∨ [] ∈ x.recorded
  | _ => True

/-! ## What the ring buffer holds -/

/-- The rows in front of `rb_in_idx` hold recorded lines, the row there is clear, and `rb_out_idx`
is not behind it. -/
structure Remembers (x : Session) : Prop where
  inv : Inv x.editor
  rows : ∀ i : Fin cmdBufferDepth, i.val < x.editor.rbInIdx →
    ∃ line ∈ x.recorded, cString (x.editor.ringBuffer.get i).toList = .ok line
  clear : ∀ i : Fin cmdBufferDepth, i.val = x.editor.rbInIdx →
    x.editor.ringBuffer.get i = .replicate _ 0
  out_le : x.editor.rbOutIdx ≤ x.editor.rbInIdx
  out_ge : -1 ≤ x.editor.rbOutIdx
  out_nonneg : x.editor.rbInIdx ≠ 0 → 0 ≤ x.editor.rbOutIdx

theorem remembers_start : Remembers Session.start where
  inv := inv_start
  rows i hi := absurd hi (by simp [Session.start, Editor.start])
  clear i _ := by simp [Session.start, Editor.start]
  out_le := le_rfl
  out_ge := by decide
  out_nonneg h := absurd rfl h

variable {x x' : Session} {stray : ℤ → Row} {s' : Editor}

theorem upIdx_eq (h : Remembers x) (hin : x.editor.rbInIdx ≠ 0) :
    0 ≤ x.editor.upIdx ∧ x.editor.upIdx < x.editor.rbInIdx := by
  have h0 := h.inv.in_nonneg
  have hle := h.out_le
  unfold Editor.upIdx
  dsimp only
  split_ifs <;> omega

theorem upIdx_of_zero (h : Remembers x) (hin : x.editor.rbInIdx = 0) : x.editor.upIdx = -1 := by
  have hle := h.out_le
  unfold Editor.upIdx
  dsimp only
  split_ifs <;> omega

theorem downIdx_eq (h : Remembers x) (hin : x.editor.rbInIdx ≠ 0) :
    0 ≤ x.editor.downIdx ∧ x.editor.downIdx < x.editor.rbInIdx := by
  have h0 := h.inv.in_nonneg
  have hout := h.out_nonneg hin
  unfold Editor.downIdx
  split_ifs <;> omega

theorem downIdx_of_zero (h : Remembers x) (hin : x.editor.rbInIdx = 0) :
    x.editor.downIdx = 0 := by
  have hge := h.out_ge
  unfold Editor.downIdx
  split_ifs <;> omega

/-! ## What an arrow brings back -/

/-- The line after an arrow is the string in the row. -/
theorem line_arrow {s : Editor} {idx : ℤ}
    (hs : Editor.arrowReprompt stray { s with rbOutIdx := idx } = .ok s') :
    cString (peek stray s.ringBuffer idx).toList = .ok s'.line := by
  obtain ⟨line, hline, rfl⟩ := arrowReprompt_cases hs
  have htake : Editor.line { s with
      rbOutIdx := idx
      workBuffer := (pokeStr s.workBuffer (line ++ [0])).1
      workBufferPtr := line.length
      inputPtr := line.length } = line := by
    rw [Editor.line, front, pokeStr_string _ (length_lt_of_cString hline), List.take_left]
  exact hline.trans (congrArg Except.ok htake.symm)

theorem peek_row (stray : ℤ → Row) (s : Editor) {idx : ℤ} (hidx : IsIndex idx) :
    ∃ i : Fin cmdBufferDepth, idx = i.val ∧ peek stray s.ringBuffer idx = s.ringBuffer.get i := by
  obtain ⟨i, rfl⟩ := Int.eq_ofNat_of_zero_le hidx.1
  have hlt : i < cmdBufferDepth := by exact_mod_cast hidx.2
  exact ⟨⟨i, hlt⟩, rfl, peek_natCast stray _ hlt⟩

/-- A row in front of `rb_in_idx` holds a recorded line. -/
theorem Remembers.arrow (h : Remembers x) {idx : ℤ}
    (hidx : 0 ≤ idx ∧ idx < x.editor.rbInIdx)
    (hs : Editor.arrowReprompt stray { x.editor with rbOutIdx := idx } = .ok s') :
    s'.line ∈ x.recorded := by
  obtain ⟨i, hi, hrow⟩ := peek_row stray x.editor
    (⟨hidx.1, hidx.2.trans h.inv.in_lt⟩ : IsIndex idx)
  obtain ⟨line, hmem, hline⟩ := h.rows i (hi ▸ hidx.2)
  have hs' := line_arrow hs
  rw [hrow, hline] at hs'
  cases hs'
  exact hmem

/-- The row at `rb_in_idx` is empty. -/
theorem Remembers.arrow_clear (h : Remembers x)
    (hs : Editor.arrowReprompt stray { x.editor with rbOutIdx := x.editor.rbInIdx } = .ok s') :
    s'.line = [] := by
  obtain ⟨i, hi, hrow⟩ := peek_row stray x.editor
    (⟨h.inv.in_nonneg, h.inv.in_lt⟩ : IsIndex x.editor.rbInIdx)
  have hempty : cString (Vector.replicate inputBufferSize (0 : Byte)).toList = .ok [] := by decide
  have hs' := line_arrow hs
  rw [hrow, h.clear i hi.symm, hempty] at hs'
  exact (Except.ok.inj hs').symm

/-! ## One key -/

/-- The two editors have the same history. -/
structure SameHistory (s s' : Editor) : Prop where
  ring : s'.ringBuffer = s.ringBuffer
  inIdx : s'.rbInIdx = s.rbInIdx
  outIdx : s'.rbOutIdx = s.rbOutIdx

theorem SameHistory.refl (s : Editor) : SameHistory s s := ⟨rfl, rfl, rfl⟩

theorem del_history {s : Editor} (h : Inv s) (hs : s.del = .ok s') : SameHistory s s' := by
  obtain ⟨-, rfl⟩ | ⟨buf, -, -, rfl, -⟩ := del_cases h hs
  · exact .refl _
  · exact ⟨rfl, rfl, rfl⟩

theorem other_history {s : Editor} (h : Inv s) {c : Byte} (hs : s.other c = .ok s') :
    SameHistory s s' := by
  obtain ⟨-, hlt, rfl⟩ | ⟨buf, -, -, rfl, -⟩ := other_cases h hs
  · exact ⟨rfl, rfl, rfl⟩
  · exact ⟨rfl, rfl, rfl⟩

/-- Nothing is recorded, and only `rb_out_idx` may be a different one. -/
theorem Remembers.keep (h : Remembers x) (hinv : Inv s')
    (hring : s'.ringBuffer = x.editor.ringBuffer) (hin : s'.rbInIdx = x.editor.rbInIdx)
    (hle : s'.rbOutIdx ≤ x.editor.rbInIdx) (hge : -1 ≤ s'.rbOutIdx)
    (hout : x.editor.rbInIdx ≠ 0 → 0 ≤ s'.rbOutIdx) : Remembers ⟨s', x.recorded⟩ where
  inv := hinv
  rows i hi := by
    rw [hring]
    exact h.rows i (hin ▸ hi)
  clear i hi := by
    rw [hring]
    exact h.clear i (hi.trans hin)
  out_le := hin ▸ hle
  out_ge := hge
  out_nonneg hne := hout (hin ▸ hne)

theorem Remembers.same (h : Remembers x) (hinv : Inv s') (hsame : SameHistory x.editor s') :
    Remembers ⟨s', x.recorded⟩ :=
  h.keep hinv hsame.ring hsame.inIdx (hsame.outIdx ▸ h.out_le) (hsame.outIdx ▸ h.out_ge)
    (hsame.outIdx ▸ h.out_nonneg)

theorem Remembers.submit (h : Remembers x) {passed : List Byte}
    (hs : x.editor.submit = .ok (s', passed)) : Remembers ⟨s', x.recorded⟩ := by
  have hinv := h.inv.submit hs
  obtain ⟨i, hi⟩ := h.inv.exists_in
  obtain ⟨-, rfl, -⟩ := submit_cases hi h.inv.ptr_le hs
  refine h.keep hinv ?_ rfl h.out_le h.out_ge h.out_nonneg
  -- the row has been clear before
  dsimp only
  rw [← h.clear i hi.symm]
  exact Vector.set_getElem_self i.isLt

/-- The new line is in the row at `rb_in_idx`, and the next row is cleared. -/
theorem Remembers.record (h : Remembers x) {line passed : List Byte} {s₁ : Editor}
    (hline : cString x.editor.workBuffer.toList = .ok line)
    (hrecord : x.editor.record line = .ok s₁) (hs : s₁.submit = .ok (s', passed)) :
    Remembers ⟨s', x.recorded ++ [line]⟩ := by
  have hinv₁ := h.inv.record hline hrecord
  have hinv := hinv₁.submit hs
  obtain ⟨i, hi⟩ := h.inv.exists_in
  obtain ⟨j, hj⟩ := hinv₁.exists_in
  obtain ⟨-, hs', -⟩ := submit_cases hj hinv₁.ptr_le hs
  have hs₁ := Except.ok.inj (hrecord.symm.trans (record_eq hi line))
  have hin : s'.rbInIdx = x.editor.nextIn := by rw [hs', hs₁]
  have hout : s'.rbOutIdx = x.editor.nextIn := by rw [hs', hs₁]
  have hring : s'.ringBuffer = (x.editor.ringBuffer.set i
      (pokeStr (x.editor.ringBuffer.get i) (line ++ [0])).1 i.isLt).set j (.replicate _ 0)
        j.isLt := by rw [hs', hs₁]
  have hj' : x.editor.nextIn = j.val := by rw [← hj, hs₁]
  obtain ⟨rest, -, h0⟩ := cString_eq_ok.1 hline
  have hnonneg := nextIn_nonneg h.inv
  refine ⟨hinv, fun k hk => ?_, fun k hk => ?_, ?_, ?_, fun _ => ?_⟩
  · have hk' : (k.val : ℤ) < x.editor.nextIn := hk.trans_eq hin
    have hlt : k.val < j.val ∧ k.val ≤ i.val := by
      refine ⟨by omega, ?_⟩
      rw [Editor.nextIn] at hk'
      split_ifs at hk' <;> omega
    rw [hring, get_eq, Vector.getElem_set_ne _ _ (by omega), Vector.getElem_set]
    split_ifs with hik
    · exact ⟨line, List.mem_append_right _ (List.mem_singleton_self line),
        cString_pokeStr _ (length_lt_of_cString hline) h0⟩
    · obtain ⟨line', hmem, hline'⟩ := h.rows k (by omega)
      exact ⟨line', List.mem_append_left _ hmem, hline'⟩
  · have hkj : k = j := Fin.ext (by have := hk.trans hin; omega)
    rw [hring, hkj, get_eq, Vector.getElem_set_self]
  · exact (hout.trans hin.symm).le
  · exact ((by decide : (-1 : ℤ) ≤ 0).trans hnonneg).trans_eq hout.symm
  · exact hnonneg.trans_eq hout.symm

/-- An arrow to the row with the index `idx`. -/
theorem Remembers.recall (h : Remembers x) {idx : ℤ} (hle : idx ≤ x.editor.rbInIdx)
    (hge : -1 ≤ idx) (hout : x.editor.rbInIdx ≠ 0 → 0 ≤ idx)
    (hs : Editor.arrowReprompt stray { x.editor with rbOutIdx := idx } = .ok s') :
    Remembers ⟨s', x.recorded⟩ := by
  have hinv := h.inv.arrow idx hs
  obtain ⟨line, -, rfl⟩ := arrowReprompt_cases hs
  exact h.keep hinv rfl rfl hle hge hout

theorem Remembers.up (h : Remembers x)
    (hs : Editor.arrowReprompt stray { x.editor with rbOutIdx := x.editor.upIdx } = .ok s') :
    Remembers ⟨s', x.recorded⟩ := by
  by_cases hin : x.editor.rbInIdx = 0
  · have hidx := upIdx_of_zero h hin
    exact h.recall (by omega) (by omega) (fun hne => absurd hin hne) hs
  · have hidx := upIdx_eq h hin
    exact h.recall hidx.2.le (by omega) (fun _ => hidx.1) hs

theorem Remembers.down (h : Remembers x)
    (hs : Editor.arrowReprompt stray { x.editor with rbOutIdx := x.editor.downIdx } = .ok s') :
    Remembers ⟨s', x.recorded⟩ := by
  by_cases hin : x.editor.rbInIdx = 0
  · have hidx := downIdx_of_zero h hin
    exact h.recall (by omega) (by omega) (fun hne => absurd hin hne) hs
  · have hidx := downIdx_eq h hin
    exact h.recall hidx.2.le (by omega) (fun _ => hidx.1) hs

theorem recordedBy_of_none {s : Editor} (hnew : s.newLine = .ok none) :
    recordedBy s .cr = none := by
  rw [recordedBy, hnew]
  rfl

theorem recordedBy_of_some {s : Editor} {line : List Byte} (hnew : s.newLine = .ok (some line)) :
    recordedBy s .cr = some line := by
  rw [recordedBy, hnew]
  rfl

/-- Every key keeps what the ring buffer is for. -/
theorem Remembers.step (h : Remembers x) {k : Key} (hx : x.step stray k = .ok x') :
    Remembers x' := by
  obtain ⟨s', hs, hx⟩ := bind_eq_ok.1 hx
  cases hx
  have hinv := h.inv.step hs
  have quiet : recordedBy x.editor k = none → Remembers ⟨s', x.recorded⟩ →
      Remembers ⟨s', x.recorded ++ (recordedBy x.editor k).toList⟩ := by
    intro hk hkeep
    rwa [hk, Option.toList_none, List.append_nil]
  cases k with
  | noChar =>
    cases hs
    exact quiet rfl (h.same hinv (.refl _))
  | up =>
    rw [step_up] at hs
    exact quiet rfl (h.up hs)
  | down =>
    rw [step_down] at hs
    exact quiet rfl (h.down hs)
  | right =>
    obtain ⟨p, -, rfl⟩ := right_cases h.inv hs
    exact quiet rfl (h.same hinv ⟨rfl, rfl, rfl⟩)
  | left =>
    obtain ⟨p, -, rfl⟩ := left_cases h.inv hs
    exact quiet rfl (h.same hinv ⟨rfl, rfl, rfl⟩)
  | escape =>
    cases hs
    exact quiet rfl (h.same hinv ⟨rfl, rfl, rfl⟩)
  | cr =>
    obtain ⟨passed, hcr⟩ := step_cr hs
    obtain ⟨hnew, hsubmit⟩ | ⟨line, s₁, hnew, hrecord, hsubmit⟩ := cr_cases hcr
    · exact quiet (recordedBy_of_none hnew) (h.submit hsubmit)
    · rw [recordedBy_of_some hnew, Option.toList_some]
      exact h.record (newLine_some hnew).2 hrecord hsubmit
  | del =>
    rw [step_del] at hs
    exact quiet rfl (h.same hinv (del_history h.inv hs))
  | other c =>
    rw [step_other] at hs
    exact quiet rfl (h.same hinv (other_history h.inv hs))

/-! ## When the history is valid -/

theorem IsIndex.not_neg_one : ¬ IsIndex (-1) := by
  rintro ⟨h, -⟩
  omega

theorem valid_up_iff (h : Remembers x) :
    HistoryReady x .up ↔ HistoryValid stray x .up := by
  constructor
  · intro hin
    have hidx := upIdx_eq h hin
    refine ⟨⟨hidx.1, hidx.2.trans h.inv.in_lt⟩, fun s' hs => .inl ?_⟩
    rw [step_up] at hs
    exact h.arrow hidx hs
  · rintro ⟨hidx, -⟩ hin
    rw [upIdx_of_zero h hin] at hidx
    exact IsIndex.not_neg_one hidx

/-- With `rb_in_idx` at 0 an arrow down brings back an empty line. -/
theorem Remembers.line_down (h : Remembers x) (hin : x.editor.rbInIdx = 0)
    (hs : LineEditor.step stray x.editor .down = .ok s') : s'.line = [] := by
  rw [step_down, downIdx_of_zero h hin, ← hin] at hs
  exact h.arrow_clear hs

theorem valid_down_iff (h : Remembers x) :
    HistoryReady x .down ↔ HistoryValid stray x .down := by
  by_cases hin : x.editor.rbInIdx = 0
  · have hidx : IsIndex x.editor.downIdx := by
      rw [downIdx_of_zero h hin]
      exact ⟨le_rfl, by decide⟩
    rw [HistoryReady, or_iff_right fun hne => hne hin]
    constructor
    · refine fun hall => ⟨hidx, fun s' hs => ?_⟩
      rw [FromHistory, h.line_down hin hs]
      exact hall.symm.imp_right fun hnil => ⟨hnil, rfl⟩
    · rintro ⟨-, hall⟩
      have hroom : Room stray x.editor .down := .inl hidx
      obtain ⟨s', hs⟩ := (step_isOk_iff h.inv .down).2 hroom
      have hs' := hall s' hs
      rw [FromHistory, h.line_down hin hs] at hs'
      exact hs'.symm.imp_left And.left
  · have hidx := downIdx_eq h hin
    refine iff_of_true (.inl hin) ⟨⟨hidx.1, hidx.2.trans h.inv.in_lt⟩, fun s' hs => .inl ?_⟩
    rw [step_down] at hs
    exact h.arrow hidx hs

theorem valid_cr (h : Remembers x) : HistoryValid stray x .cr := by
  refine ⟨⟨h.inv.in_nonneg, h.inv.in_lt⟩, fun s' hs => ?_⟩
  have hinv := h.inv.step hs
  exact ⟨hinv.in_nonneg, hinv.in_lt⟩

/-- **The history is valid exactly when it is ready**, at every key of every session. -/
theorem history_valid_iff (stray : ℤ → Row) (ks : List Key) :
    Throughout HistoryReady (Session.step stray) ks Session.start ↔
      Throughout (HistoryValid stray) (Session.step stray) ks Session.start := by
  refine throughout_congr (B := fun _ _ => True) (fun _ _ _ h _ hs => Remembers.step h hs)
    (fun x k h _ => ?_) ks _ remembers_start ?_
  · cases k with
    | up => exact valid_up_iff h
    | down => exact valid_down_iff h
    | cr => exact iff_of_true trivial (valid_cr h)
    | _ => exact Iff.rfl
  · exact throughout_of_forall (fun _ _ => trivial) ks _

/-- An arrow up at the start of the program goes to the row with the index -1. -/
theorem history_not_valid : ¬ ∀ (stray : ℤ → Row) (ks : List Key),
    Throughout (HistoryValid stray) (Session.step stray) ks Session.start := by
  intro hall
  have hup := (hall (fun _ => .replicate _ 0) [.up]).1.1
  exact IsIndex.not_neg_one hup

end PconTng.LineEditor
