import PconTng.Pcon.LineEditor

/-!
# What the keys do

The editor's pointers and its input index stay in range, and the strings that it has recorded stay
terminated (`Inv`), whatever is typed. A key returns exactly when there is room for what it writes
(`step_isOk_iff`).
-/

namespace PconTng.LineEditor

open CMemory CArray CharFsm

variable {s s' : Editor} {stray : ℤ → Row}

/-! ## Moving a part of the line -/

/-- The `k` characters in `a` have in `b` a character `c` in front of the one with the index `i`,
and a terminator behind. -/
structure Opened (a b : Row) (i k : ℕ) (c : Byte) : Prop where
  before : ∀ (j : ℕ) (hj : j < inputBufferSize), j < i → b[j] = a[j]
  new : ∀ hj : i < inputBufferSize, b[i] = c
  moved : ∀ (j : ℕ) (hj : j + 1 < inputBufferSize), i ≤ j → j < k → b[j + 1] = a[j]
  nul : ∀ hj : k + 1 < inputBufferSize, b[k + 1] = 0
  behind : ∀ (j : ℕ) (hj : j < inputBufferSize), k + 1 < j → b[j] = a[j]

/-- The `k` characters in `a` are in `b` without the one with the index `i`, and with terminators
behind. -/
structure Closed (a b : Row) (i k : ℕ) : Prop where
  before : ∀ (j : ℕ) (hj : j < inputBufferSize), j < i → b[j] = a[j]
  moved : ∀ (j : ℕ) (hj : j + 1 < inputBufferSize), i ≤ j → j + 1 < k → b[j] = a[j + 1]
  nul : ∀ (j : ℕ) (hj : j < inputBufferSize), k ≤ j + 1 → j ≤ k → b[j] = 0
  behind : ∀ (j : ℕ) (hj : j < inputBufferSize), k < j → b[j] = a[j]

namespace Editor

theorem addEnd_eq (c : Byte) (hlt : s.workBufferPtr < inputBufferSize) :
    s.addEnd c = .ok { s with
      workBuffer := s.workBuffer.set s.workBufferPtr c hlt
      workBufferPtr := s.workBufferPtr + 1
      inputPtr := s.workBufferPtr + 1 } := by
  rw [addEnd, store_natCast s.workBuffer hlt]
  rfl

theorem addInside_eq (c : Byte) (hle : s.inputPtr ≤ s.workBufferPtr)
    (hlt : s.workBufferPtr + 1 < inputBufferSize) : ∃ buf : Row,
    s.addInside c = .ok { s with
      workBuffer := buf, workBufferPtr := s.workBufferPtr + 1, inputPtr := s.inputPtr + 1 } ∧
    Opened s.workBuffer buf s.inputPtr s.workBufferPtr c := by
  obtain ⟨buf, hbuf, hj⟩ := @shiftUp_eq _ _ behind (s.workBufferPtr - s.inputPtr) (s.inputPtr + 1)
    (s.workBuffer.set (s.workBufferPtr + 1) 0) (by omega)
  have hidx : ((s.inputPtr + 1 : ℕ) + (s.workBufferPtr - s.inputPtr : ℕ) - 1 : ℤ) =
      s.workBufferPtr := by omega
  rw [hidx] at hbuf
  have hin : s.inputPtr < inputBufferSize := by omega
  have hstore : store s.workBuffer (s.workBufferPtr + 1 : ℤ) 0 =
      .ok (s.workBuffer.set (s.workBufferPtr + 1) 0) := store_natCast s.workBuffer hlt 0
  refine ⟨buf.set s.inputPtr c, ?_, ?_, ?_, ?_, ?_, ?_⟩
  · simp only [addInside, hstore, hbuf, store_natCast buf hin, bind, Except.bind]
    rfl
  · intro j hjn hlt'
    rw [Vector.getElem_set_ne _ _ (by omega), hj j hjn, if_neg (by omega),
      Vector.getElem_set_ne _ _ (by omega)]
  · intro hjn
    rw [Vector.getElem_set_self]
  · intro j hjn hge hlt'
    have hpeek : peek behind (s.workBuffer.set (s.workBufferPtr + 1) 0) ((j + 1 : ℕ) - 1 : ℤ) =
        (s.workBuffer.set (s.workBufferPtr + 1) 0)[j] := by
      rw [← peek_natCast behind _ (by omega : j < inputBufferSize)]
      congr 1
      omega
    rw [Vector.getElem_set_ne _ _ (by omega), hj _ hjn, if_pos (by omega), hpeek,
      Vector.getElem_set_ne _ _ (by omega)]
  · intro hjn
    rw [Vector.getElem_set_ne _ _ (by omega), hj _ hjn, if_neg (by omega), Vector.getElem_set_self]
  · intro j hjn hlt'
    rw [Vector.getElem_set_ne _ _ (by omega), hj j hjn, if_neg (by omega),
      Vector.getElem_set_ne _ _ (by omega)]

theorem addInside_full (c : Byte) (hfull : inputBufferSize ≤ s.workBufferPtr + 1) :
    s.addInside c = .error .fault := by
  have hstore : store s.workBuffer (s.workBufferPtr + 1 : ℤ) 0 = .error .fault :=
    store_of_le s.workBuffer hfull 0
  rw [addInside, hstore]
  rfl

theorem delEnd_eq (hpos : 0 < s.workBufferPtr) (hlt : s.workBufferPtr < inputBufferSize) :
    ∃ buf : Row, s.delEnd = .ok { s with
      workBuffer := buf, workBufferPtr := s.workBufferPtr - 1, inputPtr := s.workBufferPtr - 1 } ∧
    Closed s.workBuffer buf (s.workBufferPtr - 1) s.workBufferPtr := by
  have hlt' : s.workBufferPtr - 1 < inputBufferSize := by omega
  have hstore : store (s.workBuffer.set s.workBufferPtr 0) (s.workBufferPtr - 1 : ℤ) 0 =
      .ok ((s.workBuffer.set s.workBufferPtr 0).set (s.workBufferPtr - 1) 0) := by
    rw [← store_natCast _ hlt']
    congr 1
    omega
  refine ⟨(s.workBuffer.set s.workBufferPtr 0).set (s.workBufferPtr - 1) 0, ?_, ?_, ?_, ?_, ?_⟩
  · simp only [delEnd, store_natCast s.workBuffer hlt, hstore, bind, Except.bind]
    rfl
  · intro j hj hji
    rw [Vector.getElem_set_ne _ _ (by omega), Vector.getElem_set_ne _ _ (by omega)]
  · omega
  · intro j hj hge hle
    rw [Vector.getElem_set, Vector.getElem_set]
    split_ifs <;> first | rfl | omega
  · intro j hj hlt'
    rw [Vector.getElem_set_ne _ _ (by omega), Vector.getElem_set_ne _ _ (by omega)]

theorem shiftDown_line (hpos : 0 < s.inputPtr) (hlt : s.inputPtr < s.workBufferPtr)
    (hle : s.workBufferPtr ≤ inputBufferSize) : ∃ buf : Row,
    shiftDown behind (s.workBufferPtr - (s.inputPtr - 1)) (s.inputPtr - 1 : ℤ) s.workBuffer =
      .ok buf ∧ ∀ (j : ℕ) (hj : j < inputBufferSize),
        buf[j] = if s.inputPtr - 1 ≤ j ∧ j < s.workBufferPtr then peek behind s.workBuffer (j + 1)
          else s.workBuffer[j] := by
  obtain ⟨buf, hbuf, hj⟩ := @shiftDown_eq _ _ behind (s.workBufferPtr - (s.inputPtr - 1))
    (s.inputPtr - 1) s.workBuffer (by omega)
  have hidx : ((s.inputPtr - 1 : ℕ) : ℤ) = s.inputPtr - 1 := by omega
  have hend : s.inputPtr - 1 + (s.workBufferPtr - (s.inputPtr - 1)) = s.workBufferPtr := by omega
  rw [hidx] at hbuf
  rw [hend] at hj
  exact ⟨buf, hbuf, hj⟩

theorem delInside_eq (hpos : 0 < s.inputPtr) (hlt : s.inputPtr < s.workBufferPtr)
    (hlt' : s.workBufferPtr < inputBufferSize) : ∃ buf : Row, s.delInside = .ok { s with
      workBuffer := buf, workBufferPtr := s.workBufferPtr - 1, inputPtr := s.inputPtr - 1 } ∧
    Closed s.workBuffer buf (s.inputPtr - 1) s.workBufferPtr := by
  obtain ⟨buf, hbuf, hj⟩ := shiftDown_line hpos hlt hlt'.le
  have hlt₁ : s.workBufferPtr - 1 < inputBufferSize := by omega
  have hstore : store (buf.set s.workBufferPtr 0) (s.workBufferPtr - 1 : ℤ) 0 =
      .ok ((buf.set s.workBufferPtr 0).set (s.workBufferPtr - 1) 0) := by
    rw [← store_natCast _ hlt₁]
    congr 1
    omega
  refine ⟨(buf.set s.workBufferPtr 0).set (s.workBufferPtr - 1) 0, ?_, ?_, ?_, ?_, ?_⟩
  · simp only [delInside, hbuf, store_natCast buf hlt', hstore, bind, Except.bind]
    rfl
  · intro j hjn hji
    rw [Vector.getElem_set_ne _ _ (by omega), Vector.getElem_set_ne _ _ (by omega), hj j hjn,
      if_neg (by omega)]
  · intro j hjn hge hjlt
    have hpeek : peek behind s.workBuffer (j + 1 : ℤ) = s.workBuffer[j + 1] :=
      peek_natCast behind _ hjn
    rw [Vector.getElem_set_ne _ _ (by omega), Vector.getElem_set_ne _ _ (by omega), hj _ _,
      if_pos (by omega), hpeek]
  · intro j hjn hge hle
    rw [Vector.getElem_set, Vector.getElem_set]
    split_ifs <;> first | rfl | omega
  · intro j hjn hjlt
    rw [Vector.getElem_set_ne _ _ (by omega), Vector.getElem_set_ne _ _ (by omega), hj j hjn,
      if_neg (by omega)]

/-- A delete closes the gap wherever it is. -/
theorem del_eq (hpos : 0 < s.inputPtr) (hle : s.inputPtr ≤ s.workBufferPtr)
    (hlt : s.workBufferPtr < inputBufferSize) : ∃ buf : Row, s.del = .ok { s with
      workBuffer := buf, workBufferPtr := s.workBufferPtr - 1, inputPtr := s.inputPtr - 1 } ∧
    Closed s.workBuffer buf (s.inputPtr - 1) s.workBufferPtr := by
  rw [del, if_neg (Nat.ne_of_gt hpos)]
  split_ifs with heq
  · rw [heq] at hpos ⊢
    exact delEnd_eq hpos hlt
  · exact delInside_eq hpos (by omega) hlt

/-- In a full buffer it writes behind the buffer. -/
theorem del_full (hpos : 0 < s.inputPtr) (hle : s.inputPtr ≤ s.workBufferPtr)
    (hfull : s.workBufferPtr = inputBufferSize) : s.del = .error .fault := by
  rw [del, if_neg (Nat.ne_of_gt hpos)]
  split_ifs with heq
  · rw [delEnd, store_of_le _ hfull.ge]
    rfl
  · obtain ⟨buf, hbuf, -⟩ := shiftDown_line hpos (by omega) hfull.le
    simp only [delInside, hbuf, store_of_le _ hfull.ge, bind, Except.bind]

end Editor

/-! ## The invariant -/

/-- The pointers and `rb_in_idx` are in range, and the recorded strings are terminated. -/
structure Inv (s : Editor) : Prop where
  input_le : s.inputPtr ≤ s.workBufferPtr
  ptr_le : s.workBufferPtr ≤ inputBufferSize
  in_nonneg : 0 ≤ s.rbInIdx
  in_lt : s.rbInIdx < cmdBufferDepth
  rows : ∀ i : Fin cmdBufferDepth, 0 ∈ (s.ringBuffer.get i).toList
  previous : 0 ∈ s.previousWorkBuffer.toList

theorem zero_mem_replicate : (0 : Byte) ∈ (Vector.replicate inputBufferSize (0 : Byte)).toList := by
  decide

theorem inv_start : Inv Editor.start :=
  ⟨le_rfl, Nat.zero_le _, le_rfl, by decide, by decide, zero_mem_replicate⟩

theorem Inv.exists_in (h : Inv s) : ∃ i : Fin cmdBufferDepth, s.rbInIdx = i.val := by
  have h0 := h.in_nonneg
  have hlt := h.in_lt
  exact ⟨⟨s.rbInIdx.toNat, by omega⟩, by dsimp only; omega⟩

theorem nextIn_nonneg (h : Inv s) : 0 ≤ s.nextIn := by
  have h0 := h.in_nonneg
  unfold Editor.nextIn
  split_ifs <;> omega

theorem nextIn_lt (h : Inv s) : s.nextIn < cmdBufferDepth := by
  have hlt := h.in_lt
  unfold Editor.nextIn
  simp only [cmdBufferDepth] at hlt ⊢
  split_ifs <;> omega

/-! ## The arrows -/

theorem arrowReprompt_eq {line : List Byte}
    (hline : cString (peek stray s.ringBuffer s.rbOutIdx).toList = .ok line) :
    Editor.arrowReprompt stray s = .ok { s with
      workBuffer := (pokeStr s.workBuffer (line ++ [0])).1
      workBufferPtr := line.length
      inputPtr := line.length } := by
  rw [Editor.arrowReprompt, hline]
  rfl

theorem arrowReprompt_cases (hs : Editor.arrowReprompt stray s = .ok s') : ∃ line,
    cString (peek stray s.ringBuffer s.rbOutIdx).toList = .ok line ∧ s' = { s with
      workBuffer := (pokeStr s.workBuffer (line ++ [0])).1
      workBufferPtr := line.length
      inputPtr := line.length } := by
  obtain ⟨line, hline, hs⟩ := bind_eq_ok.1 hs
  exact ⟨line, hline, (Except.ok.inj hs).symm⟩

theorem Inv.arrow (h : Inv s) (idx : ℤ)
    (hs : Editor.arrowReprompt stray { s with rbOutIdx := idx } = .ok s') : Inv s' := by
  obtain ⟨line, hline, rfl⟩ := arrowReprompt_cases hs
  exact ⟨le_rfl, (length_lt_of_cString hline).le, h.in_nonneg, h.in_lt, h.rows, h.previous⟩

/-! ## A carriage return -/

theorem newLine_isOk_iff (h : Inv s) :
    (∃ new, s.newLine = .ok new) ↔ s.workBufferPtr = 0 ∨ 0 ∈ s.workBuffer.toList := by
  obtain ⟨previous, hprevious⟩ := exists_cString.2 h.previous
  unfold Editor.newLine
  by_cases h0 : s.workBufferPtr = 0
  · exact iff_of_true ⟨none, by rw [if_pos h0]; rfl⟩ (.inl h0)
  · rw [if_neg h0, or_iff_right h0, ← exists_cString]
    constructor
    · rintro ⟨new, hnew⟩
      obtain ⟨line, hline, -⟩ := bind_eq_ok.1 hnew
      exact ⟨line, hline⟩
    · rintro ⟨line, hline⟩
      refine ⟨if line ≠ previous then some line else none, ?_⟩
      simp only [hline, hprevious, bind, Except.bind]
      rfl

/-- A line that is recorded is the string in the work buffer. -/
theorem newLine_some {line : List Byte} (hs : s.newLine = .ok (some line)) :
    s.workBufferPtr ≠ 0 ∧ cString s.workBuffer.toList = .ok line := by
  unfold Editor.newLine at hs
  split_ifs at hs with h0
  · cases hs
  · obtain ⟨line', hline', hs⟩ := bind_eq_ok.1 hs
    obtain ⟨previous, -, hs⟩ := bind_eq_ok.1 hs
    by_cases hne : line' ≠ previous
    · rw [if_pos hne] at hs
      cases hs
      exact ⟨h0, hline'⟩
    · rw [if_neg hne] at hs
      cases hs

theorem record_eq {i : Fin cmdBufferDepth} (hi : s.rbInIdx = i.val) (line : List Byte) :
    s.record line = .ok { s with
      ringBuffer := s.ringBuffer.set i (pokeStr (s.ringBuffer.get i) (line ++ [0])).1 i.isLt
      rbInIdx := s.nextIn
      rbOutIdx := s.nextIn
      previousWorkBuffer := (pokeStr (.replicate _ 0) (line ++ [0])).1 } := by
  simp only [Editor.record, hi, load_natCast _ i.isLt, store_natCast _ i.isLt, get_eq, bind,
    Except.bind]
  rfl

theorem Inv.record (h : Inv s) {line : List Byte} (hline : cString s.workBuffer.toList = .ok line)
    (hs : s.record line = .ok s') : Inv s' := by
  obtain ⟨i, hi⟩ := h.exists_in
  rw [record_eq hi] at hs
  cases hs
  obtain ⟨rest, -, h0⟩ := cString_eq_ok.1 hline
  have hlt := length_lt_of_cString hline
  refine ⟨h.input_le, h.ptr_le, nextIn_nonneg h, nextIn_lt h, fun j => ?_,
    exists_cString.1 ⟨line, cString_pokeStr _ hlt h0⟩⟩
  rw [get_eq, Vector.getElem_set]
  split_ifs
  · exact exists_cString.1 ⟨line, cString_pokeStr _ hlt h0⟩
  · exact h.rows j

theorem submit_eq {i : Fin cmdBufferDepth} (hi : s.rbInIdx = i.val)
    (hlt : s.workBufferPtr + 1 < inputBufferSize) : ∃ passed, s.submit = .ok ({ s with
      workBuffer := .replicate _ 0
      workBufferPtr := 0
      inputPtr := 0
      ringBuffer := s.ringBuffer.set i (.replicate _ 0) i.isLt }, passed) ∧
    cString ((s.workBuffer.set s.workBufferPtr carriageReturn).set
      (s.workBufferPtr + 1) 0).toList = .ok passed := by
  have hstore : store (s.workBuffer.set s.workBufferPtr carriageReturn)
      (s.workBufferPtr + 1 : ℤ) 0 =
      .ok ((s.workBuffer.set s.workBufferPtr carriageReturn).set (s.workBufferPtr + 1) 0) :=
    store_natCast _ hlt 0
  obtain ⟨passed, hpassed⟩ := exists_cString.2 (show 0 ∈ ((s.workBuffer.set s.workBufferPtr
    carriageReturn).set (s.workBufferPtr + 1) 0).toList from
      Vector.mem_toList_iff.2 (Vector.mem_set hlt))
  refine ⟨passed, ?_, hpassed⟩
  simp only [Editor.submit, store_natCast s.workBuffer (Nat.lt_of_succ_lt hlt), hstore, hpassed, hi,
    store_natCast s.ringBuffer i.isLt, bind, Except.bind]
  rfl

/-- The terminator, or the carriage return, is written behind the buffer. -/
theorem submit_full (hle : s.workBufferPtr ≤ inputBufferSize)
    (hfull : inputBufferSize ≤ s.workBufferPtr + 1) : s.submit = .error .fault := by
  obtain heq | hlt := hle.eq_or_lt
  · rw [Editor.submit, store_of_le _ heq.ge]
    rfl
  · have hstore : store (s.workBuffer.set s.workBufferPtr carriageReturn)
        (s.workBufferPtr + 1 : ℤ) 0 = .error .fault := store_of_le _ hfull 0
    simp only [Editor.submit, store_natCast s.workBuffer hlt, hstore, bind, Except.bind]

theorem submit_cases {i : Fin cmdBufferDepth} (hi : s.rbInIdx = i.val)
    (hle : s.workBufferPtr ≤ inputBufferSize) {passed : List Byte}
    (hs : s.submit = .ok (s', passed)) : ∃ hlt : s.workBufferPtr + 1 < inputBufferSize,
    s' = { s with
      workBuffer := .replicate _ 0
      workBufferPtr := 0
      inputPtr := 0
      ringBuffer := s.ringBuffer.set i (.replicate _ 0) i.isLt } ∧
    cString ((s.workBuffer.set s.workBufferPtr carriageReturn).set
      (s.workBufferPtr + 1) 0).toList = .ok passed := by
  by_cases hlt : s.workBufferPtr + 1 < inputBufferSize
  · obtain ⟨passed', hsubmit, hpassed⟩ := submit_eq hi hlt
    cases hsubmit.symm.trans hs
    exact ⟨hlt, rfl, hpassed⟩
  · rw [submit_full hle (not_lt.1 hlt)] at hs
    cases hs

theorem Inv.submit (h : Inv s) {passed : List Byte} (hs : s.submit = .ok (s', passed)) :
    Inv s' := by
  obtain ⟨i, hi⟩ := h.exists_in
  obtain ⟨-, rfl, -⟩ := submit_cases hi h.ptr_le hs
  refine ⟨le_rfl, Nat.zero_le _, h.in_nonneg, h.in_lt, fun j => ?_, h.previous⟩
  rw [get_eq, Vector.getElem_set]
  split_ifs
  · exact zero_mem_replicate
  · exact h.rows j

theorem cr_of_none (hnew : s.newLine = .ok none) : s.cr = s.submit := by
  rw [Editor.cr, hnew]
  rfl

theorem cr_of_some {line : List Byte} (hnew : s.newLine = .ok (some line))
    (hs : s.record line = .ok s') : s.cr = s'.submit := by
  simp only [Editor.cr, hnew, hs, bind, Except.bind]

theorem cr_cases {passed : List Byte} (hs : s.cr = .ok (s', passed)) :
    (s.newLine = .ok none ∧ s.submit = .ok (s', passed)) ∨
      ∃ line s₁, s.newLine = .ok (some line) ∧ s.record line = .ok s₁ ∧
        s₁.submit = .ok (s', passed) := by
  obtain ⟨new, hnew, hs⟩ := bind_eq_ok.1 hs
  cases new with
  | none => exact .inl ⟨hnew, hs⟩
  | some line =>
    obtain ⟨s₁, hrecord, hs⟩ := bind_eq_ok.1 hs
    exact .inr ⟨line, s₁, hnew, hrecord, hs⟩

/-- What is submitted is the line of the same editor, recorded or not. -/
theorem cr_eq_submit (h : Inv s) (hnul : s.workBufferPtr = 0 ∨ 0 ∈ s.workBuffer.toList) :
    ∃ new s₁, s.newLine = .ok new ∧ s.cr = s₁.submit ∧ Inv s₁ ∧
      s₁.workBuffer = s.workBuffer ∧ s₁.workBufferPtr = s.workBufferPtr := by
  obtain ⟨new, hnew⟩ := (newLine_isOk_iff h).2 hnul
  cases new with
  | none => exact ⟨none, s, hnew, cr_of_none hnew, h, rfl, rfl⟩
  | some line =>
    obtain ⟨i, hi⟩ := h.exists_in
    have hrecord := record_eq hi line
    exact ⟨some line, _, hnew, cr_of_some hnew hrecord,
      h.record (newLine_some hnew).2 hrecord, rfl, rfl⟩

/-! ## Room for what a key writes -/

/-- The row is one of the ring buffer, or a terminated string lies there all the same. -/
def Found (stray : ℤ → Row) (idx : ℤ) : Prop :=
  (0 ≤ idx ∧ idx < cmdBufferDepth) ∨ 0 ∈ (stray idx).toList

/-- The bytes that a key writes are within the buffers. -/
def Room (stray : ℤ → Row) (s : Editor) : Key → Prop
  | .up => Found stray s.upIdx
  | .down => Found stray s.downIdx
  | .cr => s.workBufferPtr + 1 < inputBufferSize ∧
    (s.workBufferPtr = 0 ∨ 0 ∈ s.workBuffer.toList)
  | .del => s.inputPtr = 0 ∨ s.workBufferPtr < inputBufferSize
  | .other _ => s.workBufferPtr < inputBufferSize ∧
    (s.inputPtr = s.workBufferPtr ∨ s.workBufferPtr + 1 < inputBufferSize)
  | _ => True

theorem step_eq_ok {k : Key} :
    step stray s k = .ok s' ↔ ∃ passed, press stray s k = .ok (s', passed) := by
  unfold step
  constructor
  · intro hs
    obtain ⟨⟨s₁, passed⟩, hpress, hs⟩ := bind_eq_ok.1 hs
    cases hs
    exact ⟨passed, hpress⟩
  · rintro ⟨passed, hpress⟩
    rw [hpress]
    rfl

theorem step_of_quiet {k : Key} {x : Except Stop Editor}
    (hpress : press stray s k = do return (← x, [])) : step stray s k = x := by
  rw [step, hpress]
  cases x <;> rfl

theorem step_up : step stray s .up = Editor.arrowReprompt stray { s with rbOutIdx := s.upIdx } :=
  step_of_quiet rfl

theorem step_down :
    step stray s .down = Editor.arrowReprompt stray { s with rbOutIdx := s.downIdx } :=
  step_of_quiet rfl

theorem step_del : step stray s .del = s.del := step_of_quiet rfl

theorem step_other (c : Other) : step stray s (.other c) = s.other c.val := step_of_quiet rfl

theorem step_cr (hs : step stray s .cr = .ok s') : ∃ passed, s.cr = .ok (s', passed) :=
  step_eq_ok.1 hs

theorem found_iff (h : Inv s) (idx : ℤ) :
    Found stray idx ↔ 0 ∈ (peek stray s.ringBuffer idx).toList := by
  by_cases hidx : 0 ≤ idx ∧ idx < cmdBufferDepth
  · obtain ⟨i, hi⟩ : ∃ i : Fin cmdBufferDepth, idx = i.val :=
      ⟨⟨idx.toNat, by omega⟩, by dsimp only; omega⟩
    rw [hi, peek_natCast _ _ i.isLt]
    exact iff_of_true (.inl (hi ▸ hidx)) (h.rows i)
  · have hpeek : peek stray s.ringBuffer idx = stray idx := dif_neg (by omega)
    rw [hpeek, Found, or_iff_right hidx]

theorem arrow_isOk_iff (h : Inv s) (idx : ℤ) :
    (∃ s', Editor.arrowReprompt stray { s with rbOutIdx := idx } = .ok s') ↔ Found stray idx := by
  rw [found_iff h, ← exists_cString]
  constructor
  · rintro ⟨s', hs⟩
    obtain ⟨line, hline, -⟩ := arrowReprompt_cases hs
    exact ⟨line, hline⟩
  · rintro ⟨line, hline⟩
    exact ⟨_, arrowReprompt_eq (s := { s with rbOutIdx := idx }) hline⟩

theorem cr_isOk_iff (h : Inv s) : (∃ r, s.cr = .ok r) ↔ Room stray s .cr := by
  constructor
  · rintro ⟨r, hr⟩
    obtain ⟨new, hnew, -⟩ := bind_eq_ok.1 hr
    have hnul := (newLine_isOk_iff h).1 ⟨new, hnew⟩
    refine ⟨?_, hnul⟩
    by_contra hfull
    obtain ⟨-, s₁, -, hcr, h₁, -, hptr⟩ := cr_eq_submit h hnul
    rw [hcr, submit_full h₁.ptr_le (by omega)] at hr
    cases hr
  · rintro ⟨hlt, hnul⟩
    obtain ⟨-, s₁, -, hcr, h₁, -, hptr⟩ := cr_eq_submit h hnul
    obtain ⟨i, hi⟩ := h₁.exists_in
    obtain ⟨passed, hsubmit, -⟩ := submit_eq hi (by omega)
    exact ⟨_, hcr.trans hsubmit⟩

theorem del_isOk_iff (h : Inv s) : (∃ s', s.del = .ok s') ↔ Room stray s .del := by
  obtain h0 | hpos := Nat.eq_zero_or_pos s.inputPtr
  · exact iff_of_true ⟨s, if_pos h0⟩ (.inl h0)
  · obtain hfull | hlt := h.ptr_le.eq_or_lt
    · rw [Editor.del_full hpos h.input_le hfull]
      refine iff_of_false (fun ⟨s', hs⟩ => by cases hs) ?_
      rintro (h0 | hlt) <;> omega
    · obtain ⟨buf, hs, -⟩ := Editor.del_eq hpos h.input_le hlt
      exact iff_of_true ⟨_, hs⟩ (.inr hlt)

theorem other_isOk_iff (h : Inv s) (c : Other) :
    (∃ s', s.other c.val = .ok s') ↔ Room stray s (.other c) := by
  rw [Editor.other, if_pos (show s.workBufferPtr ≤ Editor.endBuff from h.ptr_le)]
  split_ifs with heq
  · obtain hfull | hlt := h.ptr_le.eq_or_lt
    · rw [Editor.addEnd, store_of_le _ hfull.ge]
      exact iff_of_false (fun ⟨s', hs⟩ => by cases hs) fun hroom => absurd hroom.1 (by omega)
    · rw [Editor.addEnd_eq c.val hlt]
      exact iff_of_true ⟨_, rfl⟩ ⟨hlt, .inl heq⟩
  · by_cases hlt : s.workBufferPtr + 1 < inputBufferSize
    · obtain ⟨buf, hs, -⟩ := Editor.addInside_eq c.val h.input_le hlt
      exact iff_of_true ⟨_, hs⟩ ⟨Nat.lt_of_succ_lt hlt, .inr hlt⟩
    · rw [Editor.addInside_full c.val (not_lt.1 hlt)]
      refine iff_of_false (fun ⟨s', hs⟩ => by cases hs) ?_
      rintro ⟨-, heq' | hlt'⟩
      · exact heq heq'
      · exact hlt hlt'

/-- **A key returns exactly when there is room.** -/
theorem step_isOk_iff (h : Inv s) (k : Key) : (∃ s', step stray s k = .ok s') ↔ Room stray s k := by
  cases k with
  | noChar => exact iff_of_true ⟨_, rfl⟩ trivial
  | up =>
    rw [step_up]
    exact arrow_isOk_iff h _
  | down =>
    rw [step_down]
    exact arrow_isOk_iff h _
  | right => exact iff_of_true ⟨_, rfl⟩ trivial
  | left => exact iff_of_true ⟨_, rfl⟩ trivial
  | escape => exact iff_of_true ⟨_, rfl⟩ trivial
  | cr =>
    rw [← cr_isOk_iff h]
    constructor
    · rintro ⟨s', hs⟩
      obtain ⟨passed, hcr⟩ := step_cr hs
      exact ⟨_, hcr⟩
    · rintro ⟨⟨s', passed⟩, hcr⟩
      exact ⟨s', step_eq_ok.2 ⟨passed, hcr⟩⟩
  | del =>
    rw [step_del]
    exact del_isOk_iff h
  | other c =>
    rw [step_other]
    exact other_isOk_iff h c

/-! ## What a key has done that has returned -/

theorem right_cases (h : Inv s) (hs : step stray s .right = .ok s') :
    ∃ p ≤ s.workBufferPtr, s' = { s with inputPtr := p } := by
  cases hs
  unfold Editor.right
  split_ifs with hlt
  · exact ⟨_, hlt, rfl⟩
  · exact ⟨_, h.input_le, rfl⟩

theorem left_cases (h : Inv s) (hs : step stray s .left = .ok s') :
    ∃ p ≤ s.workBufferPtr, s' = { s with inputPtr := p } := by
  cases hs
  unfold Editor.left
  split_ifs with hpos
  · exact ⟨_, (Nat.sub_le _ _).trans h.input_le, rfl⟩
  · exact ⟨_, h.input_le, rfl⟩

theorem del_cases (h : Inv s) (hs : s.del = .ok s') : (s.inputPtr = 0 ∧ s' = s) ∨
    ∃ buf : Row, 0 < s.inputPtr ∧ s.workBufferPtr < inputBufferSize ∧
      s' = { s with
        workBuffer := buf, workBufferPtr := s.workBufferPtr - 1, inputPtr := s.inputPtr - 1 } ∧
      Closed s.workBuffer buf (s.inputPtr - 1) s.workBufferPtr := by
  obtain h0 | hpos := Nat.eq_zero_or_pos s.inputPtr
  · rw [Editor.del, if_pos h0] at hs
    exact .inl ⟨h0, (Except.ok.inj hs).symm⟩
  · obtain hfull | hlt := h.ptr_le.eq_or_lt
    · rw [Editor.del_full hpos h.input_le hfull] at hs
      cases hs
    · obtain ⟨buf, hdel, hclosed⟩ := Editor.del_eq hpos h.input_le hlt
      exact .inr ⟨buf, hpos, hlt, Except.ok.inj (hs.symm.trans hdel), hclosed⟩

theorem other_cases (h : Inv s) {c : Byte} (hs : s.other c = .ok s') :
    (s.inputPtr = s.workBufferPtr ∧ ∃ hlt : s.workBufferPtr < inputBufferSize, s' = { s with
      workBuffer := s.workBuffer.set s.workBufferPtr c hlt
      workBufferPtr := s.workBufferPtr + 1
      inputPtr := s.workBufferPtr + 1 }) ∨
    ∃ buf : Row, s.inputPtr ≠ s.workBufferPtr ∧ s.workBufferPtr + 1 < inputBufferSize ∧
      s' = { s with
        workBuffer := buf, workBufferPtr := s.workBufferPtr + 1, inputPtr := s.inputPtr + 1 } ∧
      Opened s.workBuffer buf s.inputPtr s.workBufferPtr c := by
  rw [Editor.other, if_pos (show s.workBufferPtr ≤ Editor.endBuff from h.ptr_le)] at hs
  split_ifs at hs with heq
  · by_cases hlt : s.workBufferPtr < inputBufferSize
    · rw [Editor.addEnd_eq c hlt] at hs
      exact .inl ⟨heq, hlt, (Except.ok.inj hs).symm⟩
    · rw [Editor.addEnd, store_of_le _ (not_lt.1 hlt)] at hs
      cases hs
  · by_cases hlt : s.workBufferPtr + 1 < inputBufferSize
    · obtain ⟨buf, hadd, hopened⟩ := Editor.addInside_eq c h.input_le hlt
      exact .inr ⟨buf, heq, hlt, Except.ok.inj (hs.symm.trans hadd), hopened⟩
    · rw [Editor.addInside_full c (not_lt.1 hlt)] at hs
      cases hs

/-! ## Every key keeps the invariant -/

/-- The line is a different one, or has another cursor. -/
theorem Inv.withLine (h : Inv s) {buf : Row} {ptr input : ℕ} (hinput : input ≤ ptr)
    (hptr : ptr ≤ inputBufferSize) :
    Inv { s with workBuffer := buf, workBufferPtr := ptr, inputPtr := input } :=
  ⟨hinput, hptr, h.in_nonneg, h.in_lt, h.rows, h.previous⟩

theorem Inv.cr (h : Inv s) {passed : List Byte} (hs : s.cr = .ok (s', passed)) : Inv s' := by
  obtain ⟨-, hsubmit⟩ | ⟨line, s₁, hnew, hrecord, hsubmit⟩ := cr_cases hs
  · exact h.submit hsubmit
  · exact (h.record (newLine_some hnew).2 hrecord).submit hsubmit

theorem Inv.del (h : Inv s) (hs : s.del = .ok s') : Inv s' := by
  obtain ⟨-, rfl⟩ | ⟨buf, -, hlt, rfl, -⟩ := del_cases h hs
  · exact h
  · exact h.withLine (Nat.sub_le_sub_right h.input_le 1) ((Nat.sub_le _ _).trans hlt.le)

theorem Inv.other (h : Inv s) {c : Byte} (hs : s.other c = .ok s') : Inv s' := by
  obtain ⟨-, hlt, rfl⟩ | ⟨buf, -, hlt, rfl, -⟩ := other_cases h hs
  · exact h.withLine le_rfl hlt
  · exact h.withLine (Nat.succ_le_succ h.input_le) hlt.le

theorem Inv.step (h : Inv s) {k : Key} (hs : step stray s k = .ok s') : Inv s' := by
  cases k with
  | noChar =>
    cases hs
    exact h
  | up =>
    rw [step_up] at hs
    exact h.arrow _ hs
  | down =>
    rw [step_down] at hs
    exact h.arrow _ hs
  | right =>
    obtain ⟨p, hp, rfl⟩ := right_cases h hs
    exact h.withLine hp h.ptr_le
  | left =>
    obtain ⟨p, hp, rfl⟩ := left_cases h hs
    exact h.withLine hp h.ptr_le
  | escape =>
    cases hs
    exact ⟨le_rfl, Nat.zero_le _, h.in_nonneg, h.in_lt, h.rows, zero_mem_replicate⟩
  | cr =>
    obtain ⟨passed, hcr⟩ := step_cr hs
    exact h.cr hcr
  | del =>
    rw [step_del] at hs
    exact h.del hs
  | other c =>
    rw [step_other] at hs
    exact h.other hs

end PconTng.LineEditor
