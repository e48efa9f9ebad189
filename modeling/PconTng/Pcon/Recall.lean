import PconTng.Foundations.Run
import PconTng.Pcon.Keys

/-!
# Recording what is submitted

At a carriage return the work buffer is recorded as a string, up to its terminator, and submitted up
to the pointer. The two are the same line as long as the buffer is terminated at the pointer. A
character at the end of the line is stored without a terminator, which is not missed where zeros lie
behind; behind a line that an arrow has brought back lies the rest of the line before it. These are
the keys after which the buffer is not terminated (`submits_iff`).
-/

namespace PconTng.LineEditor

open CMemory CArray CharFsm

/-- The work buffer is terminated at the pointer. -/
def Terminated (s : Editor) : Prop := s.workBuffer.toList[s.workBufferPtr]? = some 0

instance : DecidablePred Terminated := fun _ => inferInstanceAs (Decidable (_ = _))

/-- The string that is compared and recorded is the text that is passed to `char_fsm`, with a
carriage return behind it unless it ends at a terminator that has been typed. -/
def SubmitsRecorded (s : Editor) : Prop :=
  Post (fun r => Post (fun line => r.2 = line ++ [carriageReturn] ∨
    r.2 = line ∧ line.length < s.workBufferPtr) (cString s.workBuffer.toList)) s.cr

instance : DecidablePred SubmitsRecorded := fun _ => inferInstanceAs (Decidable (Post _ _))

/-- The work buffer is terminated before and after the key, and a carriage return submits what is
recorded. -/
def Faithful (stray : ℤ → Row) (s : Editor) (k : Key) : Prop :=
  Terminated s ∧ Post Terminated (step stray s k) ∧ (k = .cr → SubmitsRecorded s)

instance (stray : ℤ → Row) (s : Editor) (k : Key) : Decidable (Faithful stray s k) :=
  inferInstanceAs (Decidable (_ ∧ _ ∧ (_ → _)))

/-- The line is below 58 characters, and an arrow goes to a row of the ring buffer. -/
def Short (s : Editor) : Key → Prop
  | .up => s.workBufferPtr < 58 ∧ 0 ≤ s.upIdx ∧ s.upIdx < cmdBufferDepth
  | .down => s.workBufferPtr < 58 ∧ 0 ≤ s.downIdx ∧ s.downIdx < cmdBufferDepth
  | _ => s.workBufferPtr < 58

instance (s : Editor) : DecidablePred (Short s) := fun k => by
  cases k <;> first | exact inferInstanceAs (Decidable (_ ∧ _ ∧ _)) | exact Nat.decLt _ _

/-- A character at the end of the line finds a zero behind its place. -/
def ZeroBehind (s : Editor) : Key → Prop
  | .other _ => s.inputPtr = s.workBufferPtr → s.workBuffer.toList[s.workBufferPtr + 1]? = some 0
  | _ => True

instance (s : Editor) : DecidablePred (ZeroBehind s) := fun k => by
  cases k <;> first | exact isTrue trivial | exact inferInstanceAs (Decidable (_ → _ = some 0))

variable {s s' : Editor} {stray : ℤ → Row}

theorem Short.ptr_lt {k : Key} (h : Short s k) : s.workBufferPtr < 58 := by
  cases k <;> first | exact h | exact h.1

theorem terminated_iff (hlt : s.workBufferPtr < inputBufferSize) :
    Terminated s ↔ s.workBuffer[s.workBufferPtr] = 0 := by
  rw [Terminated, List.getElem?_eq_getElem (by simpa using hlt), Option.some_inj,
    Vector.getElem_toList]

/-! ## What is submitted -/

/-- The same characters with a terminator behind them, and with a carriage return in front of it. -/
theorem cString_submitted {t rest rest' line passed : List Byte}
    (hline : cString (t ++ 0 :: rest) = .ok line)
    (hpassed : cString (t ++ carriageReturn :: 0 :: rest') = .ok passed) :
    passed = line ++ [carriageReturn] ∨ passed = line ∧ line.length < t.length := by
  by_cases h0 : 0 ∈ t
  · -- a terminator has been typed
    obtain ⟨u, v, rfl, hu⟩ := List.eq_append_cons_of_mem h0
    rw [List.append_assoc, List.cons_append, cString_append hu] at hline hpassed
    cases hline
    cases hpassed
    right
    simp
  · have h0' : 0 ∉ t ++ [carriageReturn] := by
      rw [List.mem_append, List.mem_singleton, not_or]
      exact ⟨h0, by decide⟩
    have happ : t ++ carriageReturn :: 0 :: rest' = t ++ [carriageReturn] ++ 0 :: rest' := by
      rw [List.append_assoc, List.singleton_append]
    rw [cString_append h0] at hline
    rw [happ, cString_append h0'] at hpassed
    cases hline
    cases hpassed
    exact .inl rfl

theorem toList_of_terminated (h : Terminated s) (hlt : s.workBufferPtr + 1 < inputBufferSize) :
    ∃ t c rest, s.workBuffer.toList = t ++ 0 :: c :: rest ∧ t.length = s.workBufferPtr := by
  have hlen : s.workBuffer.toList.length = inputBufferSize := Vector.length_toList
  have hget := (terminated_iff (Nat.lt_of_succ_lt hlt)).1 h
  refine ⟨s.workBuffer.toList.take s.workBufferPtr, s.workBuffer[s.workBufferPtr + 1],
    s.workBuffer.toList.drop (s.workBufferPtr + 2), ?_, by rw [List.length_take]; omega⟩
  have hdrop : s.workBuffer.toList.drop s.workBufferPtr = 0 :: s.workBuffer[s.workBufferPtr + 1] ::
      s.workBuffer.toList.drop (s.workBufferPtr + 2) := by
    rw [List.drop_eq_getElem_cons (by omega), List.drop_eq_getElem_cons (by omega),
      Vector.getElem_toList, Vector.getElem_toList, hget]
  rw [← hdrop, List.take_append_drop]

/-- With a terminator at the pointer the string up to it is submitted. -/
theorem Terminated.submits (h : Terminated s) (hinv : Inv s) : SubmitsRecorded s := by
  rintro ⟨s', passed⟩ hs line hline
  have hnul : s.workBufferPtr = 0 ∨ 0 ∈ s.workBuffer.toList :=
    .inr (exists_cString.1 ⟨line, hline⟩)
  obtain ⟨-, s₁, -, hcr, hinv₁, hbuf, hptr⟩ := cr_eq_submit hinv hnul
  obtain ⟨i, hi⟩ := hinv₁.exists_in
  obtain ⟨hlt, -, hpassed⟩ := submit_cases hi hinv₁.ptr_le (hcr.symm.trans hs)
  obtain ⟨t, c, rest, hlist, hlen⟩ := toList_of_terminated h (hptr ▸ hlt)
  have hstored : ((s₁.workBuffer.set s₁.workBufferPtr carriageReturn).set
      (s₁.workBufferPtr + 1) 0).toList = t ++ carriageReturn :: 0 :: rest := by
    have hone : t.length + 1 - t.length = 1 := Nat.add_sub_cancel_left _ _
    rw [Vector.toList_set, Vector.toList_set, hbuf, hptr, hlist, ← hlen,
      List.set_append_right _ _ le_rfl, Nat.sub_self, List.set_cons_zero,
      List.set_append_right _ _ (Nat.le_succ _), hone, List.set_cons_succ, List.set_cons_zero]
  rw [hlist] at hline
  rw [hstored] at hpassed
  rw [← hlen]
  exact cString_submitted hline hpassed

/-! ## One key -/

theorem terminated_arrow {idx : ℤ}
    (hs : Editor.arrowReprompt stray { s with rbOutIdx := idx } = .ok s') : Terminated s' := by
  obtain ⟨line, hline, rfl⟩ := arrowReprompt_cases hs
  rw [Terminated, pokeStr_string _ (length_lt_of_cString hline),
    List.getElem?_append_right le_rfl, Nat.sub_self]
  rfl

theorem Terminated.del (h : Terminated s) (hinv : Inv s) (hs : s.del = .ok s') :
    Terminated s' := by
  obtain ⟨-, rfl⟩ | ⟨buf, hpos, hlt, rfl, hclosed⟩ := del_cases hinv hs
  · exact h
  · have hlt' : s.workBufferPtr - 1 < inputBufferSize := (Nat.sub_le _ _).trans_lt hlt
    exact (terminated_iff hlt').2 (hclosed.nul _ hlt' (Nat.sub_le_iff_le_add.1 le_rfl)
      (Nat.sub_le _ _))

theorem terminated_cr (hinv : Inv s) {passed : List Byte} (hs : s.cr = .ok (s', passed)) :
    Terminated s' := by
  obtain ⟨-, hsubmit⟩ | ⟨line, s₁, hnew, hrecord, hsubmit⟩ := cr_cases hs
  · obtain ⟨i, hi⟩ := hinv.exists_in
    obtain ⟨-, rfl, -⟩ := submit_cases hi hinv.ptr_le hsubmit
    rfl
  · have hinv₁ := hinv.record (newLine_some hnew).2 hrecord
    obtain ⟨i, hi⟩ := hinv₁.exists_in
    obtain ⟨-, rfl, -⟩ := submit_cases hi hinv₁.ptr_le hsubmit
    rfl

/-- Of all keys only a character at the end of the line relies on what lies behind. -/
theorem zeroBehind_iff_other (hinv : Inv s) (c : Other)
    (hlt : s.workBufferPtr + 1 < inputBufferSize) :
    ZeroBehind s (.other c) ↔ Post Terminated (step stray s (.other c)) := by
  rw [step_other, Editor.other, if_pos (show s.workBufferPtr ≤ Editor.endBuff from hinv.ptr_le)]
  split_ifs with heq
  · rw [Editor.addEnd_eq c.val (Nat.lt_of_succ_lt hlt)]
    have hsame : (s.workBuffer.set s.workBufferPtr c.val).toList[s.workBufferPtr + 1]? =
        s.workBuffer.toList[s.workBufferPtr + 1]? := by
      rw [Vector.toList_set, List.getElem?_set_ne (Nat.ne_of_lt (Nat.lt_succ_self _))]
    constructor
    · intro h s' hs
      cases hs
      exact hsame.trans (h heq)
    · intro h _
      exact hsame.symm.trans (h _ rfl)
  · obtain ⟨buf, hadd, hopened⟩ := Editor.addInside_eq c.val hinv.input_le hlt
    refine iff_of_true (fun h => absurd h heq) fun s' hs => ?_
    cases hadd.symm.trans hs
    exact (terminated_iff hlt).2 (hopened.nul hlt)

theorem zeroBehind_iff (hinv : Inv s) (h : Terminated s) {k : Key} (hshort : Short s k) :
    ZeroBehind s k ↔ Post Terminated (step stray s k) := by
  cases k with
  | noChar => exact iff_of_true trivial fun s' hs => by cases hs; exact h
  | up =>
    refine iff_of_true trivial fun s' hs => ?_
    rw [step_up] at hs
    exact terminated_arrow hs
  | down =>
    refine iff_of_true trivial fun s' hs => ?_
    rw [step_down] at hs
    exact terminated_arrow hs
  | right =>
    refine iff_of_true trivial fun s' hs => ?_
    obtain ⟨p, -, rfl⟩ := right_cases hinv hs
    exact h
  | left =>
    refine iff_of_true trivial fun s' hs => ?_
    obtain ⟨p, -, rfl⟩ := left_cases hinv hs
    exact h
  | escape =>
    refine iff_of_true trivial fun s' hs => ?_
    cases hs
    rfl
  | cr =>
    refine iff_of_true trivial fun s' hs => ?_
    obtain ⟨passed, hcr⟩ := step_cr hs
    exact terminated_cr hinv hcr
  | del =>
    refine iff_of_true trivial fun s' hs => ?_
    rw [step_del] at hs
    exact h.del hinv hs
  | other c =>
    have hlt := hshort.ptr_lt
    exact zeroBehind_iff_other hinv c (by simp only [inputBufferSize]; omega)

/-! ## Sessions -/

/-- **What is recorded is what is submitted** exactly as long as a zero is behind every character
that is typed at the end of the line. -/
theorem submits_iff (stray : ℤ → Row) (ks : List Key)
    (hshort : Throughout Short (step stray) ks Editor.start) :
    Throughout ZeroBehind (step stray) ks Editor.start ↔
      Throughout (Faithful stray) (step stray) ks Editor.start := by
  refine throughout_congr (I := fun s => Inv s ∧ Terminated s) (fun s k s' h hk hs => ?_)
    (fun s k h hk => ?_) ks _ ⟨inv_start, rfl⟩ hshort
  · exact ⟨h.1.step hs, hk.2.1 s' hs⟩
  · rw [zeroBehind_iff h.1 h.2 hk]
    constructor
    · exact fun hpost => ⟨h.2, hpost, fun _ => h.2.submits h.1⟩
    · exact fun hfaithful => hfaithful.2.1

/-- The keys a, carriage return, x, y, arrow up and carriage return. -/
theorem submits_same : Throughout (Faithful fun _ => .replicate _ 0) (step fun _ => .replicate _ 0)
    [.other ⟨97, by decide⟩, .cr, .other ⟨120, by decide⟩, .other ⟨121, by decide⟩, .up, .cr]
    Editor.start :=
  (submits_iff _ _ (by decide +kernel)).1 (by decide +kernel)

/-- With x, y, z, arrow up and b instead, abz is recorded and ab is submitted. -/
theorem submits_not_same : ¬ ∀ (stray : ℤ → Row) (ks : List Key),
    Throughout Short (step stray) ks Editor.start →
      Throughout (fun s k => k = .cr → SubmitsRecorded s) (step stray) ks Editor.start := by
  intro hall
  have hsubmits := hall (fun _ => .replicate _ 0) [.other ⟨97, by decide⟩, .cr,
    .other ⟨120, by decide⟩, .other ⟨121, by decide⟩, .other ⟨122, by decide⟩, .up,
    .other ⟨98, by decide⟩, .cr] (by decide +kernel)
  revert hsubmits
  decide +kernel

end PconTng.LineEditor
