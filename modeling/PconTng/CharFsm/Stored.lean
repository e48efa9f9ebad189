import PconTng.CharFsm.Cutter

/-!
# What is stored for a line

The first stage of the character input parser normalizes a line: in what it stores (`stores`),
leading and repeated delimiters are gone, every run of text has one delimiter behind it and every
closed string a blank. As long as it fits, the input buffer holds what has been stored and zeros
behind it (`Fed`); a line for which more is stored runs over the buffer.
-/

namespace PconTng.CharFsm

open CMemory CArray Lexer

/-! ## From one token to the next -/

section Stores

variable {c : Byte} {st : Fin charStates} (l : List Byte)

theorem stores_cons (st : Fin charStates) (c : Byte) :
    stores st (c :: l) = ((charAction.get (charType c)).get st).stores c ++
      stores ((charNewState.get (charType c)).get st) l := rfl

theorem stores_delim (h : isDelim c) (hst : st = 0 ∨ st = 3) :
    stores st (c :: l) = stores st l := by
  rw [stores_cons, charType_eq_zero.2 h]
  rcases hst with rfl | rfl <;> rfl

theorem stores_quote (hst : st = 0 ∨ st = 3) : stores st (quote :: l) = quote :: stores 1 l := by
  rw [stores_cons, charType_quote]
  rcases hst with rfl | rfl <;> rfl

/-- Behind a closed string stands a blank. -/
theorem stores_endingQuote : stores 1 (quote :: l) = quote :: space :: stores 3 l := by
  rw [stores_cons, charType_quote]
  rfl

theorem stores_string {s : List Byte} (hs : ∀ c ∈ s, Typed c) (hq : quote ∉ s) :
    stores 1 (s ++ l) = s ++ stores 1 l := by
  induction s with
  | nil => rfl
  | cons c s ih =>
    rw [List.forall_mem_cons] at hs
    rw [List.mem_cons, not_or] at hq
    rw [List.cons_append, stores_cons]
    by_cases hd : isDelim c
    · rw [charType_eq_zero.2 hd]
      exact congrArg (c :: ·) (ih hs.2 hq.2)
    · have hc : charType c = 4 := charType_text hs.1 (by simp [text, hd, Ne.symm hq.1])
      rw [hc]
      exact congrArg (c :: ·) (ih hs.2 hq.2)

theorem stores_closed {s cs : List Byte} (hst : st = 0 ∨ st = 3) (hs : ∀ c ∈ s, Typed c)
    (hq : quote ∉ s) :
    stores st (quote :: (s ++ quote :: cs) ++ [carriageReturn]) =
      quote :: (s ++ quote :: space :: stores 3 (cs ++ [carriageReturn])) := by
  have hcs : quote :: cs ++ [carriageReturn] = quote :: (cs ++ [carriageReturn]) := rfl
  rw [List.cons_append, List.append_assoc, hcs, stores_quote _ hst, stores_string _ hs hq,
    stores_endingQuote]

/-- A string that is left open is ended by the return. -/
theorem stores_open {s : List Byte} (hst : st = 0 ∨ st = 3) (hs : ∀ c ∈ s, Typed c)
    (hq : quote ∉ s) :
    stores st (quote :: s ++ [carriageReturn]) = quote :: (s ++ [space, 0]) := by
  have hcr : stores 1 [carriageReturn] = [space, 0] := rfl
  rw [List.cons_append, stores_quote _ hst, stores_string _ hs hq, hcr]

theorem stores_text {w : List Byte} (hw : ∀ c ∈ w, Typed c)
    (htext : ∀ c ∈ w, text isDelim quote c) : stores 2 (w ++ l) = w ++ stores 2 l := by
  induction w with
  | nil => rfl
  | cons c w ih =>
    rw [List.forall_mem_cons] at hw htext
    rw [List.cons_append, stores_cons, charType_text hw.1 htext.1]
    exact congrArg (c :: ·) (ih hw.2 htext.2)

theorem stores_run {w : List Byte} (hne : w ≠ []) (hw : ∀ c ∈ w, Typed c)
    (htext : ∀ c ∈ w, text isDelim quote c) (hst : st = 0 ∨ st = 3) :
    stores st (w ++ l) = w ++ stores 2 l := by
  obtain ⟨c, w, rfl⟩ := List.exists_cons_of_ne_nil hne
  rw [List.forall_mem_cons] at hw htext
  rw [List.cons_append, stores_cons, charType_text hw.1 htext.1]
  rcases hst with rfl | rfl <;> exact congrArg (c :: ·) (stores_text l hw.2 htext.2)

/-- Behind a run of text that is over stands one delimiter. -/
theorem stores_afterRun {cs : List Byte} (hcs : ∀ c ∈ cs, Typed c)
    (hmax : ∀ c ∈ cs.head?, ¬ text isDelim quote c) :
    ∃ x, charType x = 0 ∧
      stores 2 (cs ++ [carriageReturn]) = x :: stores 3 (cs ++ [carriageReturn]) := by
  cases cs with
  | nil => exact ⟨space, rfl, rfl⟩
  | cons c cs =>
    by_cases hd : isDelim c
    · refine ⟨c, charType_eq_zero.2 hd, ?_⟩
      rw [List.cons_append, stores_delim _ hd (.inr rfl), stores_cons, charType_eq_zero.2 hd]
      rfl
    · obtain rfl : c = quote := by
        by_contra hc
        exact hmax c rfl (by simp [text, hd, hc])
      refine ⟨space, rfl, ?_⟩
      rw [List.cons_append, stores_quote _ (.inr rfl), stores_cons, charType_quote]
      rfl

end Stores

/-! ## Storing characters -/

/-- The characters `stored` have been stored, and nothing behind them. -/
structure Fed (g : Globals) (stored : List Byte) : Prop where
  fits : stored.length ≤ inputBufferSize
  ptr : g.inputBufferPtr = stored.length
  buffer : g.inputBuffer.toList =
    stored ++ List.replicate (inputBufferSize - stored.length) 0

variable {g : Globals} {stored : List Byte}

theorem fed_reset (g : Globals) : Fed (charFsmReset g) [] :=
  ⟨Nat.zero_le _, rfl, Vector.toList_replicate⟩

theorem Fed.load (h : Fed g stored) (hlt : stored.length < inputBufferSize) :
    CArray.load g.inputBuffer g.inputBufferPtr = .ok 0 := by
  have hdrop : g.inputBuffer.toList.drop g.inputBufferPtr =
      0 :: List.replicate (inputBufferSize - stored.length - 1) 0 := by
    rw [h.ptr, h.buffer, List.drop_left, ← List.replicate_succ]
    congr 1
    omega
  exact Cutter.load_of_drop hdrop

theorem Fed.put (h : Fed g stored) (hlt : stored.length < inputBufferSize) (c : Byte) :
    ∃ g', put c g = .ok g' ∧ g'.charState = g.charState ∧ Fed g' (stored ++ [c]) := by
  have hptr : g.inputBufferPtr < inputBufferSize := h.ptr ▸ hlt
  refine ⟨⟨g.inputBuffer.set g.inputBufferPtr c, g.inputBufferPtr + 1, g.charState, g.head⟩, ?_,
    rfl, ?_, ?_, ?_⟩
  · rw [CharFsm.put, store_natCast g.inputBuffer hptr]
    rfl
  · rw [List.length_append]
    exact hlt
  · rw [List.length_append, ← h.ptr]
    rfl
  · have hzeros : List.replicate (inputBufferSize - stored.length) (0 : Byte) =
        0 :: List.replicate (inputBufferSize - (stored ++ [c]).length) 0 := by
      rw [List.length_append, List.length_singleton, ← List.replicate_succ]
      congr 1
      omega
    rw [Vector.toList_set, h.buffer, h.ptr, hzeros, List.set_append_right _ _ le_rfl, Nat.sub_self,
      List.set_cons_zero, List.append_assoc]
    rfl

theorem Fed.put_fault (h : Fed g stored) (hfull : inputBufferSize ≤ stored.length) (c : Byte) :
    CharFsm.put c g = .error .fault := by
  have hptr : g.inputBufferPtr = inputBufferSize := h.ptr.trans (h.fits.antisymm hfull)
  unfold CharFsm.put
  rw [hptr]
  rfl

theorem Fed.put_put (h : Fed g stored) (x y : Byte) (hfit : stored.length + 2 ≤ inputBufferSize) :
    ∃ g', (do CharFsm.put y (← CharFsm.put x g)) = .ok g' ∧ g'.charState = g.charState ∧
      Fed g' (stored ++ [x, y]) := by
  obtain ⟨g₁, hg₁, hst₁, h₁⟩ := h.put (by omega) x
  have hlt₁ : (stored ++ [x]).length < inputBufferSize := by
    rw [List.length_append, List.length_singleton]
    omega
  obtain ⟨g₂, hg₂, hst₂, h₂⟩ := h₁.put hlt₁ y
  refine ⟨g₂, ?_, hst₂.trans hst₁, ?_⟩
  · rw [hg₁]
    exact hg₂
  · rwa [List.append_assoc] at h₂

theorem Fed.put_put_fault (h : Fed g stored) (x y : Byte)
    (hfull : inputBufferSize < stored.length + 2) :
    (do CharFsm.put y (← CharFsm.put x g)) = .error .fault := by
  by_cases hlt : stored.length < inputBufferSize
  · obtain ⟨g₁, hg₁, -, h₁⟩ := h.put hlt x
    have hfull₁ : inputBufferSize ≤ (stored ++ [x]).length := by
      rw [List.length_append, List.length_singleton]
      omega
    rw [hg₁]
    exact h₁.put_fault hfull₁ y
  · rw [h.put_fault (not_lt.1 hlt) x]
    rfl

/-- A routine that only stores characters. -/
theorem Fed.run (h : Fed g stored) {r : Routine} (hr : r ∈ [Routine.nop, .add, .aqd, .adq])
    {c : Byte} (hfit : (stored ++ r.stores c).length ≤ inputBufferSize) :
    ∃ g', r.run c g = .ok g' ∧ g'.charState = g.charState ∧ Fed g' (stored ++ r.stores c) := by
  rw [List.length_append] at hfit
  simp only [List.mem_cons, List.not_mem_nil, or_false] at hr
  rcases hr with rfl | rfl | rfl | rfl
  · exact ⟨g, rfl, rfl, by rwa [Routine.stores, List.append_nil]⟩
  · exact h.put hfit c
  · exact h.put_put c space hfit
  · exact h.put_put space c hfit

theorem Fed.run_fault (h : Fed g stored) {r : Routine} (hr : r ∈ [Routine.nop, .add, .aqd, .adq])
    {c : Byte} (hfull : inputBufferSize < (stored ++ r.stores c).length) :
    r.run c g = .error .fault := by
  rw [List.length_append] at hfull
  simp only [List.mem_cons, List.not_mem_nil, or_false] at hr
  rcases hr with rfl | rfl | rfl | rfl
  · exact absurd h.fits (not_le.2 hfull)
  · exact h.put_fault (Nat.lt_succ_iff.1 hfull) c
  · exact h.put_put_fault c space hfull
  · exact h.put_put_fault space c hfull

/-- For a character of a line only such routines are run. -/
theorem charAction_typed {c : Byte} (hc : Typed c) (st : Fin charStates) :
    (charAction.get (charType c)).get st ∈ [Routine.nop, .add, .aqd, .adq] := by
  have hrow : charType c ∈ [(0 : Fin charTokens), 1, 4] := by
    simp only [Typed, List.mem_cons, List.not_mem_nil, or_false, not_or] at hc
    unfold charType
    split_ifs with h0 h1 h2 h3
    · decide
    · decide
    · exact absurd h2 hc.2.2
    · exact absurd h3 hc.2.1
    · decide
  have htable : ∀ row ∈ [(0 : Fin charTokens), 1, 4], ∀ st : Fin charStates,
      (charAction.get row).get st ∈ [Routine.nop, .add, .aqd, .adq] := by decide
  exact htable _ hrow st

theorem Fed.step (h : Fed g stored) {c : Byte} (hc : Typed c)
    (hfit : (stored ++ ((charAction.get (charType c)).get g.charState).stores c).length ≤
      inputBufferSize) :
    ∃ g', charFsm g c = .ok g' ∧
      g'.charState = (charNewState.get (charType c)).get g.charState ∧
      Fed g' (stored ++ ((charAction.get (charType c)).get g.charState).stores c) := by
  obtain ⟨g', hg', hst, h'⟩ := h.run (charAction_typed hc g.charState) hfit
  refine ⟨{ g' with charState := (charNewState.get (charType c)).get g.charState }, ?_, rfl,
    ⟨h'.fits, h'.ptr, h'.buffer⟩⟩
  unfold charFsm
  simp only [hg', hst, bind, Except.bind]
  rfl

theorem foldlM_charFsm {l : List Byte} (hl : ∀ c ∈ l, Typed c) (rest : List Byte) (h : Fed g stored)
    (hfit : (stored ++ stores g.charState (l ++ rest)).length ≤ inputBufferSize) :
    ∃ g' stored', l.foldlM charFsm g = .ok g' ∧ Fed g' stored' ∧
      stored' ++ stores g'.charState rest = stored ++ stores g.charState (l ++ rest) := by
  induction l generalizing g stored with
  | nil => exact ⟨g, stored, rfl, h, rfl⟩
  | cons c l ih =>
    rw [List.forall_mem_cons] at hl
    rw [List.cons_append, stores_cons, ← List.append_assoc] at hfit ⊢
    have hfit₁ := hfit
    rw [List.length_append] at hfit₁
    obtain ⟨g₁, hg₁, hst₁, h₁⟩ := h.step hl.1 ((Nat.le_add_right _ _).trans hfit₁)
    rw [← hst₁] at hfit ⊢
    obtain ⟨g', stored', hg', hfed, heq⟩ := ih hl.2 h₁ hfit
    refine ⟨g', stored', ?_, hfed, heq⟩
    rw [List.foldlM_cons, hg₁]
    exact hg'

/-! ## The end of the line -/

theorem Fed.cr (h : Fed g stored) (hfit : stored.length + 2 ≤ inputBufferSize) (c : Byte) :
    ∃ g', cr c g = processBuffer g' ∧ Fed g' (stored ++ [space, 0]) := by
  obtain ⟨g₁, hg₁, -, h₁⟩ := h.put (by omega) space
  have hlt₁ : (stored ++ [space]).length < inputBufferSize := by
    rw [List.length_append, List.length_singleton]
    omega
  obtain ⟨g₂, hg₂, -, h₂⟩ := h₁.put hlt₁ 0
  rw [List.append_assoc] at h₂
  refine ⟨g₂, ?_, h₂⟩
  have hblank : charType 0 ≠ 0 := by decide
  unfold CharFsm.cr
  simp only [h.load (by omega), bind, Except.bind, if_pos hblank, hg₁, hg₂]

theorem Fed.cr_fault (h : Fed g stored) (hfull : inputBufferSize < stored.length + 2) (c : Byte) :
    CharFsm.cr c g = .error .fault := by
  unfold CharFsm.cr
  by_cases hlt : stored.length < inputBufferSize
  · obtain ⟨g₁, hg₁, -, h₁⟩ := h.put hlt space
    have hfull₁ : inputBufferSize ≤ (stored ++ [space]).length := by
      rw [List.length_append, List.length_singleton]
      omega
    have hblank : charType 0 ≠ 0 := by decide
    simp only [h.load hlt, bind, Except.bind, if_pos hblank, hg₁, h₁.put_fault hfull₁]
  · have hptr : g.inputBufferPtr = inputBufferSize := h.ptr.trans (h.fits.antisymm (not_lt.1 hlt))
    rw [hptr]
    rfl

theorem Fed.cr2 (h : Fed g stored) (hlt : stored.length < inputBufferSize) (c : Byte) :
    ∃ g', cr2 c g = processBuffer g' ∧ g'.inputBuffer = g.inputBuffer := by
  have hptr : g.inputBufferPtr < inputBufferSize := h.ptr ▸ hlt
  have hzero : (0 : Byte) = g.inputBuffer[g.inputBufferPtr] := by
    have hload := h.load hlt
    rw [load_natCast g.inputBuffer hptr] at hload
    exact (Except.ok.inj hload).symm
  have hsame : g.inputBuffer.set g.inputBufferPtr 0 = g.inputBuffer := by
    rw [hzero, Vector.set_getElem_self]
  refine ⟨g, ?_, rfl⟩
  unfold CharFsm.cr2
  rw [store_natCast g.inputBuffer hptr, hsame]
  rfl

theorem Fed.cr2_fault (h : Fed g stored) (hfull : inputBufferSize ≤ stored.length) (c : Byte) :
    CharFsm.cr2 c g = .error .fault := by
  have hptr : g.inputBufferPtr = inputBufferSize := h.ptr.trans (h.fits.antisymm hfull)
  unfold CharFsm.cr2
  rw [hptr]
  rfl

/-- In all states but one a carriage return stores a blank and the terminator. -/
theorem carriageReturn_cases (st : Fin charStates) :
    ((charAction.get 3).get st = .cr2 ∧ stores st [carriageReturn] = [0]) ∨
      ((charAction.get 3).get st = .cr ∧ stores st [carriageReturn] = [space, 0]) := by
  revert st
  decide

/-- At the end of the line the buffer is cut into tokens, with all that has been stored. -/
theorem Fed.endOfLine (h : Fed g stored) {k : ℕ}
    (hfit : (stored ++ stores g.charState [carriageReturn]).length + k = inputBufferSize) :
    ∃ g', ((charAction.get 3).get g.charState).run carriageReturn g = processBuffer g' ∧
      g'.inputBuffer.toList =
        stored ++ stores g.charState [carriageReturn] ++ List.replicate k 0 := by
  obtain ⟨hact, hstores⟩ | ⟨hact, hstores⟩ := carriageReturn_cases g.charState
  · rw [hstores, List.length_append, List.length_singleton] at hfit
    obtain ⟨g', hg', hbuf⟩ := h.cr2 (by omega) carriageReturn
    refine ⟨g', ?_, ?_⟩
    · rw [← hg', hact]
      rfl
    · have hlen : inputBufferSize - stored.length = k + 1 := by omega
      rw [hbuf, h.buffer, hlen, hstores, List.append_assoc]
      rfl
  · rw [hstores, List.length_append, List.length_cons, List.length_singleton] at hfit
    obtain ⟨g', hg', hfed⟩ := h.cr (by omega) carriageReturn
    refine ⟨g', ?_, ?_⟩
    · rw [← hg', hact]
      rfl
    · have hlen : inputBufferSize - (stored ++ [space, 0]).length = k := by
        rw [List.length_append, List.length_cons, List.length_singleton]
        omega
      rw [hfed.buffer, hlen, hstores]

theorem Fed.endOfLine_fault (h : Fed g stored)
    (hfull : inputBufferSize < (stored ++ stores g.charState [carriageReturn]).length) :
    ((charAction.get 3).get g.charState).run carriageReturn g = .error .fault := by
  obtain ⟨hact, hstores⟩ | ⟨hact, hstores⟩ := carriageReturn_cases g.charState
  · rw [hstores, List.length_append, List.length_singleton] at hfull
    rw [hact]
    exact h.cr2_fault (Nat.lt_succ_iff.1 hfull) carriageReturn
  · rw [hstores, List.length_append, List.length_cons, List.length_singleton] at hfull
    rw [hact]
    exact h.cr_fault hfull carriageReturn

theorem charType_carriageReturn : charType carriageReturn = 3 := by decide

/-- A line for which too much is stored runs over the buffer. -/
theorem foldlM_charFsm_fault {l : List Byte} (hl : ∀ c ∈ l, Typed c) (h : Fed g stored)
    (hfull : inputBufferSize < (stored ++ stores g.charState (l ++ [carriageReturn])).length) :
    (l ++ [carriageReturn]).foldlM charFsm g = .error .fault := by
  induction l generalizing g stored with
  | nil =>
    have hrun := h.endOfLine_fault hfull
    rw [List.nil_append, List.foldlM_cons, charFsm]
    simp only [charType_carriageReturn, hrun, bind, Except.bind]
  | cons c l ih =>
    rw [List.forall_mem_cons] at hl
    rw [List.cons_append, stores_cons, ← List.append_assoc] at hfull
    rw [List.cons_append, List.foldlM_cons]
    by_cases hfit : (stored ++ ((charAction.get (charType c)).get g.charState).stores c).length ≤
        inputBufferSize
    · obtain ⟨g₁, hg₁, hst₁, h₁⟩ := h.step hl.1 hfit
      rw [← hst₁] at hfull
      rw [hg₁]
      exact ih hl.2 h₁ hfull
    · have hrun := h.run_fault (charAction_typed hl.1 g.charState) (not_le.1 hfit)
      rw [charFsm]
      simp only [hrun, bind, Except.bind]

end PconTng.CharFsm
