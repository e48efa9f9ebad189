import PconTng.CharFsm.Buffer
import PconTng.Foundations.Lexer

/-!
# Taking tokens off the input buffer

The second stage of the character input parser, from one token to the next. The pointer divides what
is left of the buffer into the text of the token so far and the rest (`Cutter.At`). A run of text is
passed over, a delimiter ends a token, and a quote takes a string off the buffer, which needs a
character behind it.
-/

namespace PconTng.CharFsm

open CMemory CArray Lexer

/-! ## Characters -/

/-- The delimiters: space, comma, colon and slash. -/
def isDelim (c : Byte) : Bool := c ∈ [space, comma, colon, slash]

/-- The character may stand in a line: it is not a terminator, a carriage return or a delete. -/
def Typed (c : Byte) : Prop := c ∉ [(0 : Byte), carriageReturn, delete]

instance (c : Byte) : Decidable (Typed c) := inferInstanceAs (Decidable (_ ∉ _))

theorem isDelim_quote : isDelim quote = false := by decide

theorem charType_eq_zero {c : Byte} : charType c = 0 ↔ isDelim c = true := by
  simp only [charType, isDelim, List.mem_cons, List.not_mem_nil, or_false, decide_eq_true_eq]
  split_ifs with h
  · exact iff_of_true rfl (by tauto)
  all_goals exact iff_of_false (by decide) (by tauto)

theorem charType_quote : charType quote = 1 := by decide

/-- The kind of a character of a line. -/
theorem charType_text {c : Byte} (h : Typed c) (ht : text isDelim quote c) : charType c = 4 := by
  simp only [Typed, List.mem_cons, List.not_mem_nil, or_false, not_or] at h
  have ht' : isDelim c = false ∧ c ≠ quote := by simpa [text] using ht
  have hd : charType c ≠ 0 := fun h0 => by simp [charType_eq_zero.1 h0] at ht'
  unfold charType at hd ⊢
  split_ifs at hd ⊢ with h0 h1 h2 h3
  · exact absurd rfl hd
  · exact absurd h1 ht'.2
  · exact absurd h2 h.2.2
  · exact absurd h3 h.2.1
  · rfl

/-! ## Taking tokens off the buffer -/

namespace Cutter

/-- Between `start_char` and the pointer stands `w`, from the pointer on stands `rest`, and the two
pointers are at the same place of their buffers. -/
structure At (s : Cutter) (w rest : List Byte) : Prop where
  chars : s.buf.toList.drop s.start = w ++ rest
  ptr : s.ptr = s.start + w.length
  tPtr : s.tPtr = s.ptr
  fits : s.ptr ≤ inputBufferSize

variable {s : Cutter} {w rest : List Byte} {c : Byte}

theorem At.drop_ptr (h : At s w rest) : s.buf.toList.drop s.ptr = rest := by
  rw [h.ptr, ← List.drop_drop, h.chars, List.drop_left]

theorem At.add_length (h : At s w rest) : s.ptr + rest.length = inputBufferSize := by
  have hlen := congrArg List.length h.drop_ptr
  rw [List.length_drop, Vector.length_toList] at hlen
  have hfits := h.fits
  omega

theorem At.ptr_lt (h : At s w (c :: rest)) : s.ptr < inputBufferSize := by
  have hlen := h.add_length
  rw [List.length_cons] at hlen
  omega

theorem load_of_drop {n : ℕ} {a : Vector Byte n} {i : ℕ} (h : a.toList.drop i = c :: rest) :
    load a i = .ok c := by
  have hi : i < a.toList.length := by
    by_contra hge
    rw [List.drop_eq_nil_of_le (not_lt.1 hge)] at h
    cases h
  rw [List.drop_eq_getElem_cons hi] at h
  rw [load_natCast a (by simpa using hi)]
  exact congrArg Except.ok (List.head_eq_of_cons_eq h)

theorem At.load (h : At s w (c :: rest)) : CArray.load s.buf s.ptr = .ok c :=
  load_of_drop h.drop_ptr

/-- Behind the buffer nothing is read or written. -/
theorem At.load_nil (h : At s w []) : CArray.load s.buf s.ptr = .error .fault := by
  have hptr : s.ptr = inputBufferSize := h.add_length
  rw [hptr]
  rfl

theorem At.push_nil (h : At s w []) (size : ℕ) : push size s = .error .fault := by
  have hptr : s.ptr = inputBufferSize := h.add_length
  rw [push, hptr]
  rfl

/-- The next character is left behind, with some character in the temporary buffer for it. -/
theorem At.keep (h : At s w (c :: rest)) (x : Byte) :
    ∃ s', s.keep x = .ok s' ∧ s'.head = s.head ∧ s'.ptr = s.ptr ∧
      At { s' with ptr := s'.ptr + 1 } (w ++ [c]) rest := by
  have hlt := h.ptr_lt
  refine ⟨{ s with tb := s.tb.set s.ptr x hlt, tPtr := s.ptr + 1 }, ?_, rfl, rfl, ?_, ?_, rfl, hlt⟩
  · rw [Cutter.keep, h.tPtr, store_natCast s.tb hlt]
    rfl
  · rw [List.append_assoc, List.singleton_append]
    exact h.chars
  · rw [List.length_append, List.length_singleton, ← add_assoc, ← h.ptr]

theorem At.move (h : At s w (c :: rest)) :
    ∃ s', s.move = .ok s' ∧ s'.head = s.head ∧ s'.ptr = s.ptr + 1 ∧ At s' (w ++ [c]) rest := by
  obtain ⟨s', hs', hhead, hptr, hat⟩ := h.keep c
  refine ⟨{ s' with ptr := s'.ptr + 1 }, ?_, hhead, congrArg (· + 1) hptr, hat⟩
  simp only [Cutter.move, h.load, hs', bind, Except.bind]
  rfl

/-- What stands before the pointer becomes a token. The terminator is written at the pointer, and
then left behind. -/
theorem At.push (h : At s w (c :: rest)) (size : ℕ) : ∃ s₁ s₂, push size s = .ok s₁ ∧
    CArray.load s₁.buf s₁.ptr = .ok 0 ∧ s₁.move = .ok s₂ ∧ s₂.ptr = s.ptr + 1 ∧
    s₂.head = s.head ++ [⟨size, w ++ [0]⟩] ∧ At s₂ [] rest := by
  have hlt := h.ptr_lt
  let buf := s.buf.set s.ptr 0 hlt
  have hset : buf.toList.drop s.start = w ++ 0 :: rest := by
    rw [Vector.toList_set, List.drop_set, if_neg (by rw [h.ptr]; omega), h.chars, h.ptr,
      Nat.add_sub_cancel_left, List.set_append_right _ _ le_rfl, Nat.sub_self, List.set_cons_zero]
  have hcopy : (buf.toList.drop s.start).take (s.ptr - s.start + 1) = w ++ [0] := by
    rw [hset, h.ptr, Nat.add_sub_cancel_left, List.take_append, List.take_of_length_le (by omega),
      Nat.add_sub_cancel_left, List.take_succ_cons, List.take_zero]
  have hrest : buf.toList.drop (s.ptr + 1) = rest := by
    rw [h.ptr, add_assoc, ← List.drop_drop, hset, ← List.drop_drop, List.drop_left, List.drop_one,
      List.tail_cons]
  have hload : CArray.load buf s.ptr = .ok 0 := by
    rw [load_natCast buf hlt, Vector.getElem_set_self]
  refine ⟨{ s with buf := buf, start := s.ptr + 1, head := s.head ++ [⟨size, w ++ [0]⟩] },
    ⟨buf, s.ptr + 1, s.ptr + 1, s.tb.set s.ptr 0 hlt, s.ptr + 1, s.head ++ [⟨size, w ++ [0]⟩]⟩, ?_,
    hload, ?_, rfl, rfl, hrest, rfl, rfl, hlt⟩
  · rw [Cutter.push, store_natCast s.buf hlt, ← hcopy]
    rfl
  · simp only [Cutter.move, Cutter.keep, hload, h.tPtr, store_natCast s.tb hlt, bind, Except.bind]
    rfl

/-- The search for an ending quote stops at the first quote or terminator. -/
theorem At.moveString {t : List Byte} (h : At s w (t ++ c :: rest)) (hc : c = quote ∨ c = 0)
    (hq : quote ∉ t) (h0 : 0 ∉ t) {fuel : ℕ} (hfuel : t.length < fuel) :
    ∃ s', moveString fuel s = .ok s' ∧ s'.head = s.head ∧ s'.ptr = s.ptr + t.length ∧
      At s' (w ++ t) (c :: rest) := by
  induction t generalizing s w fuel with
  | nil =>
    obtain ⟨fuel, rfl⟩ : ∃ n, fuel = n + 1 := ⟨fuel - 1, by rw [List.length_nil] at hfuel; omega⟩
    have hstop : ¬ (c ≠ quote ∧ c ≠ 0) := by tauto
    refine ⟨s, ?_, rfl, rfl, by rwa [List.append_nil]⟩
    rw [Cutter.moveString, At.load h]
    exact if_neg hstop
  | cons d t ih =>
    rw [List.mem_cons, not_or] at hq h0
    rw [List.length_cons] at hfuel
    obtain ⟨fuel, rfl⟩ : ∃ n, fuel = n + 1 := ⟨fuel - 1, by omega⟩
    obtain ⟨s₁, hs₁, hhead₁, hptr₁, hat₁⟩ := At.move h
    obtain ⟨s', hs', hhead, hptr, hat⟩ := ih hat₁ hq.2 h0.2 (Nat.lt_of_succ_lt_succ hfuel)
    refine ⟨s', ?_, hhead.trans hhead₁, ?_, ?_⟩
    · simp only [Cutter.moveString, At.load h, bind, Except.bind,
        if_pos (show d ≠ PconTng.quote ∧ d ≠ 0 from ⟨Ne.symm hq.1, Ne.symm h0.1⟩), hs₁, hs']
    · rw [hptr, hptr₁, List.length_cons]
      omega
    · rwa [List.append_assoc, List.singleton_append] at hat

/-- With enough fuel the loop ends as `r`. -/
def Yields (s : Cutter) (r : Except Stop (List Block)) : Prop :=
  ∀ fuel, inputBufferSize < fuel + s.ptr → loop fuel s = r

/-- The loop ends from `s` as it does from `s'`. -/
def Leads (s s' : Cutter) : Prop := ∀ r, Yields s' r → Yields s r

theorem Leads.trans {s s' s'' : Cutter} (h : Leads s s') (h' : Leads s' s'') : Leads s s'' :=
  fun r hr => h r (h' r hr)

theorem leads_of_step {s s' : Cutter} (hlt : s.ptr < inputBufferSize) (hptr : s.ptr < s'.ptr)
    (hstep : ∀ fuel, loop (fuel + 1) s = loop fuel s') : Leads s s' := by
  intro r h fuel hfuel
  cases fuel with
  | zero => omega
  | succ fuel =>
    rw [hstep]
    exact h fuel (by omega)

theorem At.yields_end (h : At s w (0 :: rest)) : Yields s (.ok s.head) := by
  intro fuel hfuel
  have hlt := h.ptr_lt
  cases fuel with
  | zero => omega
  | succ fuel =>
    rw [loop, h.load]
    rfl

/-- Without a terminator the loop leaves the buffer. -/
theorem At.yields_fault (h : At s w []) : Yields s (.error .fault) := by
  intro fuel hfuel
  cases fuel with
  | zero => rfl
  | succ fuel =>
    rw [loop, h.load_nil]
    rfl

/-- One turn at a character that is not the end of the buffer. -/
theorem At.turn (h : At s w (c :: rest)) (hc : c ≠ 0) {s₁ s₂ s₃ : Cutter} (hq : onQuote s = .ok s₁)
    (hd : onDelim s₁ = .ok s₂) (hm : s₂.move = .ok s₃) (fuel : ℕ) :
    loop (fuel + 1) s = loop fuel s₃ := by
  rw [loop, h.load]
  simp only [bind, Except.bind, if_neg hc, hq, hd, hm]

theorem onQuote_of_ne (h : CArray.load s.buf s.ptr = .ok c) (hc : c ≠ quote) :
    onQuote s = .ok s := by
  rw [onQuote, h]
  exact if_neg hc

theorem onDelim_of_ne (h : CArray.load s.buf s.ptr = .ok c) (hc : charType c ≠ 0) :
    onDelim s = .ok s := by
  rw [onDelim, h]
  exact if_neg hc

/-- The text of a run is passed over. -/
theorem At.text {t : List Byte} (ht : ∀ c ∈ t, Typed c) (htext : ∀ c ∈ t, text isDelim quote c)
    (h : At s w (t ++ rest)) : ∃ s', At s' (w ++ t) rest ∧ s'.head = s.head ∧ Leads s s' := by
  induction t generalizing s w with
  | nil => exact ⟨s, by simpa using h, rfl, fun _ => id⟩
  | cons c t ih =>
    rw [List.forall_mem_cons] at ht htext
    have hc : charType c = 4 := charType_text ht.1 htext.1
    have hne : c ≠ quote := fun he => by simp [he, Lexer.text] at htext
    have hc0 : c ≠ 0 := fun h0 => ht.1 (by simp [h0])
    obtain ⟨s₁, hs₁, hhead₁, hptr₁, hat₁⟩ := At.move h
    have hstep : Leads s s₁ :=
      leads_of_step (At.ptr_lt h) (hptr₁ ▸ Nat.lt_succ_self _)
        (At.turn h hc0 (onQuote_of_ne h.load hne) (onDelim_of_ne h.load (by rw [hc]; decide)) hs₁)
    obtain ⟨s', hs', hhead, hleads⟩ := ih ht.2 htext.2 hat₁
    rw [List.append_assoc, List.singleton_append] at hs'
    exact ⟨s', hs', hhead.trans hhead₁, hstep.trans hleads⟩

/-- How many characters stand before the pointer. -/
theorem At.length_eq (h : At s w rest) : s.ptr - s.start = w.length := by
  rw [h.ptr, Nat.add_sub_cancel_left]

/-- A delimiter ends a token. -/
theorem At.delim (h : At s w (c :: rest)) (hc : charType c = 0) :
    ∃ s', At s' [] rest ∧ s'.head = s.head ++ [⟨w.length + 1, w ++ [0]⟩] ∧ Leads s s' := by
  have hc0 : c ≠ 0 := by
    rintro rfl
    exact absurd hc (by decide)
  have hne : c ≠ quote := by
    rintro rfl
    exact absurd hc (by decide)
  obtain ⟨s₁, s₂, hs₁, -, hs₂, hptr, hhead, hat⟩ := At.push h (w.length + 1)
  have hd : onDelim s = .ok s₁ := by
    rw [onDelim, h.load, h.length_eq]
    exact (if_pos hc).trans hs₁
  refine ⟨s₂, hat, hhead, leads_of_step h.ptr_lt ?_ (h.turn hc0 (onQuote_of_ne h.load hne) hd hs₂)⟩
  rw [hptr]
  exact Nat.lt_succ_self _

/-- At a quote the string goes up to the ending quote or the end of the buffer, and over it. -/
theorem At.string {t : List Byte} (h : At s [] (quote :: (t ++ c :: rest)))
    (hc : c = quote ∨ c = 0) (hq : quote ∉ t) (h0 : 0 ∉ t) :
    ∃ s', onQuote s = Cutter.push (t.length + 2) s' ∧ s'.head = s.head ∧ s.ptr < s'.ptr ∧
      At s' (PconTng.quote :: (t ++ [c])) rest := by
  have hlen : t.length < inputBufferSize + 1 := by
    have hlen := h.add_length
    rw [List.length_cons, List.length_append] at hlen
    omega
  obtain ⟨s₁, hs₁, hhead₁, hptr₁, hat₁⟩ := At.move h
  obtain ⟨s₂, hs₂, hhead₂, hptr₂, hat₂⟩ := hat₁.moveString hc hq h0 hlen
  obtain ⟨s₃, hs₃, hhead₃, hptr₃, hat₃⟩ := hat₂.keep PconTng.quote
  have hat : At { s₃ with ptr := s₃.ptr + 1 } (PconTng.quote :: (t ++ [c])) rest := by
    simpa only [List.nil_append, List.singleton_append, List.cons_append] using hat₃
  have hsize : s₃.ptr + 1 - s₃.start = t.length + 2 := by
    have hlength := hat.length_eq
    simpa only [List.length_cons, List.length_append, List.length_nil] using hlength
  refine ⟨{ s₃ with ptr := s₃.ptr + 1 }, ?_, hhead₃.trans (hhead₂.trans hhead₁), ?_, hat⟩
  · rw [onQuote, h.load, ← hsize]
    simp only [bind, Except.bind, if_true, hs₁, hs₂, hs₃]
  · dsimp only
    omega

/-- The string becomes a token. The terminator overwrites the character behind, and its copy does
not fit the block. -/
theorem At.quoted {t : List Byte} {x : Byte} (h : At s [] (quote :: (t ++ c :: x :: rest)))
    (hc : c = quote ∨ c = 0) (hq : quote ∉ t) (h0 : 0 ∉ t) :
    ∃ s', At s' [] rest ∧
      s'.head = s.head ++ [⟨t.length + 2, quote :: (t ++ [c]) ++ [0]⟩] ∧ Leads s s' := by
  obtain ⟨s₁, honq, hhead₁, hptr₁, hat₁⟩ := h.string hc hq h0
  obtain ⟨s₂, s₃, hs₂, hzero, hs₃, hptr₃, hhead₃, hat₃⟩ := At.push hat₁ (t.length + 2)
  -- the pointer is at the terminator that has been written
  have hterm : onDelim s₂ = .ok s₂ := onDelim_of_ne hzero (by decide)
  refine ⟨s₃, hat₃, hhead₁ ▸ hhead₃, leads_of_step h.ptr_lt ?_
    (h.turn (by decide) (honq.trans hs₂) hterm hs₃)⟩
  rw [hptr₃]
  omega

/-- There has to be a character behind. -/
theorem At.quoted_fault {t : List Byte} (h : At s [] (quote :: (t ++ [c])))
    (hc : c = quote ∨ c = 0) (hq : quote ∉ t) (h0 : 0 ∉ t) : Yields s (.error .fault) := by
  obtain ⟨s₁, honq, -, -, hat₁⟩ := h.string hc hq h0
  intro fuel hfuel
  cases fuel with
  | zero => rfl
  | succ fuel =>
    rw [loop, h.load]
    simp only [bind, Except.bind, if_neg (show PconTng.quote ≠ 0 by decide), honq,
      hat₁.push_nil]

end Cutter

end PconTng.CharFsm
