import PconTng.Foundations.Cursor
import PconTng.Pcon.Recall

/-!
# A line that is typed

As long as no arrow brings back another line, the line editor is one for a text with a cursor: each
key makes the edit of `Cursor.Line` that it stands for, in whichever of the two ways `main` has for
it, and the buffer has zeros behind the text (`Holds`). A carriage return submits the text.
-/

namespace PconTng.LineEditor

open CMemory CArray CharFsm Cursor

/-- A character that is inserted, and does not terminate the line. -/
abbrev Insertable : Type := { c : Byte // c ∉ [0, noChar, esc, carriageReturn, delete] }

def Insertable.other (c : Insertable) : Other := ⟨c.val, fun h => c.property (.tail _ h)⟩

/-- The key for an edit. -/
def keyOf : Edit Insertable → Key
  | .insert c => .other c.other
  | .delete => .del
  | .left => .left
  | .right => .right

/-- The line as it is in the buffer. -/
def bytes (l : Line Insertable) : List Byte := l.text.map Subtype.val

/-- The work buffer holds the text up to its pointer and zeros behind, and the input pointer is at
the cursor. -/
structure Holds (s : Editor) (l : Line Insertable) : Prop where
  shows : Shows 0 s.workBuffer (bytes l)
  ptr : s.workBufferPtr = l.text.length
  input : s.inputPtr = l.cursor

/-- The line is empty and the buffer clear. -/
structure Blank (s : Editor) : Prop where
  buffer : s.workBuffer = .replicate _ 0
  ptr : s.workBufferPtr = 0
  input : s.inputPtr = 0

variable {s s' : Editor} {stray : ℤ → Row} {l : Line Insertable}

/-! ## Where a line starts

The buffer is clear at the start of the program, and after each carriage return and escape. -/

theorem blank_start : Blank Editor.start := ⟨rfl, rfl, rfl⟩

theorem blank_escape (hs : step stray s .escape = .ok s') : Blank s' := by
  cases hs
  exact ⟨rfl, rfl, rfl⟩

theorem blank_submit (hinv : Inv s) {passed : List Byte} (hs : s.submit = .ok (s', passed)) :
    Blank s' := by
  obtain ⟨i, hi⟩ := hinv.exists_in
  obtain ⟨-, rfl, -⟩ := submit_cases hi hinv.ptr_le hs
  exact ⟨rfl, rfl, rfl⟩

theorem blank_cr (hinv : Inv s) (hs : step stray s .cr = .ok s') : Blank s' := by
  obtain ⟨passed, hcr⟩ := step_cr hs
  obtain ⟨-, hsubmit⟩ | ⟨line, s₁, hnew, hrecord, hsubmit⟩ := cr_cases hcr
  · exact blank_submit hinv hsubmit
  · exact blank_submit (hinv.record (newLine_some hnew).2 hrecord) hsubmit

theorem Blank.holds (h : Blank s) : Holds s .empty where
  shows := by
    rw [h.buffer]
    exact shows_replicate
  ptr := h.ptr
  input := h.input

theorem inv_run {before : List Key} (hs : before.foldlM (step stray) Editor.start = .ok s) :
    Inv s :=
  foldlM_invariant (fun _ _ _ h hs => h.step hs) before _ s inv_start hs

/-! ## The line in the buffer -/

theorem length_bytes (l : Line Insertable) : (bytes l).length = l.text.length := List.length_map _

theorem zero_notMem_bytes (l : Line Insertable) : 0 ∉ bytes l := by
  intro hmem
  obtain ⟨c, -, hc⟩ := List.mem_map.1 hmem
  refine c.property ?_
  rw [hc]
  exact .head _

theorem Holds.ptr_eq (h : Holds s l) : s.workBufferPtr = (bytes l).length := by
  rw [h.ptr, length_bytes]

theorem Holds.input_le (h : Holds s l) : s.inputPtr ≤ s.workBufferPtr := by
  rw [h.input, h.ptr]
  exact l.cursor_le

/-- The bytes behind the text are zero. -/
theorem Holds.behind (h : Holds s l) {j : ℕ} (hj : j < inputBufferSize)
    (hle : s.workBufferPtr ≤ j) : s.workBuffer[j] = 0 := by
  rw [h.shows j hj, List.getElem?_eq_none (h.ptr_eq ▸ hle), Option.getD_none]

/-! ## One edit -/

theorem bytes_insert (l : Line Insertable) (c : Insertable) :
    bytes (l.insert c) = (bytes l).insertIdx l.cursor c.val :=
  List.map_insertIdx _ _ _ _

theorem bytes_delete (l : Line Insertable) (h : 0 < l.cursor) :
    bytes (l.delete h) = (bytes l).eraseIdx (l.cursor - 1) :=
  (List.eraseIdx_map _ _ _).symm

theorem Holds.insert (h : Holds s l) (c : Insertable)
    (hlt : l.text.length + 1 < inputBufferSize) :
    ∃ s', s.other c.val = .ok s' ∧ Holds s' (l.insert c) := by
  have hptr := h.ptr_eq
  have hinput := h.input
  have hlt' : s.workBufferPtr + 1 < inputBufferSize := h.ptr ▸ hlt
  have hlen : (l.insert c).text.length = l.text.length + 1 :=
    List.length_insertIdx_of_le_length l.cursor_le c
  rw [Editor.other, if_pos (show s.workBufferPtr ≤ Editor.endBuff from by
    simp only [Editor.endBuff]; omega)]
  split_ifs with heq
  · -- at the end of the line nothing is moved
    refine ⟨_, Editor.addEnd_eq c.val (Nat.lt_of_succ_lt hlt'), ?_, ?_, ?_⟩
    · have happ : bytes (l.insert c) = bytes l ++ [c.val] := by
        rw [bytes_insert, ← hinput, heq, hptr, List.insertIdx_length_self]
      rw [happ]
      simp only [hptr]
      exact h.shows.append (by omega) c.val
    · rw [hlen, ← h.ptr]
    · exact congrArg (· + 1) (heq.symm.trans hinput)
  · obtain ⟨buf, hadd, hopened⟩ := Editor.addInside_eq c.val h.input_le hlt'
    refine ⟨_, hadd, ?_, ?_, congrArg (· + 1) hinput⟩
    · rw [bytes_insert, ← hinput]
      refine h.shows.insertIdx (hptr ▸ h.input_le) hopened.before hopened.new ?_ ?_
      · rw [← hptr]
        exact hopened.moved
      · intro j hj hjlt
        obtain rfl | hgt := (Nat.succ_le_of_lt (hptr.symm ▸ hjlt)).eq_or_lt
        · exact hopened.nul hj
        · exact (hopened.behind j hj hgt).trans (h.behind hj (by omega))
    · rw [hlen, ← h.ptr]

theorem Holds.delete (h : Holds s l) (hlt : l.text.length < inputBufferSize) :
    ∃ s', s.del = .ok s' ∧ Holds s' (l.edit .delete) := by
  have hptr := h.ptr_eq
  have hinput := h.input
  by_cases hpos : 0 < l.cursor
  · have hlt' : s.workBufferPtr < inputBufferSize := h.ptr ▸ hlt
    obtain ⟨buf, hdel, hclosed⟩ := Editor.del_eq (hinput ▸ hpos) h.input_le hlt'
    have hedit : l.edit .delete = l.delete hpos := dif_pos hpos
    have hle := l.cursor_le
    have hlen : (l.delete hpos).text.length = l.text.length - 1 :=
      List.length_eraseIdx_of_lt (by omega)
    refine ⟨_, hdel, ?_, ?_, ?_⟩
    · rw [hedit, bytes_delete, ← hinput]
      refine h.shows.eraseIdx hclosed.before ?_ ?_ (hptr ▸ hlt'.le)
      · rw [← hptr]
        exact hclosed.moved
      · intro j hj hge
        obtain hjle | hgt := le_or_gt j s.workBufferPtr
        · exact hclosed.nul j hj (hptr.trans_le hge) hjle
        · exact (hclosed.behind j hj hgt).trans (h.behind hj hgt.le)
    · rw [hedit, hlen, ← h.ptr]
    · rw [hedit]
      exact congrArg (· - 1) hinput
  · have hnone : l.edit .delete = l := dif_neg hpos
    rw [hnone]
    exact ⟨s, if_pos (by omega), h⟩

theorem Holds.left (h : Holds s l) : Holds s.left (l.edit .left) := by
  have hinput := h.input
  unfold Editor.left
  split_ifs with hpos
  · exact ⟨h.shows, h.ptr, congrArg (· - 1) hinput⟩
  · refine ⟨h.shows, h.ptr, ?_⟩
    show s.inputPtr = l.cursor - 1
    omega

theorem Holds.right (h : Holds s l) : Holds s.right (l.edit .right) := by
  have hinput := h.input
  have hptr := h.ptr
  have hle := l.cursor_le
  unfold Editor.right
  split_ifs with hlt
  · refine ⟨h.shows, hptr, ?_⟩
    show s.inputPtr + 1 = min (l.cursor + 1) l.text.length
    omega
  · refine ⟨h.shows, hptr, ?_⟩
    show s.inputPtr = min (l.cursor + 1) l.text.length
    omega

/-- A key makes its edit. -/
theorem Holds.edit (h : Holds s l) (hlt : l.text.length < inputBufferSize) (e : Edit Insertable)
    (hlt' : (l.edit e).text.length < inputBufferSize) :
    ∃ s', step stray s (keyOf e) = .ok s' ∧ Holds s' (l.edit e) := by
  cases e with
  | insert c =>
    have hlen : (l.insert c).text.length = l.text.length + 1 :=
      List.length_insertIdx_of_le_length l.cursor_le c
    rw [keyOf, step_other]
    exact h.insert c (hlen ▸ hlt')
  | delete =>
    rw [keyOf, step_del]
    exact h.delete hlt
  | left => exact ⟨_, rfl, h.left⟩
  | right => exact ⟨_, rfl, h.right⟩

/-! ## Submitting the line -/

theorem Holds.cString_eq (h : Holds s l) (hlt : l.text.length < inputBufferSize) :
    cString s.workBuffer.toList = .ok (bytes l) := by
  have hlen := length_bytes l
  obtain ⟨k, hk⟩ : ∃ k, inputBufferSize - (bytes l).length = k + 1 :=
    ⟨inputBufferSize - (bytes l).length - 1, by omega⟩
  rw [h.shows.toList (by omega), hk, List.replicate_succ]
  exact cString_append (zero_notMem_bytes l) _

theorem Holds.cr (h : Holds s l) (hinv : Inv s) (hlt : l.text.length + 1 < inputBufferSize) :
    ∃ s', s.cr = .ok (s', bytes l ++ [carriageReturn]) := by
  have hptr := h.ptr
  have hline := h.cString_eq (Nat.lt_of_succ_lt hlt)
  have hterminated : Terminated s :=
    (terminated_iff (by omega)).2 (h.behind (by omega) le_rfl)
  have hroom : Room (fun _ => s.workBuffer) s .cr :=
    ⟨by omega, .inr (exists_cString.1 ⟨_, hline⟩)⟩
  obtain ⟨⟨s', passed⟩, hcr⟩ := (cr_isOk_iff hinv).2 hroom
  obtain heq | ⟨-, hshort⟩ := hterminated.submits hinv _ hcr _ hline
  · rw [← heq]
    exact ⟨s', hcr⟩
  · rw [h.ptr_eq] at hshort
    exact absurd hshort (lt_irrefl _)

/-! ## A whole line -/

/-- **The line editor is one for a text with a cursor.** -/
theorem line_typed (stray : ℤ → Row) {before : List Key}
    (hs : before.foldlM (step stray) Editor.start = .ok s) (hblank : Blank s)
    (es : List (Edit Insertable))
    (hfits : Along (fun l e => (l.edit e).text.length < inputBufferSize) Line.edit .empty es) :
    ∃ s', (es.map keyOf).foldlM (step stray) s = .ok s' ∧
      Holds s' (es.foldl Line.edit .empty) ∧
      ((es.foldl Line.edit .empty).text.length + 1 < inputBufferSize →
        ∃ t, press stray s' .cr =
          .ok (t, bytes (es.foldl Line.edit .empty) ++ [carriageReturn])) := by
  obtain ⟨s', hrun, ⟨hinv, h⟩, -⟩ := foldlM_simulation_along
    (f := fun s e => step stray s (keyOf e))
    (R := fun s l => (Inv s ∧ Holds s l) ∧ l.text.length < inputBufferSize)
    (fun s l e ⟨⟨hinv, h⟩, hfit⟩ hlt =>
      have ⟨s₁, hs₁, h₁⟩ := h.edit hfit e hlt
      ⟨s₁, hs₁, ⟨hinv.step hs₁, h₁⟩, hlt⟩)
    es s .empty ⟨⟨inv_run hs, hblank.holds⟩, by decide⟩ hfits
  refine ⟨s', ?_, h, h.cr hinv⟩
  rw [List.foldlM_map]
  exact hrun

/-- The keys a, c, arrow left and b. -/
def typedInside : List (Edit Insertable) :=
  [.insert ⟨97, by decide⟩, .insert ⟨99, by decide⟩, .left, .insert ⟨98, by decide⟩]

/-- They are the line abc. -/
theorem line_typed_inside : ∃ s' t,
    (typedInside.map keyOf).foldlM (step fun _ => .replicate _ 0) Editor.start = .ok s' ∧
      Holds s' (typedInside.foldl Line.edit .empty) ∧
      press (fun _ => .replicate _ 0) s' .cr = .ok (t, [97, 98, 99, carriageReturn]) := by
  have hnone : ([] : List Key).foldlM (step fun _ => .replicate _ 0) Editor.start =
      .ok Editor.start := rfl
  obtain ⟨s', hrun, hholds, hcr⟩ := line_typed _ hnone blank_start typedInside
    ⟨by decide, by decide, by decide, by decide, trivial⟩
  obtain ⟨t, ht⟩ := hcr (by decide)
  exact ⟨s', t, hrun, hholds, ht⟩

end PconTng.LineEditor
