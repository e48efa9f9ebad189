import PconTng.Pcon.Console
import PconTng.Pcon.History

/-!
# Sessions with recalled lines

A line may begin with one that an arrow has brought back. `History` is the list of lines between
which the arrows move: each line that is not empty and not the same as the one before is put at its
end, and the tenth one empties it. The line editor keeps it in its ring buffer (`Kept`), and a
session of lines that are typed, or recalled and edited, does what the lines mean
(`recalled_means`).
-/

namespace PconTng.Console

open CMemory CArray CharFsm LineEditor Cursor

/-! ## The lines that can be recalled -/

/-- How a line begins: empty, or with the line that an arrow brings back. -/
inductive Begin
  | fresh
  | up
  | down

/-- A line as it is typed. -/
structure Entry where
  start : Begin
  edits : List (Edit Insertable)

/-- The lines between which the arrows move, the last one that has been recorded, and where the last
arrow has been. -/
structure History where
  lines : List (List Insertable)
  previous : List Insertable
  place : ℕ

namespace History

def empty : History := ⟨[], [], 0⟩

/-- An arrow. -/
def move (h : History) : Begin → History
  | .fresh => h
  | .up => { h with place := if 0 < h.place then h.place - 1 else h.lines.length - 1 }
  | .down => { h with place := if h.place + 1 < h.lines.length then h.place + 1 else 0 }

/-- What the line begins with, after the arrow. -/
def begun (h : History) : Begin → Line Insertable
  | .fresh => .empty
  | _ => ⟨h.lines.getD h.place [], (h.lines.getD h.place []).length, le_rfl⟩

/-- A line is submitted. -/
def record (h : History) (line : List Insertable) : History :=
  if line = [] ∨ line = h.previous then h
  else if h.lines.length + 1 < cmdBufferDepth then
    ⟨h.lines ++ [line], line, h.lines.length + 1⟩
  else ⟨[], line, 0⟩

/-- The line at the end. -/
def line (h : History) (e : Entry) : Line Insertable :=
  e.edits.foldl Line.edit ((h.move e.start).begun e.start)

/-- The history after the line has been submitted. -/
def after (h : History) (e : Entry) : History := (h.move e.start).record (h.line e).text

end History

/-- The key of an arrow. -/
def Begin.keys : Begin → List Key
  | .fresh => []
  | .up => [.up]
  | .down => [.down]

/-- The keys of a line. -/
def Entry.keys (e : Entry) : List Key := e.start.keys ++ Console.keys e.edits

/-- An arrow finds a line, and the line stays inside the buffers. -/
structure Enterable (h : History) (e : Entry) : Prop where
  found : e.start = .fresh ∨ h.lines ≠ []
  room : Along (fun l e => (l.edit e).text.length < inputBufferSize) Line.edit
    ((h.move e.start).begun e.start) e.edits
  short : (h.line e).text.length + 1 < inputBufferSize
  fits : Fits (bytes (h.line e))

/-! ## The ring buffer -/

/-- The bytes of a text. -/
def textBytes (l : List Insertable) : List Byte := l.map Subtype.val

/-- The line editor keeps the history. -/
structure Kept (s : Editor) (h : History) : Prop where
  inv : Inv s
  length_lt : h.lines.length < cmdBufferDepth
  inIdx : s.rbInIdx = h.lines.length
  outIdx : s.rbOutIdx = h.place
  place_le : h.place ≤ h.lines.length
  rows : ∀ (i : Fin cmdBufferDepth) (hi : i.val < h.lines.length),
    cString (s.ringBuffer.get i).toList = .ok (textBytes h.lines[i.val])
  previous : cString s.previousWorkBuffer.toList = .ok (textBytes h.previous)

variable {s s' : Editor} {h : History} {stray : ℤ → Row} {l : Line Insertable}

theorem kept_start : Kept Editor.start .empty where
  inv := inv_start
  length_lt := by decide
  inIdx := rfl
  outIdx := rfl
  place_le := le_rfl
  rows _ hi := absurd hi (Nat.not_lt_zero _)
  previous := by decide

/-- A key that edits the line does not touch the ring buffer. -/
theorem step_edit {e : Edit Insertable} (hinv : Inv s) (hs : step stray s (keyOf e) = .ok s') :
    ∃ buf ptr input,
      s' = { s with workBuffer := buf, workBufferPtr := ptr, inputPtr := input } := by
  cases e with
  | insert c =>
    rw [keyOf, step_other] at hs
    obtain ⟨-, hlt, rfl⟩ | ⟨buf, -, -, rfl, -⟩ := other_cases hinv hs
    · exact ⟨_, _, _, rfl⟩
    · exact ⟨_, _, _, rfl⟩
  | delete =>
    rw [keyOf, step_del] at hs
    obtain ⟨-, rfl⟩ | ⟨buf, -, -, rfl, -⟩ := del_cases hinv hs
    · exact ⟨_, _, _, rfl⟩
    · exact ⟨_, _, _, rfl⟩
  | left =>
    obtain ⟨p, -, rfl⟩ := left_cases hinv hs
    exact ⟨_, _, _, rfl⟩
  | right =>
    obtain ⟨p, -, rfl⟩ := right_cases hinv hs
    exact ⟨_, _, _, rfl⟩

theorem Kept.edit {e : Edit Insertable} (hkept : Kept s h)
    (hs : step stray s (keyOf e) = .ok s') : Kept s' h := by
  have hinv := hkept.inv.step hs
  obtain ⟨buf, ptr, input, rfl⟩ := step_edit hkept.inv hs
  exact ⟨hinv, hkept.length_lt, hkept.inIdx, hkept.outIdx, hkept.place_le, hkept.rows,
    hkept.previous⟩

/-! ### An arrow -/

/-- A text that is copied into a clear buffer. -/
theorem shows_pokeStr (t : List Byte) :
    Shows 0 (pokeStr (.replicate inputBufferSize 0) (t ++ [0])).1 t := by
  intro j hj
  have hzero : (Vector.replicate inputBufferSize (0 : Byte))[(⟨j, hj⟩ : Fin _)] = 0 :=
    Vector.getElem_replicate hj
  simp only [pokeStr, Vector.getElem_ofFn, hzero]
  rw [List.getD_eq_getElem?_getD, List.getElem?_append]
  split_ifs with hlt
  · rfl
  · rw [List.getElem?_eq_none (Nat.le_of_not_lt hlt), Option.getD_none]
    cases j - t.length <;> rfl

/-- An arrow to a line of the history puts it into a clear buffer. -/
theorem Kept.arrow (stray : ℤ → Row) (hkept : Kept s h) (hblank : Blank s) {place : ℕ}
    (hp : place < h.lines.length) :
    ∃ s', Editor.arrowReprompt stray { s with rbOutIdx := place } = .ok s' ∧
      Kept s' { h with place := place } ∧
      LineEditor.Holds s' ⟨h.lines.getD place [], (h.lines.getD place []).length, le_rfl⟩ := by
  have hlt : place < cmdBufferDepth := hp.trans hkept.length_lt
  have hrow := hkept.rows ⟨place, hlt⟩ hp
  have hline : cString (peek stray s.ringBuffer place).toList = .ok (textBytes h.lines[place]) := by
    rw [peek_natCast stray _ hlt]
    exact hrow
  have hgetD : h.lines.getD place [] = h.lines[place] := by
    rw [List.getD_eq_getElem?_getD, List.getElem?_eq_getElem hp, Option.getD_some]
  have hs := arrowReprompt_eq (s := { s with rbOutIdx := place }) hline
  refine ⟨_, hs, ?_, ?_⟩
  · exact ⟨hkept.inv.arrow _ hs, hkept.length_lt, hkept.inIdx, rfl, hp.le, hkept.rows,
      hkept.previous⟩
  · have hlen : (textBytes h.lines[place]).length = h.lines[place].length := List.length_map _
    rw [hgetD]
    refine ⟨?_, hlen, hlen⟩
    dsimp only
    rw [hblank.buffer]
    exact shows_pokeStr _

theorem Kept.upIdx (hkept : Kept s h) (hne : h.lines ≠ []) :
    s.upIdx = ((h.move .up).place : ℕ) ∧ (h.move .up).place < h.lines.length := by
  have hin := hkept.inIdx
  have hout := hkept.outIdx
  have hle := hkept.place_le
  have hpos := List.length_pos_iff.2 hne
  simp only [Editor.upIdx, History.move, hin, hout]
  split_ifs <;> omega

theorem Kept.downIdx (hkept : Kept s h) (hne : h.lines ≠ []) :
    s.downIdx = ((h.move .down).place : ℕ) ∧ (h.move .down).place < h.lines.length := by
  have hin := hkept.inIdx
  have hout := hkept.outIdx
  have hpos := List.length_pos_iff.2 hne
  simp only [Editor.downIdx, History.move, hin, hout]
  split_ifs <;> omega

theorem Kept.up (stray : ℤ → Row) (hkept : Kept s h) (hblank : Blank s) (hne : h.lines ≠ []) :
    ∃ s', step stray s .up = .ok s' ∧ Kept s' (h.move .up) ∧
      LineEditor.Holds s' ((h.move .up).begun .up) := by
  obtain ⟨hidx, hlt⟩ := hkept.upIdx hne
  rw [step_up, hidx]
  exact hkept.arrow stray hblank hlt

theorem Kept.down (stray : ℤ → Row) (hkept : Kept s h) (hblank : Blank s) (hne : h.lines ≠ []) :
    ∃ s', step stray s .down = .ok s' ∧ Kept s' (h.move .down) ∧
      LineEditor.Holds s' ((h.move .down).begun .down) := by
  obtain ⟨hidx, hlt⟩ := hkept.downIdx hne
  rw [step_down, hidx]
  exact hkept.arrow stray hblank hlt

/-! ### A carriage return -/

theorem textBytes_inj {t t' : List Insertable} : textBytes t = textBytes t' ↔ t = t' :=
  (List.map_injective_iff.2 Subtype.val_injective).eq_iff

/-- The line that is recorded at a carriage return. -/
theorem Kept.newLine (hkept : Kept s h) (hholds : LineEditor.Holds s l)
    (hlt : l.text.length < inputBufferSize) :
    s.newLine = .ok (if l.text = [] ∨ l.text = h.previous then none else some (bytes l)) := by
  have hptr := hholds.ptr
  by_cases hnil : l.text = []
  · rw [if_pos (.inl hnil), Editor.newLine, if_pos (by rw [hptr, hnil]; rfl)]
    rfl
  · have hpos := List.length_pos_iff.2 hnil
    have hiff : bytes l ≠ textBytes h.previous ↔ ¬ (l.text = [] ∨ l.text = h.previous) := by
      rw [not_or, and_iff_right hnil]
      exact not_congr textBytes_inj
    simp only [Editor.newLine, if_neg (show s.workBufferPtr ≠ 0 by omega), hholds.cString_eq hlt,
      hkept.previous, bind, Except.bind, hiff, ite_not]
    rfl

theorem submit_kept {s : Editor} (hinv : Inv s) {passed : List Byte}
    (hs : s.submit = .ok (s', passed)) : ∃ j : Fin cmdBufferDepth, s.rbInIdx = j.val ∧
      s' = { s with
        workBuffer := .replicate _ 0
        workBufferPtr := 0
        inputPtr := 0
        ringBuffer := s.ringBuffer.set j (.replicate _ 0) j.isLt } := by
  obtain ⟨j, hj⟩ := hinv.exists_in
  obtain ⟨-, hs', -⟩ := submit_cases hj hinv.ptr_le hs
  exact ⟨j, hj, hs'⟩

/-- A line that is submitted is in the history. -/
theorem Kept.cr (hkept : Kept s h) (hholds : LineEditor.Holds s l)
    (hlt : l.text.length < inputBufferSize) {passed : List Byte} (hs : s.cr = .ok (s', passed)) :
    Kept s' (h.record l.text) := by
  have hinv' := hkept.inv.cr hs
  have hnew := hkept.newLine hholds hlt
  have hin := hkept.inIdx
  unfold History.record
  split_ifs at hnew ⊢ with hsame hroom
  · rw [cr_of_none hnew] at hs
    obtain ⟨j, hj, rfl⟩ := submit_kept hkept.inv hs
    refine ⟨hinv', hkept.length_lt, hin, hkept.outIdx, hkept.place_le, fun i hi => ?_,
      hkept.previous⟩
    rw [get_eq, Vector.getElem_set_ne _ _ (by omega)]
    exact hkept.rows i hi
  · obtain ⟨i, hi⟩ := hkept.inv.exists_in
    have hnext : s.nextIn = (h.lines.length + 1 : ℕ) := by
      rw [Editor.nextIn, if_neg (by omega), hin]
      rfl
    have hrecord := record_eq hi (bytes l)
    rw [cr_of_some hnew hrecord] at hs
    have hinv₁ := hkept.inv.record (hholds.cString_eq hlt) hrecord
    obtain ⟨j, hj, rfl⟩ := submit_kept hinv₁ hs
    have hj' : s.nextIn = j.val := hj
    refine ⟨hinv', ?_, ?_, hnext, ?_, fun k hk => ?_, ?_⟩
    · rw [List.length_append]
      exact hroom
    · rw [List.length_append]
      exact hnext
    · rw [List.length_append]
      exact le_rfl
    · simp only [List.length_append, List.length_singleton] at hk
      rw [get_eq, Vector.getElem_set_ne _ _ (by omega), Vector.getElem_set]
      split_ifs with hik
      · -- the new line
        have hget : (h.lines ++ [l.text])[k.val] = l.text := by
          rw [List.getElem_append_right (by omega)]
          simp
        rw [hget]
        exact cString_pokeStr _ (length_bytes l ▸ hlt) (zero_notMem_bytes l)
      · have hk' : k.val < h.lines.length := by omega
        rw [List.getElem_append_left hk']
        exact hkept.rows k hk'
    · exact cString_pokeStr _ (length_bytes l ▸ hlt) (zero_notMem_bytes l)
  · -- the index goes back to the start, and no row is in front of it
    obtain ⟨i, hi⟩ := hkept.inv.exists_in
    have hnext : s.nextIn = 0 := by
      rw [Editor.nextIn, if_pos (by simp only [cmdBufferDepth] at hroom ⊢; omega)]
    have hrecord := record_eq hi (bytes l)
    rw [cr_of_some hnew hrecord] at hs
    have hinv₁ := hkept.inv.record (hholds.cString_eq hlt) hrecord
    obtain ⟨j, hj, rfl⟩ := submit_kept hinv₁ hs
    exact ⟨hinv', Nat.succ_pos _, hnext, hnext, le_rfl, fun k hk => absurd hk (Nat.not_lt_zero _),
      cString_pokeStr _ (length_bytes l ▸ hlt) (zero_notMem_bytes l)⟩

/-! ## A line of a session -/

/-- The keys with which a line begins. -/
theorem Idle.begin (stray : ℤ → Row) (envs : ℕ → Env) {s : State} (hidle : Idle s)
    (hblank : Blank s.editor) (hkept : Kept s.editor h) {b : Begin}
    (hfound : b = .fresh ∨ h.lines ≠ []) :
    ∃ s', b.keys.foldlM (Console.key stray envs) s = .ok s' ∧ Idle s' ∧
      LineEditor.Holds s'.editor ((h.move b).begun b) ∧ Kept s'.editor (h.move b) ∧
      outcome s' = outcome s := by
  cases b with
  | fresh => exact ⟨s, rfl, hidle, hblank.holds, hkept, rfl⟩
  | up =>
    obtain ⟨editor, hstep, hkept', hholds⟩ := hkept.up stray hblank (hfound.resolve_left nofun)
    have hkey : Console.key stray envs s .up = .ok { s with editor := editor } :=
      hidle.quiet (k := .up) nofun nofun hstep
    exact ⟨_, congrArg (· >>= pure) hkey, hidle.key hkey, hholds, hkept', rfl⟩
  | down =>
    obtain ⟨editor, hstep, hkept', hholds⟩ := hkept.down stray hblank (hfound.resolve_left nofun)
    have hkey : Console.key stray envs s .down = .ok { s with editor := editor } :=
      hidle.quiet (k := .down) nofun nofun hstep
    exact ⟨_, congrArg (· >>= pure) hkey, hidle.key hkey, hholds, hkept', rfl⟩

theorem Kept.length_line (hkept : Kept s h) (i : ℕ) :
    (h.lines.getD i []).length < inputBufferSize := by
  rw [List.getD_eq_getElem?_getD]
  by_cases hi : i < h.lines.length
  · have hlt := length_lt_of_cString (hkept.rows ⟨i, hi.trans hkept.length_lt⟩ hi)
    rw [List.getElem?_eq_getElem hi, Option.getD_some]
    rwa [textBytes, List.length_map] at hlt
  · rw [List.getElem?_eq_none (not_lt.1 hi), Option.getD_none]
    decide

theorem Kept.length_begun (hkept : Kept s h) (b : Begin) :
    ((h.move b).begun b).text.length < inputBufferSize := by
  cases b with
  | fresh => exact Nat.succ_pos _
  | up => exact hkept.length_line _
  | down => exact hkept.length_line _

variable {x x' : State} {envs : ℕ → Env} {e : Entry}

/-- A line of a session does what it means, and is in the history. -/
theorem Idle.entry (stray : ℤ → Row) (envs : ℕ → Env) (hidle : Idle x) (hblank : Blank x.editor)
    (hkept : Kept x.editor h) (he : Enterable h e) :
    (e.keys.foldlM (Console.key stray envs) x).map outcome =
      runLine envs (outcome x) (bytes (h.line e)) ∧
    ∀ x', e.keys.foldlM (Console.key stray envs) x = .ok x' →
      Idle x' ∧ Blank x'.editor ∧ Kept x'.editor (h.after e) := by
  obtain ⟨x₁, hrun₁, hidle₁, hholds₁, hkept₁, hsame₁⟩ :=
    hidle.begin stray envs hblank hkept he.found
  obtain ⟨x₂, hrun₂, hidle₂, hholds₂, hkept₂, hsame₂⟩ :=
    hidle₁.edits stray envs hholds₁ (hkept.length_begun _)
      (P := fun s => Kept s (h.move e.start)) (fun _ _ _ hk hs => hk.edit hs) hkept₁ he.room
  have hrun : e.keys.foldlM (Console.key stray envs) x =
      [Key.cr].foldlM (Console.key stray envs) x₂ := by
    rw [Entry.keys, Console.keys, List.foldlM_append, hrun₁]
    simp only [bind, Except.bind]
    rw [List.foldlM_append, hrun₂]
    rfl
  rw [hrun]
  constructor
  · rw [← hsame₁, ← hsame₂]
    exact hidle₂.submit hholds₂ he.short he.fits
  · intro x' hx'
    have hcr : Console.key stray envs x₂ .cr = .ok x' := by simpa using hx'
    have hstep := (key_cases hcr).1
    obtain ⟨passed, hpassed⟩ := step_cr hstep
    exact ⟨hidle₂.key hcr, blank_cr hidle₂.inv hstep,
      hkept₂.cr hholds₂ (Nat.lt_of_succ_lt he.short) hpassed⟩

/-- After some lines, the next one can be typed or recalled. -/
theorem Idle.entries (hidle : Idle x) (hblank : Blank x.editor) (hkept : Kept x.editor h)
    {es : List Entry} (hes : Along Enterable History.after h es)
    (hx : (es.flatMap Entry.keys).foldlM (Console.key stray envs) x = .ok x') :
    Idle x' ∧ Blank x'.editor ∧ Kept x'.editor (es.foldl History.after h) := by
  induction es generalizing h x with
  | nil =>
    cases hx
    exact ⟨hidle, hblank, hkept⟩
  | cons e es ih =>
    rw [List.flatMap_cons, List.foldlM_append] at hx
    obtain ⟨x₁, hx₁, hx⟩ := bind_eq_ok.1 hx
    obtain ⟨-, hafter⟩ := hidle.entry stray envs hblank hkept hes.1
    obtain ⟨hidle₁, hblank₁, hkept₁⟩ := hafter x₁ hx₁
    exact ih hidle₁ hblank₁ hkept₁ hes.2 hx

end PconTng.Console
