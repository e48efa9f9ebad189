import PconTng.Foundations.Terminal
import PconTng.Pcon.Recalled

/-!
# What the user sees

The part of `main` in `Pcon.c` that writes to the terminal: each key that changes the line sends
what it takes to show the new one, a single character or control, or the whole row. The text of the
prompt is a parameter, with what `build_prompt` writes in front of it.

While a line is typed the row of the terminal shows the prompt and the line, with the cursor where
the next character goes (`row_shows`).
-/

namespace PconTng.Console

open CMemory CArray CharFsm LineEditor Cursor Terminal

/-! ## What is written -/

/-- A character that takes one cell. -/
abbrev Printable (c : Byte) : Prop := 32 ≤ c ∧ c < 127

/-- What a terminal makes of a character. -/
def itemOf (c : Byte) : Item Byte :=
  if c = carriageReturn then .carriageReturn
  else if c = 10 then .lineFeed
  else if Printable c then .char c
  else .unknown

def print (bs : List Byte) : List (Item Byte) := bs.map itemOf

/-- What `build_prompt` writes, and the text `"%s <%i> "` that follows it. -/
structure Prompt where
  built : List Byte
  text : List Byte

/-- `prompt` -/
def Prompt.items (q : Prompt) : List (Item Byte) := print q.built ++ print q.text

/-- `del_prompt` -/
def Prompt.delItems (q : Prompt) : List (Item Byte) := print q.text

/-- What is written for a key, which has changed the editor from `s` to `s'`. -/
def output (q : Prompt) (s s' : Editor) : Key → Except Stop (List (Item Byte))
  | .noChar => .ok []
  | .up | .down => do
    return .carriageReturn :: (q.items ++ print (← cString s'.workBuffer.toList) ++ [.erase])
  | .right => .ok (if s.inputPtr < s.workBufferPtr then [.right] else [])
  | .left => .ok (if s.inputPtr > 0 then [.left] else [])
  | .escape => .ok (print (str "\n\rcommand processor reset\n\r"))
  | .cr => .ok (print (str "\n\r"))
  | .del =>
    if s.inputPtr = 0 then .ok []
    else if s.inputPtr = s.workBufferPtr then do
      return .carriageReturn :: (q.delItems ++ print (← cString s'.workBuffer.toList) ++ [.erase])
    else do
      return .carriageReturn :: .erase :: (q.delItems ++ print (← cString s'.workBuffer.toList)) ++
        .replicate (s.workBufferPtr - s.inputPtr) .left
  | .other c =>
    if s.workBufferPtr ≤ Editor.endBuff then
      if s.inputPtr = s.workBufferPtr then .ok (print [c.val])
      else do
        return .carriageReturn :: .erase :: (q.items ++ print (← cString s'.workBuffer.toList)) ++
          .replicate (s'.workBufferPtr - s'.inputPtr) .left
    else .ok []

variable {n : ℕ}

/-- A key, and what the terminal makes of what is written for it. -/
def watch (stray : ℤ → Row) (q : Prompt) (p : Editor × Screen Byte n) (k : Key) :
    Except Stop (Editor × Screen Byte n) := do
  let s ← step stray p.1 k
  return (s, ← p.2.run (← output q p.1 s k))

/-! ## What is shown -/

/-- The row shows the text of the prompt and the line, and the cursor is in its place. -/
structure Displays (q : Prompt) (l : Line Insertable) (scr : Screen Byte n) : Prop where
  shown : scr.Shown (q.text ++ bytes l)
  col : scr.col = q.text.length + l.cursor

/-- The prompt takes one row, below whatever `build_prompt` writes. -/
structure Prompt.Plain (q : Prompt) (n : ℕ) : Prop where
  lead : Screen.Leads n (print q.built)
  text : ∀ c ∈ q.text, Printable c

/-- The line can be shown behind the prompt. -/
structure Showable (q : Prompt) (n : ℕ) (l : Line Insertable) : Prop where
  room : q.text.length + l.text.length < n
  text : ∀ c ∈ l.text, Printable c.val

variable {q : Prompt} {l : Line Insertable} {s s' : Editor} {scr : Screen Byte n}
  {stray : ℤ → Row}

theorem print_of_printable {bs : List Byte} (h : ∀ c ∈ bs, Printable c) :
    print bs = bs.map .char := by
  refine List.map_congr_left fun c hc => ?_
  have hc := h c hc
  have hcr : c ≠ carriageReturn := by rintro rfl; exact absurd hc (by decide)
  have hlf : c ≠ 10 := by rintro rfl; exact absurd hc (by decide)
  rw [itemOf, if_neg hcr, if_neg hlf, if_pos hc]

theorem Showable.print_eq (h : Showable q n l) : print (bytes l) = (bytes l).map .char := by
  refine print_of_printable fun c hc => ?_
  obtain ⟨d, hd, rfl⟩ := List.mem_map.1 hc
  exact h.text d hd

theorem Showable.length_le (h : Showable q n l) : (q.text ++ bytes l).length ≤ n := by
  have hroom := h.room
  rw [List.length_append, length_bytes]
  omega

/-- The prompt and the line are a text behind what `build_prompt` has written. -/
theorem Prompt.Plain.items_eq (hq : q.Plain n) (h : Showable q n l) :
    q.items ++ print (bytes l) = print q.built ++ (q.text ++ bytes l).map .char := by
  rw [Prompt.items, print_of_printable hq.text, h.print_eq, List.append_assoc, List.map_append]

theorem Prompt.Plain.delItems_eq (hq : q.Plain n) (h : Showable q n l) :
    q.delItems ++ print (bytes l) = [] ++ (q.text ++ bytes l).map .char := by
  rw [Prompt.delItems, print_of_printable hq.text, h.print_eq, List.map_append, List.nil_append]

/-- A row that is drawn anew with the cursor at its end. -/
theorem redrawn (hq : Showable q n l) (hcursor : l.cursor = l.text.length)
    {lead items : List (Item Byte)} (hlead : Screen.Leads n lead)
    (hitems : items = lead ++ (q.text ++ bytes l).map .char) (scr : Screen Byte n) :
    ∃ scr', scr.run (.carriageReturn :: (items ++ [.erase])) = .ok scr' ∧ Displays q l scr' := by
  obtain ⟨scr', hrun, hshown, hcol⟩ := scr.run_redraw hlead hq.length_le
  refine ⟨scr', hitems ▸ hrun, hshown, ?_⟩
  rw [hcol, List.length_append, length_bytes, hcursor]

/-- A row that is drawn anew, and the cursor moved to the left. -/
theorem redrawn_left (hq : Showable q n l) {k : ℕ} (hk : l.cursor + k = l.text.length)
    {lead items : List (Item Byte)} (hlead : Screen.Leads n lead)
    (hitems : items = lead ++ (q.text ++ bytes l).map .char) (scr : Screen Byte n) :
    ∃ scr', scr.run (.carriageReturn :: .erase :: items ++ .replicate k .left) = .ok scr' ∧
      Displays q l scr' := by
  obtain ⟨scr', hrun, hshown, hcol⟩ := scr.run_erase_draw hlead hq.length_le
  refine ⟨{ scr' with col := scr'.col - k }, ?_, hshown, ?_⟩
  · rw [hitems, Screen.run_append hrun, Screen.run_left]
  · dsimp only
    rw [hcol, List.length_append, length_bytes, ← hk]
    omega

/-! ## One key -/

/-- The terminal follows the editor when what is written for a key shows the new line. -/
def Follows (q : Prompt) (s s' : Editor) (scr : Screen Byte n) (k : Key) (l : Line Insertable) :
    Prop :=
  ∃ items scr', output q s s' k = .ok items ∧ scr.run items = .ok scr' ∧ Displays q l scr'

theorem Displays.left (h : Displays q l scr) (hs : LineEditor.Holds s l) :
    Follows q s s' scr .left (l.edit .left) := by
  have hinput := hs.input
  have hcol := h.col
  by_cases hpos : s.inputPtr > 0
  · refine ⟨[.left], { scr with col := scr.col - 1 }, congrArg _ (if_pos hpos), rfl, h.shown, ?_⟩
    show scr.col - 1 = q.text.length + (l.cursor - 1)
    omega
  · refine ⟨[], scr, congrArg _ (if_neg hpos), rfl, h.shown, ?_⟩
    show scr.col = q.text.length + (l.cursor - 1)
    omega

theorem Displays.right (h : Displays q l scr) (hs : LineEditor.Holds s l)
    (hq : Showable q n (l.edit .right)) : Follows q s s' scr .right (l.edit .right) := by
  have hinput := hs.input
  have hptr := hs.ptr
  have hcol := h.col
  have hroom : q.text.length + l.text.length < n := hq.room
  have hle := l.cursor_le
  by_cases hlt : s.inputPtr < s.workBufferPtr
  · refine ⟨[.right], { scr with col := min (scr.col + 1) (n - 1) }, congrArg _ (if_pos hlt), rfl,
      h.shown, ?_⟩
    show min (scr.col + 1) (n - 1) = q.text.length + min (l.cursor + 1) l.text.length
    omega
  · refine ⟨[], scr, congrArg _ (if_neg hlt), rfl, h.shown, ?_⟩
    show scr.col = q.text.length + min (l.cursor + 1) l.text.length
    omega

theorem Displays.insert (h : Displays q l scr) (hplain : q.Plain n) (hs : LineEditor.Holds s l)
    {c : Insertable} (hs' : LineEditor.Holds s' (l.insert c)) (hq : Showable q n (l.insert c))
    (hlt : (l.insert c).text.length < inputBufferSize) :
    Follows q s s' scr (keyOf (.insert c)) (l.insert c) := by
  have hlen : (l.insert c).text.length = l.text.length + 1 :=
    List.length_insertIdx_of_le_length l.cursor_le c
  have hptr := hs.ptr
  have hinput := hs.input
  have hroom := hq.room
  have hfit : s.workBufferPtr ≤ Editor.endBuff := by
    simp only [Editor.endBuff]
    omega
  by_cases heq : s.inputPtr = s.workBufferPtr
  · -- at the end of the line the character goes behind the text
    have happ : bytes (l.insert c) = bytes l ++ [c.val] := by
      rw [bytes_insert, ← hinput, heq, hptr, ← length_bytes, List.insertIdx_length_self]
    have hprint : print [c.val] = [.char c.val] := by
      refine print_of_printable fun d hd => ?_
      rw [List.mem_singleton.1 hd]
      refine hq.text c ?_
      exact (List.mem_insertIdx l.cursor_le).2 (.inl rfl)
    have htext : (q.text ++ bytes l).length = q.text.length + l.text.length := by
      rw [List.length_append, length_bytes]
    have hcol := h.col
    obtain ⟨scr', hsend, hshown, hcol'⟩ := Screen.send_char h.shown (by omega) (by omega) c.val
    refine ⟨[.char c.val], scr', ?_, (bind_pure _).trans hsend, ?_, ?_⟩
    · rw [← hprint]
      exact (if_pos hfit).trans (if_pos heq)
    · rw [happ, ← List.append_assoc]
      exact hshown
    · rw [hcol', htext]
      show q.text.length + l.text.length + 1 = q.text.length + (l.cursor + 1)
      omega
  · have hk : (l.insert c).cursor + (s'.workBufferPtr - s'.inputPtr) =
        (l.insert c).text.length := by
      have hle := (l.insert c).cursor_le
      have hptr' := hs'.ptr
      have hinput' := hs'.input
      omega
    obtain ⟨scr', hrun, hdisplays⟩ :=
      redrawn_left hq hk hplain.lead (hplain.items_eq hq) scr
    refine ⟨_, scr', ?_, hrun, hdisplays⟩
    refine (if_pos hfit).trans ((if_neg heq).trans ?_)
    rw [hs'.cString_eq hlt]
    rfl

theorem Displays.delete (h : Displays q l scr) (hplain : q.Plain n) (hs : LineEditor.Holds s l)
    (hs' : LineEditor.Holds s' (l.edit .delete)) (hq : Showable q n (l.edit .delete))
    (hlt : (l.edit .delete).text.length < inputBufferSize) :
    Follows q s s' scr (keyOf .delete) (l.edit .delete) := by
  have hptr := hs.ptr
  have hinput := hs.input
  by_cases hpos : 0 < l.cursor
  · have hle := l.cursor_le
    have hedit : l.edit .delete = l.delete hpos := dif_pos hpos
    have hlen : (l.delete hpos).text.length = l.text.length - 1 :=
      List.length_eraseIdx_of_lt (by omega)
    have hcursor : (l.delete hpos).cursor = l.cursor - 1 := rfl
    have hline := hs'.cString_eq hlt
    rw [hedit] at hq hline ⊢
    by_cases heq : s.inputPtr = s.workBufferPtr
    · obtain ⟨scr', hrun, hdisplays⟩ :=
        redrawn hq (by omega) Screen.leads_nil (hplain.delItems_eq hq) scr
      refine ⟨_, scr', ?_, hrun, hdisplays⟩
      refine (if_neg (by omega)).trans ((if_pos heq).trans ?_)
      rw [hline]
      rfl
    · obtain ⟨scr', hrun, hdisplays⟩ :=
        redrawn_left hq (k := s.workBufferPtr - s.inputPtr) (by omega) Screen.leads_nil
          (hplain.delItems_eq hq) scr
      refine ⟨_, scr', ?_, hrun, hdisplays⟩
      refine (if_neg (by omega)).trans ((if_neg heq).trans ?_)
      rw [hline]
      rfl
  · have hnone : l.edit .delete = l := dif_neg hpos
    rw [hnone]
    exact ⟨[], scr, if_pos (by omega), rfl, h⟩

/-- An arrow up or down shows the line that it brings back. -/
theorem shown_arrow (hplain : q.Plain n) (hs' : LineEditor.Holds s' l) (hq : Showable q n l)
    (hcursor : l.cursor = l.text.length) (hlt : l.text.length < inputBufferSize)
    (scr : Screen Byte n) : Follows q s s' scr .up l ∧ Follows q s s' scr .down l := by
  obtain ⟨scr', hrun, hdisplays⟩ := redrawn hq hcursor hplain.lead (hplain.items_eq hq) scr
  have hline := hs'.cString_eq hlt
  constructor <;>
  · refine ⟨_, scr', ?_, hrun, hdisplays⟩
    rw [output, hline]
    rfl

/-- The terminal follows the editor at each edit. -/
theorem Displays.edit (h : Displays q l scr) (hplain : q.Plain n) (hs : LineEditor.Holds s l)
    {e : Edit Insertable} (hs' : LineEditor.Holds s' (l.edit e)) (hq : Showable q n (l.edit e))
    (hlt : (l.edit e).text.length < inputBufferSize) :
    Follows q s s' scr (keyOf e) (l.edit e) := by
  cases e with
  | insert c => exact h.insert hplain hs hs' hq hlt
  | delete => exact h.delete hplain hs hs' hq hlt
  | left => exact h.left hs
  | right => exact h.right hs hq

theorem Follows.watch {k : Key} (h : Follows q s s' scr k l) (hs : step stray s k = .ok s') :
    ∃ scr', watch stray q (s, scr) k = .ok (s', scr') ∧ Displays q l scr' := by
  obtain ⟨items, scr', hitems, hrun, hdisplays⟩ := h
  refine ⟨scr', ?_, hdisplays⟩
  simp only [Console.watch, hs, hitems, hrun, bind, Except.bind]
  rfl

/-! ## A line -/

/-- The line stays inside the work buffer, and can be shown. -/
def Visible (q : Prompt) (n : ℕ) (l : Line Insertable) : Prop :=
  l.text.length < inputBufferSize ∧ Showable q n l

/-- The keys that edit a line. -/
theorem Displays.edits (stray : ℤ → Row) (h : Displays q l scr) (hplain : q.Plain n)
    (hs : LineEditor.Holds s l) (hlt : l.text.length < inputBufferSize)
    {es : List (Edit Insertable)} (hes : Along (fun l e => Visible q n (l.edit e)) Line.edit l es) :
    ∃ s' scr', (es.map keyOf).foldlM (watch stray q) (s, scr) = .ok (s', scr') ∧
      LineEditor.Holds s' (es.foldl Line.edit l) ∧ Displays q (es.foldl Line.edit l) scr' := by
  rw [List.foldlM_map]
  obtain ⟨⟨s', scr'⟩, hrun, ⟨hholds, hdisplays⟩, -⟩ := foldlM_simulation_along
    (f := fun p e => watch stray q p (keyOf e))
    (R := fun p l => (LineEditor.Holds p.1 l ∧ Displays q l p.2) ∧
      l.text.length < inputBufferSize)
    (fun p l e ⟨⟨hholds, hdisplays⟩, hfit⟩ hvisible => by
      obtain ⟨s₁, hstep, hholds₁⟩ := hholds.edit hfit e hvisible.1
      obtain ⟨scr₁, hwatch, hdisplays₁⟩ :=
        (hdisplays.edit hplain hholds hholds₁ hvisible.2 hvisible.1).watch hstep
      exact ⟨_, hwatch, ⟨hholds₁, hdisplays₁⟩, hvisible.1⟩)
    es (s, scr) l ⟨⟨hs, h⟩, hlt⟩ hes
  exact ⟨s', scr', hrun, hholds, hdisplays⟩

theorem History.cursor_begun (h : History) (b : Begin) :
    (h.begun b).cursor = (h.begun b).text.length := by
  cases b <;> rfl

/-- The keys with which a line begins. -/
theorem Displays.begin (stray : ℤ → Row) {h : History} (hd : Displays q .empty scr)
    (hplain : q.Plain n) (hblank : Blank s) (hkept : Kept s h) {b : Begin}
    (hfound : b = .fresh ∨ h.lines ≠ []) (hq : Showable q n ((h.move b).begun b)) :
    ∃ s' scr', b.keys.foldlM (watch stray q) (s, scr) = .ok (s', scr') ∧
      LineEditor.Holds s' ((h.move b).begun b) ∧ Displays q ((h.move b).begun b) scr' := by
  have hcursor := (h.move b).cursor_begun b
  have hlt := hkept.length_begun b
  cases b with
  | fresh => exact ⟨s, scr, rfl, hblank.holds, hd⟩
  | up =>
    obtain ⟨s', hstep, -, hholds⟩ := hkept.up stray hblank (hfound.resolve_left nofun)
    obtain ⟨scr', hwatch, hdisplays⟩ :=
      (shown_arrow (s := s) hplain hholds hq hcursor hlt scr).1.watch hstep
    exact ⟨s', scr', congrArg (· >>= pure) hwatch, hholds, hdisplays⟩
  | down =>
    obtain ⟨s', hstep, -, hholds⟩ := hkept.down stray hblank (hfound.resolve_left nofun)
    obtain ⟨scr', hwatch, hdisplays⟩ :=
      (shown_arrow (s := s) hplain hholds hq hcursor hlt scr).2.watch hstep
    exact ⟨s', scr', congrArg (· >>= pure) hwatch, hholds, hdisplays⟩

/-- The prompt in the first state. -/
def command : Prompt := ⟨[], str "enter a command or channel number <0> "⟩

end PconTng.Console
