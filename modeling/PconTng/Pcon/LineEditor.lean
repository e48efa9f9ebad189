import PconTng.CharFsm.Buffer

/-!
# The line editor

The loop of `main` in `Pcon.c` that reads the keyboard. It edits a line in `work_buffer`, passes it
to the character input parser at a carriage return, and keeps the lines in a ring buffer from which
the arrows bring them back. `press` is the code for one key; it returns the characters that are
passed to `char_fsm`. What is shown on the screen is left out.

A write outside of an array is a fault. Of the ring buffer the arrows may read a row that is not
there; `stray` is what lies in memory around it. A string without a terminator in its row would be
copied over the end of the buffer it goes to, and is a fault too.
-/

namespace PconTng.LineEditor

open CMemory CArray CharFsm

abbrev cmdBufferDepth : ℕ := 10
abbrev esc : Byte := 27
abbrev noChar : Byte := 255

/-- A buffer for a line. -/
abbrev Row : Type := Vector Byte inputBufferSize

/-- The globals of the editor, with the indices in `work_buffer` of its pointers. -/
structure Editor where
  workBuffer : Row
  workBufferPtr : ℕ
  inputPtr : ℕ
  previousWorkBuffer : Row
  ringBuffer : Vector Row cmdBufferDepth
  rbInIdx : ℤ
  rbOutIdx : ℤ

/-- A character without a case of its own in `main`. -/
abbrev Other : Type := { c : Byte // c ∉ [noChar, esc, carriageReturn, delete] }

/-- What is typed. An arrow is a sequence of three characters, as is `escape`, which stands for any
other such sequence. -/
inductive Key
  | noChar
  | up
  | down
  | right
  | left
  | escape
  | cr
  | del
  | other (c : Other)
  deriving DecidableEq

namespace Editor

/-- At the start of the program. -/
def start : Editor := ⟨.replicate _ 0, 0, 0, .replicate _ 0, .replicate _ (.replicate _ 0), 0, 0⟩

/-- The index of `end_buff`. -/
def endBuff : ℕ := inputBufferSize

/-- What is behind `work_buffer`. Only a delete in a full buffer reads it, and then writes there. -/
def behind : ℤ → Byte := fun _ => 0

/-! ## The arrows -/

/-- `rb_out_idx` after an arrow up. -/
def upIdx (s : Editor) : ℤ :=
  let idx := if s.rbOutIdx > 0 then s.rbOutIdx - 1 else s.rbInIdx - 1
  if idx ≥ s.rbInIdx then 0 else idx

/-- `rb_out_idx` after an arrow down. -/
def downIdx (s : Editor) : ℤ :=
  if s.rbOutIdx + 1 ≥ s.rbInIdx then 0 else s.rbOutIdx + 1

/-- `arrow_reprompt` -/
def arrowReprompt (stray : ℤ → Row) (s : Editor) : Except Stop Editor := do
  let line ← cString (peek stray s.ringBuffer s.rbOutIdx).toList
  return { s with
    workBuffer := (pokeStr s.workBuffer (line ++ [0])).1
    workBufferPtr := line.length
    inputPtr := line.length }

/-- An arrow to the right. -/
def right (s : Editor) : Editor :=
  if s.inputPtr < s.workBufferPtr then { s with inputPtr := s.inputPtr + 1 } else s

/-- An arrow to the left. -/
def left (s : Editor) : Editor :=
  if s.inputPtr > 0 then { s with inputPtr := s.inputPtr - 1 } else s

/-- Any other escape sequence. -/
def escape (s : Editor) : Editor :=
  { s with
    workBuffer := .replicate _ 0
    previousWorkBuffer := .replicate _ 0
    workBufferPtr := 0
    inputPtr := 0 }

/-! ## A carriage return -/

/-- The line that is to be recorded, if it is not empty and not the same as the one before. -/
def newLine (s : Editor) : Except Stop (Option (List Byte)) := do
  if s.workBufferPtr = 0 then return none
  let line ← cString s.workBuffer.toList
  let previous ← cString s.previousWorkBuffer.toList
  return if line ≠ previous then some line else none

/-- `rb_in_idx` after a line has been recorded. -/
def nextIn (s : Editor) : ℤ :=
  if s.rbInIdx + 1 > cmdBufferDepth - 1 then 0 else s.rbInIdx + 1

/-- Record a line in the ring buffer. -/
def record (line : List Byte) (s : Editor) : Except Stop Editor := do
  let row ← load s.ringBuffer s.rbInIdx
  let ringBuffer ← store s.ringBuffer s.rbInIdx (pokeStr row (line ++ [0])).1
  return { s with
    ringBuffer := ringBuffer
    rbInIdx := s.nextIn
    rbOutIdx := s.nextIn
    previousWorkBuffer := (pokeStr (.replicate _ 0) (line ++ [0])).1 }

/-- Terminate the line, pass it to `char_fsm` and clear the work buffer. -/
def submit (s : Editor) : Except Stop (Editor × List Byte) := do
  let buf ← store s.workBuffer s.workBufferPtr carriageReturn
  let buf ← store buf (s.workBufferPtr + 1) 0
  let passed ← cString buf.toList
  let ringBuffer ← store s.ringBuffer s.rbInIdx (.replicate _ 0)
  return ({ s with
    workBuffer := .replicate _ 0
    workBufferPtr := 0
    inputPtr := 0
    ringBuffer := ringBuffer }, passed)

def cr (s : Editor) : Except Stop (Editor × List Byte) := do
  match ← s.newLine with
  | some line => submit (← s.record line)
  | none => submit s

/-! ## Editing the line -/

/-- Delete the last character. -/
def delEnd (s : Editor) : Except Stop Editor := do
  let buf ← store s.workBuffer s.workBufferPtr 0
  let buf ← store buf (s.workBufferPtr - 1) 0
  return { s with
    workBuffer := buf
    workBufferPtr := s.workBufferPtr - 1
    inputPtr := s.workBufferPtr - 1 }

/-- Delete a character in the middle of the line. -/
def delInside (s : Editor) : Except Stop Editor := do
  let buf ← shiftDown behind (s.workBufferPtr - (s.inputPtr - 1)) (s.inputPtr - 1) s.workBuffer
  let buf ← store buf s.workBufferPtr 0
  let buf ← store buf (s.workBufferPtr - 1) 0
  return { s with
    workBuffer := buf
    workBufferPtr := s.workBufferPtr - 1
    inputPtr := s.inputPtr - 1 }

def del (s : Editor) : Except Stop Editor :=
  if s.inputPtr = 0 then .ok s
  else if s.inputPtr = s.workBufferPtr then s.delEnd
  else s.delInside

/-- Add a character at the end of the line. -/
def addEnd (c : Byte) (s : Editor) : Except Stop Editor := do
  let buf ← store s.workBuffer s.workBufferPtr c
  return { s with
    workBuffer := buf
    workBufferPtr := s.workBufferPtr + 1
    inputPtr := s.workBufferPtr + 1 }

/-- Add a character in the middle of the line. -/
def addInside (c : Byte) (s : Editor) : Except Stop Editor := do
  let buf ← store s.workBuffer (s.workBufferPtr + 1) 0
  let buf ← shiftUp behind (s.workBufferPtr - s.inputPtr) s.workBufferPtr buf
  let buf ← store buf s.inputPtr c
  return { s with
    workBuffer := buf
    workBufferPtr := s.workBufferPtr + 1
    inputPtr := s.inputPtr + 1 }

/-- The default case. -/
def other (c : Byte) (s : Editor) : Except Stop Editor :=
  if s.workBufferPtr ≤ endBuff then
    if s.inputPtr = s.workBufferPtr then s.addEnd c else s.addInside c
  else .ok s

end Editor

/-! ## One key after the other -/

/-- The code for a key, with the characters that it passes to `char_fsm`. -/
def press (stray : ℤ → Row) (s : Editor) : Key → Except Stop (Editor × List Byte)
  | .noChar => .ok (s, [])
  | .up => do return (← Editor.arrowReprompt stray { s with rbOutIdx := s.upIdx }, [])
  | .down => do return (← Editor.arrowReprompt stray { s with rbOutIdx := s.downIdx }, [])
  | .right => .ok (s.right, [])
  | .left => .ok (s.left, [])
  | .escape => .ok (s.escape, [])
  | .cr => s.cr
  | .del => do return (← s.del, [])
  | .other c => do return (← s.other c.val, [])

/-- The editor after a key. -/
def step (stray : ℤ → Row) (s : Editor) (k : Key) : Except Stop Editor := do
  return (← press stray s k).1

end PconTng.LineEditor
