import PconTng.Typedefs

/-!
# The character input parser

`char_fsm.c` collects the characters of a line in the input buffer. A table with a row for every
kind of character and a column for every state says what is stored for a character (`charAction`)
and what the next state is (`charNewState`): in state 0 nothing has been stored, in state 1 a quote
is open, in state 2 the last character is text and in state 3 it is a delimiter.

The end of the line has `processBuffer` cut the buffer into tokens and queue them. Each is a copy of
the characters from `start_char` to the pointer, over which the terminator has been written. The
block that is allocated for it has room for the terminator if the token has been ended by a
delimiter, and not if it is a string (`Block`). Along the way a temporary buffer is filled, which is
never read.
-/

namespace PconTng

open CMemory CArray

abbrev inputBufferSize : ℕ := 60
abbrev charTokens : ℕ := 5
abbrev charStates : ℕ := 4

namespace CharFsm

abbrev space : Byte := 32
abbrev colon : Byte := 58
abbrev slash : Byte := 47
abbrev comma : Byte := 44
abbrev delete : Byte := 127
abbrev carriageReturn : Byte := 13

/-- The block of a token: the size that `malloc` is asked for, and the bytes that `memcpy` puts
there. If these are more than the block has, it is overrun. -/
structure Block where
  size : ℕ
  bytes : List Byte

/-- The string in a block. A block that has been overrun is not to be read. -/
def Block.read (b : Block) : Except Stop (List Byte) :=
  if b.bytes.length ≤ b.size then cString b.bytes else .error .fault

/-- The globals of `char_fsm.c`: the input buffer with the index of `input_buffer_ptr`, the state,
and the queue as the blocks of its tokens. -/
structure Globals where
  inputBuffer : Vector Byte inputBufferSize
  inputBufferPtr : ℕ
  charState : Fin charStates
  head : List Block

/-- `char_type` -/
def charType (c : Byte) : Fin charTokens :=
  if c = comma ∨ c = space ∨ c = colon ∨ c = slash then 0
  else if c = quote then 1
  else if c = delete then 2
  else if c = carriageReturn then 3
  else 4

/-- `char_fsm_reset` -/
def charFsmReset (g : Globals) : Globals := ⟨.replicate _ 0, 0, 0, g.head⟩

/-- The static variables at the start of the program. -/
def Globals.start : Globals := ⟨.replicate _ 0, 0, 0, []⟩

/-! ## Cutting the buffer into tokens -/

/-- What the loop of `process_buffer` works on: the input buffer, the indices of `start_char` and of
the pointer, the temporary buffer `tb` with the index of `t_ptr`, and the queue. -/
structure Cutter where
  buf : Vector Byte inputBufferSize
  start : ℕ
  ptr : ℕ
  tb : Vector Byte inputBufferSize
  tPtr : ℕ
  head : List Block

namespace Cutter

/-- `*t_ptr++ = c` -/
def keep (s : Cutter) (c : Byte) : Except Stop Cutter := do
  let tb ← store s.tb s.tPtr c
  return { s with tb := tb, tPtr := s.tPtr + 1 }

/-- `*t_ptr++ = *input_buffer_ptr++` -/
def move (s : Cutter) : Except Stop Cutter := do
  let s ← s.keep (← load s.buf s.ptr)
  return { s with ptr := s.ptr + 1 }

/-- Write the terminator at the pointer, copy the characters from `start_char` up to it to a new
block of the given size at the end of the queue, and let `start_char` be the next place. -/
def push (size : ℕ) (s : Cutter) : Except Stop Cutter := do
  let buf ← store s.buf s.ptr 0
  let copy := (buf.toList.drop s.start).take (s.ptr - s.start + 1)
  return { s with buf := buf, start := s.ptr + 1, head := s.head ++ [⟨size, copy⟩] }

/-- Look for the ending quote or the end of the buffer. -/
def moveString : ℕ → Cutter → Except Stop Cutter
  | 0, _ => .error .fault
  | fuel + 1, s => do
    let c ← load s.buf s.ptr
    if c ≠ quote ∧ c ≠ 0 then moveString fuel (← s.move) else return s

/-- The branch for a quote. -/
def onQuote (s : Cutter) : Except Stop Cutter := do
  if (← load s.buf s.ptr) = quote then
    let s ← moveString (inputBufferSize + 1) (← s.move)
    let s ← s.keep quote
    let s := { s with ptr := s.ptr + 1 }
    push (s.ptr - s.start) s
  else return s

/-- The branch for a delimiter. -/
def onDelim (s : Cutter) : Except Stop Cutter := do
  if charType (← load s.buf s.ptr) = 0 then push (s.ptr - s.start + 1) s else return s

/-- The loop. The pointer moves on in every turn of either loop, so `fuel` does not run out before
the pointer has left the buffer. -/
def loop : ℕ → Cutter → Except Stop (List Block)
  | 0, _ => .error .fault
  | fuel + 1, s => do
    if (← load s.buf s.ptr) = 0 then return s.head
    loop fuel (← (← onDelim (← onQuote s)).move)

/-- At the start of `process_buffer`. -/
def init (buf : Vector Byte inputBufferSize) : Cutter := ⟨buf, 0, 0, .replicate _ 0, 0, []⟩

end Cutter

/-- `process_buffer` -/
def processBuffer (g : Globals) : Except Stop Globals := do
  let head ← Cutter.loop (inputBufferSize + 1) (.init g.inputBuffer)
  return { g with inputBuffer := .replicate _ 0, inputBufferPtr := 0, head := head }

/-! ## The action routines -/

/-- `*input_buffer_ptr++ = c` -/
def put (c : Byte) (g : Globals) : Except Stop Globals := do
  let buf ← store g.inputBuffer g.inputBufferPtr c
  return { g with inputBuffer := buf, inputBufferPtr := g.inputBufferPtr + 1 }

/-- `nop` -/
def nop (_ : Byte) (g : Globals) : Except Stop Globals := .ok g

/-- `add` -/
def add (c : Byte) (g : Globals) : Except Stop Globals := put c g

/-- `adq` -/
def adq (c : Byte) (g : Globals) : Except Stop Globals := do put c (← put space g)

/-- `aqd` -/
def aqd (c : Byte) (g : Globals) : Except Stop Globals := do put space (← put c g)

/-- `del` -/
def del (_ : Byte) (g : Globals) : Except Stop Globals :=
  match g.inputBufferPtr with
  | 0 => .error .fault
  | ptr + 1 => do
    let buf ← store g.inputBuffer ptr 0
    return { g with inputBuffer := buf, inputBufferPtr := ptr }

/-- `cr` -/
def cr (_ : Byte) (g : Globals) : Except Stop Globals := do
  let c ← load g.inputBuffer g.inputBufferPtr
  let g ← if charType c ≠ 0 then put space g else .ok g
  processBuffer (← put 0 g)

/-- `cr2` -/
def cr2 (_ : Byte) (g : Globals) : Except Stop Globals := do
  let buf ← store g.inputBuffer g.inputBufferPtr 0
  processBuffer { g with inputBuffer := buf }

/-- The routines that the action table names. -/
inductive Routine
  | nop | add | aqd | adq | del | cr | cr2
  deriving DecidableEq

def Routine.run : Routine → Byte → Globals → Except Stop Globals
  | .nop => CharFsm.nop
  | .add => CharFsm.add
  | .aqd => CharFsm.aqd
  | .adq => CharFsm.adq
  | .del => CharFsm.del
  | .cr => CharFsm.cr
  | .cr2 => CharFsm.cr2

/-- `char_action` -/
def charAction : Vector (Vector Routine charStates) charTokens := #v[
  -- DELIM
  #v[.nop, .add, .add, .nop],
  -- QUOTE
  #v[.add, .aqd, .adq, .add],
  -- DEL
  #v[.del, .del, .del, .del],
  -- CR
  #v[.cr, .cr, .cr, .cr2],
  -- OTHER
  #v[.add, .add, .add, .add]]

/-- `char_new_state` -/
def charNewState : Vector (Vector (Fin charStates) charStates) charTokens := #v[
  -- DELIM
  #v[0, 1, 3, 3],
  -- QUOTE
  #v[1, 3, 1, 1],
  -- DEL
  #v[0, 1, 2, 3],
  -- CR
  #v[0, 0, 0, 0],
  -- OTHER
  #v[2, 1, 2, 2]]

/-- `char_fsm`, on a character of the type that `char_type` gives it. -/
def charFsm (g : Globals) (c : Byte) : Except Stop Globals := do
  let row := charType c
  let g ← ((charAction.get row).get g.charState).run c g
  return { g with charState := (charNewState.get row).get g.charState }

/-- `pop_cmd_q`, with the token that it puts into its buffer. -/
def popCmdQ (g : Globals) : Except Stop (Option (List Byte) × Globals) :=
  match g.head with
  | [] => .ok (none, g)
  | block :: head => do return (some (← block.read), { g with head := head })

/-- Popping the queue until it is empty gives the tokens `ts`. -/
inductive Pops : Globals → List (List Byte) → Prop
  | empty {g g' : Globals} (h : popCmdQ g = .ok (none, g')) : Pops g []
  | pop {g g' : Globals} {t : List Byte} {ts : List (List Byte)}
      (h : popCmdQ g = .ok (some t, g')) (rest : Pops g' ts) : Pops g (t :: ts)

/-! ## What is stored -/

/-- The characters that a routine stores for the character `c`. Nothing has been stored behind the
last one before `cr`, so it adds a blank. -/
def Routine.stores (c : Byte) : Routine → List Byte
  | .nop => []
  | .add => [c]
  | .aqd => [c, space]
  | .adq => [space, c]
  | .del => [0]
  | .cr => [space, 0]
  | .cr2 => [0]

/-- The characters that are stored for a line from the given state on. -/
def stores : Fin charStates → List Byte → List Byte
  | _, [] => []
  | s, c :: cs =>
    ((charAction.get (charType c)).get s).stores c ++
      stores ((charNewState.get (charType c)).get s) cs

end CharFsm

end PconTng
