import PconTng.CmdFsm.Tables
import PconTng.ListMaint
import PconTng.Sch.Table
import PconTng.Sch.Template

/-!
# The action routines of the command processor

Every routine `c_n` of `cmd_fsm.c` that the action table names, on the memory of the command
processor (`World`). Each returns the new memory with its return value: 0 for success, 1 for an
error, 2 for a token out of range. What is printed or put in the prompt is left out, so a routine
that does nothing else leaves the memory alone.

A string longer than its field runs over into the fields behind it, in the order of the
declarations of `typedefs.h`.
-/

namespace PconTng

open CMemory CArray

/-! ## Memory -/

/-- The backup file, as what reading it does to shared memory. -/
abbrev Backup : Type := IpcDat → IpcDat

/-- What becomes of an attempt to write the backup file: it cannot be opened, it is written, or
the writing breaks off and leaves a part that depends on the data. -/
inductive Saving
  | closed
  | whole
  | cut (read : IpcDat → Backup)

/-- What lies outside the program: the next attempt to write the backup file, whether the bus of
the clock can be opened, and what lies around the template library. -/
structure Env where
  saving : Saving
  clock : Bool
  strayTmpl : ℤ → TmplDat

/-- Nothing goes wrong outside the program. -/
def Env.calm : Env := ⟨.whole, true, fun _ => TmplDat.zero⟩

/-- The memory of the command processor: its control block, shared memory, the queue of the
tokens that are left of the line, and the backup file. -/
structure World where
  cb : CmdFsmCb
  ipc : IpcDat
  queue : List Token
  bkup : Option Backup

/-- Zeroed memory, and no backup file. -/
def World.zero : World := ⟨CmdFsmCb.zero, IpcDat.zero, [], none⟩

/-- A routine returns the memory and its return value. -/
abbrev Action : Type := World → Except Stop (World × ℤ)

namespace World

def setCb (w : World) (cb : CmdFsmCb) : World := { w with cb := cb }

def setSysData (w : World) (s : SysDat) : World := { w with ipc := { w.ipc with sysData := s } }

/-- `force_update = 1` -/
def force (w : World) : World := { w with ipc := { w.ipc with forceUpdate := 1 } }

/-- A change of the data of the working channel. -/
def onChannel (w : World) (f : ChnDat → ChnDat) : Except Stop World := do
  let c ← load w.ipc.sysData.cData w.cb.wChannel
  let cData ← store w.ipc.sysData.cData w.cb.wChannel (f c)
  return w.setSysData { w.ipc.sysData with cData := cData }

end World

/-! ## Strings that run over -/

/-- The name of a channel and `hide`. -/
def pokeName (c : ChnDat) (bs : List Byte) : ChnDat × List Byte :=
  let (name, bs) := pokeStr c.name bs
  let (hide, bs) := pokeInt c.hide bs
  ({ c with name := name, hide := hide }, bs)

/-- A whole channel. -/
def pokeChn (c : ChnDat) (bs : List Byte) : ChnDat × List Byte :=
  let (timeOn, bs) := pokeInt c.timeOn bs
  let (onSec, bs) := pokeInt c.onSec bs
  let (offSec, bs) := pokeInt c.offSec bs
  let (mode, bs) := pokeInt c.mode bs
  let (state, bs) := pokeInt c.state bs
  let (sensorId, bs) := pokeInt c.sensorId bs
  let (sensorAssigned, bs) := pokeInt c.sensorAssigned bs
  pokeName ⟨timeOn, onSec, offSec, mode, state, sensorId, sensorAssigned, c.name, c.hide⟩ bs

def pokeRec (r : SRec) (bs : List Byte) : SRec × List Byte :=
  let (key, bs) := pokeInt r.key bs
  let (state, bs) := pokeInt r.state bs
  let (temp, bs) := pokeFloat r.temp bs
  let (humid, bs) := pokeFloat r.humid bs
  (⟨key, state, temp, humid⟩, bs)

/-- A template from its name on. It is longer than any token. -/
def pokeTmpl (t : TmplDat) (bs : List Byte) : TmplDat :=
  let (name, bs) := pokeStr t.name bs
  let (rcnt, bs) := pokeInt t.rcnt bs
  ⟨name, rcnt, Vector.ofFn fun i => (pokeRec (t.recs.get i) (bs.drop (16 * i))).1⟩

/-- The channels behind channel `k`. -/
def pokeChannels (k : ℤ) (cData : Vector ChnDat numberOfChannels) (bs : List Byte) :
    Vector ChnDat numberOfChannels × List Byte :=
  (List.finRange numberOfChannels).foldl (fun (cs, bs) (i : Fin numberOfChannels) =>
    if (i.val : ℤ) ≤ k then (cs, bs)
    else
      let (c, bs) := pokeChn (cs.get i) bs
      (cs.set i c i.isLt, bs)) (cData, bs)

/-- A sensor record from its group on. It is longer than any token. -/
def pokeGroup (s : SenDat) (bs : List Byte) : SenDat :=
  let (group, bs) := pokeStr s.group bs
  let (description, _) := pokeStr s.description bs
  { s with group := group, description := description }

/-- The control block from `w_hours_str` on. -/
def pokeHoursStr (cb : CmdFsmCb) (bs : List Byte) : CmdFsmCb :=
  let (wHoursStr, bs) := pokeStr cb.wHoursStr bs
  let (wDay, bs) := pokeInt cb.wDay bs
  let bs := bs.drop 16
  let (sensorId, bs) := pokeInt cb.wSenDat.sensorId bs
  let (groupId, bs) := pokeInt cb.wSenDat.groupId bs
  let (active, bs) := pokeInt cb.wSenDat.active bs
  let wSenDat := pokeGroup { cb.wSenDat with
    sensorId := sensorId, groupId := groupId, active := active } bs
  { cb with wHoursStr := wHoursStr, wDay := wDay, wSenDat := wSenDat }

/-- The control block from `w_minutes_str` on. -/
def pokeMinutesStr (cb : CmdFsmCb) (bs : List Byte) : CmdFsmCb :=
  let (wMinutesStr, bs) := pokeStr cb.wMinutesStr bs
  let (wHours, bs) := pokeInt cb.wHours bs
  pokeHoursStr { cb with wMinutesStr := wMinutesStr, wHours := wHours } bs

/-! ## Tokens -/

/-- `dequote` -/
def dequote (bs : List Byte) : List Byte := bs.filter (· ≠ quote)

/-- The token without its quotes, as `dequote` leaves it in the token buffer. -/
def Token.dequote (t : Token) : Token :=
  ⟨PconTng.dequote t.bytes, (List.length_filter_le _ _).trans_lt t.fits,
    fun h => t.noNul (List.mem_of_mem_filter h)⟩

/-- `padstr`, for a length below the size of its buffer. A string of exactly that length is lost:
the result is the null pointer. -/
def padstr (bs : List Byte) (len : ℕ) : Option (List Byte) :=
  if bs.length > len then some bs
  else if bs.length < len then some (bs ++ List.replicate (len - bs.length) 32)
  else none

namespace CmdFsm

/-! ## Channels -/

/-- `c_4`: set the working channel. -/
def c4 : Action := fun w =>
  if w.cb.tokenValue < numberOfChannels then
    .ok (w.setCb { w.cb with wChannel := w.cb.tokenValue, wMinutes := 0, wHours := 0 }, 0)
  else .ok (w, 1)

/-- `c_5`: set the name of the working channel. Behind the last channel lies the template
library. -/
def c5 : Action := fun w => do
  let token := w.cb.token.dequote
  let sys := w.ipc.sysData
  let c ← load sys.cData w.cb.wChannel
  let (c, bs) := pokeName c (token.bytes ++ [0])
  let cData ← store sys.cData w.cb.wChannel c
  let (cData, bs) := pokeChannels w.cb.wChannel cData bs
  let tplLib := sys.tplLib.set 0 (pokeTmpl sys.tplLib[0] bs)
  return ((w.setSysData { sys with cData := cData, tplLib := tplLib }).setCb
    { w.cb with token := token }, 0)

/-- The command that sets the mode and state of the working channel and forces an update. -/
def setControl (mode : ℤ) (state : ℤ) : Action := fun w => do
  let w ← w.onChannel fun c => { c with mode := mode, state := state }
  return (w.force, 0)

/-- `c_9`: manual control, on. -/
def c9 : Action := setControl 0 1

/-- `c_10`: manual control, off. -/
def c10 : Action := setControl 0 0

/-- `c_11`: control by time. -/
def c11 : Action := setControl 1 0

/-- `c_12`: control by time and sensor. -/
def c12 : Action := setControl 2 0

/-- `c_75`: hide the working channel. -/
def c75 : Action := fun w => do return (← w.onChannel fun c => { c with hide := 1 }, 0)

/-- `c_76`: show the working channel. -/
def c76 : Action := fun w => do return (← w.onChannel fun c => { c with hide := 0 }, 0)

/-- The loop of `c_18` and `c_49`: take the working channel off the lists of all sensors. -/
def unassign (k : ℤ) (sDat : Vector SenDat numberOfSensors) :
    Except Stop (Vector SenDat numberOfSensors) :=
  forLoop (fun i sDat => do
    let s ← load sDat i
    let (channel, channelIndex) ← delElm s.channel s.channelIndex k
    store sDat i { s with channel := channel, channelIndex := channelIndex }) numberOfSensors 0 sDat

/-- `c_18`: clear the sensor assignment of the working channel. -/
def c18 : Action := fun w => do
  let w ← w.onChannel fun c => { c with sensorAssigned := 0 }
  let sDat ← unassign w.cb.wChannel w.ipc.sDat
  return (World.force { w with ipc := { w.ipc with sDat := sDat } }, 0)

/-- `c_49`: assign a sensor to the working channel. -/
def c49 : Action := fun w => do
  let sDat ← unassign w.cb.wChannel w.ipc.sDat
  let w ← w.onChannel fun c => { c with sensorId := w.cb.tokenValue, sensorAssigned := 1 }
  let s ← load sDat w.cb.tokenValue
  let (channel, channelIndex) ←
    addElm s.channel s.channelIndex w.cb.wChannel (4 * numberOfChannels)
  let sDat ← store sDat w.cb.tokenValue
    { s with channel := channel, channelIndex := channelIndex }
  return (World.force { w with ipc := { w.ipc with sDat := sDat } }, 0)

/-! ## The edit buffer -/

/-- `c_20`: set the hour. -/
def c20 : Action := fun w =>
  if w.cb.tokenValue > 23 ∨ w.cb.tokenValue < 0 then .ok (w, 1)
  else
    .ok (w.setCb
      (pokeHoursStr { w.cb with wHours := w.cb.tokenValue } (w.cb.token.bytes ++ [0])), 0)

/-- `c_21`: set the minute. -/
def c21 : Action := fun w =>
  if w.cb.tokenValue > 59 ∨ w.cb.tokenValue < 0 then .ok (w, 1)
  else
    .ok (w.setCb
      (pokeMinutesStr { w.cb with wMinutes := w.cb.tokenValue } (w.cb.token.bytes ++ [0])), 0)

/-- The record that `find_tmpl_key` finds, or a record of zeros. -/
def holdRec (t : TmplDat) (hour minute : ℤ) : Except Stop SRec :=
  let i := findTmplKey t hour minute
  if i ≠ -1 then load t.recs i else .ok SRec.zero

/-- The commands `c_22`, `c_23`, `c_27` and `c_28` look for the record at the working time and
add one with `args` of what they hold. -/
def editRec (args : SRec → ℤ × ℤ × ℤ) : Action := fun w => do
  let hold ← holdRec w.cb.wTemplateBuffer w.cb.wHours w.cb.wMinutes
  let (state, temp, humid) := args hold
  let (t, _) ← addTmplRec w.cb.wTemplateBuffer w.cb.wHours w.cb.wMinutes state temp humid
  loadTemps t
  return (w.setCb { w.cb with wTemplateBuffer := t }, 0)

/-- `c_22`: on. -/
def c22 : Action := editRec fun hold => (1, intOfFloat hold.temp, intOfFloat hold.humid)

/-- `c_23`: off. -/
def c23 : Action := editRec fun hold => (0, intOfFloat hold.temp, intOfFloat hold.humid)

/-- `c_27`: set the temperature. -/
def c27 : Action := fun w =>
  editRec (fun hold => (hold.state, w.cb.tokenValue, intOfFloat hold.humid)) w

/-- `c_28`: set the humidity. -/
def c28 : Action := fun w =>
  editRec (fun hold => (hold.state, intOfFloat hold.temp, w.cb.tokenValue)) w

/-- `c_24`: delete the record. -/
def c24 : Action := fun w => do
  let (t, _) ← delTmplRec w.cb.wTemplateBuffer w.cb.wHours w.cb.wMinutes
  loadTemps t
  return (w.setCb { w.cb with wTemplateBuffer := t }, 0)

/-- `c_33`: clear the edit buffer. -/
def c33 : Action := fun w =>
  .ok (w.setCb { w.cb with wTemplateBuffer := { w.cb.wTemplateBuffer with rcnt := 0 } }, 0)

/-! ## The template library -/

/-- `c_14`: delete a template. -/
def c14 (env : Env) : Action := fun w => do
  let sys := w.ipc.sysData
  if w.cb.tokenValue < 0 ∨ w.cb.tokenValue > sys.tplIndex - 1 then return (w, 1)
  let tplLib ← shiftDown env.strayTmpl (sys.tplIndex - 1 - w.cb.tokenValue).toNat w.cb.tokenValue
    sys.tplLib
  return (w.setSysData { sys with tplLib := tplLib, tplIndex := sys.tplIndex - 1 }, 0)

/-- `c_51`: save the edit buffer as a template. -/
def c51 : Action := fun w => do
  let sys := w.ipc.sysData
  if sys.tplIndex + 1 > maxTemplates then return (w, 0)
  let token := w.cb.token.dequote
  let tplLib ←
    store sys.tplLib sys.tplIndex (pokeTmpl w.cb.wTemplateBuffer (token.bytes ++ [0]))
  let w := w.setSysData { sys with tplLib := tplLib, tplIndex := sys.tplIndex + 1 }
  let (w, _) ← c33 (w.setCb { w.cb with token := token })
  return (w, 0)

/-- `c_61`: load a template. A number out of range is reported, and used. -/
def c61 (env : Env) : Action := fun w =>
  .ok (w.setCb { w.cb with
    wTemplateBuffer := peek env.strayTmpl w.ipc.sysData.tplLib w.cb.tokenValue }, 0)

/-! ## The schedule tables -/

/-- `c_29`: assign the edit buffer to a channel. -/
def c29 : Action := fun w => do
  let cb ← loadWsch { w.cb with wChannel := w.cb.tokenValue }
  return (w.setCb cb, 0)

/-- `c_30`: set the working day. -/
def c30 : Action := fun w =>
  if w.cb.tokenValue > 0 ∧ w.cb.tokenValue < daysPerWeek + 1 then
    .ok (w.setCb { w.cb with wDay := w.cb.tokenValue - 1 }, 0)
  else .ok (w, 1)

/-- `c_31`: assign the edit buffer to all channels. -/
def c31 : Action := fun w => do
  let cb ← loadWsch { w.cb with wChannel := allChannels }
  return (w.setCb cb, 0)

/-- `c_32`: set the working day to all. -/
def c32 : Action := fun w => .ok (w.setCb { w.cb with wDay := allDays }, 0)

/-- `c_39`: replace the system schedule. -/
def c39 : Action := fun w =>
  .ok ((w.setSysData { w.ipc.sysData with sysSch := w.cb.wSch }).force, 0)

/-! ## The backup file -/

/-- `ipc_load` -/
def ipcLoad (w : World) : World :=
  match w.bkup with
  | some read => { w with ipc := read w.ipc }
  | none => w

/-- `ipc_save` -/
def ipcSave (env : Env) (w : World) : World :=
  match env.saving with
  | .closed => w
  | .whole => { w with bkup := some fun _ => w.ipc }
  | .cut read => { w with bkup := some (read w.ipc) }

/-- `c_19`: load shared memory from the backup file. -/
def c19 : Action := fun w => .ok (ipcLoad w, 0)

/-- `c_25`: save shared memory to the backup file. -/
def c25 (env : Env) : Action := fun w => .ok (ipcSave env w, 0)

/-- `c_48`: set the clock. -/
def c48 (env : Env) : Action := fun w => if env.clock then .ok (w, 0) else .error .exit

/-! ## Sensors -/

/-- `s_load` of `smaint.c`: load the texts of a sensor into the working record. -/
def sLoad (id : ℤ) (cb : CmdFsmCb) (sDat : Vector SenDat numberOfSensors) :
    Except Stop CmdFsmCb := do
  match sDat.toList.find? fun s => s.sensorId = id with
  | some s =>
    let group ← cString (s.group.toList ++ s.description.toList)
    let w := pokeGroup { cb.wSenDat with sensorId := id } (group ++ [0])
    let description ← cString s.description.toList
    let w := { w with
      description := (pokeStr w.description (description ++ [0])).1, active := s.active }
    return { cb with wSenDat := w }
  | none =>
    let w := pokeGroup { cb.wSenDat with sensorId := id } [0]
    let w := { w with description := (pokeStr w.description [0]).1, active := 0 }
    return { cb with wSenDat := w }

/-- `c_68`: load the working record of a sensor. -/
def c68 : Action := fun w => do
  if w.cb.tokenValue > numberOfSensors - 1 then return (w, 2)
  let cb ← sLoad w.cb.tokenValue w.cb w.ipc.sDat
  return (w.setCb cb, 0)

/-- `c_69`: set the group. The name goes through a buffer of `groupNameSize` characters. -/
def c69 : Action := fun w =>
  let token := w.cb.token.dequote
  if w.cb.token.bytes.length > groupNameSize + 2 then .ok (w, 2)
  else if token.bytes.length ≥ groupNameSize then .error .fault
  else
    match padstr token.bytes groupNameSize with
    | some bs => .ok (w.setCb { w.cb with
        token := token, wSenDat := pokeGroup w.cb.wSenDat (bs ++ [0]) }, 0)
    | none => .error .fault

/-- `c_70`: set the description. -/
def c70 : Action := fun w =>
  if w.cb.token.bytes.length > descriptionNameSize + 2 then .ok (w, 2)
  else
    let token := w.cb.token.dequote
    let description := (pokeStr w.cb.wSenDat.description (token.bytes ++ [0])).1
    .ok (w.setCb { w.cb with
      token := token, wSenDat := { w.cb.wSenDat with description := description } }, 0)

/-- `c_71`: display the sensor. -/
def c71 : Action := fun w =>
  .ok (w.setCb { w.cb with wSenDat := { w.cb.wSenDat with active := 1 } }, 0)

/-- `c_72`: do not display the sensor. -/
def c72 : Action := fun w =>
  .ok (w.setCb { w.cb with wSenDat := { w.cb.wSenDat with active := 0 } }, 0)

/-- `c_73`: save the working record. -/
def c73 : Action := fun w => do
  let sDat ← store w.ipc.sDat w.cb.wSenDat.sensorId w.cb.wSenDat
  return ({ w with ipc := { w.ipc with sDat := sDat } }, 0)

end CmdFsm

/-! ## All routines -/

/-- The routine that an entry of the action table names. -/
def Act.run (env : Env) : Act → Action
  | .c3 => fun _ => .error .exit
  | .c4 => CmdFsm.c4
  | .c5 => CmdFsm.c5
  | .c7 | .c8 => fun w => .ok (w, 1)
  | .c9 => CmdFsm.c9
  | .c10 => CmdFsm.c10
  | .c11 => CmdFsm.c11
  | .c12 => CmdFsm.c12
  | .c14 => CmdFsm.c14 env
  | .c18 => CmdFsm.c18
  | .c19 => CmdFsm.c19
  | .c20 => CmdFsm.c20
  | .c21 => CmdFsm.c21
  | .c22 => CmdFsm.c22
  | .c23 => CmdFsm.c23
  | .c24 => CmdFsm.c24
  | .c25 => CmdFsm.c25 env
  | .c27 => CmdFsm.c27
  | .c28 => CmdFsm.c28
  | .c29 => CmdFsm.c29
  | .c30 => CmdFsm.c30
  | .c31 => CmdFsm.c31
  | .c32 => CmdFsm.c32
  | .c33 => CmdFsm.c33
  | .c39 => CmdFsm.c39
  | .c48 => CmdFsm.c48 env
  | .c49 => CmdFsm.c49
  | .c51 => CmdFsm.c51
  | .c61 => CmdFsm.c61 env
  | .c68 => CmdFsm.c68
  | .c69 => CmdFsm.c69
  | .c70 => CmdFsm.c70
  | .c71 => CmdFsm.c71
  | .c72 => CmdFsm.c72
  | .c73 => CmdFsm.c73
  | .c75 => CmdFsm.c75
  | .c76 => CmdFsm.c76
  -- these print, set the prompt or set the buffer of the clock
  | .c0 | .c1 | .c2 | .c6 | .c13 | .c16 | .c17 | .c34 | .c37 | .c38 | .c40 | .c41 | .c42 | .c43
  | .c44 | .c45 | .c46 | .c47 | .c50 | .c52 | .c53 | .c55 | .c56 | .c57 | .c58 | .c59 | .c63
  | .c65 | .c66 | .c74 => fun w => .ok (w, 0)

end PconTng
