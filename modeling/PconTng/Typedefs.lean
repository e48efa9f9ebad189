import PconTng.Foundations.CMemory

/-!
# The data of the controller

The structures of `typedefs.h` with the sizes of `shared.h`. Fields that no modelled routine
touches are left out: the configuration record, the library of schedule tables and its index, the
buffers of the terminal and the pointers of the control block.

Everything is an `int`, a `float`, a character array or an array of these. Where the memory is
zeroed at the start, each structure has its `zero`.
-/

namespace PconTng

/-! ## Sizes -/

abbrev maxTokenSize : ℕ := 128
abbrev numberOfSensors : ℕ := 20
abbrev groupNameSize : ℕ := 9
abbrev descriptionNameSize : ℕ := maxTokenSize
abbrev numberOfChannels : ℕ := 16
abbrev channelNameSize : ℕ := 20
abbrev maxScheduleRecs : ℕ := 50
abbrev allChannels : ℤ := 99
abbrev allDays : ℤ := 99
abbrev maxTemplates : ℕ := 10
abbrev templateNameSize : ℕ := 40
abbrev daysPerWeek : ℕ := 7
abbrev cmdTokens : ℕ := 41
abbrev cmdStates : ℕ := 35

instance : NeZero numberOfChannels := ⟨by decide⟩

instance : NeZero daysPerWeek := ⟨by decide⟩

instance : NeZero numberOfSensors := ⟨by decide⟩

/-- The code of the quote character. -/
abbrev quote : Byte := 34

/-! ## Shared memory -/

/-- A record of a schedule: from minute `key` of the day on, the channel is in `state`, or is
controlled to the temperature `temp`. -/
structure SRec where
  key : ℤ
  state : ℤ
  temp : ℚ
  humid : ℚ
  deriving DecidableEq

def SRec.zero : SRec := ⟨0, 0, 0, 0⟩

/-- A schedule: the first `rcnt` of its records. -/
structure TmplDat where
  name : Vector Byte templateNameSize
  rcnt : ℤ
  recs : Vector SRec (maxScheduleRecs + 1)
  deriving DecidableEq

def TmplDat.zero : TmplDat := ⟨.replicate _ 0, 0, .replicate _ SRec.zero⟩

/-- There is room for a second record. -/
theorem one_lt_recs : 1 < maxScheduleRecs + 1 := by decide

/-- A schedule for every day and channel. -/
abbrev STab : Type := Vector (Vector TmplDat numberOfChannels) daysPerWeek

def STab.zero : STab := .replicate _ (.replicate _ TmplDat.zero)

/-- The data of a channel. The mode is 0 for manual, 1 for time, 2 for time and sensor, 3 for
cycle. -/
structure ChnDat where
  timeOn : ℤ
  onSec : ℤ
  offSec : ℤ
  mode : ℤ
  state : ℤ
  sensorId : ℤ
  sensorAssigned : ℤ
  name : Vector Byte channelNameSize
  hide : ℤ
  deriving DecidableEq

def ChnDat.zero : ChnDat := ⟨0, 0, 0, 0, 0, 0, 0, .replicate _ 0, 0⟩

/-- The data of a sensor. -/
structure SenDat where
  sensorId : ℤ
  groupId : ℤ
  active : ℤ
  group : Vector Byte groupNameSize
  description : Vector Byte descriptionNameSize
  channel : Vector ℤ numberOfChannels
  channelIndex : ℤ
  temp : ℚ
  humidity : ℚ
  ts : ℤ
  deriving DecidableEq

def SenDat.zero : SenDat :=
  ⟨0, 0, 0, .replicate _ 0, .replicate _ 0, .replicate _ 0, 0, 0, 0, 0⟩

structure SysDat where
  sysSch : STab
  cData : Vector ChnDat numberOfChannels
  tplLib : Vector TmplDat maxTemplates
  tplIndex : ℤ

def SysDat.zero : SysDat :=
  ⟨STab.zero, .replicate _ ChnDat.zero, .replicate _ TmplDat.zero, 0⟩

/-- The memory mapped file. -/
structure IpcDat where
  forceUpdate : ℤ
  sysData : SysDat
  sDat : Vector SenDat numberOfSensors

def IpcDat.zero : IpcDat := ⟨0, SysDat.zero, .replicate _ SenDat.zero⟩

/-! ## The command processor -/

/-- A token: the characters before the terminator in the token buffer. -/
structure Token where
  bytes : List Byte
  fits : bytes.length < maxTokenSize
  noNul : 0 ∉ bytes
  deriving DecidableEq

/-- What an emptied token buffer holds. -/
def Token.empty : Token := ⟨[], Nat.succ_pos _, List.not_mem_nil⟩

/-- The control block of the command processor. Between `wDay` and `wSenDat` lie four words that
nothing uses. -/
structure CmdFsmCb where
  state : ℕ
  token : Token
  tokenType : ℤ
  tokenValue : ℤ
  wChannel : ℤ
  wMinutes : ℤ
  wMinutesStr : Vector Byte 4
  wHours : ℤ
  wHoursStr : Vector Byte 4
  wDay : ℤ
  wSenDat : SenDat
  wTemplateBuffer : TmplDat
  wSch : STab

def CmdFsmCb.zero : CmdFsmCb :=
  ⟨0, Token.empty, 0, 0, 0, 0, .replicate _ 0, 0, .replicate _ 0, 0, SenDat.zero, TmplDat.zero,
    STab.zero⟩

/-! ## The clock -/

/-- The part of `_tm` that the controller reads, with the ranges of its fields. -/
structure Tm where
  tmMin : Fin 60
  tmHour : Fin 24
  tmWday : Fin daysPerWeek
  deriving DecidableEq

/-- The minute of the day. -/
def Tm.key (tm : Tm) : ℤ := tm.tmHour.val * 60 + tm.tmMin.val

/-- Midnight on a Sunday. -/
def Tm.midnight : Tm := ⟨0, 0, 0⟩

end PconTng
