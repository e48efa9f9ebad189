import PconTng.CmdFsm.Frame
import PconTng.CmdFsm.Session
import PconTng.Scon.Request

/-!
# Editing the description of a sensor

`c_68` loads the texts of a sensor into the working record, `c_69` to `c_72` edit them, and `c_73`
stores the working record in the entry of the sensor, as a whole. The live data of the entry, the
reading and the list of channels, are in the working record too, but no command loads them. They
survive a session exactly when the working record happened to hold what Scon has stored by the end
of the session (`editing_keeps_iff`).
-/

namespace PconTng.Editing

open CMemory CArray CmdFsm Scon

/-- The fields of an entry that a session does not edit. -/
structure Live where
  temp : ℚ
  humidity : ℚ
  ts : ℤ
  channel : Vector ℤ numberOfChannels
  channelIndex : ℤ
  deriving DecidableEq

def live (s : SenDat) : Live := ⟨s.temp, s.humidity, s.ts, s.channel, s.channelIndex⟩

/-- What happens between `c_68` and `c_73`. -/
inductive Event
  | group (t : Token)
  | description (t : Token)
  | display (t : Token)
  | hide (t : Token)
  | reading (r : Reading) (now : ℤ)

/-- An event as it changes the memory. -/
def Event.apply (env : Env) (w : World) : Event → Except Stop World
  | .group t => Op.exec w ⟨env, .c69, t⟩
  | .description t => Op.exec w ⟨env, .c70, t⟩
  | .display t => Op.exec w ⟨env, .c71, t⟩
  | .hide t => Op.exec w ⟨env, .c72, t⟩
  | .reading r now => do
    let sDat ← moveReading r now w.ipc.sDat
    return { w with ipc := { w.ipc with sDat := sDat } }

/-- The entries of the sensors when only the readings happen. -/
def Event.readingOnly (sDat : Vector SenDat numberOfSensors) :
    Event → Except Stop (Vector SenDat numberOfSensors)
  | .reading r now => moveReading r now sDat
  | _ => .ok sDat

/-- A session: the number of the sensor, the events, and `save`. -/
def session (env : Env) (w : World) (id : Token) (es : List Event) : Except Stop World := do
  let w ← Op.exec w ⟨env, .c68, id⟩
  let w ← es.foldlM (Event.apply env) w
  Op.exec w ⟨env, .c73, .save⟩

/-! ## What a command does to the working record -/

variable {env : Env} {w w' : World} {ret : ℤ}

/-- Loading a sensor sets the number of the working record and leaves the live data alone. -/
theorem sLoad_live {id : ℤ} {cb cb' : CmdFsmCb} {sDat : Vector SenDat numberOfSensors}
    (h : sLoad id cb sDat = .ok cb') :
    cb'.wSenDat.sensorId = id ∧ live cb'.wSenDat = live cb.wSenDat := by
  obtain ⟨group, description, active, rfl⟩ := sLoad_cases h
  exact ⟨rfl, rfl⟩

/-- The number of the working record and its live data are the same. -/
structure SameRecord (w w' : World) : Prop where
  sensorId : w'.cb.wSenDat.sensorId = w.cb.wSenDat.sensorId
  live : live w'.cb.wSenDat = live w.cb.wSenDat

theorem c69_same (h : c69 w = .ok (w', ret)) : SameRecord w w' ∧ w'.ipc = w.ipc := by
  obtain ⟨-, rfl⟩ | ⟨-, token, bs, rfl⟩ := c69_cases h
  · exact ⟨⟨rfl, rfl⟩, rfl⟩
  · exact ⟨⟨rfl, rfl⟩, rfl⟩

theorem c70_same (h : c70 w = .ok (w', ret)) : SameRecord w w' ∧ w'.ipc = w.ipc := by
  obtain ⟨-, rfl⟩ | ⟨-, token, description, rfl⟩ := c70_cases h
  · exact ⟨⟨rfl, rfl⟩, rfl⟩
  · exact ⟨⟨rfl, rfl⟩, rfl⟩

/-! ## Sessions -/

/-- An edit of the working record leaves its live data and all entries alone. -/
theorem exec_same {act : Act} {t : Token} (h : Op.exec w ⟨env, act, t⟩ = .ok w')
    (hsame : ∀ {w w' : World} {ret : ℤ}, act.run env w = .ok (w', ret) →
      SameRecord w w' ∧ w'.ipc = w.ipc) : SameRecord w w' ∧ w'.ipc = w.ipc := by
  by_cases hnull : (tokenType t).2 = ttNull
  · rw [Op.exec_eq, if_pos hnull] at h
    cases h
    exact ⟨⟨rfl, rfl⟩, rfl⟩
  · obtain ⟨ret, hrun⟩ := Op.run_of_exec hnull h
    obtain ⟨⟨hid, hlive⟩, hipc⟩ := hsame hrun
    exact ⟨⟨hid, hlive⟩, hipc⟩

/-- An event leaves the live data of the working record alone, and changes the entries as it does
without a session. -/
theorem Event.apply_same {e : Event} (h : e.apply env w = .ok w') :
    SameRecord w w' ∧ e.readingOnly w.ipc.sDat = .ok w'.ipc.sDat := by
  have edit : SameRecord w w' ∧ w'.ipc = w.ipc →
      SameRecord w w' ∧ (Except.ok w.ipc.sDat : Except Stop _) = .ok w'.ipc.sDat :=
    fun ⟨hsame, hipc⟩ => ⟨hsame, by rw [hipc]⟩
  cases e with
  | group t => exact edit (exec_same h fun hrun => c69_same hrun)
  | description t => exact edit (exec_same h fun hrun => c70_same hrun)
  | display t =>
    refine edit (exec_same h fun hrun => ?_)
    cases hrun
    exact ⟨⟨rfl, rfl⟩, rfl⟩
  | hide t =>
    refine edit (exec_same h fun hrun => ?_)
    cases hrun
    exact ⟨⟨rfl, rfl⟩, rfl⟩
  | reading r now =>
    obtain ⟨sDat, hs, h⟩ := bind_eq_ok.1 h
    cases h
    exact ⟨⟨rfl, rfl⟩, hs⟩

theorem c68_loads (hid : 0 ≤ w.cb.tokenValue ∧ w.cb.tokenValue < numberOfSensors)
    (h : c68 w = .ok (w', ret)) : w'.cb.wSenDat.sensorId = w.cb.tokenValue ∧
      live w'.cb.wSenDat = live w.cb.wSenDat ∧ w'.ipc = w.ipc := by
  unfold c68 at h
  split_ifs at h with hv
  · simp only [numberOfSensors, Nat.cast_ofNat] at hid hv
    omega
  · obtain ⟨cb, hcb, h⟩ := bind_eq_ok.1 h
    obtain ⟨hs, hlive⟩ := sLoad_live hcb
    cases h
    exact ⟨hs, hlive, rfl⟩

theorem save_ne_null : (tokenType .save).2 ≠ ttNull := by decide +kernel

/-- **What a session leaves behind.** The entry of the sensor gets the live data that the working
record had at the start, and all other entries are what the readings make of them. -/
theorem session_result {id : Token} (hid : 0 ≤ id.value ∧ id.value < numberOfSensors)
    {es : List Event} (h : session env w id es = .ok w') :
    ∃ (sDat : Vector SenDat numberOfSensors) (s : SenDat) (hn : id.value.toNat < numberOfSensors),
      es.foldlM Event.readingOnly w.ipc.sDat = .ok sDat ∧ live s = live w.cb.wSenDat ∧
      w'.ipc.sDat = sDat.set id.value.toNat s := by
  obtain ⟨w₁, h₁, h⟩ := bind_eq_ok.1 h
  obtain ⟨w₂, h₂, h⟩ := bind_eq_ok.1 h
  have hnull := tokenType_ne_null hid.1
  have hvalue : (w.read id).cb.tokenValue = id.value := if_neg hnull
  -- the number is loaded
  obtain ⟨ret₁, hrun₁⟩ := Op.run_of_exec hnull h₁
  obtain ⟨hs₁, hlive₁, hipc₁⟩ := c68_loads (hvalue ▸ hid) hrun₁
  -- the events go by
  obtain ⟨sDat, hsDat, hsame, rfl⟩ := foldlM_refines (g := Event.readingOnly)
    (R := fun w sDat => SameRecord w₁ w ∧ sDat = w.ipc.sDat)
    (fun _ _ _ e ⟨hsame, hr⟩ he => by
      obtain ⟨hsame', hread⟩ := Event.apply_same he
      exact ⟨_, hr ▸ hread, ⟨⟨hsame'.sensorId.trans hsame.sensorId,
        hsame'.live.trans hsame.live⟩, rfl⟩⟩)
    es w₁ w₂ _ ⟨⟨rfl, rfl⟩, rfl⟩ h₂
  -- the working record is stored
  obtain ⟨ret, hrun⟩ := Op.run_of_exec save_ne_null h
  obtain ⟨sDat', hstore, hrun⟩ := bind_eq_ok.1 hrun
  cases hrun
  obtain ⟨hn, -, rfl⟩ := store_eq_ok hstore
  have hindex : (w₂.read .save).cb.wSenDat.sensorId = id.value :=
    hsame.sensorId.trans (hs₁.trans hvalue)
  rw [hipc₁] at hsDat
  refine ⟨_, (w₂.read .save).cb.wSenDat, hindex ▸ hn, hsDat, hsame.live.trans hlive₁, ?_⟩
  simp only [hindex]
  rfl

/-- **When a session keeps the live data.** For a session that runs to its end, let the readings
alone make `sDat` of the entries. The session leaves the live data of the entry of its sensor, and
all other entries, as they are in `sDat`, exactly when the working record started with these live
data. -/
theorem editing_keeps_iff {id : Token} (hid : 0 ≤ id.value ∧ id.value < numberOfSensors)
    {es : List Event} (h : session env w id es = .ok w') :
    ∃ (sDat : Vector SenDat numberOfSensors) (hn : id.value.toNat < numberOfSensors),
      es.foldlM Event.readingOnly w.ipc.sDat = .ok sDat ∧
      ((live w'.ipc.sDat[id.value.toNat] = live sDat[id.value.toNat] ∧
          ∀ (j : ℕ) (hj : j < numberOfSensors), j ≠ id.value.toNat →
            w'.ipc.sDat[j] = sDat[j]) ↔
        live w.cb.wSenDat = live sDat[id.value.toNat]) := by
  obtain ⟨sDat, s, hn, hsDat, hlive, hresult⟩ := session_result hid h
  refine ⟨sDat, hn, hsDat, ?_⟩
  rw [hresult, Vector.getElem_set_self, hlive, and_iff_left]
  exact fun j hj hne => Vector.getElem_set_ne _ _ hne.symm

theorem five_value : Token.five.value = 5 := by decide +kernel

theorem five_range : 0 ≤ Token.five.value ∧ Token.five.value < numberOfSensors := by
  rw [five_value]
  decide

/-- Sensor 5 on channel 3, as a reading of 21 degrees at the time 1000 leaves it. -/
def warm : SenDat := { SenDat.zero with
  sensorId := 5
  temp := 21
  humidity := 40
  ts := 1000
  channel := .ofFn fun i => if i.val = 0 then 3 else 0
  channelIndex := 1 }

/-- A working record that happens to hold the live data of the warm sensor, and an entry that is
older. -/
def older : World :=
  { World.zero.setCb { CmdFsmCb.zero with wSenDat := warm } with
    ipc := { IpcDat.zero with sDat := IpcDat.zero.sDat.set 5 { warm with temp := 18, ts := 400 } } }

/-- The sensor is described and shown while two readings come in, one of another sensor. -/
def describe : List Event :=
  [.description ⟨str "dry", by decide, by decide⟩, .reading ⟨5, 21, 40⟩ 1000,
    .group ⟨str "hot", by decide, by decide⟩, .reading ⟨7, 3, 80⟩ 1001, .display Token.five]

/-- A session with edits and readings after which the entry has the live data of the reading. -/
theorem editing_keeps_warm : ∃ (w' : World) (hn : Token.five.value.toNat < numberOfSensors),
    session .calm older .five describe = .ok w' ∧
      live w'.ipc.sDat[Token.five.value.toNat] = live warm ∧
      w'.ipc.sDat[7].humidity = 80 := by
  have hok : (session .calm older .five describe).isOk = true := by decide +kernel
  obtain ⟨w', h⟩ := exists_ok_of_isOk hok
  obtain ⟨sDat, hn, hs, hiff⟩ := editing_keeps_iff five_range h
  have hread : (describe.foldlM Event.readingOnly older.ipc.sDat).toOption.map
      (fun s => (live (s.get 5), (s.get 7).humidity)) = some (live warm, 80) := by decide +kernel
  rw [hs] at hread
  obtain ⟨hlive, hseven⟩ := Prod.ext_iff.1 (Option.some.inj hread)
  have hindex : Token.five.value.toNat = 5 := by
    rw [five_value]
    rfl
  have hfive : live sDat[Token.five.value.toNat] = live warm := by
    simp only [hindex]
    exact hlive
  obtain ⟨hkeep, hothers⟩ := hiff.2 hfive.symm
  refine ⟨w', hn, h, hkeep.trans hfive, ?_⟩
  rw [hothers 7 (by decide) (by rw [hindex]; decide)]
  exact hseven

/-- The entry of sensor 5 has a reading of 20 degrees. -/
def withReading : World :=
  { World.zero with ipc := { IpcDat.zero with
      sDat := IpcDat.zero.sDat.set 5 { SenDat.zero with sensorId := 5, temp := 20 } } }

/-- A session for sensor 5 without any edits makes this 0 degrees. -/
theorem editing_loses_reading : ¬ ∀ (env : Env) (w w' : World) (id : Token) (es : List Event)
    (sDat : Vector SenDat numberOfSensors) (hn : id.value.toNat < numberOfSensors),
    0 ≤ id.value → session env w id es = .ok w' →
    es.foldlM Event.readingOnly w.ipc.sDat = .ok sDat →
    live w'.ipc.sDat[id.value.toNat] = live sDat[id.value.toNat] ∧
      ∀ (j : ℕ) (hj : j < numberOfSensors), j ≠ id.value.toNat → w'.ipc.sDat[j] = sDat[j] := by
  intro hall
  have hok : (session .calm withReading .five []).isOk = true := by decide +kernel
  obtain ⟨w', h⟩ := exists_ok_of_isOk hok
  obtain ⟨sDat, s, hn, hs, hlive, hresult⟩ := session_result five_range h
  have hkeep := (hall .calm withReading w' .five [] sDat hn five_range.1 h hs).1
  cases hs
  simp only [hresult, Vector.getElem_set_self, hlive] at hkeep
  have htemp : ∀ hn : Token.five.value.toNat < numberOfSensors,
      (live withReading.cb.wSenDat).temp ≠
        (live withReading.ipc.sDat[Token.five.value.toNat]).temp := by
    decide +kernel
  exact htemp hn (congrArg Live.temp hkeep)

end PconTng.Editing
