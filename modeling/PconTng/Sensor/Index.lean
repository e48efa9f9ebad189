import PconTng.CmdFsm.Frame
import PconTng.Foundations.Run
import PconTng.Scon.Request

/-!
# The numbers of sensors

The number of a sensor comes from the network, in the query string of a request to Scon, or from
the keyboard, as the token that `c_68` takes. It is used as an index by Scon, and by `c_73` from the
working record of the command processor. Scon stores no reading with a number out of range exactly
when it is not sent one (`request_safe_iff`). In a run in which it is not, and in which no negative
number is typed, all indices are in range (`indices_safe`).
-/

namespace PconTng.SensorIndex

open CMemory CArray CmdFsm Scon

/-- The number of a sensor. -/
def InRange (n : ℤ) : Prop := 0 ≤ n ∧ n < numberOfSensors

instance (n : ℤ) : Decidable (InRange n) := inferInstanceAs (Decidable (_ ∧ _))

/-! ## Requests -/

section Request

variable (host : Host) (query : Option (List Byte))

/-- The `temp` and `humid` of the query string are numbers that Scon takes: they are there and
have two parts and a value other than 0. -/
def Delivers : Prop :=
  ∃ sTemp sHumid temp humid, cgigetval host.behind query (str "temp") = .ok (some sTemp) ∧
    cgigetval host.behind query (str "humid") = .ok (some sHumid) ∧
    newStrtof host.accumulate sTemp = .ok temp ∧ temp ≠ 0 ∧
    newStrtof host.accumulate sHumid = .ok humid ∧ humid ≠ 0

/-- The query string does not deliver values for a sensor whose number is out of range. -/
def ProperRequest : Prop :=
  Delivers host query → ∀ sNum, cgigetval host.behind query (str "sensor") = .ok (some sNum) →
    InRange (strtol sNum)

/-- The index of a reading is in range, and a request with any other number stores none. -/
def SafeRequest : Prop :=
  (∀ r, readRequest host query = .ok r → InRange r.num) ∧
    ∀ sNum, cgigetval host.behind query (str "sensor") = .ok (some sNum) →
      ¬ InRange (strtol sNum) → ∃ e, readRequest host query = .error e

variable {host query}

/-- The text of a negative number starts with a blank or with the sign. -/
theorem headD_of_strtol_neg {s : List Byte} (h : strtol s < 0) : ¬ s.headD 0 > 99 := by
  cases s with
  | nil => decide
  | cons c s =>
    change ¬ c > 99
    by_cases hc : isSpace c = true
    · intro hgt
      have hlt := UInt8.lt_iff_toNat_lt.1 hgt
      simp only [isSpace, decide_eq_true_eq, UInt8.le_iff_toNat_le] at hc
      rcases hc with rfl | ⟨-, hle⟩
      · exact absurd hlt (by decide)
      · exact absurd (hlt.trans_le hle) (by decide)
    · have hneg : c = minus := by
        by_contra hne
        simp only [strtol, List.dropWhile_cons_of_neg hc, List.head?_cons, Option.some.injEq, hne,
          decide_false, Bool.false_eq_true, if_false] at h
        omega
      rw [hneg]
      decide

/-- When a request stores a reading. -/
theorem readRequest_eq_ok {r : Reading} : readRequest host query = .ok r ↔
    ∃ sNum sTemp sHumid, cgigetval host.behind query (str "sensor") = .ok (some sNum) ∧
      cgigetval host.behind query (str "temp") = .ok (some sTemp) ∧
      cgigetval host.behind query (str "humid") = .ok (some sHumid) ∧
      r.num = strtol sNum ∧ strtol sNum ≠ 0 ∧
      newStrtof host.accumulate sTemp = .ok r.temp ∧ r.temp ≠ 0 ∧
      newStrtof host.accumulate sHumid = .ok r.humid ∧ r.humid ≠ 0 := by
  unfold readRequest
  constructor
  · intro h
    obtain ⟨oNum, hNum, h⟩ := bind_eq_ok.1 h
    obtain ⟨oTemp, hTemp, h⟩ := bind_eq_ok.1 h
    obtain ⟨oHumid, hHumid, h⟩ := bind_eq_ok.1 h
    rcases oNum with _ | sNum <;> rcases oTemp with _ | sTemp <;> rcases oHumid with _ | sHumid <;>
      first | cases h | skip
    dsimp only at h
    split_ifs at h with h0 hneg
    obtain ⟨temp, htemp, h⟩ := bind_eq_ok.1 h
    split_ifs at h with ht0
    obtain ⟨humid, hhumid, h⟩ := bind_eq_ok.1 h
    split_ifs at h with hh0
    cases h
    exact ⟨sNum, sTemp, sHumid, hNum, hTemp, hHumid, rfl, h0, htemp, ht0, hhumid, hh0⟩
  · rintro ⟨sNum, sTemp, sHumid, hNum, hTemp, hHumid, hr, h0, htemp, ht0, hhumid, hh0⟩
    have hneg : ¬ (strtol sNum < 0 ∧ sNum.headD 0 > 99) := fun h => headD_of_strtol_neg h.1 h.2
    simp only [hNum, hTemp, hHumid, bind, Except.bind, if_neg h0, if_neg hneg, htemp, if_neg ht0,
      hhumid, if_neg hh0]
    rw [← hr]
    rfl

/-- **Scon checks no sensor number.** A request is safe exactly when it delivers no values for a
number that is out of range. -/
theorem request_safe_iff : SafeRequest host query ↔ ProperRequest host query := by
  constructor
  · rintro ⟨hsafe, -⟩ ⟨sTemp, sHumid, temp, humid, hTemp, hHumid, htemp, ht0, hhumid, hh0⟩ sNum hNum
    by_cases h0 : strtol sNum = 0
    · rw [h0]
      decide
    · exact hsafe ⟨strtol sNum, temp, humid⟩ (readRequest_eq_ok.2
        ⟨sNum, sTemp, sHumid, hNum, hTemp, hHumid, rfl, h0, htemp, ht0, hhumid, hh0⟩)
  · intro hproper
    have hrange : ∀ r, readRequest host query = .ok r → ∀ sNum,
        cgigetval host.behind query (str "sensor") = .ok (some sNum) →
        r.num = strtol sNum ∧ InRange (strtol sNum) := by
      intro r hr sNum hNum
      obtain ⟨sNum', sTemp, sHumid, hNum', hTemp, hHumid, hnum, -, htemp, ht0, hhumid, hh0⟩ :=
        readRequest_eq_ok.1 hr
      obtain rfl : sNum' = sNum := by simpa [hNum] using hNum'.symm
      exact ⟨hnum, hproper ⟨sTemp, sHumid, _, _, hTemp, hHumid, htemp, ht0, hhumid, hh0⟩ _ hNum⟩
    refine ⟨fun r hr => ?_, fun sNum hNum hout => ?_⟩
    · obtain ⟨sNum, -, -, hNum, -⟩ := readRequest_eq_ok.1 hr
      obtain ⟨hnum, hin⟩ := hrange r hr sNum hNum
      exact hnum ▸ hin
    · cases hr : readRequest host query with
      | error e => exact ⟨e, rfl⟩
      | ok r => exact absurd (hrange r hr sNum hNum).2 hout

end Request

/-! ## Runs -/

/-- What happens to the command processor and to shared memory: a token is typed, the command
processor is reset, a request is served at the given time, or another program writes to shared
memory. -/
inductive Input
  | token (t : Token)
  | reset
  | request (host : Host) (query : Option (List Byte)) (now : ℤ)
  | outside (ipc : IpcDat)

inductive Step : World → Input → World → Prop
  | token {w w' : World} {t : Token} (env : Env) (h : cmdFsm env (w.feed t) = .ok w') :
      Step w (.token t) w'
  | reset {w : World} : Step w .reset (w.setCb (cmdFsmReset w.cb))
  | stored {w : World} {host : Host} {query : Option (List Byte)} {now : ℤ} {r : Reading}
      {sDat : Vector SenDat numberOfSensors} (h : readRequest host query = .ok r)
      (hstore : moveReading r now w.ipc.sDat = .ok sDat) :
      Step w (.request host query now) { w with ipc := { w.ipc with sDat := sDat } }
  | rejected {w : World} {host : Host} {query : Option (List Byte)} {now : ℤ} {e : Ending}
      (h : readRequest host query = .error e) : Step w (.request host query now) w
  | outside {w : World} {ipc : IpcDat} : Step w (.outside ipc) { w with ipc := ipc }

/-- The control block is zeroed but for the working schedule. -/
def Initial (w : World) : Prop := ∃ sch, w.cb = { CmdFsmCb.zero with wSch := sch }

/-- The routine `act` is about to run on `w₁`, because of the token. -/
def Runs (w : World) (t : Token) (act : Act) (w₁ : World) : Prop :=
  ∃ index, dispatch (w.feed t) = .ok (w₁, some (index, act))

/-- What is asked of the inputs: no negative number is given to `c_68`, the texts of an hour and a
minute that are accepted stop before the working record of the sensor, and requests are proper. -/
def Proper (w : World) : Input → Prop
  | .token t => ∀ act w₁, Runs w t act w₁ →
    (act = .c68 → 0 ≤ w₁.cb.tokenValue) ∧
    (act = .c20 → 0 ≤ w₁.cb.tokenValue ∧ w₁.cb.tokenValue ≤ 23 →
      w₁.cb.token.bytes.length ≤ 24) ∧
    (act = .c21 → 0 ≤ w₁.cb.tokenValue ∧ w₁.cb.tokenValue ≤ 59 →
      w₁.cb.token.bytes.length ≤ 32)
  | .request host query _ => ProperRequest host query
  | _ => True

/-- The index of `c_73` is in range, and `c_68` rejects a number that is not and changes nothing;
and requests are safe. -/
def Safe (w : World) : Input → Prop
  | .token t => ∀ act w₁, Runs w t act w₁ →
    (act = .c73 → InRange w₁.cb.wSenDat.sensorId) ∧
    (act = .c68 → ¬ InRange w₁.cb.tokenValue → ∀ env, act.run env w₁ = .ok (w₁, 2))
  | .request host query _ => SafeRequest host query
  | _ => True

/-! ## The number of the working record -/

variable {env : Env} {w w' : World} {act : Act} {ret : ℤ}

theorem pokeHoursStr_sensorId (cb : CmdFsmCb) (bs : List Byte) :
    (pokeHoursStr cb bs).wSenDat.sensorId = (pokeInt cb.wSenDat.sensorId (bs.drop 24)).1 := by
  have h : (pokeHoursStr cb bs).wSenDat.sensorId =
      (pokeInt cb.wSenDat.sensorId ((pokeInt cb.wDay (bs.drop 4)).2.drop 16)).1 := rfl
  rw [h, pokeInt_rest, List.drop_drop, List.drop_drop]

theorem pokeMinutesStr_sensorId (cb : CmdFsmCb) (bs : List Byte) :
    (pokeMinutesStr cb bs).wSenDat.sensorId = (pokeInt cb.wSenDat.sensorId (bs.drop 32)).1 := by
  have h : (pokeMinutesStr cb bs).wSenDat.sensorId = (pokeHoursStr { cb with
      wMinutesStr := (pokeStr cb.wMinutesStr bs).1, wHours := (pokeInt cb.wHours (bs.drop 4)).1 }
      (pokeInt cb.wHours (bs.drop 4)).2).wSenDat.sensorId := rfl
  rw [h, pokeHoursStr_sensorId, pokeInt_rest, List.drop_drop, List.drop_drop]

/-- A text that stops in time leaves the number alone or makes it 0. -/
theorem inRange_of_text {l : List Byte} {k : ℕ} (hlen : l.length ≤ k) {n : ℤ} (h : InRange n) :
    InRange (pokeInt n ((l ++ [0]).drop k)).1 := by
  rcases pokeInt_drop hlen h.1 (h.2.trans (by decide)) with he | he <;> rw [he]
  · exact h
  · decide

/-- A routine keeps the number of the working record in range. -/
theorem sensorId_after (h : act.run env w = .ok (w', ret)) (hin : InRange w.cb.wSenDat.sensorId)
    (h68 : act = .c68 → 0 ≤ w.cb.tokenValue)
    (h20 : act = .c20 → 0 ≤ w.cb.tokenValue ∧ w.cb.tokenValue ≤ 23 →
      w.cb.token.bytes.length ≤ 24)
    (h21 : act = .c21 → 0 ≤ w.cb.tokenValue ∧ w.cb.tokenValue ≤ 59 →
      w.cb.token.bytes.length ≤ 32) : InRange w'.cb.wSenDat.sensorId := by
  by_cases hact : act ∈ [Act.c20, .c21, .c68]
  · simp only [List.mem_cons, List.not_mem_nil, or_false] at hact
    rcases hact with rfl | rfl | rfl
    · obtain ⟨-, rfl⟩ | ⟨rfl, rfl⟩ := c20_cases h
      · exact hin
      · simp only [World.setCb, pokeHoursStr_sensorId]
        exact inRange_of_text (h20 rfl (c20_accepts h)) hin
    · obtain ⟨-, rfl⟩ | ⟨rfl, rfl⟩ := c21_cases h
      · exact hin
      · simp only [World.setCb, pokeMinutesStr_sensorId]
        exact inRange_of_text (h21 rfl (c21_accepts h)) hin
    · obtain ⟨-, rfl⟩ | ⟨-, hv, s, hs, rfl⟩ := c68_cases h
      · exact hin
      · refine ⟨hs ▸ h68 rfl, ?_⟩
        simp only [World.setCb, hs, numberOfSensors, Nat.cast_ofNat] at hv ⊢
        omega
  · rw [(run_frame h).sensorId hact]
    exact hin

theorem c68_rejects (h0 : 0 ≤ w.cb.tokenValue) (hout : ¬ InRange w.cb.tokenValue) :
    c68 w = .ok (w, 2) := by
  apply if_pos
  simp only [InRange, numberOfSensors, Nat.cast_ofNat] at hout ⊢
  omega

/-! ## The invariant -/

/-- The number of the working record is in range. -/
def Inv (w : World) : Prop := InRange w.cb.wSenDat.sensorId

theorem Inv.of_initial (h : Initial w) : Inv w := by
  obtain ⟨sch, hcb⟩ := h
  have hzero : InRange CmdFsmCb.zero.wSenDat.sensorId := by decide
  rw [Inv, hcb]
  exact hzero

/-- **What is in range when a routine runs or a request is served.** -/
theorem Inv.safe {i : Input} (hw : Inv w) (hi : Proper w i) : Safe w i := by
  cases i with
  | token t =>
    rintro act w₁ hrun
    obtain ⟨h68, -, -⟩ := hi act w₁ hrun
    refine ⟨fun _ => ?_, ?_⟩
    · obtain ⟨index, hd⟩ := hrun
      obtain ⟨token, tt, value, rfl, -⟩ := dispatch_cases hd
      exact hw
    · rintro rfl hout env
      exact c68_rejects (h68 rfl) hout
  | request => exact request_safe_iff.2 hi
  | reset => trivial
  | outside => trivial

theorem Inv.step {i : Input} (hw : Inv w) (hi : Proper w i) (h : Step w i w') : Inv w' := by
  cases h with
  | reset => exact hw
  | stored => exact hw
  | rejected => exact hw
  | outside => exact hw
  | token env h =>
    rcases cmdFsm_cases h with hd | ⟨w₁, index, act, w₂, ret, hd, hrun, hret⟩
    · -- an empty token
      obtain ⟨token, tt, value, rfl, -⟩ := dispatch_cases hd
      exact hw
    · obtain ⟨h68, h20, h21⟩ := hi act w₁ ⟨index, hd⟩
      obtain ⟨token, tt, value, rfl, -⟩ := dispatch_cases hd
      have hin : InRange w₂.cb.wSenDat.sensorId := sensorId_after hrun hw h68 h20 h21
      rcases hret with ⟨-, state, -, rfl⟩ | ⟨-, rfl⟩ | ⟨-, rfl⟩ <;> exact hin

/-- **All sensor indices are in range.** From a zeroed control block, as long as all inputs are
proper, the indices of `c_73` and of Scon are in range at every step of a run, also at one that
does not return, and any other number is rejected. -/
theorem indices_safe {tr : List (World × Input)} (h0 : Initial w) (h : Path Step w tr w')
    (hproper : ∀ x ∈ tr, Proper x.1 x.2) :
    (∀ x ∈ tr, Safe x.1 x.2) ∧ ∀ i, Proper w' i → Safe w' i := by
  have hinv := h.invariant (I := Inv) (C := Proper) (fun _ _ _ hs hi h => hs.step hi h)
    (.of_initial h0) hproper
  exact ⟨fun x hx => (hinv.1 x hx).safe (hproper x hx), fun i hi => hinv.2.safe hi⟩

/-- Exact arithmetic, and a zero byte behind the query string. -/
def exact : Host := ⟨0, fun f d i sign => f + d * sign / 10 ^ (i + 1)⟩

/-- A request for the sensor with the given number. -/
def requestFor (num : String) : Option (List Byte) :=
  some (str "sensor=" ++ str num ++ str "&temp=20.5&humid=40.5")

theorem properRequest_five : ProperRequest exact (requestFor "5") := by
  intro _ sNum hNum
  have hfive : cgigetval exact.behind (requestFor "5") (str "sensor") = .ok (some (str "5")) := by
    decide +kernel
  obtain rfl : str "5" = sNum := by simpa [hfive] using hNum
  decide +kernel

def sedit : Token := ⟨str "sedit", by decide, by decide⟩

/-- Sensor 5 is edited, a reading of it comes in, and it is saved at index 5. -/
theorem indices_safe_save : ∃ (tr : List (World × Input)) (w w₁ : World),
    Path Step World.zero tr w ∧ Runs w .save .c73 w₁ ∧ w₁.cb.wSenDat.sensorId = 5 ∧
      (∀ x ∈ tr, Safe x.1 x.2) ∧ Safe w (.token .save) := by
  have hread : readRequest exact (requestFor "5") = .ok ⟨5, 41 / 2, 81 / 2⟩ := by decide +kernel
  have hrun : Path Step World.zero _ _ :=
    .cons (a := .token sedit) (.token .calm rfl) <|
    .cons (a := .token .five) (.token .calm rfl) <|
    .cons (a := .request exact (requestFor "5") 1000) (.stored hread rfl) (.nil _)
  have hsafe := indices_safe ⟨_, rfl⟩ hrun (by
    intro x hx
    simp only [List.mem_cons, List.not_mem_nil, or_false] at hx
    rcases hx with rfl | rfl | rfl
    · rintro act w₁ ⟨index, hd⟩
      cases hd
      exact ⟨fun h => (by cases h), fun h => (by cases h), fun h => (by cases h)⟩
    · rintro act w₁ ⟨index, hd⟩
      cases hd
      exact ⟨fun _ => by decide, fun h => (by cases h), fun h => (by cases h)⟩
    · exact properRequest_five)
  refine ⟨_, _, _, hrun, ⟨21, rfl⟩, rfl, hsafe.1, hsafe.2 _ ?_⟩
  rintro act w₁ ⟨index, hd⟩
  cases hd
  exact ⟨fun h => (by cases h), fun h => (by cases h), fun h => (by cases h)⟩

/-- A reading of sensor 25 is stored at index 25. -/
theorem indices_unsafe : ¬ ∀ (w w' : World) (tr : List (World × Input)) (i : Input),
    Initial w → Path Step w tr w' → Safe w' i := by
  intro hall
  have hread : readRequest exact (requestFor "25") = .ok ⟨25, 41 / 2, 81 / 2⟩ := by decide +kernel
  have hsafe := (hall World.zero _ _ (.request exact (requestFor "25") 0) ⟨_, rfl⟩ (.nil _)).1
    _ hread
  exact absurd hsafe (by decide)

end PconTng.SensorIndex
