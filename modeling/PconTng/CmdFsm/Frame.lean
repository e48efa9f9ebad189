import PconTng.CmdFsm.Fsm

/-!
# What the routines leave alone

The state of the command processor, the working channel and day, and the number of the working
sensor are each set by a few routines; no other routine changes them (`run_frame`). `c_20` and
`c_21` change those that lie behind the strings they copy only when the token is too long.
-/

namespace PconTng

open CMemory CArray CmdFsm

/-- The two control blocks have the same state, working channel, day and sensor. -/
structure SameWork (cb cb' : CmdFsmCb) : Prop where
  state : cb'.state = cb.state
  wChannel : cb'.wChannel = cb.wChannel
  wDay : cb'.wDay = cb.wDay
  sensorId : cb'.wSenDat.sensorId = cb.wSenDat.sensorId

theorem SameWork.refl (cb : CmdFsmCb) : SameWork cb cb := ⟨rfl, rfl, rfl, rfl⟩

/-- What a routine may change of these. -/
structure Frame (act : Act) (cb cb' : CmdFsmCb) : Prop where
  state : cb'.state = cb.state
  wChannel : act ∉ [Act.c4, .c29, .c31] → cb'.wChannel = cb.wChannel
  wDay : act ∉ [Act.c20, .c21, .c30, .c32] → cb'.wDay = cb.wDay
  sensorId : act ∉ [Act.c20, .c21, .c68] → cb'.wSenDat.sensorId = cb.wSenDat.sensorId

theorem SameWork.frame {cb cb' : CmdFsmCb} (h : SameWork cb cb') (act : Act) : Frame act cb cb' :=
  ⟨h.state, fun _ => h.wChannel, fun _ => h.wDay, fun _ => h.sensorId⟩

variable {env : Env} {w w' : World} {ret : ℤ}

theorem World.onChannel_cb {f : ChnDat → ChnDat} (h : w.onChannel f = .ok w') : w'.cb = w.cb := by
  obtain ⟨c, -, h⟩ := bind_eq_ok.1 h
  obtain ⟨cData, -, h⟩ := bind_eq_ok.1 h
  cases h
  rfl

/-- A change of a working channel that is a channel. -/
theorem World.onChannel_eq {k : Fin numberOfChannels} (hk : w.cb.wChannel = k.val)
    (f : ChnDat → ChnDat) : w.onChannel f = .ok (w.setSysData { w.ipc.sysData with
      cData := w.ipc.sysData.cData.set k (f (w.ipc.sysData.cData.get k)) k.isLt }) := by
  simp only [World.onChannel, hk, load_natCast _ k.isLt, store_natCast _ k.isLt, bind, Except.bind]
  rfl

theorem loadWsch_cb {cb cb' : CmdFsmCb} (h : loadWsch cb = .ok cb') :
    ∃ s, cb' = { cb with wSch := s } := by
  unfold loadWsch at h
  split_ifs at h <;> obtain ⟨s, -, h⟩ := bind_eq_ok.1 h <;> cases h <;> exact ⟨s, rfl⟩

theorem sLoad_cases {id : ℤ} {cb cb' : CmdFsmCb} {sDat : Vector SenDat numberOfSensors}
    (h : sLoad id cb sDat = .ok cb') : ∃ group description active,
      cb' = { cb with wSenDat := { cb.wSenDat with
        sensorId := id, group := group, description := description, active := active } } := by
  unfold sLoad at h
  split at h
  · obtain ⟨group, -, h⟩ := bind_eq_ok.1 h
    obtain ⟨description, -, h⟩ := bind_eq_ok.1 h
    cases h
    exact ⟨_, _, _, rfl⟩
  · cases h
    exact ⟨_, _, _, rfl⟩

theorem pokeHoursStr_wDay (cb : CmdFsmCb) (bs : List Byte) :
    (pokeHoursStr cb bs).wDay = (pokeInt cb.wDay (bs.drop 4)).1 := rfl

theorem pokeMinutesStr_wDay (cb : CmdFsmCb) (bs : List Byte) :
    (pokeMinutesStr cb bs).wDay = (pokeInt cb.wDay (bs.drop 12)).1 := by
  have h : (pokeMinutesStr cb bs).wDay =
      (pokeInt cb.wDay ((pokeInt cb.wHours (bs.drop 4)).2.drop 4)).1 := rfl
  rw [h, pokeInt_rest, List.drop_drop, List.drop_drop]

/-- A string of at most `k` characters leaves an integer `k` bytes behind its start alone, or
clears it with its terminator if it is small. -/
theorem pokeInt_drop {l : List Byte} {k : ℕ} (h : l.length ≤ k) {n : ℤ} (h0 : 0 ≤ n)
    (hn : n < 256) : (pokeInt n ((l ++ [0]).drop k)).1 = n ∨
      (pokeInt n ((l ++ [0]).drop k)).1 = 0 := by
  rw [List.drop_append, List.drop_eq_nil_of_le h, List.nil_append]
  rcases Nat.eq_zero_or_pos (k - l.length) with hk | hk
  · rw [hk, List.drop_zero, pokeInt_nul h0 hn]
    exact .inr rfl
  · rw [List.drop_eq_nil_of_le (by simp only [List.length_singleton]; omega)]
    exact .inl rfl

/-! ## Routine by routine -/

/-- The routine has refused: it has returned 1 or 2 and left the memory alone. -/
def Refused (w w' : World) (ret : ℤ) : Prop := (ret = 1 ∨ ret = 2) ∧ w' = w

/-- The routine has returned 0 and changed nothing of the control block but the edit buffer. -/
def Buffers (w w' : World) (ret : ℤ) : Prop :=
  ret = 0 ∧ ∃ t, w' = w.setCb { w.cb with wTemplateBuffer := t }

/-- The routine has returned 0 after changing the working channel by `f` and perhaps the
assignments of the sensors, and forces an update. -/
def Controls (f : ChnDat → ChnDat) (w w' : World) (ret : ℤ) : Prop :=
  ret = 0 ∧ ∃ w₁ sDat, w.onChannel f = .ok w₁ ∧
    w' = World.force { w₁ with ipc := { w₁.ipc with sDat := sDat } }

theorem Refused.one (w : World) : Refused w w 1 := ⟨.inl rfl, rfl⟩

theorem Refused.two (w : World) : Refused w w 2 := ⟨.inr rfl, rfl⟩

namespace CmdFsm

theorem setControl_controls {mode state : ℤ} (h : setControl mode state w = .ok (w', ret)) :
    Controls (fun c => { c with mode := mode, state := state }) w w' ret := by
  obtain ⟨w₁, h₁, h⟩ := bind_eq_ok.1 h
  cases h
  exact ⟨rfl, w₁, w₁.ipc.sDat, h₁, rfl⟩

theorem c4_cases (h : c4 w = .ok (w', ret)) : Refused w w' ret ∨
    (ret = 0 ∧ w.cb.tokenValue < numberOfChannels ∧
      w' = w.setCb { w.cb with wChannel := w.cb.tokenValue, wMinutes := 0, wHours := 0 }) := by
  unfold c4 at h
  split_ifs at h with hlt <;> cases h
  · exact .inr ⟨rfl, hlt, rfl⟩
  · exact .inl (.one w)

theorem c5_work (h : c5 w = .ok (w', ret)) : SameWork w.cb w'.cb := by
  obtain ⟨c, -, h⟩ := bind_eq_ok.1 h
  obtain ⟨cData, -, h⟩ := bind_eq_ok.1 h
  cases h
  exact ⟨rfl, rfl, rfl, rfl⟩

theorem c14_cases (h : c14 env w = .ok (w', ret)) : Refused w w' ret ∨
    (ret = 0 ∧ ∃ tplLib tplIndex, w' = w.setSysData
      { w.ipc.sysData with tplLib := tplLib, tplIndex := tplIndex }) := by
  unfold c14 at h
  dsimp only at h
  split_ifs at h
  · cases h
    exact .inl (.one w)
  · obtain ⟨tplLib, -, h⟩ := bind_eq_ok.1 h
    cases h
    exact .inr ⟨rfl, tplLib, _, rfl⟩

theorem c18_controls (h : c18 w = .ok (w', ret)) :
    Controls (fun c => { c with sensorAssigned := 0 }) w w' ret := by
  obtain ⟨w₁, h₁, h⟩ := bind_eq_ok.1 h
  obtain ⟨sDat, -, h⟩ := bind_eq_ok.1 h
  cases h
  exact ⟨rfl, w₁, sDat, h₁, rfl⟩

theorem c20_cases (h : c20 w = .ok (w', ret)) : Refused w w' ret ∨
    (ret = 0 ∧ w' = w.setCb
      (pokeHoursStr { w.cb with wHours := w.cb.tokenValue } (w.cb.token.bytes ++ [0]))) := by
  unfold c20 at h
  split_ifs at h <;> cases h
  · exact .inl (.one w)
  · exact .inr ⟨rfl, rfl⟩

theorem c21_cases (h : c21 w = .ok (w', ret)) : Refused w w' ret ∨
    (ret = 0 ∧ w' = w.setCb
      (pokeMinutesStr { w.cb with wMinutes := w.cb.tokenValue } (w.cb.token.bytes ++ [0]))) := by
  unfold c21 at h
  split_ifs at h <;> cases h
  · exact .inl (.one w)
  · exact .inr ⟨rfl, rfl⟩

/-- The hours that `c_20` takes. -/
theorem c20_accepts (h : c20 w = .ok (w', 0)) : 0 ≤ w.cb.tokenValue ∧ w.cb.tokenValue ≤ 23 := by
  unfold c20 at h
  split_ifs at h with hv
  · cases h
  · omega

/-- The minutes that `c_21` takes. -/
theorem c21_accepts (h : c21 w = .ok (w', 0)) : 0 ≤ w.cb.tokenValue ∧ w.cb.tokenValue ≤ 59 := by
  unfold c21 at h
  split_ifs at h with hv
  · cases h
  · omega

theorem editRec_buffers {args : SRec → ℤ × ℤ × ℤ} (h : editRec args w = .ok (w', ret)) :
    Buffers w w' ret := by
  obtain ⟨hold, -, h⟩ := bind_eq_ok.1 h
  obtain ⟨r, -, h⟩ := bind_eq_ok.1 h
  obtain ⟨-, -, h⟩ := bind_eq_ok.1 h
  cases h
  exact ⟨rfl, r.1, rfl⟩

theorem c22_buffers (h : c22 w = .ok (w', ret)) : Buffers w w' ret := by
  unfold c22 at h
  exact editRec_buffers h

theorem c23_buffers (h : c23 w = .ok (w', ret)) : Buffers w w' ret := by
  unfold c23 at h
  exact editRec_buffers h

theorem c24_buffers (h : c24 w = .ok (w', ret)) : Buffers w w' ret := by
  obtain ⟨r, -, h⟩ := bind_eq_ok.1 h
  obtain ⟨-, -, h⟩ := bind_eq_ok.1 h
  cases h
  exact ⟨rfl, r.1, rfl⟩

theorem c27_buffers (h : c27 w = .ok (w', ret)) : Buffers w w' ret := by
  unfold c27 at h
  exact editRec_buffers h

theorem c28_buffers (h : c28 w = .ok (w', ret)) : Buffers w w' ret := by
  unfold c28 at h
  exact editRec_buffers h

theorem c29_cases (h : c29 w = .ok (w', ret)) : ret = 0 ∧ ∃ sch,
    w' = w.setCb { w.cb with wChannel := w.cb.tokenValue, wSch := sch } := by
  obtain ⟨cb, hcb, h⟩ := bind_eq_ok.1 h
  obtain ⟨sch, rfl⟩ := loadWsch_cb hcb
  cases h
  exact ⟨rfl, sch, rfl⟩

theorem c30_cases (h : c30 w = .ok (w', ret)) : Refused w w' ret ∨
    (ret = 0 ∧ (w.cb.tokenValue > 0 ∧ w.cb.tokenValue < daysPerWeek + 1) ∧
      w' = w.setCb { w.cb with wDay := w.cb.tokenValue - 1 }) := by
  unfold c30 at h
  split_ifs at h with hday <;> cases h
  · exact .inr ⟨rfl, hday, rfl⟩
  · exact .inl (.one w)

theorem c31_cases (h : c31 w = .ok (w', ret)) : ret = 0 ∧ ∃ sch,
    w' = w.setCb { w.cb with wChannel := allChannels, wSch := sch } := by
  obtain ⟨cb, hcb, h⟩ := bind_eq_ok.1 h
  obtain ⟨sch, rfl⟩ := loadWsch_cb hcb
  cases h
  exact ⟨rfl, sch, rfl⟩

theorem c48_cases (h : c48 env w = .ok (w', ret)) : ret = 0 ∧ w' = w := by
  unfold c48 at h
  split_ifs at h
  cases h
  exact ⟨rfl, rfl⟩

theorem c49_controls (h : c49 w = .ok (w', ret)) :
    Controls (fun c => { c with sensorId := w.cb.tokenValue, sensorAssigned := 1 }) w w' ret := by
  obtain ⟨sDat, -, h⟩ := bind_eq_ok.1 h
  obtain ⟨w₁, h₁, h⟩ := bind_eq_ok.1 h
  obtain ⟨s, -, h⟩ := bind_eq_ok.1 h
  obtain ⟨r, -, h⟩ := bind_eq_ok.1 h
  obtain ⟨sDat', -, h⟩ := bind_eq_ok.1 h
  cases h
  exact ⟨rfl, w₁, sDat', h₁, rfl⟩

theorem c51_cases (h : c51 w = .ok (w', ret)) : ret = 0 ∧ (w' = w ∨
    ∃ tplLib tplIndex token t, w' = (w.setSysData
      { w.ipc.sysData with tplLib := tplLib, tplIndex := tplIndex }).setCb
        { w.cb with token := token, wTemplateBuffer := t }) := by
  unfold c51 at h
  dsimp only at h
  split_ifs at h
  · cases h
    exact ⟨rfl, .inl rfl⟩
  · obtain ⟨tplLib, -, h⟩ := bind_eq_ok.1 h
    cases h
    exact ⟨rfl, .inr ⟨tplLib, _, _, _, rfl⟩⟩

theorem c68_cases (h : c68 w = .ok (w', ret)) : Refused w w' ret ∨
    (ret = 0 ∧ w.cb.tokenValue ≤ numberOfSensors - 1 ∧
      ∃ s : SenDat, s.sensorId = w.cb.tokenValue ∧ w' = w.setCb { w.cb with wSenDat := s }) := by
  unfold c68 at h
  split_ifs at h with hid
  · cases h
    exact .inl (.two w)
  · obtain ⟨cb, hcb, h⟩ := bind_eq_ok.1 h
    obtain ⟨group, description, active, rfl⟩ := sLoad_cases hcb
    cases h
    exact .inr ⟨rfl, not_lt.1 hid, _, rfl, rfl⟩

theorem c69_cases (h : c69 w = .ok (w', ret)) : Refused w w' ret ∨
    (ret = 0 ∧ ∃ token bs, w' = w.setCb
      { w.cb with token := token, wSenDat := pokeGroup w.cb.wSenDat bs }) := by
  unfold c69 at h
  dsimp only at h
  split_ifs at h
  · cases h
    exact .inl (.two w)
  · split at h <;> cases h
    exact .inr ⟨rfl, _, _, rfl⟩

theorem c70_cases (h : c70 w = .ok (w', ret)) : Refused w w' ret ∨
    (ret = 0 ∧ ∃ token description, w' = w.setCb { w.cb with
      token := token, wSenDat := { w.cb.wSenDat with description := description } }) := by
  unfold c70 at h
  dsimp only at h
  split_ifs at h <;> cases h
  · exact .inl (.two w)
  · exact .inr ⟨rfl, _, _, rfl⟩

theorem c73_cb (h : c73 w = .ok (w', ret)) : w'.cb = w.cb := by
  obtain ⟨sDat, -, h⟩ := bind_eq_ok.1 h
  cases h
  rfl

end CmdFsm

theorem Buffers.work (h : Buffers w w' ret) : SameWork w.cb w'.cb := by
  obtain ⟨-, t, rfl⟩ := h
  exact ⟨rfl, rfl, rfl, rfl⟩

theorem Controls.cb {f : ChnDat → ChnDat} (h : Controls f w w' ret) : w'.cb = w.cb := by
  obtain ⟨-, w₁, sDat, h₁, rfl⟩ := h
  exact (World.onChannel_cb h₁ : w₁.cb = w.cb)

/-- **The frame of every routine.** -/
theorem run_frame {act : Act} (h : act.run env w = .ok (w', ret)) :
    Frame act w.cb w'.cb := by
  have same : w'.cb = w.cb → Frame act w.cb w'.cb := fun he => by
    rw [he]
    exact (SameWork.refl w.cb).frame act
  have refused : Refused w w' ret → Frame act w.cb w'.cb := fun hr => same (congrArg _ hr.2)
  cases act with
  | c3 => cases h
  | c4 =>
    obtain hr | ⟨-, -, rfl⟩ := c4_cases h
    · exact refused hr
    · exact ⟨rfl, fun hne => absurd (by decide) hne, fun _ => rfl, fun _ => rfl⟩
  | c5 => exact (c5_work h).frame _
  | c9 => exact same (setControl_controls h).cb
  | c10 => exact same (setControl_controls h).cb
  | c11 => exact same (setControl_controls h).cb
  | c12 => exact same (setControl_controls h).cb
  | c14 =>
    obtain hr | ⟨-, tplLib, tplIndex, rfl⟩ := c14_cases h
    · exact refused hr
    · exact same rfl
  | c18 => exact same (c18_controls h).cb
  | c19 =>
    cases h
    apply same
    unfold ipcLoad
    split <;> rfl
  | c20 =>
    obtain hr | ⟨-, rfl⟩ := c20_cases h
    · exact refused hr
    · exact ⟨rfl, fun _ => rfl, fun hne => absurd (by decide) hne,
        fun hne => absurd (by decide) hne⟩
  | c21 =>
    obtain hr | ⟨-, rfl⟩ := c21_cases h
    · exact refused hr
    · exact ⟨rfl, fun _ => rfl, fun hne => absurd (by decide) hne,
        fun hne => absurd (by decide) hne⟩
  | c22 => exact (c22_buffers h).work.frame _
  | c23 => exact (c23_buffers h).work.frame _
  | c24 => exact (c24_buffers h).work.frame _
  | c25 =>
    cases h
    apply same
    unfold ipcSave
    split <;> rfl
  | c27 => exact (c27_buffers h).work.frame _
  | c28 => exact (c28_buffers h).work.frame _
  | c29 =>
    obtain ⟨-, sch, rfl⟩ := c29_cases h
    exact ⟨rfl, fun hne => absurd (by decide) hne, fun _ => rfl, fun _ => rfl⟩
  | c30 =>
    obtain hr | ⟨-, -, rfl⟩ := c30_cases h
    · exact refused hr
    · exact ⟨rfl, fun _ => rfl, fun hne => absurd (by decide) hne, fun _ => rfl⟩
  | c31 =>
    obtain ⟨-, sch, rfl⟩ := c31_cases h
    exact ⟨rfl, fun hne => absurd (by decide) hne, fun _ => rfl, fun _ => rfl⟩
  | c32 =>
    cases h
    exact ⟨rfl, fun _ => rfl, fun hne => absurd (by decide) hne, fun _ => rfl⟩
  | c33 =>
    cases h
    exact ⟨rfl, fun _ => rfl, fun _ => rfl, fun _ => rfl⟩
  | c48 => exact same (congrArg _ (c48_cases h).2)
  | c49 => exact same (c49_controls h).cb
  | c51 =>
    obtain ⟨-, rfl | ⟨tplLib, tplIndex, token, t, rfl⟩⟩ := c51_cases h
    · exact same rfl
    · exact ⟨rfl, fun _ => rfl, fun _ => rfl, fun _ => rfl⟩
  | c61 =>
    cases h
    exact ⟨rfl, fun _ => rfl, fun _ => rfl, fun _ => rfl⟩
  | c68 =>
    obtain hr | ⟨-, -, s, -, rfl⟩ := c68_cases h
    · exact refused hr
    · exact ⟨rfl, fun _ => rfl, fun _ => rfl, fun hne => absurd (by decide) hne⟩
  | c69 =>
    obtain hr | ⟨-, token, bs, rfl⟩ := c69_cases h
    · exact refused hr
    · exact ⟨rfl, fun _ => rfl, fun _ => rfl, fun _ => rfl⟩
  | c70 =>
    obtain hr | ⟨-, token, description, rfl⟩ := c70_cases h
    · exact refused hr
    · exact ⟨rfl, fun _ => rfl, fun _ => rfl, fun _ => rfl⟩
  | c71 =>
    cases h
    exact ⟨rfl, fun _ => rfl, fun _ => rfl, fun _ => rfl⟩
  | c72 =>
    cases h
    exact ⟨rfl, fun _ => rfl, fun _ => rfl, fun _ => rfl⟩
  | c73 => exact same (c73_cb h)
  | c75 =>
    obtain ⟨w₁, h₁, h⟩ := bind_eq_ok.1 h
    cases h
    exact same (World.onChannel_cb h₁)
  | c76 =>
    obtain ⟨w₁, h₁, h⟩ := bind_eq_ok.1 h
    cases h
    exact same (World.onChannel_cb h₁)
  | _ =>
    cases h
    exact same rfl

end PconTng
