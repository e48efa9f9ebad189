import PconTng.CmdFsm.Frame
import PconTng.CmdFsm.Session

/-!
# Rejected commands

A routine that does not return 0 has changed nothing (`run_ret`), and `cmdFsm` then changes nothing
but the token that it has read and, if 1 was returned, the queue. The two branches of `cmdFsm` that
abort the program, for a row out of range and for a return value other than 0, 1 and 2, are never
taken: not by any token in any state that a run can reach.
-/

namespace PconTng

open CMemory CArray CmdFsm

/-! ## Runs of the command processor -/

/-- What happens to the command processor: it is given a token, a line is put into the queue, it
is reset, or another program writes to shared memory. -/
inductive Event
  | token (env : Env) (t : Token)
  | line (queue : List Token)
  | reset
  | outside (ipc : IpcDat)

namespace World

inductive Step : World → Event → World → Prop
  | token {w w' : World} {env : Env} {t : Token} (h : cmdFsm env (w.feed t) = .ok w') :
      Step w (.token env t) w'
  | line {w : World} {queue : List Token} : Step w (.line queue) { w with queue := queue }
  | reset {w : World} : Step w .reset (w.setCb (cmdFsmReset w.cb))
  | outside {w : World} {ipc : IpcDat} : Step w (.outside ipc) { w with ipc := ipc }

end World

/-! ## What a routine returns -/

/-- If the routine returns, it returns 0. -/
def Succeeds (x : Except Stop (World × ℤ)) : Prop := ∀ w ret, x = .ok (w, ret) → ret = 0

theorem Succeeds.ok (w : World) : Succeeds (.ok (w, 0)) := by
  intro w' ret h
  cases h
  rfl

theorem Succeeds.error (e : Stop) : Succeeds (.error e) := by
  intro w ret h
  cases h

theorem Succeeds.bind {α : Type} {x : Except Stop α} {f : α → Except Stop (World × ℤ)}
    (h : ∀ a, Succeeds (f a)) : Succeeds (x >>= f) := by
  intro w ret hw
  obtain ⟨a, -, hf⟩ := bind_eq_ok.1 hw
  exact h a w ret hf

namespace CmdFsm

theorem c5_succeeds (w : World) : Succeeds (c5 w) := by
  unfold c5
  exact .bind fun _ => .bind fun _ => .ok _

end CmdFsm

variable {env : Env} {act : Act} {w w' : World} {ret : ℤ}

/-- **The return value of every routine.** -/
theorem run_ret (h : act.run env w = .ok (w', ret)) : ret = 0 ∨ Refused w w' ret := by
  have succeeds : Succeeds (act.run env w) → ret = 0 ∨ Refused w w' ret := fun hs =>
    .inl (hs w' ret h)
  have refuses {P : Prop} : Refused w w' ret ∨ (ret = 0 ∧ P) → ret = 0 ∨ Refused w w' ret :=
    fun hc => hc.symm.imp_left And.left
  cases act with
  | c4 => exact refuses (c4_cases h)
  | c7 =>
    cases h
    exact .inr (.one w)
  | c8 =>
    cases h
    exact .inr (.one w)
  | c14 => exact refuses (c14_cases h)
  | c20 => exact refuses (c20_cases h)
  | c21 => exact refuses (c21_cases h)
  | c30 => exact refuses (c30_cases h)
  | c68 => exact refuses (c68_cases h)
  | c69 => exact refuses (c69_cases h)
  | c70 => exact refuses (c70_cases h)
  | c3 => exact succeeds (.error _)
  | c5 => exact succeeds (c5_succeeds w)
  | c9 => exact .inl (setControl_controls h).1
  | c10 => exact .inl (setControl_controls h).1
  | c11 => exact .inl (setControl_controls h).1
  | c12 => exact .inl (setControl_controls h).1
  | c18 => exact .inl (c18_controls h).1
  | c22 => exact .inl (c22_buffers h).1
  | c23 => exact .inl (c23_buffers h).1
  | c24 => exact .inl (c24_buffers h).1
  | c27 => exact .inl (c27_buffers h).1
  | c28 => exact .inl (c28_buffers h).1
  | c29 => exact .inl (c29_cases h).1
  | c31 => exact .inl (c31_cases h).1
  | c48 => exact .inl (c48_cases h).1
  | c49 => exact .inl (c49_controls h).1
  | c51 => exact .inl (c51_cases h).1
  | c73 => exact succeeds (.bind fun _ => .ok _)
  | c75 => exact succeeds (.bind fun _ => .ok _)
  | c76 => exact succeeds (.bind fun _ => .ok _)
  | _ => exact succeeds (.ok _)

/-! ## What a token that is rejected does -/

/-- After a routine has refused, only the token and what was read from it have changed, and the
queue is empty if the routine returned 1. -/
theorem cmdFsm_of_refused {w₁ w₂ : World} {index : ℤ}
    (hd : dispatch w = .ok (w₁, some (index, act))) (hrun : act.run env w₁ = .ok (w₂, ret))
    (hret : ret ≠ 0) :
    ∃ w', cmdFsm env w = .ok w' ∧
      (∃ token tt value, w'.cb =
        { w.cb with token := token, tokenType := tt, tokenValue := value }) ∧
      w'.ipc = w.ipc ∧ w'.bkup = w.bkup ∧ (ret = 1 → w'.queue = []) := by
  obtain ⟨token, tt, value, rfl, -⟩ := dispatch_cases hd
  obtain ⟨hr, rfl⟩ := (run_ret hrun).resolve_left hret
  unfold cmdFsm
  simp only [hd, bind, Except.bind, hrun]
  rcases hr with rfl | rfl
  · exact ⟨_, rfl, ⟨Token.empty, tt, value, rfl⟩, rfl, rfl, fun _ => rfl⟩
  · exact ⟨_, rfl, ⟨token, tt, value, rfl⟩, rfl, rfl, fun h => absurd h (by decide)⟩

/-! ## The tables are never left -/

theorem readToken_row {cb cb' : CmdFsmCb} {i : ℤ} (h : readToken cb = .ok (cb', some i)) :
    0 ≤ i ∧ i < cmdTokens := by
  have hmem := tokenType_mem cb.token
  simp only [List.mem_cons, List.not_mem_nil, or_false, ttInt, ttStr, ttUnrec, ttNull] at hmem
  simp only [readToken, ttInt, ttStr, ttUnrec, ttNull] at h
  split_ifs at h <;> cases h <;> first | decide | omega

theorem entry_of_lt {α : Type} (table : Vector (Vector α cmdStates) cmdTokens) {index : ℤ}
    {state : ℕ} (h0 : 0 ≤ index) (hi : index < cmdTokens) (hs : state < cmdStates) :
    ∃ x, entry table index state = .ok x := by
  obtain ⟨i, rfl⟩ := Int.eq_ofNat_of_zero_le h0
  have hi' : i < cmdTokens := Int.ofNat_lt.1 hi
  refine ⟨table[i][state], ?_⟩
  unfold entry
  simp only [load_natCast table hi', bind, Except.bind]
  exact load_natCast _ hs

theorem cmdNewState_lt : ∀ (i : Fin cmdTokens) (s : Fin cmdStates),
    (cmdNewState.get i).get s < cmdStates :=
  forall_entries (P := fun _ _ new _ => new < cmdStates) (by decide +kernel)

/-- Every token is found in the tables. -/
theorem dispatch_ok (h : w.cb.state < cmdStates) (t : Token) :
    ∃ w₁ r, dispatch (w.feed t) = .ok (w₁, r) := by
  have hread := readToken_feed w t
  unfold dispatch
  simp only [hread, bind, Except.bind]
  cases hrow : tokenRow (tokenType t).2 with
  | none => exact ⟨_, _, rfl⟩
  | some i =>
    rw [hrow] at hread
    obtain ⟨h0, hlt⟩ := readToken_row hread
    have hs : (w.read t).cb.state < cmdStates := h
    obtain ⟨act, hact⟩ := entry_of_lt cmdAction h0 hlt hs
    simp only [hact]
    exact ⟨_, _, rfl⟩

/-- Neither of the branches that abort the program is taken for a token: its row and routine are
found, and a routine that returns returns 0, 1 or 2. -/
def NoAbort (w : World) : Prop :=
  ∀ t, ∃ w₁ r, dispatch (w.feed t) = .ok (w₁, r) ∧
    ∀ index act, r = some (index, act) → ∀ env w₂ ret, act.run env w₁ = .ok (w₂, ret) →
      ret = 0 ∨ ret = 1 ∨ ret = 2

theorem noAbort_of_lt (h : w.cb.state < cmdStates) : NoAbort w := by
  intro t
  obtain ⟨w₁, r, hd⟩ := dispatch_ok h t
  refine ⟨w₁, r, hd, fun index act _ env w₂ ret hrun => ?_⟩
  rcases run_ret hrun with h0 | ⟨hr, -⟩
  · exact .inl h0
  · exact .inr hr

theorem World.Step.state_lt {e : Event} (h : World.Step w e w') (hw : w.cb.state < cmdStates) :
    w'.cb.state < cmdStates := by
  cases h with
  | line => exact hw
  | outside => exact hw
  | reset => exact Nat.succ_pos _
  | token h =>
    rcases cmdFsm_cases h with hd | ⟨w₁, index, act, w₂, ret, hd, hrun, hret⟩
    · obtain ⟨token, tt, value, rfl, -⟩ := dispatch_cases hd
      exact hw
    · obtain ⟨token, tt, value, rfl, -⟩ := dispatch_cases hd
      have hstate : w₂.cb.state < cmdStates := by
        rw [(run_frame hrun).state]
        exact hw
      rcases hret with ⟨-, state, hnew, rfl⟩ | ⟨-, rfl⟩ | ⟨-, rfl⟩
      · obtain ⟨i, s, -, -, rfl⟩ := entry_eq_ok hnew
        exact cmdNewState_lt i s
      · exact hstate
      · exact hstate

/-- **Rejected commands change nothing**, and no run from a reset comes to an abort. -/
theorem rejected_changes_nothing :
    (∀ (env : Env) (w w₁ w₂ : World) (index : ℤ) (act : Act) (ret : ℤ),
      dispatch w = .ok (w₁, some (index, act)) → act.run env w₁ = .ok (w₂, ret) → ret ≠ 0 →
      ∃ w', cmdFsm env w = .ok w' ∧
        (∃ token tt value, w'.cb =
          { w.cb with token := token, tokenType := tt, tokenValue := value }) ∧
        w'.ipc = w.ipc ∧ w'.bkup = w.bkup ∧ (ret = 1 → w'.queue = [])) ∧
    (∀ (w w' : World) (tr : List (World × Event)),
      Path World.Step (w.setCb (cmdFsmReset w.cb)) tr w' →
        w'.cb.state < cmdStates ∧ NoAbort w') := by
  refine ⟨fun env w w₁ w₂ index act ret hd hrun hret => cmdFsm_of_refused hd hrun hret,
    fun w w' tr h => ?_⟩
  have hlt : w'.cb.state < cmdStates := (h.invariant (I := fun w => w.cb.state < cmdStates)
    (C := fun _ _ => True) (fun _ _ _ hw _ hstep => hstep.state_lt hw) (Nat.succ_pos _)
    (fun _ _ => trivial)).2
  exact ⟨hlt, noAbort_of_lt hlt⟩

def sixteen : Token := ⟨str "16", by decide, by decide⟩

/-- The number 16 is refused as a channel, and the token behind it is dropped. -/
theorem rejected_sixteen : ∃ w,
    cmdFsm .calm ({ World.zero with queue := [.on] }.feed sixteen) = .ok w ∧
    w.ipc = IpcDat.zero ∧ w.queue = [] ∧
    NoAbort (World.zero.setCb (cmdFsmReset World.zero.cb)) := by
  obtain ⟨w, hw, -, hipc, -, hqueue⟩ := rejected_changes_nothing.1 .calm
    ({ World.zero with queue := [.on] }.feed sixteen) _ _ 35 .c4 1 rfl rfl (by decide)
  exact ⟨w, hw, hipc, hqueue rfl, (rejected_changes_nothing.2 World.zero _ _ (.nil _)).2⟩

end PconTng
