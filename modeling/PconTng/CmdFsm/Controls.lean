import PconTng.CmdFsm.Selection
import PconTng.Dcon.ForceUpdate

/-!
# The routines that do not force an update

A pass over the relays depends on the modes, the states and the schedules of the channels. The
routines that change these set `force_update`, but for the load of a backup, and a name that is too
long for its field (`run_controls`).
-/

namespace PconTng

open CMemory CArray CmdFsm ForceUpdate

/-- What the passes depend on, apart from the sensors, is the same. -/
structure SameControls (ipc ipc' : IpcDat) : Prop where
  force : ipc'.forceUpdate = ipc.forceUpdate
  sch : ipc'.sysData.sysSch = ipc.sysData.sysSch
  mode : ∀ c, (ipc'.sysData.cData.get c).mode = (ipc.sysData.cData.get c).mode
  state : ∀ c, (ipc'.sysData.cData.get c).state = (ipc.sysData.cData.get c).state

/-- The name of a channel stays inside its field. -/
def NameFits (act : Act) (w : World) : Prop :=
  act = .c5 → w.cb.token.dequote.bytes.length ≤ channelNameSize + 3

theorem SameControls.of_eq {ipc ipc' : IpcDat} (hforce : ipc'.forceUpdate = ipc.forceUpdate)
    (hsch : ipc'.sysData.sysSch = ipc.sysData.sysSch)
    (hcData : ipc'.sysData.cData = ipc.sysData.cData) : SameControls ipc ipc' :=
  ⟨hforce, hsch, fun c => by rw [hcData], fun c => by rw [hcData]⟩

variable {env : Env} {act : Act} {w w' : World} {ret : ℤ}

theorem Refused.controls (h : Refused w w' ret) : SameControls w.ipc w'.ipc := by
  obtain ⟨-, rfl⟩ := h
  exact .of_eq rfl rfl rfl

theorem Buffers.controls (h : Buffers w w' ret) : SameControls w.ipc w'.ipc := by
  obtain ⟨-, t, rfl⟩ := h
  exact .of_eq rfl rfl rfl

/-- The working channel is stored with its mode and state. -/
theorem store_controls {a b : Vector ChnDat numberOfChannels} {i : ℤ} {c c' : ChnDat}
    (hload : load a i = .ok c) (hstore : store a i c' = .ok b) (hmode : c'.mode = c.mode)
    (hstate : c'.state = c.state) (k : Fin numberOfChannels) :
    (b.get k).mode = (a.get k).mode ∧ (b.get k).state = (a.get k).state := by
  obtain ⟨hi, h0, rfl⟩ := store_eq_ok hstore
  by_cases hk : i.toNat = k.val
  · have hc : a.get k = c := by
      have hik : i = (k.val : ℤ) := by omega
      rw [hik, load_natCast _ k.isLt] at hload
      exact Except.ok.inj hload
    rw [get_eq, Vector.getElem_set, if_pos hk, hc]
    exact ⟨hmode, hstate⟩
  · rw [get_eq, Vector.getElem_set_ne _ _ hk]
    exact ⟨rfl, rfl⟩

theorem onChannel_controls {f : ChnDat → ChnDat} (h : w.onChannel f = .ok w')
    (hmode : ∀ c, (f c).mode = c.mode) (hstate : ∀ c, (f c).state = c.state) :
    SameControls w.ipc w'.ipc := by
  obtain ⟨c, hload, h⟩ := bind_eq_ok.1 h
  obtain ⟨cData, hstore, h⟩ := bind_eq_ok.1 h
  cases h
  exact ⟨rfl, rfl, fun k => (store_controls hload hstore (hmode c) (hstate c) k).1,
    fun k => (store_controls hload hstore (hmode c) (hstate c) k).2⟩

theorem c5_controls (hname : w.cb.token.dequote.bytes.length ≤ channelNameSize + 3)
    (h : c5 w = .ok (w', ret)) : SameControls w.ipc w'.ipc := by
  obtain ⟨c, hload, h⟩ := bind_eq_ok.1 h
  obtain ⟨cData, hstore, h⟩ := bind_eq_ok.1 h
  cases h
  have hrest : (pokeName c (w.cb.token.dequote.bytes ++ [0])).2 = [] := by
    simp only [pokeName, pokeStr, pokeInt_rest, List.drop_drop]
    apply List.drop_eq_nil_of_le
    rw [List.length_append, List.length_singleton]
    omega
  have hsame : (pokeChannels w.cb.wChannel cData
      (pokeName c (w.cb.token.dequote.bytes ++ [0])).2).1 = cData := by
    rw [hrest, pokeChannels_nil]
  refine ⟨rfl, rfl, fun k => ?_, fun k => ?_⟩
  · refine Eq.trans ?_ (store_controls hload hstore rfl rfl k).1
    exact congrArg (fun cData => (Vector.get cData k).mode) hsame
  · refine Eq.trans ?_ (store_controls hload hstore rfl rfl k).2
    exact congrArg (fun cData => (Vector.get cData k).state) hsame

/-- **A routine that does not force an update**, and is not the load of a backup, leaves the modes,
the states and the schedules alone. -/
theorem run_controls (hact : act ∉ forcing) (hload : act ≠ .c19) (hname : NameFits act w)
    (h : act.run env w = .ok (w', ret)) : SameControls w.ipc w'.ipc := by
  cases act with
  | c9 | c10 | c11 | c12 | c18 | c49 | c39 => exact absurd (by decide) hact
  | c19 => exact absurd rfl hload
  | c5 => exact c5_controls (hname rfl) h
  | c75 =>
    obtain ⟨w₁, h₁, h⟩ := bind_eq_ok.1 h
    cases h
    exact onChannel_controls h₁ (fun _ => rfl) fun _ => rfl
  | c76 =>
    obtain ⟨w₁, h₁, h⟩ := bind_eq_ok.1 h
    cases h
    exact onChannel_controls h₁ (fun _ => rfl) fun _ => rfl
  | c3 => cases h
  | c4 =>
    obtain hr | ⟨-, -, rfl⟩ := c4_cases h
    · exact hr.controls
    · exact .of_eq rfl rfl rfl
  | c14 =>
    obtain hr | ⟨-, tplLib, tplIndex, rfl⟩ := c14_cases h
    · exact hr.controls
    · exact .of_eq rfl rfl rfl
  | c20 =>
    obtain hr | ⟨-, rfl⟩ := c20_cases h
    · exact hr.controls
    · exact .of_eq rfl rfl rfl
  | c21 =>
    obtain hr | ⟨-, rfl⟩ := c21_cases h
    · exact hr.controls
    · exact .of_eq rfl rfl rfl
  | c22 => exact (c22_buffers h).controls
  | c23 => exact (c23_buffers h).controls
  | c24 => exact (c24_buffers h).controls
  | c25 =>
    cases h
    unfold ipcSave
    split <;> exact .of_eq rfl rfl rfl
  | c27 => exact (c27_buffers h).controls
  | c28 => exact (c28_buffers h).controls
  | c29 =>
    obtain ⟨-, sch, rfl⟩ := c29_cases h
    exact .of_eq rfl rfl rfl
  | c30 =>
    obtain hr | ⟨-, -, rfl⟩ := c30_cases h
    · exact hr.controls
    · exact .of_eq rfl rfl rfl
  | c31 =>
    obtain ⟨-, sch, rfl⟩ := c31_cases h
    exact .of_eq rfl rfl rfl
  | c48 =>
    obtain ⟨-, rfl⟩ := c48_cases h
    exact .of_eq rfl rfl rfl
  | c51 =>
    obtain ⟨-, rfl | ⟨tplLib, tplIndex, token, t, rfl⟩⟩ := c51_cases h
    · exact .of_eq rfl rfl rfl
    · exact .of_eq rfl rfl rfl
  | c68 =>
    obtain hr | ⟨-, -, s, -, rfl⟩ := c68_cases h
    · exact hr.controls
    · exact .of_eq rfl rfl rfl
  | c69 =>
    obtain hr | ⟨-, token, bs, rfl⟩ := c69_cases h
    · exact hr.controls
    · exact .of_eq rfl rfl rfl
  | c70 =>
    obtain hr | ⟨-, token, description, rfl⟩ := c70_cases h
    · exact hr.controls
    · exact .of_eq rfl rfl rfl
  | c73 =>
    obtain ⟨sDat, -, h⟩ := bind_eq_ok.1 h
    cases h
    exact .of_eq rfl rfl rfl
  | _ =>
    cases h
    exact .of_eq rfl rfl rfl

end PconTng
