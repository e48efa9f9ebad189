import PconTng.CmdFsm.Ranges
import PconTng.CmdFsm.Rejected

/-!
# The selected channel

A channel is selected by typing its number in state 0. The routines that change the data of a
channel change the working channel (`run_channels`) and run after it has been selected
(`channel_selected`). There are three exceptions (`not_selected`): `c_19` loads all of shared memory
from the backup file, `c_12` also stands in the table for state 0, where it changes the channel that
was selected last, and `c_5` runs over into the channels behind the working one when the name is
too long.
-/

namespace PconTng

open CMemory CArray CmdFsm

/-- The data of the channels. -/
abbrev World.channels (w : World) : Vector ChnDat numberOfChannels := w.ipc.sysData.cData

/-- In the memory `w` the token is accepted by `c_4` as the number `k` of a channel. -/
def Chooses (w : World) (t : Token) (k : ℤ) : Prop :=
  ∃ w₁ index, dispatch (w.feed t) = .ok (w₁, some (index, .c4)) ∧ w₁.cb.tokenValue = k ∧
    k < numberOfChannels

/-- Along the run `tr`, which ends in `w`, state 0 was left for the last time by selecting channel
`k`. -/
def SelectedAt (tr : List (World × Event)) (w : World) (k : ℤ) : Prop :=
  ∃ pre w₀ env t post, tr = pre ++ (w₀, .token env t) :: post ∧ w₀.cb.state = 0 ∧ Chooses w₀ t k ∧
    (∀ x ∈ post, x.1.cb.state ≠ 0) ∧ w.cb.state ≠ 0

/-- In every run from a reset, a routine that runs under the condition `C` changes the data of
selected channels only. -/
def OnlySelected (C : World → Act → Prop) : Prop :=
  ∀ (w w' : World) (tr : List (World × Event)),
    Path World.Step (w.setCb (cmdFsmReset w.cb)) tr w' →
      ∀ env t w₁ index act w₂ ret, dispatch (w'.feed t) = .ok (w₁, some (index, act)) →
        C w₁ act → act.run env w₁ = .ok (w₂, ret) →
          ∀ k : Fin numberOfChannels, w₂.channels.get k ≠ w'.channels.get k → SelectedAt tr w' k

/-- The routine does not load the backup file, `c_12` does not run in state 0, and the name that
`c_5` stores does not run over into the next channel. -/
def Ordinary (w : World) (act : Act) : Prop :=
  act ≠ .c19 ∧ (act = .c12 → w.cb.state ≠ 0) ∧
    (act = .c5 → w.cb.token.dequote.bytes.length ≤ channelNameSize + 3)

/-! ## What a routine does to the channels -/

theorem store_get {α : Type} {n : ℕ} {a b : Vector α n} {i : ℤ} {x : α}
    (h : store a i x = .ok b) {k : Fin n} (hk : i ≠ k.val) : b.get k = a.get k := by
  obtain ⟨hi, h0, rfl⟩ := store_eq_ok h
  exact Vector.getElem_set_ne _ _ (by omega)

variable {env : Env} {act : Act} {w w' : World} {ret : ℤ}

/-- Only the working channel has changed. -/
def OnlyWorking (w w' : World) : Prop :=
  ∀ k : Fin numberOfChannels, w.cb.wChannel ≠ k.val → w'.channels.get k = w.channels.get k

theorem OnlyWorking.same (h : w'.channels = w.channels) : OnlyWorking w w' := fun k _ => by rw [h]

theorem World.onChannel_only {f : ChnDat → ChnDat} (h : w.onChannel f = .ok w') :
    OnlyWorking w w' := by
  obtain ⟨c, -, h⟩ := bind_eq_ok.1 h
  obtain ⟨cData, hstore, h⟩ := bind_eq_ok.1 h
  cases h
  exact fun k hk => store_get hstore hk

theorem pokeChn_nil (c : ChnDat) : pokeChn c [] = (c, []) := by
  cases c
  simp [pokeChn, pokeName, pokeStr]

theorem World.channels_setCb (w : World) (cb : CmdFsmCb) : (w.setCb cb).channels = w.channels := rfl

/-- Nothing runs over. -/
theorem pokeChannels_nil (k : ℤ) (cData : Vector ChnDat numberOfChannels) :
    pokeChannels k cData [] = (cData, []) := by
  refine foldl_finRange_invariant (fun _ x => x = (cData, [])) ?_ rfl
  rintro i x rfl
  dsimp only
  split
  · rfl
  · simp [pokeChn_nil]

namespace CmdFsm

theorem c5_only (hname : w.cb.token.dequote.bytes.length ≤ channelNameSize + 3)
    (h : c5 w = .ok (w', ret)) : OnlyWorking w w' := by
  obtain ⟨c, -, h⟩ := bind_eq_ok.1 h
  obtain ⟨cData, hstore, h⟩ := bind_eq_ok.1 h
  cases h
  intro k hk
  have hrest : (pokeName c (w.cb.token.dequote.bytes ++ [0])).2 = [] := by
    simp only [pokeName, pokeStr, pokeInt_rest, List.drop_drop]
    apply List.drop_eq_nil_of_le
    rw [List.length_append, List.length_singleton]
    omega
  change (pokeChannels w.cb.wChannel cData
    (pokeName c (w.cb.token.dequote.bytes ++ [0])).2).1.get k = _
  rw [hrest, pokeChannels_nil]
  exact store_get hstore hk

end CmdFsm

theorem Controls.only {f : ChnDat → ChnDat} (h : Controls f w w' ret) : OnlyWorking w w' := by
  obtain ⟨-, w₁, sDat, h₁, rfl⟩ := h
  have honly := World.onChannel_only h₁
  exact fun k hk => honly k hk

theorem Buffers.same (h : Buffers w w' ret) : w'.channels = w.channels := by
  obtain ⟨-, t, rfl⟩ := h
  exact World.channels_setCb _ _

/-- **What a routine does to the channels.** -/
theorem run_channels (h : act.run env w = .ok (w', ret)) (hact : act ≠ .c19)
    (hname : act = .c5 → w.cb.token.dequote.bytes.length ≤ channelNameSize + 3) :
    OnlyWorking w w' ∧ (act ∈ Ranges.indexing ∨ w'.channels = w.channels) := by
  have working (hmem : act ∈ Ranges.indexing) (honly : OnlyWorking w w') :
      OnlyWorking w w' ∧ (act ∈ Ranges.indexing ∨ w'.channels = w.channels) :=
    ⟨honly, .inl hmem⟩
  have same (he : w'.channels = w.channels) :
      OnlyWorking w w' ∧ (act ∈ Ranges.indexing ∨ w'.channels = w.channels) := ⟨.same he, .inr he⟩
  have refused (hr : Refused w w' ret) :
      OnlyWorking w w' ∧ (act ∈ Ranges.indexing ∨ w'.channels = w.channels) :=
    same (congrArg World.channels hr.2)
  cases act with
  | c19 => exact absurd rfl hact
  | c5 => exact working (by decide) (c5_only (hname rfl) h)
  | c9 => exact working (by decide) (setControl_controls h).only
  | c10 => exact working (by decide) (setControl_controls h).only
  | c11 => exact working (by decide) (setControl_controls h).only
  | c12 => exact working (by decide) (setControl_controls h).only
  | c18 => exact working (by decide) (c18_controls h).only
  | c49 => exact working (by decide) (c49_controls h).only
  | c75 =>
    obtain ⟨w₁, h₁, h⟩ := bind_eq_ok.1 h
    cases h
    exact working (by decide) (World.onChannel_only h₁)
  | c76 =>
    obtain ⟨w₁, h₁, h⟩ := bind_eq_ok.1 h
    cases h
    exact working (by decide) (World.onChannel_only h₁)
  | c3 => cases h
  | c4 =>
    obtain hr | ⟨-, -, rfl⟩ := c4_cases h
    · exact refused hr
    · exact same (World.channels_setCb _ _)
  | c14 =>
    obtain hr | ⟨-, tplLib, tplIndex, rfl⟩ := c14_cases h
    · exact refused hr
    · exact same rfl
  | c20 =>
    obtain hr | ⟨-, rfl⟩ := c20_cases h
    · exact refused hr
    · exact same (World.channels_setCb _ _)
  | c21 =>
    obtain hr | ⟨-, rfl⟩ := c21_cases h
    · exact refused hr
    · exact same (World.channels_setCb _ _)
  | c22 => exact same (c22_buffers h).same
  | c23 => exact same (c23_buffers h).same
  | c24 => exact same (c24_buffers h).same
  | c25 =>
    cases h
    apply same
    unfold ipcSave
    split <;> rfl
  | c27 => exact same (c27_buffers h).same
  | c28 => exact same (c28_buffers h).same
  | c29 =>
    obtain ⟨-, sch, rfl⟩ := c29_cases h
    exact same (World.channels_setCb _ _)
  | c30 =>
    obtain hr | ⟨-, -, rfl⟩ := c30_cases h
    · exact refused hr
    · exact same (World.channels_setCb _ _)
  | c31 =>
    obtain ⟨-, sch, rfl⟩ := c31_cases h
    exact same (World.channels_setCb _ _)
  | c48 => exact same (congrArg World.channels (c48_cases h).2)
  | c51 =>
    obtain ⟨-, rfl | ⟨tplLib, tplIndex, token, t, rfl⟩⟩ := c51_cases h
    · exact same rfl
    · exact same (World.channels_setCb _ _)
  | c68 =>
    obtain hr | ⟨-, -, s, -, rfl⟩ := c68_cases h
    · exact refused hr
    · exact same (World.channels_setCb _ _)
  | c69 =>
    obtain hr | ⟨-, token, bs, rfl⟩ := c69_cases h
    · exact refused hr
    · exact same (World.channels_setCb _ _)
  | c70 =>
    obtain hr | ⟨-, token, description, rfl⟩ := c70_cases h
    · exact refused hr
    · exact same (World.channels_setCb _ _)
  | c73 =>
    obtain ⟨sDat, -, h⟩ := bind_eq_ok.1 h
    cases h
    exact same rfl
  | c33 =>
    cases h
    exact same (World.channels_setCb _ _)
  | c61 =>
    cases h
    exact same (World.channels_setCb _ _)
  | _ =>
    cases h
    exact same rfl

/-! ## The last selection -/

theorem state_of_c4 : ∀ (i : Fin cmdTokens) (s : Fin cmdStates),
    (cmdAction.get i).get s = .c4 → s.val = 0 :=
  forall_entries (P := fun _ s _ act => act = .c4 → s = 0) (by decide +kernel)

/-- In the states 1 to 3 the working channel is the selected one, and state 21 is not reached. -/
structure Held (tr : List (World × Event)) (w : World) : Prop where
  reachable : w.cb.state ≠ 21
  selected : w.cb.state ∈ [1, 2, 3] → SelectedAt tr w w.cb.wChannel

/-- A selection lasts until state 0 is reached. -/
theorem SelectedAt.step {tr : List (World × Event)} {e : Event} {k : ℤ}
    (h : SelectedAt tr w k) (hw' : w'.cb.state ≠ 0) : SelectedAt (tr ++ [(w, e)]) w' k := by
  obtain ⟨pre, w₀, env, t, post, rfl, hzero, hchoose, hpost, hw⟩ := h
  refine ⟨pre, w₀, env, t, post ++ [(w, e)], by simp, hzero, hchoose, ?_, hw'⟩
  intro x hx
  rcases List.mem_append.1 hx with hx | hx
  · exact hpost x hx
  · rw [List.mem_singleton.1 hx]
    exact hw

theorem ne_zero_of_mem {n : ℕ} (h : n ∈ [1, 2, 3]) : n ≠ 0 := by
  rintro rfl
  exact absurd h (by decide)

/-- A step that keeps the state and the working channel. -/
theorem Held.keep {tr : List (World × Event)} {e : Event} (hw : Held tr w)
    (hstate : w'.cb.state = w.cb.state)
    (hchannel : w.cb.state ∈ [1, 2, 3] → w'.cb.wChannel = w.cb.wChannel) :
    Held (tr ++ [(w, e)]) w' := by
  refine ⟨hstate ▸ hw.reachable, fun hmem => ?_⟩
  rw [hstate] at hmem
  rw [hchannel hmem]
  exact (hw.selected hmem).step (hstate ▸ ne_zero_of_mem hmem)

theorem Held.step {tr : List (World × Event)} {e : Event} (hw : Held tr w)
    (h : World.Step w e w') : Held (tr ++ [(w, e)]) w' := by
  cases h with
  | line => exact hw.keep rfl fun _ => rfl
  | outside => exact hw.keep rfl fun _ => rfl
  | reset => exact ⟨show 0 ≠ 21 by decide, fun h => absurd (show 0 ∈ [1, 2, 3] from h) (by decide)⟩
  | @token _ env t h =>
    rcases cmdFsm_cases h with hd | ⟨w₁, index, act, w₂, ret, hd, hrun, hret⟩
    · -- an empty token
      obtain ⟨token, tt, value, rfl, -⟩ := dispatch_cases hd
      exact hw.keep rfl fun _ => rfl
    · obtain ⟨token, tt, value, hw₁, hentry⟩ := dispatch_cases hd
      obtain ⟨⟨i, st, hindex, hst, hact⟩, -⟩ := hentry index act rfl
      replace hst : w.cb.state = st.val := hst
      have hstate : w₂.cb.state = w.cb.state := by
        rw [(run_frame hrun).state, hw₁]
        rfl
      have hchannel : w.cb.state ∈ [1, 2, 3] → w₂.cb.wChannel = w.cb.wChannel := by
        intro hmem
        rw [(run_frame hrun).wChannel, hw₁]
        · rfl
        · exact fun h => (Ranges.entryOk i st).2.2.1 (hact ▸ h) (hst ▸ hmem)
      rcases hret with ⟨rfl, state, hnew, rfl⟩ | ⟨rfl, rfl⟩ | ⟨rfl, rfl⟩
      · obtain ⟨hn21, hn123⟩ := Ranges.new_state hact hrun hindex (hstate.trans hst) hnew
        refine ⟨fun h => hw.reachable (hst.trans (hn21 h)), fun hmem => ?_⟩
        have hne := ne_zero_of_mem hmem
        rcases hn123 hmem with hold | rfl
        · have hold' : w.cb.state ∈ [1, 2, 3] := by
            have h21 := hw.reachable
            simp only [List.mem_cons, List.not_mem_nil, or_false] at hold ⊢
            omega
          have hselected := (hw.selected hold').step (e := .token env t) hne
          rw [← hchannel hold'] at hselected
          exact hselected
        · -- the channel is selected now
          obtain ⟨he, hlt⟩ := Ranges.c4_accepts hrun
          refine ⟨tr, w, env, t, [], rfl, hst.trans (state_of_c4 i st hact),
            ⟨w₁, index, hd, he.symm, ?_⟩, List.forall_mem_nil _, hne⟩
          exact he ▸ hlt
      · exact hw.keep hstate hchannel
      · exact hw.keep hstate hchannel

theorem Held.path {tr tr' : List (World × Event)} (h : Path World.Step w tr' w')
    (hw : Held tr w) : Held (tr ++ tr') w' := by
  induction h generalizing tr with
  | nil w => simpa using hw
  | cons hstep _ ih => simpa using ih (hw.step hstep)

theorem held_reset (w : World) : Held [] (w.setCb (cmdFsmReset w.cb)) :=
  ⟨show 0 ≠ 21 by decide, fun h => absurd (show 0 ∈ [1, 2, 3] from h) (by decide)⟩

/-- **Commands act on the selected channel.** -/
theorem channel_selected : OnlySelected Ordinary := by
  intro w w' tr hrun env t w₁ index act w₂ ret hd hordinary hact k hchange
  obtain ⟨hne, h12, h5⟩ := hordinary
  have hheld : Held tr w' := by simpa using (held_reset w).path hrun
  obtain ⟨token, tt, value, rfl, hentry⟩ := dispatch_cases hd
  obtain ⟨⟨i, st, hindex, hst, hact'⟩, -⟩ := hentry index act rfl
  obtain ⟨honly, hsame⟩ := run_channels hact hne h5
  -- the working channel has changed
  have hk : w'.cb.wChannel = k.val := by
    by_contra hne
    exact hchange (honly k hne)
  have hindexing : act ∈ Ranges.indexing :=
    hsame.resolve_right fun he => hchange (by rw [he]; rfl)
  rcases (Ranges.entryOk i st).1 (hact' ▸ hindexing) with h1 | h21 | ⟨h0, hc12⟩
  · rw [← hk]
    apply hheld.selected
    rw [show w'.cb.state = st.val from hst, h1]
    decide
  · exact absurd (hst.trans h21) hheld.reachable
  · exact absurd (hst.trans h0) (h12 (hact'.symm.trans hc12))

/-- The memory after channel 5 has been typed. -/
def fiveTyped : World := (Ranges.typed .five 5).w

theorem path_five : Path World.Step (World.zero.setCb (cmdFsmReset World.zero.cb))
    [(World.zero, .token .calm .five)] fiveTyped :=
  .cons (.token rfl) (.nil _)

/-- Channel 5 is typed and switched on. -/
theorem channel_selected_five :
    SelectedAt [(World.zero, .token .calm .five)] fiveTyped (5 : Fin numberOfChannels).val := by
  refine channel_selected World.zero fiveTyped _ path_five .calm .on _ 12 .c9 _ 0 rfl ?_ rfl 5 ?_
  · exact ⟨by decide, fun h => (by cases h), fun h => (by cases h)⟩
  · decide

/-! ## The exceptions -/

namespace Selection

def sensor : Token := ⟨str "sensor", by decide, by decide⟩

def schedule : Token := ⟨str "schedule", by decide, by decide⟩

def load : Token := ⟨str "load", by decide, by decide⟩

def ipc : Token := ⟨str "ipc", by decide, by decide⟩

/-- A name of 25 characters in quotes. -/
def longName : Token := ⟨quote :: List.replicate 25 97 ++ [quote], by decide, by decide⟩

/-- A memory with a backup file in which all channels are hidden. -/
def hidden : World :=
  { World.zero with bkup := some fun ipc => { ipc with sysData := { ipc.sysData with
      cData := .replicate _ { ChnDat.zero with hide := 1 } } } }

end Selection

/-- `c_12` runs on channel 0, which nothing has selected. -/
theorem c12_not_selected : ¬ OnlySelected fun _ act => act = .c12 := by
  intro hall
  obtain ⟨pre, w₀, env, t, post, htr, -⟩ := hall World.zero _ [] (.nil _) .calm
    Selection.sensor _ 17 .c12 _ 0 rfl rfl rfl 0 (by decide)
  simp at htr

/-- Channel 5 gets a name that runs over into channel 6. -/
theorem c5_not_selected : ¬ OnlySelected fun _ act => act = .c5 := by
  intro hall
  obtain ⟨pre, w₀, env, t, post, htr, -, ⟨w₁, index, hd, hvalue, -⟩, -⟩ := hall World.zero fiveTyped
    _ path_five .calm Selection.longName _ 36 .c5 _ 0 rfl rfl rfl 6 (by decide)
  cases pre with
  | nil =>
    cases htr
    cases hd
    exact absurd hvalue (by decide)
  | cons x pre => simp at htr

/-- `c_19` loads all channels, and nothing has been selected. -/
theorem c19_not_selected : ¬ OnlySelected fun _ act => act = .c19 := by
  intro hall
  obtain ⟨pre, w₀, env, t, post, htr, hzero, ⟨w₁, index, hd, -⟩, -⟩ := hall
    Selection.hidden _ _ (.cons (a := .token .calm Selection.schedule) (.token rfl)
      (.cons (a := .token .calm Selection.load) (.token rfl) (.nil _)))
    .calm Selection.ipc _ 19 .c19 _ 0 rfl rfl rfl 0 (by decide)
  cases pre with
  | nil =>
    cases htr
    cases hd
  | cons x pre =>
    cases pre with
    | nil =>
      cases htr
      exact absurd hzero (by decide)
    | cons y pre => simp at htr

/-- Each of the three routines changes channels that have not been selected. -/
theorem not_selected : ¬ OnlySelected (fun _ _ => True) ∧ ¬ OnlySelected (fun _ act => act = .c19) ∧
    ¬ OnlySelected (fun _ act => act = .c12) ∧ ¬ OnlySelected fun _ act => act = .c5 := by
  refine ⟨fun hall => c12_not_selected ?_, c19_not_selected, c12_not_selected, c5_not_selected⟩
  intro w w' tr hrun env t w₁ index act w₂ ret hd _
  exact hall w w' tr hrun env t w₁ index act w₂ ret hd trivial

end PconTng
