import PconTng.CmdFsm.Reach
import PconTng.Dcon.Pins
import PconTng.Pcon.Console

/-!
# From the keyboard to a relay

A line of two words, the number of a channel and "on" or "off", goes through all parts of the
system: it is typed and edited at the console, cut into its tokens, carried out by the command
processor on shared memory, and read from there by the daemon, whose passes drive the pin of the
channel (`keys_switch`).
-/

namespace PconTng.Switch

open CMemory CArray CmdFsm LineEditor Cursor Console

/-! ## The two commands -/

/-- Shared memory after channel `c` has been switched by hand. -/
def switched (ipc : IpcDat) (c : Fin numberOfChannels) (state : ℤ) : IpcDat :=
  { ipc with
    forceUpdate := 1
    sysData := { ipc.sysData with
      cData := ipc.sysData.cData.set c
        { ipc.sysData.cData.get c with mode := 0, state := state } c.isLt } }

variable {w : World} {t u : Token} {c : Fin numberOfChannels} {v : Bool}

/-- The number of a channel in the first state selects it. -/
theorem cmdFsm_number (env : Env) (hs : w.cb.state = 0) (hint : (tokenType t).2 = ttInt)
    (hc : t.value = c.val) : ∃ w', cmdFsm env (w.feed t) = .ok w' ∧ w'.cb.state = 1 ∧
      w'.cb.wChannel = c.val ∧ w'.ipc = w.ipc ∧ w'.queue = w.queue ∧ w'.bkup = w.bkup := by
  have hvalue : (w.read t).cb.tokenValue = c.val := by
    simp only [World.read, World.setCb, hint]
    exact hc
  have hlt : (w.read t).cb.tokenValue < numberOfChannels := by
    rw [hvalue]
    exact Int.ofNat_lt.2 c.isLt
  have hrow : tokenRow (tokenType t).2 = some (((35 : Fin cmdTokens).val : ℕ) : ℤ) := by
    rw [hint]
    rfl
  have hrun : ((cmdAction.get 35).get 0).run env (w.read t) = .ok ((w.read t).setCb
      { (w.read t).cb with wChannel := (w.read t).cb.tokenValue, wMinutes := 0, wHours := 0 }, 0) :=
    if_pos hlt
  exact ⟨_, cmdFsm_entry (s := 0) hs hrow hrun, rfl, hvalue, rfl, rfl, rfl⟩

/-- "on" or "off" switches the channel that is selected. -/
theorem cmdFsm_onOff (env : Env) (hs : w.cb.state = 1) (hw : w.cb.wChannel = c.val)
    (hu : (tokenType u).2 = if v then 12 else 13) :
    ∃ w', cmdFsm env (w.feed u) = .ok w' ∧ w'.cb.state = 0 ∧
      w'.ipc = switched w.ipc c (if v then 1 else 0) ∧ w'.queue = w.queue ∧ w'.bkup = w.bkup := by
  have hcontrol : ∀ state : ℤ, setControl 0 state (w.read u) =
      .ok ({ w.read u with ipc := switched w.ipc c state }, 0) := fun state => by
    have hk : (w.read u).cb.wChannel = c.val := hw
    simp only [setControl, World.onChannel_eq hk, bind, Except.bind]
    rfl
  cases v with
  | true =>
    have hrow : tokenRow (tokenType u).2 = some (((12 : Fin cmdTokens).val : ℕ) : ℤ) := by
      rw [hu]
      rfl
    exact ⟨_, cmdFsm_entry (s := 1) hs hrow (hcontrol 1), rfl, rfl, rfl, rfl⟩
  | false =>
    have hrow : tokenRow (tokenType u).2 = some (((13 : Fin cmdTokens).val : ℕ) : ℤ) := by
      rw [hu]
      rfl
    exact ⟨_, cmdFsm_entry (s := 1) hs hrow (hcontrol 0), rfl, rfl, rfl, rfl⟩

/-- The line of the two commands. -/
theorem runTokens_switch (envs : ℕ → Env) (n : ℕ) (hs : w.cb.state = 0)
    (hint : (tokenType t).2 = ttInt) (hc : t.value = c.val)
    (hu : (tokenType u).2 = if v then 12 else 13) :
    ∃ w', runTokens envs w n [t, u] = .ok (w', n + 2) ∧ w'.cb.state = 0 ∧
      w'.ipc = switched w.ipc c (if v then 1 else 0) := by
  obtain ⟨w₁, hw₁, hs₁, hk₁, hipc₁, hqueue₁, -⟩ := cmdFsm_number (envs n)
    (w := { w with queue := [u] }) hs hint hc
  obtain ⟨w₂, hw₂, hs₂, hipc₂, hqueue₂, -⟩ := cmdFsm_onOff (envs (n + 1))
    (w := { w₁ with queue := [] }) hs₁ hk₁ hu
  have hfirst : cmdFsm (envs n) { w.feed t with queue := [u] } = .ok w₁ := hw₁
  have hsecond : cmdFsm (envs (n + 1)) { w₁.feed u with queue := [] } = .ok w₂ := hw₂
  refine ⟨w₂.feed Token.empty, ?_, hs₂, hipc₂.trans (congrArg (switched · c _) hipc₁)⟩
  have hqueue₁' : w₁.queue = [u] := hqueue₁
  have hqueue₂' : w₂.queue = [] := hqueue₂
  simp only [runTokens, hfirst, hsecond, bind, Except.bind, if_pos hqueue₁', if_pos hqueue₂']

/-! ## The passes of the daemon -/

/-- What a pass finds outside of what it is about: the memory around the arrays, its local variable
and the time. -/
structure Turn where
  stray : Stray
  garbage : ℤ
  tm : Tm

/-- Shared memory, the trend memory and the pins. -/
abbrev Board : Type := IpcDat × ℤ × (ℕ → ℤ)

/-- A pass of the daemon. -/
def pass (b : Board) (p : Turn) : Except Stop Board :=
  updateRelaysInt p.stray p.garbage b.2.1 p.tm b.1 b.2.2

/-- A pass that ends has found numbers that fit an `int`. -/
theorem pass_eq_ok {b b' : Board} {p : Turn} (h : pass b p = .ok b') :
    updateRelays p.stray p.garbage b.2.1 p.tm b.1 b.2.2 = b' := by
  rw [pass, updateRelaysInt_eq] at h
  split_ifs at h
  exact Except.ok.inj h

theorem exists_pass {b : Board} {p : Turn} (h : InRange p.stray p.tm b.1 b.2.1) :
    ∃ b', pass b p = .ok b' := ⟨_, (updateRelaysInt_eq _).trans (if_pos h)⟩

/-- Channel `c` is in manual mode and in the given state. -/
def Manual (c : Fin numberOfChannels) (state : ℤ) (b : Board) : Prop :=
  (b.1.sysData.cData.get c).mode = 0 ∧ (b.1.sysData.cData.get c).state = state

theorem asked_manual {stray : Stray} {garbage hold : ℤ} {tm : Tm} {ipc : IpcDat}
    (h : (ipc.sysData.cData.get c).mode = 0) :
    asked stray garbage hold tm ipc c = (ipc.sysData.cData.get c).state := by
  have hsupported : Supported ipc c := by
    rw [Supported, h]
    decide
  have hsource : source ipc (c + 1) = some c := by
    rw [source, dif_pos c.isLt, if_pos hsupported]
  unfold asked
  rw [hsource]
  exact if_pos h

/-- A pass leaves a channel in manual mode as it is, and drives its pin. -/
theorem Manual.pass {state : ℤ} {b b' : Board} (h : Manual c state b) {p : Turn}
    (hp : Switch.pass b p = .ok b') :
    Manual c state b' ∧ (c ≠ 0 → b'.2.2 (chan.get c) = level state) := by
  obtain ⟨hmode, hstate⟩ := h
  obtain rfl := pass_eq_ok hp
  refine ⟨⟨?_, ?_⟩, fun hc => ?_⟩
  · rw [updateRelays_cData]
    exact hmode
  · rw [updateRelays_state, asked_manual hmode, hstate]
  · rw [updateRelays_pin, lastWriter, if_neg hc, asked_manual hmode, hstate]

theorem Manual.passes {state : ℤ} {b b' : Board} (h : Manual c state b) {ps : List Turn}
    (hps : ps.foldlM Switch.pass b = .ok b') : Manual c state b' ∧
      (ps ≠ [] → c ≠ 0 → b'.2.2 (chan.get c) = level state) := by
  induction ps generalizing b with
  | nil =>
    obtain rfl : b = b' := Except.ok.inj hps
    exact ⟨h, fun hne => absurd rfl hne⟩
  | cons p ps ih =>
    rw [List.foldlM_cons] at hps
    obtain ⟨b₁, hp, hps⟩ := bind_eq_ok.1 hps
    obtain ⟨hmanual₁, hpin⟩ := h.pass hp
    obtain ⟨hmanual, hpins⟩ := ih hmanual₁ hps
    refine ⟨hmanual, fun _ hc => ?_⟩
    by_cases hnil : ps = []
    · subst hnil
      obtain rfl : b₁ = b' := Except.ok.inj hps
      exact hpin hc
    · exact hpins hnil hc

/-! ## From the keyboard to the relay -/

/-- **From the keyboard to a relay.** In any session that has come to the first state with an empty
line, a line is typed, and edited in any way, whose tokens are the number of a channel and "on" or
"off". Then the command is carried out, the command processor is back in the first state, no other
channel has changed, and from the next pass of the daemon on, as long as no number of a pass leaves
the range of an `int`, the channel has its new state, as has its pin if it is one of its own. -/
theorem keys_switch (stray : ℤ → Row) (envs : ℕ → Env) {ipc : IpcDat} {bkup : Option Backup}
    {before : List Key} {s : Console.State}
    (hs : before.foldlM (key stray envs) (.start ipc bkup) = .ok s) (hblank : Blank s.editor)
    (hstate : s.world.cb.state = 0) {es : List (Edit Insertable)} (ht : Typable es)
    (htokens : CharFsm.lineTokens (typed es) = [t.bytes, u.bytes])
    (hint : (tokenType t).2 = ttInt) (hc : t.value = c.val)
    (hu : (tokenType u).2 = if v then 12 else 13) :
    ∃ s', (keys es).foldlM (key stray envs) s = .ok s' ∧ s'.world.cb.state = 0 ∧
      s'.world.ipc = switched s.world.ipc c (if v then 1 else 0) ∧
      ∀ (hold : ℤ) (pins : ℕ → ℤ) (ps : List Turn) (b : Board),
        ps.foldlM pass (s'.world.ipc, hold, pins) = .ok b →
          Manual c (if v then 1 else 0) b ∧
          (ps ≠ [] → c ≠ 0 → b.2.2 (chan.get c) = if v then 1 else 0) := by
  obtain ⟨w, hrun, hzero, hipc⟩ := runTokens_switch envs s.taken hstate hint hc hu
  have hmeans : ((keys es).foldlM (key stray envs) s).map outcome = .ok (w, s.taken + 2) := by
    have hreceived : [t.bytes, u.bytes].mapM received = .ok [t, u] := by
      refine @mapM_received [t, u] fun x hx => ?_
      rcases List.mem_pair.1 hx with rfl | rfl
      · rw [hint]
        decide
      · rw [hu]
        cases v <;> decide
    have hprompt : prompt w = .ok () := if_neg (by rw [hzero]; decide)
    rw [(idle_run hs).line stray envs hblank ht, runLine, htokens, hreceived]
    simp only [outcome, bind, Except.bind, hrun, hprompt]
    rfl
  cases hkeys : (keys es).foldlM (key stray envs) s with
  | error e =>
    rw [hkeys] at hmeans
    cases hmeans
  | ok s' =>
    rw [hkeys] at hmeans
    have hworld : s'.world = w := congrArg Prod.fst (Except.ok.inj hmeans)
    refine ⟨s', rfl, hworld ▸ hzero, hworld ▸ hipc, fun hold pins ps b hb => ?_⟩
    have hmanual : Manual c (if v then 1 else 0) (s'.world.ipc, hold, pins) := by
      rw [hworld, hipc]
      simp [Manual, switched]
    obtain ⟨hkept, hpin⟩ := hmanual.passes hb
    refine ⟨hkept, fun hps hc0 => (hpin hps hc0).trans (level_eq ?_)⟩
    cases v
    · exact .inl rfl
    · exact .inr rfl

/-- A pass at midnight on a Sunday. -/
def midnight : Turn := ⟨⟨fun _ _ _ => SRec.zero, fun _ _ => 0⟩, 0, .midnight⟩

/-- Channel 5 is switched on at the start of the program, by the line "5 on" that is typed with its
words the other way round. -/
theorem keys_switch_five : ∃ s' b, (keys fiveOn).foldlM calmKey State.zero = .ok s' ∧
    s'.world.ipc = switched IpcDat.zero 5 1 ∧
    [midnight].foldlM pass (s'.world.ipc, 0, fun _ => 0) = .ok b ∧ b.2.2 (chan.get 5) = 1 := by
  obtain ⟨s', hs', -, hipc, hpasses⟩ := keys_switch (t := .five) (u := .on) (c := 5) (v := true)
    _ _ no_keys blank_start rfl typable_fiveOn lineTokens_fiveOn (by decide +kernel)
    (by decide +kernel) (by decide +kernel)
  have hmode : ∀ c, (s'.world.ipc.sysData.cData.get c).mode ≠ 2 := by
    rw [hipc]
    decide +kernel
  obtain ⟨b, hpass⟩ := exists_pass (b := (s'.world.ipc, 0, fun _ => 0)) (p := midnight)
    fun c h => absurd h (hmode c)
  have hb : [midnight].foldlM pass (s'.world.ipc, 0, fun _ => 0) = .ok b :=
    (bind_pure _).trans hpass
  exact ⟨s', b, hs', hipc, hb, (hpasses 0 _ _ b hb).2 (by decide) (by decide)⟩

end PconTng.Switch
