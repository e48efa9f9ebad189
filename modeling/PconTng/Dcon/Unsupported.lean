import PconTng.Dcon.Pins

/-!
# Channels in an unsupported mode

For a channel in mode 3 or in a bad mode `update_relays` logs an error, and then stores the local
variable `state` as it is. It holds what was found for the channel before, so what such a channel
gets is decided by the last channel before it in a supported mode (`unsupported_kept_iff`).
-/

namespace PconTng

/-- Channel `k` is the last one before channel `c` in a supported mode. -/
def LastSupported (ipc : IpcDat) (c k : Fin numberOfChannels) : Prop :=
  k < c ∧ Supported ipc k ∧ ∀ j, k < j → j < c → ¬ Supported ipc j

section

variable {ipc : IpcDat} {n : ℕ}

theorem source_eq_some {k : Fin numberOfChannels} (h : source ipc n = some k) :
    k.val < n ∧ Supported ipc k ∧ ∀ j : Fin numberOfChannels, k < j → j.val < n →
      ¬ Supported ipc j := by
  induction n with
  | zero => cases h
  | succ n ih =>
    by_cases hn : n < numberOfChannels ∧ ∃ hn, Supported ipc ⟨n, hn⟩
    · obtain ⟨hlt, _, hs⟩ := hn
      simp only [source, dif_pos hlt, if_pos hs] at h
      cases h
      refine ⟨Nat.lt_succ_self n, hs, fun j hj hjn => absurd hj ?_⟩
      rw [Fin.lt_def]
      dsimp only
      omega
    · have hsource : source ipc n = some k := by
        simp only [source] at h
        split_ifs at h with hlt hs
        · exact absurd ⟨hlt, hlt, hs⟩ hn
        · exact h
        · exact h
      obtain ⟨hkn, hs, hbetween⟩ := ih hsource
      refine ⟨by omega, hs, fun j hj hjn hsup => ?_⟩
      rcases Nat.lt_succ_iff_lt_or_eq.1 hjn with hlt | rfl
      · exact hbetween j hj hlt hsup
      · exact hn ⟨j.isLt, j.isLt, hsup⟩

theorem source_eq_none (h : source ipc n = none) (j : Fin numberOfChannels) (hj : j.val < n) :
    ¬ Supported ipc j := by
  induction n with
  | zero => exact absurd hj (Nat.not_lt_zero _)
  | succ n ih =>
    simp only [source] at h
    split_ifs at h with hlt hs
    · rcases Nat.lt_succ_iff_lt_or_eq.1 hj with hj | rfl
      · exact ih h hj
      · exact hs
    · exact ih h (by have := j.isLt; omega)

theorem source_of_not_supported {c : Fin numberOfChannels} (h : ¬ Supported ipc c) :
    source ipc (c + 1) = source ipc c := by
  simp only [source, dif_pos c.isLt, if_neg h]

/-- The last channel in a supported mode is unique. -/
theorem lastSupported_unique {c k k' : Fin numberOfChannels} (h : LastSupported ipc c k)
    (h' : LastSupported ipc c k') : k = k' := by
  rcases lt_trichotomy k k' with hlt | heq | hlt
  · exact absurd h'.2.1 (h.2.2 k' hlt h'.1)
  · exact heq
  · exact absurd h.2.1 (h'.2.2 k hlt h.1)

end

variable (stray : Stray) (garbage hold : ℤ) (tm : Tm) (ipc : IpcDat) (pins : ℕ → ℤ)

/-- What an unsupported channel gets. -/
theorem asked_of_not_supported {c : Fin numberOfChannels} (h : ¬ Supported ipc c) (x : ℤ) :
    asked stray garbage hold tm ipc c = x ↔
      (∀ k, LastSupported ipc c k → wanted stray hold tm ipc k = x) ∧
      ((∀ k < c, ¬ Supported ipc k) → garbage = x) := by
  unfold asked
  rw [source_of_not_supported h]
  cases hsource : source ipc c with
  | none =>
    have hnone : ∀ k < c, ¬ Supported ipc k := source_eq_none hsource
    exact ⟨fun hx => ⟨fun k hk => absurd hk.2.1 (hnone k hk.1), fun _ => hx⟩, fun hx => hx.2 hnone⟩
  | some k =>
    have hk : LastSupported ipc c k := source_eq_some hsource
    constructor
    · rintro rfl
      exact ⟨fun k' hk' => by rw [lastSupported_unique hk' hk],
        fun hnone => absurd hk.2.1 (hnone k hk.1)⟩
    · exact fun hx => hx.1 k hk

/-- **When unsupported channels are left alone.** A pass completes and leaves the states of all
channels in unsupported modes as they were exactly when its numbers fit an `int` and each of these
channels is in the state that the last channel before it in a supported mode asks for, or that the
local variable happens to hold at the start if there is no such channel. -/
theorem unsupported_kept_iff :
    (∃ r, updateRelaysInt stray garbage hold tm ipc pins = .ok r ∧ ∀ c, ¬ Supported ipc c →
      (r.1.sysData.cData.get c).state = (ipc.sysData.cData.get c).state) ↔
    InRange stray tm ipc hold ∧ ∀ c, ¬ Supported ipc c →
      (∀ k, LastSupported ipc c k →
        wanted stray hold tm ipc k = (ipc.sysData.cData.get c).state) ∧
      ((∀ k < c, ¬ Supported ipc k) → garbage = (ipc.sysData.cData.get c).state) := by
  refine (updateRelaysInt_post_iff pins).trans (and_congr_right fun _ => ?_)
  refine forall_congr' fun c => forall_congr' fun hc => ?_
  rw [updateRelays_state, asked_of_not_supported stray garbage hold tm ipc hc]

/-- Shared memory with other data for a channel. -/
def withChannel (ipc : IpcDat) (c : Fin numberOfChannels) (d : ChnDat) : IpcDat :=
  { ipc with sysData := { ipc.sysData with cData := ipc.sysData.cData.set c d c.isLt } }

/-- Channel 0 switched on by hand, and channel 1 off in cycle mode. -/
def cycling : IpcDat :=
  withChannel (withChannel IpcDat.zero 0 { ChnDat.zero with state := 1 }) 1
    { ChnDat.zero with mode := 3 }

/-- Channel 1 is then switched on. -/
theorem unsupported_not_kept : ¬ ∀ (stray : Stray) (garbage hold : ℤ) (tm : Tm) (ipc : IpcDat)
    (pins : ℕ → ℤ) (r : IpcDat × ℤ × (ℕ → ℤ)) (c : Fin numberOfChannels),
    updateRelaysInt stray garbage hold tm ipc pins = .ok r → ¬ Supported ipc c →
      (r.1.sysData.cData.get c).state = (ipc.sysData.cData.get c).state := by
  intro hall
  let stray : Stray := ⟨fun _ _ _ => SRec.zero, fun _ _ => 0⟩
  have hrun := @updateRelaysInt_eq stray ⟨0, 0, 0⟩ cycling 0 0 fun _ => 0
  rw [if_pos (by decide)] at hrun
  have h := hall _ _ _ _ _ _ _ 1 hrun (by decide)
  rw [updateRelays_state] at h
  exact absurd h (by decide)

end PconTng
