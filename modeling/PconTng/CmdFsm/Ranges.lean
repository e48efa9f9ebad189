import PconTng.CmdFsm.Frame
import PconTng.Foundations.Run

/-!
# The ranges of the working channel and day

The user may type any tokens, and reset the command processor in between; other programs may write
to shared memory at any time. The routines that index the data of the channels run in state 1,
which is entered by choosing a channel, and one of them, `c_12`, in state 0. The working channel
and day then are in range, provided that no number is accepted by `c_4` or `c_29` that is not a
channel, that `c_12` does not run on "all channels", and that no hour or minute is accepted with
so many digits that its text runs over into the working day.
-/

namespace PconTng.Ranges

open CMemory CArray CmdFsm

/-- The routines that use the working channel as an index. -/
def indexing : List Act := [.c5, .c9, .c10, .c11, .c12, .c18, .c49, .c75, .c76]

/-- What happens to the command processor. -/
inductive Input
  | token (t : Token)
  | reset
  | outside (ipc : IpcDat)

/-- The memory of the command processor, and whether the working day was last set by `*`. -/
structure State where
  w : World
  dayStar : Bool

/-- Whether the working day was last set by `*` after the token in the buffer: `c_32` sets it so,
`c_30` to a number if it accepts the number. -/
def dayStarAfter (w : World) (star : Bool) : Bool :=
  match dispatch w with
  | .ok (_, some (_, .c32)) => true
  | .ok (w, some (_, .c30)) =>
    if w.cb.tokenValue > 0 ∧ w.cb.tokenValue < daysPerWeek + 1 then false else star
  | _ => star

inductive Step : State → Input → State → Prop
  | token {s : State} {t : Token} {w : World} (env : Env) (h : cmdFsm env (s.w.feed t) = .ok w) :
      Step s (.token t) ⟨w, dayStarAfter (s.w.feed t) s.dayStar⟩
  | reset {s : State} : Step s .reset ⟨s.w.setCb (cmdFsmReset s.w.cb), s.dayStar⟩
  | outside {s : State} {ipc : IpcDat} :
      Step s (.outside ipc) ⟨{ s.w with ipc := ipc }, s.dayStar⟩

/-- The control block is zeroed but for the working schedule. -/
def Initial (s : State) : Prop :=
  (∃ sch, s.w.cb = { CmdFsmCb.zero with wSch := sch }) ∧ s.dayStar = false

/-- The routine `act` is about to run on `w`, because of the input `i`. -/
def Runs (s : State) (i : Input) (act : Act) (w : World) : Prop :=
  ∃ t index, i = .token t ∧ dispatch (s.w.feed t) = .ok (w, some (index, act))

/-- What is asked of the tokens: `c_4` and `c_29` accept the numbers of channels only, `c_12` does
not run with all channels as the working channel, and the texts of an hour and a minute that are
accepted stop before the working day. -/
def Proper (s : State) (i : Input) : Prop :=
  ∀ act w, Runs s i act w →
    (act = .c4 → 0 ≤ w.cb.tokenValue) ∧
    (act = .c29 → 0 ≤ w.cb.tokenValue ∧ w.cb.tokenValue < numberOfChannels) ∧
    (act = .c12 → w.cb.wChannel ≠ allChannels) ∧
    (act = .c20 → 0 ≤ w.cb.tokenValue ∧ w.cb.tokenValue ≤ 23 → w.cb.token.bytes.length ≤ 4) ∧
    (act = .c21 → 0 ≤ w.cb.tokenValue ∧ w.cb.tokenValue ≤ 59 → w.cb.token.bytes.length ≤ 12)

/-- The working day is a day of the week, or "all days" set by `*`. -/
def DayOk (day : ℤ) (star : Bool) : Prop :=
  0 ≤ day ∧ day < daysPerWeek ∨ day = allDays ∧ star = true

/-- The control block with which a routine calls `load_wsch`. -/
def wschCall (act : Act) (cb : CmdFsmCb) : Option CmdFsmCb :=
  match act with
  | .c29 => some { cb with wChannel := cb.tokenValue }
  | .c31 => some { cb with wChannel := allChannels }
  | _ => none

/-- The indices are in range when a routine runs, and "all" has been typed as `*`, the keyword
with number 1. -/
def Safe (s : State) (i : Input) : Prop :=
  ∀ act w, Runs s i act w →
    (act ∈ indexing → 0 ≤ w.cb.wChannel ∧ w.cb.wChannel < numberOfChannels) ∧
    (∀ cb, wschCall act w.cb = some cb →
      (0 ≤ cb.wChannel ∧ cb.wChannel < numberOfChannels ∨
        cb.wChannel = allChannels ∧ w.cb.tokenType = 1) ∧ DayOk cb.wDay s.dayStar) ∧
    (act = .c32 → w.cb.tokenType = 1)

/-! ## The tables -/

/-- What matters of an entry of the tables, in row `i` and column `s`: where the routines run that
use the working channel, set it or set "all", and that the state 21 is never entered and the states
1 to 3 are entered from state 0 only, by `c_4`. -/
def EntryOk (i s new : ℕ) (act : Act) : Prop :=
  (act ∈ indexing → s = 1 ∨ s = 21 ∨ s = 0 ∧ act = .c12) ∧
  (act = .c31 ∨ act = .c32 → i = 1) ∧
  (act ∈ [Act.c4, .c29, .c31] → s ∉ [1, 2, 3]) ∧
  (act = .c7 ∨ act = .c8 ∨ (new = 21 → s = 21) ∧
    (new ∈ [1, 2, 3] → s ∈ [1, 2, 3, 21] ∨ act = .c4))

instance (i s new : ℕ) (act : Act) : Decidable (EntryOk i s new act) :=
  inferInstanceAs (Decidable (_ ∧ _ ∧ _ ∧ _))

theorem entryOk : ∀ (i : Fin cmdTokens) (s : Fin cmdStates),
    EntryOk i s ((cmdNewState.get i).get s) ((cmdAction.get i).get s) :=
  forall_entries (by decide +kernel)

/-! ## What a routine makes of the working channel and day -/

variable {env : Env} {w w' : World} {ret : ℤ} {act : Act}

/-- The state that follows when a routine has done its work. -/
theorem new_state {i : Fin cmdTokens} {st : Fin cmdStates} {index : ℤ} {old new : ℕ}
    (hact : (cmdAction.get i).get st = act) (hrun : act.run env w = .ok (w', 0))
    (hindex : index = i.val) (hold : old = st.val)
    (hnew : entry cmdNewState index old = .ok new) :
    (new = 21 → st.val = 21) ∧ (new ∈ [1, 2, 3] → st.val ∈ [1, 2, 3, 21] ∨ act = .c4) := by
  obtain ⟨i', st', hi', hst', rfl⟩ := entry_eq_ok hnew
  obtain rfl : i' = i := Fin.ext (by omega)
  obtain rfl : st' = st := Fin.ext (by omega)
  have hfail : act ≠ .c7 ∧ act ≠ .c8 := by
    constructor <;> rintro rfl <;> cases hrun
  rcases (entryOk i' st').2.2.2 with h7 | h8 | ⟨hn21, hn123⟩
  · exact absurd (hact.symm.trans h7) hfail.1
  · exact absurd (hact.symm.trans h8) hfail.2
  · rw [hact] at hn123
    exact ⟨hn21, hn123⟩

theorem c4_accepts (h : c4 w = .ok (w', 0)) :
    w'.cb.wChannel = w.cb.tokenValue ∧ w.cb.tokenValue < numberOfChannels := by
  obtain ⟨hr, -⟩ | ⟨-, hlt, rfl⟩ := c4_cases h
  · simp at hr
  · exact ⟨rfl, hlt⟩

theorem wChannel_after (h : act.run env w = .ok (w', ret)) :
    w'.cb.wChannel = w.cb.wChannel ∨
      act = .c4 ∧ w'.cb.wChannel = w.cb.tokenValue ∧ w.cb.tokenValue < numberOfChannels ∨
      act = .c29 ∧ w'.cb.wChannel = w.cb.tokenValue ∨
      act = .c31 ∧ w'.cb.wChannel = allChannels := by
  by_cases hact : act ∈ [Act.c4, .c29, .c31]
  · simp only [List.mem_cons, List.not_mem_nil, or_false] at hact
    rcases hact with rfl | rfl | rfl
    · obtain ⟨-, rfl⟩ | ⟨-, hlt, rfl⟩ := c4_cases h
      · exact .inl rfl
      · exact .inr (.inl ⟨rfl, rfl, hlt⟩)
    · obtain ⟨-, s, rfl⟩ := c29_cases h
      exact .inr (.inr (.inl ⟨rfl, rfl⟩))
    · obtain ⟨-, s, rfl⟩ := c31_cases h
      exact .inr (.inr (.inr ⟨rfl, rfl⟩))
  · exact .inl ((run_frame h).wChannel hact)

/-- A routine keeps the working channel in range. -/
theorem channel_after (h : act.run env w = .ok (w', ret))
    (h4 : act = .c4 → 0 ≤ w.cb.tokenValue)
    (h29 : act = .c29 → 0 ≤ w.cb.tokenValue ∧ w.cb.tokenValue < numberOfChannels)
    (hchannel : 0 ≤ w.cb.wChannel ∧ w.cb.wChannel < numberOfChannels ∨
      w.cb.wChannel = allChannels) :
    0 ≤ w'.cb.wChannel ∧ w'.cb.wChannel < numberOfChannels ∨ w'.cb.wChannel = allChannels := by
  rcases wChannel_after h with he | ⟨hc, he, hlt⟩ | ⟨hc, he⟩ | ⟨-, he⟩
  · rw [he]
    exact hchannel
  · exact .inl (he ▸ ⟨h4 hc, hlt⟩)
  · exact .inl (he ▸ h29 hc)
  · exact .inr he

/-- The hour and the minute leave a day alone or make it the first one. -/
theorem wDay_after_text (h : act.run env w = .ok (w', ret)) (h0 : 0 ≤ w.cb.wDay)
    (hn : w.cb.wDay < 256)
    (htext :
      act = .c20 ∧ (0 ≤ w.cb.tokenValue ∧ w.cb.tokenValue ≤ 23 → w.cb.token.bytes.length ≤ 4) ∨
      act = .c21 ∧ (0 ≤ w.cb.tokenValue ∧ w.cb.tokenValue ≤ 59 → w.cb.token.bytes.length ≤ 12)) :
    w'.cb.wDay = w.cb.wDay ∨ w'.cb.wDay = 0 := by
  rcases htext with ⟨rfl, hlen⟩ | ⟨rfl, hlen⟩
  · obtain ⟨-, rfl⟩ | ⟨rfl, rfl⟩ := c20_cases h
    · exact .inl rfl
    · simp only [World.setCb, pokeHoursStr_wDay]
      exact pokeInt_drop (hlen (c20_accepts h)) h0 hn
  · obtain ⟨-, rfl⟩ | ⟨rfl, rfl⟩ := c21_cases h
    · exact .inl rfl
    · simp only [World.setCb, pokeMinutesStr_wDay]
      exact pokeInt_drop (hlen (c21_accepts h)) h0 hn

theorem dayStarAfter_of_dispatch {w₁ : World} {index : ℤ} (star : Bool)
    (h : dispatch w = .ok (w₁, some (index, act))) :
    dayStarAfter w star =
      if act = .c32 then true
      else if act = .c30 ∧ w₁.cb.tokenValue > 0 ∧ w₁.cb.tokenValue < daysPerWeek + 1 then false
      else star := by
  unfold dayStarAfter
  rw [h]
  cases act <;> simp

/-- A routine keeps the working day in order. -/
theorem dayOk_after {w₁ : World} {index : ℤ} {star : Bool}
    (hd : dispatch w = .ok (w₁, some (index, act))) (h : act.run env w₁ = .ok (w', ret))
    (h20 : act = .c20 → 0 ≤ w₁.cb.tokenValue ∧ w₁.cb.tokenValue ≤ 23 →
      w₁.cb.token.bytes.length ≤ 4)
    (h21 : act = .c21 → 0 ≤ w₁.cb.tokenValue ∧ w₁.cb.tokenValue ≤ 59 →
      w₁.cb.token.bytes.length ≤ 12) (hday : DayOk w₁.cb.wDay star) :
    DayOk w'.cb.wDay (dayStarAfter w star) := by
  rw [dayStarAfter_of_dispatch star hd]
  by_cases hact : act ∈ [Act.c20, .c21, .c30, .c32]
  · simp only [List.mem_cons, List.not_mem_nil, or_false] at hact
    -- the day of the control block before, as a number that fits a byte
    have hbyte : 0 ≤ w₁.cb.wDay ∧ w₁.cb.wDay < 256 := by
      rcases hday with ⟨h0, hn⟩ | ⟨hall, -⟩
      · exact ⟨h0, hn.trans (by decide)⟩
      · rw [hall]
        decide
    have htext : w'.cb.wDay = w₁.cb.wDay ∨ w'.cb.wDay = 0 → DayOk w'.cb.wDay star := by
      rintro (he | he)
      · exact he ▸ hday
      · exact .inl (by rw [he]; decide)
    rcases hact with rfl | rfl | rfl | rfl
    · exact htext (wDay_after_text h hbyte.1 hbyte.2 (.inl ⟨rfl, h20 rfl⟩))
    · exact htext (wDay_after_text h hbyte.1 hbyte.2 (.inr ⟨rfl, h21 rfl⟩))
    · change c30 w₁ = _ at h
      unfold c30 at h
      split_ifs at h with hv <;> cases h
      · rw [if_neg (by decide), if_pos ⟨rfl, hv⟩]
        simp only [daysPerWeek, Nat.cast_ofNat] at hv
        refine .inl ⟨?_, ?_⟩ <;> simp only [World.setCb, daysPerWeek, Nat.cast_ofNat] <;> omega
      · rw [if_neg (by decide), if_neg fun he => hv he.2]
        exact hday
    · cases h
      rw [if_pos rfl]
      exact .inr ⟨rfl, rfl⟩
  · rw [(run_frame h).wDay hact, if_neg (by rintro rfl; simp at hact),
      if_neg (by rintro ⟨rfl, -⟩; simp at hact)]
    exact hday

/-! ## The invariant -/

/-- The working channel is in range where it may be used, and the working day is in order. -/
structure Inv (s : State) : Prop where
  reachable : s.w.cb.state ≠ 21
  chosen : s.w.cb.state ∈ [1, 2, 3] → 0 ≤ s.w.cb.wChannel ∧ s.w.cb.wChannel < numberOfChannels
  channel : 0 ≤ s.w.cb.wChannel ∧ s.w.cb.wChannel < numberOfChannels ∨
    s.w.cb.wChannel = allChannels
  day : DayOk s.w.cb.wDay s.dayStar

theorem Inv.of_initial {s : State} (h : Initial s) : Inv s := by
  obtain ⟨⟨sch, hcb⟩, -⟩ := h
  have hzero : 0 ≤ CmdFsmCb.zero.wChannel ∧ CmdFsmCb.zero.wChannel < numberOfChannels := by decide
  have hday : 0 ≤ CmdFsmCb.zero.wDay ∧ CmdFsmCb.zero.wDay < daysPerWeek := by decide
  refine ⟨?_, ?_, ?_, .inl ?_⟩ <;> rw [hcb]
  · exact show 0 ≠ 21 by decide
  · exact fun _ => hzero
  · exact .inl hzero
  · exact hday

/-- **What is in range when a routine runs.** -/
theorem Inv.safe {s : State} {i : Input} (hs : Inv s) (hi : Proper s i) : Safe s i := by
  rintro act w hrun
  obtain ⟨h4, h29, h12, -, -⟩ := hi act w hrun
  obtain ⟨t, index, rfl, hd⟩ := hrun
  obtain ⟨token, tt, value, rfl, hentry⟩ := dispatch_cases hd
  obtain ⟨⟨i, st, hi, hst, hact⟩, htt⟩ := hentry index act rfl
  replace hst : s.w.cb.state = st.val := hst
  have hrow : act = .c31 ∨ act = .c32 → tt = 1 := by
    intro hall
    have hi1 := (entryOk i st).2.1 (hact ▸ hall)
    rw [hi, hi1] at htt
    exact htt (by decide)
  refine ⟨fun hindex => ?_, fun cb hcb => ⟨?_, ?_⟩, fun h32 => hrow (.inr h32)⟩
  · rcases (entryOk i st).1 (hact ▸ hindex) with h1 | h21 | ⟨-, h⟩
    · exact hs.chosen (by rw [hst, h1]; decide)
    · exact absurd (hst.trans h21) hs.reachable
    · exact hs.channel.resolve_right (h12 (hact ▸ h))
  · cases act <;> cases hcb
    · exact .inl (h29 rfl)
    · exact .inr ⟨rfl, hrow (.inl rfl)⟩
  · cases act <;> cases hcb <;> exact hs.day

theorem Inv.step {s s' : State} {i : Input} (hs : Inv s) (hi : Proper s i)
    (h : Step s i s') : Inv s' := by
  cases h with
  | reset =>
    exact ⟨show 0 ≠ 21 by decide, fun h => absurd (show 0 ∈ [1, 2, 3] from h) (by decide),
      hs.channel, hs.day⟩
  | outside => exact ⟨hs.reachable, hs.chosen, hs.channel, hs.day⟩
  | @token t w' env h =>
    rcases cmdFsm_cases h with hd | ⟨w₁, index, act, w₂, ret, hd, hrun, hret⟩
    · -- an empty token
      have hstar : dayStarAfter (s.w.feed t) s.dayStar = s.dayStar := by
        unfold dayStarAfter
        rw [hd]
      obtain ⟨token, tt, value, rfl, -⟩ := dispatch_cases hd
      exact ⟨hs.reachable, hs.chosen, hs.channel, (congrArg (DayOk _) hstar).mpr hs.day⟩
    · obtain ⟨h4, h29, h12, h20, h21⟩ := hi act w₁ ⟨t, index, rfl, hd⟩
      obtain ⟨token, tt, value, hw₁, hentry⟩ := dispatch_cases hd
      obtain ⟨⟨i, st, hindex, hst, hact⟩, -⟩ := hentry index act rfl
      have hstate : w₂.cb.state = st.val := by
        rw [(run_frame hrun).state, hw₁]
        exact hst
      have hchannel₁ : w₁.cb.wChannel = s.w.cb.wChannel := by
        rw [hw₁]
        rfl
      have hday : DayOk w₂.cb.wDay (dayStarAfter (s.w.feed t) s.dayStar) :=
        dayOk_after hd hrun h20 h21 (by rw [hw₁]; exact hs.day)
      have hchannel : 0 ≤ w₂.cb.wChannel ∧ w₂.cb.wChannel < numberOfChannels ∨
          w₂.cb.wChannel = allChannels :=
        channel_after hrun h4 h29 (by rw [hchannel₁]; exact hs.channel)
      -- a routine that runs in the states 1 to 3 leaves the channel alone
      have hkeep : st.val ∈ [1, 2, 3] →
          0 ≤ w₂.cb.wChannel ∧ w₂.cb.wChannel < numberOfChannels := by
        intro hmem
        have hne : act ∉ [Act.c4, .c29, .c31] := fun h =>
          (entryOk i st).2.2.1 (hact ▸ h) hmem
        rw [(run_frame hrun).wChannel hne, hchannel₁]
        exact hs.chosen ((show s.w.cb.state = st.val from hst) ▸ hmem)
      have hold : st.val ≠ 21 := (show s.w.cb.state = st.val from hst) ▸ hs.reachable
      rcases hret with ⟨rfl, state, hnew, rfl⟩ | ⟨rfl, rfl⟩ | ⟨rfl, rfl⟩
      · obtain ⟨hn21, hn123⟩ := new_state hact hrun hindex hstate hnew
        refine ⟨fun h => hold (hn21 h), fun hmem => ?_, hchannel, hday⟩
        rcases hn123 hmem with hst | rfl
        · apply hkeep
          simp only [List.mem_cons, List.not_mem_nil, or_false] at hst ⊢
          omega
        · obtain ⟨he, hlt⟩ := c4_accepts hrun
          exact he ▸ ⟨h4 rfl, hlt⟩
      · exact ⟨by simpa [World.setCb, hstate] using hold,
          fun hmem => hkeep (by simpa [World.setCb, hstate] using hmem), hchannel, hday⟩
      · exact ⟨hstate ▸ hold, fun hmem => hkeep (hstate ▸ hmem), hchannel, hday⟩

/-- **The working channel and day are in range.** From a zeroed control block, as long as all
inputs are proper, the indices are in range at every run of a routine, also of one that does not
return. -/
theorem ranges_safe {s t : State} {tr : List (State × Input)} (h0 : Initial s)
    (h : Path Step s tr t) (hproper : ∀ x ∈ tr, Proper x.1 x.2) :
    (∀ x ∈ tr, Safe x.1 x.2) ∧ ∀ i, Proper t i → Safe t i := by
  have hinv := h.invariant (I := Inv) (C := Proper) (fun _ _ _ hs hi h => hs.step hi h)
    (.of_initial h0) hproper
  exact ⟨fun x hx => (hinv.1 x hx).safe (hproper x hx), fun i hi => hinv.2.safe hi⟩

/-- The memory before the first token. -/
def zeroed : State := ⟨World.zero, false⟩

def minusFive : Token := ⟨str "-5", by decide, by decide⟩

/-- The memory after a number has been typed as the channel. -/
def typed (t : Token) (k : ℤ) : State :=
  ⟨⟨{ CmdFsmCb.zero with
      state := 1, token := t, tokenType := ttInt, tokenValue := k, wChannel := k },
    IpcDat.zero, [], none⟩, false⟩

/-- What runs for the token "on" once a channel has been typed. -/
theorem dispatch_on (t : Token) (k : ℤ) : ∃ w, w.cb.wChannel = k ∧
    dispatch ((typed t k).w.feed .on) = .ok (w, some (12, .c9)) :=
  ⟨_, rfl, rfl⟩

theorem proper_five : Proper zeroed (.token .five) := by
  rintro act w ⟨t, index, ht, hd⟩
  cases ht
  cases hd
  exact ⟨fun _ => by decide, fun h => (by cases h), fun h => (by cases h), fun h => (by cases h),
    fun h => (by cases h)⟩

theorem proper_on (t : Token) (k : ℤ) : Proper (typed t k) (.token .on) := by
  rintro act w ⟨t, index, ht, hd⟩
  cases ht
  cases hd
  exact ⟨fun h => (by cases h), fun h => (by cases h), fun h => (by cases h),
    fun h => (by cases h), fun h => (by cases h)⟩

/-- Channel 5 is typed and switched on. -/
theorem ranges_safe_five : Safe (typed .five 5) (.token .on) := by
  have hrun : Path Step zeroed [(zeroed, .token .five)] (typed .five 5) :=
    .cons (.token .calm rfl) (.nil _)
  exact (ranges_safe ⟨⟨_, rfl⟩, rfl⟩ hrun (by simpa using proper_five)).2 _ (proper_on .five 5)

/-- The number -5 is accepted as a channel, and `c_9` then runs on it. -/
theorem ranges_broken : ¬ ∀ (s t : State) (tr : List (State × Input)) (i : Input),
    Initial s → Path Step s tr t → Safe t i := by
  intro hall
  have hrun : Path Step zeroed [(zeroed, .token minusFive)] (typed minusFive (-5)) :=
    .cons (.token .calm rfl) (.nil _)
  obtain ⟨w, hw, hd⟩ := dispatch_on minusFive (-5)
  have hsafe := hall zeroed _ _ (.token .on) ⟨⟨_, rfl⟩, rfl⟩ hrun .c9 w ⟨.on, 12, rfl, hd⟩
  have hrange := hsafe.1 (by decide)
  rw [hw] at hrange
  exact absurd hrange.1 (by decide)

end PconTng.Ranges
