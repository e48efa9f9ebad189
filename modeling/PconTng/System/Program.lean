import PconTng.CmdFsm.EndToEnd
import PconTng.System.Switch

/-!
# Programming the relays from the keyboard

A program is a sequence of phrases: a channel is put under the control of time, an entry of the
schedule buffer is written or deleted, the buffer is assigned to days and channels, the working
table replaces the active one. The phrases are made of tokens, and these are typed in lines that may
end anywhere.

The meaning of a phrase is a step of the reference machine of `EndToEnd`. Between the two stands a
machine that takes one token after the other (`Step`): the command processor follows it
(`At.step`), and every phrase is a path of it (`Phrase.leads`). From the keyboard to the relays,
every channel under the control of time then has the state that its timetable asks for
(`keys_program`).
-/

namespace PconTng.Program

open CMemory CArray CmdFsm LineEditor Cursor Console Switch
open EndToEnd (Pick Ref Follows DayIs Asks)

instance : NeZero cmdStates := ⟨by decide⟩

instance : NeZero cmdTokens := ⟨by decide⟩

/-! ## Places and plans -/

/-- Where the command processor is in the dialogue. -/
inductive Place
  | home
  | channel (c : Fin numberOfChannels)
  | schedule
  | hour
  | minute
  | set
  | day (d : Pick)

/-- The state of the command processor at a place. -/
def Place.state : Place → Fin cmdStates
  | .home => 0
  | .channel _ => 1
  | .schedule => 4
  | .set => 5
  | .hour => 8
  | .day _ => 9
  | .minute => 24

/-- What has been picked on the way to a place. -/
def Place.Picked (w : World) : Place → Prop
  | .channel c => w.cb.wChannel = c.val
  | .day d => DayIs w d
  | _ => True

/-- What has been programmed: the reference machine, and the channels under the control of time. -/
structure Plan where
  ref : Ref
  timed : Finset (Fin numberOfChannels)

/-- An operation on the time schedule. -/
def Plan.edit (p : Plan) (e : EndToEnd.Edit) : Plan := { p with ref := p.ref.step e }

/-- The number of a channel also sets the working time to midnight. -/
def Plan.midnight (p : Plan) : Plan := { p with ref := { p.ref with hour := 0, minute := 0 } }

/-- A channel is put under the control of time. -/
def Plan.time (p : Plan) (c : Fin numberOfChannels) : Plan := { p with timed := insert c p.timed }

/-- The modes of the channels under the control of time. -/
def Plan.Timed (p : Plan) (w : World) : Prop := ∀ c ∈ p.timed, (w.channels.get c).mode = 1

/-- The memory of the command processor is that of the plan, and it is at the given place. -/
structure At (a : Place) (p : Plan) (w : World) : Prop where
  state : w.cb.state = a.state
  picked : a.Picked w
  follows : Follows w p.ref
  timed : p.Timed w

/-! ## Tokens -/

/-- What is done with the entry of a time of day. -/
inductive Mark
  | on
  | off
  | delete

def Mark.row : Mark → Fin cmdTokens
  | .on => 12
  | .off => 13
  | .delete => 10

def Mark.edit : Mark → EndToEnd.Edit
  | .on => .on
  | .off => .off
  | .delete => .delete

/-- The token is in the given row of the tables. -/
def InRow (i : Fin cmdTokens) (t : Token) : Prop := tokenRow (tokenType t).2 = some (i.val : ℤ)

/-- A number between two bounds. -/
def Number (low high : ℤ) (t : Token) : Prop :=
  (tokenType t).2 = ttInt ∧ low ≤ t.value ∧ t.value ≤ high

/-- The token picks a day or a channel. -/
def Picks (low high : ℤ) (t : Token) : Pick → Prop
  | .all => InRow 1 t
  | .one u => t = u ∧ Number low high u

/-- What each token means at each place. -/
inductive Step : Place → Plan → Token → Place → Plan → Prop
  | number {p : Plan} {t : Token} {c : Fin numberOfChannels} (ht : Number c c t) :
      Step .home p t (.channel c) p.midnight
  | time {p : Plan} {t : Token} {c : Fin numberOfChannels} (ht : InRow 16 t) :
      Step (.channel c) p t .home (p.time c)
  | schedule {p : Plan} {t : Token} (ht : InRow 3 t) : Step .home p t .schedule p
  | back {p : Plan} {t : Token} (ht : InRow 28 t) : Step .schedule p t .home p
  | hour {p : Plan} {t : Token} (ht : Number 0 23 t) : Step .schedule p t .hour (p.edit (.hour t))
  | minute {p : Plan} {t : Token} (ht : Number 0 59 t) (hlen : t.bytes.length ≤ 3) :
      Step .hour p t .minute (p.edit (.minute t))
  | mark {p : Plan} {t : Token} {m : Mark} (ht : InRow m.row t) :
      Step .minute p t .schedule (p.edit m.edit)
  | clear {p : Plan} {t : Token} (ht : InRow 14 t) : Step .schedule p t .schedule (p.edit .clear)
  | replace {p : Plan} {t : Token} (ht : InRow 8 t) : Step .schedule p t .schedule (p.edit .replace)
  | set {p : Plan} {t : Token} (ht : InRow 25 t) : Step .schedule p t .set p
  | day {p : Plan} {t : Token} {d : Pick} (ht : Picks 1 7 t d) : Step .set p t (.day d) p
  | channel {p : Plan} {t : Token} {d c : Pick} (ht : Picks 0 15 t c) :
      Step (.day d) p t .schedule (p.edit (.assign d c))
  | nothing {a : Place} {p : Plan} : Step a p Token.empty a p

/-! ## The command processor follows the tokens -/

variable {a b c : Place} {p q r : Plan} {t : Token} {ts us : List Token} {w w' : World} {env : Env}
  {act : Act}

theorem Number.row {low high : ℤ} (h : Number low high t) : InRow 35 t := by
  rw [InRow, h.1]
  rfl

theorem Number.value {low high : ℤ} (h : Number low high t) (w : World) :
    (w.read t).cb.tokenValue = t.value := if_neg (by rw [h.1]; decide)

theorem Place.Picked.congr (h : a.Picked w) (hchannel : w'.cb.wChannel = w.cb.wChannel)
    (hday : w'.cb.wDay = w.cb.wDay) : a.Picked w' := by
  cases a with
  | channel => exact hchannel.trans h
  | day => exact ⟨hday ▸ h.range, fun d => hday ▸ h.selects d⟩
  | _ => trivial

/-- A routine that is not for the working channel leaves the channels alone. -/
theorem Plan.Timed.run {ret : ℤ} (h : p.Timed w) (hrun : act.run env (w.read t) = .ok (w', ret))
    (hact : act ∉ [.c19, .c5] ++ Ranges.indexing) : p.Timed w' := by
  simp only [List.mem_append, not_or] at hact
  obtain ⟨hnot, hindexing⟩ := hact
  simp only [List.mem_cons, List.not_mem_nil, or_false, not_or] at hnot
  have hsame := ((run_channels hrun hnot.1 fun h => absurd h hnot.2).2).resolve_left hindexing
  intro c hc
  rw [hsame]
  exact h c hc

/-- Neither the queue nor the token buffer matters. -/
theorem At.loose (h : At a p w) (ts : List Token) (t : Token) :
    At a p { w.feed t with queue := ts } := by
  have hf := h.follows
  exact ⟨h.state, h.picked.congr rfl rfl,
    ⟨hf.hour, hf.minute, hf.buffer, hf.working, hf.active⟩, h.timed⟩

/-- An empty line is a token without a row. -/
theorem At.nothing (h : At a p w) :
    ∃ w', cmdFsm env (w.feed Token.empty) = .ok w' ∧ w'.queue = w.queue ∧ At a p w' := by
  have hnull : (tokenType Token.empty).2 = ttNull := by decide
  refine ⟨w.read Token.empty, ?_, rfl, h.state, h.picked.congr rfl rfl, h.follows.read _, h.timed⟩
  simp only [cmdFsm, dispatch, readToken_feed, hnull, tokenRow, bind, Except.bind]
  rfl

/-- A token whose routine succeeds, and leaves what is to be at the next place. -/
theorem At.step_of_run {i : Fin cmdTokens} (h : At a p w) (ht : InRow i t)
    (hnew : (cmdNewState.get i).get a.state = b.state.val)
    (hrun : ((cmdAction.get i).get a.state).run env (w.read t) = .ok (w', 0))
    (hpicked : b.Picked w') (hfollows : Follows w' q.ref) (htimed : q.Timed w') :
    ∃ w', cmdFsm env (w.feed t) = .ok w' ∧ w'.queue = w.queue ∧ At b q w' := by
  refine ⟨_, cmdFsm_entry h.state ht hrun, (run_rest hrun).1, hnew, hpicked.congr rfl rfl, ?_,
    htimed⟩
  exact ⟨hfollows.hour, hfollows.minute, hfollows.buffer, hfollows.working, hfollows.active⟩

theorem ret_of_run {action : Action} {ret ret' : ℤ} (h : action w = .ok (w', ret))
    {v : World} (h' : action w = .ok (v, ret')) : ret = ret' :=
  congrArg Prod.snd (Except.ok.inj (h.symm.trans h'))

/-- A channel is selected. -/
theorem At.number {k : Fin numberOfChannels} (h : At .home p w) (ht : Number k k t) :
    ∃ w', cmdFsm env (w.feed t) = .ok w' ∧ w'.queue = w.queue ∧ At (.channel k) p.midnight w' := by
  have hvalue : (w.read t).cb.tokenValue = k.val := by
    rw [ht.value]
    exact le_antisymm ht.2.2 ht.2.1
  have hlt : (w.read t).cb.tokenValue < numberOfChannels := by
    rw [hvalue]
    exact Int.ofNat_lt.2 k.isLt
  have hrun : Act.c4.run env (w.read t) = .ok ((w.read t).setCb { (w.read t).cb with
      wChannel := (w.read t).cb.tokenValue, wMinutes := 0, wHours := 0 }, 0) := if_pos hlt
  have hread := h.follows.read t
  exact h.step_of_run ht.row rfl hrun hvalue
    ⟨rfl, rfl, hread.buffer, hread.working, hread.active⟩ (h.timed.run hrun (by decide))

/-- The selected channel is put under the control of time. -/
theorem At.time {k : Fin numberOfChannels} (h : At (.channel k) p w) (ht : InRow 16 t) :
    ∃ w', cmdFsm env (w.feed t) = .ok w' ∧ w'.queue = w.queue ∧ At .home (p.time k) w' := by
  have hk : (w.read t).cb.wChannel = k.val := h.picked
  have hrun : Act.c11.run env (w.read t) = .ok (((w.read t).setSysData { w.ipc.sysData with
      cData := w.channels.set k { w.channels.get k with mode := 1, state := 0 } k.isLt }).force,
      0) := by
    change setControl 1 0 (w.read t) = _
    simp only [setControl, World.onChannel_eq hk, bind, Except.bind]
    rfl
  have hread := h.follows.read t
  refine h.step_of_run ht rfl hrun trivial
    ⟨hread.hour, hread.minute, hread.buffer, hread.working, hread.active⟩ fun c hc => ?_
  change ((w.channels.set k _ k.isLt).get c).mode = 1
  rw [get_eq, Vector.getElem_set]
  rcases Finset.mem_insert.1 hc with rfl | hc
  · rw [if_pos rfl]
  · split_ifs
    · rfl
    · exact h.timed c hc

/-- An operation on the time schedule whose routine does what the operation means. -/
theorem At.edit {i : Fin cmdTokens} {e : EndToEnd.Edit} (h : At a p w) (ht : InRow i t)
    (hnew : (cmdNewState.get i).get a.state = b.state.val)
    (hact : (cmdAction.get i).get a.state ∉ [.c19, .c5] ++ Ranges.indexing)
    (hrun : ∃ w' ret, ((cmdAction.get i).get a.state).run env (w.read t) = .ok (w', ret) ∧
      Follows w' (p.ref.step e) ∧ b.Picked w')
    (hret : ∀ w' ret, ((cmdAction.get i).get a.state).run env (w.read t) = .ok (w', ret) →
      ret = 0) :
    ∃ w', cmdFsm env (w.feed t) = .ok w' ∧ w'.queue = w.queue ∧ At b (p.edit e) w' := by
  obtain ⟨w₁, ret, hrun, hfollows, hpicked⟩ := hrun
  obtain rfl := hret w₁ ret hrun
  exact h.step_of_run ht hnew hrun hpicked hfollows (h.timed.run hrun hact)

/-- The working day is set. -/
theorem At.day {d : Pick} (h : At .set p w) (ht : Picks 1 7 t d) :
    ∃ w', cmdFsm env (w.feed t) = .ok w' ∧ w'.queue = w.queue ∧ At (.day d) p w' := by
  have hread := h.follows.read t
  cases d with
  | all =>
    obtain ⟨w₁, ret, hrun, hfollows, hday⟩ := hread.setAllDays
    obtain rfl : ret = 0 := ret_of_run hrun rfl
    have hrun : Act.c32.run env (w.read t) = .ok (w₁, 0) := hrun
    exact h.step_of_run ht rfl hrun hday hfollows (h.timed.run hrun (by decide))
  | one u =>
    obtain ⟨rfl, hu⟩ := ht
    have hvalue := hu.value w
    have hv := hu.2
    obtain ⟨w₁, ret, hrun, hfollows, hday⟩ := hread.setDay hv hvalue
    obtain rfl : ret = 0 := ret_of_run hrun (if_pos (by
      simp only [daysPerWeek, Nat.cast_ofNat]
      omega))
    have hrun : Act.c30.run env (w.read t) = .ok (w₁, 0) := hrun
    exact h.step_of_run hu.row rfl hrun hday hfollows (h.timed.run hrun (by decide))

/-- The buffer is assigned to the day that is set and to a channel. -/
theorem At.channel {d k : Pick} (h : At (.day d) p w) (ht : Picks 0 15 t k) :
    ∃ w', cmdFsm env (w.feed t) = .ok w' ∧ w'.queue = w.queue ∧
      At .schedule (p.edit (.assign d k)) w' := by
  have hread := h.follows.read t
  have hday : DayIs (w.read t) d := h.picked.congr rfl rfl
  cases k with
  | all =>
    have hsel : ∀ c : Fin numberOfChannels, Selects allChannels c ↔ Pick.all.Has 0 c :=
      fun _ => ⟨fun _ => trivial, fun _ => .inl rfl⟩
    have hact : Act.c31 ∉ [.c19, .c5] ++ Ranges.indexing := by decide
    obtain ⟨cb, hcb, hfollows⟩ := hread.assign hday (.inl rfl) hsel
    exact h.edit ht rfl hact ⟨_, _, bind_eq_ok.2 ⟨cb, hcb, rfl⟩, hfollows, trivial⟩
      fun _ _ hrun => (c31_cases hrun).1
  | one u =>
    obtain ⟨rfl, hu⟩ := ht
    have hvalue := hu.value w
    have hv := hu.2
    have hk : IndexOrAll numberOfChannels (w.read t).cb.tokenValue :=
      hvalue ▸ .inr ⟨hv.1, hv.2.trans_lt (by decide)⟩
    have hsel : ∀ c : Fin numberOfChannels, Selects (w.read t).cb.tokenValue c ↔
        (Pick.one t).Has 0 c := by
      intro c
      simp only [hvalue, Selects, Pick.Has]
      omega
    have hact : Act.c29 ∉ [.c19, .c5] ++ Ranges.indexing := by decide
    obtain ⟨cb, hcb, hfollows⟩ := hread.assign hday hk hsel
    exact h.edit hu.row rfl hact ⟨_, _, bind_eq_ok.2 ⟨cb, hcb, rfl⟩, hfollows, trivial⟩
      fun _ _ hrun => (c29_cases hrun).1

/-- **The command processor follows the tokens.** -/
theorem At.step (h : At a p w) (hstep : Step a p t b q) :
    ∃ w', cmdFsm env (w.feed t) = .ok w' ∧ w'.queue = w.queue ∧ At b q w' := by
  have hread := h.follows.read t
  cases hstep with
  | number ht => exact h.number ht
  | time ht => exact h.time ht
  | schedule ht =>
    have hrun : Act.c0.run env (w.read t) = .ok (w.read t, 0) := rfl
    exact h.step_of_run ht rfl hrun trivial hread h.timed
  | back ht =>
    have hrun : Act.c34.run env (w.read t) = .ok (w.read t, 0) := rfl
    exact h.step_of_run ht rfl hrun trivial hread h.timed
  | hour ht =>
    have hv := ht.2
    rw [← ht.value w] at hv
    obtain ⟨w₁, ret, hrun, hfollows⟩ := hread.setHour hv
    rw [ht.value w] at hfollows
    exact h.edit ht.row rfl (by decide) ⟨w₁, ret, hrun, hfollows, trivial⟩
      fun _ _ hrun => ret_of_run hrun (if_neg (by omega))
  | minute ht hlen =>
    have hv := ht.2
    rw [← ht.value w] at hv
    obtain ⟨w₁, ret, hrun, hfollows⟩ := hread.setMinute hv ((Token.length_text t).trans_le hlen)
    rw [ht.value w] at hfollows
    exact h.edit ht.row rfl (by decide) ⟨w₁, ret, hrun, hfollows, trivial⟩
      fun _ _ hrun => ret_of_run hrun (if_neg (by omega))
  | @mark _ _ m ht =>
    cases m with
    | on =>
      obtain ⟨w₁, ret, hrun, hfollows⟩ := hread.on
      exact h.edit ht rfl (by decide) ⟨w₁, ret, hrun, hfollows, trivial⟩
        fun _ _ hrun => (c22_buffers hrun).1
    | off =>
      obtain ⟨w₁, ret, hrun, hfollows⟩ := hread.off
      exact h.edit ht rfl (by decide) ⟨w₁, ret, hrun, hfollows, trivial⟩
        fun _ _ hrun => (c23_buffers hrun).1
    | delete =>
      obtain ⟨w₁, ret, hrun, hfollows⟩ := hread.delete
      exact h.edit ht rfl (by decide) ⟨w₁, ret, hrun, hfollows, trivial⟩
        fun _ _ hrun => (c24_buffers hrun).1
  | clear ht =>
    obtain ⟨w₁, ret, hrun, hfollows⟩ := hread.clear
    exact h.edit ht rfl (by decide) ⟨w₁, ret, hrun, hfollows, trivial⟩
      fun _ _ hrun => ret_of_run hrun rfl
  | replace ht =>
    obtain ⟨w₁, ret, hrun, hfollows⟩ := hread.replace
    exact h.edit ht rfl (by decide) ⟨w₁, ret, hrun, hfollows, trivial⟩
      fun _ _ hrun => ret_of_run hrun rfl
  | set ht =>
    have hrun : Act.c59.run env (w.read t) = .ok (w.read t, 0) := rfl
    exact h.step_of_run ht rfl hrun trivial hread h.timed
  | day ht => exact h.day ht
  | channel ht => exact h.channel ht
  | nothing => exact h.nothing

/-! ## Lines of tokens -/

/-- The tokens lead from one place and plan to another. -/
inductive Leads : Place → Plan → List Token → Place → Plan → Prop
  | nil (a : Place) (p : Plan) : Leads a p [] a p
  | cons {a b c : Place} {p q r : Plan} {t : Token} {ts : List Token} (h : Step a p t b q)
      (hts : Leads b q ts c r) : Leads a p (t :: ts) c r

theorem Leads.append (h : Leads a p ts b q) (hus : Leads b q us c r) :
    Leads a p (ts ++ us) c r := by
  induction h with
  | nil => exact hus
  | cons hstep _ ih => exact .cons hstep (ih hus)

theorem Leads.split (h : Leads a p (ts ++ us) c r) :
    ∃ b q, Leads a p ts b q ∧ Leads b q us c r := by
  induction ts generalizing a p with
  | nil => exact ⟨a, p, .nil a p, h⟩
  | cons t ts ih =>
    cases h with
    | cons hstep hts =>
      obtain ⟨b, q, hts, hus⟩ := ih hts
      exact ⟨b, q, .cons hstep hts, hus⟩

/-- The tokens of a line. -/
theorem Leads.runTokens (h : Leads a p ts b q) (envs : ℕ → Env) (n : ℕ) (hw : At a p w) :
    ∃ w', Console.runTokens envs w n ts = .ok (w', n + ts.length) ∧ At b q w' := by
  induction h generalizing w n with
  | nil => exact ⟨_, rfl, hw.loose w.queue Token.empty⟩
  | @cons _ _ _ _ _ _ t ts hstep _ ih =>
    obtain ⟨w₁, hw₁, hqueue, h₁⟩ : ∃ w₁, cmdFsm (envs n) { w.feed t with queue := ts } = .ok w₁ ∧
        w₁.queue = ts ∧ At _ _ w₁ := (hw.loose ts t).step hstep
    obtain ⟨w', hw', h'⟩ := ih (n + 1) h₁
    refine ⟨w', ?_, h'⟩
    simp only [Console.runTokens, hw₁, bind, Except.bind, if_pos hqueue, hw', List.length_cons]
    rw [Nat.add_right_comm, Nat.add_assoc]

/-- No token is a string. -/
theorem Step.type_ne (h : Step a p t b q) : (tokenType t).2 ≠ ttStr := by
  have hrow : ∀ {i : Fin cmdTokens}, InRow i t → i ≠ 36 → (tokenType t).2 ≠ ttStr := by
    intro i hi hne hstr
    rw [InRow, hstr] at hi
    exact hne (Fin.ext (Int.ofNat.inj (Option.some.inj hi).symm))
  have hnumber : ∀ {low high : ℤ}, Number low high t → (tokenType t).2 ≠ ttStr := fun ht =>
    hrow ht.row (by decide)
  have hpicks : ∀ {low high : ℤ} {d : Pick}, Picks low high t d → (tokenType t).2 ≠ ttStr := by
    intro low high d ht
    cases d with
    | all => exact hrow ht (by decide)
    | one u =>
      obtain ⟨rfl, ht⟩ := ht
      exact hrow ht.row (by decide)
  cases h with
  | number ht | hour ht | minute ht => exact hnumber ht
  | day ht | channel ht => exact hpicks ht
  | @mark _ _ m ht => exact hrow ht (by cases m <;> decide)
  | nothing => decide
  | time ht | schedule ht | back ht | clear ht | replace ht | set ht => exact hrow ht (by decide)

theorem Leads.type_ne (h : Leads a p ts b q) : ∀ t ∈ ts, (tokenType t).2 ≠ ttStr := by
  induction h with
  | nil => exact List.forall_mem_nil _
  | cons hstep _ ih => exact List.forall_mem_cons.2 ⟨hstep.type_ne, ih⟩

/-- The schedule buffer is well formed, so it can be listed. -/
theorem At.prompt (h : At a p w) : prompt w = .ok () := by
  unfold Console.prompt
  split_ifs
  · exact loadTemps_eq h.follows.buffer.toWf
  · rfl

/-- The tokens, with empty ones for the empty lines. -/
theorem Leads.blank (h : Leads a p ts b q) {tokens : List (List Byte)}
    (htokens : tokens.filter (· ≠ []) = ts.map Token.bytes) :
    ∃ us, tokens = us.map Token.bytes ∧ Leads a p us b q := by
  induction tokens generalizing a p ts with
  | nil =>
    obtain rfl : ts = [] := List.map_eq_nil_iff.1 htokens.symm
    exact ⟨[], rfl, h⟩
  | cons bs tokens ih =>
    by_cases hbs : bs = []
    · rw [List.filter_cons_of_neg (by simpa using hbs)] at htokens
      obtain ⟨us, rfl, hus⟩ := ih h htokens
      exact ⟨Token.empty :: us, by rw [hbs]; rfl, .cons .nothing hus⟩
    · rw [List.filter_cons_of_pos (by simpa using hbs)] at htokens
      obtain ⟨t, ts, rfl, rfl, hts⟩ := List.map_eq_cons_iff.1 htokens.symm
      cases h with
      | cons hstep h =>
        obtain ⟨us, rfl, hus⟩ := ih h hts.symm
        exact ⟨t :: us, rfl, .cons hstep hus⟩

/-- The tokens of a session, in lines that may end anywhere. -/
theorem Leads.runLines (h : Leads a p ts b q) (envs : ℕ → Env) (n : ℕ) (hw : At a p w)
    {lines : List (List Byte)}
    (hlines : (lines.flatMap CharFsm.lineTokens).filter (· ≠ []) = ts.map Token.bytes) :
    ∃ w' n', lines.foldlM (runLine envs) (w, n) = .ok (w', n') ∧ At b q w' := by
  induction lines generalizing a p ts w n with
  | nil =>
    obtain rfl : ts = [] := List.map_eq_nil_iff.1 hlines.symm
    cases h
    exact ⟨w, n, rfl, hw⟩
  | cons line lines ih =>
    rw [List.flatMap_cons, List.filter_append] at hlines
    obtain ⟨front, back, rfl, hfront, hback⟩ := List.map_eq_append_iff.1 hlines.symm
    obtain ⟨c, r, h₁, h₂⟩ := h.split
    obtain ⟨us, hline, hus⟩ := h₁.blank hfront.symm
    obtain ⟨w₁, hw₁, hat₁⟩ := hus.runTokens envs n hw
    obtain ⟨w', n', hw', h'⟩ := ih h₂ (n + us.length) hat₁ hback.symm
    have hrun : runLine envs (w, n) line = .ok (w₁, n + us.length) := by
      simp only [runLine, hline, mapM_received hus.type_ne, bind, Except.bind, hw₁, hat₁.prompt]
      rfl
    refine ⟨w', n', ?_, h'⟩
    rw [List.foldlM_cons, hrun]
    exact hw'

/-! ## Phrases -/

/-- What the user says, with the tokens that are typed for it. -/
inductive Phrase
  | time (c : Fin numberOfChannels) (number word : Token)
  | schedule (word : Token)
  | back (word : Token)
  | entry (mark : Mark) (hour minute word : Token)
  | clear (word : Token)
  | assign (d c : Pick) (word day channel : Token)
  | replace (word : Token)

def Phrase.tokens : Phrase → List Token
  | .time _ number word => [number, word]
  | .schedule word | .back word | .clear word | .replace word => [word]
  | .entry _ hour minute word => [hour, minute, word]
  | .assign _ _ word day channel => [word, day, channel]

/-- The words are the right ones, and the numbers are in range. The text of a minute fits its
field. -/
def Phrase.Valid : Phrase → Prop
  | .time c number word => Number c c number ∧ InRow 16 word
  | .schedule word => InRow 3 word
  | .back word => InRow 28 word
  | .entry mark hour minute word => Number 0 23 hour ∧
    (Number 0 59 minute ∧ minute.bytes.length ≤ 3) ∧ InRow mark.row word
  | .clear word => InRow 14 word
  | .assign d c word day channel => InRow 25 word ∧ Picks 1 7 day d ∧ Picks 0 15 channel c
  | .replace word => InRow 8 word

/-- Where a phrase can be said. -/
def Phrase.source : Phrase → Place
  | .time .. | .schedule _ => .home
  | _ => .schedule

/-- Where it leads. -/
def Phrase.target : Phrase → Place
  | .time .. | .back _ => .home
  | _ => .schedule

/-- What it means. -/
def Phrase.means (p : Plan) : Phrase → Plan
  | .time c _ _ => p.midnight.time c
  | .schedule _ | .back _ => p
  | .entry mark hour minute _ => ((p.edit (.hour hour)).edit (.minute minute)).edit mark.edit
  | .clear _ => p.edit .clear
  | .assign d c _ _ _ => p.edit (.assign d c)
  | .replace _ => p.edit .replace

/-- The place and the plan after a phrase. -/
def say (x : Place × Plan) (q : Phrase) : Place × Plan := (q.target, q.means x.2)

/-- A phrase that can be said at a place. -/
def Sayable (x : Place × Plan) (q : Phrase) : Prop := x.1 = q.source ∧ q.Valid

/-- **The tokens of a phrase mean what it means.** -/
theorem Phrase.leads {q : Phrase} (h : q.Valid) (p : Plan) :
    Leads q.source p q.tokens q.target (q.means p) := by
  cases q with
  | time c number word => exact .cons (.number h.1) (.cons (.time h.2) (.nil _ _))
  | schedule word => exact .cons (.schedule h) (.nil _ _)
  | back word => exact .cons (.back h) (.nil _ _)
  | entry mark hour minute word =>
    exact .cons (.hour h.1) (.cons (.minute h.2.1.1 h.2.1.2) (.cons (.mark h.2.2) (.nil _ _)))
  | clear word => exact .cons (.clear h) (.nil _ _)
  | assign d c word day channel =>
    exact .cons (.set h.1) (.cons (.day h.2.1) (.cons (.channel h.2.2) (.nil _ _)))
  | replace word => exact .cons (.replace h) (.nil _ _)

theorem leads_phrases {qs : List Phrase} (h : Along Sayable say (a, p) qs) :
    Leads a p (qs.flatMap Phrase.tokens) (qs.foldl say (a, p)).1 (qs.foldl say (a, p)).2 := by
  induction qs generalizing a p with
  | nil => exact .nil a p
  | cons q qs ih =>
    obtain ⟨⟨hsource, hvalid⟩, hqs⟩ := h
    obtain rfl : a = q.source := hsource
    exact (Phrase.leads hvalid p).append (ih hqs)

/-! ## The passes of the daemon -/

/-- Shared memory is as the plan has it. -/
structure Programmed (p : Plan) (b : Board) : Prop where
  timed : ∀ c ∈ p.timed, (b.1.sysData.cData.get c).mode = 1
  active : ∀ d c, EndToEnd.Shows (b.1.sysData.sysSch.cell d c) (p.ref.active d c)

variable {board board' : Board} {turn : Turn} {turns : List Turn}

theorem Programmed.pass (h : Programmed p board) (hpass : Switch.pass board turn = .ok board') :
    Programmed p board' := by
  obtain rfl := pass_eq_ok hpass
  refine ⟨fun c hc => ?_, fun d c => ?_⟩
  · rw [updateRelays_cData]
    exact h.timed c hc
  · simp only [updateRelays_eq]
    exact h.active d c

theorem asks_mem {m : EndToEnd.OnOff} {k state : ℤ} (h : Asks m k state) :
    state = 0 ∨ state = 1 := by
  obtain ⟨-, rfl⟩ | ⟨b, -, rfl⟩ := h
  · exact .inl rfl
  · cases b
    · exact .inl rfl
    · exact .inr rfl

/-- The state of a channel and its pin are what its timetable asks for. -/
structure OnTime (p : Plan) (tm : Tm) (c : Fin numberOfChannels) (b : Board) : Prop where
  state : Asks (p.ref.active tm.tmWday c) tm.key (b.1.sysData.cData.get c).state
  pin : c ≠ 0 → b.2.2 (chan.get c) = (b.1.sysData.cData.get c).state

/-- A pass switches the channels under the control of time. -/
theorem Programmed.onTime (h : Programmed p board)
    (hpass : Switch.pass board turn = .ok board') {c : Fin numberOfChannels} (hc : c ∈ p.timed) :
    OnTime p turn.tm c board' := by
  obtain rfl := pass_eq_ok hpass
  have hstate := updateRelays_state turn.stray turn.garbage board.2.1 turn.tm board.1 board.2.2 c
  have hasks : Asks (p.ref.active turn.tm.tmWday c) turn.tm.key ((updateRelays turn.stray
      turn.garbage board.2.1 turn.tm board.1 board.2.2).1.sysData.cData.get c).state := by
    rw [updateRelays_time _ (h.timed c hc)]
    exact (h.active turn.tm.tmWday c).asks _ _
  refine ⟨hasks, fun hc0 => ?_⟩
  rw [hstate] at hasks ⊢
  rw [updateRelays_pin, lastWriter, if_neg hc0, level_eq (asks_mem hasks)]

/-! ## From the keyboard to the relays -/

/-- **Programming the relays.** In a session that has come to the first state with an empty line, a
program is typed, in lines that may end anywhere and are edited in any way. Then the memory of the
command processor is that of the plan that the program means, and from the next pass of the daemon
on, at whatever times the passes are made and as long as no number of a pass leaves the range of an
`int`, every channel under the control of time has the state that its timetable asks for at that
time, as has its pin if it is one of its own. -/
theorem keys_program (stray : ℤ → LineEditor.Row) (envs : ℕ → Env) {ipc : IpcDat}
    {bkup : Option Backup} {before : List Key} {s : Console.State}
    (hs : before.foldlM (key stray envs) (.start ipc bkup) = .ok s) (hblank : Blank s.editor)
    (hat : At .home p s.world) {lines : List (List (Edit Insertable))}
    (ht : ∀ es ∈ lines, Typable es) {program : List Phrase}
    (hprogram : Along Sayable say (.home, p) program)
    (htokens : ((lines.map typed).flatMap CharFsm.lineTokens).filter (· ≠ []) =
      (program.flatMap Phrase.tokens).map Token.bytes) :
    ∃ s', (lines.flatMap keys).foldlM (key stray envs) s = .ok s' ∧
      At (program.foldl say (.home, p)).1 (program.foldl say (.home, p)).2 s'.world ∧
      ∀ (hold : ℤ) (pins : ℕ → ℤ) (turns : List Turn) (turn : Turn) (board : Board),
        (turns ++ [turn]).foldlM pass (s'.world.ipc, hold, pins) = .ok board →
          ∀ c ∈ (program.foldl say (.home, p)).2.timed,
            OnTime (program.foldl say (.home, p)).2 turn.tm c board := by
  obtain ⟨w, n, hrun, hw⟩ := (leads_phrases hprogram).runLines envs s.taken hat htokens
  have hmeans : ((lines.flatMap keys).foldlM (key stray envs) s).map outcome =
      (lines.map typed).foldlM (runLine envs) (outcome s) :=
    foldlM_flatMap_lines (idle_run hs) hblank ht
  rw [outcome, hrun] at hmeans
  cases hkeys : (lines.flatMap keys).foldlM (key stray envs) s with
  | error e =>
    rw [hkeys] at hmeans
    cases hmeans
  | ok s' =>
    rw [hkeys] at hmeans
    obtain rfl : s'.world = w := congrArg Prod.fst (Except.ok.inj hmeans)
    refine ⟨s', rfl, hw, fun hold pins turns turn board hboard c hc => ?_⟩
    have hprogrammed : Programmed _ (s'.world.ipc, hold, pins) := ⟨hw.timed, hw.follows.active⟩
    rw [List.foldlM_append] at hboard
    obtain ⟨board₁, hturns, hturn⟩ := bind_eq_ok.1 hboard
    have hprogrammed₁ : Programmed _ board₁ :=
      foldlM_invariant (fun _ _ _ h hpass => h.pass hpass) turns _ board₁ hprogrammed hturns
    exact hprogrammed₁.onTime ((bind_pure _).symm.trans hturn) hc

/-! ## A program -/

/-- Nothing is programmed. -/
def Plan.start (w : World) : Plan := ⟨.start w.cb.wHours w.cb.wMinutes, ∅⟩

theorem At.start (h : EndToEnd.Empty w) (hstate : w.cb.state = 0) : At .home (.start w) w :=
  ⟨hstate, trivial, .of_empty h, fun _ hc => absurd hc (Finset.notMem_empty _)⟩

/-- The characters of a text that can be typed. -/
def insertable (text : List Byte) : List Insertable :=
  text.filterMap fun c =>
    if h : c ∉ [0, noChar, esc, CharFsm.carriageReturn, CharFsm.delete] then some ⟨c, h⟩
    else none

open EndToEnd in
/-- On from 8:00 and off from 9:30, on all days, for channel 5. -/
def morning : List Phrase :=
  [.schedule (Reach.token 3), .entry .on .eight zero (Reach.token 12),
   .entry .off nine thirty (Reach.token 13),
   .assign .all .all (Reach.token 25) (Reach.token 1) (Reach.token 1),
   .replace (Reach.token 8), .back (Reach.token 28), .time 5 .five (Reach.token 16)]

/-- The program in three lines. -/
def morningTexts : List (List Byte) :=
  [str "schedule 8 0 on", str "9 30 off set", str "* * replace back 5 time"]

def morningLines : List (List (Edit Insertable)) :=
  morningTexts.map fun text => written (insertable text)

theorem typable_morning : ∀ es ∈ morningLines, Typable es := by
  have htexts : ∀ text ∈ morningTexts, (insertable text).length + 1 < inputBufferSize ∧
      CharFsm.Fits ((insertable text).map Subtype.val) := by decide +kernel
  intro es hes
  obtain ⟨text, htext, rfl⟩ := List.mem_map.1 hes
  exact typable_written (htexts text htext).1 (htexts text htext).2

theorem morning_tokens : ((morningLines.map typed).flatMap CharFsm.lineTokens).filter (· ≠ []) =
    (morning.flatMap Phrase.tokens).map Token.bytes := by
  have htexts : (morningTexts.flatMap fun text =>
      CharFsm.lineTokens ((insertable text).map Subtype.val)).filter (· ≠ []) =
        (morning.flatMap Phrase.tokens).map Token.bytes := by decide +kernel
  rw [morningLines, List.map_map, List.flatMap_map, ← htexts]
  simp only [Function.comp_apply, typed_written]

theorem sayable_morning (p : Plan) : Along Sayable say (.home, p) morning := by
  have hnumbers : Number 0 23 .eight ∧ Number 0 59 EndToEnd.zero ∧ Number 0 23 EndToEnd.nine ∧
      Number 0 59 EndToEnd.thirty ∧ Number (5 : Fin numberOfChannels) (5 : Fin numberOfChannels)
        .five := by
    unfold Number
    decide +kernel
  obtain ⟨height, hzero, hnine, hthirty, hfive⟩ := hnumbers
  have hrow := Reach.row_token
  exact ⟨⟨rfl, hrow 3⟩, ⟨rfl, height, ⟨hzero, by decide⟩, hrow 12⟩,
    ⟨rfl, hnine, ⟨hthirty, by decide⟩, hrow 13⟩, ⟨rfl, hrow 25, hrow 1, hrow 1⟩, ⟨rfl, hrow 8⟩,
    ⟨rfl, hrow 28⟩, ⟨rfl, hfive, hrow 16⟩, trivial⟩

/-- The program is typed at the start of the session, on zeroed shared memory. -/
theorem keys_program_morning : ∃ s', (morningLines.flatMap keys).foldlM calmKey State.zero =
      .ok s' ∧ ∀ (hold : ℤ) (pins : ℕ → ℤ) (turns : List Turn) (turn : Turn) (board : Board),
        (turns ++ [turn]).foldlM pass (s'.world.ipc, hold, pins) = .ok board →
          OnTime (morning.foldl say (.home, .start State.zero.world)).2 turn.tm 5 board := by
  have hempty : EndToEnd.Empty State.zero.world :=
    ⟨rfl, EndToEnd.empty_zero.working, EndToEnd.empty_zero.active⟩
  obtain ⟨s', hs', -, hpasses⟩ := keys_program _ _ no_keys blank_start (.start hempty rfl)
    typable_morning (sayable_morning _) morning_tokens
  exact ⟨s', hs', fun hold pins turns turn board hboard =>
    hpasses hold pins turns turn board hboard 5 (Finset.mem_insert_self _ _)⟩

end PconTng.Program
