import PconTng.CmdFsm.Restore

/-!
# The states that can be reached

The row of a token depends on its type alone (`tokenRow`), so what a token does is a matter of the
entry at its row and the state (`cmdFsm_entry`). Five of the states of the tables are never entered,
and two routines stand at no other state, so they never run: those that assign a sensor to a channel
and take the assignment back (`states_reached`). From every state that is reached the user comes
back to the first one by the word "back" (`back_home`).
-/

namespace PconTng

open CMemory CArray CmdFsm

variable {env : Env} {act : Act} {w w' : World} {ret : ℤ} {t : Token}

/-! ## What a token does -/

/-- What a token does when its routine succeeds. -/
theorem cmdFsm_entry {i : Fin cmdTokens} {s : Fin cmdStates} (hs : w.cb.state = s.val)
    (hi : tokenRow (tokenType t).2 = some (i.val : ℤ))
    (hrun : ((cmdAction.get i).get s).run env (w.read t) = .ok (w', 0)) :
    cmdFsm env (w.feed t) =
      .ok (w'.setCb { w'.cb with state := (cmdNewState.get i).get s }) := by
  have hstate : w'.cb.state = s.val := (run_frame hrun).state.trans hs
  have hentry : entry cmdNewState (i.val : ℤ) w'.cb.state = .ok ((cmdNewState.get i).get s) := by
    rw [hstate]
    simp only [entry, load_natCast _ i.isLt, bind, Except.bind]
    exact load_natCast _ s.isLt
  simp only [cmdFsm, dispatch_entry hs hi, hrun, bind, Except.bind, if_pos, hentry]
  rfl

/-- Two routines refuse everything. -/
theorem run_refuses (hact : act ∈ [Act.c7, .c8]) (h : act.run env w = .ok (w', ret)) : ret ≠ 0 := by
  simp only [List.mem_cons, List.not_mem_nil, or_false] at hact
  rcases hact with rfl | rfl
  · cases h
    decide
  · cases h
    decide

/-- The state after a token: an empty one leaves it, and so does a routine that fails. -/
theorem cmdFsm_row (h : cmdFsm env (w.feed t) = .ok w') :
    (tokenRow (tokenType t).2 = none ∧ w' = w.read t) ∨
    ∃ (i : Fin cmdTokens) (s : Fin cmdStates) (w₁ : World) (ret : ℤ),
      tokenRow (tokenType t).2 = some (i.val : ℤ) ∧ w.cb.state = s.val ∧
      ((cmdAction.get i).get s).run env (w.read t) = .ok (w₁, ret) ∧
      w'.cb.state = if ret = 0 then (cmdNewState.get i).get s else s.val := by
  rcases cmdFsm_feed h with hnone | ⟨i, s, w₂, ret, hrow, hs, hrun, hret⟩
  · exact .inl hnone
  · have hkept : w₂.cb.state = s.val := (run_frame hrun).state.trans hs
    refine .inr ⟨i, s, w₂, ret, hrow, hs, hrun, ?_⟩
    rcases hret with ⟨rfl, rfl⟩ | ⟨rfl, rfl⟩ | ⟨rfl, rfl⟩
    · rw [if_pos rfl]
      rfl
    · rw [if_neg one_ne_zero]
      exact hkept
    · rw [if_neg two_ne_zero]
      exact hkept

/-! ## States that are never entered -/

/-- The states that are never entered. -/
def deadStates : List ℕ := [21, 23, 28, 33, 34]

/-- The routines that never run. -/
def deadActs : List Act := [.c18, .c49]

/-- From a state that is entered, a routine that is not one of the two that refuse everything leads
to another such state, and it is not one of those that never run. -/
theorem entry_reached : ∀ (i : Fin cmdTokens) (s : Fin cmdStates), s.val ∉ deadStates →
    (cmdAction.get i).get s ∉ deadActs ∧ ((cmdAction.get i).get s ∉ [Act.c7, .c8] →
      (cmdNewState.get i).get s ∉ deadStates) :=
  forall_entries (P := fun _ s new act => s ∉ deadStates →
    act ∉ deadActs ∧ (act ∉ [Act.c7, .c8] → new ∉ deadStates)) (by decide +kernel)

theorem World.Step.not_dead {e : Event} (h : World.Step w e w')
    (hw : w.cb.state ∉ deadStates) : w'.cb.state ∉ deadStates := by
  cases h with
  | line => exact hw
  | outside => exact hw
  | reset => exact (by decide : (0 : ℕ) ∉ deadStates)
  | token h =>
    rcases cmdFsm_row h with ⟨-, rfl⟩ | ⟨i, s, w₁, ret, -, hs, hrun, hstate⟩
    · exact hw
    · rw [hs] at hw
      rw [hstate]
      by_cases hret : ret = 0
      · rw [if_pos hret]
        exact (entry_reached i s hw).2 fun hmem => run_refuses hmem hrun hret
      · rw [if_neg hret]
        exact hw

theorem path_not_dead {tr : List (World × Event)}
    (h : Path World.Step (w.setCb (cmdFsmReset w.cb)) tr w') :
    w'.cb.state < cmdStates ∧ w'.cb.state ∉ deadStates := by
  have hzero : (0 : ℕ) ∉ deadStates := by decide
  exact (h.invariant (I := fun v => v.cb.state < cmdStates ∧ v.cb.state ∉ deadStates)
    (C := fun _ _ => True) (fun _ _ _ hv _ hstep => ⟨hstep.state_lt hv.1, hstep.not_dead hv.2⟩)
    ⟨Nat.succ_pos _, hzero⟩ (fun _ _ => trivial)).2

/-! ## States that are entered -/

namespace Reach

/-- A token for each row: the keyword itself, a number, a string or a word without a meaning. -/
def token (i : Fin cmdTokens) : Token :=
  if i = 35 then .five
  else if i = 36 then ⟨str "\"a\"", by decide, by decide⟩
  else if i = 37 then ⟨str "word", by decide, by decide⟩
  else
    if h : (keyword.getD i []).length < maxTokenSize ∧ 0 ∉ keyword.getD i [] then
      ⟨keyword.getD i [], h.1, h.2⟩
    else .empty

theorem row_token : ∀ i : Fin cmdTokens, tokenRow (tokenType (token i)).2 = some (i.val : ℤ) := by
  decide +kernel

/-- Rows whose tokens lead from the first state to each of those that are entered. -/
def routes : List (ℕ × List (Fin cmdTokens)) :=
  [(0, []), (1, [35]), (2, [35, 18]), (3, [35, 18, 35]), (4, [3]), (5, [3, 25]), (6, [3, 21]),
   (7, [3, 24]), (8, [3, 35]), (9, [3, 25, 1]), (10, [3, 21, 22]), (11, [3, 21, 3]), (12, [3, 10]),
   (13, [9, 35, 5]), (14, [9, 35, 5, 35]), (15, [9, 35, 5, 35, 35]), (16, [9, 35, 5, 35, 35, 35]),
   (17, [9, 35, 5, 35, 35, 35, 35]), (18, [9, 35, 5, 35, 35, 35, 35, 35]),
   (19, [9, 35, 5, 35, 35, 35, 35, 35, 35]), (20, [9, 35, 5, 35, 35, 35, 35, 35, 35, 35]),
   (22, [3, 24, 22]), (24, [3, 35, 35]), (25, [3, 10, 22]), (26, [3, 35, 35, 0]),
   (27, [3, 35, 35, 2]), (29, [9]), (30, [9, 35]), (31, [9, 35, 20]), (32, [9, 35, 23])]

/-- The tokens of the given rows, one after the other. -/
def follow (w : World) (rows : List (Fin cmdTokens)) : Except Stop World :=
  rows.foldlM (fun w i => cmdFsm .calm (w.feed (token i))) w

theorem follow_path {rows : List (Fin cmdTokens)} (h : follow w rows = .ok w') :
    ∃ tr, Path World.Step w tr w' := by
  induction rows generalizing w with
  | nil =>
    cases h
    exact ⟨[], .nil _⟩
  | cons i rows ih =>
    obtain ⟨w₁, hw₁, h⟩ := bind_eq_ok.1 h
    obtain ⟨tr, htr⟩ := ih h
    exact ⟨_, .cons (.token hw₁) htr⟩

/-- The state at the end of a route. -/
def endState (rows : List (Fin cmdTokens)) : Option ℕ :=
  match follow World.zero rows with
  | .ok w => some w.cb.state
  | .error _ => none

theorem routes_end : ∀ r ∈ routes, endState r.2 = some r.1 := by
  decide +kernel

/-- There is a route to each state that is entered. -/
theorem exists_route : ∀ s : Fin cmdStates, s.val ∉ deadStates → ∃ r ∈ routes, r.1 = s.val := by
  decide

/-- The end of a route is reached. -/
theorem route_path {r : ℕ × List (Fin cmdTokens)} (hr : r ∈ routes) :
    ∃ tr w', Path World.Step (World.zero.setCb (cmdFsmReset World.zero.cb)) tr w' ∧
      follow World.zero r.2 = .ok w' ∧ w'.cb.state = r.1 := by
  have hend := routes_end r hr
  unfold endState at hend
  split at hend
  · rename_i w hw
    obtain ⟨tr, htr⟩ := follow_path hw
    exact ⟨tr, w, htr, hw, Option.some.inj hend⟩
  · cases hend

theorem exists_path (s : Fin cmdStates) (hs : s.val ∉ deadStates) :
    ∃ tr w', Path World.Step (World.zero.setCb (cmdFsmReset World.zero.cb)) tr w' ∧
      w'.cb.state = s.val := by
  obtain ⟨r, hr, hend⟩ := exists_route s hs
  obtain ⟨tr, w', hpath, -, hstate⟩ := route_path hr
  exact ⟨tr, w', hpath, hstate.trans hend⟩

/-- A row and a state for each of the other routines. -/
def sites : List (Act × Fin cmdTokens × Fin cmdStates) :=
  [(.c7, 0, 0), (.c38, 0, 24), (.c32, 1, 5), (.c31, 1, 6), (.c37, 2, 24), (.c0, 3, 0),
   (.c8, 3, 1), (.c52, 3, 6), (.c1, 4, 0), (.c74, 5, 30), (.c34, 6, 1), (.c48, 6, 20),
   (.c39, 8, 4), (.c50, 10, 4), (.c24, 10, 12), (.c9, 12, 1), (.c71, 12, 13), (.c22, 12, 24),
   (.c10, 13, 1), (.c23, 13, 12), (.c72, 13, 13), (.c33, 14, 4), (.c6, 15, 0), (.c2, 16, 0),
   (.c11, 16, 1), (.c12, 17, 0), (.c13, 18, 1), (.c25, 19, 6), (.c19, 19, 7), (.c76, 20, 1),
   (.c73, 21, 30), (.c53, 22, 6), (.c63, 22, 7), (.c75, 23, 1), (.c59, 25, 4), (.c3, 26, 0),
   (.c66, 29, 0), (.c21, 30, 30), (.c57, 31, 0), (.c58, 32, 0), (.c56, 33, 0), (.c55, 34, 0),
   (.c4, 35, 0), (.c16, 35, 2), (.c17, 35, 3), (.c20, 35, 4), (.c30, 35, 5), (.c29, 35, 9),
   (.c41, 35, 13), (.c42, 35, 14), (.c43, 35, 15), (.c44, 35, 16), (.c45, 35, 17), (.c46, 35, 18),
   (.c47, 35, 19), (.c61, 35, 22), (.c14, 35, 25), (.c27, 35, 26), (.c28, 35, 27), (.c68, 35, 29),
   (.c5, 36, 1), (.c51, 36, 10), (.c69, 36, 31), (.c70, 36, 32), (.c40, 38, 0), (.c65, 38, 1)]

theorem sites_entry : ∀ x ∈ sites, x.2.2.val ∉ deadStates ∧
    (cmdAction.get x.2.1).get x.2.2 = x.1 := by
  decide

theorem act_entry (act : Act) (h : act ∉ deadActs) :
    ∃ (i : Fin cmdTokens) (s : Fin cmdStates), s.val ∉ deadStates ∧
      (cmdAction.get i).get s = act := by
  have hmem : act ∈ sites.map Prod.fst := by
    cases act <;> first | decide | exact absurd (by decide) h
  obtain ⟨x, hx, rfl⟩ := List.mem_map.1 hmem
  exact ⟨x.2.1, x.2.2, sites_entry x hx⟩

end Reach

/-- **What can be reached.** In the runs from a reset exactly the states other than 21, 23, 28, 33
and 34 occur, and exactly the routines other than `c_18` and `c_49` run. -/
theorem states_reached :
    (∀ s : ℕ, (∃ (w w' : World) (tr : List (World × Event)),
      Path World.Step (w.setCb (cmdFsmReset w.cb)) tr w' ∧ w'.cb.state = s) ↔
        s < cmdStates ∧ s ∉ deadStates) ∧
    ∀ act : Act, (∃ (w w' : World) (tr : List (World × Event)) (t : Token),
      Path World.Step (w.setCb (cmdFsmReset w.cb)) tr w' ∧ w'.Runs t act) ↔ act ∉ deadActs := by
  constructor
  · intro s
    constructor
    · rintro ⟨w, w', tr, h, rfl⟩
      exact path_not_dead h
    · rintro ⟨hlt, hs⟩
      obtain ⟨tr, w', h, hend⟩ := Reach.exists_path ⟨s, hlt⟩ hs
      exact ⟨World.zero, w', tr, h, hend⟩
  · intro act
    constructor
    · rintro ⟨w, w', tr, t, h, w₁, index, hd⟩
      obtain ⟨token, tt, value, -, hentry⟩ := dispatch_cases hd
      obtain ⟨⟨i, s, -, hs, rfl⟩, -⟩ := hentry index act rfl
      have hs' : w'.cb.state = s.val := hs
      exact (entry_reached i s (hs' ▸ (path_not_dead h).2)).1
    · intro hact
      obtain ⟨i, s, hs, rfl⟩ := Reach.act_entry act hact
      obtain ⟨tr, w', h, hend⟩ := Reach.exists_path s hs
      exact ⟨World.zero, w', tr, Reach.token i, h, _, _, dispatch_entry hend (Reach.row_token i)⟩

/-! ## The way back -/

namespace Reach

/-- The word "back". -/
def back : Token := ⟨str "back", by decide, by decide⟩

/-- The state before, by the word "back". -/
def previous (s : ℕ) : ℕ := if h : s < cmdStates then (cmdNewState.get 28).get ⟨s, h⟩ else s

theorem row_back : tokenRow (tokenType back).2 = some (28 : Fin cmdTokens).val :=
  row_token 28

/-- The memory after the word "back". -/
def afterBack (w : World) : World :=
  (w.read back).setCb { (w.read back).cb with state := previous w.cb.state }

/-- The word does nothing but going to the state before. -/
theorem cmdFsm_back (env : Env) (hlt : w.cb.state < cmdStates) :
    cmdFsm env (w.feed back) = .ok (afterBack w) := by
  have hact : ∀ s : Fin cmdStates, (cmdAction.get 28).get s = .c34 := by decide
  have hrun : ((cmdAction.get 28).get ⟨w.cb.state, hlt⟩).run env (w.read back) =
      .ok (w.read back, 0) := by
    rw [hact]
    rfl
  rw [cmdFsm_entry (s := ⟨w.cb.state, hlt⟩) rfl row_back hrun, afterBack, previous, dif_pos hlt]

theorem previous_home : ∀ s : Fin cmdStates, s.val ∉ deadStates → previous^[10] s = 0 := by
  decide

theorem previous_iterate {n s : ℕ} (hlt : s < cmdStates) (hs : s ∉ deadStates) (hn : 10 ≤ n) :
    previous^[n] s = 0 := by
  obtain ⟨k, rfl⟩ := Nat.exists_eq_add_of_le' hn
  rw [Function.iterate_add_apply, previous_home ⟨s, hlt⟩ hs]
  exact Function.iterate_fixed (by decide) k

theorem previous_lt {s : ℕ} (h : s < cmdStates) : previous s < cmdStates := by
  rw [previous, dif_pos h]
  exact cmdNewState_lt 28 ⟨s, h⟩

theorem foldlM_back (envs : List Env) (hlt : w.cb.state < cmdStates) :
    envs.foldlM (fun w env => cmdFsm env (w.feed back)) w = .ok (afterBack^[envs.length] w) := by
  induction envs generalizing w with
  | nil => rfl
  | cons env envs ih =>
    rw [List.foldlM_cons, cmdFsm_back env hlt]
    exact ih (previous_lt hlt)

/-- Only the state differs between the memory after one such word and after some of them. -/
theorem afterBack_iterate (w : World) (n : ℕ) : afterBack^[n + 1] w =
    (w.read back).setCb { (w.read back).cb with state := previous^[n + 1] w.cb.state } := by
  have hnull : (tokenType back).2 ≠ ttNull := fun h => by
    have hrow := row_back
    rw [h] at hrow
    cases hrow
  induction n with
  | zero => rfl
  | succ n ih =>
    rw [Function.iterate_succ_apply', ih, Function.iterate_succ_apply' previous (n + 1)]
    simp only [afterBack, World.read, World.setCb, if_neg hnull]

end Reach

open Reach in
/-- **The way back.** From every state that a run reaches, typing "back" ten times leads to the
first state, and nothing has changed but what is read from the token. -/
theorem back_home {tr : List (World × Event)}
    (h : Path World.Step (w.setCb (cmdFsmReset w.cb)) tr w') {envs : List Env}
    (henvs : 10 ≤ envs.length) :
    envs.foldlM (fun w env => cmdFsm env (w.feed back)) w' =
      .ok ((w'.read back).setCb { (w'.read back).cb with state := 0 }) := by
  obtain ⟨hlt, hs⟩ := path_not_dead h
  obtain ⟨n, hn⟩ := Nat.exists_eq_succ_of_ne_zero (by omega : envs.length ≠ 0)
  rw [foldlM_back envs hlt, hn, afterBack_iterate, previous_iterate hlt hs (by omega)]

/-- The rows of the tokens with which the clock is set. -/
def clockRows : List (Fin cmdTokens) := [9, 35, 5, 35, 35, 35, 35, 35, 35, 35]

/-- From the state in which the clock is set, ten steps back. -/
theorem back_home_clock : ∃ w' w'', Reach.follow World.zero clockRows = .ok w' ∧
    w'.cb.state = 20 ∧ (List.replicate 10 Env.calm).foldlM
      (fun w env => cmdFsm env (w.feed Reach.back)) w' = .ok w'' ∧ w''.cb.state = 0 := by
  have hroute : (20, clockRows) ∈ Reach.routes := by decide
  obtain ⟨tr, w', hpath, hw, hstate⟩ := Reach.route_path hroute
  exact ⟨w', _, hw, hstate, back_home hpath (by decide), rfl⟩

end PconTng
