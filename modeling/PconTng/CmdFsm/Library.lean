import PconTng.CmdFsm.Edit
import PconTng.CmdFsm.Schedules

/-!
# The template library

The first `tplIndex` places of the library are a list of templates, to which `c_51` adds, from which
`c_14` removes and `c_61` loads. The three follow the operations of a list of at most `maxTemplates`
templates (`library_refines`), in any session that loads only templates that are there. `c_61` does
not refuse any other number (`load_never_refused`).
-/

namespace PconTng.Library

open CMemory CArray CmdFsm Schedules

/-! ## The library as a list -/

/-- The template under another name. -/
def named (t : TmplDat) (name : List Byte) : TmplDat :=
  { t with name := (pokeStr t.name (name ++ [0])).1 }

/-- The templates in the library, and the one in the edit buffer. -/
structure Shelf where
  templates : List TmplDat
  buffer : TmplDat

/-- What the user asks for. Between two requests to the library anything may be done to the control
block. -/
inductive Request
  | save (token : Token)
  | delete (env : Env) (n : ℤ)
  | load (env : Env) (n : ℤ)
  | edit (cb : CmdFsmCb)

/-- A request to the command processor, with the value it returns. -/
def Request.run (w : World) : Request → Except Stop (World × ℤ)
  | .save token => c51 (w.feed token)
  | .delete env n => c14 env (w.setCb { w.cb with tokenValue := n })
  | .load env n => c61 env (w.setCb { w.cb with tokenValue := n })
  | .edit cb => .ok (w.setCb cb, 0)

/-- The same request to the list. -/
def Request.onShelf (s : Shelf) : Request → Shelf × ℤ
  | .save token =>
    if s.templates.length < maxTemplates then
      (⟨s.templates ++ [named s.buffer (dequote token.bytes)], { s.buffer with rcnt := 0 }⟩, 0)
    else (s, 0)
  | .delete _ n =>
    if 0 ≤ n ∧ n < s.templates.length then ({ s with templates := s.templates.eraseIdx n.toNat }, 0)
    else (s, 1)
  | .load _ n => ({ s with buffer := s.templates.getD n.toNat s.buffer }, 0)
  | .edit cb => ({ s with buffer := cb.wTemplateBuffer }, 0)

/-- Names have at most 39 characters, and the numbers of templates to be loaded are in range. -/
def Request.Valid (s : Shelf) : Request → Prop
  | .save token => (dequote token.bytes).length ≤ 39
  | .load _ n => 0 ≤ n ∧ n < s.templates.length
  | _ => True

/-- The memory holds the list and the buffer. -/
structure Follows (w : World) (s : Shelf) : Prop where
  count : w.ipc.sysData.tplIndex = s.templates.length
  fits : s.templates.length ≤ maxTemplates
  templates : front w.ipc.sysData.tplLib s.templates.length = s.templates
  buffer : w.cb.wTemplateBuffer = s.buffer

/-! ## Saved templates -/

theorem pokeTmpl_eq_named (t : TmplDat) {name : List Byte} (h : name.length ≤ 39) :
    pokeTmpl t (name ++ [0]) = named t name := by
  obtain ⟨name', hpoke⟩ := pokeTmpl_of_short t h
  have hname : (pokeTmpl t (name ++ [0])).name = (pokeStr t.name (name ++ [0])).1 := rfl
  rw [hpoke] at hname ⊢
  rw [named, ← hname]

theorem named_rcnt (t : TmplDat) (name : List Byte) : (named t name).rcnt = t.rcnt := by
  unfold named
  rfl

theorem named_recs (t : TmplDat) (name : List Byte) : (named t name).recs = t.recs := by
  unfold named
  rfl

/-- The name can be read back. -/
theorem named_name (t : TmplDat) {name : List Byte} (h : name.length ≤ 39) (h0 : 0 ∉ name) :
    cString (named t name).name.toList = .ok name := by
  rw [named]
  exact cString_pokeStr t.name (Nat.lt_succ_of_le h) h0

/-! ## What the three routines do -/

variable {w : World} {s : Shelf} {env : Env}

theorem Follows.save (h : Follows w s) (hname : (dequote w.cb.token.bytes).length ≤ 39) :
    ∃ w' ret, c51 w = .ok (w', ret) ∧ Follows w' (Request.onShelf s (.save w.cb.token)).1 ∧
      ret = (Request.onShelf s (.save w.cb.token)).2 := by
  have hcount := h.count
  have hfits := h.fits
  by_cases hroom : s.templates.length < maxTemplates
  · have hfull : ¬ w.ipc.sysData.tplIndex + 1 > maxTemplates := by omega
    obtain ⟨tplLib, hs, hfront, -⟩ := store_append w.ipc.sysData.tplLib hroom
      (named w.cb.wTemplateBuffer (dequote w.cb.token.bytes))
    rw [h.templates, List.insertIdx_length_self] at hfront
    have hstep : Request.onShelf s (.save w.cb.token) =
        (⟨s.templates ++ [named s.buffer (dequote w.cb.token.bytes)],
          { s.buffer with rcnt := 0 }⟩, 0) := if_pos hroom
    refine ⟨(w.setSysData { w.ipc.sysData with
        tplLib := tplLib, tplIndex := w.ipc.sysData.tplIndex + 1 }).setCb
      { w.cb with
        token := w.cb.token.dequote
        wTemplateBuffer := { w.cb.wTemplateBuffer with rcnt := 0 } }, 0, ?_, ?_, ?_⟩
    · unfold c51
      dsimp only
      rw [if_neg hfull, hcount, Token.dequote, pokeTmpl_eq_named _ hname, hs]
      rfl
    · rw [hstep, ← h.buffer]
      have hlen : (s.templates ++ [named w.cb.wTemplateBuffer (dequote w.cb.token.bytes)]).length =
          s.templates.length + 1 := by simp
      refine ⟨?_, ?_, ?_, rfl⟩
      · rw [hlen]
        push_cast
        exact congrArg (· + 1) hcount
      · rw [hlen]
        exact hroom
      · rw [hlen]
        exact hfront
    · rw [hstep]
  · have hstep : Request.onShelf s (.save w.cb.token) = (s, 0) := if_neg hroom
    have hfull : w.ipc.sysData.tplIndex + 1 > maxTemplates := by omega
    refine ⟨w, 0, ?_, ?_, ?_⟩
    · unfold c51
      dsimp only
      rw [if_pos hfull]
      rfl
    · rw [hstep]
      exact h
    · rw [hstep]

theorem Follows.delete (h : Follows w s) :
    ∃ w' ret, c14 env w = .ok (w', ret) ∧
      Follows w' (Request.onShelf s (.delete env w.cb.tokenValue)).1 ∧
      ret = (Request.onShelf s (.delete env w.cb.tokenValue)).2 := by
  have hcount := h.count
  have hfits := h.fits
  by_cases hn : 0 ≤ w.cb.tokenValue ∧ w.cb.tokenValue < s.templates.length
  · obtain ⟨n, hn'⟩ := Int.eq_ofNat_of_zero_le hn.1
    have hlt : n < s.templates.length := by omega
    have hin : ¬ (w.cb.tokenValue < 0 ∨ w.cb.tokenValue > w.ipc.sysData.tplIndex - 1) := by omega
    obtain ⟨tplLib, hs, hfront, -⟩ :=
      shiftDown_erase env.strayTmpl w.ipc.sysData.tplLib hlt hfits
    rw [h.templates] at hfront
    have hk : (w.ipc.sysData.tplIndex - 1 - w.cb.tokenValue).toNat =
        s.templates.length - 1 - n := by omega
    have hstep : Request.onShelf s (.delete env w.cb.tokenValue) =
        ({ s with templates := s.templates.eraseIdx n }, 0) := by
      rw [Request.onShelf, if_pos hn, hn', Int.toNat_natCast]
    refine ⟨w.setSysData { w.ipc.sysData with
      tplLib := tplLib, tplIndex := w.ipc.sysData.tplIndex - 1 }, 0, ?_, ?_, ?_⟩
    · unfold c14
      dsimp only
      rw [if_neg hin, hk, hn', hs]
      rfl
    · rw [hstep]
      have hlen := List.length_eraseIdx_of_lt hlt
      refine ⟨?_, ?_, ?_, h.buffer⟩
      · rw [hlen]
        simp only [World.setSysData]
        omega
      · rw [hlen]
        omega
      · rw [hlen]
        exact hfront
    · rw [hstep]
  · have hstep : Request.onShelf s (.delete env w.cb.tokenValue) = (s, 1) := if_neg hn
    have hout : w.cb.tokenValue < 0 ∨ w.cb.tokenValue > w.ipc.sysData.tplIndex - 1 := by omega
    refine ⟨w, 1, ?_, ?_, ?_⟩
    · unfold c14
      dsimp only
      rw [if_pos hout]
      rfl
    · rw [hstep]
      exact h
    · rw [hstep]

theorem Follows.load (h : Follows w s)
    (hn : 0 ≤ w.cb.tokenValue ∧ w.cb.tokenValue < s.templates.length) :
    ∃ w' ret, c61 env w = .ok (w', ret) ∧
      Follows w' (Request.onShelf s (.load env w.cb.tokenValue)).1 ∧
      ret = (Request.onShelf s (.load env w.cb.tokenValue)).2 := by
  have hfits := h.fits
  obtain ⟨n, hn'⟩ := Int.eq_ofNat_of_zero_le hn.1
  have hlt : n < s.templates.length := by omega
  refine ⟨_, 0, rfl, ⟨h.count, h.fits, h.templates, ?_⟩, rfl⟩
  have hget : s.templates[n] = w.ipc.sysData.tplLib[n] := by
    have hfront : n < (front w.ipc.sysData.tplLib s.templates.length).length := by
      rwa [length_front _ hfits]
    rw [← getElem_front w.ipc.sysData.tplLib hfront]
    exact (List.getElem_of_eq h.templates hfront).symm
  simp only [World.setCb, Request.onShelf, hn', Int.toNat_natCast]
  rw [peek_natCast _ _ (hlt.trans_le hfits), ← hget, List.getD_eq_getElem?_getD,
    List.getElem?_eq_getElem hlt, Option.getD_some]

/-! ## Sessions -/

/-- A request, behind the values that the requests before it have returned. -/
def Request.exec (x : World × List ℤ) (r : Request) : Except Stop (World × List ℤ) := do
  let (w, ret) ← r.run x.1
  return (w, x.2 ++ [ret])

def Request.step (y : Shelf × List ℤ) (r : Request) : Shelf × List ℤ :=
  ((r.onShelf y.1).1, y.2 ++ [(r.onShelf y.1).2])

/-- **Each request does to the memory what it does to the list.** -/
theorem Follows.run (h : Follows w s) {r : Request} (hr : r.Valid s) :
    ∃ w' ret, r.run w = .ok (w', ret) ∧ Follows w' (r.onShelf s).1 ∧ ret = (r.onShelf s).2 := by
  cases r with
  | save token => exact Follows.save (w := w.feed token) ⟨h.count, h.fits, h.templates, h.buffer⟩ hr
  | delete env n =>
    exact Follows.delete (w := w.setCb { w.cb with tokenValue := n })
      ⟨h.count, h.fits, h.templates, h.buffer⟩
  | load env n =>
    exact Follows.load (w := w.setCb { w.cb with tokenValue := n })
      ⟨h.count, h.fits, h.templates, h.buffer⟩ hr
  | edit cb => exact ⟨_, _, rfl, ⟨h.count, h.fits, h.templates, rfl⟩, rfl⟩

/-- The memory holds the list, and the same values have been returned. -/
structure Answers (x : World × List ℤ) (y : Shelf × List ℤ) : Prop where
  follows : Follows x.1 y.1
  rets : x.2 = y.2

theorem Answers.step {x : World × List ℤ} {y : Shelf × List ℤ} (h : Answers x y) {r : Request}
    (hr : r.Valid y.1) : ∃ x', r.exec x = .ok x' ∧ Answers x' (Request.step y r) := by
  obtain ⟨w', ret, hrun, hfollows, hret⟩ := h.follows.run hr
  refine ⟨(w', x.2 ++ [ret]), ?_, hfollows, ?_⟩
  · simp only [Request.exec, hrun, bind, Except.bind]
    rfl
  · rw [hret, h.rets, Request.step]

/-- The templates in the memory. -/
def shelfOf (w : World) : Shelf :=
  ⟨front w.ipc.sysData.tplLib w.ipc.sysData.tplIndex.toNat, w.cb.wTemplateBuffer⟩

theorem follows_shelfOf (h0 : 0 ≤ w.ipc.sysData.tplIndex)
    (h : w.ipc.sysData.tplIndex ≤ maxTemplates) : Follows w (shelfOf w) := by
  have hlen : (shelfOf w).templates.length = w.ipc.sysData.tplIndex.toNat :=
    length_front _ (by omega)
  refine ⟨?_, ?_, ?_, rfl⟩
  · omega
  · omega
  · rw [hlen]
    rfl

/-- **The library is a list of at most `maxTemplates` templates.** A session in which every name
fits and every template that is loaded is there runs to its end. It returns what the list returns,
and the memory then holds the list. A template that was saved has the records of the buffer and the
name that was typed. -/
theorem library_refines (h0 : 0 ≤ w.ipc.sysData.tplIndex)
    (h : w.ipc.sysData.tplIndex ≤ maxTemplates) (rs : List Request)
    (hrs : Along (fun y r => Request.Valid y.1 r) Request.step (shelfOf w, []) rs) :
    (∃ w' rets, rs.foldlM Request.exec (w, []) = .ok (w', rets) ∧
      Follows w' (rs.foldl Request.step (shelfOf w, [])).1 ∧
      rets = (rs.foldl Request.step (shelfOf w, [])).2) ∧
    ∀ (t : TmplDat) (token : Token), (dequote token.bytes).length ≤ 39 →
      (named t (dequote token.bytes)).rcnt = t.rcnt ∧
      (named t (dequote token.bytes)).recs = t.recs ∧
      cString (named t (dequote token.bytes)).name.toList = .ok (dequote token.bytes) := by
  constructor
  · obtain ⟨⟨w', rets⟩, hrun, ⟨hfollows, hrets⟩⟩ := foldlM_simulation_along
      (f := Request.exec) (R := Answers) (fun _ _ _ hxy hr => hxy.step hr) rs (w, [])
      (shelfOf w, []) ⟨follows_shelfOf h0 h, rfl⟩ hrs
    exact ⟨w', rets, hrun, hfollows, hrets⟩
  · intro t token hname
    have h0 : 0 ∉ dequote token.bytes := fun hmem => token.noNul (List.mem_of_mem_filter hmem)
    exact ⟨named_rcnt .., named_recs .., named_name t hname h0⟩

def noon : Token := ⟨str "noon", by decide, by decide⟩

/-- A template is saved and loaded again, and a number that it does not have is refused. -/
def noonSession : List Request := [.save noon, .load .calm 0, .delete .calm 3]

theorem noonSession_valid : Along (fun y r => Request.Valid y.1 r) Request.step
    (shelfOf World.zero, []) noonSession := by
  have hsave : (shelfOf World.zero).templates.length < maxTemplates := by decide +kernel
  have hname : (dequote noon.bytes).length ≤ 39 := by decide
  refine ⟨hname, ?_, trivial, trivial⟩
  simp only [Request.step, Request.onShelf, if_pos hsave, Request.Valid, List.length_append,
    List.length_singleton]
  omega

theorem library_refines_noon : ∃ w', noonSession.foldlM Request.exec (World.zero, []) =
    .ok (w', [0, 0, 1]) ∧ w'.ipc.sysData.tplIndex = 1 := by
  obtain ⟨⟨w', rets, hrun, hfollows, hrets⟩, -⟩ :=
    library_refines (w := World.zero) le_rfl (by decide) noonSession noonSession_valid
  have hanswers : (noonSession.foldl Request.step (shelfOf World.zero, [])).2 = [0, 0, 1] := by
    decide +kernel
  have hcount :
      (noonSession.foldl Request.step (shelfOf World.zero, [])).1.templates.length = 1 := by
    decide +kernel
  refine ⟨w', by rw [hrun, hrets, hanswers], ?_⟩
  rw [hfollows.count, hcount]
  rfl

/-! ## Templates that are not there -/

/-- `c_61` refuses the number: it returns an error and leaves the buffer and the library alone, and
what it does is the same with any other library. -/
structure LoadRefused (env : Env) (w : World) : Prop where
  refuses : ∃ w' ret, c61 env w = .ok (w', ret) ∧ ret ≠ 0 ∧
    w'.cb.wTemplateBuffer = w.cb.wTemplateBuffer ∧ w'.ipc.sysData.tplLib = w.ipc.sysData.tplLib ∧
    w'.ipc.sysData.tplIndex = w.ipc.sysData.tplIndex
  unread : ∀ (env' : Env) (tplLib : Vector TmplDat maxTemplates) (w₁ w₂ : World) (ret₁ ret₂ : ℤ),
    c61 env w = .ok (w₁, ret₁) →
    c61 env' (w.setSysData { w.ipc.sysData with tplLib := tplLib }) = .ok (w₂, ret₂) →
    w₂.cb = w₁.cb ∧ ret₂ = ret₁

/-- The only entry for `c_61` leads from state 22 to state 4. -/
theorem entry_c61 : ∀ (i : Fin cmdTokens) (s : Fin cmdStates),
    (cmdAction.get i).get s = .c61 → s.val = 22 ∧ (cmdNewState.get i).get s = 4 :=
  forall_entries (P := fun _ s new act => act = .c61 → s = 22 ∧ new = 4) (by decide +kernel)

theorem not_loadRefused (env : Env) (w : World) : ¬ LoadRefused env w := by
  rintro ⟨⟨w', ret, hrun, hret, -⟩, -⟩
  cases hrun
  exact hret rfl

/-- **No number is refused.** Whatever the number, `c_61` returns 0, and the command processor goes
on to state 4 with what lies at that place of the library in the buffer. -/
theorem load_never_refused (env : Env) (w : World) :
    ¬ LoadRefused env w ∧
    ∀ w₁ index, dispatch w = .ok (w₁, some (index, .c61)) → ∃ w', cmdFsm env w = .ok w' ∧
      w.cb.state = 22 ∧ w'.cb.state = 4 ∧ w'.queue = w.queue ∧
      w'.cb.wTemplateBuffer = peek env.strayTmpl w.ipc.sysData.tplLib w₁.cb.tokenValue := by
  refine ⟨not_loadRefused env w, fun w₁ index hd => ?_⟩
  obtain ⟨token, tt, value, rfl, hentry⟩ := dispatch_cases hd
  obtain ⟨⟨i, s, rfl, hs, hact⟩, -⟩ := hentry index .c61 rfl
  obtain ⟨h22, h4⟩ := entry_c61 i s hact
  have hnew : entry cmdNewState i.val w.cb.state = .ok 4 := by
    rw [hs, entry, load_natCast _ i.isLt, ← h4]
    exact load_natCast _ s.isLt
  refine ⟨w.setCb { w.cb with
    state := 4, token := token, tokenType := tt, tokenValue := value,
    wTemplateBuffer := peek env.strayTmpl w.ipc.sysData.tplLib value }, ?_, hs.trans h22, rfl, rfl,
    rfl⟩
  unfold cmdFsm
  simp only [hd, bind, Except.bind, Act.run, c61, World.setCb, if_true, hnew]
  rfl

/-- The library is empty and the number is 3. -/
def absent : World := World.zero.setCb { CmdFsmCb.zero with state := 22, tokenValue := 3 }

/-- The code does not refuse numbers that are out of range. -/
theorem load_not_refused : ¬ ∀ (env : Env) (w : World),
    (w.cb.tokenValue < 0 ∨ w.ipc.sysData.tplIndex ≤ w.cb.tokenValue) → LoadRefused env w := by
  intro hall
  have hout : absent.ipc.sysData.tplIndex ≤ absent.cb.tokenValue := by decide
  exact not_loadRefused .calm absent (hall .calm absent (.inr hout))

end PconTng.Library
