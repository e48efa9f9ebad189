import PconTng.CharFsm.Bounds
import PconTng.CmdFsm.Restore
import PconTng.Pcon.Typing

/-!
# The console

The whole of the loop of `main` in `Pcon.c`. A key goes to the line editor; a carriage return passes
the line to the character input parser, whose tokens the command processor takes off the queue one
after the other, before the next key is read. An escape resets all three. The prompt that is written
then lists the schedule buffer in the state in which it is edited, and ends the program if its
record count is out of range.

A session in which lines are typed and edited does to the rest of the program what its lines mean
(`session_means`): the tokens of each line are commands, in order, up to the first one that is
refused.
-/

namespace PconTng.Console

open CMemory CArray CharFsm LineEditor Cursor

/-! ## The loop -/

/-- The memory of the loop: the line editor, the character input parser, the command processor, and
the number of tokens that it has taken. -/
structure State where
  editor : Editor
  chars : Globals
  world : World
  taken : ℕ

/-- At the start of the loop, on the given shared memory and backup file. The working schedule is
the one of the system. -/
def State.start (ipc : IpcDat) (bkup : Option Backup) : State :=
  ⟨.start, .start, ⟨{ CmdFsmCb.zero with wSch := ipc.sysData.sysSch }, ipc, [], bkup⟩, 0⟩

/-- A string in the token buffer. -/
def toToken (bs : List Byte) : Except Stop Token :=
  if h : bs.length < maxTokenSize ∧ 0 ∉ bs then .ok ⟨bs, h.1, h.2⟩ else .error .fault

theorem toToken_bytes (t : Token) : toToken t.bytes = .ok t := dif_pos ⟨t.fits, t.noNul⟩

/-- The token in a block as `pop_cmd_q` puts it into the token buffer. -/
def popped (block : Block) : Except Stop Token := do toToken (← block.read)

/-- `while (pop_cmd_q(cmd_fsm_cb.token)) cmd_fsm(&cmd_fsm_cb)`, with `env` for what lies outside the
program at each token. The queue does not grow, so `fuel` does not run out if it is longer. -/
def drain (env : ℕ → Env) : ℕ → State → Except Stop State
  | 0, _ => .error .fault
  | fuel + 1, s =>
    match s.world.queue with
    | [] => .ok { s with world := s.world.feed Token.empty }
    | t :: queue => do
      let w ← cmdFsm (env s.taken) { s.world.feed t with queue := queue }
      drain env fuel { s with world := w, taken := s.taken + 1 }

/-- Reset the character input parser and pass a line to it. Its queue is then that of the command
processor. -/
def accept (line : List Byte) (s : State) : Except Stop State := do
  let chars ← line.foldlM charFsm (charFsmReset s.chars)
  let queue ← chars.head.mapM popped
  return { s with chars := { chars with head := [] }, world := { s.world with queue := queue } }

/-- What an escape does to the two state machines. -/
def reset (s : State) : State :=
  { s with
    chars := charFsmReset s.chars
    world := { s.world.setCb (cmdFsmReset s.world.cb) with queue := [] } }

/-- `prompt`, without the text. In state 4 `build_prompt` prints the schedule buffer. -/
def prompt (w : World) : Except Stop Unit :=
  if w.cb.state = 4 then printTemps w.cb.wTemplateBuffer else .ok ()

/-- The keys after which the prompt is written even if no token has been taken: an escape, an arrow
up or down, and a character that is put in front of others. -/
def Prompts (s : Editor) : Key → Prop
  | .up | .down | .escape => True
  | .other _ => s.workBufferPtr ≤ Editor.endBuff ∧ s.inputPtr ≠ s.workBufferPtr
  | _ => False

instance (s : Editor) (k : Key) : Decidable (Prompts s k) :=
  match k with
  | .up | .down | .escape => isTrue trivial
  | .other _ => inferInstanceAs
      (Decidable (s.workBufferPtr ≤ Editor.endBuff ∧ s.inputPtr ≠ s.workBufferPtr))
  | .noChar | .right | .left | .cr | .del => isFalse id

/-- What a key does outside of the line editor, which has passed on `line`. -/
def handle (line : List Byte) (s : State) : Key → Except Stop State
  | .cr => accept line s
  | .escape => .ok (reset s)
  | _ => .ok s

/-- The code for a key, and the queue and the prompt before the next one is read. -/
def key (stray : ℤ → Row) (env : ℕ → Env) (s : State) (k : Key) : Except Stop State := do
  let (editor, line) ← press stray s.editor k
  let s₁ ← handle line { s with editor := editor } k
  let s₂ ← drain env (s₁.world.queue.length + 1) s₁
  if s₁.world.queue ≠ [] ∨ Prompts s.editor k then prompt s₂.world
  return s₂

/-! ## What a line means -/

/-- What a session has done to the rest of the program. -/
def outcome (s : State) : World × ℕ := (s.world, s.taken)

/-- The commands of a line. The rest of it is dropped when one of them empties the queue. -/
def runTokens (env : ℕ → Env) : World → ℕ → List Token → Except Stop (World × ℕ)
  | w, n, [] => .ok (w.feed Token.empty, n)
  | w, n, t :: ts => do
    let w' ← cmdFsm (env n) { w.feed t with queue := ts }
    if w'.queue = ts then runTokens env w' (n + 1) ts else return (w'.feed Token.empty, n + 1)

/-- A token of a line in the token buffer. A string does not get there. -/
def received (bs : List Byte) : Except Stop Token :=
  if bs.head? = some quote then .error .fault else toToken bs

/-- A line, given to the command processor after it has taken some tokens, and the next prompt. -/
def runLine (env : ℕ → Env) (p : World × ℕ) (line : List Byte) : Except Stop (World × ℕ) := do
  let p' ← runTokens env p.1 p.2 (← (lineTokens line).mapM received)
  prompt p'.1
  return p'

/-- The line that is left of what has been typed. -/
def typed (es : List (Edit Insertable)) : List Byte := bytes (es.foldl Line.edit .empty)

/-- The keys of a line. -/
def keys (es : List (Edit Insertable)) : List Key := es.map keyOf ++ [.cr]

/-- The line stays inside the work buffer while it is typed, and inside the input buffer at the
end. -/
structure Typable (es : List (Edit Insertable)) : Prop where
  room : Along (fun l e => (l.edit e).text.length < inputBufferSize) Line.edit .empty es
  short : (typed es).length + 1 < inputBufferSize
  fits : Fits (typed es)

/-! ## A text from left to right -/

/-- The keys of a text. -/
def written (text : List Insertable) : List (Edit Insertable) := text.map .insert

theorem edit_insert_end {l : Line Insertable} (h : l.cursor = l.text.length) (c : Insertable) :
    (l.edit (.insert c)).text = l.text ++ [c] ∧
      (l.edit (.insert c)).cursor = (l.text ++ [c]).length := by
  simp [Line.edit, Line.insert, h]

theorem foldl_written {l : Line Insertable} (h : l.cursor = l.text.length)
    (text : List Insertable) : ((written text).foldl Line.edit l).text = l.text ++ text := by
  induction text generalizing l with
  | nil => exact (List.append_nil _).symm
  | cons c text ih =>
    obtain ⟨htext, hcursor⟩ := edit_insert_end h c
    rw [← htext] at hcursor
    rw [written, List.map_cons, List.foldl_cons, ← written, ih hcursor, htext, List.append_assoc,
      List.singleton_append]

theorem cursor_empty :
    (.empty : Line Insertable).cursor = (.empty : Line Insertable).text.length := rfl

theorem typed_written (text : List Insertable) :
    typed (written text) = text.map Subtype.val := by
  have htext := foldl_written cursor_empty text
  rw [typed, bytes, htext]
  rfl

theorem along_written {l : Line Insertable} (h : l.cursor = l.text.length)
    {text : List Insertable} (hlt : l.text.length + text.length < inputBufferSize) :
    Along (fun l e => (l.edit e).text.length < inputBufferSize) Line.edit l (written text) := by
  induction text generalizing l with
  | nil => trivial
  | cons c text ih =>
    obtain ⟨htext, hcursor⟩ := edit_insert_end h c
    have hlen : (l.edit (.insert c)).text.length = l.text.length + 1 := by
      rw [htext, List.length_append, List.length_singleton]
    rw [List.length_cons] at hlt
    exact ⟨by omega, ih (htext ▸ hcursor) (by omega)⟩

/-- A text can be typed when it fits with the end of the line. -/
theorem typable_written {text : List Insertable} (hlen : text.length + 1 < inputBufferSize)
    (hfits : Fits (text.map Subtype.val)) : Typable (written text) := by
  have htyped := typed_written text
  refine ⟨along_written cursor_empty ?_, ?_, htyped ▸ hfits⟩
  · exact (Nat.zero_add _).trans_lt (Nat.lt_of_succ_lt hlen)
  · rwa [htyped, List.length_map]

/-! ## Draining the queue -/

variable {env : ℕ → Env} {stray : ℤ → Row} {s s' : State}

/-- The loop over the queue runs its tokens as a line. -/
theorem drain_eq {fuel : ℕ} (hfuel : s.world.queue.length < fuel) : drain env fuel s =
    (runTokens env s.world s.taken s.world.queue).map fun p =>
      { s with world := p.1, taken := p.2 } := by
  induction fuel generalizing s with
  | zero => exact absurd hfuel (Nat.not_lt_zero _)
  | succ fuel ih =>
    rw [drain]
    cases hqueue : s.world.queue with
    | nil => rfl
    | cons t ts =>
      rw [hqueue, List.length_cons] at hfuel
      simp only [runTokens, bind, Except.bind]
      cases hw : cmdFsm (env s.taken) { s.world.feed t with queue := ts } with
      | error e => rfl
      | ok w =>
        dsimp only
        split_ifs with hsame
        · rw [ih (hsame ▸ Nat.lt_of_succ_lt_succ hfuel), hsame]
        · -- the rest of the line has been dropped, and the loop ends
          have hempty : w.queue = [] := (cmdFsm_queue hw).resolve_left hsame
          obtain ⟨f, rfl⟩ :=
            Nat.exists_eq_succ_of_ne_zero (Nat.ne_zero_of_lt (Nat.lt_of_succ_lt_succ hfuel))
          rw [drain]
          dsimp only
          rw [hempty]
          rfl

theorem runTokens_queue {w : World} (hw : w.queue = []) (n : ℕ) (ts : List Token) :
    runTokens env { w with queue := ts } n ts = runTokens env w n ts := by
  cases ts with
  | nil => rw [← hw]
  | cons t ts => rfl

/-- After a line the token buffer and the queue are empty. -/
theorem runTokens_idle {w w' : World} {n n' : ℕ} {ts : List Token} (hw : w.queue = ts)
    (h : runTokens env w n ts = .ok (w', n')) : w'.queue = [] ∧ w'.cb.token = Token.empty := by
  induction ts generalizing w n with
  | nil =>
    cases h
    exact ⟨hw, rfl⟩
  | cons t ts ih =>
    obtain ⟨w₁, hw₁, h⟩ := bind_eq_ok.1 h
    split_ifs at h with hsame
    · exact ih hsame h
    · cases h
      exact ⟨(cmdFsm_queue hw₁).resolve_left hsame, rfl⟩

/-! ## Between the keys -/

/-- The queue is empty and so is the token buffer, and the prompt can be written. -/
structure Idle (s : State) : Prop where
  queue : s.world.queue = []
  token : s.world.cb.token = Token.empty
  prompt : prompt s.world = .ok ()
  inv : Inv s.editor

theorem idle_start (ipc : IpcDat) (bkup : Option Backup) : Idle (.start ipc bkup) :=
  ⟨rfl, rfl, rfl, inv_start⟩

/-- Nothing is in the queue, so the loop over it does nothing. -/
theorem Idle.drain (h : Idle s) (fuel : ℕ) : drain env (fuel + 1) s = .ok s := by
  have hfeed : s.world.feed Token.empty = s.world := by
    unfold World.feed World.setCb
    rw [← h.token]
  simp only [Console.drain, h.queue, hfeed]

/-- The loop over the queue touches the command processor only. -/
theorem drain_cases {fuel : ℕ} (hfuel : s.world.queue.length < fuel)
    (h : Console.drain env fuel s = .ok s') :
    s'.editor = s.editor ∧ s'.world.queue = [] ∧ s'.world.cb.token = Token.empty := by
  rw [drain_eq hfuel] at h
  cases hrun : runTokens env s.world s.taken s.world.queue with
  | error e =>
    rw [hrun] at h
    cases h
  | ok p =>
    rw [hrun] at h
    cases h
    exact ⟨rfl, runTokens_idle rfl hrun⟩

theorem handle_editor {line : List Byte} {k : Key} (h : handle line s k = .ok s') :
    s'.editor = s.editor := by
  cases k with
  | cr =>
    obtain ⟨chars, -, h⟩ := bind_eq_ok.1 h
    obtain ⟨queue, -, h⟩ := bind_eq_ok.1 h
    cases h
    rfl
  | _ =>
    cases h
    rfl

/-- What is prompted for is what it was, except after an escape. -/
theorem handle_prompt {line : List Byte} {k : Key} (h : handle line s k = .ok s')
    (hk : k ≠ .escape) : prompt s'.world = prompt s.world := by
  cases k with
  | cr =>
    obtain ⟨chars, -, h⟩ := bind_eq_ok.1 h
    obtain ⟨queue, -, h⟩ := bind_eq_ok.1 h
    cases h
    rfl
  | escape => exact absurd rfl hk
  | _ =>
    cases h
    rfl

/-- The steps of a key. -/
theorem key_eq_ok {k : Key} (h : Console.key stray env s k = .ok s') :
    ∃ editor line s₁, press stray s.editor k = .ok (editor, line) ∧
      handle line { s with editor := editor } k = .ok s₁ ∧
      drain env (s₁.world.queue.length + 1) s₁ = .ok s' ∧
      (s₁.world.queue ≠ [] ∨ Prompts s.editor k → prompt s'.world = .ok ()) := by
  obtain ⟨⟨editor, line⟩, hpress, h⟩ := bind_eq_ok.1 h
  obtain ⟨s₁, hs₁, h⟩ := bind_eq_ok.1 h
  obtain ⟨s₂, hs₂, h⟩ := bind_eq_ok.1 h
  refine ⟨editor, line, s₁, hpress, hs₁, ?_⟩
  dsimp only at h
  split_ifs at h with hprompts
  · obtain ⟨⟨⟩, hprompt, h⟩ := bind_eq_ok.1 h
    cases h
    exact ⟨hs₂, fun _ => hprompt⟩
  · cases h
    exact ⟨hs₂, fun hp => absurd hp hprompts⟩

/-- The line editor takes the key, and then the queue is drained. -/
theorem key_cases {k : Key} (h : Console.key stray env s k = .ok s') :
    step stray s.editor k = .ok s'.editor ∧ s'.world.queue = [] ∧
      s'.world.cb.token = Token.empty := by
  obtain ⟨editor, line, s₁, hpress, hs₁, hs', -⟩ := key_eq_ok h
  obtain ⟨heditor, hrest⟩ := drain_cases (Nat.lt_succ_self _) hs'
  refine ⟨?_, hrest⟩
  rw [heditor, handle_editor hs₁]
  unfold step
  rw [hpress]
  rfl

/-- Between two keys the console is idle. -/
theorem Idle.key {k : Key} (h : Idle s) (hs : Console.key stray env s k = .ok s') : Idle s' := by
  obtain ⟨hstep, hqueue, htoken⟩ := key_cases hs
  refine ⟨hqueue, htoken, ?_, h.inv.step hstep⟩
  obtain ⟨editor, line, s₁, -, hs₁, hs', hprompt⟩ := key_eq_ok hs
  by_cases hk : k = .escape
  · subst hk
    exact hprompt (.inr trivial)
  by_cases hempty : s₁.world.queue = []
  · -- no token has been taken
    rw [Console.drain, hempty] at hs'
    cases hs'
    exact (handle_prompt hs₁ hk).trans h.prompt
  · exact hprompt (.inl hempty)

theorem idle_run {ipc : IpcDat} {bkup : Option Backup} {before : List Key}
    (hs : before.foldlM (Console.key stray env) (.start ipc bkup) = .ok s) : Idle s :=
  foldlM_invariant (fun _ _ _ h hs => h.key hs) before _ s (idle_start ipc bkup) hs

/-- Keys other than these two are for the line editor alone. -/
theorem Idle.quiet (h : Idle s) {k : Key} (hcr : k ≠ .cr) (hescape : k ≠ .escape) {editor : Editor}
    (hstep : step stray s.editor k = .ok editor) :
    Console.key stray env s k = .ok { s with editor := editor } := by
  have hinv := h.inv.step hstep
  obtain ⟨line, hpress⟩ := step_eq_ok.1 hstep
  have hidle : Idle { s with editor := editor } := ⟨h.queue, h.token, h.prompt, hinv⟩
  have hhandle : handle line { s with editor := editor } k = .ok { s with editor := editor } := by
    cases k <;> first | rfl | exact absurd rfl hcr | exact absurd rfl hescape
  simp only [Console.key, hpress, hhandle, bind, Except.bind, hidle.drain, h.prompt]
  split_ifs <;> rfl

/-- The keys that edit a line make their edits, and keep what each of them keeps. -/
theorem Idle.edits (stray : ℤ → Row) (env : ℕ → Env) (h : Idle s) {l : Line Insertable}
    (hholds : LineEditor.Holds s.editor l) (hlen : l.text.length < inputBufferSize)
    {P : Editor → Prop}
    (keep : ∀ (s s' : Editor) (e : Edit Insertable), P s → step stray s (keyOf e) = .ok s' → P s')
    (hP : P s.editor) {es : List (Edit Insertable)}
    (hroom : Along (fun l e => (l.edit e).text.length < inputBufferSize) Line.edit l es) :
    ∃ s', (es.map keyOf).foldlM (Console.key stray env) s = .ok s' ∧ Idle s' ∧
      LineEditor.Holds s'.editor (es.foldl Line.edit l) ∧ P s'.editor ∧ outcome s' = outcome s := by
  rw [List.foldlM_map]
  obtain ⟨s', hrun, hs', -⟩ := foldlM_simulation_along
    (f := fun s e => Console.key stray env s (keyOf e))
    (R := fun s₁ l => (Idle s₁ ∧ LineEditor.Holds s₁.editor l ∧ P s₁.editor ∧
      outcome s₁ = outcome s) ∧ l.text.length < inputBufferSize)
    (fun s₁ l e ⟨⟨hidle, hholds, hP, hsame⟩, hfit⟩ hlt => by
      obtain ⟨editor, hstep, hholds'⟩ : ∃ editor, step stray s₁.editor (keyOf e) = .ok editor ∧
        LineEditor.Holds editor (l.edit e) := hholds.edit hfit e hlt
      have hkey : Console.key stray env s₁ (keyOf e) = .ok { s₁ with editor := editor } :=
        hidle.quiet (by cases e <;> exact nofun) (by cases e <;> exact nofun) hstep
      exact ⟨_, hkey, ⟨hidle.key hkey, hholds', keep _ _ _ hP hstep, hsame⟩, hlt⟩)
    es s l ⟨⟨h, hholds, hP, rfl⟩, hlen⟩ hroom
  exact ⟨s', hrun, hs'⟩

/-! ## A whole line -/

theorem popped_eq {b : Block} {bs : List Byte} (h : CharFsm.Holds b bs) :
    popped b = received bs := by
  unfold popped Block.read received
  by_cases hq : bs.head? = some quote
  · rw [if_neg (not_le.2 (h.overrun.2 hq)), if_pos hq]
    rfl
  · rw [if_pos (not_lt.1 fun hlt => hq (h.overrun.1 hlt)), if_neg hq, h.string]
    rfl

theorem mapM_popped {blocks : List Block} {ts : List (List Byte)} (h : BlocksOf blocks ts) :
    blocks.mapM popped = ts.mapM received := by
  induction h with
  | nil => rfl
  | cons hb _ ih => rw [List.mapM_cons, List.mapM_cons, ih, popped_eq hb]

/-- A token of another type is not a string. -/
theorem received_bytes {t : Token} (h : (tokenType t).2 ≠ ttStr) : received t.bytes = .ok t := by
  refine (if_neg fun hq => h ?_).trans (toToken_bytes t)
  obtain ⟨bs, hbs⟩ := List.head?_eq_some_iff.1 hq
  simp only [tokenType, hbs]
  rw [if_neg (by decide)]
  rfl

theorem mapM_received {ts : List Token} (h : ∀ t ∈ ts, (tokenType t).2 ≠ ttStr) :
    (ts.map Token.bytes).mapM received = .ok ts := by
  induction ts with
  | nil => rfl
  | cons t ts ih =>
    rw [List.forall_mem_cons] at h
    rw [List.map_cons, List.mapM_cons, received_bytes h.1, ih h.2]
    rfl

/-- A line has a token. -/
theorem mapM_received_ne_nil {line : List Byte} {ts : List Token}
    (h : (lineTokens line).mapM received = .ok ts) : ts ≠ [] := by
  rintro rfl
  cases htokens : lineTokens line with
  | nil =>
    unfold lineTokens at htokens
    split_ifs at htokens with hnone
    exact hnone htokens
  | cons t rest =>
    rw [htokens, List.mapM_cons] at h
    obtain ⟨u, -, h⟩ := bind_eq_ok.1 h
    obtain ⟨us, -, h⟩ := bind_eq_ok.1 h
    cases h

/-- A line that fits is cut into its tokens. -/
theorem accept_eq {line : List Byte} (hline : ∀ c ∈ line, Typed c) (hfits : Fits line) (s : State) :
    accept (line ++ [carriageReturn]) s = ((lineTokens line).mapM received).map fun queue =>
      { s with chars := .start, world := { s.world with queue := queue } } := by
  have hlen : (stores 0 (line ++ [carriageReturn])).length + line.count quote % 2 =
      ((lineTokens line).map (·.length + 1)).sum + 1 := length_stores hline (.inl rfl)
  unfold Fits at hfits
  obtain ⟨k, hk⟩ : ∃ k, (stores 0 (line ++ [carriageReturn])).length + k = inputBufferSize :=
    ⟨_, Nat.add_sub_of_le (by omega)⟩
  obtain ⟨blocks, hrun, hblocks⟩ := foldlM_charFsm_line s.chars hline hk
  rw [if_neg (by omega)] at hrun
  simp only [accept, hrun, bind, Except.bind, mapM_popped hblocks]
  cases (lineTokens line).mapM received <;> rfl

theorem typed_bytes (l : Line Insertable) : ∀ c ∈ bytes l, Typed c := by
  intro c hc hmem
  obtain ⟨d, -, rfl⟩ := List.mem_map.1 hc
  refine d.property ?_
  simp only [List.mem_cons, List.not_mem_nil, or_false] at hmem ⊢
  tauto

/-- A carriage return runs the line in the work buffer. -/
theorem Idle.submit {l : Line Insertable} (h : Idle s) (hholds : LineEditor.Holds s.editor l)
    (hshort : l.text.length + 1 < inputBufferSize) (hfits : Fits (bytes l)) :
    ([Key.cr].foldlM (Console.key stray env) s).map outcome =
      runLine env (outcome s) (bytes l) := by
  rw [List.foldlM_cons, show (fun s => [].foldlM (Console.key stray env) s) = pure from rfl,
    bind_pure]
  obtain ⟨editor, hcr⟩ := hholds.cr h.inv hshort
  have hpress : press stray s.editor .cr = .ok (editor, bytes l ++ [carriageReturn]) := hcr
  simp only [Console.key, hpress, handle, accept_eq (typed_bytes l) hfits, runLine, outcome, bind,
    Except.bind]
  cases hts : (lineTokens (bytes l)).mapM received with
  | error e => rfl
  | ok ts =>
    have hne : ts ≠ [] := mapM_received_ne_nil hts
    simp only [Except.map, hne, ne_eq, not_false_eq_true, true_or, if_true]
    rw [drain_eq (by exact Nat.lt_succ_self _)]
    dsimp only
    rw [runTokens_queue h.queue]
    cases runTokens env s.world s.taken ts with
    | error e => rfl
    | ok p =>
      simp only [Except.map]
      cases Console.prompt p.1 <;> rfl

/-- The keys of a line that is typed, in a console whose line is empty. -/
theorem Idle.line (stray : ℤ → Row) (env : ℕ → Env) (h : Idle s) (hblank : Blank s.editor)
    {es : List (Edit Insertable)} (ht : Typable es) :
    ((keys es).foldlM (Console.key stray env) s).map outcome =
      runLine env (outcome s) (typed es) := by
  obtain ⟨s₁, hrun, hidle, hholds, -, hsame⟩ := h.edits stray env hblank.holds (by decide)
    (P := fun _ => True) (fun _ _ _ _ _ => trivial) trivial ht.room
  have hlen : (es.foldl Line.edit .empty).text.length + 1 < inputBufferSize := by
    rw [← length_bytes]
    exact ht.short
  rw [keys, List.foldlM_append, hrun, ← hsame]
  exact hidle.submit hholds hlen ht.fits

/-- After a line, the next one can be typed. -/
theorem Idle.after_line (h : Idle s) {es : List (Edit Insertable)}
    (hs : (keys es).foldlM (Console.key stray env) s = .ok s') : Idle s' ∧ Blank s'.editor := by
  rw [keys, List.foldlM_append] at hs
  obtain ⟨s₁, hs₁, hs⟩ := bind_eq_ok.1 hs
  have hidle : Idle s₁ := foldlM_invariant (fun _ _ _ h hs => h.key hs) _ s s₁ h hs₁
  have hcr : Console.key stray env s₁ .cr = .ok s' := by simpa using hs
  exact ⟨hidle.key hcr, blank_cr hidle.inv (key_cases hcr).1⟩

/-! ## A whole session -/

theorem foldlM_flatMap_lines (h : Idle s) (hblank : Blank s.editor)
    {lines : List (List (Edit Insertable))} (ht : ∀ es ∈ lines, Typable es) :
    ((lines.flatMap keys).foldlM (Console.key stray env) s).map outcome =
      (lines.map typed).foldlM (runLine env) (outcome s) := by
  induction lines generalizing s with
  | nil => rfl
  | cons es lines ih =>
    rw [List.forall_mem_cons] at ht
    rw [List.flatMap_cons, List.foldlM_append, List.map_cons, List.foldlM_cons,
      ← h.line stray env hblank ht.1]
    cases hs : (keys es).foldlM (Console.key stray env) s with
    | error e => rfl
    | ok s₁ =>
      obtain ⟨hidle, hblank₁⟩ := h.after_line hs
      exact ih hidle hblank₁ ht.2

/-- The keys o, n, twice arrow left, 5 and blank. -/
def fiveOn : List (Edit Insertable) :=
  [.insert ⟨111, by decide⟩, .insert ⟨110, by decide⟩, .left, .left, .insert ⟨53, by decide⟩,
   .insert ⟨32, by decide⟩]

theorem lineTokens_fiveOn : lineTokens (typed fiveOn) = [Token.five.bytes, Token.on.bytes] := by
  decide +kernel

theorem typable_fiveOn : Typable fiveOn :=
  ⟨⟨by decide, by decide, by decide, by decide, by decide, by decide, trivial⟩, by decide,
    by decide +kernel⟩

/-- A key when nothing goes wrong outside the program. -/
abbrev calmKey : State → Key → Except Stop State := key (fun _ => .replicate _ 0) fun _ => .calm

/-- The start of the program on zeroed shared memory. -/
abbrev State.zero : State := .start IpcDat.zero none

theorem no_keys : ([] : List Key).foldlM calmKey State.zero = .ok State.zero := rfl

end PconTng.Console
