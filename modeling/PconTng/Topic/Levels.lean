import PconTng.Foundations.CMemory
import PconTng.Foundations.Cursor
import PconTng.Foundations.Lexer
import PconTng.Topic.Queue

/-!
# The levels of a topic

`build_token_q` cuts a topic at its slashes and queues a copy of each level, and `pop` takes the
copies out again. A copy has the characters of the level and one more byte, which nothing writes: it
is what `malloc` left there. So the levels come out of the queue exactly when `malloc` happens to
return a zero behind each of them (`round_trip_iff`).
-/

namespace PconTng.Topic

open CMemory CArray Cursor

abbrev tokenBufferSize : ℕ := 50

/-- The code of `/`. -/
abbrev slash : Byte := 47

/-- The levels of a topic. A slash at its end adds none. -/
def levels (topic : List Byte) : List (List Byte) :=
  let ls := topic.splitOn slash
  if ls.getLast? = some [] then ls.dropLast else ls

/-! ## The routines -/

/-- What `malloc` returns: the bytes that the block for the `n`th token holds, and the address of
the `n`th node. These addresses are different and not in use. -/
structure Host (A : Type) where
  garbage : ℕ → ℕ → Byte
  nodes : Heap A (List Byte)
  node : ℕ → A
  distinct : Function.Injective node
  unused : ∀ n, nodes (node n) = none

variable {A : Type} [DecidableEq A]

/-- The inner loop of `build_token_q`: copy characters up to the next slash into the token buffer,
from index `i` on. -/
def copyLevel (buf : Vector Byte tokenBufferSize) (i : ℕ) :
    List Byte → Except Stop (Vector Byte tokenBufferSize × List Byte)
  | [] => .ok (buf, [])
  | c :: cs =>
    if c = slash then .ok (buf, c :: cs)
    else do
      let buf ← store buf i c
      copyLevel buf (i + 1) cs

/-- `strncpy` with the length of its source: no terminator is written. -/
def strncpy (dest src : List Byte) : List Byte := src ++ dest.drop src.length

/-- The block that `malloc` returns for the `n`th token. -/
def Host.block (host : Host A) (n size : ℕ) : List Byte := (List.range size).map (host.garbage n)

/-- The outer loop of `build_token_q`, for at most the given number of turns, the next level being
the `n`th. -/
def buildLoop (host : Host A) : ℕ → ℕ → List Byte → Queue A (List Byte) →
    Except Stop (Queue A (List Byte))
  | 0, _, _, q => .ok q
  | k + 1, n, topic, q =>
    if topic = [] then .ok q
    else do
      let (buf, topic) ← copyLevel (.replicate _ 0) 0 topic
      let topic := if topic.head? = some slash then topic.drop 1 else topic
      let token ← cString buf.toList
      let cptr := strncpy (host.block n (token.length + 1)) token
      let (q, _) ← listAddElement q (some (host.node n)) cptr
      buildLoop host k (n + 1) topic q

/-- `build_token_q`. Every turn takes at least one character of the topic. -/
def buildTokenQ (host : Host A) (topic : List Byte) : Except Stop (Queue A (List Byte)) :=
  buildLoop host topic.length 0 topic (listNew host.nodes)

/-- `pop`, with whether it returns a null pointer. -/
def pop (q : Queue A (List Byte)) (buffer : Vector Byte tokenBufferSize) :
    Except Stop (Queue A (List Byte) × Vector Byte tokenBufferSize × Bool) :=
  match q.head with
  | none => .ok (q, buffer, true)
  | some h =>
    match q.nodes h with
    | some c => do
      let token ← cString c.value
      if token.length > tokenBufferSize then .error .fault
      else do
        let buffer := (pokeStr buffer token).1
        let (q, branch) ← listRemoveElement q
        return (q, buffer, branch.isNull)
    | none => .error .fault

/-- Popping into zeroed buffers until `pop` returns null gives these strings. -/
inductive Drains : Queue A (List Byte) → List (List Byte) → Prop
  | empty {q q' : Queue A (List Byte)} {buffer : Vector Byte tokenBufferSize}
      (h : pop q (.replicate _ 0) = .ok (q', buffer, true)) : Drains q []
  | pop {q q' : Queue A (List Byte)} {buffer : Vector Byte tokenBufferSize} {t : List Byte}
      {ts : List (List Byte)} (h : Topic.pop q (.replicate _ 0) = .ok (q', buffer, false))
      (ht : cString buffer.toList = .ok t) (rest : Drains q' ts) : Drains q (t :: ts)

/-- The levels of the topic come out of the queue. -/
def RoundTrip (host : Host A) (topic : List Byte) : Prop :=
  ∃ q, buildTokenQ host topic = .ok q ∧ ∀ ts, Drains q ts ↔ ts = levels topic

/-! ## Levels -/

theorem levels_nil : levels [] = [] := rfl

theorem levels_last {l : List Byte} (hne : l ≠ []) (hl : slash ∉ l) : levels l = [l] := by
  unfold levels
  rw [List.splitOn_eq_singleton hl]
  simp [hne]

theorem levels_cons {l : List Byte} (hl : slash ∉ l) (rest : List Byte) :
    levels (l ++ slash :: rest) = l :: levels rest := by
  unfold levels
  rw [List.splitOn_append_cons_self_of_not_mem hl]
  have hne := List.splitOn_ne_nil slash rest
  obtain ⟨f, fs, hfs⟩ := List.exists_cons_of_ne_nil hne
  simp only [hfs, List.getLast?_cons_cons, List.dropLast_cons_cons]
  split_ifs <;> rfl

/-- A topic is empty, is one level, or starts with a level and a slash. -/
@[elab_as_elim]
theorem topicInduction {P : List Byte → Prop} (nil : P [])
    (last : ∀ l, l ≠ [] → slash ∉ l → P l)
    (cons : ∀ l rest, slash ∉ l → P rest → P (l ++ slash :: rest)) (topic : List Byte) :
    P topic := by
  induction topic using @Lexer.splitInduction Byte slash with
  | last l hl =>
    by_cases hnil : l = []
    · exact hnil ▸ nil
    · exact last l hnil hl
  | cons l rest hl ih => exact cons l rest hl ih

theorem zero_notMem_levels {topic : List Byte} (h : 0 ∉ topic) : ∀ l ∈ levels topic, 0 ∉ l := by
  induction topic using topicInduction with
  | nil => simp [levels_nil]
  | last l hne hl => rwa [levels_last hne hl, List.forall_mem_singleton]
  | cons l rest hl ih =>
    simp only [List.mem_append, List.mem_cons, not_or] at h
    rw [levels_cons hl, List.forall_mem_cons]
    exact ⟨h.1, ih h.2.2⟩

/-- A topic of characters, whose levels leave a place for a terminator in the token buffer. -/
structure Plain (topic : List Byte) : Prop where
  noNul : 0 ∉ topic
  short : ∀ l ∈ levels topic, l.length < tokenBufferSize

theorem Plain.rest {l rest : List Byte} (hl : slash ∉ l) (h : Plain (l ++ slash :: rest)) :
    Plain rest := by
  have hshort := h.short
  rw [levels_cons hl, List.forall_mem_cons] at hshort
  exact ⟨fun hmem => h.noNul (by simp [hmem]), hshort.2⟩

/-! ## Copying a level -/

theorem cString_shows {n : ℕ} {a : Vector Byte n} {l : List Byte} (h : Shows 0 a l)
    (hlt : l.length < n) (h0 : 0 ∉ l) : cString a.toList = .ok l := by
  obtain ⟨m, hm⟩ := Nat.exists_eq_add_of_lt hlt
  rw [h.toList hlt.le, show n - l.length = m + 1 by omega, List.replicate_succ]
  exact cString_append h0 _

/-- The characters up to a slash or the end go behind those that are in the buffer. -/
theorem copyLevel_eq {l rest : List Byte} (hl : slash ∉ l) (hrest : ∀ c ∈ rest.head?, c = slash)
    {pre : List Byte} {buf : Vector Byte tokenBufferSize} (hbuf : Shows 0 buf pre)
    (hlen : pre.length + l.length < tokenBufferSize) :
    ∃ buf', copyLevel buf pre.length (l ++ rest) = .ok (buf', rest) ∧ Shows 0 buf' (pre ++ l) := by
  induction l generalizing pre buf with
  | nil =>
    refine ⟨buf, ?_, by rwa [List.append_nil]⟩
    cases rest with
    | nil => rfl
    | cons c rest => exact if_pos (hrest c rfl)
  | cons c l ih =>
    rw [List.mem_cons, not_or] at hl
    rw [List.length_cons] at hlen
    have hlt : pre.length < tokenBufferSize := by omega
    have hnext := hbuf.append hlt c
    obtain ⟨buf', hcopy, hshows⟩ := ih hl.2 hnext (by simp; omega)
    refine ⟨buf', ?_, by rwa [List.append_assoc] at hshows⟩
    rw [List.length_append, List.length_singleton] at hcopy
    rw [List.cons_append, copyLevel, if_neg (Ne.symm hl.1), store_natCast buf hlt]
    exact hcopy

omit [DecidableEq A] in
/-- The copy has one byte behind the characters. -/
theorem strncpy_block (host : Host A) (n : ℕ) (token : List Byte) :
    strncpy (host.block n (token.length + 1)) token =
      token ++ [host.garbage n token.length] := by
  have hdrop : ((List.range (token.length + 1)).map (host.garbage n)).drop token.length =
      [host.garbage n token.length] := by
    rw [List.range_succ, List.map_append, List.drop_left' (by simp)]
    rfl
  rw [strncpy, Host.block, hdrop]

/-! ## Building the queue -/

/-- The nodes for levels from the `n`th on. -/
def copies (host : Host A) : ℕ → List (List Byte) → List (A × List Byte)
  | _, [] => []
  | n, l :: ls => (host.node n, l ++ [host.garbage n l.length]) :: copies host (n + 1) ls

/-- The `n`th level is queued. -/
theorem buildLoop_turn (host : Host A) {l : List Byte} (rest : List Byte) (hne : l ++ rest ≠ [])
    (hl : slash ∉ l) (hrest : ∀ c ∈ rest.head?, c = slash) (hlen : l.length < tokenBufferSize)
    (h0 : 0 ∉ l) {q : Queue A (List Byte)} {nodes : List (A × List Byte)} (hq : Linked q nodes)
    {n : ℕ} (hfree : ∀ m, n ≤ m → q.nodes (host.node m) = none) (k : ℕ) :
    ∃ q', buildLoop host (k + 1) n (l ++ rest) q = buildLoop host k (n + 1) (rest.drop 1) q' ∧
      Linked q' (nodes ++ copies host n [l]) ∧
      ∀ m, n + 1 ≤ m → q'.nodes (host.node m) = none := by
  have hroom : ([] : List Byte).length + l.length < tokenBufferSize := by
    rwa [List.length_nil, Nat.zero_add]
  obtain ⟨buf, hcopy, hshows⟩ := copyLevel_eq hl hrest shows_replicate hroom
  have htoken := cString_shows hshows hlen h0
  obtain ⟨q', hadd, hlinked, -, hkeep⟩ :=
    hq.add (hfree n le_rfl) (l ++ [host.garbage n l.length])
  refine ⟨q', ?_, hlinked, fun m hm => hkeep _ (fun he => ?_) (hfree m (by omega))⟩
  · have hskip : (if rest.head? = some slash then rest.drop 1 else rest) = rest.drop 1 := by
      cases rest with
      | nil => rfl
      | cons c rest => exact if_pos (congrArg some (hrest c rfl))
    rw [List.length_nil] at hcopy
    rw [List.nil_append] at htoken
    rw [buildLoop, if_neg hne]
    simp only [hcopy, htoken, hskip, strncpy_block, hadd, bind, Except.bind]
  · have hsame := host.distinct he
    omega

theorem buildLoop_nil (host : Host A) (k n : ℕ) (q : Queue A (List Byte)) :
    buildLoop host k n [] q = .ok q := by
  cases k <;> rfl

/-- All levels are queued. -/
theorem buildLoop_eq (host : Host A) {k : ℕ} {topic : List Byte} (hk : topic.length ≤ k)
    (h : Plain topic) {q : Queue A (List Byte)} {nodes : List (A × List Byte)}
    (hq : Linked q nodes) {n : ℕ} (hfree : ∀ m, n ≤ m → q.nodes (host.node m) = none) :
    ∃ q', buildLoop host k n topic q = .ok q' ∧
      Linked q' (nodes ++ copies host n (levels topic)) := by
  induction topic using topicInduction generalizing k q nodes n with
  | nil => exact ⟨q, buildLoop_nil host k n q, by rwa [levels_nil, copies, List.append_nil]⟩
  | last l hne hl =>
    have hshort := h.short
    rw [levels_last hne hl, List.forall_mem_singleton] at hshort
    obtain ⟨k, rfl⟩ := Nat.exists_eq_add_one_of_ne_zero
      (Nat.ne_of_gt ((List.length_pos_iff.2 hne).trans_le hk))
    obtain ⟨q₁, hturn, hq₁, -⟩ := buildLoop_turn host [] (by simpa using hne) hl
      (by simp) hshort h.noNul hq hfree k
    rw [List.append_nil] at hturn
    rw [levels_last hne hl]
    exact ⟨q₁, hturn.trans (buildLoop_nil host k _ q₁), hq₁⟩
  | cons l rest hl ih =>
    have hshort := h.short
    rw [levels_cons hl, List.forall_mem_cons] at hshort
    rw [List.length_append, List.length_cons] at hk
    obtain ⟨k, rfl⟩ := Nat.exists_eq_add_one_of_ne_zero (n := k) (by omega)
    obtain ⟨q₁, hturn, hq₁, hfree₁⟩ := buildLoop_turn host (slash :: rest) (by simp) hl
      (by simp) hshort.1 (fun hmem => h.noNul (by simp [hmem])) hq hfree k
    obtain ⟨q', hloop, hq'⟩ := ih (k := k) (by omega) (h.rest hl) hq₁ hfree₁
    refine ⟨q', hturn.trans hloop, ?_⟩
    rw [levels_cons hl]
    rwa [List.append_assoc] at hq'

theorem buildTokenQ_eq (host : Host A) {topic : List Byte} (h : Plain topic) :
    ∃ q, buildTokenQ host topic = .ok q ∧ Linked q (copies host 0 (levels topic)) :=
  buildLoop_eq host le_rfl h (linked_listNew host.nodes) fun m _ => host.unused m

/-! ## Emptying the queue -/

theorem pop_nil {q : Queue A (List Byte)} (hq : Linked q [])
    (buffer : Vector Byte tokenBufferSize) : pop q buffer = .ok (q, buffer, true) := by
  have hhead : q.head = none := hq.chain.start_eq
  unfold pop
  rw [hhead]

/-- What `pop` does with the first node. -/
theorem pop_cons {q : Queue A (List Byte)} {x : A × List Byte} {nodes : List (A × List Byte)}
    (hq : Linked q (x :: nodes)) :
    ∃ q', Linked q' nodes ∧ ∀ buffer r, pop q buffer = .ok r ↔
      ∃ token, cString x.2 = .ok token ∧ token.length ≤ tokenBufferSize ∧
        (q', (pokeStr buffer token).1, false) = r := by
  obtain ⟨a, v⟩ := x
  obtain ⟨q', hremove, hlinked, -⟩ := hq.remove_cons
  refine ⟨q', hlinked, fun buffer r => ?_⟩
  have hhead : q.head = some a := hq.chain.start_eq
  obtain ⟨c, hc, rfl, -⟩ := (hhead ▸ hq.chain).free_head
  unfold pop
  simp only [hhead, hc, hremove, bind_eq_ok]
  refine exists_congr fun token => and_congr_right fun _ => ?_
  split_ifs with hlen
  · exact iff_of_false (fun h => nomatch h) fun h => absurd h.1 (not_le.2 hlen)
  · refine ⟨fun h => ⟨not_lt.1 hlen, ?_⟩, fun h => congrArg Except.ok h.2⟩
    obtain ⟨y, hy, h⟩ := bind_eq_ok.1 h
    obtain rfl := Except.ok.inj hy
    exact Except.ok.inj h

theorem shows_pokeStr {n : ℕ} (bs : List Byte) :
    Shows 0 (pokeStr (Vector.replicate n (0 : Byte)) bs).1 bs := by
  intro j hj
  simp [pokeStr]

/-- A string in a zeroed buffer is read back if it leaves a place for its terminator. -/
theorem cString_pokeStr_iff {n : ℕ} {t t' : List Byte} (h0 : 0 ∉ t) (hle : t.length ≤ n) :
    cString (pokeStr (Vector.replicate n (0 : Byte)) t).1.toList = .ok t' ↔
      t' = t ∧ t.length < n := by
  have hshows := shows_pokeStr (n := n) t
  constructor
  · intro h
    obtain hlt | hfull := hle.lt_or_eq
    · exact ⟨(Except.ok.inj ((cString_shows hshows hlt h0).symm.trans h)).symm, hlt⟩
    · rw [hshows.toList hle, hfull, Nat.sub_self, List.replicate_zero, List.append_nil] at h
      exact absurd (exists_cString.1 ⟨t', h⟩) h0
  · rintro ⟨rfl, hlt⟩
    exact cString_shows hshows hlt h0

/-- The token of the node is the string `t`, and leaves a place for its terminator. -/
def Yields (x : A × List Byte) (t : List Byte) : Prop :=
  cString x.2 = .ok t ∧ t.length < tokenBufferSize

/-- Emptying the queue gives the strings in its nodes. -/
theorem drains_iff {nodes : List (A × List Byte)} {q : Queue A (List Byte)}
    (hq : Linked q nodes) {ts : List (List Byte)} :
    Drains q ts ↔ List.Forall₂ Yields nodes ts := by
  induction nodes generalizing q ts with
  | nil =>
    have hpop := pop_nil hq (.replicate _ 0)
    rw [List.forall₂_nil_left_iff]
    constructor
    · rintro (hempty | ⟨hp, -, -⟩)
      · rfl
      · rw [hpop] at hp
        cases hp
    · rintro rfl
      exact .empty hpop
  | cons x nodes ih =>
    obtain ⟨q', hlinked, hpop⟩ := pop_cons hq
    rw [List.forall₂_cons_left_iff]
    constructor
    · rintro (hempty | ⟨hp, ht, hrest⟩)
      · obtain ⟨token, -, -, hr⟩ := (hpop _ _).1 hempty
        exact absurd (congrArg (fun r => r.2.2) hr) Bool.false_ne_true
      · obtain ⟨token, htoken, hlen, hr⟩ := (hpop _ _).1 hp
        obtain ⟨hq', hr⟩ := Prod.mk.inj hr
        obtain ⟨hbuffer, -⟩ := Prod.mk.inj hr
        subst hq' hbuffer
        obtain ⟨-, -, h0⟩ := cString_eq_ok.1 htoken
        obtain ⟨rfl, hlt⟩ := (cString_pokeStr_iff h0 hlen).1 ht
        exact ⟨_, _, ⟨htoken, hlt⟩, (ih hlinked).1 hrest, rfl⟩
    · rintro ⟨t, ts, ⟨htoken, hlt⟩, hrest, rfl⟩
      obtain ⟨-, -, h0⟩ := cString_eq_ok.1 htoken
      exact .pop ((hpop _ _).2 ⟨t, htoken, hlt.le, rfl⟩)
        ((cString_pokeStr_iff h0 hlt.le).2 ⟨rfl, hlt⟩) ((ih hlinked).2 hrest)

/-- A copy is the string that it should be if the byte behind it is zero. -/
theorem cString_copy {l t : List Byte} (h0 : 0 ∉ l) (b : Byte) :
    cString (l ++ [b]) = .ok t ↔ b = 0 ∧ t = l := by
  constructor
  · intro h
    have hmem := exists_cString.1 ⟨t, h⟩
    rw [List.mem_append, List.mem_singleton] at hmem
    obtain rfl := hmem.resolve_left h0
    exact ⟨rfl, (Except.ok.inj ((cString_append h0 []).symm.trans h)).symm⟩
  · rintro ⟨rfl, rfl⟩
    exact cString_append h0 []

/-- The byte behind each copy is zero. -/
def Terminated (host : Host A) (n : ℕ) (ls : List (List Byte)) : Prop :=
  ∀ (i : ℕ) (hi : i < ls.length), host.garbage (n + i) ls[i].length = 0

omit [DecidableEq A] in
theorem terminated_cons {host : Host A} {n : ℕ} {l : List Byte} {ls : List (List Byte)} :
    Terminated host n (l :: ls) ↔ host.garbage n l.length = 0 ∧ Terminated host (n + 1) ls := by
  constructor
  · intro h
    refine ⟨h 0 (Nat.succ_pos _), fun i hi => ?_⟩
    rw [Nat.add_assoc, Nat.add_comm 1 i]
    exact h (i + 1) (Nat.succ_lt_succ hi)
  · rintro ⟨h0, h⟩ i hi
    cases i with
    | zero => exact h0
    | succ i =>
      have hidx : n + (i + 1) = n + 1 + i := by omega
      rw [hidx]
      exact h i (Nat.lt_of_succ_lt_succ hi)

omit [DecidableEq A] in
theorem yields_copies_iff (host : Host A) {ls ts : List (List Byte)} (h0 : ∀ l ∈ ls, 0 ∉ l)
    (hlen : ∀ l ∈ ls, l.length < tokenBufferSize) (n : ℕ) :
    List.Forall₂ Yields (copies host n ls) ts ↔ Terminated host n ls ∧ ts = ls := by
  induction ls generalizing n ts with
  | nil =>
    rw [copies, List.forall₂_nil_left_iff]
    exact ⟨fun h => ⟨fun i hi => absurd hi (Nat.not_lt_zero i), h⟩, And.right⟩
  | cons l ls ih =>
    rw [List.forall_mem_cons] at h0 hlen
    rw [copies, List.forall₂_cons_left_iff, terminated_cons]
    constructor
    · rintro ⟨t, ts, ⟨ht, -⟩, hrest, rfl⟩
      obtain ⟨hzero, rfl⟩ := (cString_copy h0.1 _).1 ht
      obtain ⟨hterm, rfl⟩ := (ih h0.2 hlen.2 (n + 1)).1 hrest
      exact ⟨⟨hzero, hterm⟩, rfl⟩
    · rintro ⟨⟨hzero, hterm⟩, rfl⟩
      exact ⟨l, ls, ⟨(cString_copy h0.1 _).2 ⟨hzero, rfl⟩, hlen.1⟩,
        (ih h0.2 hlen.2 (n + 1)).2 ⟨hterm, rfl⟩, rfl⟩

/-- **The round trip.** The levels of a topic come out of the queue exactly when the byte behind
each of the copies happens to be zero. -/
theorem round_trip_iff (host : Host A) {topic : List Byte} (h : Plain topic) :
    RoundTrip host topic ↔ Terminated host 0 (levels topic) := by
  obtain ⟨q, hbuild, hq⟩ := buildTokenQ_eq host h
  have hdrains : ∀ ts, Drains q ts ↔ Terminated host 0 (levels topic) ∧ ts = levels topic :=
    fun ts => (drains_iff hq).trans
      (yields_copies_iff host (zero_notMem_levels h.noNul) h.short 0)
  constructor
  · rintro ⟨q', hbuild', hall⟩
    obtain rfl := Except.ok.inj (hbuild.symm.trans hbuild')
    exact ((hdrains _).1 ((hall _).2 rfl)).1
  · intro hterm
    exact ⟨q, hbuild, fun ts => (hdrains ts).trans (and_iff_right hterm)⟩

/-- Memory that holds the same byte everywhere, with nodes at the addresses 0, 1, and so on. -/
def filled (b : Byte) : Host ℕ := ⟨fun _ _ => b, fun _ => none, id, fun _ _ h => h, fun _ => rfl⟩

/-- `room//temp/` -/
def room : List Byte := str "room//temp/"

theorem plain_room : Plain room := ⟨by decide, by decide +kernel⟩

/-- With zeroed memory the levels come back, an empty one among them. -/
theorem round_trip_room : RoundTrip (filled 0) room :=
  (round_trip_iff (filled 0) plain_room).2 fun _ _ => rfl

theorem plain_letter : Plain (str "a") := ⟨by decide, by decide +kernel⟩

/-- With memory full of letters one level does not come back. -/
theorem not_round_trip : ¬ ∀ (host : Host ℕ) (topic : List Byte), Plain topic →
    RoundTrip host topic := by
  intro hall
  obtain ⟨q, hbuild, hdrains⟩ := hall (filled 120) (str "a") plain_letter
  obtain ⟨q', hbuild', hq⟩ := buildTokenQ_eq (filled 120) plain_letter
  obtain rfl := Except.ok.inj (hbuild.symm.trans hbuild')
  have hyields := (drains_iff hq).1 ((hdrains _).2 rfl)
  have hone : levels (str "a") = [str "a"] := by decide +kernel
  rw [hone] at hyields
  obtain ⟨⟨hstring, -⟩, -⟩ := List.forall₂_cons.1 hyields
  have hgarbage := ((cString_copy (by decide) _).1 hstring).1
  exact absurd hgarbage (by decide)

end PconTng.Topic
