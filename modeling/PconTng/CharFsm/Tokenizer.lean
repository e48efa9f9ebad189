import PconTng.CharFsm.Stored

/-!
# The tokens of a line

The two stages of `char_fsm.c` together read a line as the grammar of `Foundations.Lexer` does. The
first stage normalizes the line. The second stage takes one rule of the grammar after the other off
the buffer, and runs past its end at a string that is left open if there are not two zeros behind
(`reads_tokens`). A token can be popped if it is not a string: the block of a string is overrun by
one byte (`Holds`, `tokenizer_correct_iff`).
-/

namespace PconTng.CharFsm

open CMemory CArray Lexer

/-- The tokens of a line: those of the grammar, or a single empty one. -/
def lineTokens (line : List Byte) : List (List Byte) :=
  if tokens isDelim quote space line = [] then [[]] else tokens isDelim quote space line

/-! ## The second stage -/

/-- The tokens of the rest of a line in the states 0 and 3. -/
def tokensFrom (st : Fin charStates) (l : List Byte) : List (List Byte) :=
  if st.val = 0 then lineTokens l else tokens isDelim quote space l

section TokensFrom

variable {st : Fin charStates}

theorem tokensFrom_of_cons {l t : List Byte} {ts : List (List Byte)}
    (h : tokens isDelim quote space l = t :: ts) : tokensFrom st l = t :: ts := by
  have hne : tokens isDelim quote space l ≠ [] := by
    rw [h]
    exact List.cons_ne_nil _ _
  unfold tokensFrom lineTokens
  rw [if_neg hne, ite_self, h]

theorem tokensFrom_zero_nil : tokensFrom 0 [] = [[]] := by
  simp [tokensFrom, lineTokens, tokens_nil]

theorem tokensFrom_three_nil : tokensFrom 3 [] = [] :=
  tokens_nil

theorem tokensFrom_delim {c : Byte} (hc : isDelim c) (cs : List Byte) :
    tokensFrom st (c :: cs) = tokensFrom st cs := by
  simp only [tokensFrom, lineTokens, tokens_delim hc]

theorem tokensFrom_run {w cs : List Byte} (hne : w ≠ []) (htext : ∀ c ∈ w, text isDelim quote c)
    (hmax : ∀ c ∈ cs.head?, ¬ text isDelim quote c) :
    tokensFrom st (w ++ cs) = w :: tokensFrom 3 cs :=
  tokensFrom_of_cons (tokens_run hne htext hmax)

theorem tokensFrom_string {t : List Byte} (hq : quote ∉ t) (cs : List Byte) :
    tokensFrom st (quote :: (t ++ quote :: cs)) =
      (quote :: (t ++ [quote])) :: tokensFrom 3 cs :=
  tokensFrom_of_cons (tokens_string isDelim_quote hq cs)

theorem tokensFrom_unclosed {t : List Byte} (hq : quote ∉ t) :
    tokensFrom st (quote :: t) = [quote :: (t ++ [space])] :=
  tokensFrom_of_cons (tokens_unclosed isDelim_quote hq)

end TokensFrom

/-- The block holds the token `t`. It is overrun when `t` is a string. -/
structure Holds (b : Block) (t : List Byte) : Prop where
  string : cString b.bytes = .ok t
  overrun : b.size < b.bytes.length ↔ t.head? = some quote

/-- The blocks that the queue holds for some tokens. -/
abbrev BlocksOf : List Block → List (List Byte) → Prop := List.Forall₂ Holds

/-- Copying a run of text. -/
theorem holds_text {w : List Byte} (h0 : 0 ∉ w) (hq : quote ∉ w) :
    Holds ⟨w.length + 1, w ++ [0]⟩ w := by
  refine ⟨cString_append h0 [], iff_of_false ?_ fun h => hq (List.mem_of_mem_head? h)⟩
  rw [List.length_append, List.length_singleton]
  exact lt_irrefl _

/-- Copying a string. -/
theorem holds_string {t : List Byte} {bytes : List Byte} {size : ℕ}
    (hcopy : cString bytes = .ok (quote :: t)) (hsize : size < bytes.length) :
    Holds ⟨size, bytes⟩ (quote :: t) :=
  ⟨hcopy, iff_of_true hsize rfl⟩

theorem zero_notMem {l : List Byte} (hl : ∀ c ∈ l, Typed c) : 0 ∉ l := fun h =>
  hl 0 h (by decide)

/-- The loop leaves the buffer if `p` holds, and otherwise it queues the tokens `ts`. -/
def Reads (s : Cutter) (p : Prop) [Decidable p] (ts : List (List Byte)) : Prop :=
  ∃ blocks, s.Yields (if p then .error .fault else .ok (s.head ++ blocks)) ∧ BlocksOf blocks ts

section Reads

variable {p : Prop} [Decidable p] {s s' : Cutter} {b : Block} {t : List Byte}
  {ts : List (List Byte)}

/-- What follows a token in the queue. -/
theorem reads_cons (hhead : s'.head = s.head ++ [b]) (hleads : s.Leads s') (hb : Holds b t)
    (h : Reads s' p ts) : Reads s p (t :: ts) := by
  obtain ⟨blocks, hy, hblocks⟩ := h
  refine ⟨b :: blocks, hleads _ ?_, .cons hb hblocks⟩
  rwa [hhead, List.append_assoc, List.singleton_append] at hy

theorem reads_end {w rest : List Byte} (h : s.At w (0 :: rest)) (hp : ¬ p) : Reads s p [] := by
  refine ⟨[], ?_, .nil⟩
  rw [if_neg hp, List.append_nil]
  exact h.yields_end

theorem reads_fault {blocks : List Block} (h : s.Yields (.error .fault)) (hp : p)
    (hblocks : BlocksOf blocks ts) : Reads s p ts := by
  refine ⟨blocks, ?_, hblocks⟩
  rwa [if_pos hp]

end Reads

/-! A string is left open when the number of quotes is odd. -/

theorem count_quote_text {w : List Byte} (hw : ∀ c ∈ w, text isDelim quote c) :
    w.count quote = 0 :=
  List.count_eq_zero.2 fun hmem => by simpa [text] using hw _ hmem

theorem count_quote_string {t : List Byte} (hq : quote ∉ t) (cs : List Byte) :
    (quote :: (t ++ quote :: cs)).count quote % 2 = cs.count quote % 2 := by
  rw [List.count_cons_self, List.count_append, List.count_eq_zero.2 hq, List.count_cons_self]
  omega

/-- A string that is left open is copied up to the terminator, and the loop goes on behind it. -/
theorem reads_unclosed {t : List Byte} (ht : ∀ c ∈ t, Typed c) (hq : quote ∉ t) {s : Cutter}
    {k : ℕ} {p : Prop} [Decidable p] (hp : p ↔ k < 2)
    (h : s.At [] (quote :: (t ++ [space] ++ 0 :: List.replicate k 0))) :
    Reads s p [quote :: (t ++ [space])] := by
  have h0 : 0 ∉ t ++ [space] := by
    rw [List.mem_append, List.mem_singleton, not_or]
    exact ⟨zero_notMem ht, by decide⟩
  have hq' : quote ∉ t ++ [space] := by
    rw [List.mem_append, List.mem_singleton, not_or]
    exact ⟨hq, by decide⟩
  have hcopy : cString (quote :: (t ++ [space] ++ [0]) ++ [0]) =
      .ok (quote :: (t ++ [space])) := by
    have happ : quote :: (t ++ [space] ++ [0]) ++ [0] = quote :: (t ++ [space]) ++ 0 :: [0] := by
      simp only [List.cons_append, List.append_assoc, List.nil_append]
    rw [happ]
    refine cString_append ?_ [0]
    rw [List.mem_cons, not_or]
    exact ⟨by decide, h0⟩
  have hblock : Holds ⟨(t ++ [space]).length + 2, quote :: (t ++ [space] ++ [0]) ++ [0]⟩
      (quote :: (t ++ [space])) :=
    holds_string hcopy (by simp)
  cases k with
  | zero =>
    exact reads_fault (h.quoted_fault (.inr rfl) hq' h0) (hp.2 (by omega)) (.cons hblock .nil)
  | succ k =>
    have hopen : s.At [] (quote :: (t ++ [space] ++ 0 :: 0 :: List.replicate k 0)) := h
    obtain ⟨s', hs', hhead, hleads⟩ := hopen.quoted (.inr rfl) hq' h0
    refine reads_cons hhead hleads hblock ?_
    cases k with
    | zero => exact reads_fault hs'.yields_fault (hp.2 (by omega)) .nil
    | succ k => exact reads_end hs' fun hn => absurd (hp.1 hn) (by omega)

/-- What the second stage makes of what the first one stores, with `k` zeros behind. A string that
is left open needs two of them. -/
theorem reads_tokens {l : List Byte} (hl : ∀ c ∈ l, Typed c) {st : Fin charStates}
    (hst : st = 0 ∨ st = 3) {s : Cutter} {k : ℕ} {p : Prop} [Decidable p]
    (hp : p ↔ l.count quote % 2 = 1 ∧ k < 2)
    (h : s.At [] (stores st (l ++ [carriageReturn]) ++ List.replicate k 0)) :
    Reads s p (tokensFrom st l) := by
  induction l using @lexInduction Byte _ isDelim quote generalizing st s with
  | nil =>
    have hp' : ¬ p := fun hn => absurd (hp.1 hn).1 (by simp)
    rcases hst with rfl | rfl
    · obtain ⟨s', hs', hhead, hleads⟩ := h.delim rfl
      rw [tokensFrom_zero_nil]
      exact reads_cons hhead hleads (holds_text List.not_mem_nil List.not_mem_nil)
        (reads_end hs' hp')
    · rw [tokensFrom_three_nil]
      exact reads_end h hp'
  | sep c cs hc ih =>
    rw [List.forall_mem_cons] at hl
    rw [List.cons_append, stores_delim _ hc hst] at h
    have hne : c ≠ quote := fun he => by simp [he, isDelim_quote] at hc
    rw [tokensFrom_delim hc]
    rw [List.count_cons_of_ne hne] at hp
    exact ih hl.2 hst hp h
  | run w cs hne htext hmax ih =>
    rw [List.forall_mem_append] at hl
    obtain ⟨x, hx, hstores⟩ := stores_afterRun hl.2 hmax
    rw [List.append_assoc, stores_run _ hne hl.1 htext hst, hstores, List.append_assoc] at h
    rw [tokensFrom_run hne htext hmax]
    rw [List.count_append, count_quote_text htext, Nat.zero_add] at hp
    obtain ⟨s₁, hs₁, hhead₁, hleads₁⟩ := h.text hl.1 htext
    obtain ⟨s₂, hs₂, hhead₂, hleads₂⟩ := hs₁.delim hx
    have hq : quote ∉ w := fun hmem => by simpa [text] using htext _ hmem
    exact reads_cons (hhead₁ ▸ hhead₂) (hleads₁.trans hleads₂)
      (holds_text (zero_notMem hl.1) hq) (ih hl.2 (.inr rfl) hp hs₂)
  | string t cs hq ih =>
    rw [List.forall_mem_cons, List.forall_mem_append, List.forall_mem_cons] at hl
    rw [stores_closed hst hl.2.1 hq] at h
    rw [tokensFrom_string hq]
    rw [count_quote_string hq] at hp
    have h0 : 0 ∉ t := zero_notMem hl.2.1
    have hclosed : s.At [] (quote :: (t ++ quote :: space :: (stores 3 (cs ++ [carriageReturn]) ++
        List.replicate k 0))) := by
      simpa only [List.cons_append, List.append_assoc] using h
    obtain ⟨s', hs', hhead, hleads⟩ := hclosed.quoted (.inl rfl) hq h0
    have h0' : 0 ∉ quote :: (t ++ [quote]) := by
      simp only [List.mem_cons, List.mem_append, h0, List.not_mem_nil, or_false, false_or, or_self]
      decide
    exact reads_cons hhead hleads (holds_string (cString_append h0' []) (by simp))
      (ih hl.2.2.2 (.inr rfl) hp hs')
  | unclosed t hq =>
    rw [List.forall_mem_cons] at hl
    rw [stores_open hst hl.2 hq] at h
    rw [tokensFrom_unclosed hq]
    rw [List.count_cons_self, List.count_eq_zero.2 hq] at hp
    have hopen : s.At [] (quote :: (t ++ [space] ++ 0 :: List.replicate k 0)) := by
      simpa only [List.cons_append, List.append_assoc, List.nil_append] using h
    exact reads_unclosed hl.2 hq (hp.trans (and_iff_right rfl)) hopen

/-! ## Both stages -/

/-- What becomes of a line that leaves `k` places of the buffer free. -/
theorem foldlM_charFsm_line (g : Globals) {line : List Byte} (hline : ∀ c ∈ line, Typed c) {k : ℕ}
    (hk : (stores 0 (line ++ [carriageReturn])).length + k = inputBufferSize) :
    ∃ blocks, (line ++ [carriageReturn]).foldlM charFsm (charFsmReset g) =
        (if line.count quote % 2 = 1 ∧ k < 2 then .error .fault
          else .ok ⟨.replicate _ 0, 0, 0, blocks⟩) ∧
      BlocksOf blocks (lineTokens line) := by
  obtain ⟨g₁, stored, hg₁, hfed, hstored⟩ := foldlM_charFsm hline [carriageReturn]
    (fed_reset g)
    (by rw [List.nil_append]; exact (Nat.le_add_right _ _).trans hk.le)
  have hall : stored ++ stores g₁.charState [carriageReturn] =
      stores 0 (line ++ [carriageReturn]) := hstored
  obtain ⟨g₂, hg₂, hbuf⟩ := hfed.endOfLine (k := k) (hall ▸ hk)
  rw [hall] at hbuf
  obtain ⟨blocks, hyields, hblocks⟩ := reads_tokens hline (.inl rfl) Iff.rfl
    (s := .init g₂.inputBuffer) ⟨hbuf, rfl, rfl, Nat.zero_le _⟩
  have hloop := hyields (inputBufferSize + 1) (Nat.lt_succ_self _)
  refine ⟨blocks, ?_, hblocks⟩
  have hstate : ∀ st : Fin charStates, (charNewState.get 3).get st = 0 := by decide
  rw [List.foldlM_append, hg₁]
  simp only [List.foldlM_cons, List.foldlM_nil, bind, Except.bind, charFsm, charType_carriageReturn,
    hg₂, processBuffer, hloop, hstate, pure, Except.pure]
  split_ifs <;> rfl

/-- Popping the queue gives its tokens, unless one of them is a string. -/
theorem pops_iff {g : Globals} {ts : List (List Byte)} (h : BlocksOf g.head ts)
    (ts' : List (List Byte)) : Pops g ts' ↔ ts' = ts ∧ ∀ t ∈ ts, t.head? ≠ some quote := by
  induction ts generalizing g ts' with
  | nil =>
    have hpop : popCmdQ g = .ok (none, g) := by
      unfold popCmdQ
      rw [List.forall₂_nil_right_iff.1 h]
    constructor
    · rintro (hempty | ⟨hp, -⟩)
      · exact ⟨rfl, List.forall_mem_nil _⟩
      · rw [hpop] at hp
        cases hp
    · rintro ⟨rfl, -⟩
      exact .empty hpop
  | cons t ts ih =>
    obtain ⟨b, blocks, hb, hblocks, hhead⟩ := List.forall₂_cons_right_iff.1 h
    by_cases hq : t.head? = some quote
    · have hpop : popCmdQ g = .error .fault := by
        unfold popCmdQ Block.read
        rw [hhead]
        simp only [if_neg (not_le.2 (hb.overrun.2 hq)), bind, Except.bind]
      refine iff_of_false ?_ fun hts => hts.2 t List.mem_cons_self hq
      rintro (hempty | ⟨hp, -⟩)
      · cases hpop.symm.trans hempty
      · cases hpop.symm.trans hp
    · have hpop : popCmdQ g = .ok (some t, { g with head := blocks }) := by
        unfold popCmdQ Block.read
        rw [hhead]
        simp only [if_pos (not_lt.1 fun hlt => hq (hb.overrun.1 hlt)), hb.string, bind, Except.bind]
        rfl
      have hrest := ih (g := { g with head := blocks }) hblocks
      rw [List.forall_mem_cons, and_iff_right hq]
      constructor
      · rintro (hempty | ⟨hp, hpops⟩)
        · cases hpop.symm.trans hempty
        · rw [hpop] at hp
          cases hp
          obtain ⟨rfl, hall⟩ := (hrest _).1 hpops
          exact ⟨rfl, hall⟩
      · rintro ⟨rfl, hall⟩
        exact .pop hpop ((hrest ts).2 ⟨rfl, hall⟩)

/-- A line without a quote has no string among its tokens. -/
theorem no_string_iff (line : List Byte) :
    (∀ t ∈ lineTokens line, t.head? ≠ some quote) ↔ quote ∉ line := by
  have hstring : (∃ t ∈ tokens isDelim quote space line, t.head? = some quote) ↔ quote ∈ line :=
    exists_string_iff isDelim_quote line
  rw [← hstring, not_exists]
  unfold lineTokens
  split_ifs with hnone
  · simp [hnone]
  · exact forall_congr' fun t => not_and.symm

/-- **The tokenizer is correct exactly when there is no quote in the line.** A line whose
characters, as they are stored, number at most 58 with the terminators is cut into its tokens, but
a string overruns the block that is allocated for it. -/
theorem tokenizer_correct_iff (g : Globals) (line : List Byte) (hline : ∀ c ∈ line, Typed c)
    (hfit : (stores 0 (line ++ [carriageReturn])).length ≤ 58) :
    (∃ g', (line ++ [carriageReturn]).foldlM charFsm (charFsmReset g) = .ok g' ∧
      ∀ ts, Pops g' ts ↔ ts = lineTokens line) ↔ quote ∉ line := by
  obtain ⟨k, hk⟩ : ∃ k, (stores 0 (line ++ [carriageReturn])).length + k = inputBufferSize :=
    ⟨inputBufferSize - (stores 0 (line ++ [carriageReturn])).length, by
      simp only [inputBufferSize]
      omega⟩
  obtain ⟨blocks, hrun, hblocks⟩ := foldlM_charFsm_line g hline hk
  have hfits : ¬ (line.count quote % 2 = 1 ∧ k < 2) := by
    rintro ⟨-, hlt⟩
    simp only [inputBufferSize] at hk
    omega
  rw [if_neg hfits] at hrun
  have hpops := pops_iff (g := ⟨.replicate _ 0, 0, 0, blocks⟩) hblocks
  rw [← no_string_iff]
  constructor
  · rintro ⟨g', hg', htokens⟩
    cases hrun.symm.trans hg'
    exact ((hpops _).1 ((htokens _).2 rfl)).2
  · intro hno
    exact ⟨_, hrun, fun ts => (hpops ts).trans (and_iff_left hno)⟩

/-- A line with repeated delimiters. -/
def spaced : List Byte := str "set  12, at 7:30"

theorem spaced_tokens :
    lineTokens spaced = [str "set", str "12", str "at", str "7", str "30"] := by
  decide +kernel

/-- The line is cut into five tokens. -/
theorem tokenizer_correct_spaced :
    ∃ g, (spaced ++ [carriageReturn]).foldlM charFsm
        (charFsmReset ⟨.replicate _ 0, 0, 0, []⟩) = .ok g ∧
      Pops g [str "set", str "12", str "at", str "7", str "30"] := by
  obtain ⟨g, hg, hpops⟩ := (tokenizer_correct_iff ⟨.replicate _ 0, 0, 0, []⟩ spaced
    (by decide +kernel) (by decide +kernel)).2 (by decide +kernel)
  exact ⟨g, hg, (hpops _).2 spaced_tokens.symm⟩

/-- A quoted name. -/
def named : List Byte := str "\"a b\""

theorem named_tokens : lineTokens named = [named] := by
  decide +kernel

/-- The name is copied to a block of five bytes, with its terminator behind them. -/
theorem named_run : (named ++ [carriageReturn]).foldlM charFsm
    (charFsmReset ⟨.replicate _ 0, 0, 0, []⟩) =
      .ok ⟨.replicate _ 0, 0, 0, [⟨5, named ++ [0]⟩]⟩ := by
  rfl

/-- The quoted name cannot be taken off the queue. -/
theorem tokenizer_not_correct : ¬ ∀ (g : Globals) (line : List Byte), (∀ c ∈ line, Typed c) →
    (stores 0 (line ++ [carriageReturn])).length ≤ 58 →
      ∃ g', (line ++ [carriageReturn]).foldlM charFsm (charFsmReset g) = .ok g' ∧
        ∀ ts, Pops g' ts ↔ ts = lineTokens line := by
  intro hall
  obtain ⟨g', hg', htokens⟩ := hall ⟨.replicate _ 0, 0, 0, []⟩ named (by decide +kernel)
    (by decide +kernel)
  cases named_run.symm.trans hg'
  rcases (htokens _).2 named_tokens.symm with hempty | ⟨hpop, -⟩
  cases hpop

end PconTng.CharFsm
