import PconTng.SlabControl

/-!
# Sequences of calls of the controller

Since `direction` remembers the reading of the last call, what `slabcon` answers depends on the
calls before. Whatever these were, it is on up to five degrees below the target, off from the target
on, and in between it is on exactly when the reading falls (`slab_band`).
-/

namespace PconTng.SlabBand

open Hysteresis

structure Call where
  target : ℤ
  actual : ℤ

/-- Neither sum of the call overflows. -/
structure Call.Proper (c : Call) : Prop where
  plus : IsInt (c.actual + 5)
  minus : IsInt (c.actual - 5)

/-- The answers to some calls, with the value of `hold` before the first one. -/
def answersFrom : ℤ → List Call → Except Stop (List ℤ)
  | _, [] => .ok []
  | hold, c :: calls => do
    let (ret, hold) ← slabconInt hold c.target c.actual
    let rets ← answersFrom hold calls
    return ret :: rets

/-- The answers to all calls of a program, in which `hold` starts as zero. -/
def answers (calls : List Call) : Except Stop (List ℤ) := answersFrom 0 calls

/-- The reading of the last of some calls, which is the start of `hold` if there is none. -/
def previous (history : List Call) : ℤ := (history.getLast?.map Call.actual).getD 0

/-- `ret` is a right answer to the call `c` after the calls of `history`. -/
structure Right (history : List Call) (c : Call) (ret : ℤ) : Prop where
  answer : ret = 0 ∨ ret = 1
  off : c.target ≤ c.actual → ret ≠ 1
  on : c.actual ≤ c.target - 5 → ret = 1
  inside : c.target - 5 < c.actual → c.actual < c.target →
    (ret = 1 ↔ c.actual < previous history)
  raise : ∀ target, c.target ≤ target → ret = 1 →
    ∃ rets, answers (history ++ [{ c with target := target }]) = .ok rets ∧
      rets[history.length]? = some 1

/-! ## The answers -/

/-- The answer after a reading of `hold`. -/
def Call.ret (hold : ℤ) (c : Call) : ℤ := if demand hold c.target c.actual then 1 else 0

theorem Call.ret_eq_one_iff (hold : ℤ) (c : Call) :
    c.ret hold = 1 ↔ demand hold c.target c.actual := by
  simp [ret]

theorem answersFrom_eq {calls : List Call} (h : ∀ c ∈ calls, c.Proper) (hold : ℤ) :
    answersFrom hold calls = .ok (outputs Call.actual Call.ret hold calls) := by
  induction calls generalizing hold with
  | nil => rfl
  | cons c calls ih =>
    obtain ⟨hc, hcalls⟩ := List.forall_mem_cons.1 h
    have hret : slabconInt hold c.target c.actual = .ok (c.ret hold, c.actual) := by
      rw [slabconInt_eq, if_pos (.inr ⟨hc.plus, fun _ => hc.minus⟩), slabcon_eq]
      rfl
    simp only [answersFrom, hret, ih hcalls, bind, Except.bind]
    rfl

theorem last_eq_previous (history : List Call) : last Call.actual 0 history = previous history := by
  rcases List.eq_nil_or_concat history with rfl | ⟨earlier, d, rfl⟩
  · rfl
  · simp [previous]

/-- The answer to a call follows from the reading of the call before. -/
theorem answers_eq {calls : List Call} (h : ∀ c ∈ calls, c.Proper) :
    ∃ rets, answers calls = .ok rets ∧ rets.length = calls.length ∧
      ∀ history c rest, calls = history ++ c :: rest →
        rets[history.length]? = some (c.ret (previous history)) := by
  refine ⟨_, answersFrom_eq h 0, length_outputs _ _ _ _, ?_⟩
  rintro history c rest rfl
  rw [getElem?_outputs, last_eq_previous]

/-- Raising the target turns no answer 1 into 0. -/
theorem ret_raise {hold target : ℤ} {c : Call} (hle : c.target ≤ target) (h : c.ret hold = 1) :
    Call.ret hold { c with target := target } = 1 := by
  have hlow : Monotone fun t : ℤ => t - hSetback := fun t t' ht => by
    dsimp only
    omega
  rw [Call.ret_eq_one_iff] at h ⊢
  exact (demand_band hold c.target c.actual).mono hlow (demand_band hold target c.actual) hle h

theorem right_ret {history : List Call} {c : Call} (hhistory : ∀ d ∈ history, d.Proper)
    (hc : c.Proper) : Right history c (c.ret (previous history)) := by
  have hband := demand_band (previous history) c.target c.actual
  have hone := c.ret_eq_one_iff (previous history)
  refine ⟨?_, ?_, ?_, ?_, ?_⟩
  · unfold Call.ret
    split
    · exact .inr rfl
    · exact .inl rfl
  · intro hoff
    rw [ne_eq, hone]
    exact hband.off hoff
  · intro hon
    exact hone.2 (hband.on hon)
  · intro hlow htarget
    exact hone.trans (hband.inside hlow htarget)
  · intro target hle hret
    have hraised : Call.Proper { c with target := target } := ⟨hc.plus, hc.minus⟩
    have hall : ∀ d ∈ history ++ [{ c with target := target }], d.Proper :=
      List.forall_mem_append.2 ⟨hhistory, List.forall_mem_singleton.2 hraised⟩
    obtain ⟨rets, hrets, -, hlast⟩ := answers_eq hall
    refine ⟨rets, hrets, ?_⟩
    rw [hlast history _ [] rfl, ret_raise hle hret]

/-- **The band.** In every sequence of calls without an overflow, each call is answered rightly. -/
theorem slab_band (calls : List Call) (h : ∀ c ∈ calls, c.Proper) :
    ∃ rets, answers calls = .ok rets ∧ rets.length = calls.length ∧
      ∀ history c rest, calls = history ++ c :: rest →
        ∃ ret, rets[history.length]? = some ret ∧ Right history c ret := by
  obtain ⟨rets, hrets, hlen, hall⟩ := answers_eq h
  refine ⟨rets, hrets, hlen, fun history c rest hcalls => ⟨_, hall history c rest hcalls, ?_⟩⟩
  rw [hcalls] at h
  obtain ⟨hhistory, hrest⟩ := List.forall_mem_append.1 h
  exact right_ret hhistory (hrest c List.mem_cons_self)

/-- Readings that rise to three degrees below the target, fall by one and rise above it. -/
def readings : List Call := [⟨100, 88⟩, ⟨100, 97⟩, ⟨100, 96⟩, ⟨100, 120⟩]

example : answers readings = .ok [1, 0, 1, 0] := rfl

theorem slab_band_readings : ∃ rets, answers readings = .ok rets ∧ rets.length = 4 ∧
    ∃ ret, rets[2]? = some ret ∧ Right [⟨100, 88⟩, ⟨100, 97⟩] ⟨100, 96⟩ ret := by
  have hproper : ∀ c ∈ readings, c.Proper := by
    intro c hc
    simp only [readings, List.mem_cons, List.not_mem_nil, or_false] at hc
    rcases hc with rfl | rfl | rfl | rfl <;> exact ⟨by decide, by decide⟩
  obtain ⟨rets, hrets, hlen, hright⟩ := slab_band readings hproper
  exact ⟨rets, hrets, hlen, hright [⟨100, 88⟩, ⟨100, 97⟩] ⟨100, 96⟩ [⟨100, 120⟩] rfl⟩

end PconTng.SlabBand
