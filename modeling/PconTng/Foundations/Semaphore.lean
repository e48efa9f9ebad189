import PconTng.Foundations.Run
import Mathlib.Data.Fintype.Basic
import Mathlib.Data.Finset.Card

/-!
# Processes that share one semaphore

Any number of processes run programs that create a semaphore set, set its value to one, and lock
and unlock it around their critical sections. A process that ends keeps what it holds, and setting
the value does not look at who holds the semaphore: both are what System V does without `SEM_UNDO`.

A `Flow` gives the control flow of the programs, with the discipline that a program locks only
outside its critical sections and unlocks only inside. The result is `exclusive_iff`: all along a
run the semaphore balances the processes that hold it exactly if every step of the run is
`Orderly`, that is, the value is only set while nobody holds the semaphore and no process ends
while it holds it.
-/

namespace PconTng.Semaphore

/-- The semaphore: not created, created and still without a value, or with a value. -/
inductive Cell
  | absent
  | fresh
  | ready (val : ℕ)
  deriving DecidableEq

/-- What creating the set does: nothing when it exists. -/
def Cell.create : Cell → Cell
  | .absent => .fresh
  | c => c

/-- What a process does in one step, as far as the semaphore is concerned. -/
inductive Event
  | create
  | setVal
  | acquire
  | release
  | work
  | exit
  deriving DecidableEq

/-- The control flow of the programs over locations `L`. -/
structure Flow (L : Type*) where
  next : L → Event → L → Prop
  /-- The locations between a lock and the unlock that follows it. -/
  inside : L → Prop
  acquire_enters {l l' : L} : next l .acquire l' → ¬ inside l ∧ inside l'
  release_leaves {l l' : L} : next l .release l' → inside l ∧ ¬ inside l'
  keeps {l l' : L} {e : Event} : next l e l' → e ≠ .acquire → e ≠ .release →
    (inside l ↔ inside l')

/-- The semaphore and the processes `ι`. `held` records who has completed a lock and not yet the
unlock, `gone` who has ended. -/
structure State (ι L : Type*) where
  cell : Cell
  loc : ι → L
  held : ι → Bool
  gone : ι → Bool

variable {ι L : Type*} {F : Flow L}

/-- Before any process has started. -/
def initial (start : ι → L) : State ι L := ⟨.absent, start, fun _ => false, fun _ => false⟩

/-! ## The semaphore in order -/

/-- A step that leaves the semaphore in order: the value is set only while nobody holds the
semaphore, and the process that ends does not hold it. -/
def Orderly (s : State ι L) (x : ι × Event) : Prop :=
  (x.2 = .setVal → ∀ q, s.held q = false) ∧ (x.2 = .exit → s.held x.1 = false)

/-- Who holds the semaphore is inside a critical section, and nobody does before it has a value. -/
structure Disciplined (F : Flow L) (s : State ι L) : Prop where
  held_iff : ∀ p, s.held p = true ↔ F.inside (s.loc p)
  free_of_not_ready : (∀ v, s.cell ≠ .ready v) → ∀ p, s.held p = false

theorem disciplined_initial {start : ι → L} (h : ∀ p, ¬ F.inside (start p)) :
    Disciplined F (initial start) :=
  ⟨fun p => by simp [initial, h p], fun _ _ => rfl⟩

section Exclusive

variable [Fintype ι]

/-- The processes that have completed a lock and not yet the unlock. -/
def holders (s : State ι L) : Finset ι := Finset.univ.filter fun p => s.held p = true

theorem mem_holders {s : State ι L} {p : ι} : p ∈ holders s ↔ s.held p = true := by
  simp [holders]

theorem holders_eq_empty {s : State ι L} (h : ∀ q, s.held q = false) : holders s = ∅ := by
  ext q
  simp [mem_holders, h q]

/-- From the moment the semaphore has a value, that value and the number of holders add up to one;
no two processes hold it, and no process that has ended does. -/
structure Exclusive (s : State ι L) : Prop where
  balance : ∀ v, s.cell = .ready v → v + (holders s).card = 1
  unique : ∀ v, s.cell = .ready v → ∀ p q, s.held p = true → s.held q = true → p = q
  released : ∀ v, s.cell = .ready v → ∀ p, s.gone p = true → s.held p = false

theorem exclusive_initial (start : ι → L) : Exclusive (initial start) :=
  ⟨fun v h => by simp [initial] at h, fun v h => by simp [initial] at h,
    fun v h => by simp [initial] at h⟩

/-- At most one holder follows from the balance. -/
theorem exclusive_of_balance {s : State ι L}
    (hb : ∀ v, s.cell = .ready v → v + (holders s).card = 1)
    (hr : ∀ v, s.cell = .ready v → ∀ p, s.gone p = true → s.held p = false) : Exclusive s := by
  refine ⟨hb, fun v hv p q hp hq => ?_, hr⟩
  have hcard : (holders s).card ≤ 1 := by
    have := hb v hv
    omega
  exact Finset.card_le_one.1 hcard p (mem_holders.2 hp) q (mem_holders.2 hq)

end Exclusive

/-! ## The steps -/

variable [DecidableEq ι]

/-- One step of one process. A lock waits until the value is positive. -/
inductive Step (F : Flow L) : State ι L → ι × Event → State ι L → Prop
  | create {s : State ι L} {p : ι} {l : L} (live : s.gone p = false)
      (h : F.next (s.loc p) .create l) :
      Step F s (p, .create) { s with cell := s.cell.create, loc := Function.update s.loc p l }
  | setVal {s : State ι L} {p : ι} {l : L} (live : s.gone p = false)
      (h : F.next (s.loc p) .setVal l) (hc : s.cell ≠ .absent) :
      Step F s (p, .setVal) { s with cell := .ready 1, loc := Function.update s.loc p l }
  | acquire {s : State ι L} {p : ι} {l : L} {v : ℕ} (live : s.gone p = false)
      (h : F.next (s.loc p) .acquire l) (hc : s.cell = .ready (v + 1)) :
      Step F s (p, .acquire)
        { s with cell := .ready v, loc := Function.update s.loc p l,
                 held := Function.update s.held p true }
  | release {s : State ι L} {p : ι} {l : L} {v : ℕ} (live : s.gone p = false)
      (h : F.next (s.loc p) .release l) (hc : s.cell = .ready v) :
      Step F s (p, .release)
        { s with cell := .ready (v + 1), loc := Function.update s.loc p l,
                 held := Function.update s.held p false }
  | work {s : State ι L} {p : ι} {l : L} (live : s.gone p = false)
      (h : F.next (s.loc p) .work l) :
      Step F s (p, .work) { s with loc := Function.update s.loc p l }
  | exit {s : State ι L} {p : ι} {l : L} (live : s.gone p = false)
      (h : F.next (s.loc p) .exit l) :
      Step F s (p, .exit)
        { s with loc := Function.update s.loc p l, gone := Function.update s.gone p true }

/-! ## What holds whatever the order of the steps -/

/-- Moving `p` alone, the flag of `p` following its location, keeps `held_iff`. -/
theorem held_iff_update {s : State ι L} (h : ∀ p, s.held p = true ↔ F.inside (s.loc p)) {p : ι}
    {l : L} {b : Bool} (hb : b = true ↔ F.inside l) (q : ι) :
    Function.update s.held p b q = true ↔ F.inside (Function.update s.loc p l q) := by
  by_cases hq : q = p
  · subst hq
    simpa using hb
  · simpa [hq] using h q

theorem held_iff_move {s : State ι L} (h : ∀ p, s.held p = true ↔ F.inside (s.loc p)) {p : ι}
    {l : L} (hl : F.inside (s.loc p) ↔ F.inside l) (q : ι) :
    s.held q = true ↔ F.inside (Function.update s.loc p l q) := by
  have := held_iff_update h (p := p) ((h p).trans hl) q
  rwa [Function.update_eq_self] at this

theorem disciplined_step {s t : State ι L} {x : ι × Event} (hs : Disciplined F s)
    (h : Step F s x t) : Disciplined F t := by
  obtain ⟨hh, hf⟩ := hs
  cases h with
  | create live h =>
    refine ⟨held_iff_move hh (F.keeps h (by simp) (by simp)), fun hc => hf fun v hv => ?_⟩
    exact hc v (by simp [Cell.create, hv])
  | setVal live h hc =>
    exact ⟨held_iff_move hh (F.keeps h (by simp) (by simp)), fun hc' => absurd rfl (hc' 1)⟩
  | @acquire p l v live h hc =>
    exact ⟨held_iff_update hh (by simpa using (F.acquire_enters h).2),
      fun hc' => absurd rfl (hc' v)⟩
  | @release p l v live h hc =>
    exact ⟨held_iff_update hh (by simpa using (F.release_leaves h).2),
      fun hc' => absurd rfl (hc' (v + 1))⟩
  | work live h => exact ⟨held_iff_move hh (F.keeps h (by simp) (by simp)), hf⟩
  | exit live h => exact ⟨held_iff_move hh (F.keeps h (by simp) (by simp)), hf⟩

/-! ## What orderly steps keep -/

variable [Fintype ι]

theorem holders_acquire {s : State ι L} {p : ι} {l : L} {c : Cell} :
    holders { s with cell := c, loc := Function.update s.loc p l,
                     held := Function.update s.held p true } = insert p (holders s) := by
  ext q
  rw [Finset.mem_insert, mem_holders, mem_holders]
  by_cases hq : q = p <;> simp [hq]

theorem holders_release {s : State ι L} {p : ι} {l : L} {c : Cell} :
    holders { s with cell := c, loc := Function.update s.loc p l,
                     held := Function.update s.held p false } = (holders s).erase p := by
  ext q
  rw [Finset.mem_erase, mem_holders, mem_holders]
  by_cases hq : q = p <;> simp [hq]

omit [Fintype ι] in
/-- A process that locks or unlocks has not ended. -/
theorem released_update {s : State ι L} (hr : ∀ q, s.gone q = true → s.held q = false) {p : ι}
    (live : s.gone p = false) (b : Bool) (q : ι) (hq : s.gone q = true) :
    Function.update s.held p b q = false := by
  have hqp : q ≠ p := by
    rintro rfl
    simp [live] at hq
  rw [Function.update_of_ne hqp]
  exact hr q hq

/-- Whether a step keeps the semaphore in order is decided by the step alone. -/
theorem exclusive_step_iff {s t : State ι L} {x : ι × Event} (hs : Disciplined F s)
    (he : Exclusive s) (h : Step F s x t) : Orderly s x ↔ Exclusive t := by
  cases h with
  | create live h =>
    simp only [Orderly, reduceCtorEq, false_implies, and_self, true_iff]
    -- creating a set that exists changes nothing, and one that does not has no value
    have hv : ∀ v, s.cell.create = .ready v → s.cell = .ready v := by
      intro v hv
      cases hc : s.cell <;> simp_all [Cell.create]
    exact exclusive_of_balance (fun v h => he.balance v (hv v h))
      (fun v h => he.released v (hv v h))
  | @setVal p l live h hc =>
    simp only [Orderly, reduceCtorEq, false_implies, and_true, true_implies]
    constructor
    · intro hfree
      refine exclusive_of_balance (fun v hv => ?_) (fun v hv q _ => hfree q)
      obtain rfl : v = 1 := by simpa using hv.symm
      change 1 + (holders s).card = 1
      rw [holders_eq_empty hfree, Finset.card_empty]
    · intro ht q
      have hb : 1 + (holders s).card = 1 := ht.balance 1 rfl
      have hempty : holders s = ∅ := Finset.card_eq_zero.1 (by omega)
      by_contra hq
      have : q ∈ holders s := mem_holders.2 (by simpa using hq)
      simp [hempty] at this
  | @acquire p l v live h hc =>
    simp only [Orderly, reduceCtorEq, false_implies, and_self, true_iff]
    have hp : p ∉ holders s := fun hp =>
      (F.acquire_enters h).1 ((hs.held_iff p).1 (mem_holders.1 hp))
    refine exclusive_of_balance (fun w hw => ?_)
      (fun _ _ => released_update (he.released (v + 1) hc) live true)
    obtain rfl : v = w := by simpa using hw
    have := he.balance (v + 1) hc
    rw [holders_acquire, Finset.card_insert_of_notMem hp]
    omega
  | @release p l v live h hc =>
    simp only [Orderly, reduceCtorEq, false_implies, and_self, true_iff]
    have hp : p ∈ holders s := mem_holders.2 ((hs.held_iff p).2 (F.release_leaves h).1)
    refine exclusive_of_balance (fun w hw => ?_)
      (fun _ _ => released_update (he.released v hc) live false)
    obtain rfl : v + 1 = w := by simpa using hw
    have hbal := he.balance v hc
    have hpos : 0 < (holders s).card := Finset.card_pos.2 ⟨p, hp⟩
    rw [holders_release, Finset.card_erase_of_mem hp]
    omega
  | work live h =>
    simp only [Orderly, reduceCtorEq, false_implies, and_self, true_iff]
    exact exclusive_of_balance he.balance he.released
  | @exit p l live h =>
    simp only [Orderly, reduceCtorEq, false_implies, true_and, true_implies]
    constructor
    · intro hp
      refine exclusive_of_balance he.balance (fun v hv q hq => ?_)
      by_cases hqp : q = p
      · exact hqp ▸ hp
      · exact he.released v hv q (by simpa [hqp] using hq)
    · intro ht
      by_cases hr : ∃ v, s.cell = .ready v
      · obtain ⟨v, hv⟩ := hr
        exact ht.released v hv p (by simp)
      · exact hs.free_of_not_ready (by simpa using hr) p

/-- **The semaphore is in order all along a run exactly if every step of the run is orderly.** -/
theorem exclusive_iff {start : ι → L} (hstart : ∀ p, ¬ F.inside (start p))
    {tr : List (State ι L × (ι × Event))} {t : State ι L} (h : Path (Step F) (initial start) tr t) :
    (∀ x ∈ tr, Orderly x.1 x.2) ↔ Path.Forall Exclusive tr t :=
  Path.all_iff (I := Disciplined F) (C := Orderly) (fun _ _ _ => disciplined_step)
    (fun _ _ _ => exclusive_step_iff) h (disciplined_initial hstart) (exclusive_initial start)

end PconTng.Semaphore
