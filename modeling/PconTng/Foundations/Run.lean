import Mathlib.Data.List.FinRange
import Mathlib.Tactic.Basic

/-!
# Runs of state machines

Two forms of a run are used in this development.

* A *path* of a labelled step relation, for systems in which several parties move in any order.
  A path records every step it takes as the pair of the state before the step and its label, so
  that "every state reached" and "every step taken" are statements about one list.
* A *fold* of a fallible step function over the list of its inputs, for a single party that is
  driven by the operations of its user.

Each form has its induction packaged once: `Path.invariant` and `Path.all_iff` for paths,
`foldlM_invariant`, `foldlM_simulation_along`, `foldlM_follows_iff` and `foldlM_refines` for folds.
What holds `Throughout` a fold is a statement about all states in which it finds an input;
`throughout_congr` compares two of them, and `foldlM_isOk_iff` says when the fold succeeds. A fold
whose steps are those of a total function behind a guard is computed by `foldlM_eq_of_guarded`.
-/

namespace PconTng

/-! ## Paths of a step relation -/

section Path

variable {σ α : Type*} {step : σ → α → σ → Prop}

/-- `Path step s tr t`: the steps of `tr`, each a state and the label of the step taken from it,
lead from `s` to `t`. -/
inductive Path (step : σ → α → σ → Prop) : σ → List (σ × α) → σ → Prop
  | nil (s : σ) : Path step s [] s
  | cons {s m t : σ} {a : α} {tr : List (σ × α)} (h : step s a m) (rest : Path step m tr t) :
      Path step s ((s, a) :: tr) t

namespace Path

/-- Every state of a path: the states its steps leave, and its last one. -/
def Forall (P : σ → Prop) (tr : List (σ × α)) (t : σ) : Prop := (∀ x ∈ tr, P x.1) ∧ P t

theorem forall_cons {P : σ → Prop} {s t : σ} {a : α} {tr : List (σ × α)} :
    Forall P ((s, a) :: tr) t ↔ P s ∧ Forall P tr t := by
  simp only [Forall, List.forall_mem_cons, and_assoc]

/-- What the steps that meet `C` preserve holds all along a path whose steps all meet `C`. -/
theorem invariant {I : σ → Prop} {C : σ → α → Prop}
    (keep : ∀ s a t, I s → C s a → step s a t → I t) {s t : σ} {tr : List (σ × α)}
    (h : Path step s tr t) (hs : I s) (hC : ∀ x ∈ tr, C x.1 x.2) : Forall I tr t := by
  induction h with
  | nil s => exact ⟨by simp, hs⟩
  | @cons s m t a tr hstep rest ih =>
    rw [List.forall_mem_cons] at hC
    exact forall_cons.2 ⟨hs, ih (keep s a m hs hC.1 hstep) hC.2⟩

/-- When, under the invariant `I`, a step from a state with `P` leads to a state with `P` exactly
if it meets `C`, then `P` holds all along a path exactly if all its steps meet `C`. -/
theorem all_iff {I P : σ → Prop} {C : σ → α → Prop}
    (keep : ∀ s a t, I s → step s a t → I t)
    (iff : ∀ s a t, I s → P s → step s a t → (C s a ↔ P t)) {s t : σ} {tr : List (σ × α)}
    (h : Path step s tr t) (hI : I s) (hP : P s) :
    (∀ x ∈ tr, C x.1 x.2) ↔ Forall P tr t := by
  induction h with
  | nil s => simp [Forall, hP]
  | @cons s m t a tr hstep rest ih =>
    rw [List.forall_mem_cons, forall_cons]
    constructor
    · rintro ⟨hc, hrest⟩
      exact ⟨hP, (ih (keep s a m hI hstep) ((iff s a m hI hP hstep).1 hc)).1 hrest⟩
    · rintro ⟨-, hrest⟩
      -- the state after the first step is on the rest of the path
      have hm : P m := by
        cases rest with
        | nil => exact hrest.2
        | cons => exact (forall_cons.1 hrest).1
      exact ⟨(iff s a m hI hP hstep).2 hm, (ih (keep s a m hI hstep) hm).2 hrest⟩

/-- A path through the step from `m` with the label `a`. -/
theorem split {s m t : σ} {a : α} {pre post : List (σ × α)}
    (h : Path step s (pre ++ (m, a) :: post) t) :
    ∃ m', Path step s pre m ∧ step m a m' ∧ Path step m' post t := by
  induction pre generalizing s with
  | nil =>
    cases h with
    | cons hstep rest => exact ⟨_, .nil m, hstep, rest⟩
  | cons x pre ih =>
    cases h with
    | cons hstep rest =>
      obtain ⟨m', hpre, hm, hpost⟩ := ih rest
      exact ⟨m', .cons hstep hpre, hm, hpost⟩

end Path

end Path

/-! ## Folds of a fallible step function -/

section Fold

variable {ε σ τ α : Type*}

/-- Every input meets `C` together with the state in which the reference machine finds it. -/
def Along (C : τ → α → Prop) (g : τ → α → τ) : τ → List α → Prop
  | _, [] => True
  | r, a :: l => C r a ∧ Along C g (g r a) l

theorem along_of_forall {C : α → Prop} {g : τ → α → τ} :
    ∀ {l : List α} (r : τ), (∀ a ∈ l, C a) → Along (fun _ => C) g r l
  | [], _, _ => trivial
  | a :: l, r, hC => by
    rw [List.forall_mem_cons] at hC
    exact ⟨hC.1, along_of_forall (g r a) hC.2⟩

/-- A step function that, on the inputs meeting `C`, succeeds and keeps the relation `R` to the
state of a reference machine runs along with it on every list of such inputs. -/
theorem foldlM_simulation_along {f : σ → α → Except ε σ} {g : τ → α → τ} {R : σ → τ → Prop}
    {C : τ → α → Prop} (keep : ∀ s r a, R s r → C r a → ∃ s', f s a = .ok s' ∧ R s' (g r a)) :
    ∀ (l : List α) (s : σ) (r : τ), R s r → Along C g r l →
      ∃ s', l.foldlM f s = .ok s' ∧ R s' (l.foldl g r)
  | [], s, r, h, _ => ⟨s, rfl, h⟩
  | a :: l, s, r, h, hC => by
    obtain ⟨s₁, hs₁, h₁⟩ := keep s r a h hC.1
    obtain ⟨s₂, hs₂, h₂⟩ := foldlM_simulation_along keep l s₁ (g r a) h₁ hC.2
    refine ⟨s₂, ?_, h₂⟩
    rw [List.foldlM_cons, hs₁]
    exact hs₂

/-- The same when what the inputs have to meet does not depend on the state. -/
theorem foldlM_simulation {f : σ → α → Except ε σ} {g : τ → α → τ} {R : σ → τ → Prop}
    {C : α → Prop} (keep : ∀ s r a, R s r → C a → ∃ s', f s a = .ok s' ∧ R s' (g r a))
    (l : List α) (s : σ) (r : τ) (h : R s r) (hC : ∀ a ∈ l, C a) :
    ∃ s', l.foldlM f s = .ok s' ∧ R s' (l.foldl g r) :=
  foldlM_simulation_along keep l s r h (along_of_forall r hC)

/-- When a step succeeds and keeps the relation `R` exactly on the inputs meeting `C`, a run does so
at every moment exactly if all its inputs meet `C`. -/
theorem foldlM_follows_iff {f : σ → α → Except ε σ} {g : τ → α → τ} {R : σ → τ → Prop}
    {C : τ → α → Prop} {I : τ → Prop} (keep : ∀ r a, I r → C r a → I (g r a))
    (iff : ∀ s r a, R s r → I r → ((∃ s', f s a = .ok s' ∧ R s' (g r a)) ↔ C r a)) :
    ∀ (l : List α) (s : σ) (r : τ), R s r → I r →
      ((∀ p, p <+: l → ∃ s', p.foldlM f s = .ok s' ∧ R s' (p.foldl g r)) ↔ Along C g r l)
  | [], s, r, h, _ => by
    refine iff_of_true (fun p hp => ?_) trivial
    obtain rfl := List.prefix_nil.1 hp
    exact ⟨s, rfl, h⟩
  | a :: l, s, r, h, hI => by
    constructor
    · intro hall
      obtain ⟨s₁, hs₁, h₁⟩ := hall [a] ((List.prefix_cons_inj a).2 List.nil_prefix)
      have hf : f s a = .ok s₁ := by simpa using hs₁
      have hC : C r a := (iff s r a h hI).1 ⟨s₁, hf, h₁⟩
      refine ⟨hC, (foldlM_follows_iff keep iff l s₁ (g r a) h₁ (keep r a hI hC)).1 ?_⟩
      intro p hp
      obtain ⟨s₂, hs₂, h₂⟩ := hall (a :: p) ((List.prefix_cons_inj a).2 hp)
      rw [List.foldlM_cons, hf] at hs₂
      exact ⟨s₂, hs₂, h₂⟩
    · rintro ⟨hC, hrest⟩ p hp
      obtain ⟨s₁, hf, h₁⟩ := (iff s r a h hI).2 hC
      cases p with
      | nil => exact ⟨s, rfl, h⟩
      | cons b p =>
        obtain ⟨rfl, hpl⟩ := List.cons_prefix_cons.1 hp
        have ih := foldlM_follows_iff keep iff l s₁ (g r b) h₁ (keep r b hI hC)
        obtain ⟨s₂, hs₂, h₂⟩ := ih.2 hrest p hpl
        refine ⟨s₂, ?_, h₂⟩
        rw [List.foldlM_cons, hf]
        exact hs₂

/-- When each step that succeeds is followed by a step of a second function, so is each run. -/
theorem foldlM_refines {ε' : Type*} {f : σ → α → Except ε σ} {g : τ → α → Except ε' τ}
    {R : σ → τ → Prop}
    (follow : ∀ s s' r a, R s r → f s a = .ok s' → ∃ r', g r a = .ok r' ∧ R s' r') :
    ∀ (l : List α) (s s' : σ) (r : τ), R s r → l.foldlM f s = .ok s' →
      ∃ r', l.foldlM g r = .ok r' ∧ R s' r'
  | [], s, s', r, h, hs => by
    cases hs
    exact ⟨r, rfl, h⟩
  | a :: l, s, s', r, h, hs => by
    rw [List.foldlM_cons] at hs
    cases hf : f s a with
    | error e =>
      rw [hf] at hs
      cases hs
    | ok s₁ =>
      rw [hf] at hs
      obtain ⟨r₁, hr₁, h₁⟩ := follow s s₁ r a h hf
      obtain ⟨r', hr', h'⟩ := foldlM_refines follow l s₁ s' r₁ h₁ hs
      refine ⟨r', ?_, h'⟩
      rw [List.foldlM_cons, hr₁]
      exact hr'

/-- What every step that succeeds keeps holds after a run. -/
theorem foldlM_invariant {f : σ → α → Except ε σ} {I : σ → Prop}
    (keep : ∀ s a s', I s → f s a = .ok s' → I s') :
    ∀ (l : List α) (s s' : σ), I s → l.foldlM f s = .ok s' → I s'
  | [], s, s', h, hs => by
    cases hs
    exact h
  | a :: l, s, s', h, hs => by
    rw [List.foldlM_cons] at hs
    cases hf : f s a with
    | error e =>
      rw [hf] at hs
      cases hs
    | ok s₁ =>
      rw [hf] at hs
      exact foldlM_invariant keep l s₁ s' (keep s a s₁ h hf) hs

/-- What holds of the result, if there is one. -/
def Post (P : σ → Prop) (x : Except ε σ) : Prop := ∀ s, x = .ok s → P s

instance {P : σ → Prop} [DecidablePred P] (x : Except ε σ) : Decidable (Post P x) :=
  match x with
  | .ok s => decidable_of_iff (P s) ⟨fun h _ hs => Except.ok.inj hs ▸ h, fun h => h s rfl⟩
  | .error _ => isTrue fun _ hs => nomatch hs

/-- Every input meets `C` in the state in which the machine finds it, as long as it succeeds. -/
def Throughout (C : σ → α → Prop) (f : σ → α → Except ε σ) : List α → σ → Prop
  | [], _ => True
  | a :: l, s => C s a ∧ Post (Throughout C f l) (f s a)

instance decidableThroughout {C : σ → α → Prop} [∀ s a, Decidable (C s a)]
    (f : σ → α → Except ε σ) : ∀ l, DecidablePred (Throughout C f l)
  | [], _ => isTrue trivial
  | a :: l, s =>
    have : DecidablePred (Throughout C f l) := decidableThroughout f l
    inferInstanceAs (Decidable (C s a ∧ Post (Throughout C f l) (f s a)))

theorem throughout_of_forall {f : σ → α → Except ε σ} {C : σ → α → Prop} (h : ∀ s a, C s a) :
    ∀ (l : List α) (s : σ), Throughout C f l s
  | [], _ => trivial
  | a :: l, s => ⟨h s a, fun s' _ => throughout_of_forall h l s'⟩

/-- When a step succeeds exactly on the inputs that meet `C`, a run succeeds exactly if all its
inputs meet `C`. -/
theorem foldlM_isOk_iff {f : σ → α → Except ε σ} {C : σ → α → Prop} {I : σ → Prop}
    (keep : ∀ s a s', I s → f s a = .ok s' → I s')
    (isOk : ∀ s a, I s → ((∃ s', f s a = .ok s') ↔ C s a)) :
    ∀ (l : List α) (s : σ), I s → ((∃ s', l.foldlM f s = .ok s') ↔ Throughout C f l s)
  | [], s, _ => iff_of_true ⟨s, rfl⟩ trivial
  | a :: l, s, h => by
    rw [List.foldlM_cons, Throughout, ← isOk s a h]
    cases hf : f s a with
    | error e =>
      refine iff_of_false (fun ⟨s', hs⟩ => nomatch hs) fun ⟨⟨s', hs⟩, _⟩ => nomatch hs
    | ok s₁ =>
      have ih := foldlM_isOk_iff keep isOk l s₁ (keep s a s₁ h hf)
      refine ih.trans ⟨fun hall => ⟨⟨s₁, rfl⟩, fun s' hs => Except.ok.inj hs ▸ hall⟩, ?_⟩
      exact fun hall => hall.2 s₁ rfl

/-- When what the inputs have to meet depends on the state of the machine itself, it still runs
along with its reference machine. -/
theorem foldlM_simulation_throughout {f : σ → α → Except ε σ} {g : τ → α → τ} {R : σ → τ → Prop}
    {C : σ → α → Prop} (keep : ∀ s r a, R s r → C s a → ∃ s', f s a = .ok s' ∧ R s' (g r a)) :
    ∀ (l : List α) (s : σ) (r : τ), R s r → Throughout C f l s →
      ∃ s', l.foldlM f s = .ok s' ∧ R s' (l.foldl g r)
  | [], s, r, h, _ => ⟨s, rfl, h⟩
  | a :: l, s, r, h, hC => by
    obtain ⟨s₁, hs₁, h₁⟩ := keep s r a h hC.1
    obtain ⟨s₂, hs₂, h₂⟩ := foldlM_simulation_throughout keep l s₁ (g r a) h₁ (hC.2 s₁ hs₁)
    refine ⟨s₂, ?_, h₂⟩
    rw [List.foldlM_cons, hs₁]
    exact hs₂

/-- Two conditions that are equivalent under an invariant hold of the same runs, if the steps that
meet the second one keep the invariant. -/
theorem throughout_congr {f : σ → α → Except ε σ} {B C D : σ → α → Prop} {I : σ → Prop}
    (keep : ∀ s a s', I s → D s a → f s a = .ok s' → I s')
    (iff : ∀ s a, I s → B s a → (C s a ↔ D s a)) :
    ∀ (l : List α) (s : σ), I s → Throughout B f l s → (Throughout C f l s ↔ Throughout D f l s)
  | [], _, _, _ => Iff.rfl
  | a :: l, s, h, hB => by
    have hiff := iff s a h hB.1
    constructor
    · rintro ⟨hC, hrest⟩
      refine ⟨hiff.1 hC, fun s' hs => ?_⟩
      exact (throughout_congr keep iff l s' (keep s a s' h (hiff.1 hC) hs) (hB.2 s' hs)).1
        (hrest s' hs)
    · rintro ⟨hD, hrest⟩
      refine ⟨hiff.2 hD, fun s' hs => ?_⟩
      exact (throughout_congr keep iff l s' (keep s a s' h hD hs) (hB.2 s' hs)).2 (hrest s' hs)

/-- What each turn of a loop over `0, ..., n - 1` keeps, its counter going up, holds after the
loop. -/
theorem foldl_finRange_invariant {n : ℕ} {f : σ → Fin n → σ} (I : ℕ → σ → Prop)
    (step : ∀ (i : Fin n) (s : σ), I i s → I (i + 1) (f s i)) {s : σ} (h : I 0 s) :
    I n ((List.finRange n).foldl f s) := by
  have hprefix : ∀ k ≤ n, I k (((List.finRange n).take k).foldl f s) := by
    intro k
    induction k with
    | zero => exact fun _ => h
    | succ k ih =>
      intro hk
      have hk' : k < (List.finRange n).length := by
        rw [List.length_finRange]
        omega
      rw [List.take_add_one, List.getElem?_eq_getElem hk', Option.toList_some, List.foldl_append]
      simpa using step ⟨k, hk⟩ _ (ih (by omega))
  have hall := hprefix n le_rfl
  rwa [List.take_of_length_le (List.length_finRange).le] at hall

/-- A fold whose steps fail unless a condition on the input is met, and otherwise do what the steps
of a second function do. The invariant may depend on the inputs that are left. -/
theorem foldlM_eq_of_guarded {f : σ → α → Except ε σ} {g : σ → α → σ} {C : α → Prop}
    [DecidablePred C] {e : ε} (I : List α → σ → Prop)
    (keep : ∀ a l s, I (a :: l) s → I l (g s a))
    (turn : ∀ a l s, I (a :: l) s → f s a = if C a then .ok (g s a) else .error e) :
    ∀ (l : List α) (s : σ), I l s →
      l.foldlM f s = if ∀ a ∈ l, C a then .ok (l.foldl g s) else .error e
  | [], _, _ => (if_pos (List.forall_mem_nil C)).symm
  | a :: l, s, h => by
    rw [List.foldlM_cons, turn a l s h, List.foldl_cons]
    by_cases ha : C a
    · have ih := foldlM_eq_of_guarded I keep turn l (g s a) (keep a l s h)
      rw [if_pos ha, if_congr (List.forall_mem_cons.trans (and_iff_right ha)) rfl rfl, ← ih]
      rfl
    · rw [if_neg ha, if_neg fun hall => ha (hall a List.mem_cons_self)]
      rfl

/-- The same for a loop over `0, ..., n - 1`, with its counter going up. -/
theorem foldlM_finRange_eq {n : ℕ} {f : σ → Fin n → Except ε σ} {g : σ → Fin n → σ}
    {C : Fin n → Prop} [DecidablePred C] {e : ε} (I : ℕ → σ → Prop)
    (keep : ∀ (i : Fin n) (s : σ), I i s → I (i + 1) (g s i))
    (turn : ∀ (i : Fin n) (s : σ), I i s → f s i = if C i then .ok (g s i) else .error e)
    {s : σ} (h : I 0 s) :
    (List.finRange n).foldlM f s =
      if ∀ i, C i then .ok ((List.finRange n).foldl g s) else .error e := by
  -- the counter is where the rest of the loop begins
  let J : List (Fin n) → σ → Prop := fun l s => ∃ k, (List.finRange n).drop k = l ∧ I k s
  have hhead : ∀ {i : Fin n} {l : List (Fin n)} {k : ℕ},
      (List.finRange n).drop k = i :: l → k = i ∧ (List.finRange n).drop (k + 1) = l := by
    intro i l k hk
    have hlt : k < (List.finRange n).length := by
      by_contra hge
      rw [List.drop_of_length_le (not_lt.1 hge)] at hk
      cases hk
    rw [List.drop_eq_getElem_cons hlt, List.getElem_finRange] at hk
    obtain ⟨rfl, hl⟩ := List.cons.inj hk
    exact ⟨rfl, hl⟩
  have hloop := foldlM_eq_of_guarded (f := f) (g := g) (C := C) (e := e) J
    (fun i l s ⟨k, hk, hI⟩ => by
      obtain ⟨rfl, hl⟩ := hhead hk
      exact ⟨_, hl, keep i s hI⟩)
    (fun i l s ⟨k, hk, hI⟩ => by
      obtain ⟨rfl, -⟩ := hhead hk
      exact turn i s hI)
    (List.finRange n) s ⟨0, rfl, h⟩
  simpa only [List.mem_finRange, true_implies] using hloop

end Fold

end PconTng
