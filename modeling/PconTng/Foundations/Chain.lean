import Mathlib.Data.List.Basic
import Mathlib.Data.List.Nodup
import Mathlib.Logic.Function.Basic

/-!
# Chains of cells

A heap maps the addresses in use to cells, each with a value and the address of the next cell, if
there is one. `Chain h start l` says that following `next` from `start` leads through the cells in
`l`, given by their addresses and values, and ends behind the last one.

A chain is determined by its start (`Chain.unique`), so no cell is met twice (`Chain.nodup`), and
taking the first cell off (`Chain.free_head`) or linking a new one behind the last
(`Chain.link`) leaves the others in the chain.
-/

namespace PconTng

/-- A cell of a chain. -/
structure Cell (A α : Type*) where
  value : α
  next : Option A

/-- The cells in use. -/
abbrev Heap (A α : Type*) : Type _ := A → Option (Cell A α)

variable {A α : Type*}

/-- From `start` on, the cells at these addresses with these values are linked up, and the last one
ends the chain. -/
inductive Chain (h : Heap A α) : Option A → List (A × α) → Prop
  | nil : Chain h none []
  | cons {a : A} {c : Cell A α} {l : List (A × α)} (hc : h a = some c) (rest : Chain h c.next l) :
      Chain h (some a) ((a, c.value) :: l)

namespace Chain

variable {h h' : Heap A α} {start : Option A} {l : List (A × α)}

theorem unique {l' : List (A × α)} (hl : Chain h start l) (hl' : Chain h start l') : l = l' := by
  induction hl generalizing l' with
  | nil =>
    cases hl'
    rfl
  | @cons a c l hc _ ih =>
    cases hl' with
    | @cons _ c' l' hc' rest =>
      obtain rfl : c = c' := Option.some.inj (hc.symm.trans hc')
      rw [ih rest]

theorem start_eq (hl : Chain h start l) : start = l.head?.map Prod.fst := by
  cases hl <;> rfl

/-- A chain can be entered at any of its cells. -/
theorem suffix {pre post : List (A × α)} {x : A × α} (hl : Chain h start (pre ++ x :: post)) :
    Chain h (some x.1) (x :: post) := by
  induction pre generalizing start with
  | nil =>
    rw [List.nil_append] at hl
    have hstart := hl.start_eq
    rw [List.head?_cons, Option.map_some] at hstart
    exact hstart ▸ hl
  | cons y pre ih =>
    cases hl with
    | cons hc rest => exact ih rest

/-- No cell is met twice. -/
theorem nodup (hl : Chain h start l) : (l.map Prod.fst).Nodup := by
  induction hl with
  | nil => exact List.nodup_nil
  | @cons a c l hc rest ih =>
    rw [List.map_cons, List.nodup_cons]
    refine ⟨fun hmem => ?_, ih⟩
    -- the chain from `a` would be as long as a proper end of itself
    obtain ⟨x, hx, rfl⟩ := List.mem_map.1 hmem
    obtain ⟨pre, post, rfl⟩ := List.append_of_mem hx
    have hlen := congrArg List.length ((Chain.cons hc rest).unique rest.suffix)
    simp only [List.length_cons, List.length_append] at hlen
    omega

/-- A chain depends on its own cells only. -/
theorem congr (hl : Chain h start l) (hcongr : ∀ x ∈ l, h' x.1 = h x.1) : Chain h' start l := by
  induction hl with
  | nil => exact .nil
  | @cons a c l hc _ ih =>
    rw [List.forall_mem_cons] at hcongr
    exact .cons (hcongr.1.trans hc) (ih hcongr.2)

/-- From one of its cells on, a chain can go on in another way. -/
theorem replace {a : A} {v v' : α} {post post' : List (A × α)}
    (hl : Chain h start (l ++ (a, v) :: post)) (hcongr : ∀ x ∈ l, h' x.1 = h x.1)
    (hpost : Chain h' (some a) ((a, v') :: post')) : Chain h' start (l ++ (a, v') :: post') := by
  induction l generalizing start with
  | nil =>
    have hstart := hl.start_eq
    rw [hstart]
    exact hpost
  | cons y l ih =>
    rw [List.forall_mem_cons] at hcongr
    cases hl with
    | cons hc rest => exact .cons (hcongr.1.trans hc) (ih rest hcongr.2)

/-- Every address of a chain is in use. -/
theorem ne_none (hl : Chain h start l) : ∀ x ∈ l, h x.1 ≠ none := by
  induction hl with
  | nil => simp
  | @cons a c l hc _ ih =>
    rw [List.forall_mem_cons]
    exact ⟨by simp [hc], ih⟩

variable [DecidableEq A] {a b : A} {v w : α}

/-- When the first cell is freed, the chain goes on from the next one. -/
theorem free_head (hl : Chain h (some a) ((a, v) :: l)) :
    ∃ c, h a = some c ∧ c.value = v ∧ Chain (Function.update h a none) c.next l := by
  have hnodup := hl.nodup
  rw [List.map_cons, List.nodup_cons] at hnodup
  cases hl with
  | @cons _ c _ hc rest =>
    refine ⟨c, hc, rfl, rest.congr fun x hx => ?_⟩
    exact Function.update_of_ne (fun he => hnodup.1 (List.mem_map.2 ⟨x, hx, he⟩)) _ _

/-- A new cell is linked behind the last one. -/
theorem link (hl : Chain h start (l ++ [(a, v)])) (hb : h b = none) :
    ∃ c, h a = some c ∧ Chain (Function.update (Function.update h b (some ⟨w, none⟩)) a
      (some { c with next := some b })) start (l ++ [(a, v)] ++ [(b, w)]) := by
  have hfresh : ∀ x ∈ l ++ [(a, v)], x.1 ≠ b := by
    rintro x hx rfl
    exact hl.ne_none x hx hb
  have hlast : b ≠ a := (hfresh (a, v) (by simp)).symm
  have hnodup := hl.nodup
  rw [List.map_append, List.map_singleton, List.nodup_append] at hnodup
  obtain ⟨c, hc, rfl, -⟩ := hl.suffix.free_head
  rw [List.append_assoc, List.singleton_append]
  refine ⟨c, hc, hl.replace (fun y hy => ?_) ?_⟩
  · have hya : y.1 ≠ a :=
      hnodup.2.2 y.1 (List.mem_map_of_mem hy) a (List.mem_singleton_self a)
    rw [Function.update_of_ne hya, Function.update_of_ne (hfresh y (by simp [hy]))]
  · refine .cons (c := { c with next := some b }) (Function.update_self ..) ?_
    refine .cons (c := ⟨w, none⟩) ?_ .nil
    rw [Function.update_of_ne hlast, Function.update_self]

end Chain

end PconTng
