import PconTng.Foundations.CArray
import PconTng.Foundations.Chain
import PconTng.Foundations.Run

/-!
# The queue of topic levels

`fifo_q.c` keeps a queue as a chain of nodes with a pointer to the first and to the last of them.
The nodes are cells of a heap, the value of a cell is the token pointer of the node, and which
address `malloc` returns is part of each operation.

As long as `malloc` returns addresses that are not in use, the queue is first in, first out
(`queue_fifo`): `head` and `tail` are the ends of one chain, and the tokens of the removed nodes and
of the nodes in the chain are the tokens that were added, in this order.
-/

namespace PconTng.Topic

variable {A τ : Type} [DecidableEq A]

/-! ## The routines -/

/-- The memory of a queue: the nodes, the two pointers of `_TOPIC_Q`, and the tokens that have been
freed. -/
structure Queue (A τ : Type) where
  nodes : Heap A τ
  head : Option A
  tail : Option A
  freed : List τ

/-- The branch in which a routine returns: its work is done, the list is empty, there is no memory,
or only one of `head` and `tail` is null. -/
inductive Branch
  | done
  | empty
  | noMemory
  | broken
  deriving DecidableEq

/-- The routine returns a null pointer instead of the queue. -/
def Branch.isNull : Branch → Bool
  | .done => false
  | .empty => true
  | .noMemory => false
  | .broken => true

/-- `list_new`, with the nodes that other queues have. -/
def listNew (nodes : Heap A τ) : Queue A τ := ⟨nodes, none, none, []⟩

/-- `list_add_element`, with what `malloc` returns. -/
def listAddElement (q : Queue A τ) (newNode : Option A) (tokenptr : τ) :
    Except Stop (Queue A τ × Branch) :=
  match newNode with
  | none => .ok (q, .noMemory)
  | some a =>
    let q := { q with nodes := Function.update q.nodes a (some ⟨tokenptr, none⟩) }
    match q.head, q.tail with
    | none, none => .ok ({ q with head := some a, tail := some a }, .done)
    | some _, some t =>
      match q.nodes t with
      | some c =>
        let nodes := Function.update q.nodes t (some { c with next := some a })
        .ok ({ q with nodes := nodes, tail := some a }, .done)
      | none => .error .fault
    | _, _ => .ok ({ q with nodes := Function.update q.nodes a none }, .broken)

/-- `list_remove_element` -/
def listRemoveElement (q : Queue A τ) : Except Stop (Queue A τ × Branch) :=
  match q.head, q.tail with
  | none, none => .ok (q, .empty)
  | some h, some _ =>
    match q.nodes h with
    | some c =>
      let q := { q with
        nodes := Function.update q.nodes h none, head := c.next, freed := q.freed ++ [c.value] }
      .ok (if q.head = none then { q with tail := none } else q, .done)
    | none => .error .fault
  | _, _ => .ok (q, .broken)

/-! ## Operations -/

/-- An addition, with the address of the new node, or a removal. -/
inductive Op (A τ : Type)
  | add (a : A) (token : τ)
  | remove

/-- An operation on the queue, behind the branches of those before it. -/
def Op.exec (x : Queue A τ × List Branch) : Op A τ → Except Stop (Queue A τ × List Branch)
  | .add a token => do
    let (q, branch) ← listAddElement x.1 (some a) token
    return (q, x.2 ++ [branch])
  | .remove => do
    let (q, branch) ← listRemoveElement x.1
    return (q, x.2 ++ [branch])

/-- `malloc` returns an address that is not in use. -/
def Fresh (x : Queue A τ × List Branch) : Op A τ → Prop
  | .add a _ => x.1.nodes a = none
  | .remove => True

instance [DecidableEq τ] (x : Queue A τ × List Branch) : DecidablePred (Fresh x)
  | .add a _ => inferInstanceAs (Decidable (x.1.nodes a = none))
  | .remove => isTrue trivial

/-- The tokens that are added. -/
def added (ops : List (Op A τ)) : List τ :=
  ops.filterMap fun
    | .add _ token => some token
    | .remove => none

/-- A queue in the abstract: the tokens in it, those removed from it, and how each operation has
returned. -/
structure Fifo (τ : Type) where
  pending : List τ
  removed : List τ
  branches : List Branch

def Fifo.start : Fifo τ := ⟨[], [], []⟩

def Fifo.step (r : Fifo τ) : Op A τ → Fifo τ
  | .add _ token => ⟨r.pending ++ [token], r.removed, r.branches ++ [.done]⟩
  | .remove =>
    match r.pending with
    | [] => { r with branches := r.branches ++ [.empty] }
    | token :: rest => ⟨rest, r.removed ++ [token], r.branches ++ [.done]⟩

/-! ## The chain from head to tail -/

/-- The nodes in `l` are a chain from `head` to `tail`. -/
structure Linked (q : Queue A τ) (l : List (A × τ)) : Prop where
  chain : Chain q.nodes q.head l
  tail : q.tail = l.getLast?.map Prod.fst

variable {q : Queue A τ} {l : List (A × τ)} {a : A} {t : τ}

omit [DecidableEq A] in
theorem linked_listNew (nodes : Heap A τ) : Linked (listNew nodes) [] := ⟨.nil, rfl⟩

omit [DecidableEq A] in
/-- Both pointers are null, or neither. -/
theorem Linked.head_eq_none_iff (h : Linked q l) : q.head = none ↔ q.tail = none := by
  rw [h.chain.start_eq, h.tail]
  simp

/-- No node but the new one comes into use. -/
theorem Linked.add (h : Linked q l) (ha : q.nodes a = none) (t : τ) :
    ∃ q', listAddElement q (some a) t = .ok (q', .done) ∧ Linked q' (l ++ [(a, t)]) ∧
      q'.freed = q.freed ∧ ∀ b, b ≠ a → q.nodes b = none → q'.nodes b = none := by
  have hstart := h.chain.start_eq
  have htail := h.tail
  obtain rfl | ⟨init, ⟨b, v⟩, rfl⟩ := List.eq_nil_or_concat' l
  · -- the first node
    have hhead : q.head = none := hstart
    have hnull : q.tail = none := htail
    refine ⟨⟨Function.update q.nodes a (some ⟨t, none⟩), some a, some a, q.freed⟩, ?_, ⟨?_, rfl⟩,
      rfl, fun b hb hfree => ?_⟩
    · unfold listAddElement
      simp only [hhead, hnull]
    · exact .cons (c := ⟨t, none⟩) (Function.update_self ..) .nil
    · exact (Function.update_of_ne hb _ _).trans hfree
  · obtain ⟨first, hfirst⟩ : ∃ first, q.head = some first := by
      rw [hstart]
      cases init <;> exact ⟨_, rfl⟩
    have hlast : q.tail = some b := by
      rw [htail, List.getLast?_concat]
      rfl
    obtain ⟨c, hc, hchain⟩ := h.chain.link (w := t) ha
    have hba : b ≠ a := by
      rintro rfl
      cases hc.symm.trans ha
    refine ⟨⟨Function.update (Function.update q.nodes a (some ⟨t, none⟩)) b
      (some { c with next := some a }), q.head, some a, q.freed⟩, ?_, ⟨hchain, by simp⟩, rfl,
      fun b' hb' hfree => ?_⟩
    · unfold listAddElement
      simp only [hfirst, hlast, Function.update_of_ne hba, hc]
    · have hne : b' ≠ b := by
        rintro rfl
        cases hc.symm.trans hfree
      exact (Function.update_of_ne hne _ _).trans ((Function.update_of_ne hb' _ _).trans hfree)

theorem Linked.remove_nil (h : Linked q []) : listRemoveElement q = .ok (q, .empty) := by
  have hstart : q.head = none := h.chain.start_eq
  have htail : q.tail = none := h.tail
  unfold listRemoveElement
  rw [hstart, htail]

theorem Linked.remove_cons (h : Linked q ((a, t) :: l)) :
    ∃ q', listRemoveElement q = .ok (q', .done) ∧ Linked q' l ∧ q'.freed = q.freed ++ [t] := by
  have hhead : q.head = some a := h.chain.start_eq
  have htail := h.tail
  obtain ⟨last, hlast⟩ : ∃ last, q.tail = some last := by
    rw [htail, List.getLast?_cons]
    exact ⟨_, rfl⟩
  obtain ⟨c, hc, rfl, hchain⟩ := (hhead ▸ h.chain).free_head
  have hnext := hchain.start_eq
  refine ⟨⟨Function.update q.nodes a none, c.next, if c.next = none then none else q.tail,
    q.freed ++ [c.value]⟩, ?_, ⟨hchain, ?_⟩, rfl⟩
  · unfold listRemoveElement
    simp only [hhead, hlast, hc]
    split_ifs <;> rfl
  · cases l with
    | nil => exact if_pos hnext
    | cons x l =>
      have hne : ¬ c.next = none := by
        rw [hnext]
        exact Option.some_ne_none _
      rw [if_neg hne, htail, List.getLast?_cons_cons]

/-! ## First in, first out -/

/-- The queue has the tokens of the abstract one, and its operations have returned in the same
way. -/
structure Follows (x : Queue A τ × List Branch) (r : Fifo τ) : Prop where
  linked : ∃ l, Linked x.1 l ∧ l.map Prod.snd = r.pending
  freed : x.1.freed = r.removed
  branches : x.2 = r.branches

/-- **Each operation does to the queue what it does to the abstract one.** -/
theorem Follows.step {x : Queue A τ × List Branch} {r : Fifo τ} {op : Op A τ} (h : Follows x r)
    (hop : Fresh x op) : ∃ x', op.exec x = .ok x' ∧ Follows x' (r.step op) := by
  obtain ⟨q, branches⟩ := x
  obtain ⟨⟨l, hl, hpending⟩, hfreed, hbranches⟩ := h
  cases op with
  | add a token =>
    obtain ⟨q', hadd, hlinked, hsame, -⟩ := hl.add hop token
    refine ⟨(q', branches ++ [.done]), ?_, ⟨_, hlinked, ?_⟩, hsame.trans hfreed, ?_⟩
    · simp only [Op.exec, hadd, bind, Except.bind]
      rfl
    · rw [List.map_append, hpending]
      rfl
    · exact congrArg (· ++ [Branch.done]) hbranches
  | remove =>
    cases l with
    | nil =>
      have hstep : r.step (A := A) .remove = { r with branches := r.branches ++ [.empty] } := by
        rw [Fifo.step, ← hpending]
        rfl
      refine ⟨(q, branches ++ [.empty]), ?_, ?_⟩
      · simp only [Op.exec, hl.remove_nil, bind, Except.bind]
        rfl
      · rw [hstep]
        exact ⟨⟨[], hl, hpending⟩, hfreed, congrArg (· ++ [Branch.empty]) hbranches⟩
    | cons y l =>
      have hstep : r.step (A := A) .remove =
          ⟨l.map Prod.snd, r.removed ++ [y.2], r.branches ++ [.done]⟩ := by
        rw [Fifo.step, ← hpending]
        rfl
      obtain ⟨q', hremove, hlinked, hsame⟩ := hl.remove_cons
      refine ⟨(q', branches ++ [.done]), ?_, ?_⟩
      · simp only [Op.exec, hremove, bind, Except.bind]
        rfl
      · rw [hstep]
        exact ⟨⟨l, hlinked, rfl⟩, hsame.trans (congrArg (· ++ [y.2]) hfreed),
          congrArg (· ++ [Branch.done]) hbranches⟩

omit [DecidableEq A] in
/-- What is removed from the abstract queue and what is left in it is what was added, in order. -/
theorem Fifo.removed_append_pending (ops : List (Op A τ)) (r : Fifo τ) :
    (ops.foldl Fifo.step r).removed ++ (ops.foldl Fifo.step r).pending =
      r.removed ++ r.pending ++ added ops := by
  induction ops generalizing r with
  | nil => simp [added]
  | cons op ops ih =>
    rw [List.foldl_cons, ih]
    cases op with
    | add a token => simp [Fifo.step, added]
    | remove =>
      unfold Fifo.step
      cases r.pending <;> simp [added]

omit [DecidableEq A] in
/-- It is never found broken. -/
theorem Fifo.not_broken (ops : List (Op A τ)) {r : Fifo τ} (h : Branch.broken ∉ r.branches) :
    Branch.broken ∉ (ops.foldl Fifo.step r).branches := by
  induction ops generalizing r with
  | nil => exact h
  | cons op ops ih =>
    apply ih
    cases op with
    | add a token => simp [Fifo.step, h]
    | remove =>
      unfold Fifo.step
      cases r.pending <;> simp [h]

/-- **The queue is first in, first out.** Whatever is done to a new queue, it returns as the
abstract queue does, never finding itself broken. Both of its pointers are null or neither is, they
are the ends of one chain of nodes with the tokens of the abstract queue, and the tokens that were
removed and those that are left are the tokens that were added. Removing from an empty queue returns
a null pointer and changes nothing. -/
theorem queue_fifo (nodes : Heap A τ) (ops : List (Op A τ))
    (h : Throughout Fresh Op.exec ops (listNew nodes, [])) :
    ∃ q branches l, ops.foldlM Op.exec (listNew nodes, []) = .ok (q, branches) ∧
      ops.foldl Fifo.step .start = ⟨l.map Prod.snd, q.freed, branches⟩ ∧
      Branch.broken ∉ branches ∧ (q.head = none ↔ q.tail = none) ∧
      Chain q.nodes q.head l ∧ q.tail = l.getLast?.map Prod.fst ∧
      q.freed ++ l.map Prod.snd = added ops ∧
      (q.head = none → ∃ branch, listRemoveElement q = .ok (q, branch) ∧ branch.isNull) := by
  obtain ⟨⟨q, branches⟩, hrun, ⟨⟨l, hl, hpending⟩, hfreed, hbranches⟩⟩ :=
    foldlM_simulation_throughout (f := Op.exec) (g := Fifo.step) (R := Follows) (C := Fresh)
      (fun _ _ _ hxr hop => hxr.step hop) ops (listNew nodes, []) Fifo.start
      ⟨⟨[], linked_listNew nodes, rfl⟩, rfl, rfl⟩ h
  dsimp only at hl hfreed hbranches
  have hall := Fifo.removed_append_pending ops Fifo.start
  rw [← hpending, ← hfreed] at hall
  have hnot := Fifo.not_broken ops (r := Fifo.start) List.not_mem_nil
  rw [← hbranches] at hnot
  refine ⟨q, branches, l, hrun, ?_, hnot, hl.head_eq_none_iff, hl.chain, hl.tail, hall, ?_⟩
  · rw [hpending, hfreed, hbranches]
  · intro hhead
    have hnil : l = [] := by
      have hstart := hl.chain.start_eq
      rw [hhead] at hstart
      simpa using hstart.symm
    subst hnil
    exact ⟨.empty, hl.remove_nil, rfl⟩

/-- A queue is filled, emptied and filled again. -/
def refill : List (Op ℕ ℕ) := [.remove, .add 1 10, .add 2 20, .remove, .remove, .remove, .add 1 30]

/-- The addresses of removed nodes can be used again. -/
theorem queue_fifo_refill : ∃ q branches l,
    refill.foldlM Op.exec (listNew fun _ => none, []) = .ok (q, branches) ∧
    Chain q.nodes q.head l ∧ q.freed ++ l.map Prod.snd = [10, 20, 30] := by
  obtain ⟨q, branches, l, hrun, -, -, -, hchain, -, hall, -⟩ :=
    queue_fifo (fun _ => none) refill (by decide)
  exact ⟨q, branches, l, hrun, hchain, hall⟩

end PconTng.Topic
