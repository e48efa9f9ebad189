import PconTng.Foundations.CArray

/-!
# A row of a terminal

A terminal at its last row: the cells of the row, the column of the cursor, and what the items that
it is sent do to them. A line feed scrolls, so the row behind it is blank. A character behind the
end of the row is a fault, and a terminal may do anything with an item that is `unknown`.

`Shown s l` says that the row shows the text `l` and nothing else. A text is printed over what is
there (`run_text`), and a row is drawn anew from the left by printing a text and erasing the rest,
in either order (`run_redraw`, `run_erase_draw`).
-/

namespace PconTng.Terminal

open CArray

variable {α : Type} {n : ℕ}

/-- A character or a control. -/
inductive Item (α : Type)
  | char (c : α)
  | carriageReturn
  | lineFeed
  /-- erase from the cursor to the end of the row -/
  | erase
  | left
  | right
  | unknown

/-- The row with the cursor. A blank cell is `none`. -/
structure Screen (α : Type) (n : ℕ) where
  cells : Vector (Option α) n
  col : ℕ

namespace Screen

def send (s : Screen α n) : Item α → Except Stop (Screen α n)
  | .char c => do
    let cells ← store s.cells s.col (some c)
    return ⟨cells, s.col + 1⟩
  | .carriageReturn => .ok { s with col := 0 }
  | .lineFeed => .ok { s with cells := .replicate _ none }
  | .erase => .ok { s with cells := .ofFn fun i => if i.val < s.col then s.cells.get i else none }
  | .left => .ok { s with col := s.col - 1 }
  | .right => .ok { s with col := min (s.col + 1) (n - 1) }
  | .unknown => .error .fault

def run (s : Screen α n) (items : List (Item α)) : Except Stop (Screen α n) := items.foldlM send s

/-- The row shows the text and nothing else. -/
def Shown (s : Screen α n) (l : List α) : Prop := ∀ (j : ℕ) (hj : j < n), s.cells[j] = l[j]?

variable {s s' : Screen α n} {t : List α}

theorem run_append {items items' : List (Item α)} (h : s.run items = .ok s') :
    s.run (items ++ items') = s'.run items' := by
  rw [run, List.foldlM_append]
  exact congrArg (· >>= fun s => s.run items') h

/-- A text is printed over what is there. -/
theorem run_text (t : List α) {s : Screen α n} (h : s.col + t.length ≤ n) :
    ∃ s', s.run (t.map .char) = .ok s' ∧ s'.col = s.col + t.length ∧
      ∀ (j : ℕ) (hj : j < n), s'.cells[j] =
        if s.col ≤ j ∧ j < s.col + t.length then t[j - s.col]? else s.cells[j] := by
  induction t generalizing s with
  | nil =>
    refine ⟨s, rfl, rfl, fun j hj => ?_⟩
    rw [if_neg (by simp)]
  | cons c t ih =>
    rw [List.length_cons] at h
    have hlt : s.col < n := by omega
    have hsend : s.send (.char c) = .ok ⟨s.cells.set s.col (some c), s.col + 1⟩ := by
      simp only [send, store_natCast s.cells hlt, bind, Except.bind]
      rfl
    obtain ⟨s', hrun, hcol, hcells⟩ := ih (s := ⟨s.cells.set s.col (some c), s.col + 1⟩) (by
      dsimp only
      omega)
    refine ⟨s', ?_, ?_, fun j hj => ?_⟩
    · rw [List.map_cons, run, List.foldlM_cons, hsend]
      exact hrun
    · rw [hcol, List.length_cons]
      dsimp only
      omega
    · rw [hcells j hj, Vector.getElem_set, List.length_cons]
      dsimp only
      obtain hlt | rfl | hgt := lt_trichotomy j s.col
      · rw [if_neg (by omega), if_neg (by omega), if_neg (by omega)]
      · rw [if_neg (by omega), if_pos rfl, if_pos (by omega), Nat.sub_self]
        rfl
      · obtain ⟨i, rfl⟩ : ∃ i, j = s.col + 1 + i := ⟨_, (Nat.add_sub_of_le hgt).symm⟩
        have hi : s.col + 1 + i - s.col = i + 1 := by omega
        rw [hi, List.getElem?_cons_succ, Nat.add_sub_cancel_left,
          if_neg (show s.col ≠ s.col + 1 + i by omega)]
        exact if_congr (by omega) rfl rfl

theorem run_left (s : Screen α n) (k : ℕ) :
    s.run (List.replicate k .left) = .ok { s with col := s.col - k } := by
  induction k generalizing s with
  | zero => rfl
  | succ k ih =>
    rw [List.replicate_succ, run, List.foldlM_cons]
    refine (ih { s with col := s.col - 1 }).trans ?_
    rw [Nat.sub_sub, Nat.add_comm]

/-- A character behind the text. -/
theorem send_char (h : s.Shown t) (hcol : s.col = t.length) (hlt : t.length < n) (c : α) :
    ∃ s', s.send (.char c) = .ok s' ∧ s'.Shown (t ++ [c]) ∧ s'.col = t.length + 1 := by
  have hstore : store s.cells s.col (some c) = .ok (s.cells.set t.length (some c)) := by
    rw [hcol]
    exact store_natCast s.cells hlt _
  refine ⟨⟨s.cells.set t.length (some c), s.col + 1⟩, ?_, fun j hj => ?_, by rw [hcol]⟩
  · simp only [send, hstore, bind, Except.bind]
    rfl
  · simp only [Vector.getElem_set, h j hj]
    split_ifs with heq
    · rw [← heq, List.getElem?_concat_length]
    · obtain hlt | hge := lt_or_ge j t.length
      · rw [List.getElem?_append_left hlt]
      · rw [List.getElem?_eq_none hge, List.getElem?_eq_none]
        rw [List.length_append, List.length_singleton]
        omega

/-- A text that is printed at the left of a row, and the rest of the row erased. -/
theorem redraw (hcol : s.col = 0) (ht : t.length ≤ n) :
    ∃ s', s.run (t.map .char ++ [.erase]) = .ok s' ∧ s'.Shown t ∧ s'.col = t.length := by
  obtain ⟨s₁, hrun, hcol₁, hcells⟩ := run_text t (s := s) (by omega)
  rw [hcol, Nat.zero_add] at hcol₁
  refine ⟨_, (run_append hrun).trans rfl, fun j hj => ?_, hcol₁⟩
  simp only [Vector.getElem_ofFn, get_eq, hcells j hj, hcol, hcol₁]
  split_ifs with hlt
  · rfl
  · omega
  · rw [List.getElem?_eq_none (not_lt.1 hlt)]

/-- A text that is printed at the left of a blank row. -/
theorem draw (hcol : s.col = 0) (hblank : s.Shown []) (ht : t.length ≤ n) :
    ∃ s', s.run (t.map .char) = .ok s' ∧ s'.Shown t ∧ s'.col = t.length := by
  obtain ⟨s', hrun, hcol', hcells⟩ := run_text t (s := s) (by omega)
  refine ⟨s', hrun, fun j hj => ?_, by omega⟩
  rw [hcells j hj, hcol, hblank j hj, List.getElem?_nil]
  split_ifs with hin
  · rfl
  · rw [List.getElem?_eq_none (show t.length ≤ j by omega)]

/-! ## What is printed in front of a text -/

/-- From the left of a row the items lead to the left of the same row, or of a blank one. -/
def Leads (n : ℕ) (items : List (Item α)) : Prop :=
  ∀ s : Screen α n, s.col = 0 → ∃ s', s.run items = .ok s' ∧ s'.col = 0 ∧ (s' = s ∨ s'.Shown [])

theorem leads_nil : Leads n ([] : List (Item α)) := fun s hcol => ⟨s, rfl, hcol, .inl rfl⟩

/-- A row is drawn anew: what leads to it, the text, and the rest of the row is erased. -/
theorem run_redraw (s : Screen α n) {lead : List (Item α)} (hlead : Leads n lead)
    (ht : t.length ≤ n) :
    ∃ s', s.run (.carriageReturn :: (lead ++ t.map .char ++ [.erase])) = .ok s' ∧ s'.Shown t ∧
      s'.col = t.length := by
  obtain ⟨s₁, hrun₁, hcol₁, -⟩ := hlead { s with col := 0 } rfl
  obtain ⟨s₂, hrun₂, hshown, hcol₂⟩ := redraw hcol₁ ht
  refine ⟨s₂, ?_, hshown, hcol₂⟩
  have hrun : ({ s with col := 0 } : Screen α n).run (lead ++ t.map .char ++ [.erase]) =
      .ok s₂ := by
    rw [List.append_assoc, run_append hrun₁, hrun₂]
  exact hrun

/-- A row is erased and drawn anew. -/
theorem run_erase_draw (s : Screen α n) {lead : List (Item α)} (hlead : Leads n lead)
    (ht : t.length ≤ n) :
    ∃ s', s.run (.carriageReturn :: .erase :: (lead ++ t.map .char)) = .ok s' ∧ s'.Shown t ∧
      s'.col = t.length := by
  obtain ⟨s₁, hrun₁, hcol₁, hs₁⟩ := hlead ⟨.replicate _ none, 0⟩ rfl
  have hblank : s₁.Shown [] := by
    obtain rfl | hblank := hs₁
    · intro j hj
      simp
    · exact hblank
  obtain ⟨s₂, hrun₂, hshown, hcol₂⟩ := draw hcol₁ hblank ht
  refine ⟨s₂, ?_, hshown, hcol₂⟩
  have herase : ({ s with col := 0 } : Screen α n).send .erase = .ok ⟨.replicate _ none, 0⟩ := by
    refine congrArg Except.ok (congrArg (Screen.mk · 0) (Vector.ext fun j hj => ?_))
    simp
  have hrun : (⟨.replicate _ none, 0⟩ : Screen α n).run (lead ++ t.map .char) = .ok s₂ := by
    rw [run_append hrun₁, hrun₂]
  rw [run, List.foldlM_cons]
  change ({ s with col := 0 } : Screen α n).run (.erase :: (lead ++ t.map .char)) = _
  rw [run, List.foldlM_cons, herase]
  exact hrun

end Screen

end PconTng.Terminal
