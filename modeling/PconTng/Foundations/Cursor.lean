import Mathlib.Data.List.InsertIdx
import Mathlib.Tactic.Basic

/-!
# A text with a cursor

A `Line` is a text with a cursor in it. Its edits are those of a line editor: insert a character
before the cursor, delete the one before it, move it by one.

`Shows z a l` says that an array holds the text `l` from its start on, and `z` behind. An array that
shows a text shows the text with a character more or less when the elements behind the character
have moved by one (`Shows.insertIdx`, `Shows.eraseIdx`).
-/

namespace PconTng.Cursor

/-- The cursor stands before the character with its index, or at the end. -/
structure Line (α : Type*) where
  text : List α
  cursor : ℕ
  cursor_le : cursor ≤ text.length

inductive Edit (α : Type*)
  | insert (c : α)
  | delete
  | left
  | right

namespace Line

variable {α : Type*}

def empty : Line α := ⟨[], 0, Nat.le_refl 0⟩

def insert (l : Line α) (c : α) : Line α where
  text := l.text.insertIdx l.cursor c
  cursor := l.cursor + 1
  cursor_le := by
    rw [List.length_insertIdx_of_le_length l.cursor_le]
    exact Nat.succ_le_succ l.cursor_le

/-- There has to be a character before the cursor. -/
def delete (l : Line α) (h : 0 < l.cursor) : Line α where
  text := l.text.eraseIdx (l.cursor - 1)
  cursor := l.cursor - 1
  cursor_le := by
    have hle := l.cursor_le
    rw [List.length_eraseIdx_of_lt (by omega)]
    exact Nat.sub_le_sub_right hle 1

/-- An edit that is not possible does nothing. -/
def edit (l : Line α) : Edit α → Line α
  | .insert c => l.insert c
  | .delete => if h : 0 < l.cursor then l.delete h else l
  | .left =>
    { l with cursor := l.cursor - 1, cursor_le := Nat.le_trans (Nat.sub_le _ _) l.cursor_le }
  | .right =>
    { l with cursor := min (l.cursor + 1) l.text.length, cursor_le := Nat.min_le_right _ _ }

end Line

/-! ## A text in an array -/

variable {α : Type*} {n : ℕ} {z : α} {a b : Vector α n} {l : List α}

/-- The array holds the text, and `z` behind it. -/
def Shows (z : α) (a : Vector α n) (l : List α) : Prop :=
  ∀ (j : ℕ) (hj : j < n), a[j] = l[j]?.getD z

theorem shows_replicate : Shows z (Vector.replicate n z) [] := by
  intro j hj
  simp

theorem Shows.toList (h : Shows z a l) (hl : l.length ≤ n) :
    a.toList = l ++ List.replicate (n - l.length) z := by
  refine List.ext_getElem ?_ fun j hj hj' => ?_
  · simp only [Vector.length_toList, List.length_append, List.length_replicate]
    omega
  · rw [Vector.getElem_toList, h j (by simpa using hj), List.getElem_append]
    split_ifs with hlt
    · simp [hlt]
    · simp [List.getElem?_eq_none (Nat.le_of_not_lt hlt)]

theorem Shows.append (h : Shows z a l) (hlt : l.length < n) (c : α) :
    Shows z (a.set l.length c) (l ++ [c]) := by
  intro j hj
  rw [Vector.getElem_set, h j hj, List.getElem?_append]
  split_ifs with heq hlt hlt
  · omega
  · simp [heq]
  · rfl
  · rw [List.getElem?_eq_none (by omega), List.getElem?_eq_none]
    simp only [List.length_singleton]
    omega

/-- The characters from `i` on have moved up, and `c` is in front of them. -/
theorem Shows.insertIdx (h : Shows z a l) {i : ℕ} (hi : i ≤ l.length) {c : α}
    (hlt : ∀ (j : ℕ) (hj : j < n), j < i → b[j] = a[j]) (heq : ∀ hj : i < n, b[i] = c)
    (hgt : ∀ (j : ℕ) (hj : j + 1 < n), i ≤ j → j < l.length → b[j + 1] = a[j])
    (hend : ∀ (j : ℕ) (hj : j < n), l.length < j → b[j] = z) : Shows z b (l.insertIdx i c) := by
  intro j hj
  rw [List.getElem?_insertIdx]
  split_ifs with hji hji' hjl
  · rw [hlt j hj hji, h j hj]
  · subst hji'
    exact heq hj
  · omega
  · obtain ⟨k, rfl⟩ : ∃ k, j = k + 1 := ⟨j - 1, by omega⟩
    rw [Nat.add_sub_cancel]
    by_cases hk : k < l.length
    · rw [hgt k hj (by omega) hk, h k (by omega)]
    · rw [hend _ hj (by omega), List.getElem?_eq_none (by omega), Option.getD_none]

/-- The characters behind `i` have moved down. -/
theorem Shows.eraseIdx (h : Shows z a l) {i : ℕ}
    (hlt : ∀ (j : ℕ) (hj : j < n), j < i → b[j] = a[j])
    (hge : ∀ (j : ℕ) (hj : j + 1 < n), i ≤ j → j + 1 < l.length → b[j] = a[j + 1])
    (hend : ∀ (j : ℕ) (hj : j < n), l.length ≤ j + 1 → b[j] = z) (hl : l.length ≤ n) :
    Shows z b (l.eraseIdx i) := by
  intro j hj
  rw [List.getElem?_eraseIdx]
  split_ifs with hji
  · rw [hlt j hj hji, h j hj]
  · by_cases hk : j + 1 < l.length
    · rw [hge j (by omega) (by omega) hk, h (j + 1) (by omega)]
    · rw [hend j hj (by omega), List.getElem?_eq_none (by omega), Option.getD_none]

end PconTng.Cursor
