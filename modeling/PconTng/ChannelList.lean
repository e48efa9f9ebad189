import PconTng.Foundations.Run
import PconTng.ListMaint

/-!
# Sequences of calls of `add_elm` and `del_elm`

The callers pass the size of the array in bytes, which `add_elm` compares with a number of elements.
A full array therefore takes one more value, which is written behind it. The list shows what the
calls have made of it exactly as long as no call adds a new value to a full array
(`bounded_iff`).
-/

namespace PconTng.ChannelList

open CArray

/-- `sizeof` an array of `n` integers, as the `int` that the callers pass. -/
def arraySize (n : ℕ) : ℤ := Int.bmod (4 * n) (2 ^ 32)

inductive Call
  | add (value : ℤ)
  | del (value : ℤ)

variable {n : ℕ}

def Call.exec (s : Vector ℤ n × ℤ) : Call → Except Stop (Vector ℤ n × ℤ)
  | .add value => addElm s.1 s.2 value (arraySize n)
  | .del value => delElm s.1 s.2 value

/-- The list that a call leaves: the values added and not since deleted, of which there is room
for `n`. -/
def Call.list (n : ℕ) (l : List ℤ) : Call → List ℤ
  | .add value => if value ∈ l ∨ l.length = n then l else l ++ [value]
  | .del value => l.erase value

/-- The first `index` elements of the array are the list, in which no value occurs twice. -/
structure Shows (s : Vector ℤ n × ℤ) (l : List ℤ) : Prop where
  nonneg : 0 ≤ s.2
  le : s.2 ≤ n
  front : front s.1 s.2.toNat = l
  nodup : l.Nodup

/-- Every call writes inside the array and leaves it showing the list. -/
def Bounded (a : Vector ℤ n) (calls : List Call) : Prop :=
  ∀ p, p <+: calls →
    ∃ s, p.foldlM Call.exec (a, 0) = .ok s ∧ Shows s (p.foldl (Call.list n) [])

/-- A value that is added is on the list, or there is room for it, which the size does not deny. -/
def Takes (n : ℕ) (l : List ℤ) : Call → Prop
  | .add value => value ∈ l ∨ (l.length < n ∧ (l = [] ∨ (l.length : ℤ) + 1 < arraySize n))
  | .del _ => True

/-! ## The size of the array -/

/-- The size denies nothing unless the array is so long that it is not a positive `int`. -/
theorem arraySize_eq (h : n < 2 ^ 29) : arraySize n = 4 * n := by
  unfold arraySize
  refine Int.bmod_eq_of_le ?_ ?_
  · omega
  · omega

theorem takes_add_iff (h : n < 2 ^ 29) {l : List ℤ} {value : ℤ} :
    Takes n l (.add value) ↔ value ∈ l ∨ l.length < n := by
  unfold Takes
  rw [arraySize_eq h, ← List.length_eq_zero_iff]
  refine or_congr_right ?_
  omega

theorem takes_del {l : List ℤ} {value : ℤ} : Takes n l (.del value) := trivial

/-- The list got its length by additions that the size did not deny. -/
def Grown (n : ℕ) (l : List ℤ) : Prop := l.length ≤ 1 ∨ (l.length : ℤ) < arraySize n

theorem Grown.list {l : List ℤ} (h : Grown n l) {c : Call} (hc : Takes n l c) :
    Grown n (c.list n l) := by
  cases c with
  | add value =>
    show Grown n (if value ∈ l ∨ l.length = n then l else l ++ [value])
    split
    · exact h
    · rename_i hnew
      obtain ⟨-, rfl | hlt⟩ := hc.resolve_left (not_or.1 hnew).1
      · exact .inl le_rfl
      · refine .inr ?_
        rw [List.length_append, List.length_singleton]
        push_cast
        exact hlt
  | del value =>
    show Grown n (l.erase value)
    have hle : (l.erase value).length ≤ l.length := List.length_erase_le
    unfold Grown at h ⊢
    omega

/-- When the list has grown to the length of the array, the size still does not deny an addition. -/
theorem Grown.full (h : 0 < n) {l : List ℤ} (hl : Grown n l) (hfull : l.length = n) :
    (n : ℤ) + 1 < arraySize n := by
  unfold Grown arraySize at hl
  unfold arraySize
  rw [Int.bmod_def] at hl ⊢
  split at hl
  · -- the size has wrapped round at most once, and then it is not the next number
    rename_i hsmall
    rw [if_pos hsmall]
    have hwrap : (4 * n : ℤ) / 2 ^ 32 = 0 ∨ (4 * n : ℤ) / 2 ^ 32 = 1 ∨ n ≤ 1 := by omega
    omega
  · omega

/-! ## One call -/

variable {s : Vector ℤ n × ℤ} {l : List ℤ}

theorem shows_iff : Shows s l ↔ Holds s.1 s.2 l ∧ l.Nodup := by
  constructor
  · intro h
    have hle : s.2.toNat ≤ n := Int.toNat_le.2 h.le
    have hlen : l.length = s.2.toNat := by rw [← h.front, length_front _ hle]
    refine ⟨⟨?_, hlen ▸ hle, ?_⟩, h.nodup⟩
    · rw [hlen, Int.toNat_of_nonneg h.nonneg]
    · rw [hlen, h.front]
  · rintro ⟨h, hnodup⟩
    have hindex : s.2.toNat = l.length := by rw [h.index, Int.toNat_natCast]
    have hfits := h.fits
    have hnonneg : 0 ≤ s.2 := by
      rw [h.index]
      exact Int.natCast_nonneg _
    exact ⟨hnonneg, by omega, hindex ▸ h.front, hnodup⟩

/-- A deletion does what it should. -/
theorem Shows.del (h : Shows s l) (value : ℤ) :
    ∃ s', (Call.del value).exec s = .ok s' ∧ Shows s' ((Call.del value).list n l) := by
  rw [shows_iff] at h
  obtain ⟨a', index', hdel, hholds⟩ := h.1.delElm value
  exact ⟨(a', index'), hdel, shows_iff.2 ⟨hholds, h.2.erase value⟩⟩

theorem Shows.add_iff (hn : 0 < n) (h : Shows s l) (hl : Grown n l) (value : ℤ) :
    (∃ s', (Call.add value).exec s = .ok s' ∧ Shows s' ((Call.add value).list n l)) ↔
      Takes n l (.add value) := by
  rw [shows_iff] at h
  obtain ⟨hholds, hnodup⟩ := h
  show (∃ s', addElm s.1 s.2 value (arraySize n) = .ok s' ∧
    Shows s' (if value ∈ l ∨ l.length = n then l else l ++ [value])) ↔ _
  by_cases hvalue : value ∈ l
  · rw [hholds.addElm_of_mem hvalue, if_pos (.inl hvalue)]
    exact iff_of_true ⟨s, rfl, shows_iff.2 ⟨hholds, hnodup⟩⟩ (.inl hvalue)
  by_cases hfull : l.length = n
  · -- the value is written behind the array
    have hsize : s.2 + 1 < arraySize n := by
      rw [hholds.index, hfull]
      exact hl.full hn hfull
    rw [hholds.addElm_full hfull (.inr hsize) hvalue]
    refine iff_of_false (fun ⟨s', hs', _⟩ => nomatch hs') ?_
    rintro (hmem | ⟨hlt, -⟩)
    · exact hvalue hmem
    · omega
  rw [if_neg (not_or.2 ⟨hvalue, hfull⟩)]
  have hroom : l.length < n := hholds.fits.lt_of_ne hfull
  by_cases hsize : l = [] ∨ s.2 + 1 < arraySize n
  · obtain ⟨a', index', hadd, hholds'⟩ := hholds.addElm hroom hsize hvalue
    have hnodup' : (l ++ [value]).Nodup := by
      rw [← List.concat_eq_append]
      exact hnodup.concat hvalue
    refine iff_of_true ⟨(a', index'), hadd, shows_iff.2 ⟨hholds', hnodup'⟩⟩ (.inr ⟨hroom, ?_⟩)
    rwa [← hholds.index]
  · -- the list stays as it is, although there is room
    rw [hholds.addElm_closed hsize]
    refine iff_of_false ?_ ?_
    · rintro ⟨s', hs', hshows⟩
      cases hs'
      have hindex := (shows_iff.1 hshows).1.index
      rw [hholds.index, List.length_append, List.length_singleton] at hindex
      omega
    · rintro (hmem | ⟨-, hsize'⟩)
      · exact hvalue hmem
      · rw [← hholds.index] at hsize'
        exact hsize hsize'

/-! ## Every sequence of calls -/

/-- The array shows its list throughout, every write landing inside it, exactly if no call adds a
new value when there is no room for it. -/
theorem bounded_iff (hn : 0 < n) (a : Vector ℤ n) (calls : List Call) :
    Bounded a calls ↔ Along (Takes n) (Call.list n) [] calls := by
  have hnil : Shows (a, 0) [] := ⟨le_rfl, Int.natCast_nonneg n, rfl, List.nodup_nil⟩
  refine foldlM_follows_iff (I := Grown n) (fun l c hl hc => hl.list hc) ?_ calls (a, 0) [] hnil
    (.inl (Nat.zero_le 1))
  intro s l c h hl
  cases c with
  | add value => exact h.add_iff hn hl value
  | del value => exact iff_of_true (h.del value) trivial

/-- A full list takes a value that it has, and a new one after a deletion. -/
theorem bounded_two : Bounded #v[0, 0] [.add 3, .add 5, .add 3, .del 3, .add 7] := by
  refine (bounded_iff Nat.two_pos _ _).2 ?_
  have hsize : 2 < 2 ^ 29 := by decide
  simp [Along, takes_add_iff hsize, takes_del, Call.list]

/-- The ninth value added to an array of eight is written behind it. -/
theorem not_bounded :
    ¬ Bounded (Vector.replicate 8 0) ([1, 2, 3, 4, 5, 6, 7, 8, 9].map Call.add) := by
  intro h
  obtain ⟨s, hs, -⟩ := h _ List.prefix_rfl
  have hfault : ([1, 2, 3, 4, 5, 6, 7, 8, 9].map Call.add).foldlM Call.exec
      ((Vector.replicate 8 0 : Vector ℤ 8), (0 : ℤ)) = .error .fault := by decide
  rw [hfault] at hs
  cases hs

end PconTng.ChannelList
