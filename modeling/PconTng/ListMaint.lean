import PconTng.Foundations.CArray

/-!
# Lists of channels

`list_maint.c` keeps a list of integers in the first `index` elements of an array. The caller
passes the size of the array in bytes, and behind the array lies the list's own `index`.
-/

namespace PconTng

open CArray

/-- `del_elm` -/
def delElm {n : ℕ} (a : Vector ℤ n) (index value : ℤ) : Except Stop (Vector ℤ n × ℤ) := do
  match ← search (· = value) a index.toNat 0 with
  | some i =>
    let a ← shiftDown (fun _ => index) (index.toNat - 1 - i) i a
    return (a, index - 1)
  | none => return (a, index)

/-- `add_elm` -/
def addElm {n : ℕ} (a : Vector ℤ n) (index value arraySize : ℤ) :
    Except Stop (Vector ℤ n × ℤ) := do
  if index = 0 then
    let a ← store a 0 value
    return (a, index + 1)
  match ← search (· = value) a index.toNat 0 with
  | some _ => return (a, index)
  | none =>
    if index + 1 < arraySize then
      let a ← store a index value
      return (a, index + 1)
    return (a, index)

/-! ## What they do to the list -/

variable {n : ℕ} {a : Vector ℤ n} {index : ℤ} {l : List ℤ}

/-- The first `index` elements of the array are `l`. -/
structure Holds (a : Vector ℤ n) (index : ℤ) (l : List ℤ) : Prop where
  index : index = l.length
  fits : l.length ≤ n
  front : front a l.length = l

theorem Holds.search (h : Holds a index l) (p : ℤ → Bool) :
    search p a index.toNat 0 = .ok (l.findIdx? p) := by
  rw [h.index, Int.toNat_natCast, search_zero p a h.fits, h.front]

/-- `delElm` takes the value off the list. -/
theorem Holds.delElm (h : Holds a index l) (value : ℤ) :
    ∃ a' index', delElm a index value = .ok (a', index') ∧ Holds a' index' (l.erase value) := by
  unfold PconTng.delElm
  rw [h.search]
  cases hf : l.findIdx? (· = value) with
  | none =>
    have hnone : value ∉ l := fun hmem => by simpa using List.findIdx?_eq_none_iff.1 hf value hmem
    rw [List.erase_of_not_mem hnone]
    exact ⟨a, index, rfl, h⟩
  | some i =>
    have herase : l.erase value = l.eraseIdx i := by
      have hidx : l.idxOf? value = some i := hf
      rw [List.erase_eq_eraseIdx, hidx]
    rw [herase]
    obtain ⟨hi, -, -⟩ := List.findIdx?_eq_some_iff_getElem.1 hf
    obtain ⟨a', ha', hfront, -⟩ := shiftDown_erase (fun _ => index) a hi h.fits
    rw [h.front] at hfront
    have hindex : index.toNat = l.length := by rw [h.index, Int.toNat_natCast]
    have hlen := List.length_eraseIdx_of_lt hi
    refine ⟨a', index - 1, ?_, ?_, ?_, ?_⟩
    · rw [← hindex] at ha'
      simp only [ha', bind, Except.bind]
      rfl
    · have hpos := h.index
      omega
    · have hfits := h.fits
      omega
    · rw [hlen, hfront]

/-- What `addElm` finds when it looks for the value. -/
theorem Holds.addElm_eq (h : Holds a index l) (value arraySize : ℤ) :
    addElm a index value arraySize =
      if value ∈ l then .ok (a, index)
      else if l = [] ∨ index + 1 < arraySize then do
        let a ← store a index value
        return (a, index + 1)
      else .ok (a, index) := by
  have hnil : index = 0 ↔ l = [] := by
    rw [h.index, Nat.cast_eq_zero, List.length_eq_zero_iff]
  have hnone : value ∉ l → l.findIdx? (· = value) = none := by
    intro hvalue
    rw [List.findIdx?_eq_none_iff]
    intro x hx
    simpa using fun he : x = value => hvalue (he ▸ hx)
  unfold addElm
  by_cases hzero : index = 0
  · have hl := hnil.1 hzero
    have hvalue : value ∉ l := by
      rw [hl]
      exact List.not_mem_nil
    rw [if_pos hzero, if_neg hvalue, if_pos (.inl hl), hzero]
  · rw [if_neg hzero, h.search]
    by_cases hvalue : value ∈ l
    · obtain ⟨i, hi⟩ : ∃ i, l.findIdx? (· = value) = some i := by
        rw [← Option.isSome_iff_exists, List.findIdx?_isSome, List.any_eq_true]
        exact ⟨value, hvalue, decide_eq_true rfl⟩
      rw [if_pos hvalue, hi]
      rfl
    · rw [if_neg hvalue, hnone hvalue]
      by_cases hroom : index + 1 < arraySize
      · have hyes : l = [] ∨ index + 1 < arraySize := .inr hroom
        rw [if_pos hyes]
        simp only [bind, Except.bind, if_pos hroom]
      · have hnot : ¬ (l = [] ∨ index + 1 < arraySize) := by
          rintro (hl | hlt)
          · exact hzero (hnil.2 hl)
          · exact hroom hlt
        rw [if_neg hnot]
        simp only [bind, Except.bind, if_neg hroom]
        rfl

/-- A value on the list stays where it is. -/
theorem Holds.addElm_of_mem (h : Holds a index l) {value : ℤ} (hvalue : value ∈ l)
    (arraySize : ℤ) : PconTng.addElm a index value arraySize = .ok (a, index) := by
  rw [h.addElm_eq, if_pos hvalue]

/-- `addElm` puts the value behind the list, unless it is on it. -/
theorem Holds.addElm (h : Holds a index l) {value arraySize : ℤ} (hroom : l.length < n)
    (hsize : l = [] ∨ index + 1 < arraySize) (hvalue : value ∉ l) :
    ∃ a' index', addElm a index value arraySize = .ok (a', index') ∧
      Holds a' index' (l ++ [value]) := by
  obtain ⟨a', ha', hfront, -⟩ := store_append a hroom value
  have hholds : Holds a' (index + 1) (l ++ [value]) := by
    have hlen : (l ++ [value]).length = l.length + 1 := by simp
    refine ⟨?_, ?_, ?_⟩
    · rw [hlen, h.index]
      push_cast
      rfl
    · rwa [hlen]
    · rw [hlen, hfront, h.front, List.insertIdx_length_self]
  refine ⟨a', index + 1, ?_, hholds⟩
  rw [h.addElm_eq, if_neg hvalue, if_pos hsize, h.index, ha']
  rfl

/-- When the array is full, it writes behind the array. -/
theorem Holds.addElm_full (h : Holds a index l) {value arraySize : ℤ} (hfull : l.length = n)
    (hsize : l = [] ∨ index + 1 < arraySize) (hvalue : value ∉ l) :
    PconTng.addElm a index value arraySize = .error .fault := by
  rw [h.addElm_eq, if_neg hvalue, if_pos hsize, h.index, store_of_le a hfull.ge]
  rfl

/-- When the size says that there is no room, it leaves the list alone. -/
theorem Holds.addElm_closed (h : Holds a index l) {value arraySize : ℤ}
    (hsize : ¬ (l = [] ∨ index + 1 < arraySize)) :
    PconTng.addElm a index value arraySize = .ok (a, index) := by
  rw [h.addElm_eq, if_neg hsize, ite_self]

end PconTng
