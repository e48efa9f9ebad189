import Mathlib.Data.Finmap
import Mathlib.Order.Bounds.Basic
import PconTng.Foundations.Keyed

/-!
# Timetables

A timetable is a finite map from times to values with a bound on the number of its entries. What it
gives at a time is the value of its last entry that is not after that time, and of its last entry of
all when there is none (`Timetable.Gives`).

A list of records in increasing order of their keys represents a timetable (`Represents`). Putting
and dropping an entry is inserting, replacing and removing a record, and what the timetable gives
is the value of the record in force.
-/

namespace PconTng

open Keyed

/-- A finite map of at most `n` entries. -/
structure Timetable (κ ν : Type*) (n : ℕ) where
  entries : Finmap fun _ : κ => ν
  card_le : entries.keys.card ≤ n

namespace Timetable

variable {κ ν : Type*} [LinearOrder κ] {n : ℕ}

/-- No entries. -/
def empty : Timetable κ ν n := ⟨∅, by simp⟩

/-- Put an entry in the place of the one with the same time. A new entry is left out when the
timetable is full. -/
def put (m : Timetable κ ν n) (k : κ) (v : ν) : Timetable κ ν n :=
  if h : k ∈ m.entries ∨ m.entries.keys.card < n then
    ⟨m.entries.insert k v, by
      have hsub : (m.entries.insert k v).keys = insert k m.entries.keys := by
        ext j
        simp [Finmap.mem_keys, Finmap.mem_insert]
      rw [hsub]
      rcases h with hk | hlt
      · rw [Finset.insert_eq_of_mem (Finmap.mem_keys.2 hk)]
        exact m.card_le
      · exact (Finset.card_insert_le _ _).trans hlt⟩
  else m

/-- Drop the entry at a time. -/
def drop (m : Timetable κ ν n) (k : κ) : Timetable κ ν n :=
  ⟨m.entries.erase k, by
    rw [Finmap.keys_erase]
    exact (Finset.card_erase_le).trans m.card_le⟩

/-- The value at the time `k` is `v`: it is that of the greatest entry not after `k`, or of the
greatest entry of all when all are after `k`. -/
def Gives (m : Timetable κ ν n) (k : κ) (v : ν) : Prop :=
  ∃ e, m.entries.lookup e = some v ∧
    (IsGreatest {x | x ∈ m.entries ∧ x ≤ k} e ∨
      (∀ x ∈ m.entries, k < x) ∧ IsGreatest {x | x ∈ m.entries} e)

theorem entries_put {m : Timetable κ ν n} {k : κ}
    (h : k ∈ m.entries ∨ m.entries.keys.card < n) (v : ν) :
    (m.put k v).entries = m.entries.insert k v := by
  rw [put, dif_pos h]

/-! ## Lists that represent a timetable -/

section Represents

variable {ρ ν' : Type*} {key : ρ → κ} {val : ρ → ν'} {code : ν → ν'}

/-- The records of the list are the entries of the timetable, with the values in their code. -/
structure Represents (key : ρ → κ) (val : ρ → ν') (code : ν → ν') (l : List ρ)
    (m : Timetable κ ν n) : Prop where
  increasing : Increasing key l
  assoc : assoc key val l = fun k => (m.entries.lookup k).map code

variable {l : List ρ} {m : Timetable κ ν n}

theorem represents_nil : Represents key val code [] (empty : Timetable κ ν n) :=
  ⟨List.Pairwise.nil, funext fun k => by simp [Keyed.assoc, empty]⟩

namespace Represents

theorem mem_iff (h : Represents key val code l m) {k : κ} :
    k ∈ m.entries ↔ ∃ x ∈ l, key x = k := by
  rw [← not_iff_not, ← Finmap.lookup_eq_none, ← Option.map_eq_none_iff (f := code),
    ← congrFun h.assoc k, assoc_eq_none]
  push Not
  rfl

theorem exists_lookup (h : Represents key val code l m) {x : ρ} (hx : x ∈ l) :
    ∃ v, m.entries.lookup (key x) = some v ∧ val x = code v := by
  have ha : Keyed.assoc key val l (key x) = some (val x) :=
    (assoc_eq_some h.increasing).2 ⟨x, hx, rfl, rfl⟩
  rw [h.assoc] at ha
  obtain ⟨v, hv, hc⟩ := Option.map_eq_some_iff.1 ha
  exact ⟨v, hv, hc.symm⟩

/-- The list has a record for every entry. -/
theorem card_keys (h : Represents key val code l m) : m.entries.keys.card = l.length := by
  have hkeys : m.entries.keys = (l.map key).toFinset := by
    ext k
    rw [Finmap.mem_keys, h.mem_iff, List.mem_toFinset, List.mem_map]
  have hnodup : (l.map key).Nodup :=
    List.pairwise_map.2 (h.increasing.imp fun hlt => hlt.ne)
  rw [hkeys, List.toFinset_card_of_nodup hnodup, List.length_map]

/-- Entries that are updated like the map of the list are represented again. -/
theorem update_insert (h : Represents key val code l m) {l' : List ρ} {m' : Timetable κ ν n}
    {k : κ} {v : ν} {u : ν'} (hl : Increasing key l')
    (ha : Keyed.assoc key val l' = Function.update (Keyed.assoc key val l) k (some u))
    (hu : u = code v) (hm : m'.entries = m.entries.insert k v) :
    Represents key val code l' m' := by
  refine ⟨hl, ?_⟩
  rw [ha, h.assoc, hm]
  funext j
  by_cases hj : j = k
  · subst hj
    rw [Function.update_self, Finmap.lookup_insert, Option.map_some, hu]
  · rw [Function.update_of_ne hj, Finmap.lookup_insert_of_ne _ hj]

/-- **Replacing a record.** -/
theorem put_set (h : Represents key val code l m) {i : ℕ} (hi : i < l.length) {x : ρ}
    (hx : key x = key l[i]) {v : ν} (hv : val x = code v) :
    Represents key val code (l.set i x) (m.put (key x) v) :=
  h.update_insert (increasing_set h.increasing hi hx) (assoc_set h.increasing hi hx) hv
    (entries_put (.inl (h.mem_iff.2 ⟨l[i], List.getElem_mem hi, hx.symm⟩)) v)

/-- **Inserting a record at its place.** -/
theorem put_insertIdx (h : Represents key val code l m) (hroom : l.length < n) {i : ℕ}
    (hi : i ≤ l.length) {x : ρ}
    (hlt : ∀ (j : ℕ) (hj : j < l.length), j < i → key l[j] < key x)
    (hgt : ∀ (j : ℕ) (hj : j < l.length), i ≤ j → key x < key l[j]) {v : ν}
    (hv : val x = code v) : Represents key val code (l.insertIdx i x) (m.put (key x) v) := by
  have hl := increasing_insertIdx h.increasing hi hlt hgt
  exact h.update_insert hl (assoc_insertIdx h.increasing hi hl) hv
    (entries_put (.inr (h.card_keys.trans_lt hroom)) v)

/-- A full timetable takes no new entry. -/
theorem put_full (h : Represents key val code l m) (hfull : l.length = n) {k : κ}
    (hk : ∀ x ∈ l, key x ≠ k) (v : ν) : Represents key val code l (m.put k v) := by
  have hno : ¬ (k ∈ m.entries ∨ m.entries.keys.card < n) := by
    rw [h.mem_iff, h.card_keys]
    push Not
    exact ⟨hk, hfull.ge⟩
  rw [put, dif_neg hno]
  exact h

/-- **Removing a record.** -/
theorem drop_eraseIdx (h : Represents key val code l m) {i : ℕ} (hi : i < l.length) :
    Represents key val code (l.eraseIdx i) (m.drop (key l[i])) := by
  refine ⟨increasing_eraseIdx h.increasing i, ?_⟩
  rw [assoc_eraseIdx h.increasing hi, h.assoc]
  funext j
  by_cases hj : j = key l[i]
  · subst hj
    simp only [Function.update_self, drop, Finmap.lookup_erase, Option.map_none]
  · rw [Function.update_of_ne hj]
    simp only [drop, Finmap.lookup_erase_ne hj]

theorem drop_absent (h : Represents key val code l m) {k : κ} (hk : ∀ x ∈ l, key x ≠ k) :
    Represents key val code l (m.drop k) := by
  refine ⟨h.increasing, ?_⟩
  rw [h.assoc]
  funext j
  by_cases hj : j = k
  · subst hj
    have hnone : m.entries.lookup j = none := by
      rw [Finmap.lookup_eq_none, h.mem_iff]
      push Not
      exact hk
    simp only [drop, Finmap.lookup_erase, hnone]
  · simp only [drop, Finmap.lookup_erase_ne hj]

theorem eq_nil_iff (h : Represents key val code l m) : l = [] ↔ m.entries.keys = ∅ := by
  rw [← List.length_eq_zero_iff, ← h.card_keys, Finset.card_eq_zero]

/-- **The record in force has the value that the timetable gives.** -/
theorem exists_gives (h : Represents key val code l m) {k : κ} {r : ρ}
    (hr : InForce key l k r) : ∃ v, m.Gives k v ∧ val r = code v := by
  obtain ⟨hmem, hr⟩ := hr
  obtain ⟨v, hv, hc⟩ := h.exists_lookup hmem
  have hin : key r ∈ m.entries := h.mem_iff.2 ⟨r, hmem, rfl⟩
  refine ⟨v, ⟨key r, hv, hr.imp ?_ ?_⟩, hc⟩
  · rintro ⟨hle, hmax⟩
    refine ⟨⟨hin, hle⟩, ?_⟩
    rintro x ⟨hx, hxk⟩
    obtain ⟨y, hy, rfl⟩ := h.mem_iff.1 hx
    exact hmax y hy hxk
  · rintro ⟨hbefore, hmax⟩
    refine ⟨fun x hx => ?_, hin, fun x hx => ?_⟩
    · obtain ⟨y, hy, rfl⟩ := h.mem_iff.1 hx
      exact hbefore y hy
    · obtain ⟨y, hy, rfl⟩ := h.mem_iff.1 hx
      exact hmax y hy

end Represents

end Represents

end Timetable

end PconTng
