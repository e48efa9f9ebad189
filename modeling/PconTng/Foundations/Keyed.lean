import Mathlib.Data.List.InsertIdx
import Mathlib.Data.Nat.Find
import Mathlib.Logic.Function.Basic
import Mathlib.Tactic.Ring

/-!
# Lists of records in increasing order of their keys

A list of records whose keys increase is a finite map from keys to records (`assoc`), and a
timetable: at a key `k` the record *in force* is the one with the greatest key not after `k`, and
the last record of all while `k` comes before every key (`InForce`). Inserting a record at its
place, removing one and replacing one by a record of the same key keep the order and are the
updates of the map.
-/

namespace PconTng.Keyed

variable {ρ κ ν : Type*} [LinearOrder κ] (key : ρ → κ)

/-- The keys increase along the list. -/
def Increasing (l : List ρ) : Prop := l.Pairwise fun x y => key x < key y

variable {key} {l : List ρ}

theorem Increasing.lt (h : Increasing key l) {i j : ℕ} (hij : i < j) (hj : j < l.length) :
    key l[i] < key l[j] :=
  List.pairwise_iff_getElem.1 h i j _ hj hij

theorem Increasing.le (h : Increasing key l) {i j : ℕ} (hij : i ≤ j) (hj : j < l.length) :
    key l[i] ≤ key l[j] := by
  rcases hij.lt_or_eq with hlt | rfl
  · exact (h.lt hlt hj).le
  · exact le_rfl

theorem Increasing.eq_of_key_eq (h : Increasing key l) {i j : ℕ} (hi : i < l.length)
    (hj : j < l.length) (he : key l[i] = key l[j]) : i = j := by
  rcases lt_trichotomy i j with hij | hij | hij
  · exact absurd he (h.lt hij hj).ne
  · exact hij
  · exact absurd he (h.lt hij hi).ne'

/-! ## Insertion, removal, replacement -/

theorem increasing_insertIdx (h : Increasing key l) {i : ℕ} (hi : i ≤ l.length) {x : ρ}
    (hlt : ∀ (j : ℕ) (hj : j < l.length), j < i → key l[j] < key x)
    (hgt : ∀ (j : ℕ) (hj : j < l.length), i ≤ j → key x < key l[j]) :
    Increasing key (l.insertIdx i x) := by
  refine List.pairwise_iff_getElem.2 fun a b ha hb hab => ?_
  have hlen := List.length_insertIdx_of_le_length hi x
  rw [List.getElem_insertIdx, List.getElem_insertIdx]
  split_ifs
  · exact h.lt hab _
  · exact hlt a _ (by omega)
  · exact (hlt a (by omega) (by omega)).trans (hgt (b - 1) (by omega) (by omega))
  · omega
  · omega
  · exact hgt (b - 1) _ (by omega)
  · omega
  · omega
  · exact h.lt (by omega) _

theorem increasing_eraseIdx (h : Increasing key l) (i : ℕ) : Increasing key (l.eraseIdx i) :=
  h.sublist (List.eraseIdx_sublist l i)

theorem increasing_set (h : Increasing key l) {i : ℕ} (hi : i < l.length) {x : ρ}
    (hx : key x = key l[i]) : Increasing key (l.set i x) := by
  refine List.pairwise_iff_getElem.2 fun a b ha hb hab => ?_
  have hk : ∀ (c : ℕ) (hc : c < l.length) (hc' : c < (l.set i x).length),
      key (l.set i x)[c] = key l[c] := by
    intro c hc hc'
    rw [List.getElem_set]
    split_ifs with hic
    · subst hic
      exact hx
    · rfl
  rw [List.length_set] at ha hb
  rw [hk a ha, hk b hb]
  exact h.lt hab hb

/-- The place of a key that the list does not have: before the first greater key. -/
theorem place_of_findIdx? {k : κ} (h : Increasing key l) (hk : ∀ x ∈ l, key x ≠ k) :
    let i := (l.findIdx? fun x => k < key x).getD l.length
    i ≤ l.length ∧ (∀ (j : ℕ) (hj : j < l.length), j < i → key l[j] < k) ∧
      ∀ (j : ℕ) (hj : j < l.length), i ≤ j → k < key l[j] := by
  have hne : ∀ (j : ℕ) (hj : j < l.length), ¬ k < key l[j] → key l[j] < k := fun j hj hlt =>
    lt_of_le_of_ne (not_lt.1 hlt) (hk _ (List.getElem_mem hj))
  cases hf : l.findIdx? fun x => k < key x with
  | none =>
    have hnone : ∀ x ∈ l, ¬ k < key x := by simpa [List.findIdx?_eq_none_iff] using hf
    exact ⟨le_rfl, fun j hj _ => hne j hj (hnone _ (List.getElem_mem hj)),
      fun j hj hle => absurd hj (not_lt.2 hle)⟩
  | some i =>
    obtain ⟨hi, hgt, hle⟩ := List.findIdx?_eq_some_iff_getElem.1 hf
    have hgt' : k < key l[i] := by simpa using hgt
    refine ⟨hi.le, fun j hj hji => hne j hj (by simpa using hle j hji), fun j hj hij => ?_⟩
    exact hgt'.trans_le (h.le hij hj)

/-! ## The map of a list -/

/-- The value of the record with a given key. -/
def assoc (key : ρ → κ) (val : ρ → ν) (l : List ρ) (k : κ) : Option ν :=
  (l.find? fun x => key x = k).map val

variable {val : ρ → ν}

theorem assoc_eq_some (h : Increasing key l) {k : κ} {v : ν} :
    assoc key val l k = some v ↔ ∃ x ∈ l, key x = k ∧ val x = v := by
  constructor
  · intro ha
    obtain ⟨x, hx, rfl⟩ := Option.map_eq_some_iff.1 ha
    exact ⟨x, List.mem_of_find?_eq_some hx, by simpa using List.find?_some hx, rfl⟩
  · rintro ⟨x, hx, rfl, rfl⟩
    cases hf : l.find? fun y => key y = key x with
    | none => simpa using List.find?_eq_none.1 hf x hx
    | some y =>
      have hy : key y = key x := by simpa using List.find?_some hf
      obtain ⟨i, hi, rfl⟩ := List.mem_iff_getElem.1 hx
      obtain ⟨j, hj, rfl⟩ := List.mem_iff_getElem.1 (List.mem_of_find?_eq_some hf)
      obtain rfl := h.eq_of_key_eq hj hi hy
      rw [assoc, hf, Option.map_some]

theorem assoc_eq_none {k : κ} : assoc key val l k = none ↔ ∀ x ∈ l, key x ≠ k := by
  simp [assoc, List.find?_eq_none]

theorem assoc_insertIdx (h : Increasing key l) {i : ℕ} (hi : i ≤ l.length) {x : ρ}
    (h' : Increasing key (l.insertIdx i x)) :
    assoc key val (l.insertIdx i x) = Function.update (assoc key val l) (key x) (some (val x)) := by
  funext k
  by_cases hk : k = key x
  · subst hk
    rw [Function.update_self]
    exact (assoc_eq_some h').2 ⟨x, (List.mem_insertIdx hi).2 (.inl rfl), rfl, rfl⟩
  · rw [Function.update_of_ne hk]
    refine Option.ext fun v => ?_
    rw [assoc_eq_some h', assoc_eq_some h]
    constructor
    · rintro ⟨y, hy, rfl, rfl⟩
      rcases (List.mem_insertIdx hi).1 hy with rfl | hy
      · exact absurd rfl hk
      · exact ⟨y, hy, rfl, rfl⟩
    · rintro ⟨y, hy, hky⟩
      exact ⟨y, (List.mem_insertIdx hi).2 (.inr hy), hky⟩

theorem assoc_eraseIdx (h : Increasing key l) {i : ℕ} (hi : i < l.length) :
    assoc key val (l.eraseIdx i) = Function.update (assoc key val l) (key l[i]) none := by
  have h' := increasing_eraseIdx h i
  have hmem : ∀ y, y ∈ l.eraseIdx i ↔ y ∈ l ∧ key y ≠ key l[i] := by
    intro y
    rw [List.mem_eraseIdx_iff_getElem, List.mem_iff_getElem]
    constructor
    · rintro ⟨j, hj, hji, rfl⟩
      exact ⟨⟨j, hj, rfl⟩, fun he => hji (h.eq_of_key_eq hj hi he)⟩
    · rintro ⟨⟨j, hj, rfl⟩, hne⟩
      exact ⟨j, hj, fun hji => hne (by subst hji; rfl), rfl⟩
  funext k
  by_cases hk : k = key l[i]
  · subst hk
    rw [Function.update_self, assoc_eq_none]
    exact fun y hy => ((hmem y).1 hy).2
  · rw [Function.update_of_ne hk]
    refine Option.ext fun v => ?_
    rw [assoc_eq_some h', assoc_eq_some h]
    constructor
    · rintro ⟨y, hy, hky⟩
      exact ⟨y, ((hmem y).1 hy).1, hky⟩
    · rintro ⟨y, hy, rfl, hv⟩
      exact ⟨y, (hmem y).2 ⟨hy, hk⟩, rfl, hv⟩

theorem assoc_set (h : Increasing key l) {i : ℕ} (hi : i < l.length) {x : ρ}
    (hx : key x = key l[i]) :
    assoc key val (l.set i x) = Function.update (assoc key val l) (key x) (some (val x)) := by
  have h' := increasing_set h hi hx
  funext k
  by_cases hk : k = key x
  · subst hk
    rw [Function.update_self]
    exact (assoc_eq_some h').2 ⟨x, List.mem_set hi x, rfl, rfl⟩
  · rw [Function.update_of_ne hk]
    refine Option.ext fun v => ?_
    rw [assoc_eq_some h', assoc_eq_some h]
    constructor
    · rintro ⟨y, hy, rfl, hv⟩
      rcases List.mem_or_eq_of_mem_set hy with hy | rfl
      · exact ⟨y, hy, rfl, hv⟩
      · exact absurd rfl hk
    · rintro ⟨y, hy, rfl, hv⟩
      obtain ⟨j, hj, rfl⟩ := List.mem_iff_getElem.1 hy
      have hij : i ≠ j := fun e => hk (by subst e; exact hx.symm)
      refine ⟨l[j], List.mem_iff_getElem.2 ⟨j, by simpa using hj, ?_⟩, rfl, hv⟩
      rw [List.getElem_set_ne hij]

/-! ## The record in force -/

/-- `r` is the record of `l` with the greatest key not after `k`, or the one with the greatest key
of all when `k` comes before every key. -/
def InForce (key : ρ → κ) (l : List ρ) (k : κ) (r : ρ) : Prop :=
  r ∈ l ∧ ((key r ≤ k ∧ ∀ x ∈ l, key x ≤ k → key x ≤ key r) ∨
    ((∀ x ∈ l, k < key x) ∧ ∀ x ∈ l, key x ≤ key r))

/-- In a list with increasing keys, the index of the record in force. -/
theorem InForce.index {k : κ} {r : ρ} (hr : InForce key l k r) (h : Increasing key l) :
    ∃ (i : ℕ) (hi : i < l.length), l[i] = r ∧
      ((key r ≤ k ∧ ∀ (j : ℕ) (hj : j < l.length), i < j → k < key l[j]) ∨
        ((∀ (j : ℕ) (hj : j < l.length), k < key l[j]) ∧ i + 1 = l.length)) := by
  obtain ⟨hmem, hr⟩ := hr
  obtain ⟨i, hi, rfl⟩ := List.mem_iff_getElem.1 hmem
  refine ⟨i, hi, rfl, ?_⟩
  rcases hr with ⟨hle, hmax⟩ | ⟨hbefore, hmax⟩
  · refine .inl ⟨hle, fun j hj hij => ?_⟩
    by_contra hkj
    exact absurd (hmax _ (List.getElem_mem hj) (not_lt.1 hkj)) (not_le.2 (h.lt hij hj))
  · refine .inr ⟨fun j hj => hbefore _ (List.getElem_mem hj), ?_⟩
    by_contra hne
    have hj : i + 1 < l.length := by omega
    exact absurd (hmax _ (List.getElem_mem hj)) (not_le.2 (h.lt (Nat.lt_succ_self i) hj))

theorem InForce.unique {k : κ} {r r' : ρ} (hr : InForce key l k r) (hr' : InForce key l k r')
    (h : Increasing key l) : r = r' := by
  obtain ⟨i, hi, rfl, hi'⟩ := hr.index h
  obtain ⟨j, hj, rfl, hj'⟩ := hr'.index h
  congr 1
  rcases hi' with ⟨hik, hia⟩ | ⟨hib, hil⟩ <;> rcases hj' with ⟨hjk, hja⟩ | ⟨hjb, hjl⟩
  · by_contra hne
    rcases Nat.lt_or_gt_of_ne hne with hij | hij
    · exact absurd (hia j hj hij) (not_lt.2 hjk)
    · exact absurd (hja i hi hij) (not_lt.2 hik)
  · exact absurd (hjb i hi) (not_lt.2 hik)
  · exact absurd (hib j hj) (not_lt.2 hjk)
  · omega

/-- While `k` comes before every key, the record in force is the last one. -/
theorem InForce.last {k : κ} {r : ρ} (hr : InForce key l k r) (h : Increasing key l)
    (hbefore : ∀ x ∈ l, k < key x) : l.getLast? = some r := by
  obtain ⟨i, hi, rfl, ⟨hik, -⟩ | ⟨-, hlast⟩⟩ := hr.index h
  · exact absurd (hbefore _ (List.getElem_mem hi)) (not_lt.2 hik)
  · rw [List.getLast?_eq_getElem?, ← hlast, Nat.add_sub_cancel, List.getElem?_eq_getElem hi]

/-- A record that is not after `k` while its successor is. -/
theorem inForce_of_lt_next (h : Increasing key l) {k : κ} {i : ℕ} (hi : i < l.length)
    (hik : key l[i] ≤ k) (hnext : ∀ hn : i + 1 < l.length, k < key l[i + 1]) :
    InForce key l k l[i] := by
  refine ⟨List.getElem_mem hi, .inl ⟨hik, fun x hx hxk => ?_⟩⟩
  obtain ⟨j, hj, rfl⟩ := List.mem_iff_getElem.1 hx
  refine h.le (not_lt.1 fun hij => ?_) hi
  have hn : i + 1 < l.length := lt_of_le_of_lt hij hj
  exact absurd hxk (not_le.2 ((hnext hn).trans_le (h.le hij hj)))

/-- The last record when `k` comes before the first one. -/
theorem inForce_of_lt_first (h : Increasing key l) {k : κ} {i : ℕ} (hi : i < l.length)
    (hlast : i + 1 = l.length) (hfirst : k < key (getElem l 0 (Nat.zero_lt_of_lt hi))) :
    InForce key l k l[i] := by
  refine ⟨List.getElem_mem hi, .inr ⟨fun x hx => ?_, fun x hx => ?_⟩⟩ <;>
    obtain ⟨j, hj, rfl⟩ := List.mem_iff_getElem.1 hx
  · exact hfirst.trans_le (h.le (Nat.zero_le j) hj)
  · exact h.le (by omega) hi

/-- A single record is always in force. -/
theorem inForce_of_length_eq_one (hl : l.length = 1) (k : κ) {i : ℕ} (hi : i < l.length) :
    InForce key l k l[i] := by
  obtain ⟨x, rfl⟩ := List.length_eq_one_iff.1 hl
  obtain rfl : i = 0 := by simpa using hi
  rcases le_or_gt (key x) k with hle | hlt
  · exact ⟨List.mem_singleton_self x, .inl ⟨hle, by simp⟩⟩
  · exact ⟨List.mem_singleton_self x, .inr ⟨by simpa using hlt, by simp⟩⟩

/-- A list that is not empty has a record in force at every key. -/
theorem exists_inForce (h : Increasing key l) (hne : l ≠ []) (k : κ) : ∃ r, InForce key l k r := by
  have hlast : l.length - 1 < l.length := by
    have := List.length_pos_iff.2 hne
    omega
  by_cases hex : ∃ x ∈ l, key x ≤ k
  · -- the last record that is not after `k`
    obtain ⟨x, hx, hxk⟩ := hex
    obtain ⟨j, hj, rfl⟩ := List.mem_iff_getElem.1 hx
    let P : ℕ → Prop := fun i => ∃ hi : i < l.length, key l[i] ≤ k
    classical
    have hP : P (Nat.findGreatest P l.length) := Nat.findGreatest_spec (P := P) hj.le ⟨hj, hxk⟩
    obtain ⟨hi, hik⟩ := hP
    refine ⟨_, List.getElem_mem hi, .inl ⟨hik, fun y hy hyk => ?_⟩⟩
    obtain ⟨m, hm, rfl⟩ := List.mem_iff_getElem.1 hy
    exact h.le (Nat.le_findGreatest hm.le ⟨hm, hyk⟩) hi
  · refine ⟨_, List.getElem_mem hlast, .inr ⟨fun x hx => ?_, fun x hx => ?_⟩⟩
    · by_contra hxk
      exact hex ⟨x, hx, not_lt.1 hxk⟩
    · obtain ⟨j, hj, rfl⟩ := List.mem_iff_getElem.1 hx
      exact h.le (by omega) hlast

end PconTng.Keyed
