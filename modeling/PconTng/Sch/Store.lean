import Mathlib.Data.Set.Card
import PconTng.Foundations.Run
import PconTng.Sch.Template

/-!
# A template as a map

The records of a template in use are a map from the key of a record to its state, temperature and
humidity (`TmplDat.toMap`). `addTmplRec` and `delTmplRec` are the operations of a map that holds at
most `maxScheduleRecs` keys (`template_store`), over any sequence of them (`requests_refine`).
-/

namespace PconTng

open CMemory Keyed

/-- What a record stores for its key. -/
abbrev Setting : Type := ℤ × ℚ × ℚ

def SRec.setting (r : SRec) : Setting := (r.state, r.temp, r.humid)

/-- The records in use. -/
def TmplDat.toMap (t : TmplDat) : ℤ → Option Setting := assoc SRec.key SRec.setting t.live

/-- The template has the given name and stores the given map, in increasing order of the keys. -/
structure Stores (t : TmplDat) (name : Vector Byte templateNameSize) (m : ℤ → Option Setting) :
    Prop where
  wf : t.Wf
  name : t.name = name
  toMap : t.toMap = m
  rcnt : t.rcnt = {k | m k ≠ none}.ncard

/-- The keys of a map given by records in increasing order. -/
theorem ncard_assoc {ρ ν : Type*} {key : ρ → ℤ} (val : ρ → ν) {l : List ρ}
    (h : Increasing key l) : {k | assoc key val l k ≠ none}.ncard = l.length := by
  have hset : {k | assoc key val l k ≠ none} = ((l.map key).toFinset : Set ℤ) := by
    ext k
    simp [assoc_eq_none]
  have hnodup : (l.map key).Nodup := by
    rw [List.nodup_iff_pairwise_ne, List.pairwise_map]
    exact h.imp ne_of_lt
  rw [hset, Set.ncard_coe_finset, List.toFinset_card_of_nodup hnodup, List.length_map]

theorem TmplDat.Wf.stores {t : TmplDat} (h : t.Wf) : Stores t t.name t.toMap := by
  refine ⟨h, rfl, rfl, ?_⟩
  have hcard := ncard_assoc SRec.setting h.increasing
  rw [h.length_live] at hcard
  have h0 := h.nonneg
  simp only [TmplDat.toMap]
  omega

theorem TmplDat.toMap_eq_none {t : TmplDat} {k : ℤ} :
    t.toMap k = none ↔ ∀ r ∈ t.live, r.key ≠ k := assoc_eq_none

theorem TmplDat.toMap_ne_none {t : TmplDat} {i : ℕ} (hi : i < t.live.length) :
    t.toMap t.live[i].key ≠ none :=
  fun h => TmplDat.toMap_eq_none.1 h _ (List.getElem_mem hi) rfl

variable {t : TmplDat}

/-- Adding a record. -/
theorem addTmplRec_store (h : t.Wf) (hour minute state temp humid : ℤ) :
    ∃ t' ret, addTmplRec t hour minute state temp humid = .ok (t', ret) ∧
      if t.toMap (hour * 60 + minute) ≠ none ∨ t.rcnt < maxScheduleRecs then
        ret = 0 ∧ Stores t' t.name (Function.update t.toMap (hour * 60 + minute)
          (some (state, floatOfInt temp, floatOfInt humid)))
      else ret = 1 ∧ t' = t := by
  obtain ⟨t', ret, hadd, hname, -, hc⟩ := addTmplRec_cases h hour minute state temp humid
  have hwf := addTmplRec_wf h hadd
  refine ⟨t', ret, hadd, ?_⟩
  rcases hc with ⟨hret, i, hi, hkey, -, hlive⟩ | ⟨hnone, ⟨hret, ht, hfull⟩ |
    ⟨hret, -, hroom, i, hi, hlt, hgt, hlive⟩⟩
  · -- the key is there
    have hpresent := TmplDat.toMap_ne_none hi
    rw [hkey] at hpresent
    have hmap : t'.toMap = _ := congrArg (assoc SRec.key SRec.setting) hlive
    rw [assoc_set h.increasing hi hkey.symm] at hmap
    rw [if_pos (.inl hpresent)]
    exact ⟨hret, hname ▸ hmap ▸ hwf.stores⟩
  · -- no room
    have habsent := TmplDat.toMap_eq_none.2 hnone
    refine (if_neg ?_).mpr ⟨hret, ht⟩
    rw [habsent, hfull]
    simp
  · have hmap : t'.toMap = _ := congrArg (assoc SRec.key SRec.setting) hlive
    have hincreasing := hwf.increasing
    rw [hlive] at hincreasing
    rw [assoc_insertIdx h.increasing hi hincreasing] at hmap
    rw [if_pos (.inr hroom)]
    exact ⟨hret, hname ▸ hmap ▸ hwf.stores⟩

/-- Deleting a record. -/
theorem delTmplRec_store (h : t.Wf) (hour minute : ℤ) :
    ∃ t' ret, delTmplRec t hour minute = .ok (t', ret) ∧
      if t.toMap (hour * 60 + minute) ≠ none then
        ret = 0 ∧ Stores t' t.name (Function.update t.toMap (hour * 60 + minute) none)
      else ret = 1 ∧ t' = t := by
  obtain ⟨t', ret, hdel, hname, -, hc⟩ := delTmplRec_cases h hour minute
  have hwf := delTmplRec_wf h hdel
  refine ⟨t', ret, hdel, ?_⟩
  rcases hc with ⟨hret, i, hi, hkey, -, hlive⟩ | ⟨hret, ht, hnone⟩
  · have hpresent := TmplDat.toMap_ne_none hi
    have hmap : t'.toMap = _ := congrArg (assoc SRec.key SRec.setting) hlive
    rw [assoc_eraseIdx h.increasing hi, hkey] at hmap
    rw [hkey] at hpresent
    rw [if_pos hpresent]
    exact ⟨hret, hname ▸ hmap ▸ hwf.stores⟩
  · rw [if_neg (not_not.2 (TmplDat.toMap_eq_none.2 hnone))]
    exact ⟨hret, ht⟩

/-- **A template is a bounded map.** -/
theorem template_store (h : t.Wf) (hour minute state temp humid : ℤ) :
    (∃ t' ret, addTmplRec t hour minute state temp humid = .ok (t', ret) ∧
      if t.toMap (hour * 60 + minute) ≠ none ∨ t.rcnt < maxScheduleRecs then
        ret = 0 ∧ Stores t' t.name (Function.update t.toMap (hour * 60 + minute)
          (some (state, floatOfInt temp, floatOfInt humid)))
      else ret = 1 ∧ t' = t) ∧
    ∃ t' ret, delTmplRec t hour minute = .ok (t', ret) ∧
      if t.toMap (hour * 60 + minute) ≠ none then
        ret = 0 ∧ Stores t' t.name (Function.update t.toMap (hour * 60 + minute) none)
      else ret = 1 ∧ t' = t :=
  ⟨addTmplRec_store h hour minute state temp humid, delTmplRec_store h hour minute⟩

/-- A template with one record, at midnight. -/
def TmplDat.single : TmplDat := { TmplDat.zero with rcnt := 1 }

theorem TmplDat.wf_single : TmplDat.single.Wf :=
  ⟨by decide, by decide, List.pairwise_singleton _ _⟩

/-- A record for noon is added behind the one for midnight. -/
theorem template_store_single : ∃ t', addTmplRec TmplDat.single 12 0 1 70 0 = .ok (t', 0) ∧
    t'.toMap 720 = some (1, floatOfInt 70, floatOfInt 0) := by
  obtain ⟨⟨t', ret, hadd, hc⟩, -⟩ := template_store TmplDat.wf_single 12 0 1 70 0
  rw [if_pos (.inr (by decide))] at hc
  refine ⟨t', hc.1 ▸ hadd, ?_⟩
  rw [hc.2.toMap]
  exact Function.update_self ..

/-! ## Sequences of requests -/

/-- A call of one of the two routines. -/
inductive TmplRequest
  | add (hour minute state temp humid : ℤ)
  | del (hour minute : ℤ)

/-- A call on a template, behind the values that the calls before it have returned. -/
def TmplRequest.call : TmplDat × List ℤ → TmplRequest → Except Stop (TmplDat × List ℤ)
  | (t, rets), .add hour minute state temp humid => do
    let (t, ret) ← addTmplRec t hour minute state temp humid
    return (t, rets ++ [ret])
  | (t, rets), .del hour minute => do
    let (t, ret) ← delTmplRec t hour minute
    return (t, rets ++ [ret])

open Classical in
/-- The same on a map that holds at most `maxScheduleRecs` keys. -/
noncomputable def TmplRequest.onMap :
    (ℤ → Option Setting) × List ℤ → TmplRequest → (ℤ → Option Setting) × List ℤ
  | (m, rets), .add hour minute state temp humid =>
    if m (hour * 60 + minute) ≠ none ∨ {k | m k ≠ none}.ncard < maxScheduleRecs then
      (Function.update m (hour * 60 + minute) (some (state, floatOfInt temp, floatOfInt humid)),
        rets ++ [0])
    else (m, rets ++ [1])
  | (m, rets), .del hour minute =>
    if m (hour * 60 + minute) ≠ none then
      (Function.update m (hour * 60 + minute) none, rets ++ [0])
    else (m, rets ++ [1])

/-- A template and a map that give the same answers. -/
def Refines (name : Vector Byte templateNameSize) (x : TmplDat × List ℤ)
    (y : (ℤ → Option Setting) × List ℤ) : Prop :=
  Stores x.1 name y.1 ∧ x.2 = y.2

theorem TmplRequest.call_refines {name : Vector Byte templateNameSize} {x : TmplDat × List ℤ}
    {y : (ℤ → Option Setting) × List ℤ} (h : Refines name x y) (r : TmplRequest) :
    ∃ x', r.call x = .ok x' ∧ Refines name x' (r.onMap y) := by
  obtain ⟨t, rets⟩ := x
  obtain ⟨m, rets'⟩ := y
  obtain ⟨⟨hwf, hname, hmap, hrcnt⟩, hrets⟩ := h
  dsimp only at hwf hname hmap hrcnt hrets
  subst hname hmap hrets
  cases r with
  | add hour minute state temp humid =>
    obtain ⟨t', ret, hadd, hc⟩ := addTmplRec_store hwf hour minute state temp humid
    refine ⟨(t', rets ++ [ret]), ?_, ?_⟩
    · simp only [TmplRequest.call, hadd, bind, Except.bind]
      rfl
    · have hlt : t.rcnt < maxScheduleRecs ↔ {k | t.toMap k ≠ none}.ncard < maxScheduleRecs := by
        rw [hrcnt, Nat.cast_lt]
      by_cases hroom : t.toMap (hour * 60 + minute) ≠ none ∨ t.rcnt < maxScheduleRecs
      · rw [if_pos hroom] at hc
        rw [hlt] at hroom
        simp only [TmplRequest.onMap, if_pos hroom]
        exact ⟨hc.2, by rw [hc.1]⟩
      · rw [if_neg hroom] at hc
        rw [hlt] at hroom
        obtain ⟨rfl, rfl⟩ := hc
        simp only [TmplRequest.onMap, if_neg hroom]
        exact ⟨hwf.stores, rfl⟩
  | del hour minute =>
    obtain ⟨t', ret, hdel, hc⟩ := delTmplRec_store hwf hour minute
    refine ⟨(t', rets ++ [ret]), ?_, ?_⟩
    · simp only [TmplRequest.call, hdel, bind, Except.bind]
      rfl
    · by_cases hpresent : t.toMap (hour * 60 + minute) ≠ none
      · rw [if_pos hpresent] at hc
        simp only [TmplRequest.onMap, if_pos hpresent]
        exact ⟨hc.2, by rw [hc.1]⟩
      · rw [if_neg hpresent] at hc
        obtain ⟨rfl, rfl⟩ := hc
        simp only [TmplRequest.onMap, if_neg hpresent]
        exact ⟨hwf.stores, rfl⟩

/-- Any sequence of calls on a template returns what it returns on the map, and ends in it. -/
theorem requests_refine (h : t.Wf) (rs : List TmplRequest) :
    ∃ t' rets, rs.foldlM (fun x r => r.call x) (t, []) = .ok (t', rets) ∧
      Stores t' t.name (rs.foldl (fun y r => r.onMap y) (t.toMap, [])).1 ∧
      rets = (rs.foldl (fun y r => r.onMap y) (t.toMap, [])).2 := by
  obtain ⟨⟨t', rets⟩, hrun, hstores, hrets⟩ :=
    foldlM_simulation (C := fun _ => True) (R := Refines t.name)
      (fun _ _ r hxy _ => TmplRequest.call_refines hxy r) rs (t, []) (t.toMap, [])
      ⟨h.stores, rfl⟩ fun _ _ => trivial
  exact ⟨t', rets, hrun, hstores, hrets⟩

end PconTng
