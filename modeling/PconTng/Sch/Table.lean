import PconTng.Typedefs

/-!
# Schedule tables

`load_wsch` of `sch.c` assigns the template in the edit buffer to a day or all days, and a channel
or all channels, of the working schedule table.
-/

namespace PconTng

open CArray

/-- The schedule of a day and a channel. -/
def STab.cell (s : STab) (d : Fin daysPerWeek) (c : Fin numberOfChannels) : TmplDat :=
  (s.get d).get c

theorem STab.cell_zero (d : Fin daysPerWeek) (c : Fin numberOfChannels) :
    STab.zero.cell d c = TmplDat.zero := by
  simp only [STab.cell, STab.zero, get_eq, Vector.getElem_replicate]

/-- `s.sch[d][c] = t` -/
def storeCell (s : STab) (d c : ℤ) (t : TmplDat) : Except Stop STab := do
  let row ← load s d
  let row ← store row c t
  store s d row

/-- `load_wsch` -/
def loadWsch (cb : CmdFsmCb) : Except Stop CmdFsmCb := do
  let wSch ←
    if cb.wChannel = allChannels then
      if cb.wDay = allDays then
        forLoop (fun d s => forLoop (fun c s => storeCell s d c cb.wTemplateBuffer)
          numberOfChannels 0 s) daysPerWeek 0 cb.wSch
      else
        forLoop (fun c s => storeCell s cb.wDay c cb.wTemplateBuffer) numberOfChannels 0 cb.wSch
    else
      if cb.wDay = allDays then
        forLoop (fun d s => storeCell s d cb.wChannel cb.wTemplateBuffer) daysPerWeek 0 cb.wSch
      else storeCell cb.wSch cb.wDay cb.wChannel cb.wTemplateBuffer
  return { cb with wSch := wSch }

/-! ## The cells that are assigned -/

/-- The value of `wDay` or `wChannel` stands for an index below `n`, or for all of them. -/
def IndexOrAll (n : ℕ) (x : ℤ) : Prop := x = 99 ∨ 0 ≤ x ∧ x < n

/-- What the value of `wDay` or `wChannel` stands for. -/
def Selects (x : ℤ) (i : ℕ) : Prop := x = 99 ∨ x = i

instance (n : ℕ) (x : ℤ) : Decidable (IndexOrAll n x) := inferInstanceAs (Decidable (_ ∨ _))

instance (x : ℤ) (i : ℕ) : Decidable (Selects x i) := inferInstanceAs (Decidable (_ ∨ _))

theorem selects_all {x : ℤ} (h : x = 99) (i : ℕ) : Selects x i := .inl h

theorem selects_iff {x : ℤ} {i n : ℕ} (hx : x = i) (hi : i < n) (hn : n ≤ 99) (j : ℕ) :
    Selects x j ↔ j = i := by
  simp only [Selects, hx]
  omega

theorem ne_all {x : ℤ} {i n : ℕ} (hx : x = i) (hi : i < n) (hn : n ≤ 99) : x ≠ 99 := by omega

theorem storeCell_eq (s : STab) {x y : ℤ} {d c : ℕ} (hx : x = d) (hy : y = c)
    (hd : d < daysPerWeek) (hc : c < numberOfChannels) (t : TmplDat) :
    ∃ s', storeCell s x y t = .ok s' ∧
      ∀ d' c', s'.cell d' c' = if d'.val = d ∧ c'.val = c then t else s.cell d' c' := by
  subst hx hy
  refine ⟨s.set d (s[d].set c t), ?_, fun d' c' => ?_⟩
  · simp only [storeCell, load_natCast s hd, store_natCast _ hc, store_natCast s hd, bind,
      Except.bind]
  · simp only [STab.cell, get_eq]
    by_cases hd' : d = d'.val
    · subst hd'
      rw [Vector.getElem_set_self, Vector.getElem_set]
      by_cases hc' : c = c'.val
      · rw [if_pos hc', if_pos ⟨rfl, hc'.symm⟩]
      · rw [if_neg hc', if_neg fun h => hc' h.2.symm]
    · rw [Vector.getElem_set_ne _ _ hd', if_neg fun h => hd' h.1.symm]

/-- The loop over the channels of one day. -/
theorem storeRow_eq (s : STab) {x : ℤ} {d : ℕ} (hx : x = d) (hd : d < daysPerWeek) (t : TmplDat) :
    ∃ s', forLoop (fun c s => storeCell s x c t) numberOfChannels 0 s = .ok s' ∧
      ∀ d' c', s'.cell d' c' = if d'.val = d then t else s.cell d' c' := by
  have hloop := forLoop_ok (f := fun c s => storeCell s x c t) (k := numberOfChannels)
    (i := 0) (s := s)
    (fun j s' => ∀ d' c', s'.cell d' c' = if d'.val = d ∧ c'.val < j then t else s.cell d' c')
    (fun j s₁ _ hj h => ?_) (fun d' c' => by rw [if_neg (by omega)])
  · obtain ⟨s', hs', h⟩ := hloop
    refine ⟨s', hs', fun d' c' => ?_⟩
    have := c'.isLt
    rw [h d' c']
    congr 1
    simp only [Nat.zero_add, this, and_true]
  · obtain ⟨s₂, hs₂, h₂⟩ := storeCell_eq s₁ hx rfl hd (by omega : j < numberOfChannels) t
    refine ⟨s₂, hs₂, fun d' c' => ?_⟩
    rw [h₂, h]
    split_ifs <;> first | rfl | omega

theorem storeColumn_eq (s : STab) {y : ℤ} {c : ℕ} (hy : y = c) (hc : c < numberOfChannels)
    (t : TmplDat) : ∃ s', forLoop (fun d s => storeCell s d y t) daysPerWeek 0 s = .ok s' ∧
      ∀ d' c', s'.cell d' c' = if c'.val = c then t else s.cell d' c' := by
  have hloop := forLoop_ok (f := fun d s => storeCell s d y t) (k := daysPerWeek)
    (i := 0) (s := s)
    (fun j s' => ∀ d' c', s'.cell d' c' = if d'.val < j ∧ c'.val = c then t else s.cell d' c')
    (fun j s₁ _ hj h => ?_) (fun d' c' => by rw [if_neg (by omega)])
  · obtain ⟨s', hs', h⟩ := hloop
    refine ⟨s', hs', fun d' c' => ?_⟩
    have := d'.isLt
    rw [h d' c']
    congr 1
    simp only [Nat.zero_add, this, true_and]
  · obtain ⟨s₂, hs₂, h₂⟩ := storeCell_eq s₁ rfl hy (by omega : j < daysPerWeek) hc t
    refine ⟨s₂, hs₂, fun d' c' => ?_⟩
    rw [h₂, h]
    split_ifs <;> first | rfl | omega

theorem storeAll_eq (s : STab) (t : TmplDat) :
    ∃ s', forLoop (fun d s => forLoop (fun c s => storeCell s d c t) numberOfChannels 0 s)
        daysPerWeek 0 s = .ok s' ∧ ∀ d' c', s'.cell d' c' = t := by
  have hloop := forLoop_ok
    (f := fun d s => forLoop (fun c s => storeCell s d c t) numberOfChannels 0 s)
    (k := daysPerWeek) (i := 0) (s := s) (fun j s' => ∀ d' c', d'.val < j → s'.cell d' c' = t)
    (fun j s₁ _ hj h => ?_) (fun d' c' hd' => absurd hd' (Nat.not_lt_zero _))
  · obtain ⟨s', hs', h⟩ := hloop
    exact ⟨s', hs', fun d' c' => h d' c' (by have := d'.isLt; omega)⟩
  · obtain ⟨s₂, hs₂, h₂⟩ := storeRow_eq s₁ rfl (by omega : j < daysPerWeek) t
    refine ⟨s₂, hs₂, fun d' c' hd' => ?_⟩
    rw [h₂]
    split_ifs with he
    · rfl
    · exact h d' c' (by omega)

/-- `loadWsch` assigns the template to exactly the selected cells. -/
theorem loadWsch_eq (cb : CmdFsmCb) (hd : IndexOrAll daysPerWeek cb.wDay)
    (hc : IndexOrAll numberOfChannels cb.wChannel) :
    ∃ s', loadWsch cb = .ok { cb with wSch := s' } ∧ ∀ d c, s'.cell d c =
      if Selects cb.wDay d ∧ Selects cb.wChannel c then cb.wTemplateBuffer
      else cb.wSch.cell d c := by
  have hday : cb.wDay = allDays ∨ ∃ d : ℕ, cb.wDay = d ∧ d < daysPerWeek :=
    hd.imp_right fun h => ⟨cb.wDay.toNat, by omega, by omega⟩
  have hchannel : cb.wChannel = allChannels ∨ ∃ c : ℕ, cb.wChannel = c ∧ c < numberOfChannels :=
    hc.imp_right fun h => ⟨cb.wChannel.toNat, by omega, by omega⟩
  rcases hchannel with hallc | ⟨c₀, hc₀, hltc⟩ <;> rcases hday with halld | ⟨d₀, hd₀, hltd⟩
  · obtain ⟨s', hs', h⟩ := storeAll_eq cb.wSch cb.wTemplateBuffer
    refine ⟨s', by simp only [loadWsch, if_pos hallc, if_pos halld, hs']; rfl, fun d c => ?_⟩
    rw [h, if_pos ⟨.inl halld, .inl hallc⟩]
  · obtain ⟨s', hs', h⟩ := storeRow_eq cb.wSch hd₀ hltd cb.wTemplateBuffer
    have halld : cb.wDay ≠ allDays := ne_all hd₀ hltd (by decide)
    refine ⟨s', by simp only [loadWsch, if_pos hallc, if_neg halld, hs']; rfl, fun d c => ?_⟩
    simp only [h, selects_iff hd₀ hltd (by decide), selects_all hallc, and_true]
  · obtain ⟨s', hs', h⟩ := storeColumn_eq cb.wSch hc₀ hltc cb.wTemplateBuffer
    have hallc : cb.wChannel ≠ allChannels := ne_all hc₀ hltc (by decide)
    refine ⟨s', by simp only [loadWsch, if_neg hallc, if_pos halld, hs']; rfl, fun d c => ?_⟩
    simp only [h, selects_iff hc₀ hltc (by decide), selects_all halld, true_and]
  · obtain ⟨s', hs', h⟩ := storeCell_eq cb.wSch hd₀ hc₀ hltd hltc cb.wTemplateBuffer
    have halld : cb.wDay ≠ allDays := ne_all hd₀ hltd (by decide)
    have hallc : cb.wChannel ≠ allChannels := ne_all hc₀ hltc (by decide)
    refine ⟨s', by simp only [loadWsch, if_neg hallc, if_neg halld, hs']; rfl, fun d c => ?_⟩
    simp only [h, selects_iff hd₀ hltd (by decide), selects_iff hc₀ hltc (by decide)]

end PconTng
