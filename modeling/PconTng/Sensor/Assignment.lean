import Mathlib.Data.List.Perm.Subperm
import PconTng.CmdFsm.Frame
import PconTng.Foundations.Run

/-!
# The sensors of the channels

Which sensor a channel is assigned to is kept twice: in the data of the channel, and in the lists of
channels that the sensors have. Both sides are the graph of one function from channels to sensors,
which `c_49` updates and `c_18` clears (`Follows`), so they agree in every session
(`assignment_consistent`).
-/

namespace PconTng.Assignment

open CArray CmdFsm

/-! ## Both sides -/

/-- The data of a channel assigns it to a sensor. -/
def AssignedTo (w : World) (k : Fin numberOfChannels) (i : Fin numberOfSensors) : Prop :=
  (w.ipc.sysData.cData.get k).sensorAssigned = 1 ∧ (w.ipc.sysData.cData.get k).sensorId = i.val

/-- The list of channels that a sensor has. -/
def listOf (w : World) (i : Fin numberOfSensors) : List ℤ :=
  front (w.ipc.sDat.get i).channel (w.ipc.sDat.get i).channelIndex.toNat

/-- The two sides agree, and the lists are in order. -/
structure Consistent (w : World) : Prop where
  agree : ∀ (k : Fin numberOfChannels) (i : Fin numberOfSensors),
    (k.val : ℤ) ∈ listOf w i ↔ AssignedTo w k i
  nodup : ∀ i, (listOf w i).Nodup
  disjoint : ∀ i j, i ≠ j → (listOf w i).Disjoint (listOf w j)
  index : ∀ i, 0 ≤ (w.ipc.sDat.get i).channelIndex ∧
    (w.ipc.sDat.get i).channelIndex ≤ numberOfChannels

/-- Nothing is assigned. -/
structure Unassigned (w : World) : Prop where
  channels : ∀ k, (w.ipc.sysData.cData.get k).sensorAssigned = 0
  sensors : ∀ i, (w.ipc.sDat.get i).channelIndex = 0

/-! ## Requests -/

/-- What the user asks for, with the working channel and the number of the sensor. -/
inductive Request
  | assign (k : Fin numberOfChannels) (i : Fin numberOfSensors)
  | clear (k : Fin numberOfChannels)

def Request.exec (w : World) : Request → Except Stop World
  | .assign k i => do
    let (w, _) ← c49 (w.setCb { w.cb with wChannel := k.val, tokenValue := i.val })
    return w
  | .clear k => do
    let (w, _) ← c18 (w.setCb { w.cb with wChannel := k.val })
    return w

/-- The sensor of every channel. -/
abbrev Wiring : Type := Fin numberOfChannels → Option (Fin numberOfSensors)

def Wiring.step (f : Wiring) : Request → Wiring
  | .assign k i => Function.update f k (some i)
  | .clear k => Function.update f k none

/-! ## The memory follows the wiring -/

/-- `l` lists the channels of the sensor `i`, each once. -/
structure Lists (f : Wiring) (i : Fin numberOfSensors) (l : List ℤ) : Prop where
  nodup : l.Nodup
  mem : ∀ x, x ∈ l ↔ ∃ k : Fin numberOfChannels, x = k.val ∧ f k = some i

/-- The record of every sensor holds its list. -/
def HoldsAll (sDat : Vector SenDat numberOfSensors) (ls : Fin numberOfSensors → List ℤ) : Prop :=
  ∀ i, Holds (sDat.get i).channel (sDat.get i).channelIndex (ls i)

structure Follows (w : World) (f : Wiring) : Prop where
  channels : ∀ k i, AssignedTo w k i ↔ f k = some i
  sensors : ∃ ls, HoldsAll w.ipc.sDat ls ∧ ∀ i, Lists f i (ls i)

variable {w : World} {f : Wiring} {k : Fin numberOfChannels} {i : Fin numberOfSensors}
  {l : List ℤ}

theorem Lists.mem_iff (h : Lists f i l) (k : Fin numberOfChannels) :
    (k.val : ℤ) ∈ l ↔ f k = some i := by
  rw [h.mem]
  constructor
  · rintro ⟨k', hk, hf⟩
    obtain rfl : k = k' := Fin.ext (by exact_mod_cast hk)
    exact hf
  · exact fun hf => ⟨k, rfl, hf⟩

/-- There is room for a channel that is not on the list. -/
theorem Lists.length_lt (h : Lists f i l) (hk : (k.val : ℤ) ∉ l) :
    l.length < numberOfChannels := by
  have hsub : (k.val : ℤ) :: l ⊆ (List.finRange numberOfChannels).map fun k => (k.val : ℤ) := by
    intro x hx
    rw [List.mem_map]
    rcases List.mem_cons.1 hx with rfl | hx
    · exact ⟨k, List.mem_finRange k, rfl⟩
    · obtain ⟨k', rfl, -⟩ := (h.mem x).1 hx
      exact ⟨k', List.mem_finRange k', rfl⟩
  have hle := ((List.nodup_cons.2 ⟨hk, h.nodup⟩).subperm hsub).length_le
  rwa [List.length_map, List.length_finRange] at hle

/-- Taking a channel off the list. -/
theorem Lists.erase (h : Lists f i l) (k : Fin numberOfChannels) :
    Lists (Function.update f k none) i (l.erase k.val) := by
  refine ⟨h.nodup.erase _, fun x => ?_⟩
  rw [h.nodup.mem_erase_iff, h.mem]
  constructor
  · rintro ⟨hne, k', rfl, hf⟩
    have hk : k' ≠ k := fun he => hne (he ▸ rfl)
    exact ⟨k', rfl, by rwa [Function.update_of_ne hk]⟩
  · rintro ⟨k', rfl, hf⟩
    by_cases hk : k' = k
    · subst hk
      rw [Function.update_self] at hf
      cases hf
    · rw [Function.update_of_ne hk] at hf
      exact ⟨fun he => hk (Fin.ext (by exact_mod_cast he)), k', rfl, hf⟩

/-- Putting a channel that has no sensor on the list of its sensor. -/
theorem Lists.append (h : Lists f i l) (hk : f k = none) :
    Lists (Function.update f k (some i)) i (l ++ [(k.val : ℤ)]) := by
  have hmem : (k.val : ℤ) ∉ l := by
    rw [h.mem_iff, hk]
    exact fun he => by cases he
  refine ⟨List.nodup_append.2 ⟨h.nodup, List.nodup_singleton _, ?_⟩, fun x => ?_⟩
  · rintro x hx y hy rfl
    rw [List.mem_singleton.1 hy] at hx
    exact hmem hx
  · rw [List.mem_append, List.mem_singleton, h.mem]
    constructor
    · rintro (⟨k', rfl, hf⟩ | rfl)
      · have hne : k' ≠ k := fun he => by
          rw [he, hk] at hf
          cases hf
        exact ⟨k', rfl, by rwa [Function.update_of_ne hne]⟩
      · exact ⟨k, rfl, Function.update_self ..⟩
    · rintro ⟨k', rfl, hf⟩
      by_cases he : k' = k
      · exact .inr (he ▸ rfl)
      · rw [Function.update_of_ne he] at hf
        exact .inl ⟨k', rfl, hf⟩

/-- The list of another sensor. -/
theorem Lists.other (h : Lists f i l) (hk : f k = none) {j : Fin numberOfSensors} (hij : i ≠ j) :
    Lists (Function.update f k (some j)) i l := by
  refine ⟨h.nodup, fun x => ?_⟩
  rw [h.mem]
  refine exists_congr fun k' => and_congr_right fun _ => ?_
  by_cases he : k' = k
  · subst he
    rw [hk, Function.update_self, Option.some_inj]
    exact iff_of_false (fun h => by cases h) (fun h => hij h.symm)
  · rw [Function.update_of_ne he]

/-! ## What the two routines do -/

theorem HoldsAll.set {sDat : Vector SenDat numberOfSensors} {ls : Fin numberOfSensors → List ℤ}
    (h : HoldsAll sDat ls) (i : Fin numberOfSensors) {s : SenDat}
    (hs : Holds s.channel s.channelIndex l) :
    HoldsAll (sDat.set i s i.isLt) (Function.update ls i l) := by
  intro j
  by_cases hj : j = i
  · subst hj
    rw [Function.update_self, get_eq, Vector.getElem_set_self]
    exact hs
  · have hne : i.val ≠ j.val := fun he => hj (Fin.ext he.symm)
    rw [Function.update_of_ne hj, get_eq, Vector.getElem_set_ne _ _ hne]
    exact h j

/-- The lists after the channel has been taken off those of the sensors below `j`. -/
def erased (ls : Fin numberOfSensors → List ℤ) (x : ℤ) (j : ℕ) (i : Fin numberOfSensors) : List ℤ :=
  if i.val < j then (ls i).erase x else ls i

theorem update_erased (ls : Fin numberOfSensors → List ℤ) (x : ℤ) (j : Fin numberOfSensors) :
    Function.update (erased ls x j) j ((ls j).erase x) = erased ls x (j + 1) := by
  funext i
  by_cases hij : i = j
  · subst hij
    rw [Function.update_self, erased, if_pos (Nat.lt_succ_self _)]
  · have hne : i.val ≠ j.val := fun he => hij (Fin.ext he)
    have hlt : i.val < j ↔ i.val < j + 1 := by omega
    rw [Function.update_of_ne hij]
    simp only [erased, hlt]

/-- The loop over the sensors takes the channel off every list. -/
theorem unassign_eq {sDat : Vector SenDat numberOfSensors} {ls : Fin numberOfSensors → List ℤ}
    (h : HoldsAll sDat ls) (x : ℤ) :
    ∃ sDat', unassign x sDat = .ok sDat' ∧ HoldsAll sDat' fun i => (ls i).erase x := by
  have hall : ∃ sDat', unassign x sDat = .ok sDat' ∧
      HoldsAll sDat' (erased ls x (0 + numberOfSensors)) := by
    refine forLoop_ok (fun j s => HoldsAll s (erased ls x j)) (fun j s _ hj hI => ?_)
      (fun i => h i)
    have hlt : j < numberOfSensors := by omega
    have hj' : Holds s[j].channel s[j].channelIndex (ls ⟨j, hlt⟩) := by
      have hj' := hI ⟨j, hlt⟩
      rwa [erased, if_neg (lt_irrefl j)] at hj'
    obtain ⟨channel, channelIndex, hdel, hholds⟩ := hj'.delElm x
    refine ⟨s.set j { s[j] with channel := channel, channelIndex := channelIndex }, ?_, ?_⟩
    · simp only [load_natCast s hlt, store_natCast s hlt, hdel, bind, Except.bind]
    · rw [← update_erased ls x ⟨j, hlt⟩]
      exact hI.set ⟨j, hlt⟩
        (s := { s[j] with channel := channel, channelIndex := channelIndex }) hholds
  obtain ⟨sDat', hs, hall⟩ := hall
  refine ⟨sDat', hs, fun i => ?_⟩
  have hi := hall i
  have hlt : i.val < 0 + numberOfSensors := (Nat.zero_add _).symm ▸ i.isLt
  rwa [erased, if_pos hlt] at hi

/-- `c_18` changes the data of the working channel and takes it off all lists. -/
theorem c18_eq {ls : Fin numberOfSensors → List ℤ} (hls : HoldsAll w.ipc.sDat ls)
    (hk : w.cb.wChannel = k.val) : ∃ w', c18 w = .ok (w', 0) ∧
      w'.ipc.sysData.cData = w.ipc.sysData.cData.set k
        { w.ipc.sysData.cData.get k with sensorAssigned := 0 } k.isLt ∧
      HoldsAll w'.ipc.sDat fun i => (ls i).erase k.val := by
  obtain ⟨sDat', hs, hls'⟩ := unassign_eq hls k.val
  have hrun : ∃ w', c18 w = .ok (w', 0) ∧ w'.ipc.sDat = sDat' ∧
      w'.ipc.sysData.cData = w.ipc.sysData.cData.set k
        { w.ipc.sysData.cData.get k with sensorAssigned := 0 } k.isLt := by
    simp only [c18, World.onChannel_eq hk, bind, Except.bind, World.setSysData, hk, hs]
    exact ⟨_, rfl, rfl, rfl⟩
  obtain ⟨w', hw', rfl, hcData⟩ := hrun
  exact ⟨w', hw', hcData, hls'⟩

/-- `c_49` changes the data of the working channel, takes it off all lists and puts it on the list
of the sensor. -/
theorem c49_eq {ls : Fin numberOfSensors → List ℤ} (hls : HoldsAll w.ipc.sDat ls)
    (hk : w.cb.wChannel = k.val) (hi : w.cb.tokenValue = i.val)
    (hroom : ((ls i).erase k.val).length < numberOfChannels)
    (hmem : (k.val : ℤ) ∉ (ls i).erase k.val) : ∃ w', c49 w = .ok (w', 0) ∧
      w'.ipc.sysData.cData = w.ipc.sysData.cData.set k
        { w.ipc.sysData.cData.get k with sensorId := i.val, sensorAssigned := 1 } k.isLt ∧
      HoldsAll w'.ipc.sDat (Function.update (fun i => (ls i).erase k.val) i
        ((ls i).erase k.val ++ [(k.val : ℤ)])) := by
  obtain ⟨sDat', hs, hls'⟩ := unassign_eq hls k.val
  have hsize : (sDat'.get i).channelIndex + 1 < 4 * numberOfChannels := by
    rw [(hls' i).index]
    simp only [numberOfChannels] at hroom ⊢
    omega
  obtain ⟨channel, channelIndex, hadd, hholds⟩ := (hls' i).addElm hroom (.inr hsize) hmem
  let s' : SenDat := { sDat'.get i with channel := channel, channelIndex := channelIndex }
  have hrun : ∃ w', c49 w = .ok (w', 0) ∧ w'.ipc.sDat = sDat'.set i s' i.isLt ∧
      w'.ipc.sysData.cData = w.ipc.sysData.cData.set k
        { w.ipc.sysData.cData.get k with sensorId := i.val, sensorAssigned := 1 } k.isLt := by
    simp only [c49, hk, hs, World.onChannel_eq hk, World.setSysData, hi, load_natCast _ i.isLt,
      bind, Except.bind, ← get_eq, hadd, store_natCast _ i.isLt]
    exact ⟨_, rfl, rfl, rfl⟩
  obtain ⟨w', hw', hsDat, hcData⟩ := hrun
  exact ⟨w', hw', hcData, hsDat ▸ hls'.set i (s := s') hholds⟩

/-- The data of the channels follow when that of one of them is changed. -/
theorem assignedTo_set (h : ∀ j i, AssignedTo w j i ↔ f j = some i) {w' : World} {c : ChnDat}
    (hw' : w'.ipc.sysData.cData = w.ipc.sysData.cData.set k c k.isLt)
    {o : Option (Fin numberOfSensors)}
    (hc : ∀ i : Fin numberOfSensors, (c.sensorAssigned = 1 ∧ c.sensorId = i.val) ↔ o = some i)
    (j : Fin numberOfChannels) (i : Fin numberOfSensors) :
    AssignedTo w' j i ↔ Function.update f k o j = some i := by
  unfold AssignedTo
  rw [hw', get_eq]
  by_cases hj : j = k
  · subst hj
    rw [Vector.getElem_set_self, Function.update_self]
    exact hc i
  · have hne : k.val ≠ j.val := fun he => hj (Fin.ext he.symm)
    rw [Vector.getElem_set_ne _ _ hne, Function.update_of_ne hj]
    exact h j i

theorem Follows.clear (h : Follows w f) (hk : w.cb.wChannel = k.val) :
    ∃ w', c18 w = .ok (w', 0) ∧ Follows w' (Function.update f k none) := by
  obtain ⟨ls, hls, hf⟩ := h.sensors
  obtain ⟨w', hw', hcData, hls'⟩ := c18_eq hls hk
  refine ⟨w', hw', assignedTo_set h.channels hcData fun i => ?_, _, hls', fun i => (hf i).erase k⟩
  exact iff_of_false (fun he => absurd he.1 zero_ne_one) (fun he => by cases he)

theorem Follows.assign (h : Follows w f) (hk : w.cb.wChannel = k.val)
    (hi : w.cb.tokenValue = i.val) :
    ∃ w', c49 w = .ok (w', 0) ∧ Follows w' (Function.update f k (some i)) := by
  obtain ⟨ls, hls, hf⟩ := h.sensors
  -- the channel is without a sensor in between
  have herase := fun j => (hf j).erase k
  have hnone : Function.update f k none k = none := Function.update_self ..
  have hmem : (k.val : ℤ) ∉ (ls i).erase k.val := by
    rw [(herase i).mem_iff, hnone]
    exact fun he => by cases he
  obtain ⟨w', hw', hcData, hls'⟩ := c49_eq hls hk hi ((herase i).length_lt hmem) hmem
  refine ⟨w', hw', assignedTo_set h.channels hcData fun j => ?_, _, hls', fun j => ?_⟩
  · rw [Option.some_inj, Fin.ext_iff]
    simp
  · have hupdate : Function.update (Function.update f k none) k (some i) =
        Function.update f k (some i) := Function.update_idem ..
    by_cases hj : j = i
    · subst hj
      rw [Function.update_self, ← hupdate]
      exact (herase j).append hnone
    · rw [Function.update_of_ne hj, ← hupdate]
      exact (herase j).other hnone hj

/-! ## Sessions -/

/-- **Each request updates both sides.** -/
theorem Follows.step (h : Follows w f) (r : Request) :
    ∃ w', r.exec w = .ok w' ∧ Follows w' (f.step r) := by
  cases r with
  | assign k i =>
    obtain ⟨w', hw', hfollows⟩ := Follows.assign
      (w := w.setCb { w.cb with wChannel := k.val, tokenValue := i.val })
      ⟨h.channels, h.sensors⟩ rfl rfl
    refine ⟨w', ?_, hfollows⟩
    simp only [Request.exec, hw', bind, Except.bind]
    rfl
  | clear k =>
    obtain ⟨w', hw', hfollows⟩ := Follows.clear
      (w := w.setCb { w.cb with wChannel := k.val }) ⟨h.channels, h.sensors⟩ rfl
    refine ⟨w', ?_, hfollows⟩
    simp only [Request.exec, hw', bind, Except.bind]
    rfl

theorem Follows.consistent (h : Follows w f) : Consistent w := by
  obtain ⟨ls, hls, hf⟩ := h.sensors
  have hlist : ∀ i, listOf w i = ls i := fun i => by
    rw [listOf, (hls i).index, Int.toNat_natCast, (hls i).front]
  refine ⟨fun k i => ?_, fun i => ?_, fun i j hij => ?_, fun i => ?_⟩
  · rw [hlist, (hf i).mem_iff, h.channels]
  · rw [hlist]
    exact (hf i).nodup
  · rw [hlist, hlist]
    intro x hi hj
    obtain ⟨k, rfl, hki⟩ := ((hf i).mem x).1 hi
    rw [(hf j).mem_iff, hki] at hj
    exact hij (Option.some.inj hj)
  · have hfits := (hls i).fits
    rw [(hls i).index]
    simp only [numberOfChannels] at hfits ⊢
    omega

theorem Follows.of_unassigned (h : Unassigned w) : Follows w fun _ => none := by
  refine ⟨fun k i => ?_, fun _ => [], fun i => ?_, fun i => ?_⟩
  · refine iff_of_false (fun he => ?_) (fun he => by cases he)
    rw [AssignedTo, h.channels] at he
    exact absurd he.1 (by decide)
  · exact ⟨h.sensors i, Nat.zero_le _, rfl⟩
  · refine ⟨List.nodup_nil, fun x => iff_of_false List.not_mem_nil ?_⟩
    rintro ⟨k, -, he⟩
    cases he

/-- **The assignment of sensors stays consistent.** Every session of requests runs to its end. The
data of the channels and the lists of the sensors agree then, and they say of every channel what the
last request for it asked for. -/
theorem assignment_consistent (h : Unassigned w) (rs : List Request) :
    ∃ w', rs.foldlM Request.exec w = .ok w' ∧ Consistent w' ∧
      ∀ k i, AssignedTo w' k i ↔ rs.foldl Wiring.step (fun _ => none) k = some i := by
  obtain ⟨w', hw', hfollows⟩ := foldlM_simulation (R := Follows) (g := Wiring.step)
    (C := fun _ => True) (fun _ _ r hs _ => hs.step r) rs w _ (.of_unassigned h)
    (fun _ _ => trivial)
  exact ⟨w', hw', hfollows.consistent, hfollows.channels⟩

theorem unassigned_zero : Unassigned World.zero :=
  ⟨fun k => by simp [World.zero, IpcDat.zero, SysDat.zero, ChnDat.zero],
    fun i => by simp [World.zero, IpcDat.zero, SenDat.zero]⟩

/-- Channel 3 goes from sensor 5 to sensor 7. -/
theorem assignment_consistent_three : ∃ w',
    [Request.assign 3 5, .assign 4 5, .assign 3 7].foldlM Request.exec World.zero = .ok w' ∧
      Consistent w' ∧ AssignedTo w' 3 7 ∧ AssignedTo w' 4 5 := by
  obtain ⟨w', hw', hconsistent, hassigned⟩ := assignment_consistent unassigned_zero
    [.assign 3 5, .assign 4 5, .assign 3 7]
  exact ⟨w', hw', hconsistent, (hassigned 3 7).2 rfl, (hassigned 4 5).2 rfl⟩

end PconTng.Assignment
