import PconTng.CmdFsm.Session

/-!
# Editing the group of a sensor

The group of a sensor has a field of nine characters. `c_69` pads the name to nine characters, so
the terminator goes into the description behind: a name of at most eight characters empties the
description. A name of nine characters does not leave a place for the terminator in the buffer of
`c_69`, and `padstr` does not return it. No name is stored as it should be (`group_never_set`).
-/

namespace PconTng.Group

open CMemory CArray CmdFsm

/-- The routine does not refuse the token for its length. -/
def Accepted (w : World) : Prop := w.cb.token.bytes.length ≤ groupNameSize + 2

/-- The working record has the name that was typed as its group, followed by blanks and terminated
inside the field, and the texts and numbers around it have not changed. -/
structure Regrouped (w w' : World) : Prop where
  group : ∃ k, cString w'.cb.wSenDat.group.toList =
    .ok (dequote w.cb.token.bytes ++ List.replicate k 32)
  description : w'.cb.wSenDat.description = w.cb.wSenDat.description
  active : w'.cb.wSenDat.active = w.cb.wSenDat.active
  sensorId : w'.cb.wSenDat.sensorId = w.cb.wSenDat.sensorId

/-- The routine succeeds, and sets the group. -/
def GroupSet (w : World) : Prop := ∃ w', c69 w = .ok (w', 0) ∧ Regrouped w w'

/-- The name with blanks up to the size of the field. -/
def padded (name : List Byte) : List Byte :=
  name ++ List.replicate (groupNameSize - name.length) 32

theorem length_padded {name : List Byte} (h : name.length < groupNameSize) :
    (padded name).length = groupNameSize := by
  rw [padded, List.length_append, List.length_replicate]
  exact Nat.add_sub_cancel' h.le

theorem zero_notMem_padded {name : List Byte} (h : 0 ∉ name) : 0 ∉ padded name := by
  intro hmem
  obtain hname | hblank := List.mem_append.1 hmem
  · exact h hname
  · exact absurd (List.eq_of_mem_replicate hblank) (by decide)

theorem padstr_of_short {name : List Byte} (h : name.length < groupNameSize) :
    padstr name groupNameSize = some (padded name) := by
  rw [padstr, if_neg h.not_gt, if_pos h, padded]

/-- The padded name fills the field, and its terminator is the first character of the
description. -/
theorem pokeGroup_padded (s : SenDat) {name : List Byte} (h : name.length < groupNameSize) :
    (pokeGroup s (padded name ++ [0])).group.toList = padded name ∧
      (pokeGroup s (padded name ++ [0])).description =
        s.description.set 0 0 (Nat.succ_pos _) := by
  have hlen := length_padded h
  have hgroup : (pokeStr s.group (padded name ++ [0])).1.toList = padded name := by
    rw [pokeStr_full, List.take_left' hlen]
    rw [List.length_append, hlen]
    exact Nat.le_succ _
  have hrest : (pokeStr s.group (padded name ++ [0])).2 = [0] := List.drop_left' hlen
  have hdescription : (pokeGroup s (padded name ++ [0])).description =
      (pokeStr s.description (pokeStr s.group (padded name ++ [0])).2).1 := rfl
  refine ⟨hgroup, ?_⟩
  rw [hdescription, hrest]
  exact pokeStr_nul _ _

variable {w : World}

/-- A name of at most eight characters. -/
theorem c69_of_short (hacc : Accepted w) (h : (dequote w.cb.token.bytes).length < groupNameSize) :
    c69 w = .ok (w.setCb { w.cb with
      token := w.cb.token.dequote
      wSenDat := pokeGroup w.cb.wSenDat (padded (dequote w.cb.token.bytes) ++ [0]) }, 0) := by
  have hlen : ¬ w.cb.token.dequote.bytes.length ≥ groupNameSize := not_le.2 h
  have hpad : padstr w.cb.token.dequote.bytes groupNameSize =
      some (padded (dequote w.cb.token.bytes)) := padstr_of_short h
  unfold c69
  dsimp only
  rw [if_neg (not_lt.2 hacc), if_neg hlen, hpad]

/-- A longer one. -/
theorem c69_of_long (hacc : Accepted w) (h : groupNameSize ≤ (dequote w.cb.token.bytes).length) :
    c69 w = .error .fault := by
  unfold c69
  dsimp only
  rw [if_neg (not_lt.2 hacc)]
  exact if_pos h

/-- A token that is too long for any name. -/
theorem c69_of_not_accepted (hacc : ¬ Accepted w) : c69 w = .ok (w, 2) := by
  unfold c69
  exact if_pos (not_le.1 hacc)

/-- There is no terminator in the field. -/
theorem not_groupSet_of_short (hacc : Accepted w)
    (h : (dequote w.cb.token.bytes).length < groupNameSize) : ¬ GroupSet w := by
  rintro ⟨w', hrun, ⟨k, hgroup⟩, -⟩
  obtain ⟨rfl, -⟩ := Prod.mk.inj (Except.ok.inj ((c69_of_short hacc h).symm.trans hrun))
  have hmem := exists_cString.1 ⟨_, hgroup⟩
  rw [World.setCb, (pokeGroup_padded _ h).1] at hmem
  exact zero_notMem_padded w.cb.token.dequote.noNul hmem

/-- **No group is ever set.** A name of at most eight characters is stored without a terminator and
the description is emptied; a longer one ends the program. -/
theorem group_never_set (w : World) :
    ¬ GroupSet w ∧
    (Accepted w → (dequote w.cb.token.bytes).length < groupNameSize →
      ∃ w', c69 w = .ok (w', 0) ∧
        w'.cb.wSenDat.group.toList = padded (dequote w.cb.token.bytes) ∧
        w'.cb.wSenDat.description = w.cb.wSenDat.description.set 0 0 (Nat.succ_pos _)) ∧
    (Accepted w → groupNameSize ≤ (dequote w.cb.token.bytes).length →
      c69 w = .error .fault) := by
  refine ⟨?_, fun hacc h => ⟨_, c69_of_short hacc h, pokeGroup_padded _ h⟩, c69_of_long⟩
  by_cases hacc : Accepted w
  · obtain h | h := lt_or_ge (dequote w.cb.token.bytes).length groupNameSize
    · exact not_groupSet_of_short hacc h
    · rintro ⟨w', hrun, -⟩
      cases (c69_of_long hacc h).symm.trans hrun
  · rintro ⟨w', hrun, -⟩
    cases (c69_of_not_accepted hacc).symm.trans hrun

/-- `"tank"` -/
def tank : Token := ⟨str "\"tank\"", by decide, by decide⟩

theorem description_pos : 0 < descriptionNameSize := Nat.succ_pos _

/-- A record whose description starts with an `x`. -/
def described : World :=
  World.zero.setCb { CmdFsmCb.zero with
    token := tank
    wSenDat := { SenDat.zero with
      description := SenDat.zero.description.set 0 120 description_pos } }

/-- The token is accepted and stored without a terminator, and the description is lost. -/
theorem tank_not_set : Accepted described ∧ ¬ GroupSet described ∧
    ∃ w, c69 described = .ok (w, 0) ∧
      w.cb.wSenDat.description ≠ described.cb.wSenDat.description := by
  have hacc : Accepted described := by unfold Accepted; decide
  have hlen : (dequote described.cb.token.bytes).length < groupNameSize := by decide
  refine ⟨hacc, not_groupSet_of_short hacc hlen, _, c69_of_short hacc hlen, ?_⟩
  intro hsame
  have hfirst := congrArg (fun d : Vector Byte descriptionNameSize => d[0]) hsame
  exact absurd hfirst (by decide +kernel)

end PconTng.Group
