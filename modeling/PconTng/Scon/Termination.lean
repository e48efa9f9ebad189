import PconTng.Scon.Fields

/-!
# When the search for a field ends

A field without `=` stops the loop of `cgigetval` for good if an `=` comes behind it: the pointer
that would have to move on is not the one that is moved. So the search ends exactly when no such
field comes before the one that is looked for (`cgigetval_ends_iff`).
-/

namespace PconTng.Scon

/-- The search for a field in the query string ends. -/
def Ends (behind : Byte) (fieldname p : List Byte) : Prop :=
  ∃ k value, cgiLoop behind fieldname k p = some value

/-- No field without `=` comes before a field with `=`, unless a field before it has the given
name. -/
def Passable (fieldname : List Byte) (fs : List (List Byte)) : Prop :=
  ∀ pre f post, fs = pre ++ f :: post → equals ∉ f → (∃ g ∈ post, equals ∈ g) →
    ∃ h ∈ pre, Named fieldname h

variable {behind : Byte} {fieldname f : List Byte} {fs : List (List Byte)}

theorem passable_cons : Passable fieldname (f :: fs) ↔
    ¬ (equals ∉ f ∧ ∃ g ∈ fs, equals ∈ g) ∧ (Named fieldname f ∨ Passable fieldname fs) := by
  constructor
  · intro h
    refine ⟨fun hbare => ?_, or_iff_not_imp_left.2 fun hne pre f' post hfs he hpost => ?_⟩
    · obtain ⟨g, hg, -⟩ := h [] f fs rfl hbare.1 hbare.2
      cases hg
    · obtain ⟨g, hg, hnamed⟩ := h (f :: pre) f' post (by rw [hfs]; rfl) he hpost
      rcases List.mem_cons.1 hg with rfl | hg
      · exact absurd hnamed hne
      · exact ⟨g, hg, hnamed⟩
  · rintro ⟨hbare, h⟩ pre f' post hfs he hpost
    cases pre with
    | nil =>
      cases hfs
      exact absurd ⟨he, hpost⟩ hbare
    | cons g pre =>
      cases hfs
      rcases h with hnamed | hpass
      · exact ⟨f, List.mem_cons_self, hnamed⟩
      · obtain ⟨g', hg', hnamed⟩ := hpass pre f' post rfl he hpost
        exact ⟨g', List.mem_cons_of_mem _ hg', hnamed⟩

theorem ends_nil : Ends behind fieldname [] := ⟨1, none, rfl⟩

theorem ends_of_found {p value : List Byte} (hp : p ≠ [])
    (h : cgiTurn behind fieldname p = .found value) : Ends behind fieldname p :=
  ⟨1, some value, cgiLoop_of_found behind hp h⟩

theorem ends_iff_of_next {p q : List Byte} (hp : p ≠ [])
    (h : cgiTurn behind fieldname p = .next q) :
    Ends behind fieldname p ↔ Ends behind fieldname q := by
  constructor
  · rintro ⟨k, value, hk⟩
    cases k with
    | zero => cases hk
    | succ k =>
      rw [cgiLoop_of_next behind hp h] at hk
      exact ⟨k, value, hk⟩
  · rintro ⟨k, value, hk⟩
    exact ⟨k + 1, value, (cgiLoop_of_next behind hp h).trans hk⟩

/-- A loop that stays where it is does not end. -/
theorem not_ends_of_stays {p : List Byte} (hp : p ≠ [])
    (h : cgiTurn behind fieldname p = .next p) : ¬ Ends behind fieldname p := by
  rintro ⟨k, value, hk⟩
  induction k with
  | zero => cases hk
  | succ k ih =>
    rw [cgiLoop_of_next behind hp h] at hk
    exact ih hk

/-- The last field of a string does not keep the loop from ending. -/
theorem ends_last (hf : ampersand ∉ f) : Ends behind fieldname f := by
  by_cases hnil : f = []
  · rw [hnil]
    exact ends_nil
  by_cases he : equals ∈ f
  · by_cases hnamed : Named fieldname f
    · obtain ⟨hn, v, rfl⟩ := hnamed
      exact ends_of_found hnil (cgiTurn_named behind hf hn none)
    · exact (ends_iff_of_next hnil (cgiTurn_other behind hf he hnamed none)).2 ends_nil
  · exact (ends_iff_of_next hnil (cgiTurn_bare behind hf none he)).2 ends_nil

/-- **When the search ends.** -/
theorem cgigetval_ends_iff (behind : Byte) (fieldname p : List Byte) :
    Ends behind fieldname p ↔ Passable fieldname (fields p) := by
  induction p using @Lexer.splitInduction Byte ampersand with
  | last f hf =>
    have hfields : fields f = [f] := fields_withRest hf none
    have hempty : Passable fieldname [] := fun pre f post h => by simp at h
    rw [hfields, passable_cons]
    refine iff_of_true (ends_last hf) ⟨?_, .inr hempty⟩
    rintro ⟨-, g, hg, -⟩
    cases hg
  | cons f q hf ih =>
    have hfields : fields (f ++ ampersand :: q) = f :: fields q := fields_withRest hf (some q)
    have hp := withRest_some_ne_nil f q
    have hmem := equals_mem_iff q
    rw [hfields, passable_cons, ← ih, ← hmem]
    by_cases he : equals ∈ f
    · by_cases hnamed : Named fieldname f
      · obtain ⟨hn, v, rfl⟩ := hnamed
        exact iff_of_true (ends_of_found hp (cgiTurn_named behind hf hn (some q)))
          ⟨fun h => h.1 he, .inl ⟨hn, v, rfl⟩⟩
      · have hends : Ends behind fieldname (f ++ ampersand :: q) ↔ Ends behind fieldname q :=
          ends_iff_of_next hp (cgiTurn_other behind hf he hnamed (some q))
        rw [hends]
        exact ⟨fun h => ⟨fun h => h.1 he, .inr h⟩, fun h => h.2.resolve_left hnamed⟩
    · have hnamed : ¬ Named fieldname f := by
        rintro ⟨-, v, rfl⟩
        exact he (by simp)
      by_cases hqe : equals ∈ q
      · exact iff_of_false (not_ends_of_stays hp (cgiTurn_stays behind hf he hqe))
          fun h => h.1 ⟨he, hqe⟩
      · have hnot : equals ∉ withRest f (some q) := by
          rw [withRest, List.mem_append, List.mem_cons]
          rintro (h | h | h)
          · exact he h
          · exact absurd h (by decide)
          · exact hqe h
        have hends : Ends behind fieldname (f ++ ampersand :: q) ↔ Ends behind fieldname q :=
          ends_iff_of_next hp (cgiTurn_bare behind hf (some q) hnot)
        rw [hends]
        exact ⟨fun h => ⟨fun h => hqe h.2, .inr h⟩, fun h => h.2.resolve_left hnamed⟩

/-- Behind a field without `=` the search for `temp` does not end. -/
theorem cgigetval_not_ends : ¬ ∀ (behind : Byte) (fieldname p : List Byte),
    Ends behind fieldname p := by
  intro hall
  refine not_ends_of_stays ?_ ?_ (hall 0 (str "temp") (str "x&temp=20"))
  · decide
  · rfl

end PconTng.Scon
