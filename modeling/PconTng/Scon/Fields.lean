import PconTng.Foundations.Lexer
import PconTng.Scon.Request

/-!
# The fields of a query string

A query string is a list of fields with `&` between them (`fields`). A turn of the loop of
`cgigetval` looks at the first field and, because it searches for `=` without regard to the field,
at the rest of the string: it returns the value of the field (`cgiTurn_named`), goes on with the
next field (`cgiTurn_other`, `cgiTurn_bare`), or stays where it is (`cgiTurn_stays`).
-/

namespace PconTng.Scon

/-- The fields of a query string. -/
def fields (p : List Byte) : List (List Byte) := p.splitOn ampersand

/-- The field has the given name. -/
def Named (fieldname f : List Byte) : Prop :=
  equals ∉ fieldname ∧ ∃ v, f = fieldname ++ equals :: v

/-- A field and the rest of the string behind it, if there is one. -/
def withRest (f : List Byte) : Option (List Byte) → List Byte
  | none => f
  | some q => f ++ ampersand :: q

theorem fields_withRest {f : List Byte} (hf : ampersand ∉ f) (rest : Option (List Byte)) :
    fields (withRest f rest) = f :: (rest.map fields).getD [] := by
  cases rest with
  | none => exact List.splitOn_eq_singleton hf
  | some q => exact List.splitOn_append_cons_self_of_not_mem hf q

/-- Every string starts with a field. -/
theorem exists_withRest (p : List Byte) : ∃ f rest, ampersand ∉ f ∧ p = withRest f rest := by
  by_cases h : ampersand ∈ p
  · obtain ⟨f, q, rfl, hf⟩ := List.eq_append_cons_of_mem h
    exact ⟨f, some q, hf, rfl⟩
  · exact ⟨p, none, h, rfl⟩

/-- A string has an `=` if one of its fields has. -/
theorem equals_mem_iff (p : List Byte) : equals ∈ p ↔ ∃ f ∈ fields p, equals ∈ f := by
  induction p using @Lexer.splitInduction Byte ampersand with
  | last f hf =>
    have hfields : fields f = [f] := fields_withRest hf none
    simp [hfields]
  | cons f q hf ih =>
    have hfields : fields (f ++ ampersand :: q) = f :: fields q := fields_withRest hf (some q)
    have hne : equals ≠ ampersand := by decide
    simp only [hfields, List.mem_append, List.mem_cons, ih, exists_eq_or_imp, hne, false_or]

/-! ## One turn -/

theorem strchr_append {t : List Byte} {c : Byte} (h : c ∉ t) (rest : List Byte) :
    strchr (t ++ c :: rest) c = some t.length := by
  unfold strchr
  rw [List.findIdx?_append, List.findIdx?_eq_none_iff.2, List.findIdx?_cons]
  · simp
  · intro x hx
    simpa using fun he : x = c => h (he ▸ hx)

theorem strchr_eq_none {p : List Byte} {c : Byte} (h : c ∉ p) : strchr p c = none := by
  unfold strchr
  rw [List.findIdx?_eq_none_iff]
  intro x hx
  simpa using fun he : x = c => h (he ▸ hx)

variable (behind : Byte) {fieldname f : List Byte} {rest : Option (List Byte)}

theorem strchr_ampersand (hf : ampersand ∉ f) (rest : Option (List Byte)) :
    strchr (withRest f rest) ampersand = rest.map fun _ => f.length := by
  cases rest with
  | none => exact strchr_eq_none hf
  | some q => exact strchr_append hf q

theorem length_field (f : List Byte) (rest : Option (List Byte)) :
    (rest.map fun _ => f.length).getD (withRest f rest).length = f.length := by
  cases rest <;> rfl

theorem drop_field (f : List Byte) (rest : Option (List Byte)) :
    (if ((withRest f rest).drop f.length).head? = some ampersand then
        ((withRest f rest).drop f.length).drop 1
      else (withRest f rest).drop f.length) = rest.getD [] := by
  cases rest <;> simp [withRest]

/-- A turn at a field, when the first `=` of the string is at `len1`. -/
theorem cgiTurn_of_some (hf : ampersand ∉ f) (rest : Option (List Byte)) {len1 : ℕ}
    (hp2 : strchr (withRest f rest) equals = some len1) :
    cgiTurn behind fieldname (withRest f rest) =
      if rest ≠ none ∧ pointerGt (some len1) (rest.map fun _ => f.length) then
        .next (withRest f rest)
      else if len1 = fieldname.length ∧ (withRest f rest).take len1 = fieldname then
        .found (unescstring behind ((withRest f rest).drop (len1 + 1)) (f.length - len1 - 1))
      else .next (rest.getD []) := by
  unfold cgiTurn
  simp only [hp2, strchr_ampersand hf, length_field, drop_field, ne_eq, Option.map_eq_none_iff,
    reduceCtorEq, false_or]

/-- A turn at a field, when the string has no `=`. -/
theorem cgiTurn_of_none (hf : ampersand ∉ f) (rest : Option (List Byte))
    (hp2 : strchr (withRest f rest) equals = none) :
    cgiTurn behind fieldname (withRest f rest) = .next (rest.getD []) := by
  unfold cgiTurn
  simp only [hp2, strchr_ampersand hf, length_field, drop_field, pointerGt, Bool.false_eq_true,
    and_false, if_false]

/-- The first `=` of a string that starts with a field with one. -/
theorem strchr_equals {n v : List Byte} (hn : equals ∉ n) (rest : Option (List Byte)) :
    strchr (withRest (n ++ equals :: v) rest) equals = some n.length := by
  cases rest with
  | none => exact strchr_append hn v
  | some q =>
    rw [withRest, List.append_assoc]
    exact strchr_append hn _

theorem pointerGt_field {n v : List Byte} (rest : Option (List Byte)) :
    ¬ (rest ≠ none ∧
      pointerGt (some n.length) (rest.map fun _ => (n ++ equals :: v).length)) := by
  cases rest with
  | none => simp
  | some q => simp [pointerGt]

theorem take_field (n v : List Byte) (rest : Option (List Byte)) :
    (withRest (n ++ equals :: v) rest).take n.length = n := by
  cases rest <;> simp [withRest]

theorem drop_name (n v : List Byte) (rest : Option (List Byte)) :
    (withRest (n ++ equals :: v) rest).drop (n.length + 1) = withRest v rest := by
  cases rest <;> simp [withRest, List.drop_append]

/-- A field with the given name is found. -/
theorem cgiTurn_named {v : List Byte} (hf : ampersand ∉ fieldname ++ equals :: v)
    (hn : equals ∉ fieldname) (rest : Option (List Byte)) :
    cgiTurn behind fieldname (withRest (fieldname ++ equals :: v) rest) =
      .found (unescstring behind (withRest v rest) v.length) := by
  have hlen : (fieldname ++ equals :: v).length - fieldname.length - 1 = v.length := by
    rw [List.length_append, List.length_cons]
    omega
  rw [cgiTurn_of_some behind hf rest (strchr_equals hn rest), if_neg (pointerGt_field rest),
    take_field, if_pos ⟨rfl, rfl⟩, drop_name, hlen]

/-- A field with another name is passed over. -/
theorem cgiTurn_other (hf : ampersand ∉ f) (he : equals ∈ f) (hne : ¬ Named fieldname f)
    (rest : Option (List Byte)) :
    cgiTurn behind fieldname (withRest f rest) = .next (rest.getD []) := by
  obtain ⟨n, v, rfl, hn⟩ := List.eq_append_cons_of_mem he
  rw [cgiTurn_of_some behind hf rest (strchr_equals hn rest), if_neg (pointerGt_field rest),
    take_field]
  refine if_neg fun h => hne ?_
  obtain rfl := h.2
  exact ⟨hn, v, rfl⟩

/-- A field without `=` is passed over if there is no `=` behind it. -/
theorem cgiTurn_bare (hf : ampersand ∉ f) (rest : Option (List Byte))
    (he : equals ∉ withRest f rest) :
    cgiTurn behind fieldname (withRest f rest) = .next (rest.getD []) :=
  cgiTurn_of_none behind hf rest (strchr_eq_none he)

/-- At a field without `=` the loop stays if there is an `=` behind it. -/
theorem cgiTurn_stays {q : List Byte} (hf : ampersand ∉ f) (he : equals ∉ f) (hq : equals ∈ q) :
    cgiTurn behind fieldname (withRest f (some q)) = .next (withRest f (some q)) := by
  obtain ⟨t, v, rfl, ht⟩ := List.eq_append_cons_of_mem hq
  have hnot : equals ∉ f ++ ampersand :: t := by
    rw [List.mem_append, List.mem_cons]
    rintro (h | h | h)
    · exact he h
    · exact absurd h (by decide)
    · exact ht h
  have hp2 : strchr (withRest f (some (t ++ equals :: v))) equals =
      some (f ++ ampersand :: t).length := by
    have happ : withRest f (some (t ++ equals :: v)) = f ++ ampersand :: t ++ equals :: v := by
      rw [withRest, List.append_assoc, List.cons_append]
    rw [happ]
    exact strchr_append hnot v
  have hgt : f.length < (f ++ ampersand :: t).length := by
    rw [List.length_append, List.length_cons]
    omega
  rw [cgiTurn_of_some behind hf _ hp2]
  refine if_pos ⟨Option.some_ne_none _, ?_⟩
  simpa only [Option.map_some, pointerGt, decide_eq_true_eq] using hgt

/-! ## The loop -/

/-- A turn that finds the field ends the loop. -/
theorem cgiLoop_of_found {k : ℕ} {p value : List Byte} (hp : p ≠ [])
    (h : cgiTurn behind fieldname p = .found value) :
    cgiLoop behind fieldname (k + 1) p = some (some value) := by
  unfold cgiLoop
  simp only [if_neg hp, h]

theorem cgiLoop_of_next {k : ℕ} {p q : List Byte} (hp : p ≠ [])
    (h : cgiTurn behind fieldname p = .next q) :
    cgiLoop behind fieldname (k + 1) p = cgiLoop behind fieldname k q := by
  conv_lhs => unfold cgiLoop
  simp only [if_neg hp, h]

/-- A loop that has ended stays so with more turns. -/
theorem cgiLoop_mono {k : ℕ} {p : List Byte} {value : Option (List Byte)}
    (h : cgiLoop behind fieldname k p = some value) :
    cgiLoop behind fieldname (k + 1) p = some value := by
  induction k generalizing p with
  | zero => cases h
  | succ k ih =>
    by_cases hp : p = []
    · subst hp
      exact h
    · cases ht : cgiTurn behind fieldname p with
      | found value =>
        rw [cgiLoop_of_found behind hp ht] at h ⊢
        exact h
      | next q =>
        rw [cgiLoop_of_next behind hp ht] at h ⊢
        exact ih h

theorem cgiLoop_le {j k : ℕ} (hjk : j ≤ k) {p : List Byte} {value : Option (List Byte)}
    (h : cgiLoop behind fieldname j p = some value) : cgiLoop behind fieldname k p = some value :=
  Nat.le_induction h (fun _ _ => cgiLoop_mono behind) k hjk

/-- The loop ends with one value. -/
theorem cgiLoop_unique {j k : ℕ} {p : List Byte} {v w : Option (List Byte)}
    (hv : cgiLoop behind fieldname j p = some v) (hw : cgiLoop behind fieldname k p = some w) :
    v = w := by
  have hv' := cgiLoop_le behind (Nat.le_max_left j k) hv
  have hw' := cgiLoop_le behind (Nat.le_max_right j k) hw
  exact Option.some_inj.1 (hv'.symm.trans hw')

/-- What the loop ends with is what `cgigetval` returns. -/
theorem cgigetval_of_loop {k : ℕ} {p : List Byte} {value : Option (List Byte)}
    (h : cgiLoop behind fieldname k p = some value) :
    cgigetval behind (some p) fieldname = .ok value := by
  simp only [cgigetval]
  cases hend : cgiLoop behind fieldname (p.length + 1) p with
  | none =>
    rw [cgiLoop_eq_none (Nat.lt_succ_self _) hend k] at h
    cases h
  | some value' => rw [cgiLoop_unique behind hend h]

theorem withRest_some_ne_nil (f q : List Byte) : withRest f (some q) ≠ [] := by
  rw [withRest]
  exact List.append_ne_nil_of_right_ne_nil f (List.cons_ne_nil _ _)

end PconTng.Scon
