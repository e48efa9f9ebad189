import PconTng.CharFsm.Tokenizer

/-!
# How long a line may be

The input buffer has room for a line of 58 characters with the terminators, but not for the blanks
that are stored at quotes, and a string that is left open is searched to the end of the buffer. A
line stays inside the buffers exactly when its tokens fit, with a character behind each of them
(`line_inside_iff`).
-/

namespace PconTng.CharFsm

open CMemory Lexer

/-- The tokens of a line with a character behind each of them, and with one more for a string that
is left open, leave a place for the terminator. -/
def Fits (line : List Byte) : Prop :=
  ((lineTokens line).map (·.length + 1)).sum + line.count quote % 2 < inputBufferSize

instance (line : List Byte) : Decidable (Fits line) := inferInstanceAs (Decidable (_ < _))

/-- How many characters are stored for a line. -/
theorem length_stores {l : List Byte} (hl : ∀ c ∈ l, Typed c) {st : Fin charStates}
    (hst : st = 0 ∨ st = 3) :
    (stores st (l ++ [carriageReturn])).length + l.count quote % 2 =
      ((tokensFrom st l).map (·.length + 1)).sum + 1 := by
  induction l using @lexInduction Byte _ isDelim quote generalizing st with
  | nil =>
    rcases hst with rfl | rfl
    · rewrite [tokensFrom_zero_nil]
      rfl
    · rewrite [tokensFrom_three_nil]
      rfl
  | sep c cs hc ih =>
    rw [List.forall_mem_cons] at hl
    have hne : c ≠ quote := fun he => by simp [he, isDelim_quote] at hc
    rw [List.cons_append, stores_delim _ hc hst, List.count_cons_of_ne hne, tokensFrom_delim hc]
    exact ih hl.2 hst
  | run w cs hne htext hmax ih =>
    rw [List.forall_mem_append] at hl
    obtain ⟨x, -, hstores⟩ := stores_afterRun hl.2 hmax
    have htail := ih hl.2 (.inr rfl)
    rw [tokensFrom_run hne htext hmax, List.append_assoc, stores_run _ hne hl.1 htext hst, hstores,
      List.count_append, count_quote_text htext, Nat.zero_add, List.length_append,
      List.length_cons, List.map_cons, List.sum_cons]
    omega
  | string t cs hq ih =>
    rw [List.forall_mem_cons, List.forall_mem_append, List.forall_mem_cons] at hl
    have htail := ih hl.2.2.2 (.inr rfl)
    rw [tokensFrom_string hq, stores_closed hst hl.2.1 hq, count_quote_string hq]
    simp only [List.length_cons, List.length_append, List.length_nil, List.map_cons, List.sum_cons]
    omega
  | unclosed t hq =>
    rw [List.forall_mem_cons] at hl
    rw [tokensFrom_unclosed hq, stores_open hst hl.2 hq, List.count_cons_self,
      List.count_eq_zero.2 hq]
    simp only [List.length_cons, List.length_append, List.length_nil, List.map_cons, List.map_nil,
      List.sum_cons, List.sum_nil]
    omega

/-- **A line stays inside the buffers exactly when it fits.** Every access to the input buffer and
to the temporary buffer is then at one of their places, and otherwise one is not. -/
theorem line_inside_iff (g : Globals) (line : List Byte) (hline : ∀ c ∈ line, Typed c) :
    (∃ g', (line ++ [carriageReturn]).foldlM charFsm (charFsmReset g) = .ok g') ↔ Fits line := by
  have hlen : (stores 0 (line ++ [carriageReturn])).length + line.count quote % 2 =
      ((lineTokens line).map (·.length + 1)).sum + 1 := length_stores hline (.inl rfl)
  unfold Fits
  by_cases hfull : inputBufferSize < (stores 0 (line ++ [carriageReturn])).length
  · have hrun := foldlM_charFsm_fault hline (fed_reset g) hfull
    rw [hrun]
    refine iff_of_false (fun ⟨g', hg'⟩ => by cases hg') ?_
    omega
  · obtain ⟨k, hk⟩ : ∃ k, (stores 0 (line ++ [carriageReturn])).length + k = inputBufferSize :=
      ⟨_, Nat.add_sub_of_le (not_lt.1 hfull)⟩
    obtain ⟨blocks, hrun, -⟩ := foldlM_charFsm_line g hline hk
    rw [hrun]
    split_ifs with hopen
    · refine iff_of_false (fun ⟨g', hg'⟩ => by cases hg') ?_
      omega
    · refine iff_of_true ⟨_, rfl⟩ ?_
      omega

theorem typed_replicate {c : Byte} (hc : Typed c) (n : ℕ) : ∀ b ∈ List.replicate n c, Typed b := by
  intro b hb
  rw [List.eq_of_mem_replicate hb]
  exact hc

/-- A line of the greatest length without a quote. -/
theorem line_inside_letters : ∃ g',
    (List.replicate 58 97 ++ [carriageReturn]).foldlM charFsm
      (charFsmReset ⟨.replicate _ 0, 0, 0, []⟩) = .ok g' :=
  (line_inside_iff _ _ (typed_replicate (by decide) 58)).2 (by decide +kernel)

/-- A line of quotes does not fit. -/
theorem line_not_inside : ¬ ∀ (g : Globals) (line : List Byte), line.length ≤ 58 →
    (∀ c ∈ line, Typed c) →
      ∃ g', (line ++ [carriageReturn]).foldlM charFsm (charFsmReset g) = .ok g' := by
  intro hall
  have htyped := typed_replicate (show Typed quote by decide) 58
  obtain ⟨g', hg'⟩ := hall ⟨.replicate _ 0, 0, 0, []⟩ _ List.length_replicate.le htyped
  have hrun : (List.replicate 58 quote ++ [carriageReturn]).foldlM charFsm
      (charFsmReset ⟨.replicate _ 0, 0, 0, []⟩) = .error .fault :=
    foldlM_charFsm_fault htyped (fed_reset _) (by decide +kernel)
  cases hrun.symm.trans hg'

end PconTng.CharFsm
