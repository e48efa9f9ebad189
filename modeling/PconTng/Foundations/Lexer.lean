import Mathlib.Data.List.TakeWhile
import Mathlib.Tactic.Basic

/-!
# A grammar of tokens and strings

A line is cut at its delimiters into runs of text, but what stands between two quotes is one token,
with its delimiters and its quotes (`tokens`). A string that the line does not close goes on to the
end of the line and is marked with a blank.

The equations of `tokens` and its induction principle `lexInduction` follow the rules of the
grammar: nothing, a delimiter, a longest run, a closed string, a string without an end. For a list
that is cut at one separator, without strings, there is `splitInduction`.
-/

namespace PconTng

namespace Lexer

/-- A list has no separator, or it is a part without one, a separator and the rest. -/
@[elab_as_elim]
theorem splitInduction {α : Type*} {sep : α} {P : List α → Prop} (last : ∀ f, sep ∉ f → P f)
    (cons : ∀ f rest, sep ∉ f → P rest → P (f ++ sep :: rest)) (l : List α) : P l := by
  induction hn : l.length using Nat.strong_induction_on generalizing l with
  | _ n ih =>
    subst hn
    by_cases hsep : sep ∈ l
    · obtain ⟨f, rest, rfl, hf⟩ := List.eq_append_cons_of_mem hsep
      refine cons f rest hf (ih _ ?_ rest rfl)
      rw [List.length_append, List.length_cons]
      omega
    · exact last l hsep

variable {α : Type*} [DecidableEq α] (delim : α → Bool) (quote blank : α)

/-- A character that is neither a delimiter nor a quote. -/
def text (c : α) : Bool := !delim c && c ≠ quote

/-- The tokens of a line. -/
def tokens : List α → List (List α)
  | [] => []
  | c :: cs =>
    if delim c then tokens cs
    else if c = quote then
      match _h : cs.dropWhile (· ≠ quote) with
      | [] => [quote :: (cs ++ [blank])]
      | _ :: rest => (quote :: (cs.takeWhile (· ≠ quote) ++ [quote])) :: tokens rest
    else (c :: cs.takeWhile (text delim quote)) :: tokens (cs.dropWhile (text delim quote))
  termination_by l => l.length
  decreasing_by
    · exact Nat.lt_succ_self _
    · have hle := (List.dropWhile_suffix (· ≠ quote) : _ <:+ cs).length_le
      rw [_h, List.length_cons] at hle
      rw [List.length_cons]
      omega
    · exact Nat.lt_succ_of_le (List.dropWhile_suffix _).length_le

variable {delim quote blank}

theorem tokens_nil : tokens delim quote blank [] = [] := by
  rw [tokens]

theorem tokens_delim {c : α} (h : delim c) (cs : List α) :
    tokens delim quote blank (c :: cs) = tokens delim quote blank cs := by
  rw [tokens, if_pos h]

omit [DecidableEq α] in
theorem takeWhile_append_of_head {p : α → Bool} {w cs : List α} (hw : ∀ c ∈ w, p c)
    (hcs : ∀ c ∈ cs.head?, ¬ p c) : (w ++ cs).takeWhile p = w ∧ (w ++ cs).dropWhile p = cs := by
  rw [List.takeWhile_append_of_pos hw, List.dropWhile_append_of_pos hw]
  cases cs with
  | nil => simp
  | cons c cs =>
    have hc : p c = false := by simpa using hcs c rfl
    simp [hc]

theorem tokens_run {w cs : List α} (hne : w ≠ []) (hw : ∀ c ∈ w, text delim quote c)
    (hcs : ∀ c ∈ cs.head?, ¬ text delim quote c) :
    tokens delim quote blank (w ++ cs) = w :: tokens delim quote blank cs := by
  obtain ⟨c, w, rfl⟩ := List.exists_cons_of_ne_nil hne
  rw [List.forall_mem_cons] at hw
  have hc : delim c = false ∧ c ≠ quote := by simpa [text] using hw.1
  obtain ⟨htake, hdrop⟩ := takeWhile_append_of_head hw.2 hcs
  rw [List.cons_append, tokens, if_neg (by simp [hc.1]), if_neg hc.2, htake, hdrop]

theorem ne_quote_of_notMem {s : List α} (hs : quote ∉ s) : ∀ c ∈ s, decide (c ≠ quote) = true := by
  intro c hc
  simpa using fun h : c = quote => hs (h ▸ hc)

theorem tokens_string (hq : delim quote = false) {s : List α} (hs : quote ∉ s) (cs : List α) :
    tokens delim quote blank (quote :: (s ++ quote :: cs)) =
      (quote :: (s ++ [quote])) :: tokens delim quote blank cs := by
  have hhead : ∀ c ∈ (quote :: cs).head?, ¬ decide (c ≠ quote) = true := by simp
  obtain ⟨htake, hdrop⟩ := takeWhile_append_of_head (ne_quote_of_notMem hs) hhead
  rw [tokens, if_neg (by simp [hq]), if_pos rfl]
  split
  · rename_i h
    rw [hdrop] at h
    cases h
  · rename_i h
    rw [hdrop] at h
    cases h
    rw [htake]

theorem tokens_unclosed (hq : delim quote = false) {s : List α} (hs : quote ∉ s) :
    tokens delim quote blank (quote :: s) = [quote :: (s ++ [blank])] := by
  have hdrop : s.dropWhile (· ≠ quote) = [] := List.dropWhile_eq_nil_iff.2 (ne_quote_of_notMem hs)
  rw [tokens, if_neg (by simp [hq]), if_pos rfl]
  split
  · rfl
  · rename_i h
    rw [hdrop] at h
    cases h

/-- A property of lines that every rule of the grammar passes on holds of every line. -/
theorem lexInduction {P : List α → Prop} (nil : P [])
    (sep : ∀ c cs, delim c → P cs → P (c :: cs))
    (run : ∀ w cs, w ≠ [] → (∀ c ∈ w, text delim quote c) →
      (∀ c ∈ cs.head?, ¬ text delim quote c) → P cs → P (w ++ cs))
    (string : ∀ s cs, quote ∉ s → P cs → P (quote :: (s ++ quote :: cs)))
    (unclosed : ∀ s, quote ∉ s → P (quote :: s)) (l : List α) : P l := by
  induction hn : l.length using Nat.strong_induction_on generalizing l with
  | _ n ih =>
    subst hn
    cases l with
    | nil => exact nil
    | cons c cs =>
      by_cases hd : delim c
      · exact sep c cs hd (ih _ (Nat.lt_succ_self _) cs rfl)
      by_cases hc : c = quote
      · subst hc
        by_cases hmem : c ∈ cs
        · obtain ⟨s, rest, rfl, hs⟩ := List.eq_append_cons_of_mem hmem
          refine string s rest hs (ih _ ?_ rest rfl)
          simp only [List.length_cons, List.length_append]
          omega
        · exact unclosed cs hmem
      · -- the longest run
        have htext : text delim quote c := by simp [text, hd, hc]
        have happ : (c :: cs).takeWhile (text delim quote) ++ (c :: cs).dropWhile
            (text delim quote) = c :: cs := List.takeWhile_append_dropWhile
        have hne : (c :: cs).takeWhile (text delim quote) ≠ [] := by simp [htext]
        have hlt : ((c :: cs).dropWhile (text delim quote)).length < (c :: cs).length := by
          have hlen := congrArg List.length happ
          rw [List.length_append] at hlen
          have hpos := List.length_pos_iff.2 hne
          omega
        rw [← happ]
        refine run _ _ hne (fun c hc => List.mem_takeWhile_imp hc) (fun d hd => ?_)
          (ih _ hlt _ rfl)
        have hhead := List.head?_dropWhile_not (text delim quote) (c :: cs)
        rw [Option.mem_def.1 hd] at hhead
        simpa using hhead

/-- A line has a string when there is a quote in it. -/
theorem exists_string_iff (hq : delim quote = false) (l : List α) :
    (∃ t ∈ tokens delim quote blank l, t.head? = some quote) ↔ quote ∈ l := by
  induction l using @lexInduction α _ delim quote with
  | nil => simp [tokens_nil]
  | sep c cs hc ih =>
    have hne : quote ≠ c := by
      rintro rfl
      rw [hq] at hc
      cases hc
    rw [tokens_delim hc, ih, List.mem_cons, or_iff_right hne]
  | run w cs hne htext hmax ih =>
    have hw : quote ∉ w := fun hmem => by simpa [text] using htext _ hmem
    have hhead : w.head? ≠ some quote := fun h => hw (List.mem_of_mem_head? h)
    simp only [tokens_run hne htext hmax, List.mem_cons, exists_eq_or_imp, or_iff_right hhead, ih,
      List.mem_append, or_iff_right hw]
  | string s cs hs ih =>
    rw [tokens_string hq hs]
    exact iff_of_true ⟨_, List.mem_cons_self, rfl⟩ List.mem_cons_self
  | unclosed s hs =>
    rw [tokens_unclosed hq hs]
    exact iff_of_true ⟨_, List.mem_cons_self, rfl⟩ List.mem_cons_self

end Lexer

end PconTng
