import PconTng.Foundations.Run
import PconTng.Pcon.Keys

/-!
# Writing outside the work buffer

`main` compares its pointer with `end_buff`, which lies behind the buffer, and accepts a character
when the two are the same. A character in the middle of the line, a delete and a carriage return
need more room than a character at the end, and are not guarded otherwise. So a run stays inside the
buffers exactly when each key finds the room that it needs (`keys_inside_iff`).
-/

namespace PconTng.LineEditor

open CharFsm

/-- **A run stays inside the buffers exactly when there is room for every key.** -/
theorem keys_inside_iff (stray : ℤ → Row) (ks : List Key) :
    (∃ s, ks.foldlM (step stray) Editor.start = .ok s) ↔
      Throughout (Room stray) (step stray) ks Editor.start :=
  foldlM_isOk_iff (fun _ _ _ h hs => h.step hs) (fun _ k h => step_isOk_iff h k) ks _ inv_start

/-- The letter a. -/
def letter : Key := .other ⟨97, by decide⟩

/-- The buffer has 60 places and `end_buff` is the 61st. -/
theorem keys_not_inside : ¬ ∀ (stray : ℤ → Row) (ks : List Key),
    ∃ s, ks.foldlM (step stray) Editor.start = .ok s := by
  intro hall
  obtain ⟨s, hs⟩ := hall (fun _ => .replicate _ 0) (List.replicate 61 letter)
  have hfault : ((List.replicate 61 letter).foldlM (step fun _ => .replicate _ 0)
      Editor.start).isOk = false := by decide +kernel
  rw [hs] at hfault
  cases hfault

end PconTng.LineEditor
