import Mathlib.Data.List.InsertIdx
import Mathlib.Tactic.Ring

/-!
# Arrays of C

An array is a `Vector`, indexed by the integers of the program. Writing outside the array, and
reading where the value matters, is a memory fault (`store`, `load`); a read whose value is
whatever lies outside is a `peek` with a function `stray` for the memory around the array.

The two loops that move a block of records by one place, `shiftUp` and `shiftDown`, and the loop
that looks for the first record with a property, `search`, are related to `insertIdx`, `eraseIdx`
and `findIdx?` on the list of the first `k` elements. In `shiftUpWith` and `shiftDownWith` the way
of reading an element is a parameter, so that a read outside the array can be told from one inside.
-/

namespace PconTng

/-- How a routine can end other than by returning: the program exits, or a fault of memory. -/
inductive Stop
  | exit
  | fault
  deriving DecidableEq, Repr

/-- How a sequence of two routines returns. -/
theorem bind_eq_ok {ε α β : Type} {x : Except ε α} {f : α → Except ε β} {b : β} :
    (x >>= f) = .ok b ↔ ∃ a, x = .ok a ∧ f a = .ok b := by
  cases x with
  | error e => exact ⟨fun h => (by cases h), fun ⟨_, h, _⟩ => (by cases h)⟩
  | ok a => exact ⟨fun h => ⟨a, rfl, h⟩, fun ⟨_, h, hf⟩ => (Except.ok.inj h) ▸ hf⟩

section

variable {ε α β : Type*}

/-- What holds of some result holds of the result. -/
theorem of_exists_ok {x : Except ε (α × β)} {P : α → β → Prop}
    (h : ∃ a b, x = .ok (a, b) ∧ P a b) {a : α} {b : β} (hx : x = .ok (a, b)) : P a b := by
  obtain ⟨a', b', hx', hP⟩ := h
  cases hx.symm.trans hx'
  exact hP

theorem exists_ok_of_isOk {x : Except ε α} (h : x.isOk = true) : ∃ a, x = .ok a := by
  cases x with
  | error e => cases h
  | ok a => exact ⟨a, rfl⟩

theorem exists_ok_of_map_toOption {x : Except ε α} {f : α → β} {b : β}
    (h : x.toOption.map f = some b) : ∃ a, x = .ok a ∧ f a = b := by
  cases x with
  | error e => cases h
  | ok a => exact ⟨a, rfl, Option.some.inj h⟩

end

namespace CArray

variable {α : Type} {n : ℕ}

/-- The value of `a[i]`. -/
def load (a : Vector α n) (i : ℤ) : Except Stop α :=
  if h : 0 ≤ i ∧ i.toNat < n then .ok a[i.toNat] else .error .fault

/-- The assignment `a[i] = x`. -/
def store (a : Vector α n) (i : ℤ) (x : α) : Except Stop (Vector α n) :=
  if h : 0 ≤ i ∧ i.toNat < n then .ok (a.set i.toNat x) else .error .fault

/-- The value of `a[i]`, `stray i` lying in memory where `i` is not an index of the array. -/
def peek (stray : ℤ → α) (a : Vector α n) (i : ℤ) : α :=
  if h : 0 ≤ i ∧ i.toNat < n then a[i.toNat] else stray i

@[simp] theorem get_eq (a : Vector α n) (i : Fin n) : a.get i = getElem a i.val i.isLt := rfl

@[simp] theorem load_natCast (a : Vector α n) {i : ℕ} (h : i < n) : load a i = .ok a[i] := by
  simp [load, h]

@[simp] theorem store_natCast (a : Vector α n) {i : ℕ} (h : i < n) (x : α) :
    store a i x = .ok (a.set i x) := by
  simp [store, h]

theorem load_of_not (a : Vector α n) {i : ℤ} (h : ¬ (0 ≤ i ∧ i < n)) :
    load a i = .error .fault := by
  have hi : ¬ (0 ≤ i ∧ i.toNat < n) := by omega
  rw [load, dif_neg hi]

theorem store_of_le (a : Vector α n) {i : ℕ} (h : n ≤ i) (x : α) :
    store a i x = .error .fault := by
  have hi : ¬ (0 ≤ (i : ℤ) ∧ (i : ℤ).toNat < n) := by omega
  rw [store, dif_neg hi]

@[simp] theorem peek_natCast (stray : ℤ → α) (a : Vector α n) {i : ℕ} (h : i < n) :
    peek stray a i = a[i] := by
  simp [peek, h]

theorem store_eq_ok {a b : Vector α n} {i : ℤ} {x : α} (h : store a i x = .ok b) :
    ∃ hi : i.toNat < n, 0 ≤ i ∧ b = a.set i.toNat x := by
  unfold store at h
  split at h
  · rename_i hi
    exact ⟨hi.2, hi.1, (Except.ok.inj h).symm⟩
  · cases h

/-! ## Loops -/

/-- `while (k-- > 0) { if (p(a[i])) return i; i++; }`, nothing when the loop runs out. -/
def search (p : α → Bool) (a : Vector α n) : ℕ → ℕ → Except Stop (Option ℕ)
  | 0, _ => .ok none
  | k + 1, i => do
    if p (← load a i) then .ok (some i) else search p a k (i + 1)

/-- `while (k-- > 0) { a[i] = a[i - 1]; i--; }` -/
def shiftUp (stray : ℤ → α) : ℕ → ℤ → Vector α n → Except Stop (Vector α n)
  | 0, _, a => .ok a
  | k + 1, i, a => do
    let a ← store a i (peek stray a (i - 1))
    shiftUp stray k (i - 1) a

/-- `while (k-- > 0) { a[i] = a[i + 1]; i++; }` -/
def shiftDown (stray : ℤ → α) : ℕ → ℤ → Vector α n → Except Stop (Vector α n)
  | 0, _, a => .ok a
  | k + 1, i, a => do
    let a ← store a i (peek stray a (i + 1))
    shiftDown stray k (i + 1) a

/-- `for (j = i; j < i + k; j++) s = f(j, s);` -/
def forLoop {σ : Type} (f : ℕ → σ → Except Stop σ) : ℕ → ℕ → σ → Except Stop σ
  | 0, _, s => .ok s
  | k + 1, i, s => do forLoop f k (i + 1) (← f i s)

/-- What each turn of a counting loop keeps, its counter going up, holds after the loop. -/
theorem forLoop_ok {σ : Type} {f : ℕ → σ → Except Stop σ} (I : ℕ → σ → Prop) {k : ℕ} :
    ∀ {i : ℕ} {s : σ}, (∀ j s, i ≤ j → j < i + k → I j s → ∃ s', f j s = .ok s' ∧ I (j + 1) s') →
      I i s → ∃ s', forLoop f k i s = .ok s' ∧ I (i + k) s' := by
  induction k with
  | zero => exact fun _ h => ⟨_, rfl, h⟩
  | succ k ih =>
    intro i s step h
    obtain ⟨s₁, hs₁, h₁⟩ := step i s le_rfl (by omega) h
    obtain ⟨s₂, hs₂, h₂⟩ :=
      ih (fun j s hj hjk => step j s (by omega) (by omega)) h₁
    refine ⟨s₂, ?_, by rwa [show i + (k + 1) = i + 1 + k by omega]⟩
    simp only [forLoop, hs₁, bind, Except.bind]
    exact hs₂

/-- The first `k` elements. -/
def front (a : Vector α n) (k : ℕ) : List α := a.toList.take k

@[simp] theorem length_front (a : Vector α n) {k : ℕ} (h : k ≤ n) : (front a k).length = k := by
  simp [front, h]

@[simp] theorem getElem_front (a : Vector α n) {k i : ℕ} (h : i < (front a k).length) :
    (front a k)[i] = getElem a i (by simp [front] at h; omega) := by
  simp [front]

theorem search_eq (p : α → Bool) (a : Vector α n) {k : ℕ} :
    ∀ {i : ℕ}, i + k ≤ n →
      search p a k i = .ok ((((front a (i + k)).drop i).findIdx? p).map (i + ·)) := by
  induction k with
  | zero => intro i h; simp [search, front]
  | succ k ih =>
    intro i h
    have hi : i < (front a (i + (k + 1))).length := by rw [length_front a h]; omega
    rw [List.drop_eq_getElem_cons hi, List.findIdx?_cons, getElem_front]
    simp only [search, load_natCast a (by omega : i < n), bind, Except.bind]
    by_cases hp : p a[i] = true
    · simp [hp]
    · rw [if_neg hp, if_neg hp, @ih (i + 1) (by omega), Option.map_map,
        show i + 1 + k = i + (k + 1) by omega]
      congr 2
      funext j
      simp only [Function.comp_apply]
      omega

/-- The loop over the first `k` elements from the start. -/
theorem search_zero (p : α → Bool) (a : Vector α n) {k : ℕ} (h : k ≤ n) :
    search p a k 0 = .ok ((front a k).findIdx? p) := by
  simpa using search_eq p a (by omega : 0 + k ≤ n)

/-! ## What the moves of a block do -/

theorem shiftUp_eq (stray : ℤ → α) {k : ℕ} :
    ∀ {lo : ℕ} (a : Vector α n), lo + k ≤ n → ∃ b : Vector α n,
      shiftUp stray k (lo + k - 1 : ℤ) a = .ok b ∧
      ∀ (j : ℕ) (hj : j < n),
        b[j] = if lo ≤ j ∧ j < lo + k then peek stray a (j - 1) else a[j] := by
  induction k with
  | zero => intro lo a _; exact ⟨a, rfl, fun j hj => by rw [if_neg (by omega)]⟩
  | succ k ih =>
    intro lo a h
    -- the last place of the block receives its lower neighbour, then the rest of the block moves
    have hst : store a (lo + (k + 1 : ℕ) - 1 : ℤ) (peek stray a (lo + (k + 1 : ℕ) - 1 - 1)) =
        .ok (a.set (lo + k) (peek stray a (lo + k - 1))) := by
      have e : (lo + (k + 1 : ℕ) - 1 : ℤ) = (lo + k : ℕ) := by push_cast; ring
      rw [e, store_natCast _ (by omega)]
      push_cast
      rfl
    obtain ⟨b, hb, hbj⟩ := @ih lo (a.set (lo + k) (peek stray a (lo + k - 1))) (by omega)
    refine ⟨b, ?_, fun j hj => ?_⟩
    · simp only [shiftUp, hst, bind, Except.bind]
      rw [← hb]
      congr 1
      push_cast
      ring
    · rw [hbj j hj]
      by_cases hlt : lo ≤ j ∧ j < lo + k
      · rw [if_pos hlt, if_pos (by omega)]
        unfold peek
        split
        · rename_i hjn
          rw [Vector.getElem_set_ne _ _ (by omega)]
        · rfl
      · rw [if_neg hlt, Vector.getElem_set]
        by_cases hj' : lo + k = j
        · rw [if_pos hj', if_pos (by omega)]
          subst hj'
          push_cast
          rfl
        · rw [if_neg hj', if_neg (by omega)]

theorem shiftDown_eq (stray : ℤ → α) {k : ℕ} :
    ∀ {lo : ℕ} (a : Vector α n), lo + k ≤ n → ∃ b : Vector α n,
      shiftDown stray k lo a = .ok b ∧
      ∀ (j : ℕ) (hj : j < n),
        b[j] = if lo ≤ j ∧ j < lo + k then peek stray a (j + 1) else a[j] := by
  induction k with
  | zero => intro lo a _; exact ⟨a, rfl, fun j hj => by rw [if_neg (by omega)]⟩
  | succ k ih =>
    intro lo a h
    obtain ⟨b, hb, hbj⟩ := @ih (lo + 1) (a.set lo (peek stray a (lo + 1))) (by omega)
    refine ⟨b, ?_, fun j hj => ?_⟩
    · simp only [shiftDown, store_natCast a (by omega : lo < n), bind, Except.bind]
      rw [← hb]
      push_cast
      rfl
    · rw [hbj j hj]
      by_cases hlt : lo + 1 ≤ j ∧ j < lo + 1 + k
      · rw [if_pos hlt, if_pos (by omega)]
        unfold peek
        split
        · rw [Vector.getElem_set_ne _ _ (by omega)]
        · rfl
      · rw [if_neg hlt, Vector.getElem_set]
        by_cases hj' : lo = j
        · rw [if_pos hj', if_pos (by omega)]
          subst hj'
          rfl
        · rw [if_neg hj', if_neg (by omega)]

/-- Making room for `x` at index `i` of the first `k` elements and storing it there. -/
def insertAt (stray : ℤ → α) (a : Vector α n) (i k : ℕ) (x : α) : Except Stop (Vector α n) := do
  let a ← shiftUp stray (k - i + 1) k a
  store a i x

/-- Every element of `b` is one of `a`, or satisfies `P`. -/
def From (P : α → Prop) (a b : Vector α n) : Prop :=
  ∀ (j : ℕ) (hj : j < n), P b[j] ∨ ∃ (m : ℕ) (hm : m < n), b[j] = a[m]

theorem store_set (a : Vector α n) {i k : ℕ} (hi : i < k) (hk : k ≤ n) (x : α) :
    ∃ b, store a i x = .ok b ∧ front b k = (front a k).set i x ∧ From (· = x) a b := by
  refine ⟨a.set i x, store_natCast a (by omega) x, ?_, fun j hj => ?_⟩
  · rw [front, Vector.toList_set, List.take_set]
    rfl
  · rw [Vector.getElem_set]
    split
    · exact .inl rfl
    · exact .inr ⟨j, hj, rfl⟩

theorem store_append (a : Vector α n) {k : ℕ} (hk : k < n) (x : α) :
    ∃ b, store a k x = .ok b ∧ front b (k + 1) = (front a k).insertIdx k x ∧
      From (· = x) a b := by
  obtain ⟨b, hb, hfront, hfrom⟩ := store_set a (Nat.lt_succ_self k) hk x
  refine ⟨b, hb, ?_, hfrom⟩
  have hlen : (front a k).length = k := length_front a hk.le
  have hend : (front a k).insertIdx k x = front a k ++ [x] := by
    have h := List.insertIdx_length_self (l := front a k) (x := x)
    rwa [hlen] at h
  rw [hfront, hend, front, List.take_add_one]
  simp [front, hk, Nat.min_eq_left hk.le]

theorem insertAt_eq (stray : ℤ → α) (a : Vector α n) {i k : ℕ} (hi : i ≤ k) (hk : k < n) (x : α) :
    ∃ b, insertAt stray a i k x = .ok b ∧ front b (k + 1) = (front a k).insertIdx i x ∧
      From (· = x) a b := by
  obtain ⟨b, hb, hbj⟩ := @shiftUp_eq _ _ stray (k - i + 1) i a (by omega)
  have hstart : (i + (k - i + 1 : ℕ) - 1 : ℤ) = k := by omega
  rw [hstart] at hb
  refine ⟨b.set i x, ?_, ?_, fun j hj => ?_⟩
  · simp only [insertAt, hb, bind, Except.bind]
    exact store_natCast b (by omega) x
  · have hlen : (front a k).length = k := length_front a hk.le
    refine List.ext_getElem ?_ fun j hj hj' => ?_
    · rw [length_front _ (by omega), List.length_insertIdx_of_le_length (by omega), hlen]
    · have hjk : j < k + 1 := by rwa [length_front _ (by omega)] at hj
      rw [getElem_front, Vector.getElem_set, List.getElem_insertIdx]
      by_cases hij : i = j
      · rw [if_pos hij, dif_neg (by omega), dif_pos hij.symm]
      · rw [if_neg hij, hbj j (by omega)]
        by_cases hlt : j < i
        · rw [if_neg (by omega), dif_pos hlt, getElem_front]
        · rw [if_pos (by omega), dif_neg hlt, dif_neg (by omega), getElem_front]
          have e : (j - 1 : ℤ) = (j - 1 : ℕ) := by omega
          rw [e, peek_natCast stray a (by omega)]
  · rw [Vector.getElem_set]
    by_cases hij : i = j
    · exact .inl (if_pos hij)
    · rw [if_neg hij, hbj j hj]
      by_cases hlt : i ≤ j ∧ j < i + (k - i + 1)
      · have e : (j - 1 : ℤ) = (j - 1 : ℕ) := by omega
        rw [if_pos hlt, e, peek_natCast stray a (by omega)]
        exact .inr ⟨j - 1, by omega, rfl⟩
      · rw [if_neg hlt]
        exact .inr ⟨j, hj, rfl⟩

theorem shiftDown_erase (stray : ℤ → α) (a : Vector α n) {i k : ℕ} (hi : i < k) (hk : k ≤ n) :
    ∃ b, shiftDown stray (k - 1 - i) i a = .ok b ∧ front b (k - 1) = (front a k).eraseIdx i ∧
      From (fun _ => False) a b := by
  obtain ⟨b, hb, hbj⟩ := @shiftDown_eq _ _ stray (k - 1 - i) i a (by omega)
  refine ⟨b, hb, ?_, fun j hj => .inr ?_⟩
  · have hlen : (front a k).length = k := length_front a hk
    refine List.ext_getElem ?_ fun j hj hj' => ?_
    · rw [length_front _ (by omega), List.length_eraseIdx_of_lt (by omega), hlen]
    · have hjk : j < k - 1 := by rwa [length_front _ (by omega)] at hj
      rw [getElem_front, hbj j (by omega), List.getElem_eraseIdx]
      by_cases hlt : j < i
      · rw [if_neg (by omega), dif_pos hlt, getElem_front]
      · have e : (j + 1 : ℤ) = (j + 1 : ℕ) := by omega
        rw [if_pos (by omega), dif_neg hlt, e, peek_natCast stray a (by omega), getElem_front]
  · rw [hbj j hj]
    by_cases hlt : i ≤ j ∧ j < i + (k - 1 - i)
    · have e : (j + 1 : ℤ) = (j + 1 : ℕ) := by omega
      rw [if_pos hlt, e, peek_natCast stray a (by omega)]
      exact ⟨j + 1, by omega, rfl⟩
    · rw [if_neg hlt]
      exact ⟨j, hj, rfl⟩

/-! ## How the loops read

The two loops again, with the way of reading an element as a parameter. With `peek` they are the
loops above; with `load` a read outside the array is a fault. -/

section Reads

variable (read : Vector α n → ℤ → Except Stop α)

/-- `while (k-- > 0) { a[i] = a[i - 1]; i--; }` -/
def shiftUpWith : ℕ → ℤ → Vector α n → Except Stop (Vector α n)
  | 0, _, a => .ok a
  | k + 1, i, a => do
    let x ← read a (i - 1)
    let a ← store a i x
    shiftUpWith k (i - 1) a

/-- `while (k-- > 0) { a[i] = a[i + 1]; i++; }` -/
def shiftDownWith : ℕ → ℤ → Vector α n → Except Stop (Vector α n)
  | 0, _, a => .ok a
  | k + 1, i, a => do
    let x ← read a (i + 1)
    let a ← store a i x
    shiftDownWith k (i + 1) a

/-- Making room for `x` at index `i` of the first `k` elements and storing it there. -/
def insertAtWith (a : Vector α n) (i k : ℕ) (x : α) : Except Stop (Vector α n) := do
  let a ← shiftUpWith read (k - i + 1) k a
  store a i x

end Reads

theorem shiftUpWith_peek (stray : ℤ → α) :
    shiftUpWith (fun (a : Vector α n) j => .ok (peek stray a j)) = shiftUp stray := by
  funext k
  induction k with
  | zero => rfl
  | succ k ih =>
    funext i a
    rw [shiftUpWith, ih]
    rfl

theorem insertAtWith_peek (stray : ℤ → α) :
    insertAtWith (fun (a : Vector α n) j => .ok (peek stray a j)) = insertAt stray := by
  funext a i k x
  rw [insertAtWith, shiftUpWith_peek]
  rfl

theorem shiftDownWith_peek (stray : ℤ → α) :
    shiftDownWith (fun (a : Vector α n) j => .ok (peek stray a j)) = shiftDown stray := by
  funext k
  induction k with
  | zero => rfl
  | succ k ih =>
    funext i a
    rw [shiftDownWith, ih]
    rfl

/-- Making room behind an element reads inside the array. -/
theorem shiftUpWith_load (stray : ℤ → α) {k lo : ℕ} (hlo : 0 < lo) (a : Vector α n)
    (h : lo + k ≤ n) :
    shiftUpWith load k (lo + k - 1 : ℤ) a = shiftUp stray k (lo + k - 1 : ℤ) a := by
  induction k generalizing a with
  | zero => rfl
  | succ k ih =>
    have htop : (lo + (k + 1 : ℕ) - 1 : ℤ) = (lo + k : ℕ) := by push_cast; ring
    have hread : ((lo + k : ℕ) - 1 : ℤ) = (lo + k - 1 : ℕ) := by omega
    have hnext : ((lo + k - 1 : ℕ) : ℤ) = lo + k - 1 := by omega
    rw [htop, shiftUpWith, shiftUp, hread, load_natCast a (by omega),
      peek_natCast stray a (by omega), hnext]
    simp only [bind, Except.bind]
    rw [store_natCast a (by omega)]
    exact ih _ (by omega)

/-- Making room in front of the first element reads outside the array. -/
theorem shiftUpWith_load_zero {k : ℕ} (a : Vector α n) (h : k < n) :
    shiftUpWith load (k + 1) k a = .error .fault := by
  induction k generalizing a with
  | zero => rfl
  | succ k ih =>
    have hread : ((k + 1 : ℕ) - 1 : ℤ) = k := by omega
    rw [shiftUpWith, hread, load_natCast a (by omega)]
    simp only [bind, Except.bind]
    rw [store_natCast a h]
    exact ih _ (by omega)

theorem insertAtWith_load (stray : ℤ → α) (a : Vector α n) {i k : ℕ} (hi : 0 < i) (hik : i ≤ k)
    (hk : k < n) (x : α) : insertAtWith load a i k x = insertAt stray a i k x := by
  have hshift := shiftUpWith_load stray (k := k - i + 1) hi a (by omega)
  have htop : (i + (k - i + 1 : ℕ) - 1 : ℤ) = k := by omega
  rw [htop] at hshift
  rw [insertAtWith, insertAt, hshift]

theorem insertAtWith_load_zero (a : Vector α n) {k : ℕ} (hk : k < n) (x : α) :
    insertAtWith load a 0 k x = .error .fault := by
  rw [insertAtWith, Nat.sub_zero, shiftUpWith_load_zero a hk]
  rfl

/-- Closing a gap in the first elements reads inside the array. -/
theorem shiftDownWith_load (stray : ℤ → α) {k lo : ℕ} (a : Vector α n) (h : lo + k < n) :
    shiftDownWith load k lo a = shiftDown stray k lo a := by
  induction k generalizing lo a with
  | zero => rfl
  | succ k ih =>
    have hread : (lo + 1 : ℤ) = (lo + 1 : ℕ) := by push_cast; rfl
    rw [shiftDownWith, shiftDown, hread, load_natCast a (by omega),
      peek_natCast stray a (by omega)]
    simp only [bind, Except.bind]
    rw [store_natCast a (by omega)]
    exact @ih (lo + 1) _ (by omega)

end CArray

end PconTng
