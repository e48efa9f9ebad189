import PconTng.CharFsm.Tokenizer
import PconTng.CmdFsm.Library
import PconTng.CmdFsm.Selection

/-!
# Strings in their fields

Four routines copy a string of the user to a field: `c_5` the name of a channel, `c_51` the name of
a template, `c_20` and `c_21` the hour and the minute as they were typed. `c_69` and `c_70`, which
copy the texts of a sensor, refuse a string by its length; these four do not. Each changes nothing
but the field exactly when the string leaves a place for the terminator (`kept_iff`).
-/

namespace PconTng.Destinations

open CMemory CArray CmdFsm Library

/-- What the string is copied to. -/
inductive Dest
  | channelName
  | templateName
  | hour
  | minute

namespace Dest

/-- The routine that copies. -/
def act : Dest → Action
  | .channelName => c5
  | .templateName => c51
  | .hour => c20
  | .minute => c21

/-- The number of characters in the field. -/
def size : Dest → ℕ
  | .channelName => channelNameSize
  | .templateName => templateNameSize
  | .hour => 4
  | .minute => 4

/-- The string that is copied. -/
def text (w : World) : Dest → List Byte
  | .channelName => dequote w.cb.token.bytes
  | .templateName => dequote w.cb.token.bytes
  | .hour => w.cb.token.bytes
  | .minute => w.cb.token.bytes

/-- What the routine checks before it copies. -/
def Accepts (w : World) : Dest → Prop
  | .channelName => True
  | .templateName => w.ipc.sysData.tplIndex + 1 ≤ maxTemplates
  | .hour => 0 ≤ w.cb.tokenValue ∧ w.cb.tokenValue ≤ 23
  | .minute => 0 ≤ w.cb.tokenValue ∧ w.cb.tokenValue ≤ 59

/-- The field is there: the number of the channel or of the template is one of an array. -/
def There (w : World) : Dest → Prop
  | .channelName => 0 ≤ w.cb.wChannel ∧ w.cb.wChannel < numberOfChannels
  | .templateName => 0 ≤ w.ipc.sysData.tplIndex
  | _ => True

/-- The routine succeeds, the field then holds the string, and nothing else has changed but what the
routine is for: the number that was typed, and for a template its place in the library, with the
edit buffer emptied. -/
def Kept (w : World) : Dest → Prop
  | .channelName => ∃ (i : Fin numberOfChannels) (name : Vector Byte channelNameSize),
      w.cb.wChannel = i.val ∧ cString name.toList = .ok (dequote w.cb.token.bytes) ∧
      c5 w = .ok ((w.setSysData { w.ipc.sysData with
          cData := w.ipc.sysData.cData.set i { w.ipc.sysData.cData.get i with name := name }
            i.isLt }).setCb
        { w.cb with token := w.cb.token.dequote }, 0)
  | .templateName => ∃ (i : Fin maxTemplates) (name : Vector Byte templateNameSize),
      w.ipc.sysData.tplIndex = i.val ∧ cString name.toList = .ok (dequote w.cb.token.bytes) ∧
      c51 w = .ok ((w.setSysData { w.ipc.sysData with
          tplLib := w.ipc.sysData.tplLib.set i { w.cb.wTemplateBuffer with name := name } i.isLt
          tplIndex := w.ipc.sysData.tplIndex + 1 }).setCb
        { w.cb with
          token := w.cb.token.dequote
          wTemplateBuffer := { w.cb.wTemplateBuffer with rcnt := 0 } }, 0)
  | .hour => ∃ text : Vector Byte 4, cString text.toList = .ok w.cb.token.bytes ∧
      c20 w = .ok (w.setCb { w.cb with wHours := w.cb.tokenValue, wHoursStr := text }, 0)
  | .minute => ∃ text : Vector Byte 4, cString text.toList = .ok w.cb.token.bytes ∧
      c21 w = .ok (w.setCb { w.cb with wMinutes := w.cb.tokenValue, wMinutesStr := text }, 0)

end Dest

/-- The control block holds a token of a line of at most 58 characters, as it is when it has been
read. -/
structure Delivered (w : World) : Prop where
  line : ∃ line, line.length ≤ 58 ∧ (∀ c ∈ line, CharFsm.Typed c) ∧
    w.cb.token.bytes ∈ CharFsm.lineTokens line
  read : ∃ cb row, readToken cb = .ok (w.cb, row)

/-! ## Strings that fit -/

theorem length_append_nul_le {bs : List Byte} {n : ℕ} (h : bs.length < n) :
    (bs ++ [0]).length ≤ n := by
  rw [List.length_append, List.length_singleton]
  exact h

theorem pokeStr_nil {n : ℕ} (s : Vector Byte n) : pokeStr s [] = (s, []) := by
  simp [pokeStr]

theorem pokeGroup_nil (s : SenDat) : pokeGroup s [] = s := by
  simp only [pokeGroup, pokeStr_nil]

theorem pokeTmpl_nil (t : TmplDat) : pokeTmpl t [] = t := by
  rw [Schedules.pokeTmpl_eq, pokeStr_nil, pokeInt_nil, Schedules.pokeRecs_nil]

theorem pokeName_of_short (c : ChnDat) {bs : List Byte} (h : bs.length < channelNameSize) :
    pokeName c (bs ++ [0]) = ({ c with name := (pokeStr c.name (bs ++ [0])).1 }, []) := by
  have hrest := pokeStr_rest c.name (length_append_nul_le h)
  simp only [pokeName, hrest, pokeInt_nil]

theorem pokeHoursStr_nil (cb : CmdFsmCb) : pokeHoursStr cb [] = cb := by
  simp only [pokeHoursStr, pokeStr_nil, pokeInt_nil, List.drop_nil, pokeGroup_nil]

theorem pokeHoursStr_of_short (cb : CmdFsmCb) {bs : List Byte} (h : bs.length < 4) :
    pokeHoursStr cb (bs ++ [0]) =
      { cb with wHoursStr := (pokeStr cb.wHoursStr (bs ++ [0])).1 } := by
  have hrest := pokeStr_rest cb.wHoursStr (length_append_nul_le h)
  simp only [pokeHoursStr, hrest, pokeInt_nil, List.drop_nil, pokeGroup_nil]

theorem pokeMinutesStr_of_short (cb : CmdFsmCb) {bs : List Byte} (h : bs.length < 4) :
    pokeMinutesStr cb (bs ++ [0]) =
      { cb with wMinutesStr := (pokeStr cb.wMinutesStr (bs ++ [0])).1 } := by
  have hrest := pokeStr_rest cb.wMinutesStr (length_append_nul_le h)
  simp only [pokeMinutesStr, hrest, pokeInt_nil, pokeHoursStr_nil]

theorem zero_notMem_dequote (t : Token) : 0 ∉ dequote t.bytes := t.dequote.noNul

/-! ## What the routines do with them -/

variable {w : World}

theorem c5_of_short {i : Fin numberOfChannels} (hi : w.cb.wChannel = i.val)
    (h : (dequote w.cb.token.bytes).length < channelNameSize) : Dest.channelName.Kept w := by
  refine ⟨i, (pokeStr (w.ipc.sysData.cData.get i).name (dequote w.cb.token.bytes ++ [0])).1, hi,
    cString_pokeStr _ h (zero_notMem_dequote _), ?_⟩
  have hpoke := pokeName_of_short (w.ipc.sysData.cData.get i) h
  -- nothing is left for the next channel, and so nothing for the library behind the last one
  have hlib : w.ipc.sysData.tplLib.set 0 (pokeTmpl w.ipc.sysData.tplLib[0] []) =
      w.ipc.sysData.tplLib := by
    rw [pokeTmpl_nil]
    exact Vector.set_getElem_self _
  unfold c5
  simp only [hi, load_natCast _ i.isLt, store_natCast _ i.isLt, bind, Except.bind]
  rw [← get_eq]
  simp only [Token.dequote, hpoke, pokeChannels_nil, hlib]
  rfl

theorem c51_of_short {i : Fin maxTemplates} (hi : w.ipc.sysData.tplIndex = i.val)
    (h : (dequote w.cb.token.bytes).length < templateNameSize) : Dest.templateName.Kept w := by
  refine ⟨i, (pokeStr w.cb.wTemplateBuffer.name (dequote w.cb.token.bytes ++ [0])).1, hi,
    cString_pokeStr _ h (zero_notMem_dequote _), ?_⟩
  have hfull : ¬ w.ipc.sysData.tplIndex + 1 > maxTemplates := by
    have := i.isLt
    omega
  unfold c51
  dsimp only
  rw [if_neg hfull, Token.dequote, pokeTmpl_eq_named _ (Nat.le_of_lt_succ h), named, hi,
    store_natCast _ i.isLt]
  rfl

theorem c20_of_short (hvalue : Dest.hour.Accepts w) (h : w.cb.token.bytes.length < 4) :
    Dest.hour.Kept w := by
  refine ⟨_, cString_pokeStr w.cb.wHoursStr h w.cb.token.noNul, ?_⟩
  have hin : ¬ (w.cb.tokenValue > 23 ∨ w.cb.tokenValue < 0) := by
    unfold Dest.Accepts at hvalue
    omega
  rw [c20, if_neg hin, pokeHoursStr_of_short _ h]

theorem c21_of_short (hvalue : Dest.minute.Accepts w) (h : w.cb.token.bytes.length < 4) :
    Dest.minute.Kept w := by
  refine ⟨_, cString_pokeStr w.cb.wMinutesStr h w.cb.token.noNul, ?_⟩
  have hin : ¬ (w.cb.tokenValue > 59 ∨ w.cb.tokenValue < 0) := by
    unfold Dest.Accepts at hvalue
    omega
  rw [c21, if_neg hin, pokeMinutesStr_of_short _ h]

/-- The string has been found in the field. -/
theorem Dest.Kept.length_lt {d : Dest} (h : d.Kept w) : (d.text w).length < d.size := by
  cases d with
  | channelName =>
    obtain ⟨i, name, -, hname, -⟩ := h
    exact length_lt_of_cString hname
  | templateName =>
    obtain ⟨i, name, -, hname, -⟩ := h
    exact length_lt_of_cString hname
  | hour =>
    obtain ⟨text, htext, -⟩ := h
    exact length_lt_of_cString htext
  | minute =>
    obtain ⟨text, htext, -⟩ := h
    exact length_lt_of_cString htext

theorem Dest.Kept.there {d : Dest} (h : d.Kept w) : d.There w := by
  cases d with
  | channelName =>
    obtain ⟨i, name, hi, -⟩ := h
    have hlt := i.isLt
    unfold There
    omega
  | templateName =>
    obtain ⟨i, name, hi, -⟩ := h
    unfold There
    omega
  | hour => exact trivial
  | minute => exact trivial

/-- **A string stays in its field exactly when it is shorter than the field.** -/
theorem kept_iff (d : Dest) (h : d.Accepts w) :
    d.Kept w ↔ d.There w ∧ (d.text w).length < d.size := by
  refine ⟨fun hkept => ⟨hkept.there, hkept.length_lt⟩, ?_⟩
  rintro ⟨hthere, hlen⟩
  cases d with
  | channelName =>
    obtain ⟨i, hi⟩ := Int.eq_ofNat_of_zero_le hthere.1
    have hlt : w.cb.wChannel < numberOfChannels := hthere.2
    exact c5_of_short (i := ⟨i, by omega⟩) hi hlen
  | templateName =>
    obtain ⟨i, hi⟩ := Int.eq_ofNat_of_zero_le hthere
    have hroom : w.ipc.sysData.tplIndex + 1 ≤ maxTemplates := h
    exact c51_of_short (i := ⟨i, by omega⟩) hi hlen
  | hour => exact c20_of_short h hlen
  | minute => exact c21_of_short h hlen

/-- A template is saved as noon. -/
theorem kept_noon : Dest.templateName.Kept (World.zero.feed noon) :=
  (kept_iff (w := World.zero.feed noon) .templateName
    (show (0 : ℤ) + 1 ≤ maxTemplates by decide)).2 ⟨le_rfl, by decide⟩

/-- A name of 46 letters in quotes. -/
def longName : Token :=
  ⟨str "\"abcdefghijklmnopqrstuvwxyzabcdefghijklmnopqrst\"", by decide, by decide⟩

/-- The number eight with zeros in front. -/
def zeros : Token := ⟨str "00008", by decide, by decide⟩

/-- Zeroed memory with a token that has been read. -/
def afterName : World :=
  World.zero.setCb { CmdFsmCb.zero with token := longName, tokenType := ttStr, tokenValue := -1 }

def afterZeros : World :=
  World.zero.setCb { CmdFsmCb.zero with token := zeros, tokenType := ttInt, tokenValue := 8 }

theorem delivered_name : Delivered afterName where
  line := ⟨longName.bytes, by decide, by decide +kernel, by decide +kernel⟩
  read := ⟨{ CmdFsmCb.zero with token := longName }, some 36, rfl⟩

theorem delivered_zeros : Delivered afterZeros where
  line := ⟨zeros.bytes, by decide, by decide +kernel, by decide +kernel⟩
  read := ⟨{ CmdFsmCb.zero with token := zeros }, some 35, rfl⟩

/-- None of the four routines keeps every string in its field. A name runs over into `hide`, and an
hour with zeros in front into the day. -/
theorem not_kept :
    (¬ ∃ d : Dest, ∀ w, Delivered w → d.Accepts w → d.There w → d.Kept w) ∧
    (∃ w, c5 afterName = .ok (w, 0) ∧
      (w.ipc.sysData.cData.get 0).hide ≠ (afterName.ipc.sysData.cData.get 0).hide) ∧
    ∃ w, c20 afterZeros = .ok (w, 0) ∧ w.cb.wDay ≠ afterZeros.cb.wDay := by
  refine ⟨?_, ⟨_, rfl, by decide +kernel⟩, ⟨_, rfl, by decide +kernel⟩⟩
  rintro ⟨d, hall⟩
  cases d with
  | channelName =>
    have hlen := (hall afterName delivered_name trivial ⟨le_rfl, by decide⟩).length_lt
    exact absurd hlen (by decide)
  | templateName =>
    have hroom : Dest.templateName.Accepts afterName := show (0 : ℤ) + 1 ≤ maxTemplates by decide
    have hlen := (hall afterName delivered_name hroom le_rfl).length_lt
    exact absurd hlen (by decide)
  | hour =>
    have hlen := (hall afterZeros delivered_zeros ⟨by decide, by decide⟩ trivial).length_lt
    exact absurd hlen (by decide)
  | minute =>
    have hlen := (hall afterZeros delivered_zeros ⟨by decide, by decide⟩ trivial).length_lt
    exact absurd hlen (by decide)

end PconTng.Destinations
