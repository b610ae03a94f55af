import Mathlib.Logic.Function.Basic
import RemoteBoot.Bytes

/-! `struct config_info` as the flat memory the code treats it as: five adjacent
arrays of `STR_SIZE` characters, stored to by offset and read as C strings. -/
namespace RemoteBoot.Config
open Bytes

def strSize : Nat := 100

/-- The members of `struct config_info`, in declaration order. -/
inductive Field where
  | wifiName | wifiPassword | mqttUsername | mqttPasswd | macAddress
  deriving DecidableEq, Repr

namespace Field

def index : Field → Nat
  | wifiName => 0
  | wifiPassword => 1
  | mqttUsername => 2
  | mqttPasswd => 3
  | macAddress => 4

def all : List Field := [wifiName, wifiPassword, mqttUsername, mqttPasswd, macAddress]

def offset (f : Field) : Nat := f.index * strSize

theorem index_lt (f : Field) : f.index < 5 := by
  cases f <;> decide

theorem index_injective {f g : Field} (same : f.index = g.index) : f = g := by
  cases f <;> cases g <;> first | rfl | cases same

theorem exists_index {i : Nat} (small : i < 5) : ∃ f : Field, f.index = i := by
  match i, small with
  | 0, _ => exact ⟨wifiName, rfl⟩
  | 1, _ => exact ⟨wifiPassword, rfl⟩
  | 2, _ => exact ⟨mqttUsername, rfl⟩
  | 3, _ => exact ⟨mqttPasswd, rfl⟩
  | 4, _ => exact ⟨macAddress, rfl⟩

/-- A text that fits the member ends inside the struct. -/
theorem room (f : Field) {n : Nat} (short : n < strSize) : f.offset + n < 5 * strSize := by
  have := f.index_lt
  simp only [offset, strSize] at short ⊢
  omega

theorem disjoint {f g : Field} (different : g ≠ f) :
    g.offset + strSize ≤ f.offset ∨ f.offset + strSize ≤ g.offset := by
  have : g.index ≠ f.index := fun same => different (index_injective same)
  simp only [offset, strSize]
  omega

end Field

structure ConfigInfo where
  bytes : List UInt8
  size : bytes.length = 5 * strSize

namespace ConfigInfo

/-- A member read as a C string. Without a NUL of its own it runs on into the
next member, as in C. -/
def str (c : ConfigInfo) (f : Field) : List UInt8 := cstring (c.bytes.drop f.offset)

def slot (c : ConfigInfo) (f : Field) : List UInt8 := Bytes.slot c.bytes f.offset strSize

def Terminated (c : ConfigInfo) : Prop := ∀ f, (c.str f).length < strSize

/-- `rt_memcpy` to `(char *)config + dst`. A copy past the struct is undefined. -/
def memcpy (c : ConfigInfo) (dst : Nat) (src : List UInt8) : Option ConfigInfo :=
  if fits : dst + src.length ≤ c.bytes.length then
    some ⟨splice c.bytes dst src, by rw [length_splice fits, c.size]⟩
  else none

/-- The copy and the terminator the code stores after it. -/
def setString (c : ConfigInfo) (dst : Nat) (src : List UInt8) : Option ConfigInfo := do
  let c ← c.memcpy dst src
  c.memcpy (dst + src.length) [0]

def zeroed : ConfigInfo := ⟨List.replicate (5 * strSize) 0, List.length_replicate⟩

theorem offset_fits (c : ConfigInfo) (f : Field) : f.offset + strSize ≤ c.bytes.length := by
  have := f.index_lt
  rw [c.size]
  simp only [Field.offset, strSize]
  omega

theorem length_slot (c : ConfigInfo) (f : Field) : (c.slot f).length = strSize := by
  have := c.offset_fits f
  simp only [slot, Bytes.slot, List.length_take, List.length_drop]
  omega

theorem str_congr {c d : ConfigInfo} (same : d.slot f = c.slot f)
    (short : (c.str f).length < strSize) : d.str f = c.str f :=
  cstring_congr same.symm short

theorem str_of_slot {c : ConfigInfo} (cells : c.slot f = s ++ 0 :: rest)
    (short : s.length < strSize) : c.str f = cstring s := by
  have string : cstring (c.slot f) = cstring s := by
    rw [cells, cstring_append_zero]
  have width : (c.slot f).take strSize = (c.bytes.drop f.offset).take strSize := by
    rw [List.take_of_length_le (Nat.le_of_eq (c.length_slot f))]
    rfl
  have inside : (cstring (c.slot f)).length < strSize := by
    rw [string]
    exact Nat.lt_of_le_of_lt (length_cstring_le s) short
  rw [str, cstring_congr width inside, string]

/-- The part of a stored text that its member holds. -/
theorem str_of_spill {c : ConfigInfo} (cells : c.slot f = (s ++ 0 :: rest).take strSize)
    (short : s.length < strSize) : c.str f = cstring s := by
  rw [List.take_append, List.take_of_length_le (Nat.le_of_lt short),
    List.take_cons (by omega)] at cells
  exact str_of_slot cells short

theorem memcpy_field (c : ConfigInfo) (f : Field) (src : List UInt8)
    (fits : src.length ≤ strSize) : ∃ d, c.memcpy f.offset src = some d ∧
      d.slot f = src ++ (c.slot f).drop src.length ∧ ∀ g ≠ f, d.slot g = c.slot g := by
  have inside := c.offset_fits f
  have bound : f.offset + src.length ≤ c.bytes.length := by omega
  refine ⟨_, dif_pos bound, ?_, ?_⟩
  · simp only [slot, Bytes.slot]
    rw [drop_splice (by omega), List.take_append, List.take_of_length_le fits,
      List.drop_take, List.drop_drop]
  · intro g different
    rcases Field.disjoint different with before | after
    · exact slot_splice_outside (by omega) (.inl before)
    · exact slot_splice_outside (by omega) (.inr (by omega))

/-- `rt_memcpy(d.m, t.m, sizeof(d.m))` for a member `m`. -/
theorem memcpy_member (c t : ConfigInfo) (f : Field) : ∃ d, c.memcpy f.offset (t.slot f) = some d ∧
    d.slot f = t.slot f ∧ ∀ g ≠ f, d.slot g = c.slot g := by
  have width := t.length_slot f
  obtain ⟨d, copied, cells, frame⟩ := c.memcpy_field f (t.slot f) (Nat.le_of_eq width)
  refine ⟨d, copied, ?_, frame⟩
  rw [cells, width, List.drop_of_length_le (Nat.le_of_eq (c.length_slot f)), List.append_nil]

theorem setString_eq_memcpy (c : ConfigInfo) {dst : Nat} {src : List UInt8}
    (fits : dst + src.length < 5 * strSize) : c.setString dst src = c.memcpy dst (src ++ [0]) := by
  have size := c.size
  have first : dst + src.length ≤ c.bytes.length := by omega
  have second : dst + src.length + [(0 : UInt8)].length ≤ c.bytes.length := by
    simp only [List.length_singleton]
    omega
  have joined : dst + (src ++ [0]).length ≤ c.bytes.length := by
    rw [List.length_append, ← Nat.add_assoc]
    exact second
  simp only [setString, memcpy, dif_pos first, dif_pos joined, Option.bind_eq_bind,
    Option.bind_some, length_splice first, dif_pos second,
    splice_splice (show dst ≤ c.bytes.length by omega)]

/-- A text that stays inside the struct may run into later members. -/
theorem setString_spill (c : ConfigInfo) (f : Field) {src : List UInt8}
    (fits : f.offset + src.length < 5 * strSize) :
    ∃ d, c.setString f.offset src = some d ∧
      (∃ rest, d.slot f = (src ++ 0 :: rest).take strSize) ∧
      ∀ g, g.index < f.index → d.slot g = c.slot g := by
  have size := c.size
  have joined : f.offset + (src ++ [0]).length ≤ c.bytes.length := by
    rw [List.length_append, List.length_singleton]
    omega
  refine ⟨_, (c.setString_eq_memcpy fits).trans (dif_pos joined),
    ⟨c.bytes.drop (f.offset + (src ++ [0]).length), ?_⟩, ?_⟩
  · simp only [slot, Bytes.slot]
    rw [drop_splice (by omega), List.append_assoc, List.singleton_append]
  · intro g earlier
    have before : g.offset + strSize ≤ f.offset := by
      simp only [Field.offset, strSize]
      omega
    exact slot_splice_outside (by omega) (.inl before)

/-- Storing a short text in a member puts a NUL behind it and leaves the rest of
the member, and every other member, alone. -/
theorem setString_slot (c : ConfigInfo) (f : Field) {src : List UInt8}
    (short : src.length < strSize) :
    ∃ d, c.setString f.offset src = some d ∧
      d.slot f = src ++ 0 :: (c.slot f).drop (src.length + 1) ∧ ∀ g ≠ f, d.slot g = c.slot g := by
  obtain ⟨d, stored, cells, frame⟩ := c.memcpy_field f (src ++ [0])
    (by rw [List.length_append]; exact short)
  refine ⟨d, (c.setString_eq_memcpy (f.room short)).trans stored, ?_, frame⟩
  rwa [List.append_assoc, List.singleton_append, List.length_append] at cells

/-- One member was set and the others were left alone. -/
theorem str_update {c d : ConfigInfo} (good : c.Terminated) (string : d.str f = s)
    (frame : ∀ g ≠ f, d.slot g = c.slot g) : d.str = Function.update c.str f s := by
  funext g
  by_cases same : g = f
  · rw [same, Function.update_self, string]
  · rw [Function.update_of_ne same, str_congr (frame g same) (good g)]

theorem terminated_update {c d : ConfigInfo} (good : c.Terminated) (string : d.str f = s)
    (short : s.length < strSize) (frame : ∀ g ≠ f, d.slot g = c.slot g) : d.Terminated := by
  intro g
  rw [str_update good string frame]
  by_cases same : g = f
  · rw [same, Function.update_self]
    exact short
  · rw [Function.update_of_ne same]
    exact good g

theorem zeroed_terminated : zeroed.Terminated := by
  intro f
  cases f <;> decide

theorem not_mem_str (c : ConfigInfo) (f : Field) : 0 ∉ c.str f := not_mem_cstring _

end ConfigInfo
end RemoteBoot.Config
