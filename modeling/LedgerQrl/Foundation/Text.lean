import LedgerQrl.Foundation.Index
import Mathlib.Data.List.TakeWhile
import Mathlib.Data.Vector.Basic

namespace LedgerQrl.Foundation

/-! # Strings in buffers

A string ends at the first null character of its buffer. Code that writes one
piece after the other keeps track of what the buffer begins with. -/

def nul : Char := Char.ofNat 0

abbrev Buffer (size : ℕ) := Vector Char size

namespace Buffer

variable {size : ℕ}

/-- Copy `text` to `pos`, unless it exceeds the buffer. -/
def store (buffer : Buffer size) (pos : ℕ) (text : List Char) : Option (Buffer size) :=
  if pos + text.length ≤ size then
    some (Vector.ofFn fun i =>
      if pos ≤ i then (text[i.val - pos]?).getD buffer[i] else buffer[i])
  else none

def string (buffer : Buffer size) : Option (List Char) :=
  if nul ∈ buffer.toList then some (buffer.toList.takeWhile (· ≠ nul)) else none

def Begins (buffer : Buffer size) (text : List Char) : Prop := text <+: buffer.toList

section Rules

variable {buffer : Buffer size} {text : List Char}

theorem begins_nil : buffer.Begins [] := List.nil_prefix

theorem Begins.length_le (begins : buffer.Begins text) : text.length ≤ size := by
  have bound := List.IsPrefix.length_le begins
  rwa [Vector.length_toList] at bound

theorem Begins.take (begins : buffer.Begins text) (count : ℕ) :
    buffer.Begins (text.take count) :=
  (List.take_prefix count text).trans begins

theorem Begins.getElem (begins : buffer.Begins text) {index : ℕ}
    (inside : index < text.length) :
    buffer[index]? = some text[index] := by
  have found := List.IsPrefix.getElem begins inside
  have bound := begins.length_le
  rw [Vector.getElem?_eq_getElem (by omega), found]
  simp

theorem Begins.store (begins : buffer.Begins text) {pos : ℕ} (within : pos ≤ text.length)
    {more : List Char} (room : pos + more.length ≤ size) :
    ∃ stored, buffer.store pos more = some stored ∧
      stored.Begins (text.take pos ++ more) := by
  refine ⟨_, if_pos room, ?_⟩
  have taken : (text.take pos).length = pos := List.length_take_of_le within
  rw [Begins, List.prefix_iff_getElem]
  have total : (text.take pos ++ more).length = pos + more.length := by
    rw [List.length_append, taken]
  refine ⟨by rw [total, Vector.length_toList]; exact room, ?_⟩
  intro index inside
  rw [total] at inside
  by_cases before : index < pos
  · have kept := begins.getElem (show index < text.length by omega)
    rw [Vector.getElem?_eq_getElem (by omega), Option.some.injEq] at kept
    rw [List.getElem_append_left (by omega), List.getElem_take, ← kept]
    simp [Nat.not_le.mpr before]
  · rw [List.getElem_append_right (by omega)]
    simp [Nat.not_lt.mp before, taken, List.getElem?_eq_getElem
      (show index - pos < more.length by omega)]

theorem Begins.store_set (begins : buffer.Begins text) {pos : ℕ} (inside : pos < text.length)
    (character : Char) :
    ∃ stored, buffer.store pos [character] = some stored ∧
      stored.Begins (text.set pos character) := by
  have fits := begins.length_le
  have room : pos + [character].length ≤ size := by
    rw [List.length_singleton]
    omega
  refine ⟨_, if_pos room, ?_⟩
  rw [Begins, List.prefix_iff_getElem]
  refine ⟨by rw [List.length_set, Vector.length_toList]; exact fits, ?_⟩
  intro index within
  rw [List.length_set] at within
  have kept := begins.getElem within
  rw [Vector.getElem?_eq_getElem (by omega), Option.some.injEq] at kept
  rw [List.getElem_set]
  by_cases same : pos = index
  · subst same
    simp
  · rw [if_neg same, ← kept]
    by_cases before : pos ≤ index
    · have none : [character][index - pos]? = none :=
        List.getElem?_eq_none (by rw [List.length_singleton]; omega)
      simp [before, none]
    · simp [before]

theorem Begins.string_eq (begins : buffer.Begins (text ++ [nul])) (plain : nul ∉ text) :
    buffer.string = some text := by
  obtain ⟨rest, whole⟩ := begins
  have ended : nul ∈ buffer.toList := by
    rw [← whole]
    simp
  have all : ∀ character ∈ text, decide (character ≠ nul) = true := by
    intro character member
    rw [decide_eq_true_iff]
    rintro rfl
    exact plain member
  rw [string, if_pos ended, ← whole, List.append_assoc, List.takeWhile_append_of_pos all,
    List.singleton_append, List.takeWhile_cons_of_neg (by simp), List.append_nil]

end Rules

end Buffer

end LedgerQrl.Foundation
