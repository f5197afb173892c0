import Mathlib.Data.Fin.Basic
import Mathlib.Data.Nat.Cast.Defs

namespace LedgerQrl.Foundation

/-! # Indices and numerals that carry their bound

An index of type `Fin size` needs no proof to read a vector of that size. -/

instance vectorIndex {Item : Type*} {size : ℕ} :
    GetElem (Vector Item size) (Fin size) Item fun _ _ => True where
  getElem items index _ := items[index.val]

@[simp] theorem getElem_index {Item : Type*} {size : ℕ} (items : Vector Item size)
    (index : Fin size) : items[index] = items[index.val] := rfl

/-! The numerals `2` and `3` of a ring rest on these two facts. -/

instance two_atLeastTwo : Nat.AtLeastTwo 2 := ⟨by decide⟩

instance three_atLeastTwo : Nat.AtLeastTwo 3 := ⟨by decide⟩

end LedgerQrl.Foundation
