import LedgerQrl.Foundation.Index
import Mathlib.Data.List.Basic
import Mathlib.Logic.Function.Iterate

namespace LedgerQrl.Foundation

/-! # Sponges

A state that bytes are mixed into and read from at positions below the rate, and
that is permuted between blocks. A message is absorbed block by block; byte by
byte, with a position that goes round, gives the same states. -/

structure Sponge (State Byte : Type*) where
  permute : State → State
  mix : State → ℕ → Byte → State
  readAt : State → ℕ → Byte
  rate : ℕ
  positive : 0 < rate

namespace Sponge

variable {State Byte : Type*} (sponge : Sponge State Byte)

/-! ## One shot -/

def mixFrom : State → (position : ℕ) → List Byte → State
  | state, _, [] => state
  | state, position, byte :: rest =>
      mixFrom (sponge.mix state position byte) (position + 1) rest

def absorbBlock (state : State) (block : List Byte) : State :=
  sponge.permute (sponge.mixFrom state 0 block)

def blocks (message : List Byte) : List (List Byte) :=
  (List.range (message.length / sponge.rate)).map fun index =>
    (message.drop (index * sponge.rate)).take sponge.rate

def absorbAll (initial : State) (padded : List Byte) : State :=
  (sponge.blocks padded).foldl sponge.absorbBlock initial

/-- Byte `n` of the output of a state. -/
def output (state : State) (n : ℕ) : Byte :=
  sponge.readAt (sponge.permute^[n / sponge.rate] state) (n % sponge.rate)

theorem mixFrom_append (first second : List Byte) : ∀ (state : State) (position : ℕ),
    sponge.mixFrom state position (first ++ second) =
      sponge.mixFrom (sponge.mixFrom state position first) (position + first.length)
        second := by
  induction first with
  | nil => exact fun _ _ => rfl
  | cons byte rest induction =>
      intro state position
      rw [List.cons_append, mixFrom, mixFrom, induction, List.length_cons, Nat.add_assoc,
        Nat.add_comm 1]

theorem mixFrom_concat (state : State) (bytes : List Byte) (byte : Byte) :
    sponge.mixFrom state 0 (bytes ++ [byte]) =
      sponge.mix (sponge.mixFrom state 0 bytes) bytes.length byte := by
  rw [mixFrom_append, Nat.zero_add]
  rfl

theorem blocks_nil : sponge.blocks [] = [] := by
  rw [blocks, List.length_nil, Nat.zero_div, List.range_zero, List.map_nil]

theorem blocks_append {block : List Byte} (whole : block.length = sponge.rate)
    (message : List Byte) : sponge.blocks (block ++ message) = block :: sponge.blocks message := by
  have count : (block ++ message).length / sponge.rate =
      message.length / sponge.rate + 1 := by
    rw [List.length_append, whole, Nat.add_comm, Nat.add_div_right _ sponge.positive]
  rw [blocks, count, List.range_succ_eq_map, List.map_cons, List.map_map, Nat.zero_mul,
    List.drop_zero, List.take_left' whole, blocks]
  congr 1
  apply List.map_congr_left
  intro index _
  have start : (index + 1) * sponge.rate = block.length + index * sponge.rate := by
    rw [whole, Nat.succ_mul, Nat.add_comm]
  rw [Function.comp_apply, start, List.drop_append, List.drop_eq_nil_of_le (Nat.le_add_right _ _),
    Nat.add_sub_cancel_left, List.nil_append]

theorem blocks_flatten {parts : List (List Byte)}
    (whole : ∀ part ∈ parts, part.length = sponge.rate) :
    sponge.blocks parts.flatten = parts := by
  induction parts with
  | nil => exact sponge.blocks_nil
  | cons part rest induction =>
      have others := induction fun other member => whole other (List.mem_cons_of_mem _ member)
      rw [List.flatten_cons, sponge.blocks_append (whole part List.mem_cons_self), others]

/-! ## Byte by byte -/

/-- A state with its position, after the bytes of a message. -/
structure Absorbed (initial : State) (message : List Byte) (state : State)
    (position : ℕ) : Prop where
  exists_blocks : ∃ parts : List (List Byte), ∃ rest : List Byte,
    message = parts.flatten ++ rest ∧ (∀ part ∈ parts, part.length = sponge.rate) ∧
      rest.length = position ∧
      state = sponge.mixFrom (parts.foldl sponge.absorbBlock initial) 0 rest
  free : position < sponge.rate

theorem absorbed_nil (initial : State) : sponge.Absorbed initial [] initial 0 where
  exists_blocks := ⟨[], [], rfl, fun _ member => absurd member List.not_mem_nil, rfl, rfl⟩
  free := sponge.positive

variable {sponge} {initial state : State} {message : List Byte} {position : ℕ}

theorem Absorbed.mix (absorbed : sponge.Absorbed initial message state position)
    (byte : Byte) (room : position + 1 < sponge.rate) :
    sponge.Absorbed initial (message ++ [byte]) (sponge.mix state position byte)
      (position + 1) := by
  rcases absorbed.exists_blocks with ⟨parts, rest, split, whole, length, mixed⟩
  refine ⟨⟨parts, rest ++ [byte], ?_, whole, ?_, ?_⟩, room⟩
  · rw [split, List.append_assoc]
  · rw [List.length_append, length, List.length_singleton]
  · rw [mixed, mixFrom_concat, length]

theorem Absorbed.fill (absorbed : sponge.Absorbed initial message state position)
    (byte : Byte) (full : position + 1 = sponge.rate) :
    sponge.Absorbed initial (message ++ [byte])
      (sponge.permute (sponge.mix state position byte)) 0 := by
  rcases absorbed.exists_blocks with ⟨parts, rest, split, whole, length, mixed⟩
  have block : (rest ++ [byte]).length = sponge.rate := by
    rw [List.length_append, length, List.length_singleton, full]
  refine ⟨⟨parts ++ [rest ++ [byte]], [], ?_, ?_, rfl, ?_⟩, sponge.positive⟩
  · rw [split, List.flatten_append, List.flatten_singleton, List.append_nil,
      List.append_assoc]
  · intro part member
    rcases List.mem_append.mp member with early | last
    · exact whole part early
    · rw [List.mem_singleton.mp last, block]
  · rw [List.foldl_append, List.foldl_cons, List.foldl_nil, mixFrom, absorbBlock,
      mixFrom_concat, mixed, length]

theorem Absorbed.pad (absorbed : sponge.Absorbed initial message state position)
    {padding : List Byte} (fills : position + padding.length = sponge.rate) :
    sponge.absorbAll initial (message ++ padding) =
      sponge.permute (sponge.mixFrom state position padding) := by
  rcases absorbed.exists_blocks with ⟨parts, rest, split, whole, length, mixed⟩
  have padded : message ++ padding = (parts ++ [rest ++ padding]).flatten := by
    rw [split, List.flatten_append, List.flatten_singleton, List.append_assoc]
  have allWhole : ∀ part ∈ parts ++ [rest ++ padding], part.length = sponge.rate := by
    intro part member
    rcases List.mem_append.mp member with early | last
    · exact whole part early
    · rw [List.mem_singleton.mp last, List.length_append, length, fills]
  rw [absorbAll, padded, blocks_flatten sponge allWhole, List.foldl_append, List.foldl_cons,
    List.foldl_nil, absorbBlock, mixFrom_append, mixed, length, Nat.zero_add]

theorem length_flatten_mod {parts : List (List Byte)}
    (whole : ∀ part ∈ parts, part.length = sponge.rate) :
    parts.flatten.length % sponge.rate = 0 := by
  induction parts with
  | nil => exact Nat.zero_mod _
  | cons part rest induction =>
      have others := induction fun other member => whole other (List.mem_cons_of_mem _ member)
      rw [List.flatten_cons, List.length_append, whole part List.mem_cons_self,
        Nat.add_mod_left, others]

theorem Absorbed.position_eq (absorbed : sponge.Absorbed initial message state position) :
    position = message.length % sponge.rate := by
  rcases absorbed.exists_blocks with ⟨parts, rest, split, whole, length, _⟩
  have blocks := length_flatten_mod whole
  rw [split, List.length_append, length, Nat.add_mod, blocks, Nat.zero_add, Nat.mod_mod,
    Nat.mod_eq_of_lt absorbed.free]

/-! ## Squeezing -/

/-- A state with its position, before byte `n` of the output of `start`. -/
structure Squeezed (sponge : Sponge State Byte) (start : State) (n : ℕ) (state : State)
    (position : ℕ) : Prop where
  state : state = sponge.permute^[n / sponge.rate] start
  position : position = n % sponge.rate

theorem squeezed_zero (start : State) : sponge.Squeezed start 0 start 0 where
  state := by rw [Nat.zero_div, Function.iterate_zero, id_eq]
  position := (Nat.zero_mod _).symm

variable {start : State} {n : ℕ}

theorem Squeezed.free (squeezed : sponge.Squeezed start n state position) :
    position < sponge.rate := by
  rw [squeezed.position]
  exact Nat.mod_lt _ sponge.positive

theorem Squeezed.read (squeezed : sponge.Squeezed start n state position) :
    sponge.readAt state position = sponge.output start n := by
  rw [squeezed.state, squeezed.position, output]

theorem Squeezed.next (squeezed : sponge.Squeezed start n state position)
    (room : position + 1 < sponge.rate) :
    sponge.Squeezed start (n + 1) state (position + 1) := by
  have rest := squeezed.position
  have division := Nat.div_add_mod n sponge.rate
  have whole : (n + 1) / sponge.rate = n / sponge.rate := by
    apply Nat.div_eq_of_lt_le
    · rw [Nat.mul_comm]
      omega
    · rw [Nat.succ_mul, Nat.mul_comm]
      omega
  have left : (n + 1) % sponge.rate = n % sponge.rate + 1 := by
    have again := Nat.div_add_mod (n + 1) sponge.rate
    rw [whole] at again
    omega
  exact ⟨by rw [whole, squeezed.state], by rw [left, rest]⟩

theorem Squeezed.wrap (squeezed : sponge.Squeezed start n state position)
    (full : position + 1 = sponge.rate) :
    sponge.Squeezed start (n + 1) (sponge.permute state) 0 := by
  have rest := squeezed.position
  have division := Nat.div_add_mod n sponge.rate
  have count : n + 1 = (n / sponge.rate + 1) * sponge.rate := by
    rw [Nat.succ_mul, Nat.mul_comm]
    omega
  constructor
  · rw [count, Nat.mul_div_cancel _ sponge.positive, Function.iterate_succ_apply',
      squeezed.state]
  · rw [count, Nat.mul_mod_left]

/-! ## Smaller items

A sponge of bytes is a sponge of bits, of which each byte brings the same number. -/

/-- `fine` takes the items of each item of `coarse` one by one. -/
structure Regroups {FineState Bit : Type*} (coarse : Sponge State Byte)
    (fine : Sponge FineState Bit) (view : State → FineState) (items : Byte → List Bit)
    (count : ℕ) : Prop where
  length : ∀ byte, (items byte).length = count
  rate : fine.rate = count * coarse.rate
  permute : ∀ state, view (coarse.permute state) = fine.permute (view state)
  mix : ∀ state position byte, position < coarse.rate →
    view (coarse.mix state position byte) =
      fine.mixFrom (view state) (count * position) (items byte)
  readAt : ∀ state position, position < coarse.rate → ∀ index < count,
    (items (coarse.readAt state position))[index]? =
      some (fine.readAt (view state) (count * position + index))

section Regroups

variable {FineState Bit : Type*} {coarse : Sponge State Byte} {fine : Sponge FineState Bit}
  {view : State → FineState} {items : Byte → List Bit} {count : ℕ}

theorem Regroups.positive (regroups : coarse.Regroups fine view items count) : 0 < count := by
  apply Nat.pos_of_ne_zero
  intro none
  have rate := regroups.rate
  rw [none, Nat.zero_mul] at rate
  exact absurd rate fine.positive.ne'

theorem length_flatMap_items (regroups : coarse.Regroups fine view items count) :
    ∀ bytes : List Byte, (bytes.flatMap items).length = count * bytes.length
  | [] => rfl
  | byte :: rest => by
      rw [List.flatMap_cons, List.length_append, regroups.length,
        length_flatMap_items regroups rest, List.length_cons, Nat.mul_succ, Nat.add_comm]

theorem drop_flatMap_items (regroups : coarse.Regroups fine view items count) :
    ∀ (start : ℕ) (bytes : List Byte),
      (bytes.flatMap items).drop (count * start) = (bytes.drop start).flatMap items
  | 0, _ => rfl
  | _ + 1, [] => List.drop_nil
  | start + 1, byte :: rest => by
      have place : count * (start + 1) = (items byte).length + count * start := by
        rw [regroups.length, Nat.mul_succ, Nat.add_comm]
      rw [List.flatMap_cons, place, List.drop_append,
        List.drop_eq_nil_of_le (Nat.le_add_right _ _), Nat.add_sub_cancel_left,
        List.nil_append, drop_flatMap_items regroups start rest, List.drop_succ_cons]

theorem take_flatMap_items (regroups : coarse.Regroups fine view items count) :
    ∀ (length : ℕ) (bytes : List Byte),
      (bytes.flatMap items).take (count * length) = (bytes.take length).flatMap items
  | 0, _ => by
      rw [Nat.mul_zero, List.take_zero, List.take_zero, List.flatMap_nil]
  | _ + 1, [] => List.take_nil
  | length + 1, byte :: rest => by
      have place : count * (length + 1) = (items byte).length + count * length := by
        rw [regroups.length, Nat.mul_succ, Nat.add_comm]
      rw [List.flatMap_cons, place, List.take_length_add_append,
        take_flatMap_items regroups length rest, List.take_succ_cons, List.flatMap_cons]

theorem Regroups.mixFrom (regroups : coarse.Regroups fine view items count) :
    ∀ (bytes : List Byte) (state : State) (position : ℕ),
      position + bytes.length ≤ coarse.rate →
        view (coarse.mixFrom state position bytes) =
          fine.mixFrom (view state) (count * position) (bytes.flatMap items)
  | [], _, _, _ => rfl
  | byte :: rest, state, position, fits => by
      rw [List.length_cons] at fits
      rw [Sponge.mixFrom, regroups.mixFrom rest _ _ (by omega),
        regroups.mix _ _ _ (by omega), List.flatMap_cons, mixFrom_append, regroups.length,
        Nat.mul_succ]

theorem Regroups.blocks (regroups : coarse.Regroups fine view items count)
    (message : List Byte) :
    fine.blocks (message.flatMap items) =
      (coarse.blocks message).map fun block => block.flatMap items := by
  rw [Sponge.blocks, Sponge.blocks, List.map_map, length_flatMap_items regroups,
    regroups.rate, Nat.mul_div_mul_left _ _ regroups.positive]
  apply List.map_congr_left
  intro index _
  rw [Function.comp_apply, Nat.mul_left_comm, drop_flatMap_items regroups,
    take_flatMap_items regroups]

theorem length_block_le {message block : List Byte} (member : block ∈ coarse.blocks message) :
    block.length ≤ coarse.rate := by
  obtain ⟨index, _, equal⟩ := List.mem_map.mp member
  rw [← equal, List.length_take]
  exact Nat.min_le_left _ _

theorem Regroups.absorbAll (regroups : coarse.Regroups fine view items count)
    (initial : State) (message : List Byte) :
    view (coarse.absorbAll initial message) =
      fine.absorbAll (view initial) (message.flatMap items) := by
  have folded : ∀ (parts : List (List Byte)) (state : State),
      (∀ part ∈ parts, part.length ≤ coarse.rate) →
        view (parts.foldl coarse.absorbBlock state) =
          (parts.map fun part => part.flatMap items).foldl fine.absorbBlock (view state) := by
    intro parts
    induction parts with
    | nil => exact fun _ _ => rfl
    | cons part rest induction =>
        intro state fits
        have block : view (coarse.absorbBlock state part) =
            fine.absorbBlock (view state) (part.flatMap items) := by
          have short := fits part List.mem_cons_self
          rw [absorbBlock, regroups.permute, regroups.mixFrom _ _ _ (by omega), Nat.mul_zero]
          rfl
        rw [List.foldl_cons, List.map_cons, List.foldl_cons, ← block]
        exact induction _ fun other member => fits other (List.mem_cons_of_mem _ member)
  rw [Sponge.absorbAll, Sponge.absorbAll, regroups.blocks]
  exact folded _ initial fun part member => length_block_le member

theorem Regroups.output (regroups : coarse.Regroups fine view items count) (state : State)
    (n : ℕ) {index : ℕ} (within : index < count) :
    (items (coarse.output state n))[index]? =
      some (fine.output (view state) (count * n + index)) := by
  have iterated : ∀ times, view (coarse.permute^[times] state) =
      fine.permute^[times] (view state) := by
    intro times
    induction times with
    | zero => rfl
    | succ times induction =>
        rw [Function.iterate_succ_apply', Function.iterate_succ_apply', regroups.permute,
          induction]
  have block : (count * n + index) / fine.rate = n / coarse.rate := by
    rw [regroups.rate, ← Nat.div_div_eq_div_mul, Nat.mul_add_div regroups.positive,
      Nat.div_eq_of_lt within, Nat.add_zero]
  have place : (count * n + index) % fine.rate = count * (n % coarse.rate) + index := by
    rw [regroups.rate, Nat.mod_mul, Nat.mul_add_mod_self_left, Nat.mod_eq_of_lt within,
      Nat.mul_add_div regroups.positive, Nat.div_eq_of_lt within, Nat.add_zero,
      Nat.add_comm]
  rw [Sponge.output, Sponge.output, block, place, ← iterated,
    regroups.readAt _ _ (Nat.mod_lt _ coarse.positive) index within]

end Regroups

end Sponge

end LedgerQrl.Foundation
