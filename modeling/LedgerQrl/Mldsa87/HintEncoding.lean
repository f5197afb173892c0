import LedgerQrl.Mldsa87.Specification
import LedgerQrl.Mldsa87.Stages

namespace LedgerQrl.Mldsa87

open Foundation Poly InternalStorage

/-! # The encoding of hints

The list of positions, and the end index of each row behind it. -/

namespace Spec

variable (hints : Hints)

theorem mem_rowPositions {row : ℕ → Bool} {n : ℕ} :
    n ∈ rowPositions row ↔ n < 256 ∧ row n = true := by
  simp [rowPositions]

theorem rowPositions_increasing (row : ℕ → Bool) :
    (rowPositions row).Pairwise (· < ·) :=
  List.pairwise_lt_range.filter _

theorem positions_succ (i : Fin 8) :
    positions hints (i + 1) = positions hints i ++ rowPositions (hints i) := by
  have next : (List.finRange 8).take (i + 1) = (List.finRange 8).take i ++ [i] := by
    rw [List.take_add_one, List.getElem?_eq_getElem (by simp)]
    simp
  rw [positions, next, List.flatMap_append, List.flatMap_singleton, positions]

theorem positions_initial {i j : ℕ} (le : i ≤ j) :
    positions hints i <+: positions hints j := by
  rw [positions, positions]
  obtain ⟨rest, split⟩ := List.take_prefix_take_left (l := List.finRange 8) le
  rw [← split, List.flatMap_append]
  exact List.prefix_append _ _

theorem length_positions_le {i : ℕ} (le : i ≤ 8) :
    (positions hints i).length ≤ hintCount hints :=
  (positions_initial hints le).length_le

theorem mem_positions_lt {count n : ℕ} (member : n ∈ positions hints count) : n < 256 := by
  rw [positions, List.mem_flatMap] at member
  obtain ⟨i, _, inRow⟩ := member
  exact (mem_rowPositions.mp inRow).1

end Spec

/-! ## Encoding -/

/-- The buffer of the encoder: the positions found so far, and the end indexes
`tail`. -/
private def hintBuffer (found : List ℕ) (tail : List UInt8) : List UInt8 :=
  (found.map UInt8.ofNat ++ List.replicate (75 - found.length) 0) ++ tail

private theorem hintBuffer_push {found : List ℕ} (room : found.length < 75)
    (tail : List UInt8) (j : ℕ) :
    (hintBuffer found tail).set found.length (UInt8.ofNat j) =
      hintBuffer (found ++ [j]) tail := by
  obtain ⟨free, rest⟩ : ∃ free, 75 - found.length = free + 1 :=
    ⟨75 - found.length - 1, by omega⟩
  have left : 75 - (found ++ [j]).length = free := by
    rw [List.length_append, List.length_singleton]
    omega
  rw [hintBuffer, hintBuffer, left, rest, List.replicate_succ, List.append_assoc,
    List.set_append_right _ _ (by simp)]
  simp

private theorem hintBuffer_end {found : List ℕ} (within : found.length ≤ 75)
    (tail : List UInt8) (i : ℕ) (value : UInt8) :
    (hintBuffer found tail).set (75 + i) value = hintBuffer found (tail.set i value) := by
  have length : (found.map UInt8.ofNat ++
      List.replicate (75 - found.length) (0 : UInt8)).length = 75 := by
    simp
    omega
  rw [hintBuffer, List.set_append_right _ _ (by omega), length, Nat.add_sub_cancel_left,
    hintBuffer]

private def packHintStep (h : Poly) (i : ℕ) (state : List UInt8 × ℕ) (j : ℕ) :
    List UInt8 × ℕ :=
  let (temp, k) :=
    if h.coeff j ≠ 0 then (state.1.set state.2 (UInt8.ofNat j), state.2 + 1) else state
  (temp.set (75 + i) (UInt8.ofNat k), k)

@[simp] theorem length_packHints (h : PolyVecK) : (packHints h).length = 83 := by
  have step : ∀ (row : Poly) (i : ℕ) (js : List ℕ) (state : List UInt8 × ℕ),
      (js.foldl (packHintStep row i) state).1.length = state.1.length := by
    intro row i js
    induction js with
    | nil => exact fun _ => rfl
    | cons j rest induction =>
        intro state
        rw [List.foldl_cons, induction, packHintStep]
        dsimp only
        split <;> simp
  have rows : ∀ (is : List (Fin 8)) (state : List UInt8 × ℕ),
      (is.foldl (fun state (i : Fin 8) => packHintRow h[i] i state) state).1.length =
        state.1.length := by
    intro is
    induction is with
    | nil => exact fun _ => rfl
    | cons i rest induction =>
        intro state
        rw [List.foldl_cons, induction]
        exact step h[i] i (List.range 256) state
  rw [packHints, rows, List.length_replicate]

private theorem packHintStep_eq {h : Poly} {row : ℕ → Bool} {j : ℕ}
    (agrees : h.coeff j ≠ 0 ↔ row j = true) (i : ℕ) {found : List ℕ}
    (tail : List UInt8) (within : (found ++ [j].filter row).length ≤ 75) :
    packHintStep h i (hintBuffer found tail, found.length) j =
      (hintBuffer (found ++ [j].filter row)
          (tail.set i (UInt8.ofNat (found ++ [j].filter row).length)),
        (found ++ [j].filter row).length) := by
  rw [packHintStep]
  by_cases hint : row j = true
  · rw [List.filter_cons_of_pos hint, List.filter_nil] at within ⊢
    have longer : (found ++ [j]).length = found.length + 1 := by simp
    rw [if_pos (agrees.mpr hint), hintBuffer_push (by omega)]
    dsimp only
    rw [hintBuffer_end within, longer]
  · rw [List.filter_cons_of_neg hint, List.filter_nil, List.append_nil] at within ⊢
    rw [if_neg (fun nonzero => hint (agrees.mp nonzero))]
    dsimp only
    rw [hintBuffer_end within]

private theorem packHintRow_initial {h : Poly} {row : ℕ → Bool}
    (agrees : ∀ n < 256, (h.coeff n ≠ 0 ↔ row n = true)) (i : ℕ) (found : List ℕ)
    (tail : List UInt8) (within : (found ++ Spec.rowPositions row).length ≤ 75) :
    ∀ count < 256,
      (List.range (count + 1)).foldl (packHintStep h i)
        (hintBuffer found tail, found.length) =
      (hintBuffer (found ++ (List.range (count + 1)).filter row)
          (tail.set i
            (UInt8.ofNat (found ++ (List.range (count + 1)).filter row).length)),
        (found ++ (List.range (count + 1)).filter row).length) := by
  have few : ∀ count ≤ 256, (found ++ (List.range count).filter row).length ≤ 75 := by
    intro count bound
    have smaller : ((List.range count).filter row).length ≤
        (Spec.rowPositions row).length :=
      ((List.range_sublist.mpr bound).filter row).length_le
    rw [List.length_append] at within ⊢
    omega
  intro count
  induction count with
  | zero =>
      intro bound
      exact packHintStep_eq (agrees 0 bound) i tail (few 1 (by omega))
  | succ count induction =>
      intro bound
      have extended := few (count + 1 + 1) (by omega)
      rw [List.range_succ, List.filter_append, ← List.append_assoc] at extended
      rw [List.range_succ, List.foldl_append, induction (by omega), List.filter_append,
        ← List.append_assoc, List.foldl_cons, List.foldl_nil]
      have step := packHintStep_eq (agrees (count + 1) bound) i
        (tail.set i
          (UInt8.ofNat (found ++ (List.range (count + 1)).filter row).length)) extended
      rw [List.set_set] at step
      exact step

private theorem packHintRow_eq {h : Poly} {row : ℕ → Bool}
    (agrees : ∀ n < 256, (h.coeff n ≠ 0 ↔ row n = true)) (i : ℕ) (found : List ℕ)
    (tail : List UInt8) (within : (found ++ Spec.rowPositions row).length ≤ 75) :
    packHintRow h i (hintBuffer found tail, found.length) =
      (hintBuffer (found ++ Spec.rowPositions row)
          (tail.set i (UInt8.ofNat (found ++ Spec.rowPositions row).length)),
        (found ++ Spec.rowPositions row).length) :=
  packHintRow_initial agrees i found tail within 255 (by omega)

/-- The end indexes of the first `count` rows. -/
private def hintTail (hints : Spec.Hints) (count : ℕ) : List UInt8 :=
  (List.finRange 8).map fun (i : Fin 8) =>
    if i.val < count then UInt8.ofNat (Spec.positions hints (i + 1)).length else 0

private theorem hintTail_succ (hints : Spec.Hints) (i : Fin 8) :
    (hintTail hints i).set i (UInt8.ofNat (Spec.positions hints (i + 1)).length) =
      hintTail hints (i + 1) := by
  apply List.ext_getElem
  · simp [hintTail]
  · intro index leftBound rightBound
    rw [List.getElem_set]
    simp only [hintTail, List.getElem_map, List.getElem_finRange, Fin.val_cast]
    split
    · rename_i equal
      subst equal
      simp
    · rename_i different
      exact if_congr (by omega) rfl rfl

/-- `pack_sig_volatile` encodes at most 75 hints as specified. -/
theorem packHints_eq {h : PolyVecK} {hints : Spec.Hints}
    (agrees : ∀ i : Fin 8, ∀ n < 256, (h[i].coeff n ≠ 0 ↔ hints i n = true))
    (few : Spec.hintCount hints ≤ 75) : packHints h = Spec.hintEncode hints := by
  have rows : ∀ count ≤ 8, ((List.finRange 8).take count).foldl
      (fun state (i : Fin 8) => packHintRow h[i] i state) (List.replicate 83 0, 0) =
        (hintBuffer (Spec.positions hints count) (hintTail hints count),
          (Spec.positions hints count).length) := by
    intro count
    induction count with
    | zero => intro _; rfl
    | succ count induction =>
        intro bound
        have within := Spec.length_positions_le hints bound
        have next := Spec.positions_succ hints ⟨count, bound⟩
        have items : (List.finRange 8).take (count + 1) =
            (List.finRange 8).take count ++ [⟨count, bound⟩] := by
          rw [List.take_add_one, List.getElem?_eq_getElem (by simp; omega)]
          simp
        dsimp only at next
        rw [next] at within
        rw [items, List.foldl_append, induction (by omega), List.foldl_cons,
          List.foldl_nil, packHintRow_eq (agrees ⟨count, bound⟩) _ _ _
            (within.trans few), ← next]
        exact Prod.ext (congrArg (hintBuffer _) (hintTail_succ hints ⟨count, bound⟩)) rfl
  have complete := rows 8 (Nat.le_refl 8)
  rw [List.take_of_length_le (by simp)] at complete
  rw [packHints, complete, hintBuffer, Spec.hintEncode]
  have tail : hintTail hints 8 = (List.finRange 8).map fun (i : Fin 8) =>
      UInt8.ofNat (Spec.positions hints (i + 1)).length :=
    List.map_congr_left fun i _ => if_pos i.isLt
  rw [tail, Spec.hintCount]

/-! ## Decoding -/

theorem byteAt_drop (bytes : List UInt8) (offset index : ℕ) :
    byteAt (bytes.drop offset) index = byteAt bytes (offset + index) := by
  rw [byteAt, byteAt, List.getElem?_drop]

theorem coeff_foldl_assign (position : ℕ → ℕ) (small : ∀ j, position j < 256)
    (n : ℕ) : ∀ (js : List ℕ) (row : Poly),
      (js.foldl (fun row j => row.assign (position j) 1) row).coeff n =
        if js.any fun j => position j = n then 1 else row.coeff n
  | [], row => by simp
  | j :: rest, row => by
      rw [List.foldl_cons, coeff_foldl_assign position small n rest,
        coeff_assign _ _ (small j), List.any_cons]
      by_cases here : position j = n
      · simp [here]
      · simp [here]

section Decoding

variable (h : Region InternalStorage PolyVecK) (sig : List UInt8)

theorem unpackPositions_spec (i : Fin 8) (k : ℕ) : ∀ (js : List ℕ) (storage),
    ((unpackPositions h sig i k js).value storage = true ↔
        ∀ j ∈ js, k < j → byteAt sig (4544 + j - 1) < byteAt sig (4544 + j)) ∧
      ((unpackPositions h sig i k js).value storage = true →
        (unpackPositions h sig i k js).finish storage =
          h.setRow i (js.foldl (fun row j => row.assign (byteAt sig (4544 + j)) 1)
            (h.read storage)[i]) storage)
  | [], storage => by
      constructor
      · simp [unpackPositions]
      · intro _
        rw [List.foldl_nil, Region.setRow,
          show (h.read storage).set i (h.read storage)[i] = h.read storage from
            Vector.set_getElem_self i.isLt, h.write_read]
        rfl
  | j :: rest, storage => by
      have next := unpackPositions_spec i k rest
        (h.setRow i ((h.read storage)[i].assign (byteAt sig (4544 + j)) 1) storage)
      rw [unpackPositions]
      by_cases refused : j > k ∧ byteAt sig (4544 + j) ≤ byteAt sig (4544 + j - 1)
      · rw [if_pos refused]
        constructor
        · simp only [Program.value_pure, Bool.false_eq_true, List.mem_cons, false_iff]
          intro ordered
          have increases := ordered j (Or.inl rfl) refused.1
          omega
        · intro accepted
          exact absurd accepted (by simp)
      · rw [if_neg refused]
        simp only [Program.value_bind, Program.finish_bind, Program.finish_update]
        have row : (h.read (h.setRow i ((h.read storage)[i].assign
            (byteAt sig (4544 + j)) 1) storage))[i] =
              (h.read storage)[i].assign (byteAt sig (4544 + j)) 1 := by
          rw [Region.read_setRow]
          exact Vector.getElem_set_self i.isLt
        constructor
        · rw [next.1]
          constructor
          · intro ordered j' member above
            rcases List.mem_cons.mp member with rfl | member
            · omega
            · exact ordered j' member above
          · exact fun ordered j' member => ordered j' (List.mem_cons_of_mem _ member)
        · intro accepted
          rw [next.2 accepted, row, List.foldl_cons, Region.setRow, Region.setRow,
            Region.setRow, Region.write_write, Region.read_write]
          simp

def hintRow (bytes : List UInt8) (i : Fin 8) : Poly :=
  Vector.ofFn fun n => if Spec.hintAt bytes i n then 1 else 0

/-- What the decoder checks in the rows from `first` on. -/
def HintRowsFrom (bytes : List UInt8) (first : ℕ) : Prop :=
  ∀ i < 8, first ≤ i →
    (Spec.hintStart bytes i ≤ Spec.hintEnd bytes i ∧ Spec.hintEnd bytes i ≤ 75) ∧
      ∀ j, Spec.hintStart bytes i < j → j < Spec.hintEnd bytes i →
        byteAt bytes (j - 1) < byteAt bytes j

theorem hintRowsFrom_succ {bytes : List UInt8} {first : ℕ} (bound : first < 8) :
    HintRowsFrom bytes first ↔
      ((Spec.hintStart bytes first ≤ Spec.hintEnd bytes first ∧
          Spec.hintEnd bytes first ≤ 75) ∧
        ∀ j, Spec.hintStart bytes first < j → j < Spec.hintEnd bytes first →
          byteAt bytes (j - 1) < byteAt bytes j) ∧
      HintRowsFrom bytes (first + 1) := by
  constructor
  · exact fun rows => ⟨rows first bound (Nat.le_refl _),
      fun i inRange above => rows i inRange (by omega)⟩
  · intro rows i inRange above
    rcases Nat.eq_or_lt_of_le above with rfl | later
    · exact rows.1
    · exact rows.2 i inRange later

theorem foldl_assign_zero (i : Fin 8) :
    (List.range' (Spec.hintStart (sig.drop 4544) i)
        (Spec.hintEnd (sig.drop 4544) i - Spec.hintStart (sig.drop 4544) i)).foldl
      (fun row j => row.assign (byteAt sig (4544 + j)) 1) Poly.zero =
      hintRow (sig.drop 4544) i := by
  apply ext_coeff
  intro n bound
  rw [coeff_foldl_assign (fun j => byteAt sig (4544 + j))
      (fun j => byteAt_lt sig (4544 + j)), hintRow, coeff_ofFn _ bound, Spec.hintAt]
  have blank : Poly.zero.coeff n = 0 := by simp [Poly.zero, coeff, bound]
  simp only [byteAt_drop, blank]

theorem unpackPositions_value (i : Fin 8) (storage : InternalStorage) :
    (unpackPositions h sig i (Spec.hintStart (sig.drop 4544) i)
        (List.range' (Spec.hintStart (sig.drop 4544) i)
          (Spec.hintEnd (sig.drop 4544) i -
            Spec.hintStart (sig.drop 4544) i))).value storage = true ↔
      ∀ j, Spec.hintStart (sig.drop 4544) i < j → j < Spec.hintEnd (sig.drop 4544) i →
        byteAt (sig.drop 4544) (j - 1) < byteAt (sig.drop 4544) j := by
  rw [(unpackPositions_spec h sig i _ _ storage).1]
  simp only [byteAt_drop, List.mem_range'_1]
  constructor
  · intro ordered j above below
    have increases := ordered j ⟨by omega, by omega⟩ above
    rwa [Nat.add_sub_assoc (by omega)] at increases
  · intro increasing j within above
    have increases := increasing j above (by omega)
    rwa [Nat.add_sub_assoc (by omega)]

theorem unpackHintRows_spec : ∀ (count first : ℕ), first + count = 8 → ∀ storage,
    (((unpackHintRows h sig ((List.finRange 8).drop first)
          (Spec.hintStart (sig.drop 4544) first)).value storage).isSome = true ↔
        HintRowsFrom (sig.drop 4544) first) ∧
      ∀ last, (unpackHintRows h sig ((List.finRange 8).drop first)
          (Spec.hintStart (sig.drop 4544) first)).value storage = some last →
        last = Spec.hintStart (sig.drop 4544) 8 ∧
        (unpackHintRows h sig ((List.finRange 8).drop first)
          (Spec.hintStart (sig.drop 4544) first)).finish storage =
            h.write (Vector.ofFn fun i => if first ≤ i.val then
              hintRow (sig.drop 4544) i else (h.read storage)[i]) storage := by
  intro count
  induction count with
  | zero =>
      intro first total storage
      obtain rfl : first = 8 := by omega
      have none : (List.finRange 8).drop 8 = [] := rfl
      rw [none, unpackHintRows]
      refine ⟨⟨fun _ i bound above => by omega, fun _ => rfl⟩, ?_⟩
      intro last found
      refine ⟨(Option.some.inj found).symm, ?_⟩
      have unchanged : (Vector.ofFn fun i : Fin 8 => if 8 ≤ i.val then
          hintRow (sig.drop 4544) i else (h.read storage)[i]) = h.read storage := by
        ext1 i bound
        rw [Vector.getElem_ofFn, if_neg (by omega)]
        rfl
      rw [unchanged, h.write_read]
      rfl
  | succ count induction =>
      intro first total storage
      have bound : first < 8 := by omega
      have items : (List.finRange 8).drop first =
          (⟨first, bound⟩ : Fin 8) :: (List.finRange 8).drop (first + 1) := by
        rw [List.drop_eq_getElem_cons (by simpa using bound)]
        simp
      have ending : byteAt sig (4544 + 75 + (⟨first, bound⟩ : Fin 8)) =
          Spec.hintEnd (sig.drop 4544) first := by
        rw [Spec.hintEnd, byteAt_drop, Nat.add_assoc]
      rw [items, unpackHintRows]
      simp only [Program.value_bind, Program.finish_bind, Program.finish_update, ending]
      rw [hintRowsFrom_succ bound]
      by_cases refused : Spec.hintEnd (sig.drop 4544) first <
          Spec.hintStart (sig.drop 4544) first ∨ Spec.hintEnd (sig.drop 4544) first > 75
      · rw [if_pos refused]
        refine ⟨⟨fun found => absurd found (by simp), fun rows => ?_⟩,
          fun last found => absurd found (by simp)⟩
        have ends := rows.1.1
        omega
      have ends : Spec.hintStart (sig.drop 4544) first ≤
          Spec.hintEnd (sig.drop 4544) first ∧
            Spec.hintEnd (sig.drop 4544) first ≤ 75 := by omega
      rw [if_neg refused]
      simp only [Program.value_bind, Program.finish_bind]
      have positions := unpackPositions_value h sig ⟨first, bound⟩
        (h.setRow ⟨first, bound⟩ Poly.zero storage)
      dsimp only at positions
      by_cases ordered : (unpackPositions h sig ⟨first, bound⟩
          (Spec.hintStart (sig.drop 4544) first)
          (List.range' (Spec.hintStart (sig.drop 4544) first)
            (Spec.hintEnd (sig.drop 4544) first -
              Spec.hintStart (sig.drop 4544) first))).value
          (h.setRow ⟨first, bound⟩ Poly.zero storage) = true
      · have stored := (unpackPositions_spec h sig ⟨first, bound⟩ _ _ _).2 ordered
        have cleared : (h.read (h.setRow ⟨first, bound⟩ Poly.zero storage))[
            (⟨first, bound⟩ : Fin 8)] = Poly.zero := by
          rw [Region.read_setRow]
          exact Vector.getElem_set_self bound
        rw [cleared, foldl_assign_zero sig ⟨first, bound⟩] at stored
        have rest := induction (first + 1) (by omega)
          (h.setRow ⟨first, bound⟩ (hintRow (sig.drop 4544) ⟨first, bound⟩)
            (h.setRow ⟨first, bound⟩ Poly.zero storage))
        rw [ordered, if_pos rfl, stored]
        refine ⟨?_, ?_⟩
        · rw [show Spec.hintEnd (sig.drop 4544) first =
            Spec.hintStart (sig.drop 4544) (first + 1) from rfl, rest.1]
          constructor
          · exact fun later => ⟨⟨ends, positions.mp ordered⟩, later⟩
          · exact fun rows => rows.2
        · intro last found
          have final := rest.2 last found
          refine ⟨final.1, final.2.trans ?_⟩
          rw [Region.setRow, Region.setRow, Region.write_write, Region.write_write]
          congr 1
          ext1 i inRange
          simp only [Vector.getElem_ofFn, Region.read_write, getElem_index]
          rcases Nat.lt_trichotomy i first with below | rfl | above
          · rw [if_neg (by omega), if_neg (by omega), Vector.getElem_set_ne _ _ (by omega),
              Vector.getElem_set_ne _ _ (by omega)]
          · rw [if_neg (by omega), if_pos (Nat.le_refl _), Vector.getElem_set_self]
          · rw [if_pos (by omega), if_pos (by omega)]
      · rw [Bool.not_eq_true] at ordered
        rw [ordered, if_neg Bool.false_ne_true]
        refine ⟨⟨fun found => absurd found (by simp), fun rows => ?_⟩,
          fun last found => absurd found (by simp)⟩
        have accepted := positions.mpr rows.1.2
        rw [ordered] at accepted
        exact absurd accepted Bool.false_ne_true

def hintWords (bytes : List UInt8) : PolyVecK :=
  Vector.ofFn (hintRow bytes)

/-- `unpack_sig_volatile` accepts exactly the well-formed encodings. -/
theorem unpackSigVolatile_value (z : Region InternalStorage PolyVecL)
    (storage : InternalStorage) :
    (unpackSigVolatile z h sig).value storage = true ↔
      Spec.WellFormedHints (sig.drop 4544) := by
  have spec := unpackHintRows_spec h sig 8 0 rfl
  rw [List.drop_zero, Spec.hintStart] at spec
  rw [unpackSigVolatile]
  simp only [Program.value_bind]
  generalize Program.finish _ storage = before
  have rows := (spec before).1
  have last := (spec before).2
  cases found : (unpackHintRows h sig (List.finRange 8) 0).value before with
  | none =>
      rw [found] at rows
      simp only [Program.value_pure, Bool.false_eq_true, false_iff]
      intro wellFormed
      have accepted := rows.mpr fun i bound _ =>
        ⟨wellFormed.ends i bound, wellFormed.increasing i bound⟩
      exact absurd accepted (by simp)
  | some k =>
      rw [found] at rows
      obtain rfl := (last k found).1
      have accepted := rows.mp rfl
      simp only [Program.value_pure, List.all_eq_true, List.mem_range'_1,
        decide_eq_true_eq]
      constructor
      · intro unused
        refine ⟨fun i bound => (accepted i bound (Nat.zero_le _)).1,
          fun i bound => (accepted i bound (Nat.zero_le _)).2, ?_⟩
        intro j above below
        rw [byteAt_drop]
        exact unused j ⟨above, by
          change Spec.hintStart (sig.drop 4544) 8 ≤ j at above
          omega⟩
      · intro wellFormed j within
        rw [← byteAt_drop]
        exact wellFormed.unused j within.1 (by omega)

theorem unpackSigVolatile_finish (storage : InternalStorage)
    (wellFormed : Spec.WellFormedHints (sig.drop 4544)) :
    (unpackSigVolatile zRegion hRegion sig).finish storage =
      { storage with
        z := Vector.ofFn fun b => polyZUnpack (sig.drop (64 + b * 640))
        h := hintWords (sig.drop 4544) } := by
  have accepted := (unpackSigVolatile_value hRegion sig zRegion storage).mpr wellFormed
  have spec := unpackHintRows_spec hRegion sig 8 0 rfl
  rw [List.drop_zero, Spec.hintStart] at spec
  have rows : ∀ before, ∃ k,
      (unpackHintRows hRegion sig (List.finRange 8) 0).value before = some k := by
    intro before
    apply Option.isSome_iff_exists.mp
    exact (spec before).1.mpr fun i bound _ =>
      ⟨wellFormed.ends i bound, wellFormed.increasing i bound⟩
  rw [unpackSigVolatile]
  simp only [Program.finish_bind]
  rw [finish_writeRows zRegion (fun _ _ _ _ _ => rfl)]
  obtain ⟨k, found⟩ := rows (zRegion.write (Vector.ofFn fun b =>
    polyZUnpack (sig.drop (64 + b * 640))) storage)
  rw [found, ((spec _).2 k found).2]
  simp [hintWords]

end Decoding

/-! ## Decoding an encoding -/

section RoundTrip

variable {hints : Spec.Hints}

@[simp] theorem length_hintEncode (few : Spec.hintCount hints ≤ 75) :
    (Spec.hintEncode hints).length = 83 := by
  have all : (Spec.positions hints 8).length ≤ 75 := few
  simp [Spec.hintEncode, Spec.hintCount]
  omega

theorem byteAt_hintEncode (few : Spec.hintCount hints ≤ 75) {j : ℕ} (low : j < 75) :
    byteAt (Spec.hintEncode hints) j = (Spec.positions hints 8)[j]?.getD 0 := by
  have all : (Spec.positions hints 8).length ≤ 75 := few
  have padded : ((Spec.positions hints 8).map UInt8.ofNat ++
      List.replicate (75 - Spec.hintCount hints) 0).length = 75 := by
    simp [Spec.hintCount]
    omega
  rw [byteAt, Spec.hintEncode, List.getElem?_append_left (by omega)]
  rcases Nat.lt_or_ge j (Spec.positions hints 8).length with used | unused
  · have small := Spec.mem_positions_lt hints (List.getElem_mem used)
    rw [List.getElem?_append_left (by simpa using used)]
    simp only [List.getElem?_map, List.getElem?_eq_getElem used, Option.map_some,
      Option.getD_some, UInt8.toNat_ofNat']
    omega
  · rw [List.getElem?_append_right (by simpa using unused),
      List.getElem?_eq_none unused, List.getElem?_replicate]
    split <;> rfl

theorem hintEnd_hintEncode (few : Spec.hintCount hints ≤ 75) {i : ℕ} (bound : i < 8) :
    Spec.hintEnd (Spec.hintEncode hints) i = (Spec.positions hints (i + 1)).length := by
  have all : (Spec.positions hints 8).length ≤ 75 := few
  have padded : ((Spec.positions hints 8).map UInt8.ofNat ++
      List.replicate (75 - Spec.hintCount hints) 0).length = 75 := by
    simp [Spec.hintCount]
    omega
  have within : (Spec.positions hints (i + 1)).length ≤ 75 :=
    (Spec.length_positions_le hints (Nat.succ_le_of_lt bound)).trans few
  rw [Spec.hintEnd, byteAt, Spec.hintEncode, List.getElem?_append_right (by omega),
    padded, Nat.add_sub_cancel_left]
  simp only [List.getElem?_map]
  rw [List.getElem?_eq_getElem (by simpa using bound)]
  simp only [List.getElem_finRange, Option.map_some, Option.getD_some, Fin.val_cast,
    UInt8.toNat_ofNat']
  exact Nat.mod_eq_of_lt (by omega)

theorem hintStart_hintEncode (few : Spec.hintCount hints ≤ 75) {i : ℕ} (bound : i ≤ 8) :
    Spec.hintStart (Spec.hintEncode hints) i = (Spec.positions hints i).length := by
  cases i with
  | zero => rfl
  | succ i => exact hintEnd_hintEncode few (by omega)

theorem byteAt_hintEncode_row (few : Spec.hintCount hints ≤ 75) (i : Fin 8) {j : ℕ}
    (bound : j < (Spec.rowPositions (hints i)).length) :
    byteAt (Spec.hintEncode hints) ((Spec.positions hints i).length + j) =
      (Spec.rowPositions (hints i))[j] := by
  have next := Spec.positions_succ hints i
  have total := Spec.length_positions_le hints (Nat.succ_le_of_lt i.isLt)
  rw [Nat.succ_eq_add_one, next, List.length_append] at total
  obtain ⟨rest, split⟩ := Spec.positions_initial hints (Nat.succ_le_of_lt i.isLt)
  rw [byteAt_hintEncode few (by omega), ← split, Nat.succ_eq_add_one, next,
    List.append_assoc, List.getElem?_append_right (Nat.le_add_right _ _),
    Nat.add_sub_cancel_left, List.getElem?_append_left bound,
    List.getElem?_eq_getElem bound, Option.getD_some]

theorem wellFormed_hintEncode (few : Spec.hintCount hints ≤ 75) :
    Spec.WellFormedHints (Spec.hintEncode hints) where
  ends i bound := by
    have grows := (Spec.positions_initial hints (Nat.le_succ i)).length_le
    have within := Spec.length_positions_le hints (Nat.succ_le_of_lt bound)
    rw [hintStart_hintEncode few bound.le, hintEnd_hintEncode few bound]
    exact ⟨grows, within.trans few⟩
  increasing i bound j above below := by
    have next := Spec.positions_succ hints ⟨i, bound⟩
    rw [hintStart_hintEncode few bound.le] at above
    rw [hintEnd_hintEncode few bound, next, List.length_append] at below
    dsimp only at below
    obtain ⟨offset, rfl⟩ := Nat.exists_eq_add_of_lt above
    have later := byteAt_hintEncode_row few ⟨i, bound⟩
      (show offset + 1 < (Spec.rowPositions (hints ⟨i, bound⟩)).length by omega)
    have earlier := byteAt_hintEncode_row few ⟨i, bound⟩
      (show offset < (Spec.rowPositions (hints ⟨i, bound⟩)).length by omega)
    have ordered := List.pairwise_iff_getElem.mp
      (Spec.rowPositions_increasing (hints ⟨i, bound⟩)) offset (offset + 1)
        (by omega) (by omega) (by omega)
    dsimp only at later earlier
    rw [Nat.add_sub_cancel, Nat.add_assoc, later, earlier]
    exact ordered
  unused j above below := by
    rw [hintEnd_hintEncode few (by omega)] at above
    rw [byteAt_hintEncode few below, List.getElem?_eq_none above, Option.getD_none]

/-- Decoding returns the hints. -/
theorem hintAt_hintEncode (few : Spec.hintCount hints ≤ 75) (i : Fin 8) {n : ℕ}
    (bound : n < 256) : Spec.hintAt (Spec.hintEncode hints) i n = hints i n := by
  have next := Spec.positions_succ hints i
  rw [Bool.eq_iff_iff, Spec.hintAt, List.any_eq_true, hintStart_hintEncode few i.isLt.le,
    hintEnd_hintEncode few i.isLt, next, List.length_append, Nat.add_sub_cancel_left]
  simp only [List.mem_range'_1, decide_eq_true_eq]
  constructor
  · rintro ⟨j, ⟨above, below⟩, found⟩
    obtain ⟨offset, rfl⟩ := Nat.exists_eq_add_of_le above
    rw [byteAt_hintEncode_row few i (by omega)] at found
    have member := List.getElem_mem (l := Spec.rowPositions (hints i))
      (show offset < _ by omega)
    rw [found] at member
    exact (Spec.mem_rowPositions.mp member).2
  · intro hint
    have member := Spec.mem_rowPositions.mpr ⟨bound, hint⟩
    obtain ⟨offset, inRange, found⟩ := List.getElem_of_mem member
    refine ⟨(Spec.positions hints i).length + offset, ⟨by omega, by omega⟩, ?_⟩
    rw [byteAt_hintEncode_row few i inRange, found]

end RoundTrip

end LedgerQrl.Mldsa87
