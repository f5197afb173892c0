import LedgerQrl.Mldsa87.Product
import LedgerQrl.Mldsa87.Sign

namespace LedgerQrl.Mldsa87

open Foundation InternalStorage

/-! # What the loops over the storage leave

Every loop that rewrites a vector row by row leaves the vector of the new rows
and nothing else, because no row depends on another row of the same vector. -/

section Regions

variable (storage : InternalStorage) (k : PolyVecK) (l : PolyVecL)

@[simp] theorem read_t1Region : t1Region.read storage = storage.t1 := rfl
@[simp] theorem read_w1Region : w1Region.read storage = storage.w1 := rfl
@[simp] theorem read_w0Region : w0Region.read storage = storage.w0 := rfl
@[simp] theorem read_hRegion : hRegion.read storage = storage.h := rfl
@[simp] theorem read_yRegion : yRegion.read storage = storage.y := rfl
@[simp] theorem read_zRegion : zRegion.read storage = storage.z := rfl
@[simp] theorem read_pack1Region : pack1Region.read storage = storage.pack1 := rfl
@[simp] theorem write_t1Region :
    t1Region.write k storage = { storage with t1 := k } := rfl
@[simp] theorem write_w1Region :
    w1Region.write k storage = { storage with w1 := k } := rfl
@[simp] theorem write_w0Region :
    w0Region.write k storage = { storage with w0 := k } := rfl
@[simp] theorem write_hRegion :
    hRegion.write k storage = { storage with h := k } := rfl
@[simp] theorem write_yRegion :
    yRegion.write l storage = { storage with y := l } := rfl
@[simp] theorem write_zRegion :
    zRegion.write l storage = { storage with z := l } := rfl
@[simp] theorem write_pack1Region :
    pack1Region.write k storage = { storage with pack1 := k } := rfl

end Regions

section Rows

variable {rows : ℕ} (region : Region InternalStorage (Vector Poly rows))

theorem finish_writeRows {row : Fin rows → InternalStorage → Poly}
    (own : ∀ index other storage value, index ≠ other →
      row other (region.setRow index value storage) = row other storage)
    (storage : InternalStorage) :
    (writeRows region row).finish storage =
      region.write (Vector.ofFn fun index => row index storage) storage :=
  Program.finish_forRows region row (fun _ _ => rfl) own storage

theorem length_history_writeRows (row : Fin rows → InternalStorage → Poly)
    (storage : InternalStorage) :
    ((writeRows region row).history storage).length = rows := by
  rw [writeRows, Program.length_history_forRows _ (fun _ _ => rfl), Nat.mul_one]

theorem read_setRow_other {index other : Fin rows} (different : index ≠ other)
    (value : Poly) (storage : InternalStorage) :
    (region.read (region.setRow index value storage))[other] =
      (region.read storage)[other] := by
  have apart : index.val ≠ other.val := fun equal => different (Fin.ext equal)
  rw [Region.read_setRow]
  exact Vector.getElem_set_ne index.isLt other.isLt apart

@[simp] theorem finish_mapRows (f : Poly → Poly) (storage : InternalStorage) :
    (mapRows region f).finish storage =
      region.write ((region.read storage).map f) storage := by
  rw [mapRows, finish_writeRows]
  · congr 1
    ext index bound : 1
    simp
  · intro index other storage value different
    rw [read_setRow_other region different]

/-- An operand that writing the region does not change. -/
def Independent {Content : Type} (operand : InternalStorage → Content) : Prop :=
  ∀ content storage, operand (region.write content storage) = operand storage

@[simp] theorem independent_const {Content : Type} (content : Content) :
    Independent region fun _ => content :=
  fun _ _ => rfl

theorem Independent.setRow {Content : Type} {operand : InternalStorage → Content}
    {region : Region InternalStorage (Vector Poly rows)}
    (independent : Independent region operand) (index : Fin rows) (value : Poly)
    (storage : InternalStorage) :
    operand (region.setRow index value storage) = operand storage :=
  independent _ storage

theorem finish_polyVecAddVolatile {v : InternalStorage → Vector Poly rows}
    (independent : Independent region v) (storage : InternalStorage) :
    (polyVecAddVolatile region v).finish storage =
      region.write (Vector.zipWith polyAdd (region.read storage) (v storage))
        storage := by
  rw [polyVecAddVolatile, finish_writeRows]
  · congr 1
    ext index bound : 1
    simp
  · intro index other storage value different
    rw [read_setRow_other region different, independent.setRow]

theorem finish_polyVecPointwise {a : InternalStorage → Poly}
    {v : InternalStorage → Vector Poly rows}
    (independent : Independent region a)
    (own : ∀ index other storage value, index ≠ other →
      (v (region.setRow index value storage))[other] = (v storage)[other])
    (storage : InternalStorage) :
    (polyVecPointwisePolyMontgomeryVolatile region a v).finish storage =
      region.write ((v storage).map (polyPointwiseMontgomery (a storage)))
        storage := by
  rw [polyVecPointwisePolyMontgomeryVolatile, finish_writeRows]
  · congr 1
    ext index bound : 1
    simp
  · intro index other storage value different
    rw [independent.setRow, own _ _ _ _ different]

end Rows

/-! ## Operands that lie elsewhere -/

@[simp] theorem pack1_t1_independent : Independent pack1Region t1Region.read :=
  fun _ _ => rfl
@[simp] theorem w0_w1_independent : Independent w0Region w1Region.read :=
  fun _ _ => rfl
@[simp] theorem w1_z_independent : Independent w1Region zRegion.read :=
  fun _ _ => rfl
@[simp] theorem z_y_independent : Independent zRegion yRegion.read :=
  fun _ _ => rfl
@[simp] theorem w0_h_independent : Independent w0Region hRegion.read :=
  fun _ _ => rfl
@[simp] theorem h_pack1_independent : Independent hRegion pack1Region.read :=
  fun _ _ => rfl
@[simp] theorem w1_t1_independent : Independent w1Region t1Region.read :=
  fun _ _ => rfl
@[simp] theorem w1_h_independent : Independent w1Region hRegion.read :=
  fun _ _ => rfl
@[simp] theorem z_cp_independent : Independent zRegion fun storage => storage.cp :=
  fun _ _ => rfl
@[simp] theorem h_cp_independent : Independent hRegion fun storage => storage.cp :=
  fun _ _ => rfl
@[simp] theorem t1_cp_independent : Independent t1Region fun storage => storage.cp :=
  fun _ _ => rfl

/-! ## The vector functions -/

section Functions

variable (region : Region InternalStorage PolyVecK)
  (shorter : Region InternalStorage PolyVecL) (storage : InternalStorage)

@[simp] theorem finish_polyVecKReduceVolatile :
    (polyVecKReduceVolatile region).finish storage =
      region.write ((region.read storage).map polyReduce) storage :=
  finish_mapRows region polyReduce storage

@[simp] theorem finish_polyVecLReduceVolatile :
    (polyVecLReduceVolatile shorter).finish storage =
      shorter.write ((shorter.read storage).map polyReduce) storage :=
  finish_mapRows shorter polyReduce storage

@[simp] theorem finish_polyVecKInvNttToMontVolatile :
    (polyVecKInvNttToMontVolatile region).finish storage =
      region.write ((region.read storage).map invNttToMont) storage := by
  rw [← invNttToMontInLine_eq]
  exact finish_mapRows region invNttToMontInLine storage

@[simp] theorem finish_polyVecLInvNttToMontVolatile :
    (polyVecLInvNttToMontVolatile shorter).finish storage =
      shorter.write ((shorter.read storage).map invNttToMont) storage := by
  rw [← invNttToMontInLine_eq]
  exact finish_mapRows shorter invNttToMontInLine storage

@[simp] theorem finish_polyVecKNttVolatile :
    (polyVecKNttVolatile region).finish storage =
      region.write ((region.read storage).map ntt) storage := by
  rw [← nttInLine_eq]
  exact finish_mapRows region nttInLine storage

@[simp] theorem finish_polyVecLNttVolatile :
    (polyVecLNttVolatile shorter).finish storage =
      shorter.write ((shorter.read storage).map ntt) storage := by
  rw [← nttInLine_eq]
  exact finish_mapRows shorter nttInLine storage

omit region shorter in
@[simp] theorem finish_polyNttVolatile :
    polyNttVolatile.finish storage = { storage with cp := ntt storage.cp } := by
  rw [polyNttVolatile, Program.finish_update, nttInLine_eq]

@[simp] theorem finish_polyVecKCAddqVolatile :
    (polyVecKCAddqVolatile region).finish storage =
      region.write ((region.read storage).map polyCAddq) storage :=
  finish_mapRows region polyCAddq storage

@[simp] theorem finish_polyVecKShiftLVolatile :
    (polyVecKShiftLVolatile region).finish storage =
      region.write ((region.read storage).map polyShiftL) storage :=
  finish_mapRows region polyShiftL storage

@[simp] theorem finish_polyVecKAddVolatile {v : InternalStorage → PolyVecK}
    (independent : Independent region v) :
    (polyVecKAddVolatile region v).finish storage =
      region.write (Vector.zipWith polyAdd (region.read storage) (v storage))
        storage :=
  finish_polyVecAddVolatile region independent storage

@[simp] theorem finish_polyVecLAddVolatile {v : InternalStorage → PolyVecL}
    (independent : Independent shorter v) :
    (polyVecLAddVolatile shorter v).finish storage =
      shorter.write (Vector.zipWith polyAdd (shorter.read storage) (v storage))
        storage :=
  finish_polyVecAddVolatile shorter independent storage

@[simp] theorem finish_polyVecKPointwise {a : InternalStorage → Poly}
    {v : InternalStorage → PolyVecK} (operand : Independent region a)
    (independent : Independent region v) :
    (polyVecKPointwisePolyMontgomeryVolatile region a v).finish storage =
      region.write ((v storage).map (polyPointwiseMontgomery (a storage))) storage :=
  finish_polyVecPointwise region operand
    (fun index _ storage value _ => by rw [independent.setRow index value storage])
    storage

/-- In place. -/
@[simp] theorem finish_polyVecKPointwise_self {a : InternalStorage → Poly}
    (operand : Independent region a) :
    (polyVecKPointwisePolyMontgomeryVolatile region a region.read).finish storage =
      region.write ((region.read storage).map (polyPointwiseMontgomery (a storage)))
        storage :=
  finish_polyVecPointwise region operand
    (fun _ _ storage value different => read_setRow_other region different value storage)
    storage

@[simp] theorem finish_polyVecLPointwise {a : InternalStorage → Poly}
    {v : InternalStorage → PolyVecL} (operand : Independent shorter a)
    (independent : Independent shorter v) :
    (polyVecLPointwisePolyMontgomeryVolatile shorter a v).finish storage =
      shorter.write ((v storage).map (polyPointwiseMontgomery (a storage))) storage :=
  finish_polyVecPointwise shorter operand
    (fun index _ storage value _ => by rw [independent.setRow index value storage])
    storage

@[simp] theorem finish_polyVecKSubVolatile {v : InternalStorage → PolyVecK}
    (independent : Independent region v) :
    (polyVecKSubVolatile region region.read v).finish storage =
      region.write (Vector.zipWith polySub (region.read storage) (v storage))
        storage := by
  rw [polyVecKSubVolatile, finish_writeRows]
  · congr 1
    ext index bound : 1
    simp
  · intro index other storage value different
    rw [read_setRow_other region different, independent.setRow]

private theorem finish_twoParts {v1 v0 : Region InternalStorage PolyVecK}
    (f g : Poly → Poly) (unchanged : Independent v0 v1.read) :
    (do
        writeRows v0 fun i storage => f (v1.read storage)[i]
        writeRows v1 fun i storage => g (v1.read storage)[i] :
          NvmProgram Unit).finish storage =
      v1.write ((v1.read storage).map g)
        (v0.write ((v1.read storage).map f) storage) := by
  have second := finish_mapRows v1 g (v0.write ((v1.read storage).map f) storage)
  rw [unchanged] at second
  rw [Program.finish_bind, finish_writeRows v0]
  · have first : (Vector.ofFn fun i => f (v1.read storage)[i]) =
        (v1.read storage).map f := by
      ext index bound : 1
      simp
    rw [first]
    exact second
  · intro index other storage value different
    rw [unchanged.setRow]

@[simp] theorem finish_polyVecKPower2RoundVolatile {v1 v0 : Region InternalStorage PolyVecK}
    (unchanged : Independent v0 v1.read) :
    (polyVecKPower2RoundVolatile v1 v0 v1.read).finish storage =
      v1.write ((v1.read storage).map fun row => row.map fun a => (power2Round a).1)
        (v0.write ((v1.read storage).map fun row => row.map fun a => (power2Round a).2)
          storage) :=
  finish_twoParts storage (fun row => row.map fun a => (power2Round a).2)
    (fun row => row.map fun a => (power2Round a).1) unchanged

@[simp] theorem finish_polyVecKDecomposeVolatile {v1 v0 : Region InternalStorage PolyVecK}
    (unchanged : Independent v0 v1.read) :
    (polyVecKDecomposeVolatile v1 v0 v1.read).finish storage =
      v1.write ((v1.read storage).map fun row => row.map fun a => (decompose a).1)
        (v0.write ((v1.read storage).map fun row => row.map fun a => (decompose a).2)
          storage) :=
  finish_twoParts storage (fun row => row.map fun a => (decompose a).2)
    (fun row => row.map fun a => (decompose a).1) unchanged

@[simp] theorem finish_polyVecKPower2RoundVolatileKeypair :
    (polyVecKPower2RoundVolatileKeypair region region.read).finish storage =
      region.write
        ((region.read storage).map fun row => row.map fun a => (power2Round a).1)
        storage :=
  finish_mapRows region (fun row => row.map fun a => (power2Round a).1) storage

end Functions

/-! ## The matrix product -/

private theorem foldl_setRow {rows : ℕ}
    (region : Region InternalStorage (Vector Poly rows)) (index : Fin rows)
    {Operand : Type} (operand : InternalStorage → Operand)
    (independent : Independent region operand)
    (step : Fin 7 → Operand → Poly → Poly) (columns : List (Fin 7))
    (storage : InternalStorage) :
    (Program.forEach columns fun j => Program.update fun storage =>
        region.setRow index
          (step j (operand storage) (region.read storage)[index])
          storage).finish storage =
      region.setRow index (columns.foldl (fun acc j =>
        step j (operand storage) acc) (region.read storage)[index]) storage := by
  induction columns generalizing storage with
  | nil =>
      rw [Program.finish_forEach_nil, List.foldl_nil, Region.setRow]
      have unchanged : (region.read storage).set index (region.read storage)[index] =
          region.read storage := Vector.set_getElem_self index.isLt
      rw [unchanged, region.write_read]
  | cons j rest induction =>
      rw [Program.finish_forEach_cons, Program.finish_update, induction,
        List.foldl_cons, independent.setRow, Region.read_setRow]
      simp only [Region.setRow, Region.read_write, Region.write_write]
      simp

@[simp] theorem finish_combinedMethod (shake : Shake)
    (t1 : Region InternalStorage PolyVecK) {s1hat : InternalStorage → PolyVecL}
    (independent : Independent t1 s1hat) (rho : List UInt8)
    (storage : InternalStorage) :
    (combinedMethod shake t1 s1hat rho).finish storage =
      t1.write (Vector.ofFn fun i => rowProduct (fun j => shake.matrixEntry rho i j)
        (s1hat storage) (t1.read storage)[i]) storage := by
  rw [combinedMethod]
  apply Program.finish_forRows t1 fun i storage =>
    rowProduct (fun j => shake.matrixEntry rho i j) (s1hat storage)
      (t1.read storage)[i]
  · intro i storage
    exact foldl_setRow t1 i s1hat independent
      (fun j s1hat acc =>
        if j.val = 0 then
          polyPointwiseMontgomery (shake.matrixEntry rho i j) s1hat[j]
        else polyAdd acc
          (polyPointwiseMontgomery (shake.matrixEntry rho i j) s1hat[j])) _ storage
  · intro index other storage value different
    rw [independent.setRow, read_setRow_other t1 different]

theorem length_history_combinedMethod (shake : Shake)
    (t1 : Region InternalStorage PolyVecK) (s1hat : InternalStorage → PolyVecL)
    (rho : List UInt8) (storage : InternalStorage) :
    ((combinedMethod shake t1 s1hat rho).history storage).length = 56 := by
  have columns : ∀ (i : Fin 8) storage, ((Program.forRows 7 fun j =>
      Program.update fun storage =>
        let product := polyPointwiseMontgomery (shake.matrixEntry rho i j)
          (s1hat storage)[j]
        t1.setRow i
          (if j.val = 0 then product
          else polyAdd (t1.read storage)[i] product)
          storage).history storage).length = 7 := by
    intro i storage
    rw [Program.length_history_forRows _ (fun _ _ => rfl), Nat.mul_one]
  rw [combinedMethod, Program.length_history_forRows _ columns]

end LedgerQrl.Mldsa87
