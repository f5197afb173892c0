import LedgerQrl.Foundation.InPlace
import LedgerQrl.Mldsa87.PolyPack
import LedgerQrl.Mldsa87.Stages

namespace LedgerQrl.Mldsa87

open Foundation Program

/-! # The functions of `polyvec.c`

They work on vectors in memory and assign one coefficient after the other, through
pointers that may name one vector twice. The functions of `sign.c` that work on the
storage prepare a row in a buffer instead and store it with one write. -/

namespace Plain

variable {Store : Type}

/-! ## The functions of `poly.c` they call -/

/-- The loop over the coefficients of `c`. -/
def eachCoeff (c : Region Store Poly) (coeff : Fin 256 → Store → Int) :
    Program Store Unit :=
  forRows 256 fun i => update fun store => c.setRow i (coeff i store) store

def polyCAddq (a : Region Store Poly) : Program Store Unit :=
  eachCoeff a fun i store => cAddq (a.read store)[i]

def polyReduce (a : Region Store Poly) : Program Store Unit :=
  eachCoeff a fun i store => reduce32 (a.read store)[i]

def polyAdd (c : Region Store Poly) (a b : Store → Poly) : Program Store Unit :=
  eachCoeff c fun i store => i32 ((a store)[i] + (b store)[i])

def polySub (c : Region Store Poly) (a b : Store → Poly) : Program Store Unit :=
  eachCoeff c fun i store => i32 ((a store)[i] - (b store)[i])

def polyShiftL (a : Region Store Poly) : Program Store Unit :=
  eachCoeff a fun i store => shl (a.read store)[i] 13

/-- The transforms work in place on the one polynomial they are given. -/
def polyNtt (a : Region Store Poly) : Program Store Unit :=
  update fun store => a.write (ntt (a.read store)) store

def polyInvNttToMont (a : Region Store Poly) : Program Store Unit :=
  update fun store => a.write (invNttToMont (a.read store)) store

def polyPointwiseMontgomery (c : Region Store Poly) (a b : Store → Poly) :
    Program Store Unit :=
  eachCoeff c fun i store => montgomeryReduce ((a store)[i] * (b store)[i])

/-- The loop of `poly_power2_round` and `poly_decompose`: the callee stores the low
part, then its result is assigned. -/
def eachSplit (a1 a0 : Region Store Poly) (a : Store → Poly) (split : Int → Int × Int) :
    Program Store Unit :=
  forRows 256 fun i => do
    let store ← read
    let parts := split (a store)[i]
    update fun store => a0.setRow i parts.2 store
    update fun store => a1.setRow i parts.1 store

def polyPower2Round (a1 a0 : Region Store Poly) (a : Store → Poly) : Program Store Unit :=
  eachSplit a1 a0 a power2Round

def polyDecompose (a1 a0 : Region Store Poly) (a : Store → Poly) : Program Store Unit :=
  eachSplit a1 a0 a decompose

/-- One round of `poly_make_hint`: the hint is added to `s` from where it is stored. -/
def makeHintRound (h : Region Store Poly) (a0 a1 : Store → Poly) (s : ℕ) (i : Fin 256) :
    Program Store ℕ := do
  update fun store => h.setRow i (makeHint (a0 store)[i] (a1 store)[i] : ℕ) store
  let store ← read
  pure (s + u32 (h.read store)[i])

def polyMakeHint (h : Region Store Poly) (a0 a1 : Store → Poly) : Program Store ℕ :=
  (List.finRange 256).foldlM (makeHintRound h a0 a1) 0

def polyUseHint (b : Region Store Poly) (a h : Store → Poly) : Program Store Unit :=
  eachCoeff b fun i store => useHint (a store)[i] (h store)[i]

def polyUniformGamma1 (shake : Shake) (a : Region Store Poly) (seed : List UInt8)
    (nonce : ℕ) : Program Store Unit :=
  update fun store => a.write
    (PolyPack.polyZUnpack (shakeOnce shake.shake256 (seed ++ nonceBytes nonce) 680)) store

/-! ## The vectors -/

/-- Row `i` of a vector that is only read. -/
def vec {rows : ℕ} (v : Store → Vector Poly rows) (i : Fin rows) (store : Store) : Poly :=
  (v store)[i]

/-- The argument of `poly_uniform_gamma1` is an `uint16_t`. -/
def polyVecLUniformGamma1 (shake : Shake) (v : Region Store PolyVecL) (seed : List UInt8)
    (nonce : ℕ) : Program Store Unit :=
  forRows 7 fun i => polyUniformGamma1 shake (v.row i) seed ((7 * nonce + i) % 65536)

def polyVecLReduce (v : Region Store PolyVecL) : Program Store Unit :=
  forRows 7 fun i => polyReduce (v.row i)

def polyVecLAdd (w : Region Store PolyVecL) (u v : Store → PolyVecL) : Program Store Unit :=
  forRows 7 fun i => polyAdd (w.row i) (vec u i) (vec v i)

def polyVecLNtt (v : Region Store PolyVecL) : Program Store Unit :=
  forRows 7 fun i => polyNtt (v.row i)

def polyVecLInvNttToMont (v : Region Store PolyVecL) : Program Store Unit :=
  forRows 7 fun i => polyInvNttToMont (v.row i)

def polyVecLPointwisePolyMontgomery (r : Region Store PolyVecL) (a : Store → Poly)
    (v : Store → PolyVecL) : Program Store Unit :=
  forRows 7 fun i => polyPointwiseMontgomery (r.row i) a (vec v i)

def polyVecKAdd (w : Region Store PolyVecK) (u v : Store → PolyVecK) : Program Store Unit :=
  forRows 8 fun i => polyAdd (w.row i) (vec u i) (vec v i)

def polyVecKSub (w : Region Store PolyVecK) (u v : Store → PolyVecK) : Program Store Unit :=
  forRows 8 fun i => polySub (w.row i) (vec u i) (vec v i)

def polyVecKShiftL (v : Region Store PolyVecK) : Program Store Unit :=
  forRows 8 fun i => polyShiftL (v.row i)

def polyVecKNtt (v : Region Store PolyVecK) : Program Store Unit :=
  forRows 8 fun i => polyNtt (v.row i)

def polyVecKInvNttToMont (v : Region Store PolyVecK) : Program Store Unit :=
  forRows 8 fun i => polyInvNttToMont (v.row i)

def polyVecKPointwisePolyMontgomery (r : Region Store PolyVecK) (a : Store → Poly)
    (v : Store → PolyVecK) : Program Store Unit :=
  forRows 8 fun i => polyPointwiseMontgomery (r.row i) a (vec v i)

def polyVecKPower2Round (v1 v0 : Region Store PolyVecK) (v : Store → PolyVecK) :
    Program Store Unit :=
  forRows 8 fun i => polyPower2Round (v1.row i) (v0.row i) (vec v i)

def polyVecKDecompose (v1 v0 : Region Store PolyVecK) (v : Store → PolyVecK) :
    Program Store Unit :=
  forRows 8 fun i => polyDecompose (v1.row i) (v0.row i) (vec v i)

def polyVecKMakeHint (h : Region Store PolyVecK) (v0 v1 : Store → PolyVecK) :
    Program Store ℕ :=
  (List.finRange 8).foldlM (fun s i => do
    let hints ← polyMakeHint (h.row i) (vec v0 i) (vec v1 i)
    pure (s + hints)) 0

def polyVecKUseHint (w : Region Store PolyVecK) (u h : Store → PolyVecK) :
    Program Store Unit :=
  forRows 8 fun i => polyUseHint (w.row i) (vec u i) (vec h i)

def polyVecKReduce (v : Region Store PolyVecK) : Program Store Unit :=
  forRows 8 fun i => polyReduce (v.row i)

def polyVecKCAddq (v : Region Store PolyVecK) : Program Store Unit :=
  forRows 8 fun i => polyCAddq (v.row i)

end Plain

/-! ## What the loops read -/

section Rows

variable {rows : ℕ} {region : Region InternalStorage (Vector Poly rows)}

/-- A vector that is read: the one that is written, or one that lies elsewhere. -/
def SameOrApart (region : Region InternalStorage (Vector Poly rows))
    (operand : InternalStorage → Vector Poly rows) : Prop :=
  operand = region.read ∨ Independent region operand

theorem sameOrApart_read : SameOrApart region region.read := Or.inl rfl

def OwnCoeff (region : Region InternalStorage (Vector Poly rows))
    (operand : Fin rows → InternalStorage → Poly) : Prop :=
  ∀ row (column other : Fin 256) value storage, column ≠ other →
    (operand row ((region.row row).setRow column value storage))[other] =
      (operand row storage)[other]

theorem SameOrApart.coeff {operand : InternalStorage → Vector Poly rows}
    (reads : SameOrApart region operand) : OwnCoeff region (Plain.vec operand) := by
  intro row column other value storage different
  cases reads with
  | inl same =>
      have apart : column.val ≠ other.val := fun equal => different (Fin.ext equal)
      have assigned : ((region.row row).read ((region.row row).setRow column value
          storage))[other] = ((region.row row).read storage)[other] := by
        rw [Region.read_setRow]
        exact Vector.getElem_set_ne column.isLt other.isLt apart
      subst same
      exact assigned
  | inr independent =>
      have kept : operand ((region.row row).setRow column value storage) =
          operand storage := independent _ storage
      rw [Plain.vec, Plain.vec, kept]

theorem Independent.coeff {operand : InternalStorage → Poly}
    (independent : Independent region operand) : OwnCoeff region fun _ => operand :=
  fun _ _ other _ storage _ => congrArg (·[other]) (independent _ storage)

theorem SameOrApart.setRow {operand : InternalStorage → Vector Poly rows}
    (reads : SameOrApart region operand) {row other : Fin rows} (different : row ≠ other)
    (value : Poly) (storage : InternalStorage) :
    (operand (region.setRow row value storage))[other] = (operand storage)[other] := by
  cases reads with
  | inl same =>
      subst same
      exact read_setRow_other region different value storage
  | inr independent => rw [independent.setRow]

/-! ## Rows that are prepared in the buffer -/

theorem coarsens_writeRows {row : Fin rows → InternalStorage → Poly}
    {cell : Fin rows → Fin 256 → InternalStorage → Int}
    (buffered : ∀ i storage, row i storage = Vector.ofFn fun j => cell i j storage)
    (own : ∀ i column other storage value, column ≠ other →
      cell i other ((region.row i).setRow column value storage) = cell i other storage) :
    Coarsens (writeRows region row)
      (forRows rows fun i => Plain.eachCoeff (region.row i) (cell i)) := by
  apply coarsens_forRows
  intro i
  have stored : (fun storage => region.setRow i (row i storage) storage) =
      fun storage => (region.row i).write
        (Vector.ofFn fun j => cell i j storage) storage := by
    funext storage
    rw [buffered]
    rfl
  rw [stored]
  exact coarsens_cells (region.row i) (by decide) (own i)

theorem coarsens_mapRows (f : Int → Int) :
    Coarsens (mapRows region fun row => row.map f)
      (forRows rows fun i => Plain.eachCoeff (region.row i) fun j storage =>
        f ((region.row i).read storage)[j]) := by
  apply coarsens_writeRows
  · intro i storage
    ext j bound
    rw [Vector.getElem_map, Vector.getElem_ofFn]
    rfl
  · intro i column other storage value different
    exact congrArg f (sameOrApart_read.coeff i column other value storage different)

theorem coarsens_zipRows (f : Int → Int → Int)
    {left right : Fin rows → InternalStorage → Poly} (ownLeft : OwnCoeff region left)
    (ownRight : OwnCoeff region right) :
    Coarsens (writeRows region fun i storage =>
        Vector.zipWith f (left i storage) (right i storage))
      (forRows rows fun i => Plain.eachCoeff (region.row i) fun j storage =>
        f (left i storage)[j] (right i storage)[j]) := by
  apply coarsens_writeRows
  · intro i storage
    ext j bound
    rw [Vector.getElem_zipWith, Vector.getElem_ofFn]
    rfl
  · intro i column other storage value different
    rw [ownLeft i column other value storage different,
      ownRight i column other value storage different]

/-- Rows transformed by a copy of a function that works in place. -/
theorem coarsens_transform {inLine transform : Poly → Poly} (same : inLine = transform) :
    Coarsens (mapRows region inLine) (forRows rows fun i => update fun storage =>
      (region.row i).write (transform ((region.row i).read storage)) storage) := by
  subst same
  exact Coarsens.refl _

end Rows

/-! ## The hints -/

theorem makeHint_lt (a0 a1 : Int) : makeHint a0 a1 < 2 := by
  rw [makeHint, Nat.and_one_is_mod]
  exact Nat.mod_lt _ Nat.two_pos

/-- The hints of one row, as `poly_vec_k_make_hint_volatile` computes them. -/
def makeHintRow (h : Region InternalStorage Poly) (a0 a1 : InternalStorage → Poly) :
    NvmProgram ℕ := do
  let storage ← read
  let row := Vector.zipWith makeHint (a0 storage) (a1 storage)
  update fun storage => h.write (row.map fun (hint : ℕ) => (hint : Int)) storage
  pure (row.foldl (fun s2 hint => s2 + hint) 0)

section Hints

variable {h : Region InternalStorage Poly} {a0 a1 : InternalStorage → Poly}

def hintCell (a0 a1 : InternalStorage → Poly) (column : Fin 256)
    (storage : InternalStorage) : Int :=
  (makeHint (a0 storage)[column] (a1 storage)[column] : ℕ)

theorem finish_makeHintRound (s : ℕ) (column : Fin 256) (storage : InternalStorage) :
    (Plain.makeHintRound h a0 a1 s column).finish storage =
      h.setRow column (hintCell a0 a1 column storage) storage := rfl

theorem value_makeHintRound (s : ℕ) (column : Fin 256) (storage : InternalStorage) :
    (Plain.makeHintRound h a0 a1 s column).value storage =
      s + u32 (hintCell a0 a1 column storage) := by
  have stored : (h.read (h.setRow column (hintCell a0 a1 column storage) storage))[column] =
      hintCell a0 a1 column storage := by
    rw [Region.read_setRow]
    exact Vector.getElem_set_self column.isLt
  exact congrArg (fun value => s + u32 value) stored

theorem ofFn_makeHint (storage : InternalStorage) :
    Vector.zipWith makeHint (a0 storage) (a1 storage) =
      Vector.ofFn fun column : Fin 256 => makeHint (a0 storage)[column] (a1 storage)[column] := by
  ext column bound
  rw [Vector.getElem_zipWith, Vector.getElem_ofFn]
  rfl

variable (own : ∀ (column other : Fin 256) storage value, column ≠ other →
  hintCell a0 a1 other (h.setRow column value storage) = hintCell a0 a1 other storage)

include own

theorem value_polyMakeHint (storage : InternalStorage) :
    (Plain.polyMakeHint h a0 a1).value storage = (makeHintRow h a0 a1).value storage := by
  let add : ℕ → Int → ℕ := fun s value => s + u32 value
  have plain : (Plain.polyMakeHint h a0 a1).value storage =
      (List.finRange 256).foldl (fun s column => add s (hintCell a0 a1 column storage)) 0 :=
    value_foldlM_cells h finish_makeHintRound value_makeHintRound own _
      (List.nodup_finRange 256) 0 storage
  have buffered : (makeHintRow h a0 a1).value storage =
      (Vector.zipWith makeHint (a0 storage) (a1 storage)).foldl
        (fun s2 hint => s2 + hint) 0 := rfl
  rw [plain, buffered, ofFn_makeHint, ← Vector.foldl_toList, Vector.toList_ofFn,
    List.ofFn_eq_map, List.foldl_map]
  apply List.foldl_ext
  intro s column _
  have bit : makeHint (a0 storage)[column] (a1 storage)[column] < 4294967296 :=
    Nat.lt_trans (makeHint_lt _ _) (by decide)
  exact congrArg (s + ·) (u32_natCast bit)

theorem finish_polyMakeHint (storage : InternalStorage) :
    (Plain.polyMakeHint h a0 a1).finish storage = (makeHintRow h a0 a1).finish storage := by
  have assigned : (forRows 256 fun column => update fun storage =>
      h.setRow column (hintCell a0 a1 column storage) storage).finish storage =
        h.write (Vector.ofFn fun column => hintCell a0 a1 column storage) storage :=
    finish_forRows h (hintCell a0 a1) (fun _ _ => rfl) own storage
  have buffered : (makeHintRow h a0 a1).finish storage =
      h.write ((Vector.zipWith makeHint (a0 storage) (a1 storage)).map
        fun (hint : ℕ) => (hint : Int)) storage := rfl
  have cells : (Vector.zipWith makeHint (a0 storage) (a1 storage)).map
      (fun (hint : ℕ) => (hint : Int)) =
        Vector.ofFn fun column => hintCell a0 a1 column storage := by
    rw [ofFn_makeHint]
    ext column bound
    rw [Vector.getElem_map, Vector.getElem_ofFn, Vector.getElem_ofFn]
    rfl
  rw [Plain.polyMakeHint, finish_foldlM_cells h finish_makeHintRound, buffered, cells]
  exact assigned

theorem coarsens_makeHint : Coarsens (makeHintRow h a0 a1) (Plain.polyMakeHint h a0 a1) := by
  apply EndsAs.coarsens
  · exact ⟨fun storage => (value_polyMakeHint own storage).symm,
      fun storage => (finish_polyMakeHint own storage).symm⟩
  · exact fun _ => rfl
  · intro storage
    apply history_foldlM_ne_nil
    · exact fun _ _ _ => List.cons_ne_nil _ _
    · rw [List.finRange_succ]
      exact List.cons_ne_nil _ _

end Hints

theorem coarsens_polyVecKMakeHint {h : Region InternalStorage PolyVecK}
    {v0 v1 : InternalStorage → PolyVecK} (reads0 : SameOrApart h v0)
    (reads1 : SameOrApart h v1) :
    Coarsens (polyVecKMakeHintVolatile h v0 v1) (Plain.polyVecKMakeHint h v0 v1) := by
  have own : ∀ row (column other : Fin 256) storage value, column ≠ other →
      hintCell (Plain.vec v0 row) (Plain.vec v1 row) other
          ((h.row row).setRow column value storage) =
        hintCell (Plain.vec v0 row) (Plain.vec v1 row) other storage := by
    intro row column other storage value different
    rw [hintCell, hintCell, reads0.coeff row column other value storage different,
      reads1.coeff row column other value storage different]
  apply coarsens_foldlM
  intro s row
  have counted := (coarsens_makeHint (own row)).bind fun hints =>
    Coarsens.refl (pure (s + hints) : NvmProgram ℕ)
  rw [makeHintRow] at counted
  simp only [bind_assoc, pure_bind] at counted
  exact counted

/-! ## The two halves -/

section Halves

variable {v1 v0 : Region InternalStorage PolyVecK} {v : InternalStorage → PolyVecK}
  (split : Int → Int × Int) (disjoint : Region.Disjoint v1 v0)
  (reads : SameOrApart v1 v) (apart : Independent v0 v)

include disjoint reads apart

theorem finish_eachSplit (i : Fin 8) (storage : InternalStorage) :
    (Plain.eachSplit (v1.row i) (v0.row i) (Plain.vec v i) split).finish storage =
      v1.setRow i ((v storage)[i].map fun a => (split a).1)
        (v0.setRow i ((v storage)[i].map fun a => (split a).2) storage) := by
  let both := Region.pair (v1.row i) (v0.row i) (disjoint.row i)
  have sets : ∀ (column : Fin 256) storage, (do
      let store ← read
      let parts := split (Plain.vec v i store)[column]
      update fun store => (v0.row i).setRow column parts.2 store
      update fun store => (v1.row i).setRow column parts.1 store :
        NvmProgram Unit).finish storage =
      both.setRow column (split (Plain.vec v i storage)[column]) storage := by
    intro column storage
    rw [Region.setRow_pair]
    rfl
  have own : ∀ (column other : Fin 256) storage value, column ≠ other →
      split (Plain.vec v i (both.setRow column value storage))[other] =
        split (Plain.vec v i storage)[other] := by
    intro column other storage value different
    have kept : ∀ low storage, Plain.vec v i ((v0.row i).setRow column low storage) =
        Plain.vec v i storage := fun low storage => congrArg (·[i]) (apart _ storage)
    rw [Region.setRow_pair, reads.coeff i column other _ _ different, kept]
  have assigned := finish_forRows both
    (fun column storage => split (Plain.vec v i storage)[column]) sets own storage
  have high : (Vector.ofFn fun column => split (Plain.vec v i storage)[column]).map Prod.fst =
      (v storage)[i].map fun a => (split a).1 := by
    ext column bound
    simp [Plain.vec]
  have low : (Vector.ofFn fun column => split (Plain.vec v i storage)[column]).map Prod.snd =
      (v storage)[i].map fun a => (split a).2 := by
    ext column bound
    simp [Plain.vec]
  rw [← high, ← low]
  exact assigned

omit disjoint in
/-- All low parts are stored before the first high part. -/
theorem finish_writeHalves (storage : InternalStorage) :
    Program.finish (do
        writeRows v0 fun i storage => (v storage)[i].map fun a => (split a).2
        writeRows v1 fun i storage => (v storage)[i].map fun a => (split a).1) storage =
      v1.write (Vector.ofFn fun i => (v storage)[i].map fun a => (split a).1)
        (v0.write (Vector.ofFn fun i => (v storage)[i].map fun a => (split a).2)
          storage) := by
  rw [finish_bind, finish_writeRows, finish_writeRows]
  · simp only [apart _ _]
  · intro index other storage value _
    rw [apart.setRow]
  · intro index other storage value different
    rw [reads.setRow different]

theorem endsAs_split :
    EndsAs (do
        writeRows v0 fun i storage => (v storage)[i].map fun a => (split a).2
        writeRows v1 fun i storage => (v storage)[i].map fun a => (split a).1)
      (forRows 8 fun i => Plain.eachSplit (v1.row i) (v0.row i) (Plain.vec v i) split) := by
  let both := Region.pair v1 v0 disjoint
  let halves := fun (i : Fin 8) storage =>
    (((v storage)[i].map fun a => (split a).1 : Poly),
      ((v storage)[i].map fun a => (split a).2 : Poly))
  have sets : ∀ i storage,
      (Plain.eachSplit (v1.row i) (v0.row i) (Plain.vec v i) split).finish storage =
        both.setRow i (halves i storage) storage := by
    intro i storage
    rw [finish_eachSplit split disjoint reads apart, Region.setRow_pair]
  have own : ∀ (index other : Fin 8) storage value, index ≠ other →
      halves other (both.setRow index value storage) = halves other storage := by
    intro index other storage value different
    have row : (v (both.setRow index value storage))[other] = (v storage)[other] := by
      rw [Region.setRow_pair, reads.setRow different, apart.setRow]
    simp only [halves, row]
  constructor
  · exact fun _ => rfl
  · intro storage
    have high : (Vector.ofFn fun i => halves i storage).map Prod.fst =
        Vector.ofFn fun i => (v storage)[i].map fun a => (split a).1 := by
      ext i bound : 1
      simp [halves]
    have low : (Vector.ofFn fun i => halves i storage).map Prod.snd =
        Vector.ofFn fun i => (v storage)[i].map fun a => (split a).2 := by
      ext i bound : 1
      simp [halves]
    rw [finish_writeHalves split reads apart, finish_forRows both halves sets own, ← high,
      ← low]
    rfl

end Halves

/-! ## The routines of the two files -/

/-- The routines that work on the storage agree with the functions of `polyvec.c`
on a store with the same vectors: all but two make it go through fewer contents only. -/
structure VolatileAgrees (shake : Shake) : Prop where
  lUniformGamma1 : ∀ v seed nonce, Coarsens (polyVecLUniformGamma1Volatile shake v seed nonce)
    (Plain.polyVecLUniformGamma1 shake v seed nonce)
  lReduce : ∀ v, Coarsens (polyVecLReduceVolatile v) (Plain.polyVecLReduce v)
  kReduce : ∀ v, Coarsens (polyVecKReduceVolatile v) (Plain.polyVecKReduce v)
  kCAddq : ∀ v, Coarsens (polyVecKCAddqVolatile v) (Plain.polyVecKCAddq v)
  kShiftL : ∀ v, Coarsens (polyVecKShiftLVolatile v) (Plain.polyVecKShiftL v)
  lNtt : ∀ v, Coarsens (polyVecLNttVolatile v) (Plain.polyVecLNtt v)
  kNtt : ∀ v, Coarsens (polyVecKNttVolatile v) (Plain.polyVecKNtt v)
  lInvNttToMont : ∀ v,
    Coarsens (polyVecLInvNttToMontVolatile v) (Plain.polyVecLInvNttToMont v)
  kInvNttToMont : ∀ v,
    Coarsens (polyVecKInvNttToMontVolatile v) (Plain.polyVecKInvNttToMont v)
  lAdd : ∀ w v, SameOrApart w v →
    Coarsens (polyVecLAddVolatile w v) (Plain.polyVecLAdd w w.read v)
  kAdd : ∀ w v, SameOrApart w v →
    Coarsens (polyVecKAddVolatile w v) (Plain.polyVecKAdd w w.read v)
  kSub : ∀ w u v, SameOrApart w u → SameOrApart w v →
    Coarsens (polyVecKSubVolatile w u v) (Plain.polyVecKSub w u v)
  lPointwisePolyMontgomery : ∀ r a v, Independent r a → SameOrApart r v →
    Coarsens (polyVecLPointwisePolyMontgomeryVolatile r a v)
      (Plain.polyVecLPointwisePolyMontgomery r a v)
  kPointwisePolyMontgomery : ∀ r a v, Independent r a → SameOrApart r v →
    Coarsens (polyVecKPointwisePolyMontgomeryVolatile r a v)
      (Plain.polyVecKPointwisePolyMontgomery r a v)
  kMakeHint : ∀ h v0 v1, SameOrApart h v0 → SameOrApart h v1 →
    Coarsens (polyVecKMakeHintVolatile h v0 v1) (Plain.polyVecKMakeHint h v0 v1)
  kUseHint : ∀ w u h, SameOrApart w u → SameOrApart w h →
    Coarsens (polyVecKUseHintVolatile w u h) (Plain.polyVecKUseHint w u h)
  kPower2Round : ∀ v1 v0 v, Region.Disjoint v1 v0 → SameOrApart v1 v → Independent v0 v →
    EndsAs (polyVecKPower2RoundVolatile v1 v0 v) (Plain.polyVecKPower2Round v1 v0 v)
  kDecompose : ∀ v1 v0 v, Region.Disjoint v1 v0 → SameOrApart v1 v → Independent v0 v →
    EndsAs (polyVecKDecomposeVolatile v1 v0 v) (Plain.polyVecKDecompose v1 v0 v)

theorem volatile_agrees (shake : Shake) : VolatileAgrees shake where
  lUniformGamma1 v seed nonce := by
    rw [Plain.polyVecLUniformGamma1]
    simp only [Plain.polyUniformGamma1, PolyPack.polyZUnpack_eq]
    exact Coarsens.refl _
  lReduce _ := coarsens_mapRows _
  kReduce _ := coarsens_mapRows _
  kCAddq _ := coarsens_mapRows _
  kShiftL _ := coarsens_mapRows _
  lNtt _ := coarsens_transform nttInLine_eq
  kNtt _ := coarsens_transform nttInLine_eq
  lInvNttToMont _ := coarsens_transform invNttToMontInLine_eq
  kInvNttToMont _ := coarsens_transform invNttToMontInLine_eq
  lAdd _ _ reads := coarsens_zipRows _ sameOrApart_read.coeff reads.coeff
  kAdd _ _ reads := coarsens_zipRows _ sameOrApart_read.coeff reads.coeff
  kSub _ _ _ first second := coarsens_zipRows _ first.coeff second.coeff
  lPointwisePolyMontgomery _ _ _ factor reads :=
    coarsens_zipRows _ factor.coeff reads.coeff
  kPointwisePolyMontgomery _ _ _ factor reads :=
    coarsens_zipRows _ factor.coeff reads.coeff
  kMakeHint _ _ _ low high := coarsens_polyVecKMakeHint low high
  kUseHint _ _ _ first second := coarsens_zipRows _ first.coeff second.coeff
  kPower2Round _ _ _ disjoint reads apart := endsAs_split power2Round disjoint reads apart
  kDecompose _ _ _ disjoint reads apart := endsAs_split decompose disjoint reads apart

end LedgerQrl.Mldsa87
