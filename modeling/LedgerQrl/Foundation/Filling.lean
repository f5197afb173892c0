import Mathlib.Data.List.Basic

namespace LedgerQrl.Foundation

/-! # Filling an array from a stream

A scan of a block stores the values that it accepts, one behind the other, until
the array is full. Scanning block after block stores the first accepted values
of all blocks, wherever these are cut. -/

variable {Store Value : Type*} (assign : Store → ℕ → Value → Store)

def fillFrom : Store → (start : ℕ) → List Value → Store
  | store, _, [] => store
  | store, start, value :: rest => fillFrom (assign store start value) (start + 1) rest

/-- A scan that stores the accepted values `values`, as far as they fit. -/
def Scans (limit : ℕ) (values : List Value) (scan : Store → ℕ → Store × ℕ) : Prop :=
  ∀ store start, start ≤ limit →
    scan store start =
      (fillFrom assign store start (values.take (limit - start)),
        start + (values.take (limit - start)).length)

/-- A store and a counter after the accepted values `values`. -/
structure Filled (limit : ℕ) (initial : Store) (values : List Value)
    (result : Store × ℕ) : Prop where
  store : result.1 = fillFrom assign initial 0 (values.take limit)
  count : result.2 = (values.take limit).length

section Rules

variable {assign} {limit : ℕ}

theorem fillFrom_append (first second : List Value) : ∀ (store : Store) (start : ℕ),
    fillFrom assign store start (first ++ second) =
      fillFrom assign (fillFrom assign store start first) (start + first.length) second := by
  induction first with
  | nil => exact fun _ _ => rfl
  | cons value rest induction =>
      intro store start
      rw [List.cons_append, fillFrom, fillFrom, induction, List.length_cons, Nat.add_assoc,
        Nat.add_comm 1]

theorem filled_nil (initial : Store) : Filled assign limit initial [] (initial, 0) :=
  { store := by rw [List.take_nil, fillFrom]
    count := by rw [List.take_nil, List.length_nil] }

theorem Filled.scan {initial : Store} {values more : List Value} {result : Store × ℕ}
    (filled : Filled assign limit initial values result)
    {scan : Store → ℕ → Store × ℕ} (scans : Scans assign limit more scan) :
    Filled assign limit initial (values ++ more) (scan result.1 result.2) := by
  have within : result.2 ≤ limit := by
    rw [filled.count, List.length_take]
    exact Nat.min_le_left _ _
  have free : limit - result.2 = limit - values.length := by
    rw [filled.count, List.length_take]
    omega
  rw [scans result.1 result.2 within, free]
  constructor
  · rw [filled.store, filled.count, List.take_append, fillFrom_append, Nat.zero_add]
  · rw [filled.count, List.take_append, List.length_append]

theorem Filled.full {initial : Store} {values : List Value} {result : Store × ℕ}
    (filled : Filled assign limit initial values result) (full : limit ≤ result.2) :
    limit ≤ values.length := by
  have counted := filled.count
  rw [List.length_take] at counted
  omega

theorem Filled.of_enough {initial : Store} {values : List Value} {result : Store × ℕ}
    (filled : Filled assign limit initial values result) (enough : limit ≤ values.length) :
    result.2 = limit := by
  rw [filled.count, List.length_take_of_le enough]

end Rules

/-! ## Accepted items -/

def accepted {Item : Type*} (items : ℕ → Item) (keep : Item → Bool) (count : ℕ) :
    List Item :=
  ((List.range count).map items).filter keep

section Accepted

variable {Item : Type*} {items : ℕ → Item} {keep : Item → Bool}

theorem length_accepted_le (count : ℕ) : (accepted items keep count).length ≤ count := by
  have some := List.length_filter_le keep ((List.range count).map items)
  rwa [List.length_map, List.length_range] at some

theorem accepted_add (first second : ℕ) :
    accepted items keep (first + second) =
      accepted items keep first ++ accepted (fun n => items (first + n)) keep second := by
  rw [accepted, accepted, accepted, List.range_add, List.map_append, List.filter_append,
    List.map_map]
  rfl

theorem accepted_succ (count : ℕ) :
    accepted items keep (count + 1) =
      if keep (items 0) then items 0 :: accepted (fun n => items (n + 1)) keep count
      else accepted (fun n => items (n + 1)) keep count := by
  rw [accepted, List.range_succ_eq_map, List.map_cons, List.filter_cons, List.map_map]
  rfl

theorem accepted_eq_nil {count : ℕ} (rejected : ∀ m < count, keep (items m) = false) :
    accepted items keep count = [] := by
  rw [accepted, List.filter_eq_nil_iff]
  intro item member
  rcases List.mem_map.mp member with ⟨m, bound, rfl⟩
  rw [rejected m (List.mem_range.mp bound)]
  exact Bool.false_ne_true

theorem accepted_replicate {count : ℕ} {item : Item} (kept : keep item = true)
    (same : ∀ m < count, items m = item) :
    accepted items keep count = List.replicate count item := by
  have constant : (List.range count).map items = List.replicate count item := by
    rw [List.eq_replicate_iff, List.length_map, List.length_range]
    refine ⟨rfl, fun other member => ?_⟩
    rcases List.mem_map.mp member with ⟨m, bound, rfl⟩
    exact same m (List.mem_range.mp bound)
  rw [accepted, constant, List.filter_replicate, if_pos kept]

theorem accepted_initial {first second : ℕ} (le : first ≤ second) :
    accepted items keep first <+: accepted items keep second := by
  obtain ⟨more, rfl⟩ := Nat.exists_eq_add_of_le le
  rw [accepted_add]
  exact List.prefix_append _ _

theorem accepted_take {first second limit : ℕ}
    (inFirst : limit ≤ (accepted items keep first).length)
    (inSecond : limit ≤ (accepted items keep second).length) :
    (accepted items keep first).take limit = (accepted items keep second).take limit := by
  rcases Nat.le_total first second with le | le
  · obtain ⟨rest, equal⟩ := @accepted_initial Item items keep _ _ le
    rw [← equal, List.take_append_of_le_length inFirst]
  · obtain ⟨rest, equal⟩ := @accepted_initial Item items keep _ _ le
    rw [← equal, List.take_append_of_le_length inSecond]

end Accepted

/-! ## Scans -/

section Scan

variable {assign} {limit : ℕ}

theorem scans_nil : Scans assign limit [] fun store start => (store, start) := by
  intro store start _
  rw [List.take_nil, fillFrom, List.length_nil, Nat.add_zero]

theorem Scans.accept {values : List Value} {scan : Store → ℕ → Store × ℕ}
    (scans : Scans assign limit values scan) (value : Value) :
    Scans assign limit (value :: values) fun store start =>
      if start < limit then scan (assign store start value) (start + 1)
      else (store, start) := by
  intro store start within
  dsimp only
  split
  · rename_i room
    obtain ⟨free, rest⟩ : ∃ free, limit - start = free + 1 := ⟨limit - start - 1, by omega⟩
    have next : limit - (start + 1) = free := by omega
    rw [scans _ _ room, rest, next, List.take_succ_cons, fillFrom, List.length_cons]
    congr 1
    omega
  · have none : limit - start = 0 := by omega
    rw [none, List.take_zero, fillFrom, List.length_nil, Nat.add_zero]

end Scan

/-! ## Reading -/

section Read

variable {assign} (read : Store → ℕ → Value) {limit : ℕ}
  (readAssign : ∀ store index value other, index < limit →
    read (assign store index value) other = if index = other then value else read store other)

include readAssign

theorem read_fillFrom : ∀ (values : List Value) (store : Store) {start : ℕ},
    start + values.length ≤ limit → ∀ index,
      read (fillFrom assign store start values) index =
        if start ≤ index then (values[index - start]?).getD (read store index)
        else read store index := by
  intro values
  induction values with
  | nil =>
      intro store start _ index
      rw [fillFrom, List.getElem?_nil, Option.getD_none, ite_self]
  | cons value rest induction =>
      intro store start within index
      rw [List.length_cons] at within
      rw [fillFrom, induction _ (by omega), readAssign _ _ _ _ (by omega)]
      rcases Nat.lt_trichotomy start index with before | here | behind
      · have offset : index - start = index - (start + 1) + 1 := by omega
        rw [if_pos (show start + 1 ≤ index from before), if_neg (Nat.ne_of_lt before),
          if_pos (Nat.le_of_lt before), offset, List.getElem?_cons_succ]
      · rw [if_neg (show ¬ start + 1 ≤ index by omega), if_pos here,
          if_pos (Nat.le_of_eq here), here, Nat.sub_self, List.getElem?_cons_zero,
          Option.getD_some]
      · rw [if_neg (show ¬ start + 1 ≤ index by omega), if_neg (Nat.ne_of_gt behind),
          if_neg (Nat.not_le.mpr behind)]

end Read

/-! ## Logs -/

def logAssign (log : List (ℕ × Value)) (index : ℕ) (value : Value) : List (ℕ × Value) :=
  log ++ [(index, value)]

def replay (store : Store) (log : List (ℕ × Value)) : Store :=
  log.foldl (fun store entry => assign store entry.1 entry.2) store

section Log

theorem replay_logAssign (store : Store) (log : List (ℕ × Value)) (index : ℕ)
    (value : Value) :
    replay assign store (logAssign log index value) =
      assign (replay assign store log) index value := by
  rw [replay, logAssign, List.foldl_append]
  rfl

theorem replay_fillFrom (values : List Value) : ∀ (store : Store) (log : List (ℕ × Value))
    (start : ℕ),
    replay assign store (fillFrom logAssign log start values) =
      fillFrom assign (replay assign store log) start values := by
  induction values with
  | nil => exact fun _ _ _ => rfl
  | cons value rest induction =>
      intro store log start
      rw [fillFrom, fillFrom, induction, replay_logAssign]

/-- Filling assigns each index once, in order. -/
theorem fillFrom_logAssign (values : List Value) : ∀ (log : List (ℕ × Value)) (start : ℕ),
    fillFrom logAssign log start values =
      log ++ (List.range' start values.length).zip values := by
  induction values with
  | nil =>
      intro log start
      rw [fillFrom, List.zip_nil_right, List.append_nil]
  | cons value rest induction =>
      intro log start
      rw [fillFrom, induction, logAssign, List.length_cons, List.range'_succ,
        List.zip_cons_cons, List.append_assoc, List.singleton_append]

end Log

end LedgerQrl.Foundation
