import Mathlib.Data.List.Basic
import Mathlib.Data.List.Nodup

namespace LedgerQrl.Foundation

/-! # Loops whose rounds do not interfere

A state has a value at every position. Each item of the loop owns some
positions: its round changes no other position, and what it stores there
depends only on what was there. The loop then does to the positions of an item
what the round of that item alone does. -/

variable {Item State Position Value : Type*}

structure LocalSteps (get : State → Position → Value)
    (owns : Item → Position → Prop) (step : Item → State → State)
    (items : List Item) : Prop where
  frame : ∀ item ∈ items, ∀ state position, ¬ owns item position →
    get (step item state) position = get state position
  depends : ∀ item ∈ items, ∀ state other,
    (∀ position, owns item position → get state position = get other position) →
    ∀ position, owns item position →
      get (step item state) position = get (step item other) position
  apart : ∀ item ∈ items, ∀ other ∈ items, ∀ position,
    owns item position → owns other position → item = other

namespace LocalSteps

variable {get : State → Position → Value} {owns : Item → Position → Prop}
  {step : Item → State → State}

theorem tail {item : Item} {rest : List Item}
    (steps : LocalSteps get owns step (item :: rest)) :
    LocalSteps get owns step rest where
  frame other member := steps.frame other (List.mem_cons_of_mem _ member)
  depends other member := steps.depends other (List.mem_cons_of_mem _ member)
  apart left leftMember right rightMember :=
    steps.apart left (List.mem_cons_of_mem _ leftMember)
      right (List.mem_cons_of_mem _ rightMember)

theorem foldl_frame : ∀ {items : List Item}, LocalSteps get owns step items →
    ∀ (state : State) {position : Position},
      (∀ item ∈ items, ¬ owns item position) →
      get (items.foldl (fun state item => step item state) state) position =
        get state position
  | [], _, _, _, _ => rfl
  | item :: rest, steps, state, position, free => by
      rw [List.foldl_cons, foldl_frame steps.tail _ fun other member =>
        free other (List.mem_cons_of_mem _ member)]
      exact steps.frame item List.mem_cons_self state position
        (free item List.mem_cons_self)

theorem foldl_owned : ∀ {items : List Item}, LocalSteps get owns step items →
    items.Nodup → ∀ (state : State) {item : Item}, item ∈ items →
      ∀ {position : Position}, owns item position →
      get (items.foldl (fun state item => step item state) state) position =
        get (step item state) position
  | first :: rest, steps, nodup, state, item, member, position, owned => by
      rw [List.foldl_cons]
      have fresh := (List.nodup_cons.mp nodup).1
      rcases List.mem_cons.mp member with isFirst | later
      · subst isFirst
        apply foldl_frame steps.tail
        intro other otherMember otherOwns
        have same := steps.apart item List.mem_cons_self other
          (List.mem_cons_of_mem _ otherMember) position owned otherOwns
        exact fresh (same ▸ otherMember)
      · have different : first ≠ item := fun same => fresh (same ▸ later)
        rw [foldl_owned steps.tail (List.nodup_cons.mp nodup).2 _ later owned]
        apply steps.depends item member _ _ _ position owned
        intro own ownOwned
        apply steps.frame first List.mem_cons_self
        intro firstOwns
        exact different (steps.apart first List.mem_cons_self item member own
          firstOwns ownOwned)

end LocalSteps

/-! ## Loops with a counter -/

theorem foldl_counting_up (body : (counter : Nat) → (round : Nat) → State → State)
    (start : Nat) (state : State) : ∀ rounds : Nat,
    (List.range rounds).foldl (fun (pair : Nat × State) round =>
        (pair.1 + 1, body (pair.1 + 1) round pair.2)) (start, state) =
      (start + rounds, (List.range rounds).foldl (fun state round =>
        body (start + round + 1) round state) state)
  | 0 => rfl
  | rounds + 1 => by
      rw [List.range_succ, List.foldl_append, List.foldl_append,
        foldl_counting_up body start state rounds]
      rfl

theorem foldl_counting_down
    (body : (counter : Nat) → (round : Nat) → State → State)
    (start : Nat) (state : State) : ∀ rounds : Nat,
    (List.range rounds).foldl (fun (pair : Nat × State) round =>
        (pair.1 - 1, body (pair.1 - 1) round pair.2)) (start, state) =
      (start - rounds, (List.range rounds).foldl (fun state round =>
        body (start - round - 1) round state) state)
  | 0 => rfl
  | rounds + 1 => by
      rw [List.range_succ, List.foldl_append, List.foldl_append,
        foldl_counting_down body start state rounds]
      rfl

end LedgerQrl.Foundation
