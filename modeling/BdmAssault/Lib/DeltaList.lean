import Mathlib.Data.List.Basic

/-! # Delta lists

Entries in the order in which they are due, each with the time from the one before it.
-/

namespace BdmAssault.Lib

namespace DeltaList

variable {α : Type} [DecidableEq α]

/-- The time until the entry of `x` is due. -/
def due : List (α × Nat) → α → Option Nat
  | [], _ => none
  | (y, n) :: l, x => if y = x then some n else (due l x).map (n + ·)

/-- Before the first entry that is not due earlier. -/
def insert (x : α) (d : Nat) : List (α × Nat) → List (α × Nat)
  | [] => [(x, d)]
  | (y, n) :: l => if n < d then (y, n) :: insert x (d - n) l else (x, d) :: (y, n - d) :: l

def countDown : List (α × Nat) → List (α × Nat)
  | [] => []
  | (y, n) :: l => (y, n - 1) :: l

variable {l front back : List (α × Nat)} {x y : α} {d n : Nat}

theorem due_eq_none : due l x = none ↔ ∀ e ∈ l, e.1 ≠ x := by
  induction l with
  | nil => exact ⟨fun _ => List.forall_mem_nil _, fun _ => rfl⟩
  | cons e l ih =>
      rw [List.forall_mem_cons, due]
      by_cases he : e.1 = x
      · rw [if_pos he]
        exact ⟨nofun, fun h => absurd he h.1⟩
      · rw [if_neg he, Option.map_eq_none_iff, ih]
        exact ⟨fun h => ⟨he, h⟩, fun h => h.2⟩

/-- An entry that is put in is due in its time, and no other one is moved. -/
theorem due_insert (h : due l x = none) (y : α) : due (insert x d l) y = if x = y then some d else due l y := by
  induction l generalizing d with
  | nil =>
      unfold insert due due
      rfl
  | cons e l ih =>
      obtain ⟨z, n⟩ := e
      have hz : z ≠ x := due_eq_none.mp h (z, n) List.mem_cons_self
      have hl : due l x = none := due_eq_none.mpr fun e he => due_eq_none.mp h e (List.mem_cons_of_mem _ he)
      unfold insert
      by_cases hn : n < d
      · rw [if_pos hn, due, ih hl, due]
        by_cases hy : x = y
        · rw [if_pos hy, if_neg fun hzy => hz (hzy.trans hy.symm), if_pos hy, Option.map_some]
          exact congrArg some (Nat.add_sub_cancel' (Nat.le_of_lt hn))
        · rw [if_neg hy, if_neg hy]
      · rw [if_neg hn, due, due, due]
        have hsum : d + (n - d) = n := Nat.add_sub_cancel' (Nat.le_of_not_lt hn)
        by_cases hzy : z = y
        · rw [if_pos hzy, if_pos hzy, Option.map_some, hsum]
        · rw [if_neg hzy, if_neg hzy, Option.map_map]
          refine congrArg _ (congrArg (Option.map · (due l y)) (funext fun k => ?_))
          show d + (n - d + k) = n + k
          omega

/-- Taking an entry out moves those behind it by its own time. -/
theorem due_remove (hx : x ≠ y) : due (front ++ (x, n) :: back) y =
    if (due front y).isSome then due (front ++ back) y else (due (front ++ back) y).map (n + ·) := by
  induction front with
  | nil => exact if_neg hx
  | cons e front ih =>
      obtain ⟨z, m⟩ := e
      rw [List.cons_append, List.cons_append, due, due, due]
      by_cases hz : z = y
      · rw [if_pos hz, if_pos hz, if_pos hz, Option.isSome_some, if_pos rfl]
      · rw [if_neg hz, if_neg hz, if_neg hz, ih, Option.isSome_map]
        by_cases hfront : (due front y).isSome
        · rw [if_pos hfront, if_pos hfront]
        · rw [if_neg hfront, if_neg hfront, Option.map_map, Option.map_map]
          exact congrArg (Option.map · _) (funext fun k => Nat.add_left_comm m n k)

/-- It moves none when it is the last, or due with the one before it. -/
theorem due_remove_eq (h : n = 0 ∨ back = []) (hx : x ≠ y) : due (front ++ (x, n) :: back) y = due (front ++ back) y := by
  rw [due_remove hx]
  split
  · rfl
  · rename_i hfront
    rcases h with rfl | rfl
    · simp only [Nat.zero_add, Option.map_id']
    · rw [List.append_nil, Option.not_isSome_iff_eq_none.mp hfront]
      rfl

theorem due_countDown (h : ∀ e, l.head? = some e → e.2 ≠ 0) (y : α) :
    due (countDown l) y = (due l y).map (· - 1) := by
  cases l with
  | nil => rfl
  | cons e l =>
      obtain ⟨z, n⟩ := e
      have hn : n ≠ 0 := h (z, n) rfl
      rw [countDown, due, due]
      by_cases hz : z = y
      · rw [if_pos hz, if_pos hz]
        rfl
      · rw [if_neg hz, if_neg hz, Option.map_map]
        refine congrArg (Option.map · (due l y)) (funext fun k => ?_)
        show n - 1 + k = n + k - 1
        omega

/-- Nothing is due before the first entry. -/
theorem le_due {e : α × Nat} (h : l.head? = some e) {k : Nat} (hk : due l y = some k) : e.2 ≤ k := by
  cases l with
  | nil => exact absurd h nofun
  | cons e' l =>
      obtain rfl := Option.some.inj h
      rw [due] at hk
      split at hk
      · exact Nat.le_of_eq (Option.some.inj hk)
      · obtain ⟨j, -, rfl⟩ := Option.map_eq_some_iff.mp hk
        exact Nat.le_add_right _ _

theorem due_eq_zero (h : ∀ e ∈ l, e.2 = 0) {k : Nat} (hk : due l y = some k) : k = 0 := by
  induction l generalizing k with
  | nil => exact absurd hk nofun
  | cons e l ih =>
      obtain ⟨he, hl⟩ := List.forall_mem_cons.mp h
      rw [due] at hk
      split at hk
      · exact (Option.some.inj hk).symm.trans he
      · obtain ⟨j, hj, rfl⟩ := Option.map_eq_some_iff.mp hk
        rw [ih hl hj, he]

end DeltaList

end BdmAssault.Lib
