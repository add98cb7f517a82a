import Mathlib.Data.List.Nodup
import Mathlib.Logic.Function.Basic

/-! # Doubly linked lists

The links of nodes that may be in a list. The list itself is the node `none`: its first node
follows it, and its last node comes before it.
-/

namespace BdmAssault.Lib

structure Links (α : Type) where
  next : Option α → Option α
  prev : Option α → Option α

namespace Links

variable {α : Type} [DecidableEq α]

def setNext (a v : Option α) (L : Links α) : Links α := { L with next := Function.update L.next a v }

def setPrev (a v : Option α) (L : Links α) : Links α := { L with prev := Function.update L.prev a v }

/-- Takes `x` out from between its neighbours, and clears its own links. -/
def remove (x : α) (L : Links α) : Links α :=
  let L := L.setPrev (L.next x) (L.prev x)
  let L := L.setNext (L.prev x) (L.next x)
  (L.setPrev x none).setNext x none

/-- Puts `x` between `a` and `b`. -/
def insert (x : α) (a b : Option α) (L : Links α) : Links α :=
  (((L.setPrev x a).setNext a x).setNext x b).setPrev b x

/-- The links are those of the list `l`, wherever it is cut. -/
structure Chains (L : Links α) (l : List α) : Prop where
  nodup : l.Nodup
  next : ∀ front back, l = front ++ back → L.next front.getLast? = back.head?
  prev : ∀ front back, l = front ++ back → L.prev back.head? = front.getLast?

variable {L : Links α} {l front mid back : List α} {x y : α}

theorem setNext_next (a v b : Option α) (L : Links α) :
    (L.setNext a v).next b = if b = a then v else L.next b := Function.update_apply _ _ _ _

theorem setPrev_prev (a v b : Option α) (L : Links α) :
    (L.setPrev a v).prev b = if b = a then v else L.prev b := Function.update_apply _ _ _ _

omit [DecidableEq α] in
theorem getLast?_ne_some (h : x ∉ l) : some x ≠ l.getLast? := fun heq => h (List.mem_of_getLast? heq.symm)

omit [DecidableEq α] in
theorem head?_ne_some (h : x ∉ l) : some x ≠ l.head? := fun heq => h (List.mem_of_head? heq.symm)

omit [DecidableEq α] in
/-- The ends of disjoint lists differ. -/
theorem getLast?_ne (h : (front ++ back).Nodup) (hback : back ≠ []) : back.getLast? ≠ front.getLast? := by
  rw [List.getLast?_eq_some_getLast hback]
  exact getLast?_ne_some fun hmem => List.disjoint_of_nodup_append h hmem (List.getLast_mem hback)

omit [DecidableEq α] in
theorem head?_ne (h : (front ++ back).Nodup) (hfront : front ≠ []) : front.head? ≠ back.head? := by
  rw [List.head?_eq_some_head hfront]
  exact head?_ne_some fun hmem => List.disjoint_of_nodup_append h (List.head_mem hfront) hmem

/-! ## Removing -/

theorem Chains.remove_eq (h : L.Chains (front ++ x :: back)) : L.remove x =
    (((L.setPrev back.head? front.getLast?).setNext front.getLast? back.head?).setPrev x none).setNext x none := by
  have hnext : L.next x = back.head? := by
    have hnext := h.next (front ++ [x]) back (List.append_cons front x back)
    rwa [List.getLast?_append_of_ne_nil _ (List.cons_ne_nil x [])] at hnext
  have hprev : L.prev x = front.getLast? := h.prev front (x :: back) rfl
  have hback : some x ≠ back.head? := head?_ne_some (List.nodup_cons.mp h.nodup.of_append_right).1
  unfold remove
  dsimp only
  rw [setPrev_prev, hnext, if_neg hback, hprev]
  show (((_ : Links α).setNext _ (L.next x)).setPrev _ _).setNext _ _ = _
  rw [hnext]

theorem Chains.remove_next (h : L.Chains (front ++ x :: back)) (b : Option α) : (L.remove x).next b =
    if b = x then none else if b = front.getLast? then back.head? else L.next b := by
  rw [h.remove_eq, setNext_next]
  exact congrArg _ (setNext_next _ _ _ _)

theorem Chains.remove_prev (h : L.Chains (front ++ x :: back)) (b : Option α) : (L.remove x).prev b =
    if b = x then none else if b = back.head? then front.getLast? else L.prev b := by
  rw [h.remove_eq]
  show (Links.setPrev x none _).prev b = _
  rw [setPrev_prev]
  exact congrArg _ (setPrev_prev _ _ _ _)

theorem Chains.remove (h : L.Chains (front ++ x :: back)) : (L.remove x).Chains (front ++ back) := by
  obtain ⟨hfront, hxback, hdisjoint⟩ := List.nodup_append'.mp h.nodup
  obtain ⟨hxb, hback⟩ := List.nodup_cons.mp hxback
  have hxf : x ∉ front := fun hmem => hdisjoint hmem List.mem_cons_self
  have hnodup : (front ++ back).Nodup :=
    List.nodup_append'.mpr ⟨hfront, hback, fun _ hf hb => hdisjoint hf (List.mem_cons_of_mem _ hb)⟩
  have hboth : ∀ front' back', front ++ back = front' ++ back' →
      (L.remove x).next front'.getLast? = back'.head? ∧ (L.remove x).prev back'.head? = front'.getLast? := by
    intro front' back' heq
    rw [h.remove_next, h.remove_prev]
    obtain ⟨mid, rfl, rfl⟩ | ⟨mid, rfl, rfl⟩ := List.append_eq_append_iff.mp heq
    · -- the cut is behind the node that was removed
      have hmid : x ∉ mid := fun hmem => hxb (List.mem_append_left _ hmem)
      have hrest : x ∉ back' := fun hmem => hxb (List.mem_append_right _ hmem)
      rw [if_neg (getLast?_ne_some (fun hmem => (List.mem_append.mp hmem).elim hxf hmid)).symm,
        if_neg (head?_ne_some hrest).symm]
      obtain rfl | hne := eq_or_ne mid []
      · rw [List.append_nil, List.nil_append, if_pos rfl, if_pos rfl]
        exact ⟨rfl, rfl⟩
      · rw [List.getLast?_append_of_ne_nil _ hne, List.head?_append_of_ne_nil _ hne,
          if_neg (getLast?_ne (hnodup.sublist (by simp)) hne), if_neg (head?_ne hback hne).symm]
        have hcut : front ++ x :: (mid ++ back') = (front ++ x :: mid) ++ back' := by simp
        have hlast : (front ++ x :: mid).getLast? = mid.getLast? := by
          rw [List.append_cons, List.getLast?_append_of_ne_nil _ hne]
        exact ⟨hlast ▸ h.next _ _ hcut, (h.prev _ _ hcut).trans hlast⟩
    · have hmid : x ∉ mid := fun hmem => hxf (List.mem_append_right _ hmem)
      have hrest : x ∉ front' := fun hmem => hxf (List.mem_append_left _ hmem)
      rw [if_neg (getLast?_ne_some hrest).symm,
        if_neg (head?_ne_some (fun hmem => (List.mem_append.mp hmem).elim hmid hxb)).symm]
      obtain rfl | hne := eq_or_ne mid []
      · rw [List.append_nil, List.nil_append, if_pos rfl, if_pos rfl]
        exact ⟨rfl, rfl⟩
      · rw [List.getLast?_append_of_ne_nil _ hne, List.head?_append_of_ne_nil _ hne,
          if_neg (getLast?_ne hfront hne).symm, if_neg (head?_ne (hnodup.sublist (by simp)) hne)]
        have hcut : front' ++ mid ++ x :: back = front' ++ (mid ++ x :: back) := List.append_assoc _ _ _
        have hfirst : (mid ++ x :: back).head? = mid.head? := List.head?_append_of_ne_nil _ hne
        exact ⟨(h.next _ _ hcut).trans hfirst, hfirst ▸ h.prev _ _ hcut⟩
  exact ⟨hnodup, fun f b heq => (hboth f b heq).1, fun f b heq => (hboth f b heq).2⟩

/-! ## Inserting -/

theorem insert_next (x : α) (a b c : Option α) (L : Links α) : (L.insert x a b).next c =
    if c = x then b else if c = a then some x else L.next c := by
  show ((Links.setNext a (some x) _).setNext x b).next c = _
  rw [setNext_next]
  exact congrArg _ (setNext_next _ _ _ _)

theorem insert_prev (x : α) (a b c : Option α) (L : Links α) : (L.insert x a b).prev c =
    if c = b then some x else if c = x then a else L.prev c := by
  show ((L.setPrev x a).setPrev b x).prev c = _
  rw [setPrev_prev, setPrev_prev]

theorem Chains.insert (h : L.Chains (front ++ back)) (hx : x ∉ front ++ back) :
    (L.insert x front.getLast? back.head?).Chains (front ++ x :: back) := by
  have hxf : x ∉ front := fun hmem => hx (List.mem_append_left _ hmem)
  have hxb : x ∉ back := fun hmem => hx (List.mem_append_right _ hmem)
  obtain ⟨hfront, hback, hdisjoint⟩ := List.nodup_append'.mp h.nodup
  have hnodup : (front ++ x :: back).Nodup := by
    refine List.nodup_append'.mpr ⟨hfront, List.nodup_cons.mpr ⟨hxb, hback⟩, fun y hf hb => ?_⟩
    rcases List.mem_cons.mp hb with rfl | hb
    · exact hxf hf
    · exact hdisjoint hf hb
  have hboth : ∀ front' back', front ++ x :: back = front' ++ back' →
      (L.insert x front.getLast? back.head?).next front'.getLast? = back'.head? ∧
        (L.insert x front.getLast? back.head?).prev back'.head? = front'.getLast? := by
    intro front' back' heq
    rw [insert_next, insert_prev]
    -- the cut right before `x`
    have hbefore : ∀ f : List α, f = front → (if f.getLast? = some x then back.head? else
        if f.getLast? = front.getLast? then some x else L.next f.getLast?) = (x :: back).head? ∧
        (if (x :: back).head? = back.head? then some x else
        if (x :: back).head? = some x then front.getLast? else L.prev (x :: back).head?) = f.getLast? := by
      rintro _ rfl
      rw [List.head?_cons, if_neg (getLast?_ne_some hxf).symm, if_pos rfl, if_neg (head?_ne_some hxb), if_pos rfl]
      exact ⟨rfl, rfl⟩
    obtain ⟨mid, rfl, hmid⟩ | ⟨mid, rfl, rfl⟩ := List.append_eq_append_iff.mp heq
    · cases mid with
      | nil =>
          obtain rfl : x :: back = back' := hmid
          exact hbefore _ (List.append_nil front)
      | cons z mid =>
          obtain ⟨rfl, hrest⟩ := List.cons.inj hmid
          obtain rfl : back = mid ++ back' := hrest
          obtain rfl | hne := eq_or_ne mid []
          · rw [List.getLast?_append_of_ne_nil _ (List.cons_ne_nil x []), List.nil_append, List.getLast?_singleton,
              if_pos rfl, if_pos rfl]
            exact ⟨rfl, rfl⟩
          · have hlast : (front ++ x :: mid).getLast? = mid.getLast? := by
              rw [List.append_cons, List.getLast?_append_of_ne_nil _ hne]
            have hcut := h.next (front ++ mid) back' (List.append_assoc _ _ _).symm
            have hcut' := h.prev (front ++ mid) back' (List.append_assoc _ _ _).symm
            rw [List.getLast?_append_of_ne_nil _ hne] at hcut hcut'
            rw [hlast, if_neg (getLast?_ne_some (fun hmem => hxb (List.mem_append_left _ hmem))).symm,
              if_neg (getLast?_ne (h.nodup.sublist (by simp)) hne), List.head?_append_of_ne_nil _ hne,
              if_neg (head?_ne hback hne).symm, if_neg (head?_ne_some fun hmem => hxb (List.mem_append_right _ hmem)).symm]
            exact ⟨hcut, hcut'⟩
    · obtain rfl | hne := eq_or_ne mid []
      · exact hbefore _ (List.append_nil _).symm
      · have hcut := h.next front' (mid ++ back) (List.append_assoc _ _ _)
        have hcut' := h.prev front' (mid ++ back) (List.append_assoc _ _ _)
        rw [List.head?_append_of_ne_nil _ hne] at hcut hcut'
        rw [List.head?_append_of_ne_nil _ hne, List.getLast?_append_of_ne_nil _ hne,
          if_neg (getLast?_ne_some (fun hmem => hxf (List.mem_append_left _ hmem))).symm,
          if_neg (getLast?_ne hfront hne).symm, if_neg (head?_ne (h.nodup.sublist (by simp)) hne),
          if_neg (head?_ne_some fun hmem => hxf (List.mem_append_right _ hmem)).symm]
        exact ⟨hcut, hcut'⟩
  exact ⟨hnodup, fun f b heq => (hboth f b heq).1, fun f b heq => (hboth f b heq).2⟩

end Links

end BdmAssault.Lib
