import Mathlib.Data.List.Basic
import Mathlib.Data.List.TakeWhile

/-! # Components between separators

The parts of a list between the elements that satisfy a predicate, without the empty ones.
-/

namespace BdmAssault.Lib

section Components

variable {α : Type*} {p : α → Bool} {c l r : List α} {s : α} {cs : List (List α)}

def components (p : α → Bool) (l : List α) : List (List α) := (l.splitOnP p).filter fun c => !c.isEmpty

/-- A part that is not empty, without a separator. -/
def Component (p : α → Bool) (c : List α) : Prop := c ≠ [] ∧ ∀ x ∈ c, p x = false

theorem components_nil : components p ([] : List α) = [] := rfl

theorem components_append (hs : p s) : components p (l ++ s :: r) = components p l ++ components p r := by
  unfold components
  rw [List.splitOnP_append_cons l r hs, List.filter_append]

theorem components_separator (hs : p s) : components p (s :: r) = components p r :=
  components_append (l := []) hs

theorem components_separators (h : ∀ x ∈ l, p x = true) : components p (l ++ r) = components p r := by
  induction l with
  | nil => rfl
  | cons x l ih =>
      rw [List.cons_append, components_separator (h x List.mem_cons_self),
        ih fun y hy => h y (List.mem_cons_of_mem x hy)]

theorem components_single (h : Component p c) : components p c = [c] := by
  unfold components
  rw [List.splitOnP_eq_singleton h.2, List.filter_singleton]
  cases c with
  | nil => exact absurd rfl h.1
  | cons x c => rfl

/-- A component with a separator behind it, or nothing. -/
theorem components_component (h : Component p c) (hr : ∀ x ∈ r.head?, p x = true) :
    components p (c ++ r) = c :: components p r := by
  cases r with
  | nil => rw [List.append_nil, components_single h, components_nil]
  | cons x r =>
      have hx : p x = true := hr x rfl
      rw [components_append hx, components_single h, components_separator hx]
      rfl

theorem head_dropWhile (p : α → Bool) (l : List α) : ∀ x ∈ (l.dropWhile p).head?, p x = false := by
  intro x hx
  have hnot := List.head?_dropWhile_not p l
  rw [hx] at hnot
  exact hnot

theorem takeWhile_front (hl : ∀ x ∈ l, p x = true) (hr : ∀ x ∈ r.head?, p x = false) :
    (l ++ r).takeWhile p = l := by
  rw [List.takeWhile_append_of_pos hl]
  cases r with
  | nil => exact List.append_nil l
  | cons x r => rw [List.takeWhile_cons_of_neg (Bool.eq_false_iff.mp (hr x rfl)), List.append_nil]

/-- A list that does not begin with a separator begins with a component. -/
theorem exists_component (hl : ∀ x ∈ l.head?, p x = false) (hne : l ≠ []) :
    ∃ c r, l = c ++ r ∧ Component p c ∧ ∀ x ∈ r.head?, p x = true := by
  refine ⟨l.takeWhile fun x => !p x, l.dropWhile fun x => !p x, List.takeWhile_append_dropWhile.symm,
    ⟨?_, ?_⟩, ?_⟩
  · cases l with
    | nil => exact absurd rfl hne
    | cons x l =>
        rw [List.takeWhile_cons_of_pos (by rw [hl x rfl]; rfl)]
        exact List.cons_ne_nil x _
  · intro x hx
    have hnot := List.mem_takeWhile_imp hx
    rwa [Bool.not_eq_true'] at hnot
  · intro x hx
    have hnot := head_dropWhile (fun x => !p x) l x hx
    rwa [Bool.not_eq_false'] at hnot

theorem not_separator_of_mem (h : c ∈ l.splitOnP p) : ∀ x ∈ c, p x = false := by
  induction l generalizing c with
  | nil =>
      rw [List.splitOnP_nil, List.mem_singleton] at h
      subst h
      exact fun x hx => nomatch hx
  | cons y l ih =>
      rw [List.splitOnP_cons_eq_if_modifyHead] at h
      by_cases hy : p y
      · rw [if_pos hy] at h
        rcases List.mem_cons.mp h with rfl | h
        · exact fun x hx => nomatch hx
        · exact ih h
      · rw [if_neg hy] at h
        match hsplit : l.splitOnP p with
        | [] => exact absurd hsplit (List.splitOnP_ne_nil p l)
        | d :: ds =>
            rw [hsplit] at h ih
            rcases List.mem_cons.mp h with rfl | h
            · intro x hx
              rcases List.mem_cons.mp hx with rfl | hx
              · exact Bool.eq_false_iff.mpr hy
              · exact ih List.mem_cons_self x hx
            · exact ih (List.mem_cons_of_mem d h)

theorem component_of_mem (h : c ∈ components p l) : Component p c := by
  obtain ⟨hsplit, hne⟩ := List.mem_filter.mp h
  refine ⟨?_, not_separator_of_mem hsplit⟩
  rintro rfl
  cases hne

theorem mem_intercalate {x : α} (h : x ∈ [s].intercalate cs) : x = s ∨ ∃ c ∈ cs, x ∈ c := by
  induction cs with
  | nil => exact nomatch h
  | cons c cs ih =>
      cases cs with
      | nil =>
          rw [List.intercalate_singleton] at h
          exact Or.inr ⟨c, List.mem_cons_self, h⟩
      | cons d ds =>
          rw [List.intercalate_cons_cons, List.append_assoc] at h
          rcases List.mem_append.mp h with h | h
          · exact Or.inr ⟨c, List.mem_cons_self, h⟩
          · rcases List.mem_cons.mp h with rfl | h
            · exact Or.inl rfl
            · exact (ih h).imp_right fun ⟨e, he, hx⟩ => ⟨e, List.mem_cons_of_mem c he, hx⟩

/-- Joined components are found again. -/
theorem components_intercalate (hs : p s) (h : ∀ c ∈ cs, Component p c) :
    components p ([s].intercalate cs) = cs := by
  induction cs with
  | nil => rfl
  | cons c cs ih =>
      have hc := h c List.mem_cons_self
      have hcs := ih fun d hd => h d (List.mem_cons_of_mem c hd)
      cases cs with
      | nil => rw [List.intercalate_singleton, components_single hc]
      | cons d ds =>
          rw [List.intercalate_cons_cons, List.append_assoc, List.singleton_append, components_append hs,
            components_single hc, hcs]
          rfl

end Components

end BdmAssault.Lib
