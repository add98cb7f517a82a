import Mathlib.Tactic.Choose
import BdmAssault.Lib.Ownership
import BdmAssault.Hcd.Core

/-! # Where descriptors are

A descriptor is free, in the queue of an endpoint or in the done queue, and the table has its
request while it is in use. This module has the invariant for that and what the functions of
the core do to it.
-/

namespace BdmAssault.Hcd

open Lib

variable {size : TdKind → Nat} {s t u : Core} {k : TdKind} {e : Nat}

/-! ## The invariant -/

inductive Place where
  | free
  | queue (e : Nat)
  | done

/-- The done queue in the order in which it is processed. -/
def Core.done (s : Core) : List (TdKind × Nat) := s.batch ++ s.doneHead.reverse

/-- The queue of an endpoint, head to tail. -/
def Core.chain (s : Core) (e : Nat) : List Nat := (s.ep e).tds ++ (s.ep e).tdTail.toList

def Holds (s : Core) (x : TdKind × Nat) : Place → Prop
  | .free => x.2 ∈ s.free x.1
  | .queue e => (s.ep e).kind = x.1 ∧ x.2 ∈ s.chain e
  | .done => x ∈ s.done

/-- The table's entry for a descriptor. -/
def Core.entry (s : Core) (x : TdKind × Nat) : Option Nat := s.lut x.1 x.2

/-- The endpoint of the request in the table. -/
def Core.user (s : Core) (x : TdKind × Nat) : Option Nat :=
  (s.entry x).map fun r => (s.req r).correspEndpoint

/-- The callback of its request is due when the descriptor is done. -/
def Closes (s : Core) (x : TdKind × Nat) : Prop := x.1 = .iso ∨ (s.td x.1 x.2).interrupt = true

/-- A failure that makes `processDoneQueue` look at the halted bit. -/
def Failed (s : Core) (x : TdKind × Nat) : Prop := x.1 = .general ∧ (s.td x.1 x.2).code ≠ usbRcOk

/-- What is done and what an endpoint still has to do, in the order in which the descriptors
of this endpoint are processed. -/
def Core.course (s : Core) (e : Nat) : List (TdKind × Nat) :=
  s.done ++ (s.ep e).tds.map (Prod.mk (s.ep e).kind)

/-- Each descriptor has one owner, and the table has the requests of those that are used.
After the descriptor that makes a callback due, none of its request follows, and after one
that failed none of its endpoint. -/
structure Tracked (size : TdKind → Nat) (s : Core) : Prop where
  owned : Partitioned (fun x : TdKind × Nat => x.2 < size x.1) (Holds s)
  freeOnce : ∀ k, (s.free k).Nodup
  chainOnce : ∀ e, (s.chain e).Nodup
  doneOnce : s.done.Nodup
  closed : ∀ e, (s.ep e).tdTail = none → (s.ep e).tds = []
  queued : ∀ e, ∀ t ∈ (s.ep e).tds, s.user ((s.ep e).kind, t) = some e
  done : ∀ x ∈ s.done, ∃ e, s.user x = some e ∧ (s.ep e).kind = x.1 ∧ (s.ep e).tdTail ≠ none
  carried : ∀ x, s.entry x ≠ none →
    x ∈ s.done ∨ ∃ e, (s.ep e).kind = x.1 ∧ x.2 ∈ (s.ep e).tds
  known : ∀ x r, s.entry x = some r → r < s.submissions
  closes : ∀ e, (s.course e).Pairwise fun x y => Closes s x → s.entry x ≠ s.entry y
  failed : ∀ x ∈ s.done, Failed s x → ∀ e, s.user x = some e → (s.ep e).halted = true
  failedLast : s.done.Pairwise fun x y => Failed s x → s.user x ≠ s.user y

/-- Waiting requests have no descriptor, and those whose callback was or will be run are
neither waiting nor in the table. -/
structure Accounted (s : Core) (ended : List Nat) : Prop where
  waiting : ∀ e, ∀ r ∈ (s.ep e).ioReqList, r < s.submissions ∧ (s.req r).correspEndpoint = e ∧
    ∀ x, s.entry x ≠ some r
  waitingOnce : ∀ e, (s.ep e).ioReqList.Nodup
  finished : ∀ r ∈ ended, r < s.submissions ∧ (∀ x, s.entry x ≠ some r) ∧ ∀ e, r ∉ (s.ep e).ioReqList
  endedOnce : ended.Nodup

/-- The requests whose callback was run, or is about to be. -/
def Core.ended (s : Core) : List Nat := s.called ++ s.callbacks.elim [] Prod.snd

theorem Core.user_eq_some {x : TdKind × Nat} : s.user x = some e ↔
    ∃ r, s.entry x = some r ∧ (s.req r).correspEndpoint = e := by
  unfold Core.user
  rw [Option.map_eq_some_iff]

theorem Core.entry_ne_of_user_ne {x y : TdKind × Nat} (h : s.user x ≠ s.user y) : s.entry x ≠ s.entry y :=
  fun he => h (congrArg (Option.map _) he)

theorem holds_tds {d : Nat} (hd : d ∈ (s.ep e).tds) : Holds s ((s.ep e).kind, d) (.queue e) :=
  ⟨rfl, List.mem_append_left _ hd⟩

theorem holds_queue_congr {x : TdKind × Nat} {f : Nat} (h : t.ep f = s.ep f) :
    Holds t x (.queue f) ↔ Holds s x (.queue f) := by
  simp only [Holds, Core.chain, h]

theorem holds_done_congr {x : TdKind × Nat} (h : t.done = s.done) : Holds t x .done ↔ Holds s x .done := by
  simp only [Holds, h]

/-- Only the queues of endpoints, the tables of requests waiting, and flags have changed. -/
theorem Tracked.of_ep (h : Tracked size s) {ep : Nat → Endpoint} (tdQueue : TdKind → List Nat)
    (hep : ∀ e, ∃ device inTdQueue ioReqList skipped, ep e = { s.ep e with
      device := device, inTdQueue := inTdQueue, ioReqList := ioReqList, skipped := skipped }) :
    Tracked size { s with ep := ep, tdQueue := tdQueue } := by
  choose device inTdQueue ioReqList skipped hep using hep
  cases funext hep
  exact ⟨⟨h.owned.within, h.owned.somewhere, h.owned.once⟩, h.freeOnce, h.chainOnce, h.doneOnce, h.closed,
    h.queued, h.done, h.carried, h.known, h.closes, h.failed, h.failedLast⟩

/-- The done queue may be taken over, and callbacks run. -/
theorem Tracked.of_done (h : Tracked size s) {batch doneHead : List (TdKind × Nat)}
    (callbacks : Option (TdKind × List Nat)) (called : List Nat)
    (hdone : batch ++ doneHead.reverse = s.done) : Tracked size
      { s with batch := batch, doneHead := doneHead, callbacks := callbacks, called := called } := by
  have hsame : Core.done
      { s with batch := batch, doneHead := doneHead, callbacks := callbacks, called := called } = s.done := hdone
  have hholds : Holds
      { s with batch := batch, doneHead := doneHead, callbacks := callbacks, called := called } = Holds s := by
    funext x p
    cases p with
    | free => rfl
    | queue e => rfl
    | done => exact propext (holds_done_congr hsame)
  constructor
  · rw [hholds]
    exact h.owned
  · exact h.freeOnce
  · exact h.chainOnce
  · rw [hsame]
    exact h.doneOnce
  · exact h.closed
  · exact h.queued
  · rw [hsame]
    exact h.done
  · rw [hsame]
    exact h.carried
  · exact h.known
  · unfold Core.course
    rw [hsame]
    exact h.closes
  · rw [hsame]
    exact h.failed
  · rw [hsame]
    exact h.failedLast

/-! ## Giving descriptors back -/

/-- The descriptors `P` of kind `k` were freed and their entries cleared. -/
structure Returned (k : TdKind) (P : Nat → Prop) (s t : Core) : Prop where
  free : ∀ d, d ∈ t.free k ↔ P d ∨ d ∈ s.free k
  freeOther : ∀ k', k' ≠ k → t.free k' = s.free k'
  once : (s.free k).Nodup → (t.free k).Nodup
  cleared : ∀ d, P d → t.entry (k, d) = none
  kept : ∀ x : TdKind × Nat, ¬(x.1 = k ∧ P x.2) → t.entry x = s.entry x
  endpoint : ∀ r, (t.req r).correspEndpoint = (s.req r).correspEndpoint

variable {P Q : Nat → Prop}

theorem Returned.refl (k : TdKind) (s : Core) : Returned k (fun _ => False) s s where
  free _ := by rw [false_or]
  freeOther _ _ := rfl
  once h := h
  cleared _ h := h.elim
  kept _ _ := rfl
  endpoint _ := rfl

theorem Returned.congr (h : Returned k P s t) (hPQ : ∀ d, P d ↔ Q d) : Returned k Q s t := by
  have hsame : P = Q := funext fun d => propext (hPQ d)
  rw [← hsame]
  exact h

/-- An entry that is there was there before. -/
theorem Returned.entry_of (h : Returned k P s t) {x : TdKind × Nat} {r : Nat}
    (hx : t.entry x = some r) : s.entry x = some r := by
  by_cases hP : x.1 = k ∧ P x.2
  · obtain ⟨k', d⟩ := x
    obtain ⟨rfl, hd⟩ := hP
    rw [h.cleared d hd] at hx
    cases hx
  · rw [← h.kept x hP]
    exact hx

theorem Returned.user_of (h : Returned k P s t) {x : TdKind × Nat} (hx : ¬(x.1 = k ∧ P x.2)) :
    t.user x = s.user x := by
  have hend : (fun r => (t.req r).correspEndpoint) = fun r => (s.req r).correspEndpoint :=
    funext h.endpoint
  unfold Core.user
  rw [h.kept x hx, hend]

theorem Returned.trans (h : Returned k P s t) (h' : Returned k Q t u) :
    Returned k (fun d => P d ∨ Q d) s u where
  free d := by
    rw [h'.free d, h.free d]
    constructor
    · rintro (hQ | hP | hfree)
      · exact .inl (.inr hQ)
      · exact .inl (.inl hP)
      · exact .inr hfree
    · rintro ((hP | hQ) | hfree)
      · exact .inr (.inl hP)
      · exact .inl hQ
      · exact .inr (.inr hfree)
  freeOther k' hk := (h'.freeOther k' hk).trans (h.freeOther k' hk)
  once hnodup := h'.once (h.once hnodup)
  cleared d hd := by
    by_cases hQ : Q d
    · exact h'.cleared d hQ
    · have hP : P d := hd.resolve_right hQ
      rw [h'.kept (k, d) fun hx => hQ hx.2]
      exact h.cleared d hP
  kept x hx := by
    rw [h'.kept x fun hQ => hx ⟨hQ.1, .inr hQ.2⟩, h.kept x fun hP => hx ⟨hP.1, .inl hP.2⟩]
  endpoint r := (h'.endpoint r).trans (h.endpoint r)

theorem Returned.of_batch {rest : List (TdKind × Nat)} (h : Returned k P { s with batch := rest } t) :
    Returned k P s t := ⟨h.free, h.freeOther, h.once, h.cleared, h.kept, h.endpoint⟩

theorem Returned.setEp {f : Endpoint → Endpoint} (h : Returned k P s t) (e : Nat) :
    Returned k P s (t.setEp e f) := ⟨h.free, h.freeOther, h.once, h.cleared, h.kept, h.endpoint⟩

theorem freeTd_free (k : TdKind) (d : Nat) (s : Core) (d' : Nat) :
    d' ∈ (freeTd k d s).free k ↔ d' = d ∨ d' ∈ s.free k := by
  unfold freeTd
  split
  · rename_i hmem
    constructor
    · exact .inr
    · rintro (rfl | h)
      · exact hmem
      · exact h
  · show d' ∈ Function.update s.free k (d :: s.free k) k ↔ _
    rw [Function.update_self, List.mem_cons]

theorem freeTd_once (k : TdKind) (d : Nat) (s : Core) (h : (s.free k).Nodup) :
    ((freeTd k d s).free k).Nodup := by
  unfold freeTd
  split
  · exact h
  · rename_i hmem
    show (Function.update s.free k (d :: s.free k) k).Nodup
    rw [Function.update_self]
    exact List.nodup_cons.mpr ⟨hmem, h⟩

theorem freeTd_other {k k' : TdKind} (d : Nat) (s : Core) (hk : k' ≠ k) :
    (freeTd k d s).free k' = s.free k' := by
  unfold freeTd
  split
  · rfl
  · exact Function.update_of_ne hk _ _

/-- A descriptor whose entry is clear. -/
theorem freeTd_returned {d : Nat} (h : s.entry (k, d) = none) :
    Returned k (fun d' => d' = d) s (freeTd k d s) := by
  have hrest : (freeTd k d s).lut = s.lut ∧ (freeTd k d s).req = s.req := by
    unfold freeTd
    split <;> exact ⟨rfl, rfl⟩
  have hentry : ∀ x, (freeTd k d s).entry x = s.entry x := by
    intro x
    unfold Core.entry
    rw [hrest.1]
  constructor
  · exact freeTd_free k d s
  · exact fun k' hk => freeTd_other d s hk
  · exact freeTd_once k d s
  · rintro d' rfl
    rw [hentry]
    exact h
  · exact fun x _ => hentry x
  · intro r
    rw [hrest.2]

@[simp] theorem setLut_entry_self (k : TdKind) (d : Nat) (r : Option Nat) (s : Core) :
    (s.setLut k d r).entry (k, d) = r := by
  simp [Core.entry, Core.setLut]

theorem setLut_entry_of_ne {x : TdKind × Nat} {d : Nat} (r : Option Nat) (s : Core) (hx : x ≠ (k, d)) :
    (s.setLut k d r).entry x = s.entry x := by
  obtain ⟨k', d'⟩ := x
  by_cases hk : k' = k
  · subst hk
    have hd : d' ≠ d := fun hd => hx (by rw [hd])
    simp [Core.entry, Core.setLut, hd]
  · simp [Core.entry, Core.setLut, hk]

/-- The entry is cleared and the descriptor freed. -/
theorem returned_clear (k : TdKind) (d : Nat) (s : Core) :
    Returned k (fun d' => d' = d) s (freeTd k d (s.setLut k d none)) := by
  have hfree : Returned k (fun d' => d' = d) (s.setLut k d none) (freeTd k d (s.setLut k d none)) :=
    freeTd_returned (setLut_entry_self k d none s)
  constructor
  · exact hfree.free
  · exact hfree.freeOther
  · exact hfree.once
  · exact hfree.cleared
  · intro x hx
    rw [hfree.kept x hx]
    exact setLut_entry_of_ne none s fun he => hx ⟨by rw [he], by rw [he]⟩
  · exact hfree.endpoint

/-- Only results of requests have changed. -/
theorem Returned.result (h : Returned k P s t) (r result : Nat) :
    Returned k P s { t with req := Function.update t.req r { t.req r with resultCode := result } } where
  free := h.free
  freeOther := h.freeOther
  once := h.once
  cleared := h.cleared
  kept := h.kept
  endpoint r' := by
    rw [← h.endpoint r']
    by_cases hr : r' = r
    · subst hr
      show (Function.update t.req r' _ r').correspEndpoint = _
      rw [Function.update_self]
    · show (Function.update t.req r _ r').correspEndpoint = _
      rw [Function.update_of_ne hr]

theorem retireTd_returned (k : TdKind) (d r result : Nat) (s : Core) :
    Returned k (fun d' => d' = d) s (retireTd k d r result s) :=
  (returned_clear k d s).result r result

/-! ### The descriptors of a halted endpoint -/

theorem abortRequest_returned {r : Nat} {l : List Nat} (h : Returned k P s t) :
    Returned k P s (abortRequest r (t, l)).1 := by
  unfold abortRequest
  split
  · exact h
  · exact h.result r usbRcAborted

theorem freeTd_setLut (k : TdKind) (d : Nat) (s : Core) :
    (freeTd k d s).setLut k d none = freeTd k d (s.setLut k d none) := by
  unfold freeTd
  show _ = if d ∈ s.free k then _ else _
  split <;> rfl

theorem freeTd_entry (k : TdKind) (d : Nat) (s : Core) (x : TdKind × Nat) :
    (freeTd k d s).entry x = s.entry x := by
  unfold freeTd
  split <;> rfl

theorem flushGenTd_returned (s : Core × List Nat) (d : Nat) :
    Returned .general (fun d' => d' = d) s.1 (flushGenTd s d).1 := by
  unfold flushGenTd
  split
  · rename_i hnone
    exact freeTd_returned ((freeTd_entry .general d s.1 (.general, d)).symm.trans hnone)
  · apply abortRequest_returned
    rw [freeTd_setLut]
    exact returned_clear .general d s.1

theorem foldl_flushGenTd_returned (tds : List Nat) (s : Core × List Nat) :
    Returned .general (fun d => d ∈ tds) s.1 (tds.foldl flushGenTd s).1 := by
  induction tds generalizing s with
  | nil => exact (Returned.refl .general s.1).congr fun d => by simp
  | cons d tds ih =>
      exact ((flushGenTd_returned s d).trans (ih (flushGenTd s d))).congr fun d' => List.mem_cons.symm

/-- The requests of the descriptors come to the list, each once. -/
theorem flushGenTd_list (s : Core × List Nat) (d : Nat) :
    (s.2.Nodup → (flushGenTd s d).2.Nodup) ∧
      ∀ r ∈ (flushGenTd s d).2, r ∈ s.2 ∨ s.1.entry (.general, d) = some r := by
  unfold flushGenTd
  split
  · exact ⟨id, fun r hr => .inl hr⟩
  · rename_i r hr
    have hentry : s.1.entry (.general, d) = some r :=
      (freeTd_entry .general d s.1 (.general, d)).symm.trans hr
    unfold abortRequest
    split
    · exact ⟨id, fun r' hr' => .inl hr'⟩
    · rename_i hnew
      constructor
      · intro hnodup
        apply List.nodup_append.mpr
        refine ⟨hnodup, List.pairwise_singleton _ r, fun a ha b hb => ?_⟩
        rw [List.mem_singleton.mp hb]
        exact fun he => hnew (he ▸ ha)
      · intro r' hr'
        rcases List.mem_append.mp hr' with hr' | hr'
        · exact .inl hr'
        · rw [List.mem_singleton.mp hr']
          exact .inr hentry

theorem foldl_flushGenTd_list (tds : List Nat) (s : Core × List Nat) :
    (s.2.Nodup → (tds.foldl flushGenTd s).2.Nodup) ∧
      ∀ r ∈ (tds.foldl flushGenTd s).2, r ∈ s.2 ∨ ∃ d ∈ tds, s.1.entry (.general, d) = some r := by
  induction tds generalizing s with
  | nil => exact ⟨id, fun r hr => .inl hr⟩
  | cons d tds ih =>
      obtain ⟨hnodup, hlist⟩ := flushGenTd_list s d
      obtain ⟨ihnodup, ihlist⟩ := ih (flushGenTd s d)
      constructor
      · exact fun h => ihnodup (hnodup h)
      · intro r hr
        rcases ihlist r hr with hr | ⟨d', hd', hr⟩
        · rcases hlist r hr with hr | hr
          · exact .inl hr
          · exact .inr ⟨d, List.mem_cons_self, hr⟩
        · exact .inr ⟨d', List.mem_cons_of_mem _ hd', (flushGenTd_returned s d).entry_of hr⟩

/-! ### The descriptors of an endpoint that is killed -/

theorem killTd_returned (k : TdKind) (e : Nat) (s : Core) (d : Nat) :
    Returned k (fun d' => d' = d ∧ s.user (k, d) = some e) s (killTd k e s d) := by
  unfold killTd
  split
  · rename_i hnone
    have hnot : s.user (k, d) ≠ some e := by
      rw [Ne, Core.user_eq_some]
      rintro ⟨r, hr, -⟩
      rw [show s.entry (k, d) = none from hnone] at hr
      cases hr
    exact (Returned.refl k s).congr fun d' => by simp [hnot]
  · rename_i r hr
    have huser : s.user (k, d) = some (s.req r).correspEndpoint :=
      Core.user_eq_some.mpr ⟨r, hr, rfl⟩
    split
    · rename_i hend
      rw [hend] at huser
      exact (returned_clear k d s).congr fun d' => by simp [huser]
    · rename_i hend
      have hnot : s.user (k, d) ≠ some e := by
        rw [huser]
        exact fun he => hend (Option.some.inj he)
      exact (Returned.refl k s).congr fun d' => by simp [hnot]

theorem foldl_killTd_returned (k : TdKind) (e : Nat) (tds : List Nat) (s : Core) :
    Returned k (fun d => d ∈ tds ∧ s.user (k, d) = some e) s (tds.foldl (killTd k e) s) := by
  induction tds generalizing s with
  | nil => exact (Returned.refl k s).congr fun d => by simp
  | cons d tds ih =>
      have hd := killTd_returned k e s d
      refine (hd.trans (ih (killTd k e s d))).congr fun d' => ?_
      by_cases hfirst : d' = d ∧ s.user (k, d) = some e
      · obtain ⟨rfl, huser⟩ := hfirst
        simp [huser]
      · have hsame : (killTd k e s d).user (k, d') = s.user (k, d') := hd.user_of fun hx => hfirst hx.2
        rw [hsame, List.mem_cons]
        constructor
        · rintro (hboth | ⟨hmem, huser⟩)
          · exact absurd hboth hfirst
          · exact ⟨.inr hmem, huser⟩
        · rintro ⟨rfl | hmem, huser⟩
          · exact absurd ⟨rfl, huser⟩ hfirst
          · exact .inr ⟨hmem, huser⟩

/-! ### The invariant when descriptors are given back -/

/-- The descriptors that are given back leave the done queue and the queues of endpoints, and
the endpoints of those that stay in the done queue stay as they are. -/
structure Leaves (k : TdKind) (P : Nat → Prop) (s t : Core) : Prop where
  td : t.td = s.td
  submissions : t.submissions = s.submissions
  called : t.called = s.called
  waiting : ∀ f, (t.ep f).ioReqList.Sublist (s.ep f).ioReqList
  done : t.done.Sublist s.done
  doneMem : ∀ x ∈ s.done, x ∈ t.done ↔ ¬(x.1 = k ∧ P x.2)
  kind : ∀ f, (t.ep f).kind = (s.ep f).kind
  tds : ∀ f, (t.ep f).tds.Sublist (s.ep f).tds
  tdsMem : ∀ f, ∀ d ∈ (s.ep f).tds, ¬((s.ep f).kind = k ∧ P d) → d ∈ (t.ep f).tds
  chain : ∀ f, (t.chain f).Sublist (s.chain f)
  chainMem : ∀ f, ∀ d ∈ s.chain f, d ∈ t.chain f ↔ ¬((s.ep f).kind = k ∧ P d)
  closed : ∀ f, (t.ep f).tdTail = none → (t.ep f).tds = []
  users : ∀ x ∈ t.done, ∀ f, s.user x = some f →
    (t.ep f).tdTail = (s.ep f).tdTail ∧ (Failed s x → (t.ep f).halted = (s.ep f).halted)

theorem Leaves.moves (hl : Leaves k P s t) (hr : Returned k P s t) :
    Moves (fun x : TdKind × Nat => x.1 = k ∧ P x.2) .free (Holds s) (Holds t) := by
  rintro ⟨k', d⟩ (_ | f | _)
  · show d ∈ t.free k' ↔ _
    by_cases hk : k' = k
    · subst hk
      rw [hr.free d]
      by_cases hd : P d
      · simp [hd]
      · simp [hd, Holds]
    · rw [hr.freeOther k' hk]
      simp [hk, Holds]
  · show (t.ep f).kind = k' ∧ d ∈ t.chain f ↔ _
    rw [hl.kind f]
    constructor
    · rintro ⟨rfl, hd⟩
      have hold := (hl.chain f).subset hd
      exact .inr ⟨(hl.chainMem f d hold).mp hd, rfl, hold⟩
    · rintro (⟨-, hne⟩ | ⟨hstays, rfl, hd⟩)
      · cases hne
      · exact ⟨rfl, (hl.chainMem f d hd).mpr hstays⟩
  · show (k', d) ∈ t.done ↔ _
    constructor
    · intro hd
      have hold := hl.done.subset hd
      exact .inr ⟨(hl.doneMem _ hold).mp hd, hold⟩
    · rintro (⟨-, hne⟩ | ⟨hstays, hd⟩)
      · cases hne
      · exact (hl.doneMem _ hd).mpr hstays

theorem Tracked.release (h : Tracked size s) (hr : Returned k P s t) (hl : Leaves k P s t)
    (hP : ∀ d, P d → d < size k) : Tracked size t := by
  have hdone : ∀ x ∈ t.done, x ∈ s.done ∧ ¬(x.1 = k ∧ P x.2) := by
    intro x hx
    have hold := hl.done.subset hx
    exact ⟨hold, (hl.doneMem x hold).mp hx⟩
  have htds : ∀ f, ∀ d ∈ (t.ep f).tds, d ∈ (s.ep f).tds ∧ ¬((s.ep f).kind = k ∧ P d) := by
    intro f d hd
    have hold : d ∈ s.chain f := List.mem_append_left _ ((hl.tds f).subset hd)
    exact ⟨(hl.tds f).subset hd, (hl.chainMem f d hold).mp (List.mem_append_left _ hd)⟩
  have hcourse : ∀ f, ∀ x ∈ t.course f, ¬(x.1 = k ∧ P x.2) := by
    intro f x hx
    rcases List.mem_append.mp hx with hx | hx
    · exact (hdone x hx).2
    · obtain ⟨d, hd, rfl⟩ := List.mem_map.mp hx
      rw [hl.kind f]
      exact (htds f d hd).2
  constructor
  · refine h.owned.moves (hl.moves hr) ?_
    rintro ⟨k', d⟩ ⟨rfl, hd⟩
    exact hP d hd
  · intro k'
    by_cases hk : k' = k
    · subst hk
      exact hr.once (h.freeOnce k')
    · rw [hr.freeOther k' hk]
      exact h.freeOnce k'
  · exact fun f => (h.chainOnce f).sublist (hl.chain f)
  · exact h.doneOnce.sublist hl.done
  · exact hl.closed
  · intro f d hd
    rw [hl.kind f, hr.user_of (htds f d hd).2]
    exact h.queued f d (htds f d hd).1
  · intro x hx
    obtain ⟨hold, hstays⟩ := hdone x hx
    obtain ⟨f, huser, hkind, htail⟩ := h.done x hold
    refine ⟨f, (hr.user_of hstays).trans huser, (hl.kind f).trans hkind, ?_⟩
    rw [(hl.users x hx f huser).1]
    exact htail
  · intro x hx
    obtain ⟨r, hr'⟩ := Option.ne_none_iff_exists'.mp hx
    have hstays : ¬(x.1 = k ∧ P x.2) := by
      intro hxk
      obtain ⟨k', d⟩ := x
      obtain ⟨rfl, hd⟩ := hxk
      exact hx (hr.cleared d hd)
    rw [hr.kept x hstays] at hx
    rcases h.carried x hx with hd | ⟨f, hf, hd⟩
    · exact .inl ((hl.doneMem x hd).mpr hstays)
    · refine .inr ⟨f, (hl.kind f).trans hf, hl.tdsMem f x.2 hd ?_⟩
      rw [hf]
      exact hstays
  · intro x r hx
    rw [hl.submissions]
    exact h.known x r (hr.entry_of hx)
  · intro f
    have hsub : (t.course f).Sublist (s.course f) := by
      unfold Core.course
      rw [hl.kind f]
      exact hl.done.append ((hl.tds f).map _)
    refine ((h.closes f).sublist hsub).imp_of_mem ?_
    intro x y hx hy hxy hclose
    rw [hr.kept x (hcourse f x hx), hr.kept y (hcourse f y hy)]
    apply hxy
    unfold Closes at *
    rw [← hl.td]
    exact hclose
  · intro x hx hfail f huser
    rw [hr.user_of (hdone x hx).2] at huser
    have hfail' : Failed s x := by
      unfold Failed at *
      rw [← hl.td]
      exact hfail
    rw [(hl.users x hx f huser).2 hfail']
    exact h.failed x (hdone x hx).1 hfail' f huser
  · refine (h.failedLast.sublist hl.done).imp_of_mem ?_
    intro x y hx hy hxy hfail
    rw [hr.user_of (hdone x hx).2, hr.user_of (hdone y hy).2]
    apply hxy
    unfold Failed at *
    rw [← hl.td]
    exact hfail

end BdmAssault.Hcd
