import BdmAssault.Hcd.Descriptors

/-! # Descriptors taken into use

Submitting a request and opening an endpoint take descriptors from the free list; the
controller moves them on to the done queue. Each keeps the invariant of `Descriptors`.
-/

namespace BdmAssault.Hcd

open Lib

variable {size : TdKind → Nat} {s t : Core} {k : TdKind} {e : Nat}

/-! ## Submitting -/

theorem fillTd_entry (k : TdKind) (d r : Nat) (interrupt : Bool) (s : Core) (x : TdKind × Nat) :
    (fillTd k d r interrupt s).entry x = if x.1 = k ∧ x.2 = d then some r else s.entry x := by
  unfold fillTd
  by_cases hx : x = (k, d)
  · subst hx
    rw [setLut_entry_self, if_pos ⟨rfl, rfl⟩]
  · rw [setLut_entry_of_ne _ _ hx, if_neg fun hk => hx (Prod.ext hk.1 hk.2)]
    rfl

theorem fillTd_td (k : TdKind) (d r : Nat) (interrupt : Bool) (s : Core) (x : TdKind × Nat) :
    (fillTd k d r interrupt s).td x.1 x.2 =
      if x.1 = k ∧ x.2 = d then ⟨interrupt, 15⟩ else s.td x.1 x.2 := by
  obtain ⟨k', d'⟩ := x
  show Function.update s.td k (Function.update (s.td k) d ⟨interrupt, 15⟩) k' d' = _
  by_cases hk : k' = k
  · subst hk
    by_cases hd : d' = d
    · simp [hd]
    · simp [hd]
  · simp [hk]

theorem fillTds_entry (k : TdKind) (r : Nat) (used : List Nat) (s : Core) (x : TdKind × Nat) :
    (fillTds k r used s).entry x = if x.1 = k ∧ x.2 ∈ used then some r else s.entry x := by
  induction used generalizing s with
  | nil => simp [fillTds]
  | cons d used ih =>
      cases used with
      | nil => simp [fillTds, fillTd_entry]
      | cons d' used =>
          show (fillTds k r (d' :: used) (fillTd k d r false s)).entry x = _
          rw [ih, fillTd_entry]
          by_cases hk : x.1 = k
          · by_cases hd : x.2 = d
            · simp [hk, hd]
            · simp [hk, hd]
          · simp [hk]

theorem fillTds_td_of {used : List Nat} {x : TdKind × Nat} (r : Nat) (s : Core)
    (hx : ¬(x.1 = k ∧ x.2 ∈ used)) : (fillTds k r used s).td x.1 x.2 = s.td x.1 x.2 := by
  induction used generalizing s with
  | nil => rfl
  | cons d used ih =>
      have hd : ¬(x.1 = k ∧ x.2 = d) := fun hxd => hx ⟨hxd.1, hxd.2 ▸ List.mem_cons_self⟩
      cases used with
      | nil =>
          show (fillTd k d r true s).td x.1 x.2 = _
          rw [fillTd_td, if_neg hd]
      | cons d' used =>
          show (fillTds k r (d' :: used) (fillTd k d r false s)).td x.1 x.2 = _
          rw [ih _ fun hxu => hx ⟨hxu.1, List.mem_cons_of_mem _ hxu.2⟩, fillTd_td, if_neg hd]

/-- Of the descriptors of a request only the last raises an interrupt. -/
theorem fillTds_interrupt {used : List Nat} (k : TdKind) (r : Nat) (s : Core) (h : used.Nodup) :
    used.Pairwise fun d _ => ((fillTds k r used s).td k d).interrupt = false := by
  induction used generalizing s with
  | nil => exact .nil
  | cons d used ih =>
      obtain ⟨hd, hused⟩ := List.nodup_cons.mp h
      cases used with
      | nil => exact List.pairwise_singleton _ _
      | cons d' used =>
          refine .cons (fun _ _ => ?_) (ih (fillTd k d r false s) hused)
          have hfirst : (fillTds k r (d' :: used) (fillTd k d r false s)).td k d =
              (fillTd k d r false s).td k d :=
            fillTds_td_of r _ (show ¬((k, d).1 = k ∧ (k, d).2 ∈ d' :: used) from fun hx => hd hx.2)
          show ((fillTds k r (d' :: used) (fillTd k d r false s)).td k d).interrupt = false
          rw [hfirst, fillTd_td k d r false s (k, d), if_pos ⟨rfl, rfl⟩]

section Submit

variable {r old tail : Nat} {rest news free ended : List Nat}

/-- The descriptors that a request gets are in no transfer. -/
def Unused (s : Core) (e : Nat) (used : List Nat) : Prop :=
  ∀ x : TdKind × Nat, (x ∈ s.done ∨ ∃ f, (s.ep f).kind = x.1 ∧ x.2 ∈ (s.ep f).tds) →
    ¬(x.1 = (s.ep e).kind ∧ x.2 ∈ used)

theorem Tracked.unused (h : Tracked size s) (htail : (s.ep e).tdTail = some old)
    (hfree : s.free (s.ep e).kind = news ++ tail :: free) : Unused s e (old :: news) := by
  rintro ⟨k, d⟩ hx ⟨hk, hmem⟩
  cases hk
  rcases List.mem_cons.mp hmem with rfl | hmem
  · have hold : Holds s ((s.ep e).kind, d) (.queue e) := by
      refine ⟨rfl, List.mem_append_right _ ?_⟩
      rw [htail]
      exact List.mem_singleton_self d
    rcases hx with hx | ⟨f, hf, hd⟩
    · exact h.owned.not_held hold (q := .done) nofun hx
    · have hfe := h.owned.once _ _ _ hold (show Holds s ((s.ep e).kind, d) (.queue f) from
        ⟨hf, List.mem_append_left _ hd⟩)
      cases hfe
      have hnodup := h.chainOnce e
      unfold Core.chain at hnodup
      rw [htail] at hnodup
      exact (List.nodup_append.mp hnodup).2.2 d hd d (List.mem_singleton_self d) rfl
  · have hold : Holds s ((s.ep e).kind, d) .free := by
      show d ∈ s.free _
      rw [hfree]
      exact List.mem_append_left _ hmem
    rcases hx with hx | ⟨f, hf, hd⟩
    · exact h.owned.not_held hold (q := .done) nofun hx
    · exact h.owned.not_held hold (q := .queue f) nofun ⟨hf, List.mem_append_left _ hd⟩

theorem submit_ep_self (k : TdKind) (e r : Nat) (rest used : List Nat) (tail : Nat) (free : List Nat)
    (s : Core) : (submit k e r rest used tail free s).ep e = { s.ep e with
      ioReqList := rest, tds := (s.ep e).tds ++ used, tdTail := some tail } := Function.update_self _ _ _

theorem submit_ep_of_ne {f : Nat} (k : TdKind) (r : Nat) (rest used : List Nat) (tail : Nat)
    (free : List Nat) (s : Core) (hf : f ≠ e) : (submit k e r rest used tail free s).ep f = s.ep f :=
  Function.update_of_ne hf _ _

theorem submit_rest (k : TdKind) (e r : Nat) (rest used : List Nat) (tail : Nat) (free : List Nat)
    (s : Core) : (submit k e r rest used tail free s).done = s.done ∧
      (submit k e r rest used tail free s).free = Function.update s.free k free ∧
      (submit k e r rest used tail free s).req = s.req ∧
      (submit k e r rest used tail free s).ended = s.ended ∧
      (submit k e r rest used tail free s).submissions = s.submissions := by
  unfold submit Core.done Core.ended
  rw [fillTds_frame]
  exact ⟨rfl, rfl, rfl, rfl, rfl⟩

theorem Tracked.submit_owned (h : Tracked size s) (htail : (s.ep e).tdTail = some old)
    (hfree : s.free (s.ep e).kind = news ++ tail :: free) :
    Partitioned (fun x : TdKind × Nat => x.2 < size x.1)
      (Holds (submit (s.ep e).kind e r rest (old :: news) tail free s)) := by
  obtain ⟨hdone, hnew, -⟩ := submit_rest (s.ep e).kind e r rest (old :: news) tail free s
  have hnodup := h.freeOnce (s.ep e).kind
  rw [hfree] at hnodup
  obtain ⟨-, hrest, hapart⟩ := List.nodup_append.mp hnodup
  refine h.owned.move (fun x => x.1 = (s.ep e).kind ∧ (x.2 ∈ news ∨ x.2 = tail)) .free (.queue e)
    ?_ ?_ ?_ ?_
  · rintro ⟨k, d⟩ ⟨rfl, hd⟩
    show d ∈ s.free _
    rw [hfree, List.mem_append, List.mem_cons]
    rcases hd with hd | hd
    · exact .inl hd
    · exact .inr (.inl hd)
  · rintro ⟨k, d⟩
    show d ∈ (submit (s.ep e).kind e r rest (old :: news) tail free s).free k ↔ d ∈ s.free k ∧ _
    rw [hnew]
    by_cases hk : k = (s.ep e).kind
    · subst hk
      rw [Function.update_self, hfree, List.mem_append, List.mem_cons]
      constructor
      · intro hd
        refine ⟨.inr (.inr hd), ?_⟩
        rintro ⟨-, hmem | rfl⟩
        · exact hapart d hmem d (List.mem_cons_of_mem _ hd) rfl
        · exact (List.nodup_cons.mp hrest).1 hd
      · rintro ⟨hmem | hd | hmem, hstays⟩
        · exact absurd ⟨rfl, .inl hmem⟩ hstays
        · exact absurd ⟨rfl, .inr hd⟩ hstays
        · exact hmem
    · rw [Function.update_of_ne hk]
      simp [hk]
  · rintro ⟨k, d⟩
    show ((submit (s.ep e).kind e r rest (old :: news) tail free s).ep e).kind = k ∧
      d ∈ ((submit (s.ep e).kind e r rest (old :: news) tail free s).ep e).tds ++
        ((submit (s.ep e).kind e r rest (old :: news) tail free s).ep e).tdTail.toList ↔
      ((s.ep e).kind = k ∧ d ∈ (s.ep e).tds ++ (s.ep e).tdTail.toList) ∨ _
    rw [submit_ep_self, htail]
    show (s.ep e).kind = k ∧ d ∈ ((s.ep e).tds ++ old :: news) ++ [tail] ↔ _
    simp only [Option.toList_some, List.mem_append, List.mem_cons, List.not_mem_nil, or_false]
    grind
  · rintro x (_ | f | _) hsrc hdest
    · exact absurd rfl hsrc
    · exact holds_queue_congr (submit_ep_of_ne _ _ _ _ _ _ _ fun hf => hdest (congrArg _ hf))
    · exact holds_done_congr hdone

/-- The queue of the endpoint with the descriptors of the request and the new tail. -/
theorem Tracked.submit_chain (h : Tracked size s) (htail : (s.ep e).tdTail = some old)
    (hfree : s.free (s.ep e).kind = news ++ tail :: free) :
    ((s.ep e).tds ++ old :: news ++ [tail]).Nodup := by
  have hchain := h.chainOnce e
  unfold Core.chain at hchain
  rw [htail] at hchain
  have hfresh : ∀ d ∈ news ++ [tail], d ∈ s.free (s.ep e).kind := by
    intro d hd
    rw [hfree, List.append_cons]
    exact List.mem_append_left _ hd
  have hnews : (news ++ [tail]).Nodup := by
    have hnodup := h.freeOnce (s.ep e).kind
    rw [hfree, List.append_cons] at hnodup
    exact hnodup.sublist (List.sublist_append_left _ _)
  have hsplit : (s.ep e).tds ++ old :: news ++ [tail] = ((s.ep e).tds ++ [old]) ++ (news ++ [tail]) := by
    simp
  rw [hsplit]
  refine List.nodup_append.mpr ⟨hchain, hnews, fun d hd d' hd' => ?_⟩
  rintro rfl
  refine h.owned.not_held (show Holds s ((s.ep e).kind, d) (.queue e) from ⟨rfl, ?_⟩) (q := .free) nofun
    (hfresh d hd')
  unfold Core.chain
  rw [htail]
  exact hd

theorem Tracked.submit_freeOnce (h : Tracked size s) (hfree : s.free (s.ep e).kind = news ++ tail :: free)
    (k : TdKind) : ((submit (s.ep e).kind e r rest (old :: news) tail free s).free k).Nodup := by
  rw [(submit_rest (s.ep e).kind e r rest (old :: news) tail free s).2.1]
  by_cases hk : k = (s.ep e).kind
  · subst hk
    have hnodup := h.freeOnce (s.ep e).kind
    rw [hfree, List.append_cons] at hnodup
    rw [Function.update_self]
    exact (List.nodup_append.mp hnodup).2.1
  · rw [Function.update_of_ne hk]
    exact h.freeOnce k

/-- What a submission changes, apart from where descriptors are. -/
structure Submitted (e r : Nat) (rest used : List Nat) (tail : Nat) (s t : Core) : Prop where
  done : t.done = s.done
  req : t.req = s.req
  submissions : t.submissions = s.submissions
  ended : t.ended = s.ended
  self : t.ep e = { s.ep e with ioReqList := rest, tds := (s.ep e).tds ++ used, tdTail := some tail }
  other : ∀ f, f ≠ e → t.ep f = s.ep f
  entry : ∀ x, t.entry x = if x.1 = (s.ep e).kind ∧ x.2 ∈ used then some r else s.entry x
  td : ∀ x : TdKind × Nat, ¬(x.1 = (s.ep e).kind ∧ x.2 ∈ used) → t.td x.1 x.2 = s.td x.1 x.2
  interrupt : used.Nodup → used.Pairwise fun d _ => (t.td (s.ep e).kind d).interrupt = false

theorem submit_submitted (e r : Nat) (rest used : List Nat) (tail : Nat) (free : List Nat) (s : Core) :
    Submitted e r rest used tail s (submit (s.ep e).kind e r rest used tail free s) := by
  obtain ⟨hdone, -, hreq, hended, hsub⟩ := submit_rest (s.ep e).kind e r rest used tail free s
  constructor
  · exact hdone
  · exact hreq
  · exact hsub
  · exact hended
  · exact submit_ep_self _ _ _ _ _ _ _ _
  · exact fun f hf => submit_ep_of_ne _ _ _ _ _ _ _ hf
  · exact fun x => (fillTds_entry (s.ep e).kind r used _ x).trans rfl
  · exact fun x hx => (fillTds_td_of r _ hx).trans rfl
  · exact fun hused => fillTds_interrupt (s.ep e).kind r (s.setFree (s.ep e).kind free) hused

variable {used : List Nat}

theorem Submitted.entry_used (h : Submitted e r rest used tail s t) {d : Nat} (hd : d ∈ used) :
    t.entry ((s.ep e).kind, d) = some r := by
  rw [h.entry, if_pos ⟨rfl, hd⟩]

theorem Submitted.entry_of (h : Submitted e r rest used tail s t) {x : TdKind × Nat}
    (hx : ¬(x.1 = (s.ep e).kind ∧ x.2 ∈ used)) : t.entry x = s.entry x := by
  rw [h.entry, if_neg hx]

theorem Submitted.user_of (h : Submitted e r rest used tail s t) {x : TdKind × Nat}
    (hx : ¬(x.1 = (s.ep e).kind ∧ x.2 ∈ used)) : t.user x = s.user x := by
  unfold Core.user
  rw [h.entry_of hx, h.req]

theorem Submitted.kind (h : Submitted e r rest used tail s t) (f : Nat) :
    (t.ep f).kind = (s.ep f).kind := by
  by_cases hf : f = e
  · subst hf
    rw [h.self]
    rfl
  · rw [h.other f hf]

theorem Submitted.halted (h : Submitted e r rest used tail s t) (f : Nat) :
    (t.ep f).halted = (s.ep f).halted := by
  by_cases hf : f = e
  · subst hf
    rw [h.self]
  · rw [h.other f hf]

theorem Submitted.mem_tds (h : Submitted e r rest used tail s t) {f d : Nat} :
    d ∈ (t.ep f).tds ↔ d ∈ (s.ep f).tds ∨ (f = e ∧ d ∈ used) := by
  by_cases hf : f = e
  · subst hf
    rw [h.self]
    simp
  · rw [h.other f hf]
    simp [hf]

theorem Unused.tds (h : Unused s e used) {f d : Nat} (hd : d ∈ (s.ep f).tds) :
    ¬((s.ep f).kind = (s.ep e).kind ∧ d ∈ used) :=
  h ((s.ep f).kind, d) (.inr ⟨f, rfl, hd⟩)

theorem Unused.course (h : Unused s e used) {f : Nat} {x : TdKind × Nat} (hx : x ∈ s.course f) :
    ¬(x.1 = (s.ep e).kind ∧ x.2 ∈ used) := by
  rcases List.mem_append.mp hx with hx | hx
  · exact h x (.inl hx)
  · obtain ⟨d, hd, rfl⟩ := List.mem_map.mp hx
    exact h.tds hd

theorem Submitted.failed_of (hsub : Submitted e r rest used tail s t) (hunused : Unused s e used)
    {x : TdKind × Nat} (hx : x ∈ s.done) (hfail : Failed t x) : Failed s x := by
  unfold Failed at *
  rw [← hsub.td x (hunused x (.inl hx))]
  exact hfail

theorem Tracked.submitted_queued (h : Tracked size s) (hsub : Submitted e r rest used tail s t)
    (hunused : Unused s e used) (hr : (s.req r).correspEndpoint = e) {f d : Nat} (hd : d ∈ (t.ep f).tds) :
    t.user ((t.ep f).kind, d) = some f := by
  rw [hsub.kind f]
  by_cases hused : f = e ∧ d ∈ used
  · obtain ⟨rfl, hd⟩ := hused
    refine Core.user_eq_some.mpr ⟨r, hsub.entry_used hd, ?_⟩
    rw [hsub.req]
    exact hr
  · have hd' : d ∈ (s.ep f).tds := (hsub.mem_tds.mp hd).resolve_right hused
    rw [hsub.user_of (hunused.tds hd')]
    exact h.queued f d hd'

theorem Tracked.submitted_done (h : Tracked size s) (hsub : Submitted e r rest used tail s t)
    (hunused : Unused s e used) {x : TdKind × Nat} (hx : x ∈ s.done) :
    ∃ f, t.user x = some f ∧ (t.ep f).kind = x.1 ∧ (t.ep f).tdTail ≠ none := by
  obtain ⟨f, huser, hkind, htail⟩ := h.done x hx
  refine ⟨f, (hsub.user_of (hunused x (.inl hx))).trans huser, (hsub.kind f).trans hkind, ?_⟩
  by_cases hf : f = e
  · subst hf
    rw [hsub.self]
    exact nofun
  · rw [hsub.other f hf]
    exact htail

/-- An entry of the table is of a descriptor on its way, the new ones included. -/
theorem Tracked.submitted_carried (h : Tracked size s) (hsub : Submitted e r rest used tail s t)
    {x : TdKind × Nat} (hx : t.entry x ≠ none) :
    x ∈ t.done ∨ ∃ f, (t.ep f).kind = x.1 ∧ x.2 ∈ (t.ep f).tds := by
  by_cases hused : x.1 = (s.ep e).kind ∧ x.2 ∈ used
  · exact .inr ⟨e, (hsub.kind e).trans hused.1.symm, hsub.mem_tds.mpr (.inr ⟨rfl, hused.2⟩)⟩
  · rw [hsub.entry_of hused] at hx
    rcases h.carried x hx with hd | ⟨f, hf, hd⟩
    · rw [hsub.done]
      exact .inl hd
    · exact .inr ⟨f, (hsub.kind f).trans hf, hsub.mem_tds.mpr (.inl hd)⟩

theorem Tracked.submitted_known (h : Tracked size s) (hsub : Submitted e r rest used tail s t)
    (hr : r < s.submissions) {x : TdKind × Nat} {r' : Nat} (hx : t.entry x = some r') : r' < t.submissions := by
  rw [hsub.submissions]
  by_cases hused : x.1 = (s.ep e).kind ∧ x.2 ∈ used
  · rw [hsub.entry, if_pos hused] at hx
    cases hx
    exact hr
  · rw [hsub.entry_of hused] at hx
    exact h.known x r' hx

/-- What was on its way closes what it closed before. -/
theorem Tracked.submitted_course (h : Tracked size s) (hsub : Submitted e r rest used tail s t)
    (hunused : Unused s e used) (f : Nat) :
    (s.course f).Pairwise fun x y => Closes t x → t.entry x ≠ t.entry y := by
  refine (h.closes f).imp_of_mem ?_
  intro x y hx hy hxy hclose
  rw [hsub.entry_of (hunused.course hx), hsub.entry_of (hunused.course hy)]
  apply hxy
  unfold Closes at *
  rw [← hsub.td x (hunused.course hx)]
  exact hclose

/-- Of the descriptors of the request only the last one can close it. -/
theorem Submitted.pairwise_used (hsub : Submitted e r rest used tail s t) (hnodup : used.Nodup)
    (hiso : (s.ep e).kind = .iso → ∃ d, used = [d]) :
    (used.map (Prod.mk (s.ep e).kind)).Pairwise fun x y => Closes t x → t.entry x ≠ t.entry y := by
  rw [List.pairwise_map]
  by_cases hk : (s.ep e).kind = .iso
  · obtain ⟨d, hd⟩ := hiso hk
    rw [hd]
    exact List.pairwise_singleton _ d
  · refine (hsub.interrupt hnodup).imp ?_
    rintro d d' hd (hclose | hclose)
    · exact absurd hclose hk
    · rw [hd] at hclose
      cases hclose

theorem Tracked.submitted_closes (h : Tracked size s) (hsub : Submitted e r rest used tail s t)
    (hunused : Unused s e used) (hr : ∀ x, s.entry x ≠ some r) (hnodup : used.Nodup)
    (hiso : (s.ep e).kind = .iso → ∃ d, used = [d]) (f : Nat) :
    (t.course f).Pairwise fun x y => Closes t x → t.entry x ≠ t.entry y := by
  by_cases hf : f = e
  · subst hf
    have hsplit : t.course f = s.course f ++ used.map (Prod.mk (s.ep f).kind) := by
      unfold Core.course
      rw [hsub.done, hsub.kind, hsub.self, List.map_append, List.append_assoc]
    rw [hsplit, List.pairwise_append]
    refine ⟨h.submitted_course hsub hunused f, hsub.pairwise_used hnodup hiso, ?_⟩
    intro x hx y hy _
    obtain ⟨d, hd, rfl⟩ := List.mem_map.mp hy
    rw [hsub.entry_of (hunused.course hx), hsub.entry_used hd]
    exact hr x
  · have hsame : t.course f = s.course f := by
      unfold Core.course
      rw [hsub.done, hsub.other f hf]
    rw [hsame]
    exact h.submitted_course hsub hunused f

/-- A request gets descriptors that are in no use. -/
theorem Tracked.submitted (h : Tracked size s) (ha : Accounted s ended)
    (hsub : Submitted e r rest used tail s t) (hlist : (s.ep e).ioReqList = r :: rest)
    (howned : Partitioned (fun x : TdKind × Nat => x.2 < size x.1) (Holds t))
    (hfree : ∀ k, (t.free k).Nodup) (hchain : ((s.ep e).tds ++ used ++ [tail]).Nodup)
    (hunused : Unused s e used) (hiso : (s.ep e).kind = .iso → ∃ d, used = [d]) : Tracked size t := by
  have hr : r < s.submissions ∧ (s.req r).correspEndpoint = e ∧ ∀ x, s.entry x ≠ some r :=
    ha.waiting e r (hlist ▸ List.mem_cons_self)
  have hnodup : used.Nodup := by
    rw [List.append_assoc] at hchain
    exact ((List.nodup_append.mp hchain).2.1).sublist (List.sublist_append_left _ _)
  constructor
  · exact howned
  · exact hfree
  · intro f
    by_cases hf : f = e
    · subst hf
      unfold Core.chain
      rw [hsub.self]
      exact hchain
    · unfold Core.chain
      rw [hsub.other f hf]
      exact h.chainOnce f
  · rw [hsub.done]
    exact h.doneOnce
  · intro f hnone
    by_cases hf : f = e
    · subst hf
      rw [hsub.self] at hnone
      cases hnone
    · rw [hsub.other f hf] at hnone ⊢
      exact h.closed f hnone
  · exact fun f d hd => h.submitted_queued hsub hunused hr.2.1 hd
  · intro x hx
    rw [hsub.done] at hx
    exact h.submitted_done hsub hunused hx
  · exact fun x hx => h.submitted_carried hsub hx
  · exact fun x r' hx => h.submitted_known hsub hr.1 hx
  · exact h.submitted_closes hsub hunused hr.2.2 hnodup hiso
  · intro x hx hx' f huser
    rw [hsub.done] at hx
    rw [hsub.user_of (hunused x (.inl hx))] at huser
    rw [hsub.halted f]
    exact h.failed x hx (hsub.failed_of hunused hx hx') f huser
  · rw [hsub.done]
    refine h.failedLast.imp_of_mem ?_
    intro x y hx hy hxy hx'
    rw [hsub.user_of (hunused x (.inl hx)), hsub.user_of (hunused y (.inl hy))]
    exact hxy (hsub.failed_of hunused hx hx')

/-- Requests are accounted for as before; the one that was submitted does not wait any more. -/
theorem Accounted.submitted (h : Accounted s ended) (hsub : Submitted e r rest used tail s t)
    (hlist : (s.ep e).ioReqList = r :: rest) : Accounted t ended := by
  have hr : r ∈ (s.ep e).ioReqList := hlist ▸ List.mem_cons_self
  have hmem : ∀ f, ∀ r' ∈ (t.ep f).ioReqList, r' ∈ (s.ep f).ioReqList ∧ r' ≠ r := by
    intro f r' hr'
    by_cases hf : f = e
    · subst hf
      have hnodup := h.waitingOnce f
      rw [hlist] at hnodup
      rw [hsub.self] at hr'
      refine ⟨hlist ▸ List.mem_cons_of_mem _ hr', ?_⟩
      rintro rfl
      exact (List.nodup_cons.mp hnodup).1 hr'
    · rw [hsub.other f hf] at hr'
      refine ⟨hr', ?_⟩
      rintro rfl
      exact hf ((h.waiting f r' hr').2.1.symm.trans (h.waiting e r' hr).2.1)
  have hentry : ∀ r', r' ≠ r → (∀ x, s.entry x ≠ some r') → ∀ x, t.entry x ≠ some r' := by
    intro r' hne hnot x
    rw [hsub.entry]
    split
    · exact fun he => hne (Option.some.inj he).symm
    · exact hnot x
  constructor
  · intro f r' hr'
    obtain ⟨hold, hne⟩ := hmem f r' hr'
    obtain ⟨hlt, hend, hnot⟩ := h.waiting f r' hold
    rw [hsub.submissions, hsub.req]
    exact ⟨hlt, hend, hentry r' hne hnot⟩
  · intro f
    by_cases hf : f = e
    · subst hf
      have hnodup := h.waitingOnce f
      rw [hlist] at hnodup
      rw [hsub.self]
      exact (List.nodup_cons.mp hnodup).2
    · rw [hsub.other f hf]
      exact h.waitingOnce f
  · intro r' hr'
    obtain ⟨hlt, hnot, hwait⟩ := h.finished r' hr'
    rw [hsub.submissions]
    refine ⟨hlt, hentry r' ?_ hnot, fun f hf => hwait f (hmem f r' hf).1⟩
    rintro rfl
    exact hwait e hr
  · exact h.endedOnce

end Submit

/-! ## Retiring and opening -/

section Retire

variable {code d : Nat} {halt : Bool} {rest : List Nat}

theorem retired_ep_self : (retired e code halt d rest s).ep e = { s.ep e with tds := rest, halted := halt } :=
  Function.update_self _ _ _

theorem retired_ep_of_ne {f : Nat} (hf : f ≠ e) : (retired e code halt d rest s).ep f = s.ep f :=
  Function.update_of_ne hf _ _

theorem retired_done : (retired e code halt d rest s).done = s.done ++ [((s.ep e).kind, d)] := by
  show s.batch ++ (((s.ep e).kind, d) :: s.doneHead).reverse = _
  rw [List.reverse_cons, ← List.append_assoc]
  rfl

theorem retired_kind (f : Nat) : ((retired e code halt d rest s).ep f).kind = (s.ep f).kind := by
  by_cases hf : f = e
  · subst hf
    rw [retired_ep_self]
    rfl
  · rw [retired_ep_of_ne hf]

theorem retired_tdTail (f : Nat) : ((retired e code halt d rest s).ep f).tdTail = (s.ep f).tdTail := by
  by_cases hf : f = e
  · subst hf
    rw [retired_ep_self]
  · rw [retired_ep_of_ne hf]

theorem retired_td (x : TdKind × Nat) : (retired e code halt d rest s).td x.1 x.2 =
    if x = ((s.ep e).kind, d) then { s.td x.1 x.2 with code := code } else s.td x.1 x.2 := by
  obtain ⟨k, d'⟩ := x
  show Function.update s.td (s.ep e).kind
    (Function.update (s.td (s.ep e).kind) d { s.td (s.ep e).kind d with code := code }) k d' = _
  by_cases hk : k = (s.ep e).kind
  · subst hk
    by_cases hd : d' = d
    · subst hd
      simp
    · simp [hd]
  · simp [hk]

theorem closes_retired {x : TdKind × Nat} : Closes (retired e code halt d rest s) x ↔ Closes s x := by
  unfold Closes
  rw [retired_td]
  split <;> rfl

theorem Tracked.retired_owned (h : Tracked size s) (htds : (s.ep e).tds = d :: rest) :
    Partitioned (fun x : TdKind × Nat => x.2 < size x.1) (Holds (retired e code halt d rest s)) := by
  have hnodup := h.chainOnce e
  unfold Core.chain at hnodup
  rw [htds, List.cons_append, List.nodup_cons] at hnodup
  refine h.owned.move (fun x => x = ((s.ep e).kind, d)) (.queue e) .done ?_ ?_ ?_ ?_
  · rintro x rfl
    exact holds_tds (htds ▸ List.mem_cons_self)
  · rintro ⟨k, d'⟩
    show ((retired e code halt d rest s).ep e).kind = k ∧
        d' ∈ ((retired e code halt d rest s).ep e).tds ++ ((retired e code halt d rest s).ep e).tdTail.toList ↔
      ((s.ep e).kind = k ∧ d' ∈ (s.ep e).tds ++ (s.ep e).tdTail.toList) ∧ _
    rw [retired_ep_self, htds, List.cons_append, List.mem_cons]
    show (s.ep e).kind = k ∧ d' ∈ rest ++ (s.ep e).tdTail.toList ↔ _
    constructor
    · rintro ⟨rfl, hd⟩
      refine ⟨⟨rfl, .inr hd⟩, fun hx => hnodup.1 ?_⟩
      cases hx
      exact hd
    · rintro ⟨⟨rfl, rfl | hd⟩, hx⟩
      · exact absurd rfl hx
      · exact ⟨rfl, hd⟩
  · intro x
    show x ∈ (retired e code halt d rest s).done ↔ x ∈ s.done ∨ _
    rw [retired_done, List.mem_append, List.mem_singleton]
  · rintro x (_ | f | _) hsrc hdest
    · rfl
    · exact holds_queue_congr (retired_ep_of_ne fun hf => hsrc (congrArg _ hf))
    · exact absurd rfl hdest

/-- A descriptor that is still in a queue is not done. -/
theorem Tracked.ne_of_done (h : Tracked size s) (hd : d ∈ (s.ep e).tds) {x : TdKind × Nat} (hx : x ∈ s.done) :
    x ≠ ((s.ep e).kind, d) := by
  rintro rfl
  exact h.owned.not_held (holds_tds hd) (q := .done) nofun hx

theorem Tracked.failed_of_retired (h : Tracked size s) (hd : d ∈ (s.ep e).tds) {x : TdKind × Nat}
    (hx : x ∈ s.done) (hfail : Failed (retired e code halt d rest s) x) : Failed s x := by
  unfold Failed at *
  rw [retired_td, if_neg (h.ne_of_done hd hx)] at hfail
  exact hfail

/-- A failure of this endpoint that is still to be processed would have halted it. -/
theorem Tracked.not_failed (h : Tracked size s) (hrun : (s.ep e).halted = false) {x : TdKind × Nat}
    (hx : x ∈ s.done) (hfail : Failed s x) : s.user x ≠ some e := by
  intro huser
  have hhalted := h.failed x hx hfail e huser
  rw [hrun] at hhalted
  cases hhalted

theorem Tracked.retired_carried (h : Tracked size s) (htds : (s.ep e).tds = d :: rest) {x : TdKind × Nat}
    (hx : s.entry x ≠ none) : x ∈ (retired e code halt d rest s).done ∨
      ∃ f, ((retired e code halt d rest s).ep f).kind = x.1 ∧
        x.2 ∈ ((retired e code halt d rest s).ep f).tds := by
  rw [retired_done, List.mem_append, List.mem_singleton]
  rcases h.carried x hx with hd | ⟨f, hf, hd⟩
  · exact .inl (.inl hd)
  · by_cases hthis : x = ((s.ep e).kind, d)
    · exact .inl (.inr hthis)
    · refine .inr ⟨f, (retired_kind f).trans hf, ?_⟩
      by_cases hfe : f = e
      · subst hfe
        rw [htds, List.mem_cons] at hd
        rw [retired_ep_self]
        exact hd.resolve_left fun hd => hthis (Prod.ext hf.symm hd)
      · rw [retired_ep_of_ne hfe]
        exact hd

/-- For its own endpoint the course is the same; for another one, the descriptor is put between
what is done and what is queued. -/
theorem Tracked.retired_closes (h : Tracked size s) (htds : (s.ep e).tds = d :: rest) (f : Nat) :
    ((retired e code halt d rest s).course f).Pairwise fun x y =>
      Closes (retired e code halt d rest s) x → s.entry x ≠ s.entry y := by
  have hclosed : ∀ {x}, Closes (Hcd.retired e code halt d rest s) x → Closes s x := closes_retired.mp
  by_cases hf : f = e
  · subst hf
    have hsame : (Hcd.retired f code halt d rest s).course f = s.course f := by
      unfold Core.course
      rw [retired_done, retired_kind, retired_ep_self, htds, List.map_cons, List.append_assoc]
      rfl
    rw [hsame]
    exact (h.closes f).imp fun hxy hclose => hxy (hclosed hclose)
  · have hfirst : d ∈ (s.ep e).tds := htds ▸ List.mem_cons_self
    have hsplit : (Hcd.retired e code halt d rest s).course f =
        s.done ++ ([((s.ep e).kind, d)] ++ (s.ep f).tds.map (Prod.mk (s.ep f).kind)) := by
      unfold Core.course
      rw [retired_done, retired_kind, retired_ep_of_ne hf, List.append_assoc]
    obtain ⟨hdone, hqueue, hcross⟩ := List.pairwise_append.mp (h.closes f)
    rw [hsplit, List.pairwise_append]
    refine ⟨hdone.imp fun hxy hx => hxy (hclosed hx), .cons ?_ (hqueue.imp fun hxy hx => hxy (hclosed hx)),
      ?_⟩
    · intro y hy _
      obtain ⟨d', hd', rfl⟩ := List.mem_map.mp hy
      apply Core.entry_ne_of_user_ne
      rw [h.queued e d hfirst, h.queued f d' hd']
      exact fun he => hf (Option.some.inj he).symm
    · intro x hx y hy hclose
      rcases List.mem_cons.mp hy with rfl | hy
      · refine (List.pairwise_append.mp (h.closes e)).2.2 x hx _ ?_ (hclosed hclose)
        exact List.mem_map_of_mem hfirst
      · exact hcross x hx y hy (hclosed hclose)

/-- The controller moves the first descriptor of an endpoint to the done queue. -/
theorem Tracked.retired (h : Tracked size s) (htds : (s.ep e).tds = d :: rest)
    (hrun : (s.ep e).halted = false) (hhalt : (s.ep e).kind = .general → code ≠ usbRcOk → halt = true) :
    Tracked size (retired e code halt d rest s) := by
  have hfirst : d ∈ (s.ep e).tds := htds ▸ List.mem_cons_self
  have huser : s.user ((s.ep e).kind, d) = some e := h.queued e d hfirst
  have hmem : ∀ f, ∀ d' ∈ ((Hcd.retired e code halt d rest s).ep f).tds, d' ∈ (s.ep f).tds := by
    intro f d' hd'
    by_cases hf : f = e
    · subst hf
      rw [retired_ep_self] at hd'
      exact htds ▸ List.mem_cons_of_mem _ hd'
    · rw [retired_ep_of_ne hf] at hd'
      exact hd'
  constructor
  · exact h.retired_owned htds
  · exact h.freeOnce
  · intro f
    by_cases hf : f = e
    · subst hf
      have hnodup := h.chainOnce f
      unfold Core.chain at *
      rw [htds] at hnodup
      rw [retired_ep_self]
      exact (List.nodup_cons.mp hnodup).2
    · unfold Core.chain
      rw [retired_ep_of_ne hf]
      exact h.chainOnce f
  · rw [retired_done]
    refine List.nodup_append.mpr ⟨h.doneOnce, List.pairwise_singleton _ _, fun x hx y hy => ?_⟩
    rw [List.mem_singleton.mp hy]
    exact h.ne_of_done hfirst hx
  · intro f hnone
    rw [retired_tdTail] at hnone
    have hempty := h.closed f hnone
    by_cases hf : f = e
    · subst hf
      rw [htds] at hempty
      cases hempty
    · rw [retired_ep_of_ne hf]
      exact hempty
  · intro f d' hd'
    rw [retired_kind]
    exact h.queued f d' (hmem f d' hd')
  · intro x hx
    have hold : ∃ f, s.user x = some f ∧ (s.ep f).kind = x.1 ∧ (s.ep f).tdTail ≠ none := by
      rw [retired_done, List.mem_append, List.mem_singleton] at hx
      rcases hx with hx | rfl
      · exact h.done x hx
      · refine ⟨e, huser, rfl, fun hnone => ?_⟩
        rw [h.closed e hnone] at hfirst
        cases hfirst
    obtain ⟨f, hf, hkind, htail⟩ := hold
    refine ⟨f, hf, (retired_kind f).trans hkind, ?_⟩
    rw [retired_tdTail]
    exact htail
  · exact fun x hx => h.retired_carried htds hx
  · exact h.known
  · exact h.retired_closes htds
  · intro x hx hx' f hf
    rw [retired_done, List.mem_append, List.mem_singleton] at hx
    rcases hx with hx | rfl
    · have hold := h.failed_of_retired hfirst hx hx'
      have hne : f ≠ e := by
        rintro rfl
        exact h.not_failed hrun hx hold hf
      rw [retired_ep_of_ne hne]
      exact h.failed x hx hold f hf
    · have hfe : e = f := Option.some.inj (huser.symm.trans hf)
      subst hfe
      rw [retired_ep_self]
      obtain ⟨hk, hcode⟩ := hx'
      rw [retired_td, if_pos rfl] at hcode
      exact hhalt hk hcode
  · rw [retired_done, List.pairwise_append]
    refine ⟨h.failedLast.imp_of_mem fun hx _ hxy hx' => hxy (h.failed_of_retired hfirst hx hx'),
      List.pairwise_singleton _ _, ?_⟩
    intro x hx y hy hx'
    rw [List.mem_singleton.mp hy]
    show s.user x ≠ s.user _
    rw [huser]
    exact h.not_failed hrun hx (h.failed_of_retired hfirst hx hx')

end Retire

/-! ## Opening -/

section Open

variable {type : EndpointType} {d : Nat} {free : List Nat}

/-- The state with the queue of a new endpoint, whose tail is the descriptor `t`. -/
def withQueue (e : Nat) (type : EndpointType) (t : Nat) (free : List Nat) (s : Core) : Core :=
  { s.setFree type.kind free with
    ep := Function.update s.ep e ⟨type, true, none, [], false, false, [], some t⟩
    sent := Function.update s.sent e [] }

theorem withQueue_ep_self : (withQueue e type d free s).ep e = ⟨type, true, none, [], false, false, [], some d⟩ :=
  Function.update_self _ _ _

theorem withQueue_ep_of_ne {f : Nat} (hf : f ≠ e) : (withQueue e type d free s).ep f = s.ep f :=
  Function.update_of_ne hf _ _

theorem withQueue_tds {f d' : Nat} (hd : d' ∈ ((withQueue e type d free s).ep f).tds) :
    f ≠ e ∧ d' ∈ (s.ep f).tds := by
  by_cases hf : f = e
  · subst hf
    rw [withQueue_ep_self] at hd
    cases hd
  · rw [withQueue_ep_of_ne hf] at hd
    exact ⟨hf, hd⟩

/-- What has completed is of another endpoint: this one has no queue. -/
theorem Tracked.done_ne (h : Tracked size s) (htail : (s.ep e).tdTail = none) {x : TdKind × Nat}
    (hx : x ∈ s.done) {f : Nat} (hf : s.user x = some f) : f ≠ e := by
  rintro rfl
  obtain ⟨f', hf', -, hopen⟩ := h.done x hx
  rw [hf] at hf'
  cases hf'
  exact hopen htail

theorem Tracked.withQueue_owned (h : Tracked size s) (htail : (s.ep e).tdTail = none)
    (hfree : s.free type.kind = d :: free) :
    Partitioned (fun x : TdKind × Nat => x.2 < size x.1) (Holds (withQueue e type d free s)) := by
  have hnodup := h.freeOnce type.kind
  rw [hfree, List.nodup_cons] at hnodup
  refine h.owned.move (fun x => x = (type.kind, d)) .free (.queue e) ?_ ?_ ?_ ?_
  · rintro x rfl
    show d ∈ s.free _
    rw [hfree]
    exact List.mem_cons_self
  · rintro ⟨k, d'⟩
    show d' ∈ Function.update s.free type.kind free k ↔ d' ∈ s.free k ∧ _
    by_cases hk : k = type.kind
    · subst hk
      rw [Function.update_self, hfree, List.mem_cons, Prod.mk.injEq]
      constructor
      · intro hd
        refine ⟨.inr hd, ?_⟩
        rintro ⟨-, rfl⟩
        exact hnodup.1 hd
      · rintro ⟨hd, hne⟩
        exact hd.resolve_left fun hd => hne ⟨rfl, hd⟩
    · rw [Function.update_of_ne hk]
      simp [hk]
  · rintro ⟨k, d'⟩
    show ((withQueue e type d free s).ep e).kind = k ∧ d' ∈ ((withQueue e type d free s).ep e).tds ++
        ((withQueue e type d free s).ep e).tdTail.toList ↔
      ((s.ep e).kind = k ∧ d' ∈ (s.ep e).tds ++ (s.ep e).tdTail.toList) ∨ _
    rw [withQueue_ep_self, h.closed e htail, htail]
    show type.kind = k ∧ d' ∈ [d] ↔ _
    simp [eq_comm]
  · rintro x (_ | f | _) hsrc hdest
    · exact absurd rfl hsrc
    · exact holds_queue_congr (withQueue_ep_of_ne fun hf => hdest (congrArg _ hf))
    · rfl

theorem Tracked.withQueue_freeOnce (h : Tracked size s) (hfree : s.free type.kind = d :: free) (k : TdKind) :
    ((withQueue e type d free s).free k).Nodup := by
  show (Function.update s.free type.kind free k).Nodup
  by_cases hk : k = type.kind
  · subst hk
    have hnodup := h.freeOnce type.kind
    rw [hfree, List.nodup_cons] at hnodup
    rw [Function.update_self]
    exact hnodup.2
  · rw [Function.update_of_ne hk]
    exact h.freeOnce k

theorem Tracked.withQueue_carried (h : Tracked size s) (htail : (s.ep e).tdTail = none)
    {x : TdKind × Nat} (hx : s.entry x ≠ none) :
    x ∈ s.done ∨ ∃ f, ((withQueue e type d free s).ep f).kind = x.1 ∧
      x.2 ∈ ((withQueue e type d free s).ep f).tds := by
  rcases h.carried x hx with hd | ⟨f, hkind, hd⟩
  · exact .inl hd
  · have hf : f ≠ e := by
      rintro rfl
      rw [h.closed f htail] at hd
      cases hd
    refine .inr ⟨f, ?_⟩
    rw [withQueue_ep_of_ne hf]
    exact ⟨hkind, hd⟩

theorem Tracked.withQueue_tracked (h : Tracked size s) (htail : (s.ep e).tdTail = none)
    (hfree : s.free type.kind = d :: free) : Tracked size (withQueue e type d free s) := by
  constructor
  · exact h.withQueue_owned htail hfree
  · exact h.withQueue_freeOnce hfree
  · intro f
    unfold Core.chain
    by_cases hf : f = e
    · subst hf
      rw [withQueue_ep_self]
      exact List.pairwise_singleton _ d
    · rw [withQueue_ep_of_ne hf]
      exact h.chainOnce f
  · exact h.doneOnce
  · intro f hnone
    by_cases hf : f = e
    · subst hf
      rw [withQueue_ep_self]
    · rw [withQueue_ep_of_ne hf] at hnone ⊢
      exact h.closed f hnone
  · intro f d' hd'
    obtain ⟨hf, hd⟩ := withQueue_tds hd'
    rw [withQueue_ep_of_ne hf]
    exact h.queued f d' hd
  · intro x hx
    obtain ⟨f, hf, hkind, hopen⟩ := h.done x hx
    refine ⟨f, hf, ?_⟩
    rw [withQueue_ep_of_ne (h.done_ne htail hx hf)]
    exact ⟨hkind, hopen⟩
  · exact fun x hx => h.withQueue_carried htail hx
  · exact h.known
  · intro f
    unfold Core.course
    by_cases hf : f = e
    · subst hf
      rw [withQueue_ep_self]
      show (s.done ++ []).Pairwise _
      rw [List.append_nil]
      exact (List.pairwise_append.mp (h.closes f)).1
    · rw [withQueue_ep_of_ne hf]
      exact h.closes f
  · intro x hx hx' f hf
    rw [withQueue_ep_of_ne (h.done_ne htail hx hf)]
    exact h.failed x hx hx' f hf
  · exact h.failedLast

/-- The descriptor for the tail of a new queue comes from the free list. -/
theorem Tracked.opened (h : Tracked size s) (htail : (s.ep e).tdTail = none) :
    Tracked size (openDeviceEndpoint e type s) := by
  unfold openDeviceEndpoint
  split
  · exact h
  · rename_i d free hfree
    exact h.withQueue_tracked htail hfree

end Open

end BdmAssault.Hcd
