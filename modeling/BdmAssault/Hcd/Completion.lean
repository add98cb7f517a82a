import BdmAssault.Hcd.Queueing
import BdmAssault.Hcd.Stranded

/-! # Descriptors and callbacks over whole runs

Every descriptor has one owner and every callback is run at most once, if no isochronous
endpoint is found halted with descriptors in its queue, and no endpoint is killed while one of
its descriptors is in the done queue.
-/

namespace BdmAssault.Hcd

open Lib

variable {size : TdKind → Nat} {s t u : Core} {k : TdKind} {e : Nat} {ended : List Nat}

/-! ## Submitting -/

/-- Fewer requests may wait, and fewer be in the table. -/
theorem Accounted.shrink (h : Accounted s ended) (hentry : ∀ x r, t.entry x = some r → s.entry x = some r)
    (hlist : ∀ f, (t.ep f).ioReqList.Sublist (s.ep f).ioReqList) (hsub : t.submissions = s.submissions)
    (hend : ∀ r, (t.req r).correspEndpoint = (s.req r).correspEndpoint) : Accounted t ended := by
  constructor
  · intro f r hr
    obtain ⟨hlt, hf, hnot⟩ := h.waiting f r ((hlist f).subset hr)
    rw [hsub, hend]
    exact ⟨hlt, hf, fun x hx => hnot x (hentry x r hx)⟩
  · exact fun f => (h.waitingOnce f).sublist (hlist f)
  · intro r hr
    obtain ⟨hlt, hnot, hwait⟩ := h.finished r hr
    rw [hsub]
    exact ⟨hlt, fun x hx => hnot x (hentry x r hx), fun f hf => hwait f ((hlist f).subset hf)⟩
  · exact h.endedOnce

theorem Requeued.ep (h : Requeued e s t) (f : Nat) : ∃ q, t.ep f = { s.ep f with inTdQueue := q } := by
  by_cases hf : f = e
  · subst hf
    exact h.self
  · exact ⟨(s.ep f).inTdQueue, h.others f hf⟩

theorem Tracked.requeued (h : Tracked size s) (hr : Requeued e s t) : Tracked size t := by
  rw [hr.rest]
  refine h.of_ep _ fun f => ?_
  obtain ⟨q, hq⟩ := hr.ep f
  exact ⟨_, q, _, _, hq⟩

theorem Accounted.requeued (h : Accounted s ended) (hr : Requeued e s t) : Accounted t ended := by
  refine h.shrink ?_ ?_ ?_ ?_
  · rw [hr.rest]
    exact fun x r hx => hx
  · intro f
    obtain ⟨q, hq⟩ := hr.ep f
    rewrite [hq]
    exact .refl _
  · rw [hr.rest]
  · rw [hr.rest]
    exact fun _ => rfl

theorem leaveIfIdle_requeued (e : Nat) (s : Core) : Requeued e s (leaveIfIdle e s) := by
  rcases leaveIfIdle_cases e s with ⟨h, -⟩ | ⟨h, -⟩
  · rw [h]
    exact .refl e s
  · rw [h]
    exact (removeEndpointFromQueue_requeued e s).1

/-- A turn of an endpoint submits one request or none. -/
theorem handleIoReqList_cases (e : Nat) (s : Core) : Requeued e s (handleIoReqList e s) ∨
    ∃ r rest old news tail free, (s.ep e).ioReqList = r :: rest ∧ (s.ep e).tdTail = some old ∧
      s.free (s.ep e).kind = news ++ tail :: free ∧ ((s.ep e).kind = .iso → news = []) ∧
      Requeued e (submit (s.ep e).kind e r rest (old :: news) tail free s) (handleIoReqList e s) := by
  by_cases hiso : (s.ep e).endpointType = .isochron
  · have hkind : (s.ep e).kind = .iso := congrArg EndpointType.kind hiso
    have hsingle : handleIoReqList e s = setupSingleTransfer .iso e s := by
      unfold handleIoReqList
      rw [hiso]
      rfl
    rw [hsingle, hkind]
    rcases setupSingleTransfer_cases .iso e s with ⟨h, -⟩ | ⟨h, -⟩ |
      ⟨r, rest, old, tail, free, hlist, htail, hfree, h⟩
    · rw [h]
      exact .inl (removeEndpointFromQueue_requeued e s).1
    · rw [h]
      exact .inl (enqueueEndpoint_requeued e _ s).1
    · rw [h]
      exact .inr ⟨r, rest, old, [], tail, free, hlist, htail, hfree, fun _ => rfl, leaveIfIdle_requeued e _⟩
  · rcases handleIoReqList_setUp e s with ⟨h, -⟩ | ⟨h, -⟩ |
      ⟨r, rest, old, news, tail, free, hlist, htail, hfree, h⟩
    · rw [h]
      exact .inl (removeEndpointFromQueue_requeued e s).1
    · rw [h]
      exact .inl (enqueueEndpoint_requeued e _ s).1
    · rw [h]
      refine .inr ⟨r, rest, old, news, tail, free, hlist, htail, hfree, fun hk => ?_, leaveIfIdle_requeued e _⟩
      unfold Endpoint.kind at hk
      cases htype : (s.ep e).endpointType with
      | isochron => exact absurd htype hiso
      | control => rw [htype] at hk; cases hk
      | bulk => rw [htype] at hk; cases hk
      | interrupt => rw [htype] at hk; cases hk

/-- Descriptors and requests together; both hold of every state of a run. -/
structure Consistent (size : TdKind → Nat) (s : Core) (ended : List Nat) : Prop where
  tracked : Tracked size s
  accounted : Accounted s ended

theorem Consistent.handleIoReqList (h : Consistent size s ended) (e : Nat) :
    Consistent size (handleIoReqList e s) ended := by
  rcases handleIoReqList_cases e s with hr | ⟨r, rest, old, news, tail, free, hlist, htail, hfree, hiso, hr⟩
  · exact ⟨h.tracked.requeued hr, h.accounted.requeued hr⟩
  · have hsub := submit_submitted e r rest (old :: news) tail free s
    have htracked : Tracked size (submit (s.ep e).kind e r rest (old :: news) tail free s) := by
      exact h.tracked.submitted h.accounted hsub hlist (h.tracked.submit_owned htail hfree)
        (h.tracked.submit_freeOnce hfree) (h.tracked.submit_chain htail hfree)
        (h.tracked.unused htail hfree) fun hk => ⟨old, by rw [hiso hk]⟩
    exact ⟨htracked.requeued hr, (h.accounted.submitted hsub hlist).requeued hr⟩

/-! ## New requests -/

section Append

variable {data : Bool}

theorem appendRequest_req_of_ne {r : Nat} (hr : r ≠ s.submissions) :
    (appendRequest e data s).req r = s.req r := Function.update_of_ne hr _ _

theorem appendRequest_ep (e : Nat) (data : Bool) (s : Core) (f : Nat) : ∃ ioReqList,
    (appendRequest e data s).ep f = { s.ep f with ioReqList := ioReqList } := by
  by_cases hf : f = e
  · subst hf
    exact ⟨_, Function.update_self _ _ _⟩
  · exact ⟨_, Function.update_of_ne hf _ _⟩

theorem Tracked.appendRequest (h : Tracked size s) : Tracked size (appendRequest e data s) := by
  have hep : ∀ f, ∃ device inTdQueue ioReqList skipped, (Hcd.appendRequest e data s).ep f = { s.ep f with
      device := device, inTdQueue := inTdQueue, ioReqList := ioReqList, skipped := skipped } := by
    intro f
    obtain ⟨l, hl⟩ := appendRequest_ep e data s f
    exact ⟨_, _, l, _, hl⟩
  have hmid := h.of_ep s.tdQueue hep
  have huser : ∀ x, (Hcd.appendRequest e data s).user x = s.user x := by
    intro x
    show (s.entry x).map (fun r => ((Hcd.appendRequest e data s).req r).correspEndpoint) = _
    unfold Core.user
    cases hx : s.entry x with
    | none => rfl
    | some r =>
        have hr := h.known x r hx
        simp only [Option.map_some]
        rw [appendRequest_req_of_ne (by omega)]
  constructor
  · exact hmid.owned
  · exact hmid.freeOnce
  · exact hmid.chainOnce
  · exact hmid.doneOnce
  · exact hmid.closed
  · intro f d hd
    rw [huser]
    exact hmid.queued f d hd
  · intro x hx
    rw [huser]
    exact hmid.done x hx
  · exact hmid.carried
  · exact fun x r hx => Nat.lt_succ_of_lt (h.known x r hx)
  · exact hmid.closes
  · intro x hx hx' f hf
    rw [huser] at hf
    exact hmid.failed x hx hx' f hf
  · simp only [huser]
    exact hmid.failedLast

/-- A new request has a number of its own. -/
theorem Accounted.appendRequest (h : Accounted s ended) (hknown : ∀ x r, s.entry x = some r → r < s.submissions) :
    Accounted (appendRequest e data s) ended := by
  have hself : (Hcd.appendRequest e data s).ep e =
      { s.ep e with ioReqList := (s.ep e).ioReqList ++ [s.submissions] } := Function.update_self _ _ _
  have hother : ∀ f, f ≠ e → (Hcd.appendRequest e data s).ep f = s.ep f :=
    fun f hf => Function.update_of_ne hf _ _
  have hmem : ∀ f, ∀ r ∈ ((Hcd.appendRequest e data s).ep f).ioReqList,
      r ∈ (s.ep f).ioReqList ∨ (f = e ∧ r = s.submissions) := by
    intro f r hr
    by_cases hf : f = e
    · subst hf
      rw [hself] at hr
      rcases List.mem_append.mp hr with hr | hr
      · exact .inl hr
      · exact .inr ⟨rfl, List.mem_singleton.mp hr⟩
    · rw [hother f hf] at hr
      exact .inl hr
  constructor
  · intro f r hr
    rcases hmem f r hr with hr | ⟨rfl, rfl⟩
    · obtain ⟨hlt, hf, hnot⟩ := h.waiting f r hr
      rw [appendRequest_req_of_ne (by omega)]
      exact ⟨Nat.lt_succ_of_lt hlt, hf, hnot⟩
    · refine ⟨Nat.lt_succ_self _, ?_, fun x hx => absurd (hknown x _ hx) (Nat.lt_irrefl _)⟩
      show (Function.update s.req s.submissions _ s.submissions).correspEndpoint = f
      rw [Function.update_self]
  · intro f
    by_cases hf : f = e
    · subst hf
      rw [hself]
      refine List.nodup_append.mpr ⟨h.waitingOnce f, List.pairwise_singleton _ _, fun r hr r' hr' => ?_⟩
      have hlt := (h.waiting f r hr).1
      rw [List.mem_singleton.mp hr']
      omega
    · rw [hother f hf]
      exact h.waitingOnce f
  · intro r hr
    obtain ⟨hlt, hnot, hwait⟩ := h.finished r hr
    refine ⟨Nat.lt_succ_of_lt hlt, hnot, fun f hf => ?_⟩
    rcases hmem f r hf with hold | ⟨-, hnew⟩
    · exact hwait f hold
    · omega
  · exact h.endedOnce

end Append

theorem Consistent.attach {data : Bool} (h : Consistent size s ended) (e : Nat) :
    Consistent size (attachIoReqToEndpoint e data s) ended := by
  unfold attachIoReqToEndpoint
  split
  · have happended : Consistent size (appendRequest e data s) ended :=
      ⟨h.tracked.appendRequest, h.accounted.appendRequest h.tracked.known⟩
    exact happended.handleIoReqList e
  · exact h

theorem Consistent.checkTdQueue (h : Consistent size s ended) (k : TdKind) :
    Consistent size (checkTdQueue k s) ended := by
  unfold Hcd.checkTdQueue
  split
  · exact h.handleIoReqList _
  · exact h

/-! ## The done queue -/

section Process

variable {d r : Nat} {rest : List (TdKind × Nat)} {P : Nat → Prop}

theorem done_of_batch (hbatch : s.batch = (k, d) :: rest) :
    s.done = (k, d) :: (rest ++ s.doneHead.reverse) := by
  unfold Core.done
  rw [hbatch]
  rfl

theorem Tracked.mem_rest (h : Tracked size s) (hbatch : s.batch = (k, d) :: rest) (hd : P d)
    (hP : ∀ d', P d' → d' = d ∨ d' ∈ (s.ep e).tds) (hkind : (s.ep e).kind = k) :
    ∀ x ∈ s.done, x ∈ rest ++ s.doneHead.reverse ↔ ¬(x.1 = k ∧ P x.2) := by
  have hnodup := h.doneOnce
  rw [done_of_batch hbatch, List.nodup_cons] at hnodup
  rintro ⟨k', d'⟩ hx
  constructor
  · rintro hmem ⟨rfl, hd'⟩
    rcases hP d' hd' with rfl | htds
    · exact hnodup.1 hmem
    · subst hkind
      exact h.owned.not_held (holds_tds htds) (q := .done) nofun hx
  · intro hnot
    rw [done_of_batch hbatch] at hx
    refine (List.mem_cons.mp hx).resolve_left fun heq => hnot ?_
    cases heq
    exact ⟨rfl, hd⟩

/-- The first descriptor of the done queue is given back. -/
theorem Tracked.pop_leaves (h : Tracked size s) (hbatch : s.batch = (k, d) :: rest)
    (hu : Freed { s with batch := rest } u) : Leaves k (fun d' => d' = d) s u := by
  obtain ⟨free, lut, req, rfl⟩ : ∃ free lut req,
      u = { s with batch := rest, free := free, lut := lut, req := req } := ⟨_, _, _, hu⟩
  have hfirst : (k, d) ∈ s.done := by
    rw [done_of_batch hbatch]
    exact List.mem_cons_self
  obtain ⟨e, -, hkind, -⟩ := h.done _ hfirst
  constructor
  · rfl
  · rfl
  · rfl
  · exact fun _ => .refl _
  · rw [done_of_batch hbatch]
    exact List.sublist_cons_self _ _
  · exact h.mem_rest (P := fun d' => d' = d) hbatch rfl (fun d' hd' => .inl hd') hkind
  · exact fun _ => rfl
  · exact fun _ => .refl _
  · exact fun f d' hd' _ => hd'
  · exact fun _ => .refl _
  · intro f d' hd'
    refine ⟨fun _ => ?_, fun _ => hd'⟩
    rintro ⟨rfl, rfl⟩
    exact h.owned.not_held (show Holds s _ .done from hfirst) (q := .queue f) nofun ⟨rfl, hd'⟩
  · exact h.closed
  · exact fun x _ f _ => ⟨rfl, fun _ => rfl⟩

theorem resetHead_ep_self (e : Nat) (u : Core) :
    (u.resetHead e).ep e = { u.ep e with tds := [], halted := false } := Function.update_self _ _ _

theorem resetHead_ep_of_ne {f : Nat} (u : Core) (hf : f ≠ e) : (u.resetHead e).ep f = u.ep f :=
  Function.update_of_ne hf _ _

/-- All that an endpoint loses is what was in its queue, and that it was halted. -/
theorem resetHead_ep (e : Nat) (u : Core) (f : Nat) :
    ((u.resetHead e).ep f).kind = (u.ep f).kind ∧ ((u.resetHead e).ep f).tdTail = (u.ep f).tdTail ∧
      ((u.resetHead e).ep f).ioReqList = (u.ep f).ioReqList ∧
      ((u.resetHead e).ep f).tds.Sublist (u.ep f).tds := by
  by_cases hf : f = e
  · subst hf
    rw [resetHead_ep_self]
    exact ⟨rfl, rfl, rfl, List.nil_sublist _⟩
  · rewrite [resetHead_ep_of_ne u hf]
    exact ⟨rfl, rfl, rfl, .refl _⟩

/-- Of all queues only that of the endpoint gets shorter; its tail stays. -/
theorem Tracked.resetHead_chainMem (h : Tracked size s) (hep : u.ep = s.ep) (hfirst : (k, d) ∈ s.done)
    (hkind : (s.ep e).kind = k) {f d' : Nat} (hd' : d' ∈ s.chain f) :
    d' ∈ (u.resetHead e).chain f ↔ ¬((s.ep f).kind = k ∧ (d' = d ∨ d' ∈ (s.ep e).tds)) := by
  have hheld : Holds s ((s.ep f).kind, d') (.queue f) := ⟨rfl, hd'⟩
  have hnotdone : (s.ep f).kind = k → d' ≠ d := by
    rintro hk rfl
    exact h.owned.not_held (show Holds s (k, d') .done from hfirst) (q := .queue f) nofun ⟨hk, hd'⟩
  unfold Core.chain at hd' ⊢
  by_cases hf : f = e
  · subst hf
    have hnodup := h.chainOnce f
    unfold Core.chain at hnodup
    rw [resetHead_ep_self, hep]
    show d' ∈ [] ++ (s.ep f).tdTail.toList ↔ _
    rw [List.nil_append]
    constructor
    · rintro htail ⟨-, heq | hmem⟩
      · exact hnotdone hkind heq
      · exact (List.nodup_append.mp hnodup).2.2 d' hmem d' htail rfl
    · intro hstays
      exact (List.mem_append.mp hd').resolve_left fun hmem => hstays ⟨hkind, .inr hmem⟩
  · rw [resetHead_ep_of_ne u hf, hep]
    refine ⟨fun _ => ?_, fun _ => hd'⟩
    rintro ⟨hk, heq | hmem⟩
    · exact hnotdone hk heq
    · have hheld' : Holds s ((s.ep f).kind, d') (.queue e) :=
        ⟨hkind.trans hk.symm, List.mem_append_left _ hmem⟩
      exact hf (Place.queue.inj (h.owned.once _ _ _ hheld hheld'))

/-- With it go the descriptors that its endpoint still has in its queue. -/
theorem Tracked.flush_leaves (h : Tracked size s) (hbatch : s.batch = (k, d) :: rest)
    (hu : Freed { s with batch := rest } u) (hkind : (s.ep e).kind = k)
    (hlast : ∀ x ∈ rest ++ s.doneHead.reverse, Failed s x → s.user x ≠ some e) :
    Leaves k (fun d' => d' = d ∨ d' ∈ (s.ep e).tds) s (u.resetHead e) := by
  obtain ⟨free, lut, req, rfl⟩ : ∃ free lut req,
      u = { s with batch := rest, free := free, lut := lut, req := req } := ⟨_, _, _, hu⟩
  have hfirst : (k, d) ∈ s.done := by
    rw [done_of_batch hbatch]
    exact List.mem_cons_self
  have hreset := resetHead_ep e { s with batch := rest, free := free, lut := lut, req := req }
  constructor
  · rfl
  · rfl
  · rfl
  · intro f
    rewrite [(hreset f).2.2.1]
    exact .refl _
  · rw [done_of_batch hbatch]
    exact List.sublist_cons_self _ _
  · exact h.mem_rest hbatch (.inl rfl) (fun d' hd' => hd') hkind
  · exact fun f => (hreset f).1
  · exact fun f => (hreset f).2.2.2
  · intro f d' hd' hstays
    by_cases hf : f = e
    · subst hf
      exact absurd ⟨hkind, .inr hd'⟩ hstays
    · rw [resetHead_ep_of_ne _ hf]
      exact hd'
  · intro f
    unfold Core.chain
    rw [(hreset f).2.1]
    exact (hreset f).2.2.2.append (.refl _)
  · exact fun f d' hd' => h.resetHead_chainMem rfl hfirst hkind hd'
  · intro f hnone
    have hempty := h.closed f ((hreset f).2.1.symm.trans hnone)
    exact List.eq_nil_of_sublist_nil (hempty ▸ (hreset f).2.2.2)
  · intro x hx f hf
    refine ⟨(hreset f).2.1, fun hfail => ?_⟩
    have hne : f ≠ e := by
      rintro rfl
      exact hlast x hx hfail hf
    rw [resetHead_ep_of_ne _ hne]

/-- What is left when a descriptor is finished, and the requests whose callbacks are due. -/
structure Finishes (size : TdKind → Nat) (s : Core) (p : Core × List Nat) : Prop where
  given : ∃ k P, Returned k P s p.1 ∧ Leaves k P s p.1 ∧ ∀ d, P d → d < size k
  once : p.2.Nodup
  finished : ∀ r ∈ p.2, (∃ x, s.entry x = some r) ∧ ∀ x, p.1.entry x ≠ some r

/-- When the callback of a request is due, no other descriptor of it is left. -/
theorem Tracked.closes_first (h : Tracked size s) (hbatch : s.batch = (k, d) :: rest)
    (hclose : Closes s (k, d)) {x : TdKind × Nat} (hx : s.entry x ≠ none) (hne : x ≠ (k, d)) :
    s.entry (k, d) ≠ s.entry x := by
  have hcourse : ∃ f, x ∈ (rest ++ s.doneHead.reverse) ++ (s.ep f).tds.map (Prod.mk (s.ep f).kind) := by
    rcases h.carried x hx with hd | ⟨f, hf, hd⟩
    · rw [done_of_batch hbatch] at hd
      exact ⟨0, List.mem_append_left _ ((List.mem_cons.mp hd).resolve_left hne)⟩
    · exact ⟨f, List.mem_append_right _ (List.mem_map.mpr ⟨x.2, hd, by rw [hf]⟩)⟩
  obtain ⟨f, hf⟩ := hcourse
  have hpairs := h.closes f
  unfold Core.course at hpairs
  rw [done_of_batch hbatch, List.cons_append, List.pairwise_cons] at hpairs
  exact hpairs.1 x hf hclose

/-- After a failure, no other descriptor of its endpoint is left but in the queue. -/
theorem Tracked.failed_first (h : Tracked size s) (hbatch : s.batch = (k, d) :: rest)
    (hfail : Failed s (k, d)) (huser : s.user (k, d) = some e) {x : TdKind × Nat} (hx : s.user x = some e) :
    x = (k, d) ∨ ((s.ep e).kind = x.1 ∧ x.2 ∈ (s.ep e).tds) := by
  have hentry : s.entry x ≠ none := by
    obtain ⟨r, hr, -⟩ := Core.user_eq_some.mp hx
    rw [hr]
    exact nofun
  rcases h.carried x hentry with hd | ⟨f, hf, hd⟩
  · have hpairs := h.failedLast
    rw [done_of_batch hbatch] at hd hpairs
    rcases List.mem_cons.mp hd with hd | hd
    · exact .inl hd
    · exact absurd (huser.trans hx.symm) ((List.pairwise_cons.mp hpairs).1 x hd hfail)
  · have hfe := h.queued f x.2 hd
    rw [hf] at hfe
    cases hfe.symm.trans hx
    exact .inr ⟨hf, hd⟩

theorem Finishes.pop (h : Tracked size s) (hbatch : s.batch = (k, d) :: rest) (hr : s.entry (k, d) = some r)
    (hreturned : Returned k (fun d' => d' = d) s u) (hleaves : Leaves k (fun d' => d' = d) s u)
    (list : List Nat) (hlist : list = [] ∨ (list = [r] ∧ Closes s (k, d))) : Finishes size s (u, list) := by
  have hsize : ∀ d', d' = d → d' < size k := by
    rintro d' rfl
    refine h.owned.within (k, d') .done ?_
    show (k, d') ∈ s.done
    rw [done_of_batch hbatch]
    exact List.mem_cons_self
  refine ⟨⟨k, _, hreturned, hleaves, hsize⟩, ?_, ?_⟩
  · rcases hlist with rfl | ⟨rfl, -⟩
    · exact .nil
    · exact List.pairwise_singleton _ r
  · rcases hlist with rfl | ⟨rfl, hclose⟩
    · exact List.forall_mem_nil _
    · intro r' hr'
      rw [List.mem_singleton.mp hr']
      refine ⟨⟨_, hr⟩, fun x hx => ?_⟩
      have hold := hreturned.entry_of hx
      have hne : x ≠ (k, d) := by
        rintro rfl
        rw [hreturned.cleared d rfl] at hx
        cases hx
      refine h.closes_first hbatch hclose (by rw [hold]; exact nofun) hne ?_
      rw [hr, hold]

/-- All that is left of an endpoint after a failure is in its queue and is given back too. -/
theorem Finishes.flush {list : List Nat} (h : Tracked size s) (hbatch : s.batch = (.general, d) :: rest)
    (hr : s.entry (.general, d) = some r) (he : (s.req r).correspEndpoint = e)
    (hfail : Failed s (.general, d)) (hkind : (s.ep e).kind = .general)
    (hreturned : Returned .general (fun d' => d' = d) s u) (hfreed : Freed { s with batch := rest } u)
    (hlist : ∀ r' ∈ list, r' = r) (hnodup : list.Nodup) :
    Finishes size s (flushHalted e flushGenTd (u, list)) := by
  have huser : s.user (.general, d) = some e := Core.user_eq_some.mpr ⟨r, hr, he⟩
  have hep : u.ep = s.ep := by
    rw [hfreed]
  obtain ⟨honce, hmem⟩ := foldl_flushGenTd_list (s.ep e).tds (u, list)
  have hall := hreturned.trans (foldl_flushGenTd_returned (s.ep e).tds (u, list))
  have hleaves := h.flush_leaves hbatch
    (hfreed.trans (foldl_freed flushGenTd_freed (s.ep e).tds (u, list))) hkind ?_
  · unfold flushHalted
    rw [hep]
    generalize (s.ep e).tds.foldl flushGenTd (u, list) = p at *
    have hdue : ∀ r' ∈ p.2, ∃ x, s.entry x = some r' ∧ s.user x = some e := by
      intro r' hr'
      rcases hmem r' hr' with hold | ⟨d', hd', hentry⟩
      · rw [hlist r' hold]
        exact ⟨_, hr, huser⟩
      · have hqueued := h.queued e d' hd'
        rw [hkind] at hqueued
        exact ⟨_, hreturned.entry_of hentry, hqueued⟩
    have hreset : Returned .general _ s (p.1.resetHead e) := hall.setEp e
    refine ⟨⟨_, _, hreset, hleaves, ?_⟩, honce hnodup, fun r' hr' => ?_⟩
    · rintro d' (rfl | hd')
      · refine h.owned.within (.general, d') .done ?_
        show (TdKind.general, d') ∈ s.done
        rw [done_of_batch hbatch]
        exact List.mem_cons_self
      · have hwithin := h.owned.within _ _ (holds_tds hd')
        rw [hkind] at hwithin
        exact hwithin
    · obtain ⟨y, hy, hyuser⟩ := hdue r' hr'
      refine ⟨⟨y, hy⟩, fun x hx => ?_⟩
      have hx : p.1.entry x = some r' := hx
      have hxuser : s.user x = some e := by
        rw [← hyuser]
        unfold Core.user
        rw [hy, hall.entry_of hx]
      obtain ⟨k', d'⟩ := x
      rcases h.failed_first hbatch hfail huser hxuser with hfirst | ⟨hk, hd'⟩
      · cases hfirst
        rw [hall.cleared d (.inl rfl)] at hx
        cases hx
      · rw [hkind] at hk
        cases hk
        rw [hall.cleared d' (.inr hd')] at hx
        cases hx
  · intro x hx _
    have hpairs := h.failedLast
    rw [done_of_batch hbatch] at hpairs
    rw [← huser]
    exact ((List.pairwise_cons.mp hpairs).1 x hx hfail).symm

theorem finishGenTd_finishes (h : Tracked size s) (hbatch : s.batch = (.general, d) :: rest)
    (hr : s.entry (.general, d) = some r) :
    Finishes size s (finishGenTd d r { s with batch := rest }) := by
  have huser : s.user (.general, d) = some (s.req r).correspEndpoint := Core.user_eq_some.mpr ⟨r, hr, rfl⟩
  have hfirst : (TdKind.general, d) ∈ s.done := by
    rw [done_of_batch hbatch]
    exact List.mem_cons_self
  have hkind : (s.ep (s.req r).correspEndpoint).kind = .general := by
    obtain ⟨e, he, hkind, -⟩ := h.done _ hfirst
    cases huser.symm.trans he
    exact hkind
  unfold finishGenTd
  extract_lets code list u
  have hreturned : Returned .general (fun d' => d' = d) s u := (retireTd_returned .general d r _ _).of_batch
  have hfreed : Freed { s with batch := rest } u := retireTd_freed .general d r _ _
  have hend : (u.req r).correspEndpoint = (s.req r).correspEndpoint := hreturned.endpoint r
  have hep : u.ep = s.ep := by
    rw [hfreed]
  have hlistr : ∀ r' ∈ list, r' = r := by
    intro r' hr'
    simp only [list] at hr'
    split at hr'
    · exact List.mem_singleton.mp hr'
    · cases hr'
  rw [hend, hep]
  split
  · rename_i hcond
    refine .flush h hbatch hr rfl ⟨rfl, hcond.1⟩ hkind hreturned hfreed hlistr ?_
    simp only [list]
    split
    · exact List.pairwise_singleton _ r
    · exact .nil
  · rename_i hcond
    refine .pop h hbatch hr hreturned (h.pop_leaves hbatch hfreed) list ?_
    simp only [list]
    split
    · rename_i hdue
      refine .inr ⟨rfl, ?_⟩
      rcases hdue with hcode | hint
      · exact absurd ⟨hcode, h.failed _ hfirst ⟨rfl, hcode⟩ _ huser⟩ hcond
      · exact .inr hint
    · exact .inl rfl

theorem finishIsoTd_finishes (h : Tracked size s) (hbatch : s.batch = (.iso, d) :: rest)
    (hr : s.entry (.iso, d) = some r)
    (hempty : (s.ep (s.req r).correspEndpoint).halted = true → (s.ep (s.req r).correspEndpoint).tds = []) :
    Finishes size s (finishIsoTd d r { s with batch := rest }) := by
  have huser : s.user (.iso, d) = some (s.req r).correspEndpoint := Core.user_eq_some.mpr ⟨r, hr, rfl⟩
  have hfirst : (TdKind.iso, d) ∈ s.done := by
    rw [done_of_batch hbatch]
    exact List.mem_cons_self
  have hkind : (s.ep (s.req r).correspEndpoint).kind = .iso := by
    obtain ⟨e, he, hkind, -⟩ := h.done _ hfirst
    cases huser.symm.trans he
    exact hkind
  unfold finishIsoTd
  extract_lets u
  have hreturned : Returned .iso (fun d' => d' = d) s u := (retireTd_returned .iso d r _ _).of_batch
  have hfreed : Freed { s with batch := rest } u := retireTd_freed .iso d r _ _
  have hend : (u.req r).correspEndpoint = (s.req r).correspEndpoint := hreturned.endpoint r
  have hep : u.ep = s.ep := by
    rw [hfreed]
  have hlist : [r] = [] ∨ ([r] = [r] ∧ Closes s (.iso, d)) := .inr ⟨rfl, .inl rfl⟩
  rw [hend, hep]
  split
  · rename_i hhalted
    have hnil := hempty hhalted
    have hflushed : flushHalted (s.req r).correspEndpoint (flushIsoTd d) (u, [r]) =
        (u.resetHead (s.req r).correspEndpoint, [r]) := by
      unfold flushHalted
      rw [hep, hnil]
      rfl
    have hleaves : Leaves .iso (fun d' => d' = d) s (u.resetHead (s.req r).correspEndpoint) := by
      have hflush := h.flush_leaves hbatch hfreed hkind ?_
      · simpa only [hnil, List.not_mem_nil, or_false] using hflush
      · intro x hx hfail hxuser
        have hxdone : x ∈ s.done := by
          rw [done_of_batch hbatch]
          exact List.mem_cons_of_mem _ hx
        obtain ⟨e, he, hxkind, -⟩ := h.done x hxdone
        cases hxuser.symm.trans he
        have hgeneral := hfail.1
        rw [← hxkind, hkind] at hgeneral
        cases hgeneral
    rw [hflushed]
    exact .pop h hbatch hr (hreturned.setEp _) hleaves [r] hlist
  · exact .pop h hbatch hr hreturned (h.pop_leaves hbatch hfreed) [r] hlist

/-- The callbacks that are due are those of requests that are over. -/
theorem Finishes.consistent {p : Core × List Nat} (hp : Finishes size s p) (h : Consistent size s s.called)
    (k : TdKind) : Consistent size { p.1 with callbacks := some (k, p.2) } (p.1.called ++ p.2) := by
  obtain ⟨k', P, hreturned, hleaves, hsize⟩ := hp.given
  have htracked := h.tracked.release hreturned hleaves hsize
  have haccounted := h.accounted.shrink (fun x r hx => hreturned.entry_of hx) hleaves.waiting
    hleaves.submissions hreturned.endpoint
  rw [hleaves.called]
  refine ⟨htracked.of_done _ _ rfl, haccounted.waiting, haccounted.waitingOnce, ?_, ?_⟩
  · intro r hr
    rcases List.mem_append.mp hr with hr | hr
    · exact haccounted.finished r hr
    · obtain ⟨⟨x, hx⟩, hnot⟩ := hp.finished r hr
      refine ⟨?_, hnot, fun f hf => ?_⟩
      · show r < p.1.submissions
        rw [hleaves.submissions]
        exact h.tracked.known x r hx
      · exact (h.accounted.waiting f r ((hleaves.waiting f).subset hf)).2.2 x hx
  · refine List.nodup_append.mpr ⟨h.accounted.endedOnce, hp.once, fun r hr r' hr' => ?_⟩
    rintro rfl
    obtain ⟨⟨x, hx⟩, -⟩ := hp.finished r hr'
    exact (h.accounted.finished r hr).2.1 x hx

theorem Consistent.processDoneQueue (h : Consistent size s s.ended) (hcb : s.callbacks = none)
    (hbatch : s.batch = (k, d) :: rest)
    (hempty : ∀ e, k = .iso → s.user (k, d) = some e → (s.ep e).halted = true → (s.ep e).tds = []) :
    Consistent size (processDoneQueue k d { s with batch := rest })
      (Core.ended (processDoneQueue k d { s with batch := rest })) := by
  have hcalled : Consistent size s s.called := by
    unfold Core.ended at h
    rw [hcb] at h
    simpa using h
  have hfirst : (k, d) ∈ s.done := by
    rw [done_of_batch hbatch]
    exact List.mem_cons_self
  obtain ⟨e, huser, -⟩ := h.tracked.done _ hfirst
  obtain ⟨r, hr, he⟩ := Core.user_eq_some.mp huser
  have hlut : ({ s with batch := rest } : Core).lut k d = some r := hr
  unfold Hcd.processDoneQueue
  rw [hlut]
  cases k with
  | general => exact (finishGenTd_finishes h.tracked hbatch hr).consistent hcalled .general
  | iso =>
      refine (finishIsoTd_finishes h.tracked hbatch hr ?_).consistent hcalled .iso
      rw [he]
      exact hempty e rfl huser

end Process

/-! ## Killing an endpoint -/

section Kill

variable {tail : Nat}

/-- If nothing of the endpoint is in the done queue, the table leads to what is in its queue. -/
theorem Tracked.user_iff_tds (h : Tracked size s) (hdone : ∀ x ∈ s.done, s.user x ≠ some e) (d : Nat) :
    s.user ((s.ep e).kind, d) = some e ↔ d ∈ (s.ep e).tds := by
  constructor
  · intro huser
    obtain ⟨r, hr, -⟩ := Core.user_eq_some.mp huser
    have hentry : s.entry ((s.ep e).kind, d) ≠ none := by
      rw [hr]
      exact nofun
    rcases h.carried _ hentry with hd | ⟨f, hf, hd⟩
    · exact absurd huser (hdone _ hd)
    · have hfe := h.queued f d hd
      rw [hf] at hfe
      cases hfe.symm.trans huser
      exact hd
  · exact h.queued e d

/-- The end of a queue carries no request. -/
theorem Tracked.tail_entry (h : Tracked size s) (htail : (s.ep e).tdTail = some tail) :
    s.entry ((s.ep e).kind, tail) = none := by
  have hmem : tail ∈ s.chain e := by
    unfold Core.chain
    rw [htail]
    exact List.mem_append_right _ (List.mem_singleton_self tail)
  have hheld : Holds s ((s.ep e).kind, tail) (.queue e) := ⟨rfl, hmem⟩
  by_contra hentry
  rcases h.carried _ hentry with hd | ⟨f, hf, hd⟩
  · exact h.owned.not_held hheld (q := .done) nofun hd
  · have hheld' : Holds s ((s.ep e).kind, tail) (.queue f) := ⟨hf, List.mem_append_left _ hd⟩
    have hfe : e = f := Place.queue.inj (h.owned.once _ _ _ hheld hheld')
    subst hfe
    have hnodup := h.chainOnce e
    unfold Core.chain at hnodup
    rw [htail] at hnodup
    exact (List.nodup_append.mp hnodup).2.2 tail hd tail (List.mem_singleton_self tail) rfl

theorem Tracked.killTds_returned (h : Tracked size s) (hdone : ∀ x ∈ s.done, s.user x ≠ some e)
    (htail : (s.ep e).tdTail = some tail) :
    Returned (s.ep e).kind (fun d => d ∈ s.chain e) s (killTds (size (s.ep e).kind) e s) := by
  have hfold := foldl_killTd_returned (s.ep e).kind e (List.range (size (s.ep e).kind)) s
  have hep : ((List.range (size (s.ep e).kind)).foldl (killTd (s.ep e).kind e) s).ep = s.ep := by
    rw [foldl_killTd_freed (s.ep e).kind e (List.range (size (s.ep e).kind)) s]
  unfold killTds
  extract_lets u
  rw [show u.ep = s.ep from hep, htail]
  have hnone : u.entry ((s.ep e).kind, tail) = none := by
    cases hu : u.entry ((s.ep e).kind, tail) with
    | none => rfl
    | some r =>
        have hold := hfold.entry_of hu
        rw [h.tail_entry htail] at hold
        cases hold
  refine (hfold.trans (freeTd_returned hnone)).congr fun d => ?_
  unfold Core.chain
  rw [htail, h.user_iff_tds hdone d, List.mem_append, List.mem_range]
  show _ ↔ d ∈ (s.ep e).tds ∨ d ∈ [tail]
  rw [List.mem_singleton]
  constructor
  · rintro (⟨-, hd⟩ | hd)
    · exact .inl hd
    · exact .inr hd
  · rintro (hd | hd)
    · exact .inl ⟨h.owned.within _ _ (holds_tds hd), hd⟩
    · exact .inr hd

theorem Tracked.kill_leaves (h : Tracked size s) (hdone : ∀ x ∈ s.done, s.user x ≠ some e)
    (hu : Freed s u) : Leaves (s.ep e).kind (fun d => d ∈ s.chain e) s
      (u.setEp e fun ep => { ep with tds := [], tdTail := none, halted := false, ioReqList := [] }) := by
  obtain ⟨free, lut, req, rfl⟩ : ∃ free lut req,
      u = { s with free := free, lut := lut, req := req } := ⟨_, _, _, hu⟩
  have hself : Function.update s.ep e
      { s.ep e with tds := [], tdTail := none, halted := false, ioReqList := [] } e =
      { s.ep e with tds := [], tdTail := none, halted := false, ioReqList := [] } := Function.update_self _ _ _
  have hother : ∀ f, f ≠ e → Function.update s.ep e
      { s.ep e with tds := [], tdTail := none, halted := false, ioReqList := [] } f = s.ep f :=
    fun f hf => Function.update_of_ne hf _ _
  unfold Core.setEp
  dsimp only
  generalize Function.update s.ep e
    { s.ep e with tds := [], tdTail := none, halted := false, ioReqList := [] } = ep at *
  have hapart : ∀ f, f ≠ e → ∀ d ∈ s.chain f, ¬((s.ep f).kind = (s.ep e).kind ∧ d ∈ s.chain e) := by
    rintro f hf d hd ⟨hk, hd'⟩
    have hheld : Holds s ((s.ep e).kind, d) (.queue f) := ⟨hk, hd⟩
    exact hf (Place.queue.inj (h.owned.once _ _ _ hheld ⟨rfl, hd'⟩))
  constructor
  · rfl
  · rfl
  · rfl
  · intro f
    show (ep f).ioReqList.Sublist _
    by_cases hf : f = e
    · subst hf
      rw [hself]
      exact List.nil_sublist _
    · rewrite [hother f hf]
      exact .refl _
  · exact .refl _
  · intro x hx
    refine ⟨fun _ => ?_, fun _ => hx⟩
    rintro ⟨hk, hd⟩
    exact h.owned.not_held (show Holds s x (.queue e) from ⟨hk.symm, hd⟩) (q := .done) nofun hx
  · intro f
    show (ep f).kind = _
    by_cases hf : f = e
    · subst hf
      rw [hself]
      rfl
    · rw [hother f hf]
  · intro f
    show (ep f).tds.Sublist _
    by_cases hf : f = e
    · subst hf
      rw [hself]
      exact List.nil_sublist _
    · rewrite [hother f hf]
      exact .refl _
  · intro f d hd hstays
    show d ∈ (ep f).tds
    by_cases hf : f = e
    · subst hf
      exact absurd ⟨rfl, List.mem_append_left _ hd⟩ hstays
    · rw [hother f hf]
      exact hd
  · intro f
    show ((ep f).tds ++ (ep f).tdTail.toList).Sublist _
    by_cases hf : f = e
    · subst hf
      rw [hself]
      exact List.nil_sublist _
    · rewrite [hother f hf]
      exact .refl _
  · intro f d hd
    show d ∈ (ep f).tds ++ (ep f).tdTail.toList ↔ _
    by_cases hf : f = e
    · subst hf
      rw [hself]
      exact ⟨nofun, fun hstays => absurd ⟨rfl, hd⟩ hstays⟩
    · rw [hother f hf]
      exact ⟨fun _ => hapart f hf d hd, fun _ => hd⟩
  · intro f hnone
    show (ep f).tds = []
    by_cases hf : f = e
    · subst hf
      rw [hself]
    · rw [hother f hf]
      exact h.closed f (hother f hf ▸ hnone)
  · intro x hx f hf
    have hne : f ≠ e := by
      rintro rfl
      exact hdone x hx hf
    show (ep f).tdTail = _ ∧ (_ → (ep f).halted = _)
    rw [hother f hne]
    exact ⟨rfl, fun _ => rfl⟩

theorem Consistent.killEndpoint (h : Consistent size s ended) (hdone : ∀ x ∈ s.done, s.user x ≠ some e)
    (htail : (s.ep e).tdTail ≠ none) : Consistent size (killEndpoint size e s) ended := by
  obtain ⟨tail, htail⟩ := Option.ne_none_iff_exists'.mp htail
  have hreturned := h.tracked.killTds_returned hdone htail
  have hleaves := h.tracked.kill_leaves hdone (killTds_freed (size (s.ep e).kind) e s)
  have hsize : ∀ d, d ∈ s.chain e → d < size (s.ep e).kind :=
    fun d hd => h.tracked.owned.within ((s.ep e).kind, d) (.queue e) ⟨rfl, hd⟩
  have htracked := h.tracked.release (hreturned.setEp e) hleaves hsize
  have haccounted := h.accounted.shrink (fun x r hx => (hreturned.setEp e).entry_of hx) hleaves.waiting
    hleaves.submissions (hreturned.setEp e).endpoint
  have hrequeued := (removeEndpointFromQueue_requeued e ((killTds (size (s.ep e).kind) e s).setEp e
    fun ep => { ep with tds := [], tdTail := none, halted := false, ioReqList := [] })).1
  exact ⟨htracked.requeued hrequeued, haccounted.requeued hrequeued⟩

end Kill

/-! ## Every run -/

/-- No isochronous endpoint has descriptors in its queue when one of its descriptors is
processed and it is found halted, and no endpoint is killed while the controller's done queue
has a descriptor of it. -/
def Orderly (s : Core) : CoreEvent → Prop
  | .process => ∀ d rest e, s.batch = (.iso, d) :: rest → s.user (.iso, d) = some e →
      (s.ep e).halted = true → (s.ep e).tds = []
  | .kill e => ∀ x ∈ s.doneHead, s.user x ≠ some e
  | _ => True

theorem Requeued.ended_eq (h : Requeued e s t) : t.ended = s.ended := by
  rw [h.rest]
  rfl

theorem handleIoReqList_ended (e : Nat) (s : Core) : (handleIoReqList e s).ended = s.ended := by
  rcases handleIoReqList_cases e s with hr | ⟨r, rest, old, news, tail, free, -, -, -, -, hr⟩
  · exact hr.ended_eq
  · rw [hr.ended_eq]
    exact (submit_submitted e r rest (old :: news) tail free s).ended

theorem attachIoReqToEndpoint_ended (e : Nat) (data : Bool) (s : Core) :
    (attachIoReqToEndpoint e data s).ended = s.ended := by
  unfold attachIoReqToEndpoint
  split
  · rw [handleIoReqList_ended]
    rfl
  · rfl

theorem checkTdQueue_ended (k : TdKind) (s : Core) : (checkTdQueue k s).ended = s.ended := by
  unfold checkTdQueue
  split
  · exact handleIoReqList_ended _ s
  · rfl

theorem killEndpoint_ended (e : Nat) (s : Core) : (killEndpoint size e s).ended = s.ended := by
  unfold killEndpoint
  rw [(removeEndpointFromQueue_requeued e _).1.ended_eq]
  show (killTds (size (s.ep e).kind) e s).ended = s.ended
  rw [killTds_freed (size (s.ep e).kind) e s]
  rfl

theorem openDeviceEndpoint_ended (e : Nat) (type : EndpointType) (s : Core) :
    (openDeviceEndpoint e type s).ended = s.ended := by
  unfold openDeviceEndpoint
  split <;> rfl

theorem Accounted.opened {type : EndpointType} (h : Accounted s ended) :
    Accounted (openDeviceEndpoint e type s) ended := by
  unfold openDeviceEndpoint
  split
  · exact h
  · refine h.shrink (fun x r hx => hx) (fun f => ?_) rfl fun _ => rfl
    show (Function.update s.ep e _ f).ioReqList.Sublist _
    by_cases hf : f = e
    · subst hf
      rw [Function.update_self]
      exact List.nil_sublist _
    · rewrite [Function.update_of_ne hf]
      exact .refl _

theorem Accounted.retired {code d : Nat} {halt : Bool} {rest : List Nat} (h : Accounted s ended) :
    Accounted (retired e code halt d rest s) ended := by
  refine h.shrink (fun x r hx => hx) (fun f => ?_) rfl fun _ => rfl
  by_cases hf : f = e
  · subst hf
    rewrite [retired_ep_self]
    exact .refl _
  · rewrite [retired_ep_of_ne hf]
    exact .refl _

theorem Consistent.removed (h : Consistent size s ended) :
    Consistent size (removeEndpointFromDevice e s) ended := by
  have hep : ∀ f, ∃ device skipped, Function.update s.ep e { s.ep e with skipped := true, device := false } f =
      { s.ep f with device := device, skipped := skipped } := by
    intro f
    by_cases hf : f = e
    · subst hf
      exact ⟨false, true, Function.update_self _ _ _⟩
    · exact ⟨_, _, Function.update_of_ne hf _ _⟩
  constructor
  · refine h.tracked.of_ep s.tdQueue fun f => ?_
    obtain ⟨device, skipped, hf⟩ := hep f
    exact ⟨device, _, _, skipped, hf⟩
  · refine h.accounted.shrink (fun x r hx => hx) (fun f => ?_) rfl fun _ => rfl
    obtain ⟨device, skipped, hf⟩ := hep f
    show (Function.update s.ep e _ f).ioReqList.Sublist _
    rewrite [hf]
    exact .refl _

/-- A callback that is run was due; one that is not run is not run later. -/
theorem Consistent.ran {r : Nat} {rest : List Nat} (h : Consistent size s s.ended)
    (hcb : s.callbacks = some (k, r :: rest)) :
    Consistent size (runCallback k r rest s) (Core.ended (runCallback k r rest s)) := by
  have hold : s.ended = s.called ++ r :: rest := by
    unfold Core.ended
    rw [hcb]
    rfl
  have hsub : ∀ r' ∈ (runCallback k r rest s).ended, r' ∈ s.ended := by
    intro r' hr'
    have hr' : r' ∈ (runCallback k r rest s).called ++ rest := hr'
    unfold runCallback at hr'
    rw [hold]
    grind
  have honce : (runCallback k r rest s).ended.Nodup := by
    have hnodup := h.accounted.endedOnce
    rw [hold] at hnodup
    show ((if _ then r :: s.called else s.called) ++ rest).Nodup
    split
    · exact (List.perm_middle.nodup_iff).mp hnodup
    · exact hnodup.sublist (List.Sublist.append (.refl _) (List.sublist_cons_self r rest))
  exact ⟨h.tracked.of_done _ _ rfl, h.accounted.waiting, h.accounted.waitingOnce,
    fun r' hr' => h.accounted.finished r' (hsub r' hr'), honce⟩

theorem Consistent.initialised (h : Initialised size s) : Consistent size s s.ended := by
  obtain ⟨hhead, hbatch, hcb⟩ := h.done
  have hdone : s.done = [] := by
    unfold Core.done
    rw [hhead, hbatch]
    rfl
  have htds : ∀ e, (s.ep e).tds = [] := fun e => (h.ep e).2.2.1
  have hchain : ∀ e, s.chain e = [] := by
    intro e
    unfold Core.chain
    rw [htds e, (h.ep e).2.1]
    rfl
  have hentry : ∀ x, s.entry x = none := fun x => h.lut x.1 x.2
  have hended : s.ended = [] := by
    unfold Core.ended
    rw [h.called, hcb]
    rfl
  have hholds : ∀ x p, Holds s x p ↔ p = .free ∧ x.2 < size x.1 := by
    rintro x (_ | e | _)
    · simp [Holds, h.free]
    · simp [Holds, hchain]
    · simp [Holds, hdone]
  constructor
  · constructor
    · constructor
      · exact fun x p hp => ((hholds x p).mp hp).2
      · exact fun x hx => ⟨.free, (hholds x .free).mpr ⟨rfl, hx⟩⟩
      · intro x p q hp hq
        rw [((hholds x p).mp hp).1, ((hholds x q).mp hq).1]
    · intro k
      rw [h.free]
      exact List.nodup_range
    · intro e
      rw [hchain]
      exact .nil
    · rw [hdone]
      exact .nil
    · exact fun e _ => htds e
    · intro e
      rw [htds]
      exact List.forall_mem_nil _
    · rw [hdone]
      exact List.forall_mem_nil _
    · exact fun x hx => absurd (hentry x) hx
    · intro x r hx
      rw [hentry] at hx
      cases hx
    · intro e
      unfold Core.course
      rw [hdone, htds]
      exact .nil
    · rw [hdone]
      exact List.forall_mem_nil _
    · rw [hdone]
      exact .nil
  · constructor
    · intro e
      rw [(h.ep e).2.2.2.1]
      exact List.forall_mem_nil _
    · intro e
      rw [(h.ep e).2.2.2.1]
      exact .nil
    · rw [hended]
      exact List.forall_mem_nil _
    · rw [hended]
      exact .nil

theorem consistent_invariant : (core size).Invariant Orderly fun s => Consistent size s s.ended where
  init := by
    intro s h
    exact Consistent.initialised h
  step := by
    intro s a t _ h ok hstep
    cases hstep with
    | @attach e data =>
        rw [attachIoReqToEndpoint_ended]
        exact h.attach e
    | @retire e code d halt rest htds hrun hhalt =>
        exact ⟨h.tracked.retired htds hrun hhalt, h.accounted.retired⟩
    | interrupt hcb hbatch =>
        refine ⟨h.tracked.of_done s.callbacks s.called ?_, ?_⟩
        · unfold Core.done
          rw [hbatch]
          simp
        · exact ⟨h.accounted.waiting, h.accounted.waitingOnce, h.accounted.finished, h.accounted.endedOnce⟩
    | @process k d rest hcb hbatch =>
        refine h.processDoneQueue hcb hbatch ?_
        rintro e rfl
        exact ok d rest e hbatch
    | callback hcb => exact h.ran hcb
    | @check k hcb =>
        have hended : s.ended = s.called := by
          unfold Core.ended
          rw [hcb]
          exact List.append_nil _
        have hnone : Consistent size { s with callbacks := none } s.called := by
          rw [hended] at h
          exact ⟨h.tracked.of_done none s.called rfl, h.accounted.waiting, h.accounted.waitingOnce,
            h.accounted.finished, h.accounted.endedOnce⟩
        rw [checkTdQueue_ended]
        show Consistent size _ (s.called ++ [])
        rw [List.append_nil]
        exact hnone.checkTdQueue k
    | @«open» e type hdev htail =>
        rw [openDeviceEndpoint_ended]
        exact ⟨h.tracked.opened htail, h.accounted.opened⟩
    | remove hdev => exact h.removed
    | @kill e hdev htail hcb hbatch =>
        rw [killEndpoint_ended]
        refine h.killEndpoint ?_ htail
        unfold Core.done
        rw [hbatch]
        exact fun x hx => ok x (List.mem_reverse.mp hx)


/-- In every state of a run, every descriptor of both pools is free, in the queue of one
endpoint or in the done queue, and only once in one of them; the table has an entry for just
those that are done or wait in a queue before its end; and no callback was run twice for one
submission. -/
theorem descriptors_owned_once (h : (core size).Reachable Orderly s) :
    (∀ x : TdKind × Nat, x.2 < size x.1 → ∃! p, Holds s x p) ∧
    ((∀ k, (s.free k).Nodup) ∧ (∀ e, (s.chain e).Nodup) ∧ s.done.Nodup) ∧
    (∀ k d, s.lut k d ≠ none ↔
      (k, d) ∈ s.done ∨ ∃ e, (s.ep e).kind = k ∧ d ∈ (s.ep e).tds) ∧
    s.called.Nodup := by
  have hc := consistent_invariant.holds h
  refine ⟨fun x hx => hc.tracked.owned.existsUnique hx,
    ⟨hc.tracked.freeOnce, hc.tracked.chainOnce, hc.tracked.doneOnce⟩, fun k d => ⟨?_, ?_⟩, ?_⟩
  · exact hc.tracked.carried (k, d)
  · intro hused
    have huser : ∃ e, s.user (k, d) = some e := by
      rcases hused with hd | ⟨e, rfl, hd⟩
      · obtain ⟨e, he, -⟩ := hc.tracked.done _ hd
        exact ⟨e, he⟩
      · exact ⟨e, hc.tracked.queued e d hd⟩
    obtain ⟨e, he⟩ := huser
    obtain ⟨r, hr, -⟩ := Core.user_eq_some.mp he
    have hlut : s.lut k d = some r := hr
    rw [hlut]
    exact nofun
  · exact hc.accounted.endedOnce.sublist (List.sublist_append_left _ _)

/-- A bulk request that is done: its descriptor is free again and its callback was run. -/
theorem descriptors_owned_once_bulk : ∃ s : Core, s.called = [0] ∧ s.called.Nodup ∧
    Holds s (.general, 0) .free ∧ ∃! p, Holds s (.general, 0) p := by
  let opened := openDeviceEndpoint 0 .bulk (initCore fun _ => 4)
  let busy := bulkBusy fun _ => 4
  let finished := retired 0 0 false 0 [] busy
  let taken : Core := { finished with batch := finished.doneHead.reverse, doneHead := [] }
  let processed := processDoneQueue .general 0 { taken with batch := [] }
  have hopen : CoreStep (fun _ => 4) (initCore fun _ => 4) (.open 0 .bulk) opened := .open rfl rfl
  have hattach : CoreStep (fun _ => 4) opened (.attach 0 true) busy := .attach
  have hretire : CoreStep (fun _ => 4) busy (.retire 0 0 false) finished :=
    .retire (by decide) (by decide) (by decide)
  have hintr : CoreStep (fun _ => 4) finished .interrupt taken := .interrupt (by decide) (by decide)
  have hprocess : CoreStep (fun _ => 4) taken .process processed := .process (by decide) (by decide)
  have hcall : CoreStep (fun _ => 4) processed .callback (runCallback .general 0 [] processed) :=
    .callback (by decide)
  have hgeneral : Orderly taken .process := by
    intro d rest e hbatch
    have hfirst : taken.batch = [(.general, 0)] := by decide
    rw [hfirst] at hbatch
    cases hbatch
  have hstart : (core fun _ => 4).Reachable Orderly opened :=
    (System.Reachable.init initCore_initialised).next (show Orderly _ (.open 0 .bulk) from trivial) hopen
  have hfinished := (hstart.next (show Orderly _ (.attach 0 true) from trivial) hattach).next
    (show Orderly _ (.retire 0 0 false) from trivial) hretire
  have hreach := ((hfinished.next (show Orderly _ .interrupt from trivial) hintr).next hgeneral hprocess).next
    (show Orderly _ .callback from trivial) hcall
  obtain ⟨howned, -, -, honce⟩ := descriptors_owned_once hreach
  refine ⟨runCallback .general 0 [] processed, by decide, honce, ?_, howned (.general, 0) (by decide)⟩
  show 0 ∈ (runCallback .general 0 [] processed).free .general
  decide

/-- An isochronous endpoint is halted with a second descriptor in its queue: that one is freed
and keeps its entry. A control endpoint is removed after its setup stage and killed before the
done queue was processed: the descriptor of the setup stage is freed and is still done. -/
theorem descriptors_misplaced :
    (∃ s, (core fun _ => 4).Reachable (fun _ _ => True) s ∧ s.lut .iso 1 ≠ none ∧ 1 ∈ s.free .iso) ∧
    ∃ s, (core fun _ => 4).Reachable (fun _ _ => True) s ∧ 0 ∈ s.free .general ∧ (.general, 0) ∈ s.done := by
  constructor
  · let opened := openDeviceEndpoint 0 .isochron (initCore fun _ => 4)
    let first := attachIoReqToEndpoint 0 true opened
    let second := attachIoReqToEndpoint 0 true first
    let failed := retired 0 0 true 0 [1] second
    let taken : Core := { failed with batch := failed.doneHead.reverse, doneHead := [] }
    let processed := processDoneQueue .iso 0 { taken with batch := [] }
    have hopen : CoreStep (fun _ => 4) (initCore fun _ => 4) (.open 0 .isochron) opened := .open rfl rfl
    have hfirst : CoreStep (fun _ => 4) opened (.attach 0 true) first := .attach
    have hsecond : CoreStep (fun _ => 4) first (.attach 0 true) second := .attach
    have hfail : CoreStep (fun _ => 4) second (.retire 0 0 true) failed :=
      .retire (by decide) (by decide) (by decide)
    have hintr : CoreStep (fun _ => 4) failed .interrupt taken := .interrupt (by decide) (by decide)
    have hprocess : CoreStep (fun _ => 4) taken .process processed := .process (by decide) (by decide)
    refine ⟨processed, ?_, by decide⟩
    exact ((((((System.Reachable.init initCore_initialised).next trivial hopen).next trivial hfirst).next trivial
      hsecond).next trivial hfail).next trivial hintr).next trivial hprocess
  · let opened := openDeviceEndpoint 0 .control (initCore fun _ => 4)
    let busy := attachIoReqToEndpoint 0 false opened
    let setup := retired 0 0 false 0 [1] busy
    let removed := removeEndpointFromDevice 0 setup
    let killed := killEndpoint (fun _ => 4) 0 removed
    have hopen : CoreStep (fun _ => 4) (initCore fun _ => 4) (.open 0 .control) opened := .open rfl rfl
    have hattach : CoreStep (fun _ => 4) opened (.attach 0 false) busy := .attach
    have hsetup : CoreStep (fun _ => 4) busy (.retire 0 0 false) setup :=
      .retire (by decide) (by decide) (by decide)
    have hremove : CoreStep (fun _ => 4) setup (.remove 0) removed := .remove (by decide)
    have hkill : CoreStep (fun _ => 4) removed (.kill 0) killed :=
      .kill (by decide) (by decide) (by decide) (by decide)
    refine ⟨killed, ?_, by decide⟩
    exact (((((System.Reachable.init initCore_initialised).next trivial hopen).next trivial hattach).next trivial
      hsetup).next trivial hremove).next trivial hkill

end BdmAssault.Hcd
