import BdmAssault.Hcd.Core

/-! # Requests that wait

A request that could not be submitted waits at its endpoint, and the endpoint waits in a
queue. An endpoint that is found halted leaves the queue and nothing puts it back when the
halt is cleared, so its requests are lost unless that never happens.
-/

namespace BdmAssault.Hcd

open Lib

variable {size : TdKind → Nat} {s t : Core} {e : Nat}

/-! ## The invariant -/

/-- The requests that an endpoint was given since it was opened, in the order in which they
were submitted or wait. -/
def Core.history (s : Core) (e : Nat) : List Nat := s.sent e ++ (s.ep e).ioReqList

/-- An endpoint of a device can be used, and waits in its queue if requests wait for it. -/
structure Waits (s : Core) (e : Nat) : Prop where
  tail : (s.ep e).device = true → (s.ep e).tdTail ≠ none
  skipped : (s.ep e).device = true → (s.ep e).skipped = false
  queued : (s.ep e).device = true → (s.ep e).ioReqList ≠ [] → (s.ep e).inTdQueue ≠ none
  linked : ∀ k, (s.ep e).inTdQueue = some k → k = (s.ep e).kind ∧ e ∈ s.tdQueue k
  order : (s.history e).Pairwise (· < ·)
  bound : ∀ r ∈ s.history e, r < s.submissions

/-- The descriptors of an endpoint and its halted bit do not matter. -/
theorem Waits.congr {tds : List Nat} {halted : Bool} (h : Waits s e)
    (hep : t.ep e = { s.ep e with tds := tds, halted := halted }) (hq : t.tdQueue = s.tdQueue)
    (hsent : t.sent e = s.sent e) (hsub : t.submissions = s.submissions) : Waits t e := by
  have hhist : t.history e = s.history e := by
    unfold Core.history
    rw [hsent, hep]
  constructor
  · rw [hep]
    exact h.tail
  · rw [hep]
    exact h.skipped
  · rw [hep]
    exact h.queued
  · rw [hep, hq]
    exact h.linked
  · rw [hhist]
    exact h.order
  · rw [hhist, hsub]
    exact h.bound

/-- Another endpoint's queueing leaves an endpoint alone. -/
theorem Waits.of_requeued {f : Nat} (h : Waits s f) (hr : Requeued e s t) (hf : f ≠ e) : Waits t f := by
  have hep := hr.others f hf
  have hhist : t.history f = s.history f := by
    unfold Core.history
    rw [hep, hr.rest]
  constructor
  · rw [hep]
    exact h.tail
  · rw [hep]
    exact h.skipped
  · rw [hep]
    exact h.queued
  · intro k hk
    rw [hep] at hk ⊢
    exact ⟨(h.linked k hk).1, hr.linked f k hf (h.linked k hk).2⟩
  · rw [hhist]
    exact h.order
  · rw [hhist, hr.rest]
    exact h.bound

/-! ## Submitting -/

/-- What a set-up needs: at most the first of the waiting requests is not yet provided for. -/
structure Submits (s : Core) (e : Nat) : Prop where
  tail : (s.ep e).device = true → (s.ep e).tdTail ≠ none
  skipped : (s.ep e).device = true → (s.ep e).skipped = false
  more : (s.ep e).device = true → (s.ep e).ioReqList.tail ≠ [] → (s.ep e).inTdQueue ≠ none
  linked : ∀ k, (s.ep e).inTdQueue = some k → k = (s.ep e).kind ∧ e ∈ s.tdQueue k
  order : (s.history e).Pairwise (· < ·)
  bound : ∀ r ∈ s.history e, r < s.submissions

theorem Waits.submits (h : Waits s e) : Submits s e :=
  { h with
    more := fun hd hne => h.queued hd fun e => hne (by rw [e]; rfl) }

/-- An endpoint that is taken out of its queue has nothing waiting. -/
theorem Submits.removed (h : Submits s e)
    (hempty : (s.ep e).device = true → (s.ep e).ioReqList = []) :
    Waits (removeEndpointFromQueue e s) e := by
  obtain ⟨hr, hnone⟩ := removeEndpointFromQueue_requeued e s
  obtain ⟨q, hep⟩ := hr.self
  have hhist : (removeEndpointFromQueue e s).history e = s.history e := by
    unfold Core.history
    rw [hep, hr.rest]
  constructor
  · rw [hep]
    exact h.tail
  · rw [hep]
    exact h.skipped
  · rw [hep]
    exact fun hd hne => absurd (hempty hd) hne
  · intro k hk
    rw [hnone] at hk
    cases hk
  · rw [hhist]
    exact h.order
  · rw [hhist, hr.rest]
    exact h.bound

theorem Submits.enqueued (h : Submits s e) : Waits (enqueueEndpoint e (s.ep e).kind s) e := by
  obtain ⟨hr, hin⟩ := enqueueEndpoint_requeued e (s.ep e).kind s
  rcases hin with ⟨hq, hsame⟩ | ⟨hq, hmem⟩
  · rw [hsame]
    exact { h with queued := fun _ _ => hq }
  · obtain ⟨q, hep⟩ := hr.self
    have hhist : (enqueueEndpoint e (s.ep e).kind s).history e = s.history e := by
      unfold Core.history
      rw [hep, hr.rest]
    constructor
    · rw [hep]
      exact h.tail
    · rw [hep]
      exact h.skipped
    · intro _ _
      rw [hq]
      exact nofun
    · intro k hk
      rw [hq] at hk
      cases hk
      rw [hep]
      exact ⟨rfl, hmem⟩
    · rw [hhist]
      exact h.order
    · rw [hhist, hr.rest]
      exact h.bound

theorem submit_same (k : TdKind) (e r : Nat) (rest used : List Nat) (tail : Nat) (free : List Nat)
    (s : Core) : (submit k e r rest used tail free s).tdQueue = s.tdQueue ∧
      (submit k e r rest used tail free s).submissions = s.submissions := by
  unfold submit
  rw [fillTds_frame]
  exact ⟨rfl, rfl⟩

/-- The request that is submitted was the first to wait. -/
theorem Submits.submitted {r : Nat} {rest : List Nat} (h : Submits s e) (k : TdKind)
    (hlist : (s.ep e).ioReqList = r :: rest) (used : List Nat) (tail : Nat) (free : List Nat) :
    Submits (submit k e r rest used tail free s) e := by
  obtain ⟨hqueue, hsub⟩ := submit_same k e r rest used tail free s
  have hep : (submit k e r rest used tail free s).ep e = { s.ep e with
      ioReqList := rest, tds := (s.ep e).tds ++ used, tdTail := some tail } := Function.update_self _ _ _
  have hhist : (submit k e r rest used tail free s).history e = s.history e := by
    have hsent : (submit k e r rest used tail free s).sent e = s.sent e ++ [r] :=
      Function.update_self _ _ _
    unfold Core.history
    rw [hsent, hep, hlist, List.append_assoc]
    rfl
  constructor
  · rw [hep]
    exact nofun
  · rw [hep]
    exact h.skipped
  · intro hd hne
    rw [hep] at hd hne ⊢
    refine h.more hd ?_
    rw [hlist]
    intro he
    exact hne (by rw [show rest = [] from he]; rfl)
  · rw [hep, hqueue]
    exact h.linked
  · rw [hhist]
    exact h.order
  · rw [hhist, hsub]
    exact h.bound

/-- A set-up keeps the invariant if the endpoint is not halted. -/
theorem waits_setUp (hothers : ∀ f, f ≠ e → Waits s f) (h : Submits s e)
    (hrun : (s.ep e).device = true → (s.ep e).halted = false) (hset : SetUp (s.ep e).kind e s t)
    (f : Nat) : Waits t f := by
  rcases hset with ⟨rfl, hwhy⟩ | ⟨rfl, -⟩ | ⟨r, rest, old, news, tail, free, hlist, -, -, rfl⟩
  · by_cases hf : f = e
    · subst hf
      refine h.removed fun hd => ?_
      rcases hwhy with htail | hempty | hhalt | hskip
      · exact absurd htail (h.tail hd)
      · exact hempty
      · rw [hrun hd] at hhalt
        cases hhalt
      · rw [h.skipped hd] at hskip
        cases hskip
    · exact (hothers f hf).of_requeued (removeEndpointFromQueue_requeued e s).1 hf
  · by_cases hf : f = e
    · subst hf
      exact h.enqueued
    · exact (hothers f hf).of_requeued (enqueueEndpoint_requeued e _ s).1 hf
  · have hsubmitted := h.submitted (s.ep e).kind hlist (old :: news) tail free
    have hep : (submit (s.ep e).kind e r rest (old :: news) tail free s).ep e = { s.ep e with
        ioReqList := rest, tds := (s.ep e).tds ++ old :: news, tdTail := some tail } :=
      Function.update_self _ _ _
    have hother : ∀ f, f ≠ e → Waits (submit (s.ep e).kind e r rest (old :: news) tail free s) f := by
      intro f hf
      obtain ⟨hqueue, hsub⟩ := submit_same (s.ep e).kind e r rest (old :: news) tail free s
      exact (hothers f hf).congr (Function.update_of_ne hf _ _) hqueue (Function.update_of_ne hf _ _) hsub
    rcases leaveIfIdle_cases e (submit (s.ep e).kind e r rest (old :: news) tail free s) with
      ⟨hsame, hne⟩ | ⟨hleft, hempty⟩
    · rw [hsame]
      by_cases hf : f = e
      · subst hf
        refine { hsubmitted with queued := fun hd _ => ?_ }
        rw [hep] at hd hne ⊢
        refine h.more hd ?_
        rw [hlist]
        exact hne
      · exact hother f hf
    · rw [hleft]
      by_cases hf : f = e
      · subst hf
        exact hsubmitted.removed fun _ => hempty
      · exact (hother f hf).of_requeued (removeEndpointFromQueue_requeued e _).1 hf

/-! ## The done queue -/

/-- The descriptors and halted bits of endpoints may have changed, not their requests. -/
structure Quiet (s t : Core) : Prop where
  ep : ∀ e, ∃ tds halted, t.ep e = { s.ep e with tds := tds, halted := halted }
  tdQueue : t.tdQueue = s.tdQueue
  sent : t.sent = s.sent
  submissions : t.submissions = s.submissions

theorem Quiet.refl (s : Core) : Quiet s s := ⟨fun _ => ⟨_, _, rfl⟩, rfl, rfl, rfl⟩

theorem Quiet.waits (hq : Quiet s t) (h : Waits s e) : Waits t e := by
  obtain ⟨tds, halted, hep⟩ := hq.ep e
  exact h.congr hep hq.tdQueue (congrFun hq.sent e) hq.submissions

theorem quiet_of_freed (h : Freed s t) : Quiet s t := by
  rw [h]
  exact ⟨fun _ => ⟨_, _, rfl⟩, rfl, rfl, rfl⟩

theorem quiet_resetHead (e : Nat) (h : Freed s t) : Quiet s (t.resetHead e) := by
  rw [h]
  refine ⟨fun f => ?_, rfl, rfl, rfl⟩
  by_cases hf : f = e
  · subst hf
    exact ⟨[], false, Function.update_self _ _ _⟩
  · exact ⟨_, _, (Function.update_of_ne hf _ _).trans rfl⟩

theorem finishGenTd_quiet (t r : Nat) (s : Core) : Quiet s (finishGenTd t r s).1 := by
  unfold finishGenTd
  extract_lets code list s'
  have hs' : Freed s s' := retireTd_freed _ _ _ _ _
  split
  · exact quiet_resetHead _ (hs'.trans (foldl_freed flushGenTd_freed _ _))
  · exact quiet_of_freed hs'

theorem finishIsoTd_quiet (t r : Nat) (s : Core) : Quiet s (finishIsoTd t r s).1 := by
  unfold finishIsoTd
  extract_lets s'
  have hs' : Freed s s' := retireTd_freed _ _ _ _ _
  split
  · exact quiet_resetHead _ (hs'.trans (foldl_freed (flushIsoTd_freed t) _ _))
  · exact quiet_of_freed hs'

theorem processDoneQueue_quiet (k : TdKind) (t : Nat) (s : Core) : Quiet s (processDoneQueue k t s) := by
  unfold processDoneQueue
  split
  · exact .refl s
  · rename_i r _
    split
    · obtain ⟨hep, hqueue, hsent, hsub⟩ := finishGenTd_quiet t r s
      exact ⟨hep, hqueue, hsent, hsub⟩
    · obtain ⟨hep, hqueue, hsent, hsub⟩ := finishIsoTd_quiet t r s
      exact ⟨hep, hqueue, hsent, hsub⟩

/-! ## Every run -/

/-- No request is given to a halted endpoint, and none that waits in a queue is halted when
its turn comes. -/
def Unhalted (s : Core) : CoreEvent → Prop
  | .attach e _ => (s.ep e).device = true → (s.ep e).halted = false
  | .check => ∀ k e rest, s.callbacks = some (k, []) → s.tdQueue k = e :: rest →
      (s.ep e).device = true → (s.ep e).halted = false
  | _ => True

theorem Waits.appendRequest {f : Nat} {data : Bool} (h : Waits s f) (hf : f ≠ e) :
    Waits (appendRequest e data s) f := by
  have hep : (Hcd.appendRequest e data s).ep f = s.ep f := Function.update_of_ne hf _ _
  have hhist : (Hcd.appendRequest e data s).history f = s.history f := by
    unfold Core.history
    rw [hep]
    rfl
  constructor
  · rw [hep]
    exact h.tail
  · rw [hep]
    exact h.skipped
  · rw [hep]
    exact h.queued
  · rw [hep]
    exact h.linked
  · rw [hhist]
    exact h.order
  · intro r hr
    rw [hhist] at hr
    exact Nat.lt_succ_of_lt (h.bound r hr)

/-- A new request is later than those that the endpoint has been given. -/
theorem Waits.submits_appendRequest {data : Bool} (h : Waits s e) : Submits (Hcd.appendRequest e data s) e := by
  have hep : (Hcd.appendRequest e data s).ep e =
      { s.ep e with ioReqList := (s.ep e).ioReqList ++ [s.submissions] } := Function.update_self _ _ _
  have hhist : (Hcd.appendRequest e data s).history e = s.history e ++ [s.submissions] := by
    unfold Core.history
    rw [hep, List.append_assoc]
    rfl
  constructor
  · rw [hep]
    exact h.tail
  · rw [hep]
    exact h.skipped
  · intro hd hne
    rw [hep] at hd hne ⊢
    refine h.queued hd fun hempty => hne ?_
    rw [hempty]
    rfl
  · rw [hep]
    exact h.linked
  · rw [hhist, List.pairwise_append]
    refine ⟨h.order, List.pairwise_singleton _ _, ?_⟩
    intro r hr r' hr'
    rw [List.mem_singleton.mp hr']
    exact h.bound r hr
  · intro r hr
    rw [hhist] at hr
    show r < s.submissions + 1
    rcases List.mem_append.mp hr with hr | hr
    · exact Nat.lt_succ_of_lt (h.bound r hr)
    · rw [List.mem_singleton.mp hr]
      exact Nat.lt_succ_self _

theorem waits_attach {data : Bool} (h : ∀ f, Waits s f)
    (hrun : (s.ep e).device = true → (s.ep e).halted = false) (f : Nat) :
    Waits (attachIoReqToEndpoint e data s) f := by
  unfold attachIoReqToEndpoint
  split
  · refine waits_setUp (fun g hg => (h g).appendRequest hg) (h e).submits_appendRequest ?_
      (handleIoReqList_setUp e _) f
    have hep : (appendRequest e data s).ep e =
        { s.ep e with ioReqList := (s.ep e).ioReqList ++ [s.submissions] } := Function.update_self _ _ _
    rw [hep]
    exact hrun
  · exact h f

theorem waits_check {k : TdKind} (h : ∀ f, Waits s f)
    (hrun : ∀ e rest, s.tdQueue k = e :: rest → (s.ep e).device = true → (s.ep e).halted = false)
    (f : Nat) : Waits (checkTdQueue k { s with callbacks := none }) f := by
  have hs : ∀ g, Waits { s with callbacks := none } g :=
    fun g => Quiet.waits ⟨fun _ => ⟨_, _, rfl⟩, rfl, rfl, rfl⟩ (h g)
  unfold checkTdQueue
  split
  · rename_i e rest _ hqueue
    exact waits_setUp (fun g _ => hs g) (hs e).submits (hrun e rest hqueue)
      (handleIoReqList_setUp e _) f
  · exact hs f

theorem waits_open {type : EndpointType} (h : ∀ f, Waits s f) (f : Nat) :
    Waits (openDeviceEndpoint e type s) f := by
  unfold openDeviceEndpoint
  split
  · exact h f
  · rename_i t free _
    by_cases hf : f = e
    · subst hf
      have hep : (Function.update s.ep f ⟨type, true, none, [], false, false, [], some t⟩) f =
          ⟨type, true, none, [], false, false, [], some t⟩ := Function.update_self _ _ _
      have hsent : (Function.update s.sent f []) f = [] := Function.update_self _ _ _
      constructor
      · show _ → ((Function.update s.ep f _) f).tdTail ≠ none
        rw [hep]
        exact nofun
      · show _ → ((Function.update s.ep f _) f).skipped = false
        rw [hep]
        exact fun _ => rfl
      · show _ → ((Function.update s.ep f _) f).ioReqList ≠ [] → _
        rw [hep]
        exact fun _ hne => absurd rfl hne
      · show ∀ k, ((Function.update s.ep f _) f).inTdQueue = some k → _
        rw [hep]
        exact nofun
      · show (Function.update s.sent f [] f ++ ((Function.update s.ep f _) f).ioReqList).Pairwise (· < ·)
        rw [hep, hsent]
        exact .nil
      · show ∀ r ∈ Function.update s.sent f [] f ++ ((Function.update s.ep f _) f).ioReqList, _
        rw [hep, hsent]
        exact nofun
    · exact (h f).congr (Function.update_of_ne hf _ _) rfl (Function.update_of_ne hf _ _) rfl

theorem waits_remove (h : ∀ f, Waits s f) (f : Nat) : Waits (removeEndpointFromDevice e s) f := by
  by_cases hf : f = e
  · subst hf
    have hep : (removeEndpointFromDevice f s).ep f = { s.ep f with skipped := true, device := false } :=
      Function.update_self _ _ _
    have hhist : (removeEndpointFromDevice f s).history f = s.history f := by
      unfold Core.history
      rw [hep]
      rfl
    constructor
    · rw [hep]
      exact nofun
    · rw [hep]
      exact nofun
    · rw [hep]
      exact nofun
    · rw [hep]
      exact (h f).linked
    · rw [hhist]
      exact (h f).order
    · rw [hhist]
      exact (h f).bound
  · exact (h f).congr (Function.update_of_ne hf _ _) rfl rfl rfl

theorem waits_kill (h : ∀ f, Waits s f) (hdev : (s.ep e).device = false) (f : Nat) :
    Waits (killEndpoint size e s) f := by
  have hquiet : Quiet s (killTds (size (s.ep e).kind) e s) := quiet_of_freed (killTds_freed _ e s)
  unfold killEndpoint
  generalize killTds (size (s.ep e).kind) e s = u at hquiet
  obtain ⟨tds, halted, hep⟩ := hquiet.ep e
  have hu := fun g => hquiet.waits (h g)
  by_cases hf : f = e
  · subst hf
    have hself : (u.setEp f fun ep =>
        { ep with tds := [], tdTail := none, halted := false, ioReqList := [] }).ep f =
        { u.ep f with tds := [], tdTail := none, halted := false, ioReqList := [] } :=
      Function.update_self _ _ _
    have hdev' : (u.ep f).device ≠ true := by
      rw [hep]
      intro hd
      rw [hdev] at hd
      cases hd
    have hhist : (u.setEp f fun ep =>
        { ep with tds := [], tdTail := none, halted := false, ioReqList := [] }).history f = u.sent f := by
      unfold Core.history
      rw [hself]
      exact List.append_nil _
    have hsub : (u.sent f).Sublist (u.history f) := List.sublist_append_left _ _
    refine Submits.removed ⟨?_, ?_, ?_, ?_, ?_, ?_⟩ ?_
    · rw [hself]
      exact fun hd => absurd hd hdev'
    · rw [hself]
      exact fun hd => absurd hd hdev'
    · rw [hself]
      exact fun hd => absurd hd hdev'
    · rw [hself]
      exact (hu f).linked
    · rw [hhist]
      exact (hu f).order.sublist hsub
    · rw [hhist]
      exact fun r hr => (hu f).bound r (hsub.subset hr)
    · rw [hself]
      exact fun hd => absurd hd hdev'
  · have hother : Waits (u.setEp e fun ep =>
        { ep with tds := [], tdTail := none, halted := false, ioReqList := [] }) f :=
      (hu f).congr (Function.update_of_ne hf _ _) rfl rfl rfl
    exact hother.of_requeued (removeEndpointFromQueue_requeued e _).1 hf

theorem waits_invariant : (core size).Invariant Unhalted fun s => ∀ e, Waits s e where
  init := by
    intro s h e
    obtain ⟨hdev, -, -, hlist, hqueue⟩ := h.ep e
    have hhist : s.history e = [] := by
      unfold Core.history
      rw [h.sent e, hlist]
      rfl
    have hnot : (s.ep e).device ≠ true := by
      intro hd
      rw [hdev] at hd
      cases hd
    constructor
    · exact fun hd => absurd hd hnot
    · exact fun hd => absurd hd hnot
    · exact fun hd => absurd hd hnot
    · intro k hk
      rw [hqueue] at hk
      cases hk
    · rw [hhist]
      exact .nil
    · rw [hhist]
      exact List.forall_mem_nil _
  step := by
    intro s a t _ h ok hstep
    cases hstep with
    | attach => exact waits_attach h ok
    | @retire e code td halt rest htds hrun hhalt =>
        intro f
        by_cases hf : f = e
        · subst hf
          have hep : (retired f code halt td rest s).ep f = { s.ep f with tds := rest, halted := halt } :=
            Function.update_self _ _ _
          exact (h f).congr hep rfl rfl rfl
        · exact (h f).congr (Function.update_of_ne hf _ _) rfl rfl rfl
    | interrupt hcb hbatch => exact fun f => Quiet.waits ⟨fun _ => ⟨_, _, rfl⟩, rfl, rfl, rfl⟩ (h f)
    | @process k td rest hcb hbatch =>
        intro f
        have hs : Waits { s with batch := rest } f := Quiet.waits ⟨fun _ => ⟨_, _, rfl⟩, rfl, rfl, rfl⟩ (h f)
        exact (processDoneQueue_quiet k td _).waits hs
    | callback hcb => exact fun f => Quiet.waits ⟨fun _ => ⟨_, _, rfl⟩, rfl, rfl, rfl⟩ (h f)
    | @check k hcb => exact waits_check h fun e rest hqueue => ok k e rest hcb hqueue
    | «open» hdev htail => exact waits_open h
    | remove hdev => exact waits_remove h
    | kill hdev htail hcb hbatch => exact waits_kill h hdev

/-- A turn of an endpoint that is not halted submits the first request that waits, if there
are three descriptors, as many as a request can need. -/
theorem Waits.turn {r : Nat} {rest : List Nat} (h : Waits s e) (hdev : (s.ep e).device = true)
    (hrun : (s.ep e).halted = false) (hlist : (s.ep e).ioReqList = r :: rest)
    (hfree : 3 ≤ (s.free (s.ep e).kind).length) :
    (handleIoReqList e s).sent e = s.sent e ++ [r] := by
  rcases handleIoReqList_setUp e s with ⟨-, hwhy⟩ | ⟨-, hfew⟩ | ⟨r', rest', old, news, tail, free, hl, -, -, hsub⟩
  · rcases hwhy with htail | hempty | hhalt | hskip
    · exact absurd htail (h.tail hdev)
    · rw [hlist] at hempty
      cases hempty
    · rw [hrun] at hhalt
      cases hhalt
    · rw [h.skipped hdev] at hskip
      cases hskip
  · omega
  · rw [hlist] at hl
    cases hl
    rw [hsub]
    rcases leaveIfIdle_cases e (submit (s.ep e).kind e r rest (old :: news) tail free s) with
      ⟨hsame, -⟩ | ⟨hleft, -⟩
    · rw [hsame]
      exact Function.update_self _ _ _
    · rw [hleft, (removeEndpointFromQueue_requeued e _).1.rest]
      exact Function.update_self _ _ _

/-- At any time, and so between two done queues, every endpoint that can be used and has
requests waiting is in its queue. Its turn submits the first of them, and requests are
submitted in the order in which they came. -/
theorem no_stranded_request (h : (core size).Reachable Unhalted s) (e : Nat) :
    ((s.ep e).device = true → (s.ep e).halted = false → (s.ep e).skipped = false →
      (s.ep e).ioReqList ≠ [] → ∃ k, (s.ep e).inTdQueue = some k ∧ k = (s.ep e).kind ∧
        e ∈ s.tdQueue k ∧ (3 ≤ (s.free k).length →
          ∃ r rest, (s.ep e).ioReqList = r :: rest ∧ (handleIoReqList e s).sent e = s.sent e ++ [r])) ∧
      (s.sent e ++ (s.ep e).ioReqList).Pairwise (· < ·) := by
  have hw := waits_invariant.holds h e
  refine ⟨fun hdev hrun _ hne => ?_, hw.order⟩
  cases hq : (s.ep e).inTdQueue with
  | none => exact absurd hq (hw.queued hdev hne)
  | some k =>
      obtain ⟨hk, hmem⟩ := hw.linked k hq
      refine ⟨k, rfl, hk, hmem, fun hfree => ?_⟩
      obtain ⟨r, rest, hlist⟩ := List.exists_cons_of_ne_nil hne
      exact ⟨r, rest, hlist, hw.turn hdev hrun hlist (hk ▸ hfree)⟩

/-! ## A bulk endpoint -/

def closedEp : Endpoint := ⟨.control, false, none, [], false, false, [], none⟩

/-- All descriptors of both pools are free. -/
def initCore (size : TdKind → Nat) : Core where
  ep _ := closedEp
  req _ := ⟨0, false, usbRcOk⟩
  submissions := 0
  free k := List.range (size k)
  lut _ _ := none
  td _ _ := ⟨false, 0⟩
  tdQueue _ := []
  doneHead := []
  batch := []
  callbacks := none
  sent _ := []
  called := []

theorem initCore_initialised : Initialised size (initCore size) :=
  ⟨fun _ => ⟨rfl, rfl, rfl, rfl, rfl⟩, fun _ => rfl, fun _ _ => rfl, fun _ => rfl, ⟨rfl, rfl, rfl⟩, rfl,
    fun _ => rfl⟩

/-- A request is under way on endpoint 0; the sizes of the pools say whether another can be. -/
def bulkBusy (size : TdKind → Nat) : Core :=
  attachIoReqToEndpoint 0 true (openDeviceEndpoint 0 .bulk (initCore size))

theorem bulkBusy_reachable : (core size).Reachable (fun _ _ => True) (bulkBusy size) := by
  have hopen : CoreStep size (initCore size) (.open 0 .bulk) (openDeviceEndpoint 0 .bulk (initCore size)) :=
    .open rfl rfl
  have hattach : CoreStep size _ (.attach 0 true) (bulkBusy size) := .attach
  exact ((System.Reachable.init initCore_initialised).next trivial hopen).next trivial hattach

theorem no_stranded_request_bulk :
    ((attachIoReqToEndpoint 0 true (bulkBusy fun _ => 2)).ep 0).ioReqList = [1] ∧
      0 ∈ (attachIoReqToEndpoint 0 true (bulkBusy fun _ => 2)).tdQueue .general := by
  have hopen : CoreStep (fun _ => 2) (initCore fun _ => 2) (.open 0 .bulk)
      (openDeviceEndpoint 0 .bulk (initCore fun _ => 2)) := .open rfl rfl
  have hattach : CoreStep (fun _ => 2) _ (.attach 0 true) (bulkBusy fun _ => 2) := .attach
  have hagain : CoreStep (fun _ => 2) _ (.attach 0 true)
      (attachIoReqToEndpoint 0 true (bulkBusy fun _ => 2)) := .attach
  have hfirst : Unhalted (openDeviceEndpoint 0 .bulk (initCore fun _ => 2)) (.attach 0 true) :=
    fun _ => by decide
  have hnext : Unhalted (bulkBusy fun _ => 2) (.attach 0 true) := fun _ => by decide
  have hstart : (core fun _ => 2).Reachable Unhalted (openDeviceEndpoint 0 .bulk (initCore fun _ => 2)) :=
    (System.Reachable.init initCore_initialised).next (show Unhalted _ (.open 0 .bulk) from trivial) hopen
  have hreach := hstart.next hfirst hattach
  obtain ⟨k, hk, -, hmem, -⟩ := (no_stranded_request (hreach.next hnext hagain) 0).1
    (by decide) (by decide) (by decide) (by decide)
  have hgeneral : some TdKind.general = some k := hk ▸ by decide
  cases hgeneral
  exact ⟨by decide, hmem⟩

/-- The first request fails and halts the endpoint; before the failure is processed a second
one is made. It is not submitted then, and nothing will submit it after the halt has been
cleared. -/
theorem request_stranded : ∃ s, (core fun _ => 4).Reachable (fun _ _ => True) s ∧
    s.callbacks = none ∧ s.batch = [] ∧ (s.ep 0).device = true ∧ (s.ep 0).halted = false ∧
    (s.ep 0).skipped = false ∧ (s.ep 0).ioReqList = [1] ∧ (s.ep 0).inTdQueue = none := by
  let failed := retired 0 4 true 0 [] (bulkBusy fun _ => 4)
  let second := attachIoReqToEndpoint 0 true failed
  let taken : Core := { second with batch := second.doneHead.reverse, doneHead := [] }
  let processed := processDoneQueue .general 0 { taken with batch := [] }
  let called := runCallback .general 0 [] processed
  have hfail : CoreStep (fun _ => 4) (bulkBusy fun _ => 4) (.retire 0 4 true) failed :=
    .retire (by decide) (by decide) (by decide)
  have hsecond : CoreStep (fun _ => 4) failed (.attach 0 true) second := .attach
  have hintr : CoreStep (fun _ => 4) second .interrupt taken := .interrupt (by decide) (by decide)
  have hprocess : CoreStep (fun _ => 4) taken .process processed := .process (by decide) (by decide)
  have hcall : CoreStep (fun _ => 4) processed .callback called := .callback (by decide)
  have hcheck : CoreStep (fun _ => 4) called .check (checkTdQueue .general { called with callbacks := none }) :=
    .check (by decide)
  refine ⟨checkTdQueue .general { called with callbacks := none }, ?_, by decide⟩
  exact (((((bulkBusy_reachable.next trivial hfail).next trivial hsecond).next trivial hintr).next trivial
    hprocess).next trivial hcall).next trivial hcheck

end BdmAssault.Hcd
