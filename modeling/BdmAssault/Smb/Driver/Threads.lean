import BdmAssault.Smb.Driver.Reconnect

/-! # Callers at the same time

An operation on a path checks the session and writes its path to a buffer that all callers
share; then it waits for the IO lock. Other callers can run in between.
-/

namespace BdmAssault.Smb.Driver

open Lib

/-! ## Operations on paths -/

inductive PathOp where
  | openFile (filename : Name) (mode : OpenMode)
  | remove (filename : Name)
  | mkdir (dirname : Name)
  | rmdir (dirname : Name)
  | dopen (dirname : Name)
  | getstat (filename : Name)
  | rename (oldname newname : Name)
  | chdir (dirname : Name)
deriving DecidableEq, Repr

def PathOp.op : PathOp → Op
  | .openFile filename mode => .openFile filename mode
  | .remove filename => .remove filename
  | .mkdir dirname => .mkdir dirname
  | .rmdir dirname => .rmdir dirname
  | .dopen dirname => .dopen dirname
  | .getstat filename => .getstat filename
  | .rename oldname newname => .rename oldname newname
  | .chdir dirname => .chdir dirname

/-- The name whose path goes to `smb_curpath`. -/
def PathOp.name : PathOp → Name
  | .openFile filename _ => filename
  | .remove filename => filename
  | .mkdir dirname => dirname
  | .rmdir dirname => dirname
  | .dopen dirname => dirname
  | .getstat filename => filename
  | .rename oldname _ => oldname
  | .chdir dirname => dirname

/-- The name whose path goes to `smb_secpath`. -/
def PathOp.newname : PathOp → Option Name
  | .rename _ newname => some newname
  | _ => none

/-- What an operation does under the lock, with what is in the two buffers. -/
def PathOp.locked (curpath secpath : Name) : PathOp → Call (Option Nat)
  | .openFile _ mode => some <$> smbOpenLocked mode curpath
  | .dopen _ => some <$> smbDopenLocked curpath
  | .remove _ => do smbRemoveLocked curpath; return none
  | .mkdir _ => do smbMkdirLocked curpath; return none
  | .rmdir _ => do smbRmdirLocked curpath; return none
  | .getstat _ => do smbGetstatLocked curpath; return none
  | .rename _ _ => do smbRenameLocked curpath secpath; return none
  | .chdir _ => do smbChdirLocked curpath; return none

def Op.isPath : Op → Bool
  | .openFile _ _ => true
  | .remove _ => true
  | .mkdir _ => true
  | .rmdir _ => true
  | .dopen _ => true
  | .getstat _ => true
  | .rename _ _ => true
  | .chdir _ => true
  | _ => false

/-! ## Threads -/

/-- A call between its check of the session and its lock. `path` and `newpath` are what its
names stood for when it was made; `disturbed` says that since then another call has written
a path, or the session was not left alone. -/
structure Waiting where
  op : PathOp
  path : Name
  newpath : Option Name
  disturbed : Bool
deriving DecidableEq, Repr

/-- `sent` are the requests of the operations on paths, each with the call it was sent for. -/
structure Threads where
  host : Host
  free : Bool
  curpath : Name
  secpath : Name
  waiting : Nat → Option Waiting
  sent : List (Waiting × Event)

inductive Move where
  | check (thread : Nat) (op : PathOp)
  | lock (thread : Nat) (answers : List Got) (connects : List Bool)
  | other (turn : Turn)

/-- The check of the session and `prepare_path`; without a session the call returns. -/
def Threads.check (w : Threads) (thread : Nat) (op : PathOp) : Threads :=
  if w.host.state.session.noTree then w
  else
    let curdir := w.host.state.curdir
    { w with
      curpath := preparePath curdir op.name
      secpath := (op.newname.map (preparePath curdir)).getD w.secpath
      waiting := fun i =>
        if i = thread then some ⟨op, resolve curdir op.name, op.newname.map (resolve curdir), false⟩
        else (w.waiting i).map fun p => { p with disturbed := true } }

/-- The call of `thread` under the lock, to its end or to where the network has no answer. -/
def Threads.lock (w : Threads) (thread : Nat) (p : Waiting) (answers : List Got)
    (connects : List Bool) : Threads :=
  let run := (p.op.locked w.curpath w.secpath).run.exec serve ⟨w.host, answers, connects⟩
  let events := run.2.host.trace.take (run.2.host.trace.length - w.host.trace.length)
  { w with
    host := run.2.host
    free := run.1.isSome
    waiting := fun i => if i = thread then none else w.waiting i
    sent := events.map (fun e => (p, e)) ++ w.sent }

/-- A session request, or a reconnect that opens no share. -/
def disturbs (s : Host) (op : Op) : Bool :=
  op.manages || (op.reconnects && !s.state.session.openshareValid)

def Threads.other (w : Threads) (t : Turn) : Threads :=
  { w with
    host := w.host.after t
    free := (w.host.result t).isSome
    waiting := fun i => (w.waiting i).map fun p =>
      { p with disturbed := p.disturbed || disturbs w.host t.op } }

/-- Any number of threads on a driver in any state. -/
def threads : System Threads Move where
  init w := (∀ i, w.waiting i = none) ∧ w.sent = []
  step w move w' :=
    match move with
    | .check thread op => w.waiting thread = none ∧ w' = w.check thread op
    | .lock thread answers connects =>
        w.free = true ∧ ∃ p, w.waiting thread = some p ∧ w' = w.lock thread p answers connects
    | .other t => w.free = true ∧ t.op.isPath = false ∧ w' = w.other t

theorem withPath_exec {α β : Type} {name : Name} {locked : Name → Call α} {f : α → Call β} {n : Net}
    (htree : n.host.state.session.noTree = false) : (withPath name locked >>= f).run.exec serve n =
      (locked (preparePath n.host.state.curdir name) >>= f).run.exec serve n := by
  have hget : (withPath name locked >>= f).run.exec serve n =
      ((if n.host.state.session.noTree then throw .enotconn
        else locked (preparePath n.host.state.curdir name)) >>= f).run.exec serve n := rfl
  rw [hget, if_neg (Bool.eq_false_iff.mp htree)]

/-- A call that takes the lock at once is the operation. -/
theorem check_lock_host {w : Threads} {thread : Nat} {p : Waiting}
    (htree : w.host.state.session.noTree = false) (rounds : Nat) (answers : List Got)
    (connects : List Bool) : ((w.check thread p.op).lock thread p answers connects).host =
      w.host.after ⟨p.op.op, rounds, answers, connects⟩ := by
  have hcall : ∀ {α β : Type} {name : Name} {locked : Name → Call α} {f : α → Call β},
      ((withPath name locked >>= f).run.exec serve ⟨w.host, answers, connects⟩).2.host =
        ((locked (preparePath w.host.state.curdir name) >>= f).run.exec serve
          ⟨w.host, answers, connects⟩).2.host := by
    intro α β name locked f
    rw [withPath_exec (n := ⟨w.host, answers, connects⟩) htree]
  have hcheck : (w.check thread p.op).host = w.host ∧
      (w.check thread p.op).curpath = preparePath w.host.state.curdir p.op.name ∧
      (w.check thread p.op).secpath =
        (p.op.newname.map (preparePath w.host.state.curdir)).getD w.secpath := by
    unfold Threads.check
    rw [if_neg (Bool.eq_false_iff.mp htree)]
    exact ⟨rfl, rfl, rfl⟩
  show ((p.op.locked (w.check thread p.op).curpath (w.check thread p.op).secpath).run.exec serve
    ⟨(w.check thread p.op).host, answers, connects⟩).2.host = _
  rw [hcheck.1, hcheck.2.1, hcheck.2.2]
  cases p.op with
  | openFile filename mode => exact hcall.symm
  | dopen dirname => exact hcall.symm
  | remove filename => exact hcall.symm
  | mkdir dirname => exact hcall.symm
  | rmdir dirname => exact hcall.symm
  | getstat filename => exact hcall.symm
  | rename oldname newname =>
      refine Eq.trans ?_ hcall.symm
      rfl
  | chdir dirname => exact hcall.symm

/-! ## Requests -/

/-- A request on these paths under a session and a tree. -/
def Carries (path : Name) (newpath : Option Name) : Request → Prop
  | .openFile uid tid path' _ => uid ≠ none ∧ tid ≠ none ∧ path' = path
  | .ntCreate uid tid path' _ => uid ≠ none ∧ tid ≠ none ∧ path' = path
  | .queryPathInformation uid tid path' _ => uid ≠ none ∧ tid ≠ none ∧ path' = path
  | .delete uid tid path' => uid ≠ none ∧ tid ≠ none ∧ path' = path
  | .manageDirectory uid tid path' _ => uid ≠ none ∧ tid ≠ none ∧ path' = path
  | .rename uid tid oldPath newPath' =>
      uid ≠ none ∧ tid ≠ none ∧ oldPath = path ∧ some newPath' = newpath
  | _ => False

/-- Every request on a path is sent for its own caller. -/
def Isolated (w : Threads) : Prop := ∀ m ∈ w.sent, m.2.Sends (Carries m.1.path m.1.newpath)

/-- The paths fit in the buffers, and nothing has disturbed a call that takes the lock. -/
def Alone (w : Threads) : Move → Prop
  | .check _ op => (resolve w.host.state.curdir op.name).length < 1022 ∧
      ∀ newname, op.newname = some newname → (resolve w.host.state.curdir newname).length < 1022
  | .lock thread _ _ => ∀ p, w.waiting thread = some p → p.disturbed = false
  | .other _ => True

/-! ## Under the lock -/

/-- Steps inside the session whose requests are on these paths. -/
def Carried (path : Name) (newpath : Option Name) (s s' : Host) : Prop :=
  Linked s s' ∧ ∃ events, s'.trace = events ++ s.trace ∧ ∀ e ∈ events, e.Sends (Carries path newpath)

section Locked

variable {α : Type} {s : Host} {path : Name} {newpath : Option Name}

theorem carried_refl (s : Host) : Carried path newpath s s :=
  ⟨Linked.refl s, [], rfl, List.forall_mem_nil _⟩

theorem Carried.trans {s' s'' : Host} (h : Carried path newpath s s')
    (h' : Carried path newpath s' s'') : Carried path newpath s s'' := by
  obtain ⟨hl, events, htrace, hsends⟩ := h
  obtain ⟨hl', events', htrace', hsends'⟩ := h'
  refine ⟨hl.trans hl', events' ++ events, ?_, fun e he => ?_⟩
  · rw [htrace', htrace, List.append_assoc]
  · exact (List.mem_append.mp he).elim (hsends' e) (hsends e)

/-- The run of a call under the lock, along its way and at its end. -/
def Sends (path : Name) (newpath : Option Name) (s : Host) (m : Call α) : Prop :=
  Ensures (fun _ => True) (Carried path newpath s) s m fun _ s' => Carried path newpath s s'

theorem sends_uses {m : Call α} (hm : m.Uses (Within (Carries path newpath) KeepsSession)) :
    Sends path newpath s m := by
  refine ensures_within carried_refl (fun _ _ _ => Carried.trans) ?_ ?_ (fun _ h => h) hm
  · intro s caller request got hrequest _
    have hsends : ∀ e ∈ [Event.exchange caller request got], e.Sends (Carries path newpath) := by
      exact List.forall_mem_singleton.mpr hrequest
    exact ⟨linked_extend fun e he => (hsends e he).isExchange, _, rfl, hsends⟩
  · intro s g hg
    exact ⟨linked_modify hg, [], rfl, List.forall_mem_nil _⟩

theorem Sends.discard {m : Call α} {f : α → Option Nat} (hm : Sends path newpath s m) :
    Sends path newpath s (m >>= fun a => (pure (f a) : Call (Option Nat))) :=
  Ensures.discard hm

theorem sends_getSession {f : Session → Call α} (hf : Sends path newpath s (f s.state.session)) :
    Sends path newpath s (getSession >>= f) := Ensures.getSession (carried_refl s) hf

theorem sends_getState {f : State → Call α} (hf : Sends path newpath s (f s.state)) :
    Sends path newpath s (getState >>= f) := Ensures.get (carried_refl s) hf

theorem noTree_ids {x : Session} (h : x.noTree = false) : x.uid ≠ none ∧ x.tid ≠ none := by
  unfold Session.noTree at h
  rw [Bool.or_eq_false_iff] at h
  refine ⟨fun huid => ?_, fun htid => ?_⟩
  · rw [huid] at h
    cases h.1
  · rw [htid] at h
    cases h.2

/-- What is in the buffers goes to the server. -/
theorem PathOp.locked_sends {secpath : Name} (htree : s.state.session.noTree = false) (op : PathOp)
    (hsecond : op.newname ≠ none → newpath = some secpath) :
    Sends path newpath s (op.locked path secpath) := by
  obtain ⟨huid, htid⟩ := noTree_ids htree
  have hquery : ∀ {K : (State → State) → Prop}, (smbQueryPathInformation .operation s.state.session.uid
      s.state.session.tid path).Uses (Within (Carries path newpath) K) :=
    smbQueryPathInformation_uses fun _ => ⟨huid, htid, rfl⟩
  cases op with
  | openFile filename mode =>
      refine Sends.discard (sends_getState ?_)
      split
      · exact sends_uses (Fallible.uses_throw _)
      · refine sends_uses ((readAheadInvalidate_uses _).bind fun _ => ?_)
        refine (smbOpenAndX_uses ⟨huid, htid, rfl⟩ ⟨huid, htid, rfl⟩ fun _ => ⟨huid, htid, rfl⟩).bind
          fun r => ?_
        exact (modifyHandle_uses _ _).bind fun _ => Fallible.uses_pure _
  | dopen dirname =>
      refine Sends.discard (sends_getState (sends_uses (hquery.bind fun info => ?_)))
      refine Fallible.uses_ite (getState_uses.bind fun s => ?_) (Fallible.uses_throw _)
      split
      · exact Fallible.uses_throw _
      · exact (modifyHandle_uses _ _).bind fun _ => Fallible.uses_pure _
  | remove filename =>
      refine Sends.discard (sends_getSession (sends_uses (Fallible.Uses.bind ?_ fun _ =>
        readAheadInvalidate_uses _)))
      exact (requestReply_uses ⟨huid, htid, rfl⟩).bind checkSuccess_uses
  | mkdir dirname =>
      refine Sends.discard (sends_getSession (sends_uses ?_))
      exact (requestReply_uses ⟨huid, htid, rfl⟩).bind checkStatus_uses
  | rmdir dirname =>
      refine Sends.discard (sends_getSession (sends_uses (hquery.bind fun info => ?_)))
      refine Fallible.uses_ite ?_ (Fallible.uses_throw _)
      exact (requestReply_uses ⟨huid, htid, rfl⟩).bind checkStatus_uses
  | getstat filename =>
      exact Sends.discard (sends_getSession (sends_uses (hquery.bind fun _ => Fallible.uses_pure _)))
  | rename oldname newname =>
      refine Sends.discard (sends_getSession (sends_uses (Fallible.Uses.bind ?_ fun _ =>
        readAheadInvalidate_uses _)))
      exact (requestReply_uses ⟨huid, htid, rfl, (hsecond nofun).symm⟩).bind checkStatus_uses
  | chdir dirname =>
      refine Sends.discard ?_
      unfold smbChdirLocked
      split
      · exact sends_uses (modifyState_uses fun _ => rfl)
      · split
        · exact sends_uses (modifyState_uses fun _ => rfl)
        · refine sends_getSession (sends_uses (hquery.bind fun info => ?_))
          exact Fallible.uses_ite (modifyState_uses fun _ => rfl) (Fallible.uses_throw _)

end Locked

/-! ## Other operations -/

/-- A tree that a reconnect opens again. -/
structure Treed (s : Host) : Prop where
  tree : s.state.session.noTree = false
  share : s.state.session.openshareValid = true

section Other

variable {s : Host}

theorem smbReconnectUntilReady_treed (h : Treed s) (rounds : Nat) :
    Always s (smbReconnectUntilReady rounds) fun _ s' => Treed s' := by
  cases hlogon : s.state.session.logonValid with
  | true =>
      have hshared : Shared s.state.session s := ⟨h.share, rfl, rfl⟩
      refine ((smbReconnectUntilReady_reconnected hshared rounds).and
        (smbReconnectUntilReady_ok hshared hlogon rounds)).mono ?_
      rintro _ s' ⟨⟨hshared', hdone⟩, hok⟩
      obtain ⟨uid, tid, huid, htid⟩ := (hdone hok).1.session
      refine ⟨?_, hshared'.valid⟩
      rw [Session.noTree, huid, htid]
      rfl
  | false =>
      refine (smbReconnectUntilReady_refused hlogon (fun _ => trivial) rounds).mono ?_
      rintro _ _ rfl
      exact ⟨h.tree, h.share⟩

theorem Treed.linked {s' : Host} (h : Treed s) (hl : Linked s s') : Treed s' :=
  ⟨by rw [hl.session, h.tree], by rw [hl.session, h.share]⟩

theorem steady_treed : Steady (fun _ => True) Treed Treed where
  weaken _ h := h
  stay _ _ h hl := h.linked hl
  linked _ _ h hl := h.linked hl
  tree _ h _ := h
  unlocked _ h _ := h
  reconnect _ rounds h := smbReconnectUntilReady_treed h rounds

theorem undisturbed_tree {op : Op} (htree : s.state.session.noTree = false)
    (h : disturbs s op = false) (rounds : Nat) :
    Always s (op.call rounds) fun _ s' => s'.state.session.noTree = false := by
  obtain ⟨hmanages, hreconnects⟩ := Bool.or_eq_false_iff.mp h
  rcases Bool.and_eq_false_iff.mp hreconnects with hlocal | hshare
  · exact (call_linked hmanages hlocal rounds).mono fun _ s' hl => by rw [hl.session, htree]
  · have hvalid : s.state.session.openshareValid = true := by simpa using hshare
    exact (steady_treed.call ⟨htree, hvalid⟩ rounds hmanages).mono fun _ _ h' => h'.tree

end Other

/-! ## Runs -/

/-- The buffers hold the paths of a call, and there are a session and a tree. -/
structure Ready (w : Threads) (p : Waiting) : Prop where
  path : w.curpath = p.path
  newpath : p.op.newname ≠ none → p.newpath = some w.secpath
  tree : w.host.state.session.noTree = false

structure Orderliness (w : Threads) : Prop where
  isolated : Isolated w
  ready : w.free = true → ∀ i p, w.waiting i = some p → p.disturbed = false → Ready w p

section Runs

variable {w : Threads}

theorem check_orderly (h : Orderliness w) {thread : Nat} {op : PathOp} (hfits : Alone w (.check thread op)) :
    Orderliness (w.check thread op) := by
  unfold Threads.check
  split
  · exact h
  · rename_i htree
    refine ⟨h.isolated, fun _ i p hp hdisturbed => ?_⟩
    dsimp only at hp
    split at hp
    · cases hp
      refine ⟨preparePath_eq_resolve hfits.1, fun hnew => ?_, Bool.eq_false_iff.mpr htree⟩
      obtain ⟨newname, hnewname⟩ := Option.ne_none_iff_exists'.mp hnew
      show op.newname.map _ = some ((op.newname.map _).getD _)
      rw [hnewname, Option.map_some, Option.map_some, Option.getD_some,
        preparePath_eq_resolve (hfits.2 newname hnewname)]
    · obtain ⟨q, -, rfl⟩ := Option.map_eq_some_iff.mp hp
      cases hdisturbed

theorem lock_orderly (h : Orderliness w) (hfree : w.free = true) {thread : Nat} {p : Waiting}
    (hp : w.waiting thread = some p) (hdisturbed : p.disturbed = false) (answers : List Got)
    (connects : List Bool) : Orderliness (w.lock thread p answers connects) := by
  have hready := h.ready hfree thread p hp hdisturbed
  have hlocked : Sends w.curpath p.newpath w.host (p.op.locked w.curpath w.secpath) :=
    p.op.locked_sends hready.tree hready.newpath
  have hrun := hlocked.exec (n := ⟨w.host, answers, connects⟩) (carried_refl _) fun _ _ => trivial
  obtain ⟨⟨hl, events, htrace, hsends⟩, -⟩ := hrun
  refine ⟨fun m hm => ?_, fun _ i q hq hq' => ?_⟩
  · rcases List.mem_append.mp hm with hm | hm
    · obtain ⟨e, he, rfl⟩ := List.mem_map.mp hm
      rw [htrace, List.length_append, Nat.add_sub_cancel, List.take_left] at he
      rw [← hready.path]
      exact hsends e he
    · exact h.isolated m hm
  · replace hq : (if i = thread then none else w.waiting i) = some q := hq
    split at hq
    · cases hq
    · have hother := h.ready hfree i q hq hq'
      refine ⟨hother.path, hother.newpath, ?_⟩
      rw [← hother.tree]
      exact congrArg Session.noTree hl.session

theorem other_orderly (h : Orderliness w) (hfree : w.free = true) (t : Turn) :
    Orderliness (w.other t) := by
  refine ⟨h.isolated, fun hfree' i q hq hq' => ?_⟩
  obtain ⟨p, hp, rfl⟩ := Option.map_eq_some_iff.mp hq
  obtain ⟨hdisturbed, hquiet⟩ := Bool.or_eq_false_iff.mp hq'
  have hready := h.ready hfree i p hp hdisturbed
  obtain ⟨r, hr⟩ := Option.isSome_iff_exists.mp hfree'
  have hturn := (undisturbed_tree hready.tree hquiet t.rounds).turn (t := t) trivial
    (fun _ _ => trivial) fun _ _ => trivial
  exact ⟨hready.path, hready.newpath, hturn.2.2 r hr⟩

theorem threads_invariant : threads.Invariant Alone Orderliness where
  init := by
    rintro w ⟨hwaiting, hsent⟩
    refine ⟨fun m hm => ?_, fun _ i p hp => ?_⟩
    · rw [hsent] at hm
      exact absurd hm List.not_mem_nil
    · cases (hwaiting i).symm.trans hp
  step := by
    intro w move w' _ h hok hstep
    cases move with
    | check thread op =>
        obtain ⟨-, rfl⟩ := hstep
        exact check_orderly h hok
    | lock thread answers connects =>
        obtain ⟨hfree, p, hp, rfl⟩ := hstep
        exact lock_orderly h hfree hp (hok p hp) answers connects
    | other t =>
        obtain ⟨hfree, -, rfl⟩ := hstep
        exact other_orderly h hfree t

/-- As long as nothing disturbs a call on its way to the lock, requests are sent for their
own callers. -/
theorem paths_isolated (h : threads.Reachable Alone w) : Isolated w :=
  (threads_invariant.holds h).isolated

end Runs

section Steps

variable {w : Threads} {ok : Threads → Move → Prop} {thread : Nat}

theorem reachable_check (h : threads.Reachable ok w) {op : PathOp} (hok : ok w (.check thread op))
    (hidle : w.waiting thread = none) : threads.Reachable ok (w.check thread op) :=
  h.next hok ⟨hidle, rfl⟩

theorem reachable_lock (h : threads.Reachable ok w) {answers : List Got} {connects : List Bool}
    (hok : ok w (.lock thread answers connects)) (hfree : w.free = true) {p : Waiting}
    (hp : w.waiting thread = some p) : threads.Reachable ok (w.lock thread p answers connects) :=
  h.next hok ⟨hfree, p, hp, rfl⟩

end Steps

/-- A share is open and no call is under way. -/
def idle : Threads := ⟨sharing.host, true, [], [], fun _ => none, []⟩

theorem idle_reachable {ok : Threads → Move → Prop} : threads.Reachable ok idle :=
  .init ⟨fun _ => rfl, rfl⟩

/-- `smb_remove` by thread 0. -/
def removing : Waiting := ⟨.remove fileName, [backslash, 0x66], none, false⟩

def removed : Threads := (idle.check 0 removing.op).lock 0 removing [.reply granted] []

theorem paths_isolated_removed : removed.sent.length = 1 ∧ Isolated removed := by
  have hfits : Alone idle (.check 0 removing.op) := ⟨by decide +kernel, nofun⟩
  have hwaiting : (idle.check 0 removing.op).waiting 0 = some removing := by decide +kernel
  have hquiet : Alone (idle.check 0 removing.op) (.lock 0 [.reply granted] []) := by
    intro p hp
    cases hwaiting.symm.trans hp
    rfl
  refine ⟨by decide +kernel, paths_isolated ?_⟩
  exact reachable_lock (reachable_check idle_reachable hfits rfl) hquiet (by decide +kernel) hwaiting

/-- Thread 1 writes the path of another file before thread 0 has the lock. -/
def overtaken : Threads := (idle.check 0 removing.op).check 1 (.remove [0x67])

def overtakenCall : Waiting := { removing with disturbed := true }

def removedOther : Threads := overtaken.lock 0 overtakenCall [.reply granted] []

theorem other_file_removed :
    threads.Reachable (fun _ _ => True) removedOther ∧
      removedOther.sent = [(overtakenCall, .exchange .operation
        (.delete (some 1) (some 1) [backslash, 0x67]) (.reply granted))] ∧
      ¬ Isolated removedOther := by
  have hsent : removedOther.sent = [(overtakenCall, .exchange .operation
      (.delete (some 1) (some 1) [backslash, 0x67]) (.reply granted))] := by decide +kernel
  refine ⟨?_, hsent, fun h => ?_⟩
  · refine reachable_lock (reachable_check (reachable_check idle_reachable trivial rfl) trivial ?_) trivial ?_ ?_
    · decide +kernel
    · decide +kernel
    · decide +kernel
  · have hcarries := h _ (hsent ▸ List.mem_singleton_self _)
    have hpath : ([backslash, 0x67] : Name) = [backslash, 0x66] := hcarries.2.2
    exact absurd hpath (by decide)

end BdmAssault.Smb.Driver
