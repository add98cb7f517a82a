import Mathlib.Data.List.GetD
import Mathlib.Data.List.Perm.Subperm
import Mathlib.Data.List.ReduceOption
import BdmAssault.Smb.Driver.Reconnect

/-! # Identifiers of files and searches

Two requests give out identifiers, and both kinds are kept in one field of a handle. They
end with their tree, their session and their connection.
-/

namespace BdmAssault.Smb.Driver

open Lib

/-! ## What the server has given out -/

inductive Kind where
  | file | search
deriving DecidableEq, Repr

structure Ident where
  uid : Option Nat
  tid : Option Nat
  kind : Kind
  value : Nat
deriving DecidableEq, Repr

/-- The identifier that an event gives out, by the packet that was taken for the reply (see
`Issued`); a search that is over before its first entry gives out none. -/
def Event.issues : Event → Option Ident
  | .exchange _ (.openFile uid tid _ _) got => got.granted.map fun r => ⟨uid, tid, .file, r.fid⟩
  | .exchange _ (.ntCreate uid tid _ _) got => got.granted.map fun r => ⟨uid, tid, .file, r.fid⟩
  | .exchange _ (.find uid tid none _) got =>
      got.granted.bind fun r => if r.searchCount = 0 ∧ r.endOfSearch then none else some ⟨uid, tid, .search, r.searchId⟩
  | _ => none

/-- What an event leaves of the identifiers. A new session or tree has none yet, whatever its
number was used for before, and a CLOSE takes back one. -/
def Event.leaves : Event → List Ident → List Ident
  | .exchange _ (.sessionSetup _ _) got, ids =>
      match got.granted with
      | some r => ids.filter fun i => i.uid ≠ some r.uid
      | none => ids
  | .exchange _ (.treeConnect uid _ _) got, ids =>
      match got.granted with
      | some r => ids.filter fun i => ¬ (i.uid = uid ∧ i.tid = some r.tid)
      | none => ids
  | .exchange _ (.treeDisconnect uid tid) got, ids =>
      if got.granted.isSome then ids.filter fun i => ¬ (i.uid = uid ∧ i.tid = tid) else ids
  | .exchange _ (.logOff uid) got, ids =>
      if got.granted.isSome then ids.filter fun i => i.uid ≠ uid else ids
  | .exchange caller (.close uid tid (some fid)) got, ids =>
      if (Event.exchange caller (.close uid tid (some fid)) got).closes then
        ids.erase ⟨uid, tid, .file, fid⟩
      else ids
  | .connect _, _ => []
  | .disconnect, _ => []
  | _, ids => ids

/-- The identifiers that were given out and not taken back yet by a request. -/
def live : List Event → List Ident
  | [] => []
  | e :: trace => e.issues.toList ++ e.leaves (live trace)

/-- The search that the server closes with its answer: every request has `CLOSE_SEARCH_IF_EOS`. -/
def Event.ends : Event → Option Ident
  | .exchange _ (.find uid tid (some sid) _) got =>
      if got.granted.any (·.endOfSearch) then some ⟨uid, tid, .search, sid⟩ else none
  | .exchange caller (.find uid tid none pattern) got =>
      if got.granted.any (·.endOfSearch) then (Event.exchange caller (.find uid tid none pattern) got).issues else none
  | _ => none

/-- The identifiers that were given out and not closed yet, by a request or by the server. -/
def unclosed : List Event → List Ident
  | [] => []
  | e :: trace => (e.issues.toList ++ e.leaves (unclosed trace)).diff e.ends.toList

/-- Reads and writes are under an identifier in `ids`, and a CLOSE is under one of a file. -/
def Event.Under (ids : List Ident) : Event → Prop
  | .exchange _ (.read uid tid (some fid) _ _) _ => ∃ kind, (⟨uid, tid, kind, fid⟩ : Ident) ∈ ids
  | .exchange _ (.write uid tid (some fid) _ _) _ => ∃ kind, (⟨uid, tid, kind, fid⟩ : Ident) ∈ ids
  | .exchange _ (.close uid tid (some fid)) _ => (⟨uid, tid, .file, fid⟩ : Ident) ∈ ids
  | _ => True

/-- Every request was under an identifier that no request had taken back. -/
def Lawful : List Event → Prop
  | [] => True
  | e :: trace => e.Under (live trace) ∧ Lawful trace

/-- Every request was under an identifier that was not closed. -/
def Timely : List Event → Prop
  | [] => True
  | e :: trace => e.Under (unclosed trace) ∧ Timely trace

/-- Every handle with an identifier has one of the current session and tree. -/
def Held (s : Host) : Prop :=
  ∀ fh fid, (s.state.handle fh).used = true → (s.state.handle fh).fid = some fid →
    s.state.session.noTree = false ∧
      ∃ kind, (⟨s.state.session.uid, s.state.session.tid, kind, fid⟩ : Ident) ∈ unclosed s.trace

/-! ## Requests -/

/-- Requests that take no identifier back. -/
def Request.lasting : Request → Bool
  | .sessionSetup _ _ => false
  | .treeConnect _ _ _ => false
  | .treeDisconnect _ _ => false
  | .logOff _ => false
  | .close _ _ _ => false
  | _ => true

section Requests

variable {P : Request → Prop} {e : Event} {ids ids' : List Ident} {events trace : List Event}

theorem leaves_lasting (h : e.Sends fun r => r.lasting = true) : e.leaves ids = ids := by
  cases e with
  | exchange caller request got =>
      cases request with
      | find uid tid sid pattern => cases sid <;> rfl
      | sessionSetup _ _ => cases h
      | treeConnect _ _ _ => cases h
      | treeDisconnect _ _ => cases h
      | logOff _ => cases h
      | close _ _ _ => cases h
      | _ => rfl
  | connect _ => exact h.elim
  | disconnect => exact h.elim

/-- As long as no search comes to its end, only requests take identifiers back. -/
theorem unclosed_eq_live (h : ∀ e ∈ trace, e.ends = none) : unclosed trace = live trace := by
  induction trace with
  | nil => rfl
  | cons e trace ih =>
      rw [unclosed, live, h e List.mem_cons_self, ih fun e' he' => h e' (List.mem_cons_of_mem e he')]
      rfl

theorem Lawful.timely (h : Lawful trace) (hopen : ∀ e ∈ trace, e.ends = none) : Timely trace := by
  induction trace with
  | nil => trivial
  | cons e trace ih =>
      have hopen' : ∀ e' ∈ trace, e'.ends = none := fun e' he' => hopen e' (List.mem_cons_of_mem e he')
      refine ⟨?_, ih h.2 hopen'⟩
      rw [unclosed_eq_live hopen']
      exact h.1

theorem Event.Sends.imp {Q : Request → Prop} (h : e.Sends P) (hPQ : ∀ r, P r → Q r) : e.Sends Q := by
  cases e with
  | exchange caller request got => exact hPQ request h
  | connect _ => exact h
  | disconnect => exact h

theorem live_append (h : ∀ e ∈ events, e.Sends fun r => r.lasting = true) :
    live (events ++ trace) = events.filterMap Event.issues ++ live trace := by
  induction events with
  | nil => rfl
  | cons e events ih =>
      have hrest := ih fun e' he' => h e' (List.mem_cons_of_mem e he')
      show e.issues.toList ++ e.leaves (live (events ++ trace)) = _
      rw [leaves_lasting (h e List.mem_cons_self), hrest]
      cases hissues : e.issues with
      | none => rw [List.filterMap_cons_none hissues]; rfl
      | some i => rw [List.filterMap_cons_some hissues]; rfl

theorem under_unbound (h : e.Asks fun r => r.unbound = true) : e.Under ids := by
  cases e with
  | exchange caller request got =>
      cases request with
      | read _ _ _ _ _ => cases h
      | write _ _ _ _ _ => cases h
      | close _ _ _ => cases h
      | _ => trivial
  | connect _ => trivial
  | disconnect => trivial

theorem lawful_unbound (h : ∀ e ∈ events, e.Asks fun r => r.unbound = true) (htrace : Lawful trace) :
    Lawful (events ++ trace) := by
  induction events with
  | nil => exact htrace
  | cons e events ih =>
      refine ⟨under_unbound (h e List.mem_cons_self), ih fun e' he' => ?_⟩
      exact h e' (List.mem_cons_of_mem e he')

theorem Event.Under.mono (h : e.Under ids) (hids : ids ⊆ ids') : e.Under ids' := by
  cases e with
  | exchange caller request got =>
      cases request with
      | read uid tid fid offset nbytes =>
          cases fid with
          | none => trivial
          | some fid =>
              obtain ⟨kind, hmem⟩ := h
              exact ⟨kind, hids hmem⟩
      | write uid tid fid offset data =>
          cases fid with
          | none => trivial
          | some fid =>
              obtain ⟨kind, hmem⟩ := h
              exact ⟨kind, hids hmem⟩
      | close uid tid fid =>
          cases fid with
          | none => trivial
          | some fid => exact hids h
      | _ => trivial
  | connect _ => trivial
  | disconnect => trivial

/-- Requests that take nothing back can be judged by the identifiers before all of them. -/
theorem lawful_append (hlasting : ∀ e ∈ events, e.Sends fun r => r.lasting = true)
    (hunder : ∀ e ∈ events, e.Under (live trace)) (htrace : Lawful trace) : Lawful (events ++ trace) := by
  induction events with
  | nil => exact htrace
  | cons e events ih =>
      have hlasting' : ∀ e' ∈ events, e'.Sends fun r => r.lasting = true :=
        fun e' he' => hlasting e' (List.mem_cons_of_mem e he')
      refine ⟨?_, ih hlasting' fun e' he' => hunder e' (List.mem_cons_of_mem e he')⟩
      show e.Under (live (events ++ trace))
      rw [live_append hlasting']
      exact (hunder e List.mem_cons_self).mono (List.subset_append_right _ _)

end Requests

/-! ## The identifiers in the table -/

section Slots

variable {α : Type} {a : α} {slots : List (Option α)} {fh : Nat}

/-- An empty slot is filled. -/
theorem reduceOption_set_some (h : slots[fh]? = some none) :
    (slots.set fh (some a)).reduceOption.Perm (a :: slots.reduceOption) := by
  induction slots generalizing fh with
  | nil => cases h
  | cons slot slots ih =>
      cases fh with
      | zero =>
          cases h
          exact List.Perm.refl _
      | succ fh =>
          replace ih := @ih fh h
          cases slot with
          | none => exact ih
          | some b => exact (ih.cons b).trans (List.Perm.swap a b _)

/-- A slot is emptied. -/
theorem reduceOption_set_none (h : slots[fh]? = some (some a)) :
    slots.reduceOption.Perm (a :: (slots.set fh none).reduceOption) := by
  obtain ⟨hlt, hget⟩ := List.getElem?_eq_some_iff.mp h
  have hself : slots.set fh (some a) = slots := by
    rw [← hget]
    exact List.set_getElem_self hlt
  have hfilled := reduceOption_set_some (a := a) (List.getElem?_set_self (a := none) hlt)
  rwa [List.set_set, hself] at hfilled

end Slots

/-- What a slot must be for the identifier it is thought to hold. A file always has one. -/
def Matches (x : Session) (h : Handle) : Option Ident → Prop
  | none => h.fid = none ∧ (h.used = true → h.mode.directory = true)
  | some i => h.used = true ∧ h.fid = some i.value ∧ i.uid = x.uid ∧ i.tid = x.tid ∧
      x.noTree = false ∧ (h.mode.directory = false → i.kind = .file)

/-- `ids` are the identifiers in the slots of `D`; each was given out for its slot alone. -/
structure Grips (D : Nat → Prop) (ids : List (Option Ident)) (s : Host) : Prop where
  slots : ∀ fh, D fh → Matches s.state.session (s.state.handle fh) (ids.getD fh none)
  length : ids.length = s.state.handles.length
  issued : ids.reduceOption.Subperm (live s.trace)

structure Tracks (ids : List (Option Ident)) (s : Host) : Prop extends
    Grips (fun _ => True) ids s where
  lawful : Lawful s.trace

def Tracked (s : Host) : Prop := ∃ ids, Tracks ids s

section Tracks

variable {s s' : Host} {ids : List (Option Ident)} {fh : Nat} {events : List Event}

theorem Tracks.holds (h : Tracks ids s) {fid : Nat} (hfid : (s.state.handle fh).fid = some fid) :
    ∃ i, ids[fh]? = some (some i) ∧ i.value = fid ∧ i ∈ live s.trace ∧
      Matches s.state.session (s.state.handle fh) (some i) := by
  have hmatches := h.slots fh trivial
  cases hid : ids.getD fh none with
  | none =>
      rw [hid] at hmatches
      cases hmatches.1.symm.trans hfid
  | some i =>
      rw [hid] at hmatches
      have hget : ids[fh]? = some (some i) := by
        rw [List.getD_eq_getElem?_getD] at hid
        cases hslot : ids[fh]? with
        | none =>
            rw [hslot] at hid
            cases hid
        | some slot =>
            rw [hslot] at hid
            exact congrArg some hid
      refine ⟨i, hget, Option.some.inj (hmatches.2.1.symm.trans hfid), h.issued.subset ?_, hmatches⟩
      exact List.reduceOption_mem_iff.mpr (List.mem_of_getElem? hget)

theorem Tracks.held (h : Tracks ids s) (hopen : ∀ e ∈ s.trace, e.ends = none) : Held s := by
  intro fh fid _ hfid
  obtain ⟨i, -, rfl, hlive, -, -, huid, htid, htree, -⟩ := h.holds hfid
  refine ⟨htree, i.kind, ?_⟩
  rw [← huid, ← htid, unclosed_eq_live hopen]
  exact hlive

/-- What of a handle its identifier depends on. -/
def Handle.grip (h : Handle) : Bool × Option Nat × OpenMode := (h.used, h.fid, h.mode)

theorem matches_grip {x : Session} {h h' : Handle} {i : Option Ident} (hgrip : h'.grip = h.grip)
    (hm : Matches x h i) : Matches x h' i := by
  obtain ⟨hused, hfid, hmode⟩ : h'.used = h.used ∧ h'.fid = h.fid ∧ h'.mode = h.mode := by
    simpa only [Handle.grip, Prod.mk.injEq] using hgrip
  cases i with
  | none =>
      refine ⟨hfid.trans hm.1, fun hu => ?_⟩
      rw [hmode]
      exact hm.2 (hused ▸ hu)
  | some i =>
      obtain ⟨hu, hv, huid, htid, htree, hkind⟩ := hm
      refine ⟨hused.trans hu, hfid.trans hv, huid, htid, htree, fun hfile => hkind ?_⟩
      rw [← hmode]
      exact hfile

/-- Steps inside the session that take nothing back and leave the slots alone. -/
theorem Tracks.step (h : Tracks ids s) (hsession : s'.state.session = s.state.session)
    (hgrip : s'.state.handles.map Handle.grip = s.state.handles.map Handle.grip)
    (htrace : s'.trace = events ++ s.trace)
    (hlasting : ∀ e ∈ events, e.Sends fun r => r.lasting = true)
    (hunder : ∀ e ∈ events, e.Under (live s.trace)) : Tracks ids s' where
  slots fh _ := by
    rw [hsession]
    exact matches_grip (map_eq_handle hgrip fh) (h.slots fh trivial)
  length := by
    have hlength := congrArg List.length hgrip
    rw [List.length_map, List.length_map] at hlength
    rw [h.length, hlength]
  issued := by
    rw [htrace, live_append hlasting]
    exact h.issued.trans (List.sublist_append_right _ _).subperm
  lawful := htrace ▸ lawful_append hlasting hunder h.lawful

/-- A slot gets an identifier that one of the requests was granted. -/
theorem Grips.fill {D : Nat → Prop} (h : Grips D ids s) {i : Ident} {g : State → State}
    {k : Handle → Handle} (hslot : ids.getD fh none = none) (hlt : fh < s.state.handles.length)
    (hg : g s.state = { s.state.modifyHandle fh k with readAhead := (g s.state).readAhead })
    (hmatches : Matches s.state.session (k (s.state.handle fh)) (some i))
    (hissued : i ∈ events.filterMap Event.issues)
    (hlasting : ∀ e ∈ events, e.Sends fun r => r.lasting = true) :
    Grips (fun j => D j ∨ j = fh) (ids.set fh (some i)) ((s.modify g).extend events) := by
  have hlt' : fh < ids.length := h.length ▸ hlt
  have hget : ids[fh]? = some none := by
    rw [List.getD_eq_getElem?_getD, List.getElem?_eq_getElem hlt'] at hslot
    rw [List.getElem?_eq_getElem hlt']
    exact congrArg some hslot
  have hsession : (g s.state).session = s.state.session := by
    rw [hg]
    rfl
  have hhandle : ∀ j, (g s.state).handle j = (s.state.modifyHandle fh k).handle j := by
    intro j
    rw [hg]
    rfl
  refine ⟨fun j hj => ?_, ?_, ?_⟩
  · show Matches (g s.state).session ((g s.state).handle j) _
    rw [hsession, hhandle]
    by_cases hself : j = fh
    · subst hself
      rw [handle_modifyHandle_self hlt, List.getD_eq_getElem?_getD, List.getElem?_set_self hlt']
      exact hmatches
    · rw [handle_modifyHandle_ne hself, List.getD_eq_getElem?_getD,
        List.getElem?_set_ne (Ne.symm hself), ← List.getD_eq_getElem?_getD]
      exact h.slots j (hj.resolve_right hself)
  · show _ = (g s.state).handles.length
    rw [hg, List.length_set, h.length]
    exact (List.length_modify _ _ _).symm
  · show List.Subperm _ (live (events ++ s.trace))
    rw [live_append hlasting]
    refine (reduceOption_set_some hget).subperm.trans ?_
    exact (List.singleton_subperm_iff.mpr hissued).append h.issued

theorem Grips.tracks {D : Nat → Prop} (h : Grips D ids s) (hD : ∀ fh, D fh) (hlawful : Lawful s.trace) :
    Tracks ids s := ⟨⟨fun fh _ => h.slots fh (hD fh), h.length, h.issued⟩, hlawful⟩

/-- A slot is given back. -/
theorem Tracks.release (h : Tracks ids s)
    (hlive : (ids.set fh none).reduceOption.Subperm (live (events ++ s.trace)))
    (hlawful : Lawful (events ++ s.trace)) :
    Tracks (ids.set fh none) ((s.modify (State.release fh)).extend events) := by
  refine ⟨⟨fun j _ => ?_, ?_, hlive⟩, hlawful⟩
  · show Matches s.state.session (((s.state.invalidate (some fh)).modifyHandle fh _).handle j) _
    by_cases hj : j = fh
    · subst hj
      have hnone : ((s.state.invalidate (some j)).modifyHandle j fun _ => noHandle).handle j = noHandle := by
        by_cases hlt : j < s.state.handles.length
        · exact handle_modifyHandle_self hlt
        · unfold State.handle
          rw [List.getD_eq_getElem?_getD, List.getElem?_eq_none]
          · rfl
          · show (s.state.handles.modify j _).length ≤ j
            rw [List.length_modify]
            exact Nat.le_of_not_lt hlt
      have hslot : (ids.set j none).getD j none = none := by
        rw [List.getD_eq_getElem?_getD, List.getElem?_set]
        split
        · split
          · rfl
          · rfl
        · exact absurd rfl ‹_›
      rw [hnone, hslot]
      exact ⟨rfl, nofun⟩
    · rw [handle_modifyHandle_ne hj, List.getD_eq_getElem?_getD, List.getElem?_set_ne (Ne.symm hj),
        ← List.getD_eq_getElem?_getD]
      exact h.slots j trivial
  · rw [List.length_set, h.length]
    exact (List.length_modify _ _ _).symm

end Tracks

/-! ## Operations on handles -/

/-- A call that keeps the identifiers, with lawful requests along its way. -/
def Tracking {α : Type} (C : Event → Prop) (s : Host) (m : Call α) : Prop :=
  Ensures C (fun s' => Lawful s'.trace) s m fun _ s' => Tracked s'

section Handles

variable {α : Type} {C : Event → Prop} {s : Host} {fh : Nat} {uid tid : Option Nat} {path : Name}
  {mode : OpenMode} {events : List Event}

theorem Opening.lasting {r : Request} (h : Opening uid tid path mode r) :
    r.lasting = true ∧ r.unbound = true := by
  cases r with
  | openFile _ _ _ _ => exact ⟨rfl, rfl⟩
  | ntCreate _ _ _ _ => exact ⟨rfl, rfl⟩
  | queryPathInformation _ _ _ _ => exact ⟨rfl, rfl⟩
  | _ => exact h.elim

theorem Querying.lasting {r : Request} (h : Querying uid tid path r) :
    r.lasting = true ∧ r.unbound = true := by
  cases r with
  | queryPathInformation _ _ _ _ => exact ⟨rfl, rfl⟩
  | _ => exact h.elim

theorem searching_lasting {r : Request} (h : s.searching fh r) :
    r.lasting = true ∧ r.unbound = true := by
  obtain ⟨-, pattern, rfl⟩ := h
  exact ⟨rfl, rfl⟩

/-- Requests that use and take back no identifier. -/
structure Free (events : List Event) : Prop where
  lasting : ∀ e ∈ events, e.Sends fun r => r.lasting = true
  asks : ∀ e ∈ events, e.Asks fun r => r.unbound = true

theorem Event.Sends.asks {P : Request → Prop} {e : Event} (h : e.Sends P) : e.Asks P := by
  cases e with
  | exchange caller request got => exact h
  | connect _ => trivial
  | disconnect => trivial

theorem free_sends {P : Request → Prop} (hevents : ∀ e ∈ events, e.Sends P)
    (hP : ∀ r, P r → r.lasting = true ∧ r.unbound = true) : Free events :=
  ⟨fun e he => (hevents e he).imp fun r hr => (hP r hr).1,
    fun e he => ((hevents e he).imp fun r hr => (hP r hr).2).asks⟩

theorem Free.under (h : Free events) {ids : List Ident} : ∀ e ∈ events, e.Under ids :=
  fun e he => under_unbound (h.asks e he)

theorem Free.lawful (h : Free events) {trace : List Event} (htrace : Lawful trace) :
    Lawful (events ++ trace) := lawful_unbound h.asks htrace

theorem issues_opens {fid : Nat} {e : Event} (he : e ∈ events) (h : e.Opens uid tid path mode fid) :
    (⟨uid, tid, .file, fid⟩ : Ident) ∈ events.filterMap Event.issues := by
  refine List.mem_filterMap.mpr ⟨e, he, ?_⟩
  cases e with
  | exchange caller request got =>
      cases request with
      | openFile uid' tid' path' mode' =>
          obtain ⟨rfl, rfl, -, -, r, hr, rfl⟩ := h
          show got.granted.map _ = _
          rw [hr]
          rfl
      | ntCreate uid' tid' path' mode' =>
          obtain ⟨rfl, rfl, -, -, r, hr, rfl⟩ := h
          show got.granted.map _ = _
          rw [hr]
          rfl
      | _ => exact h.elim
  | connect _ => exact h.elim
  | disconnect => exact h.elim

theorem issues_searches {sid : Nat} {e : Event} (he : e ∈ events) (h : e.Searches uid tid sid) :
    (⟨uid, tid, .search, sid⟩ : Ident) ∈ events.filterMap Event.issues := by
  refine List.mem_filterMap.mpr ⟨e, he, ?_⟩
  cases e with
  | exchange caller request got =>
      cases request with
      | find uid' tid' sid' pattern =>
          cases sid' with
          | none =>
              obtain ⟨rfl, rfl, r, hr, hcount, rfl⟩ := h
              show got.granted.bind _ = _
              rw [hr, Option.bind_some, if_neg fun h => hcount h.1]
          | some _ => exact h.elim
      | _ => exact h.elim
  | connect _ => exact h.elim
  | disconnect => exact h.elim

/-- A slot that is not in use holds nothing. -/
theorem Tracks.free {ids : List (Option Ident)} (h : Tracks ids s) (hfree : s.state.freeSlot = some fh) :
    ids.getD fh none = none ∧ fh < s.state.handles.length := by
  obtain ⟨hlt, hunused, -⟩ := List.findIdx?_eq_some_iff_getElem.mp hfree
  have hhandle : s.state.handle fh = s.state.handles[fh] := by
    unfold State.handle
    rw [List.getD_eq_getElem?_getD, List.getElem?_eq_getElem hlt]
    rfl
  refine ⟨?_, hlt⟩
  cases hid : ids.getD fh none with
  | none => rfl
  | some i =>
      have hmatches := h.slots fh trivial
      rw [hid, hhandle] at hmatches
      rw [hmatches.1] at hunused
      cases hunused

theorem smbOpen_tracks (h : Tracked s) (filename : Name) (mode : OpenMode) :
    Tracking C s (smbOpen filename mode) := by
  obtain ⟨ids, h⟩ := h
  have hfree : ∀ events : List Event, (∀ e ∈ events, e.Sends (s.opening filename mode)) → Free events :=
    fun events hevents => free_sends hevents fun r hr => Opening.lasting hr
  refine (smbOpen_ensures fun g events hevents => (hfree events hevents).lawful h.lawful).mono ?_
  intro r s' houtcome
  cases r with
  | ok fh =>
      obtain ⟨htree, hslot, fid, filesize, events, hevents, ⟨e, he, hopens⟩, rfl⟩ := houtcome
      have hevents' := hfree events hevents
      obtain ⟨hnone, hlt⟩ := h.free hslot
      refine ⟨_, Grips.tracks (h.fill hnone hlt rfl ?_ (issues_opens he hopens) hevents'.lasting)
        (fun _ => Or.inl trivial) (hevents'.lawful h.lawful)⟩
      exact ⟨rfl, rfl, rfl, rfl, htree, fun _ => rfl⟩
  | error e =>
      obtain ⟨g, events, hg, hevents, rfl⟩ := houtcome
      have hevents' := hfree events hevents
      refine ⟨ids, h.step ?_ ?_ rfl hevents'.lasting hevents'.under⟩
      · show (g s.state).session = _
        rcases hg with hg | ⟨fh, -, hg⟩
        · rw [hg]
        · rw [hg]
          rfl
      · show (g s.state).handles.map _ = _
        rcases hg with hg | ⟨fh, -, hg⟩
        · rw [hg]
        · rw [hg]
          rfl

theorem smbDopen_tracks (h : Tracked s) (dirname : Name) : Tracking C s (smbDopen dirname) := by
  obtain ⟨ids, h⟩ := h
  have hfree : ∀ events : List Event, (∀ e ∈ events, e.Sends (s.querying dirname)) → Free events :=
    fun events hevents => free_sends hevents fun r hr => Querying.lasting hr
  refine (smbDopen_ensures fun g events hevents => (hfree events hevents).lawful h.lawful).mono ?_
  rintro r s' ⟨events, hevents, houtcome⟩
  have hevents' := hfree events hevents
  cases r with
  | ok fh =>
      obtain ⟨hslot, rfl⟩ := houtcome
      obtain ⟨hnone, hlt⟩ := h.free hslot
      have hstep : Tracks ids (s.extend events) :=
        h.step rfl rfl rfl hevents'.lasting hevents'.under
      refine ⟨ids, ⟨fun j _ => ?_, ?_, hstep.issued⟩, hstep.lawful⟩
      · show Matches s.state.session ((s.state.installDir fh _).handle j) _
        by_cases hj : j = fh
        · subst hj
          have hempty := h.slots j trivial
          rw [hnone] at hempty ⊢
          unfold State.installDir
          rw [handle_modifyHandle_self hlt]
          exact ⟨hempty.1, fun _ => rfl⟩
        · unfold State.installDir
          rw [handle_modifyHandle_ne hj]
          exact h.slots j trivial
      · rw [h.length]
        exact (List.length_modify _ _ _).symm
  | error e =>
      obtain rfl : s' = s.extend events := houtcome
      exact ⟨ids, h.step rfl rfl rfl hevents'.lasting hevents'.under⟩

/-- The CLOSE of a slot is under the identifier that the slot holds. -/
theorem Tracks.closing {ids : List (Option Ident)} (h : Tracks ids s) {e : Event}
    (hsends : e.Sends (s.closing fh)) : ∃ i, ids[fh]? = some (some i) ∧ e.Under (live s.trace) ∧
      live (e :: s.trace) = if e.closes then (live s.trace).erase i else live s.trace := by
  cases e with
  | exchange caller request got =>
      obtain ⟨rfl, -, hne, hfile⟩ := hsends
      obtain ⟨fid, hfid⟩ := Option.ne_none_iff_exists'.mp hne
      obtain ⟨i, hslot, rfl, hlive, -, -, huid, htid, -, hkind⟩ := h.holds hfid
      have hi : (⟨s.state.session.uid, s.state.session.tid, .file, i.value⟩ : Ident) = i := by
        rw [← huid, ← htid, ← hkind hfile]
      rw [hfid]
      refine ⟨i, hslot, ?_, ?_⟩
      · show (⟨s.state.session.uid, s.state.session.tid, .file, i.value⟩ : Ident) ∈ live s.trace
        rw [hi]
        exact hlive
      · rw [← hi]
        rfl
  | connect _ => exact hsends.elim
  | disconnect => exact hsends.elim

theorem eq_nil_or_singleton (h : events.length ≤ 1) : events = [] ∨ ∃ e, events = [e] := by
  match events with
  | [] => exact Or.inl rfl
  | [e] => exact Or.inr ⟨e, rfl⟩
  | _ :: _ :: _ => cases Nat.not_succ_le_zero _ (Nat.le_of_succ_le_succ h)

theorem smbCloseFile_tracks (h : Tracked s) (fh : Nat) : Tracking C s (smbCloseFile fh) := by
  obtain ⟨ids, h⟩ := h
  have hlawful : ∀ events : List Event, events.length ≤ 1 →
      (∀ e ∈ events, e.Sends (s.closing fh)) → Lawful (events ++ s.trace) := by
    intro events hlength hsends
    rcases eq_nil_or_singleton hlength with rfl | ⟨e, rfl⟩
    · exact h.lawful
    · obtain ⟨i, -, hunder, -⟩ := h.closing (hsends e List.mem_cons_self)
      exact ⟨hunder, h.lawful⟩
  refine (smbCloseFile_ensures fun g events => hlawful events).mono ?_
  rintro r s' ⟨events, hlength, hsends, houtcome⟩
  cases r with
  | ok _ =>
      obtain ⟨-, hne, hclosed, rfl⟩ := houtcome
      refine ⟨_, h.release ?_ (hlawful events hlength hsends)⟩
      rcases eq_nil_or_singleton hlength with rfl | ⟨e, rfl⟩
      · obtain ⟨fid, hfid⟩ := Option.ne_none_iff_exists'.mp hne
        obtain ⟨i, hslot, -⟩ := h.holds hfid
        exact (List.Subperm.cons_self.trans (reduceOption_set_none hslot).symm.subperm).trans h.issued
      · have hclosing := hsends e List.mem_cons_self
        obtain ⟨i, hslot, -, hlive⟩ := h.closing hclosing
        have hcloses : e.closes = true := by
          cases e with
          | exchange caller request got =>
              obtain ⟨e, he, hcloses⟩ := hclosed hclosing.2.2.2
              rw [List.mem_singleton] at he
              exact he ▸ hcloses
          | connect _ => exact hclosing.elim
          | disconnect => exact hclosing.elim
        rw [List.singleton_append, hlive, if_pos hcloses]
        have herase := ((reduceOption_set_none hslot).symm.subperm.trans h.issued).erase i
        rwa [List.erase_cons_head] at herase
  | error e =>
      obtain ⟨rfl, hopen, -⟩ := houtcome
      refine ⟨ids, ⟨h.slots, h.length, ?_⟩, hlawful events hlength hsends⟩
      rcases eq_nil_or_singleton hlength with rfl | ⟨e, rfl⟩
      · exact h.issued
      · obtain ⟨i, -, -, hlive⟩ := h.closing (hsends e List.mem_cons_self)
        show List.Subperm _ (live (e :: s.trace))
        rw [hlive, if_neg (Bool.eq_false_iff.mp (hopen e List.mem_cons_self))]
        exact h.issued

theorem smbDread_tracks (h : Tracked s) (hused : (s.state.handle fh).used = true) :
    Tracking C s (smbDread fh) := by
  obtain ⟨ids, h⟩ := h
  have hfree : ∀ events : List Event, (∀ e ∈ events, e.Sends (s.searching fh)) → Free events :=
    fun events hevents => free_sends hevents fun r hr => searching_lasting hr
  refine (smbDread_ensures fun g events hevents => (hfree events hevents).lawful h.lawful).mono ?_
  rintro r s' ⟨events, hevents, houtcome⟩
  have hevents' := hfree events hevents
  rcases houtcome with rfl | ⟨hfid, sid, ⟨e, he, hsearches⟩, rfl⟩
  · exact ⟨ids, h.step rfl rfl rfl hevents'.lasting hevents'.under⟩
  · have hempty := h.slots fh trivial
    have hnone : ids.getD fh none = none := by
      cases hid : ids.getD fh none with
      | none => rfl
      | some i =>
          rw [hid] at hempty
          cases hempty.2.1.symm.trans hfid
    have htree : s.state.session.noTree = false := by
      have hsends := hevents e he
      cases e with
      | exchange caller request got => exact hsends.1
      | connect _ => exact hsends.elim
      | disconnect => exact hsends.elim
    rw [hnone] at hempty
    have hdir := hempty.2 hused
    refine ⟨_, Grips.tracks (h.fill hnone (used_lt hused) rfl ?_ (issues_searches he hsearches)
      hevents'.lasting) (fun _ => Or.inl trivial) (hevents'.lawful h.lawful)⟩
    exact ⟨hused, rfl, rfl, rfl, htree, fun hfile => absurd (hdir.symm.trans hfile) nofun⟩

theorem smbLseek64_tracks (h : Tracked s) (pos : Int) (whence : Whence) :
    Tracking C s (smbLseek64 fh pos whence) := by
  obtain ⟨ids, h⟩ := h
  refine (smbLseek64_ensures fun g => h.lawful).mono ?_
  rintro r s' (rfl | ⟨position, rfl⟩)
  · exact ⟨ids, h⟩
  · refine ⟨ids, h.step rfl ?_ rfl (List.forall_mem_nil _) (List.forall_mem_nil _)⟩
    exact map_modifyHandle fun _ => rfl

/-! ### Operations that touch no handle -/

/-- Changes that leave the session and the identifiers alone. -/
def KeepsGrip (g : State → State) : Prop :=
  ∀ x, (g x).session = x.session ∧ (g x).handles.map Handle.grip = x.handles.map Handle.grip

theorem uses_tracks {m : Call α} (h : Tracked s)
    (hm : m.Uses (Within (fun r => r.lasting = true ∧ r.unbound = true) KeepsGrip)) :
    Tracking C s m := by
  obtain ⟨ids, h⟩ := h
  refine (ensures_within (T := fun s s' : Host => ∀ ids, Tracks ids s → Tracks ids s') ?_ ?_ ?_ ?_ ?_ hm).mono ?_
  · exact fun s ids h => h
  · exact fun s s' s'' h h' ids hids => h' ids (h ids hids)
  · intro s caller request got hrequest _ ids h
    have hfree : Free [Event.exchange caller request got] := by
      refine free_sends (P := fun r => r.lasting = true ∧ r.unbound = true) (fun e he => ?_) fun _ hr => hr
      rw [List.mem_singleton] at he
      subst he
      exact hrequest
    exact h.step rfl rfl (List.singleton_append ..).symm hfree.lasting hfree.under
  · intro s g hg ids h
    exact h.step (hg s.state).1 (hg s.state).2 rfl (List.forall_mem_nil _) (List.forall_mem_nil _)
  · exact fun s' h' => (h' ids h).lawful
  · exact fun _ s' h' => ⟨ids, h' ids h⟩

theorem plain_tracks (h : Tracked s) {op : Op} (hop : op.plain = true) (rounds : Nat) :
    Tracking C s (op.call rounds) := by
  refine uses_tracks h ((plain_uses hop rounds).mono fun c hc => ?_)
  cases c with
  | modify g =>
      cases hc with
      | invalidate fh => exact fun _ => ⟨rfl, rfl⟩
      | curdir g => exact fun _ => ⟨rfl, rfl⟩
  | exchange caller request =>
      cases request with
      | queryInformationDisk _ _ => exact ⟨rfl, rfl⟩
      | queryPathInformation _ _ _ _ => exact ⟨rfl, rfl⟩
      | delete _ _ _ => exact ⟨rfl, rfl⟩
      | manageDirectory _ _ _ _ => exact ⟨rfl, rfl⟩
      | rename _ _ _ _ => exact ⟨rfl, rfl⟩
      | echo => exact ⟨rfl, rfl⟩
      | _ => cases hc
  | get => trivial
  | halt => trivial
  | connect => exact hc
  | disconnect => exact hc

end Handles

/-! ## Reconnecting with a share -/

/-- A slot that is not in use has no identifier. -/
def Unheld (x : State) : Prop := ∀ fh, (x.handle fh).used = false → (x.handle fh).fid = none

/-- Midway in `smb_ReopenHandles`, with the slots of `todo` left. -/
structure Regrips (todo : List Nat) (ids : List (Option Ident)) (s : Host) : Prop extends
    Grips (fun fh => fh ∉ todo) ids s where
  empty : ∀ fh ∈ todo, ids.getD fh none = none
  unheld : Unheld s.state
  tree : s.state.session.noTree = false

section Regrip

variable {s : Host} {ids : List (Option Ident)} {fh : Nat} {rest : List Nat}

theorem Tracks.unheld (h : Tracks ids s) : Unheld s.state := by
  intro fh hunused
  have hmatches := h.slots fh trivial
  cases hid : ids.getD fh none with
  | none =>
      rw [hid] at hmatches
      exact hmatches.1
  | some i =>
      rw [hid] at hmatches
      cases hunused.symm.trans hmatches.1

/-- The next slot is left without an identifier. -/
theorem Regrips.skip (h : Regrips (fh :: rest) ids s) {k : Handle → Handle}
    (hk : (s.state.modifyHandle fh k).handle fh = k (s.state.handle fh))
    (hnone : Matches s.state.session (k (s.state.handle fh)) none) :
    Regrips rest ids (s.modify fun x => x.modifyHandle fh k) := by
  have hother : ∀ j, j ≠ fh → (s.state.modifyHandle fh k).handle j = s.state.handle j :=
    fun j hj => handle_modifyHandle_ne hj
  refine ⟨⟨fun j hj => ?_, ?_, h.issued⟩, fun j hj => h.empty j (List.mem_cons_of_mem _ hj),
    fun j hunused => ?_, h.tree⟩
  · show Matches s.state.session ((s.state.modifyHandle fh k).handle j) _
    by_cases hself : j = fh
    · subst hself
      rw [hk, h.empty j List.mem_cons_self]
      exact hnone
    · rw [hother j hself]
      exact h.slots j fun hmem => (List.mem_cons.mp hmem).elim hself hj
  · rw [h.length]
    exact (List.length_modify _ _ _).symm
  · replace hunused : ((s.state.modifyHandle fh k).handle j).used = false := hunused
    show ((s.state.modifyHandle fh k).handle j).fid = none
    by_cases hself : j = fh
    · subst hself
      rw [hk]
      exact hnone.1
    · rw [hother j hself] at hunused ⊢
      exact h.unheld j hunused

/-- The next slot is opened again. -/
theorem Regrips.reopen (h : Regrips (fh :: rest) ids s) (hfh : fh ∉ rest)
    (hused : (s.state.handle fh).used = true) (hfile : (s.state.handle fh).mode.directory = false)
    {path : Name} {mode : OpenMode} {fid : Nat} (filesize : Nat) {events : List Event}
    (hsends : ∀ e ∈ events, e.Sends (Opening s.state.session.uid s.state.session.tid path mode))
    (hopens : ∃ e ∈ events, e.Opens s.state.session.uid s.state.session.tid path mode fid) :
    ∃ ids', Regrips rest ids' ((s.modify fun x => x.modifyHandle fh fun h =>
      { h with fid := some fid, filesize := filesize }).extend events) := by
  obtain ⟨e, he, hopens⟩ := hopens
  have hlt := used_lt hused
  have hevents := free_sends hsends fun r hr => Opening.lasting hr
  refine ⟨ids.set fh (some ⟨s.state.session.uid, s.state.session.tid, .file, fid⟩), ?_⟩
  have hgrips : Grips (fun j => j ∉ fh :: rest ∨ j = fh)
      (ids.set fh (some ⟨s.state.session.uid, s.state.session.tid, .file, fid⟩))
      ((s.modify fun x => x.modifyHandle fh fun h =>
        { h with fid := some fid, filesize := filesize }).extend events) :=
    h.fill (h.empty fh List.mem_cons_self) hlt rfl ⟨hused, rfl, rfl, rfl, h.tree, fun _ => rfl⟩
      (issues_opens he hopens) hevents.lasting
  refine ⟨⟨fun j hj => hgrips.slots j ?_, hgrips.length, hgrips.issued⟩, fun j hj => ?_,
    fun j hunused => ?_, h.tree⟩
  · by_cases hself : j = fh
    · exact Or.inr hself
    · exact Or.inl fun hmem => (List.mem_cons.mp hmem).elim hself hj
  · have hne : fh ≠ j := fun heq => hfh (heq ▸ hj)
    rw [List.getD_eq_getElem?_getD, List.getElem?_set_ne hne, ← List.getD_eq_getElem?_getD]
    exact h.empty j (List.mem_cons_of_mem _ hj)
  · replace hunused : ((s.state.modifyHandle fh fun h =>
      { h with fid := some fid, filesize := filesize }).handle j).used = false := hunused
    show ((s.state.modifyHandle fh fun h =>
      { h with fid := some fid, filesize := filesize }).handle j).fid = none
    by_cases hself : j = fh
    · subst hself
      rw [handle_modifyHandle_self hlt] at hunused
      cases hused.symm.trans hunused
    · rw [handle_modifyHandle_ne hself] at hunused ⊢
      exact h.unheld j hunused

theorem smbReopenHandles_grips (slots : List Nat) : ∀ {s : Host} {ids : List (Option Ident)},
    slots.Nodup → Regrips slots ids s → Always s (smbReopenHandles slots) fun r s' =>
      Linked s s' ∧ Unheld s'.state ∧ (r = .ok () → ∃ ids, Grips (fun _ => True) ids s') := by
  induction slots with
  | nil =>
      intro s ids _ h
      exact ensures_pure ⟨Linked.refl s, h.unheld, fun _ => ⟨ids, fun fh _ => h.slots fh List.not_mem_nil,
        h.length, h.issued⟩⟩
  | cons fh rest ih =>
      intro s ids hnodup h
      obtain ⟨hfh, hrest⟩ := List.nodup_cons.mp hnodup
      have hloop : ∀ {s₁ : Host} {ids' : List (Option Ident)}, Linked s s₁ → Regrips rest ids' s₁ →
          Always s₁ (smbReopenHandles rest) fun r s' => Linked s s' ∧ Unheld s'.state ∧
            (r = .ok () → ∃ ids, Grips (fun _ => True) ids s') := by
        intro s₁ ids' hl h₁
        exact (ih hrest h₁).mono fun r s' h' => ⟨hl.trans h'.1, h'.2⟩
      refine Ensures.get trivial ?_
      dsimp only
      split
      · rename_i hunused
        refine hloop (Linked.refl s) ⟨⟨fun j hj => ?_, h.length, h.issued⟩,
          fun j hj => h.empty j (List.mem_cons_of_mem _ hj), h.unheld, h.tree⟩
        by_cases hself : j = fh
        · subst hself
          rw [h.empty j List.mem_cons_self]
          exact ⟨h.unheld j hunused, fun hused => absurd (hunused.symm.trans hused) nofun⟩
        · exact h.slots j fun hmem => (List.mem_cons.mp hmem).elim hself hj
      · rename_i hunused
        have hused : (s.state.handle fh).used = true := by simpa using hunused
        have hlt := used_lt hused
        split
        · rename_i hdir
          exact Ensures.modify trivial (hloop (linked_modify fun _ => rfl)
            (h.skip (handle_modifyHandle_self hlt) ⟨rfl, fun _ => hdir⟩))
        · rename_i hdir
          refine Ensures.bind (smbOpenAndX_ensures fun _ _ => trivial) ?_ ?_
          · rintro ⟨fid, filesize⟩ s₁ ⟨events, hopened⟩
            have hl₁ := openedAs_linked hopened
            obtain ⟨rfl, hsends, hopens⟩ := hopened
            obtain ⟨ids', h₂⟩ := h.reopen hfh hused (Bool.eq_false_iff.mpr hdir) filesize
              hsends (hopens fid filesize rfl)
            exact Ensures.modify trivial (hloop (hl₁.trans (linked_modify fun _ => rfl)) h₂)
          · rintro e s₁ ⟨events, hopened⟩
            refine ⟨openedAs_linked hopened, ?_, nofun⟩
            rw [hopened.extend]
            exact h.unheld

theorem managing_unheld : Managing (fun _ => True) fun g => ∀ x, Unheld x → Unheld (g x) where
  requests _ _ _ := trivial
  session _ _ h := h
  server _ _ _ h := h
  curdir _ _ h := h

theorem reduceOption_replicate {n : Nat} : (List.replicate n (none : Option Ident)).reduceOption = [] := by
  induction n with
  | zero => rfl
  | succ n ih => exact ih

theorem replays_grips {x : Session} :
    Replays x Unheld fun s => ∃ ids, Grips (fun _ => True) ids s := by
  intro s s₁ h₁ hunheld
  have htree : s₁.state.session.noTree = false := by
    obtain ⟨uid, tid, huid, htid⟩ := h₁.session
    rw [Session.noTree, huid, htid]
    rfl
  have hregrips : Regrips (List.range s.state.handles.length)
      (List.replicate s.state.handles.length none) s₁ := by
    refine ⟨⟨fun fh hfh => ?_, ?_, ?_⟩, fun fh _ => List.getElem?_getD_replicate_default_eq none _ fh, hunheld, htree⟩
    · rw [List.getD_eq_getElem?_getD, List.getElem?_getD_replicate_default_eq]
      have hunused : (s₁.state.handle fh).used = false := by
        refine Bool.eq_false_iff.mpr fun hused => hfh ?_
        exact List.mem_range.mpr (h₁.handles ▸ used_lt hused)
      exact ⟨hunheld fh hunused, fun hused => absurd (hunused.symm.trans hused) Bool.false_ne_true⟩
    · rw [List.length_replicate, h₁.handles]
    · rw [reduceOption_replicate]
      exact List.nil_subperm
  exact smbReopenHandles_grips _ List.nodup_range hregrips

end Regrip

/-! ## Every reconnect -/

/-- No slot has an identifier, so no file is open. -/
def Vacant (x : State) : Prop :=
  ∀ fh, (x.handle fh).fid = none ∧ ((x.handle fh).used = true → (x.handle fh).mode.directory = true)

/-- A reconnect opens the share again, or has nothing to open again. -/
def Replaceable (s : Host) : Prop := s.state.session.openshareValid = true ∨ Vacant s.state

section Reconnect

variable {α : Type} {C : Event → Prop} {s : Host} {ids : List (Option Ident)}

theorem matches_session {x x' : Session} {h : Handle} {i : Option Ident} (huid : x'.uid = x.uid)
    (htid : x'.tid = x.tid) (hm : Matches x h i) : Matches x' h i := by
  cases i with
  | none => exact hm
  | some i =>
      obtain ⟨hused, hfid, hu, ht, htree, hkind⟩ := hm
      refine ⟨hused, hfid, hu.trans huid.symm, ht.trans htid.symm, ?_, hkind⟩
      rw [Session.noTree, huid, htid]
      exact htree

theorem Vacant.tracked (h : Vacant s.state) (hlawful : Lawful s.trace) : Tracked s := by
  refine ⟨List.replicate s.state.handles.length none, ⟨fun fh _ => ?_, List.length_replicate, ?_⟩, hlawful⟩
  · rw [List.getD_eq_getElem?_getD, List.getElem?_getD_replicate_default_eq]
    exact h fh
  · rw [reduceOption_replicate]
    exact List.nil_subperm

theorem ensures_lawful {m : Call α} (h : Lawful s.trace)
    (hm : m.Uses (Modifies (fun r => r.unbound = true) fun _ => True)) :
    Ensures C (fun s' => Lawful s'.trace) s m fun _ s' => Lawful s'.trace := by
  have hextend : ∀ s' : Host, (∃ events, s'.trace = events ++ s.trace ∧
      ∀ e ∈ events, e.Asks fun r => r.unbound = true) → Lawful s'.trace := by
    rintro s' ⟨events, htrace, hasks⟩
    rw [htrace]
    exact lawful_unbound hasks h
  exact (ensures_requests hextend hm).mono fun _ s' => hextend s'

theorem reconnecting_lawful : Reconnecting (fun r => r.unbound = true) fun _ => True where
  requests _ _ h := h
  session _ := trivial
  server _ _ := trivial
  curdir _ := trivial
  invalidate _ := trivial
  fid _ _ := trivial
  reopened _ _ _ := trivial

theorem reconnect_refused (h : Tracks ids s) (hlogon : s.state.session.logonValid = false)
    (rounds : Nat) : Ensures C (fun s' => Lawful s'.trace) s (smbReconnectUntilReady rounds)
      fun _ s' => Tracks ids s' ∧ s'.state.handles = s.state.handles ∧
        s'.state.session.openshareValid = s.state.session.openshareValid := by
  refine (smbReconnectUntilReady_refused hlogon (fun _ => h.lawful) rounds).mono ?_
  rintro _ _ rfl
  refine ⟨⟨⟨fun fh hfh => ?_, h.length, h.issued⟩, h.lawful⟩, rfl, rfl⟩
  exact matches_session rfl rfl (h.slots fh hfh)

/-- With a share every file is opened again. -/
theorem reconnect_shared (h : Tracked s) (hshare : s.state.session.openshareValid = true) (rounds : Nat) :
    Ensures C (fun s' => Lawful s'.trace) s (smbReconnectUntilReady rounds) fun _ s' =>
      Tracked s' ∧ s'.state.session.openshareValid = true := by
  obtain ⟨ids, h⟩ := h
  cases hlogon : s.state.session.logonValid with
  | false =>
      refine (reconnect_refused h hlogon rounds).mono ?_
      rintro _ s' ⟨h', -, hvalid⟩
      exact ⟨⟨ids, h'⟩, hvalid.trans hshare⟩
  | true =>
      have hshared : Shared s.state.session s := ⟨hshare, rfl, rfl⟩
      have hgrips := smbReconnectUntilReady_rule managing_unheld replays_grips hshared
        (fun _ => h.unheld) (fun s g hg => ?_) rounds
      · refine ((ensures_lawful h.lawful (reconnecting_lawful.reconnectUntilReady rounds)).and
          (Always.ensures (hgrips.and (smbReconnectUntilReady_ok hshared hlogon rounds)))).mono ?_
        rintro r s' ⟨hlawful, ⟨hshared', -, hdone⟩, hok⟩
        obtain ⟨ids', h'⟩ := hdone hok
        exact ⟨⟨ids', h', hlawful⟩, hshared'.valid⟩
      · rintro ⟨ids, h⟩
        refine ⟨ids, fun fh hfh => ?_, h.length, h.issued⟩
        obtain ⟨huid, htid, -⟩ := hg s.state.session
        exact matches_session huid htid (h.slots fh hfh)

/-- Without a share no handle is touched. -/
theorem restoreSession_unshared (hshare : s.state.session.openshareValid = false) :
    Always s restoreSession fun _ s' => s'.state.session.openshareValid = false ∧
      s'.state.handles = s.state.handles := by
  refine Ensures.bind smbConnect_ensures ?_ fun e s₁ h₁ => ⟨by rw [h₁.1, hshare], by rw [h₁.1]⟩
  rintro _ s₁ ⟨hstate, -⟩
  refine Ensures.bind ((ensures_linked (negotiateRetry_uses (fun _ => trivial) (fun _ _ _ => rfl) 3)).and
    (always_handles (managing_handles.negotiate _))) ?_ ?_
  · rintro _ s₂ ⟨hl₂, hhandles₂⟩
    refine Ensures.getSession trivial ?_
    refine Ensures.bind ((ensures_linked (fallback_uses fun _ _ => trivial)).and
      (always_handles (managing_handles.fallback _ _))) ?_ ?_
    · rintro ⟨uid, fallback⟩ s₃ ⟨hl₃, hhandles₃⟩
      have hshare₃ : s₃.state.session.openshareValid = false := by
        rw [hl₃.session, hl₂.session, hstate, hshare]
      refine Ensures.modify trivial (Ensures.get trivial ?_)
      dsimp only [Host.modify_state]
      rw [if_neg (Bool.eq_false_iff.mp hshare₃)]
      exact ensures_pure ⟨hshare₃, hhandles₃.trans (hhandles₂.trans (by rw [hstate]))⟩
    · rintro e s₃ ⟨hl₃, hhandles₃⟩
      exact ⟨by rw [hl₃.session, hl₂.session, hstate, hshare], by rw [hhandles₃, hhandles₂, hstate]⟩
  · rintro e s₂ ⟨hl₂, hhandles₂⟩
    exact ⟨by rw [hl₂.session, hstate, hshare], by rw [hhandles₂, hstate]⟩

theorem smbRestoreConnection_unshared (hshare : s.state.session.openshareValid = false) :
    Always s smbRestoreConnection fun _ s' => s'.state.session.openshareValid = false ∧
      s'.state.handles = s.state.handles := by
  have habort : ∀ {s : Host}, s.state.session.openshareValid = false →
      Always s abortConnection fun r s' => r = .ok () ∧ s'.state.session.openshareValid = false ∧
        s'.state.handles = s.state.handles := by
    intro s hshare
    refine (abortConnection_ensures.and (always_handles managing_handles.abortConnection)).mono ?_
    rintro r s' ⟨⟨hr, hsession⟩, hhandles⟩
    refine ⟨hr, ?_, hhandles⟩
    rw [hsession]
    exact hshare
  refine Ensures.getSession trivial ?_
  split
  · refine Ensures.bind (habort hshare) ?_ fun e s₁ h₁ => nomatch h₁.1
    rintro _ s₁ ⟨-, hshare₁, hhandles₁⟩
    refine (restoreSession_unshared hshare₁).result ?_
    rintro r s₂ ⟨hshare₂, hhandles₂⟩
    cases r with
    | ok _ => exact ensures_pure ⟨hshare₂, hhandles₂.trans hhandles₁⟩
    | error e =>
        refine Ensures.bind (habort hshare₂) ?_ fun e s₃ h₃ => nomatch h₃.1
        rintro _ s₃ ⟨-, hshare₃, hhandles₃⟩
        exact ensures_throw ⟨hshare₃, hhandles₃.trans (hhandles₂.trans hhandles₁)⟩
  · exact ensures_throw ⟨hshare, rfl⟩

theorem smbReconnectUntilReady_unshared (hshare : s.state.session.openshareValid = false)
    (rounds : Nat) : Always s (smbReconnectUntilReady rounds) fun _ s' =>
      s'.state.session.openshareValid = false ∧ s'.state.handles = s.state.handles := by
  refine Ensures.modify trivial (Ensures.modify trivial ?_)
  refine Ensures.bind (R := fun _ s' => s'.state.session.openshareValid = false ∧
    s'.state.handles = s.state.handles) ?_ (fun _ s₁ h₁ => ensures_modify trivial h₁) fun e s₁ h₁ => h₁
  refine ensures_loop_keeps (fun _ s₁ h₁ => ?_) ⟨hshare, rfl⟩
  refine (smbRestoreConnection_unshared h₁.1).result ?_
  rintro r s₂ ⟨hshare₂, hhandles₂⟩
  have h₂ : s₂.state.session.openshareValid = false ∧ s₂.state.handles = s.state.handles :=
    ⟨hshare₂, hhandles₂.trans h₁.2⟩
  cases r with
  | ok _ => exact ensures_pure h₂
  | error e =>
      refine Ensures.getSession trivial ?_
      split
      · exact ensures_pure h₂
      · exact ensures_throw h₂

theorem vacant_handles {x x' : State} (h : Vacant x) (hhandles : x'.handles = x.handles) : Vacant x' := by
  have hhandle : ∀ fh, x'.handle fh = x.handle fh := by
    intro fh
    unfold State.handle
    rw [hhandles]
  intro fh
  rw [hhandle]
  exact h fh

theorem reconnect_tracks (h : Tracked s) (hreplace : Replaceable s) (rounds : Nat) :
    Ensures C (fun s' => Lawful s'.trace) s (smbReconnectUntilReady rounds) fun _ s' =>
      Tracked s' ∧ Replaceable s' := by
  cases hshare : s.state.session.openshareValid with
  | true => exact (reconnect_shared h hshare rounds).mono fun _ s' h' => ⟨h'.1, Or.inl h'.2⟩
  | false =>
      rcases hreplace with hvalid | hvacant
      · cases hshare.symm.trans hvalid
      · obtain ⟨ids, h⟩ := h
        refine ((ensures_lawful h.lawful (reconnecting_lawful.reconnectUntilReady rounds)).and
          (smbReconnectUntilReady_unshared hshare rounds).ensures).mono ?_
        rintro _ s' ⟨hlawful, -, hhandles⟩
        have hvacant' := vacant_handles hvacant hhandles
        exact ⟨hvacant'.tracked hlawful, Or.inr hvacant'⟩

/-! ### A reconnect that has begun -/

/-- The connection was closed since the trace was `base`. -/
def Broken (base : List Event) (s : Host) : Prop :=
  ∃ events, s.trace = events ++ base ∧ .disconnect ∈ events

/-- Until the connection is closed the identifiers stay. -/
def Unbroken (base : List Event) (s : Host) : Prop :=
  (Tracked s ∧ base <:+ s.trace) ∨ Broken base s

section Broken

variable {base : List Event} {I : Host → Prop}

theorem ensures_broken (hI : ∀ s', Broken base s' → I s') (h : Broken base s) (m : Call α) :
    Ensures C I s m fun _ s' => Broken base s' := by
  have hgrows : ∀ s s' : Host, s.trace <:+ s'.trace → Broken base s → Broken base s' := by
    rintro s s' ⟨later, hlater⟩ ⟨events, htrace, hmem⟩
    refine ⟨later ++ events, ?_, List.mem_append_right _ hmem⟩
    rw [← hlater, htrace, List.append_assoc]
  intro answers connects
  refine Dialogue.Safe.mono (Q := fun _ n => s.trace <:+ n.host.trace) ?_ fun _ n hn => hgrows s n.host hn h
  refine Dialogue.Uses.safe (T := fun n n' : Net => n.host.trace <:+ n'.host.trace)
    (I := fun n => I n.host) (s := ⟨s, answers, connects⟩) (fun n => List.suffix_refl _)
    (fun n n' n'' h h' => h.trans h') (fun c n r n' _ hstep _ => ?_)
    (fun n' hn' => hI n'.host (hgrows s n'.host hn' h)) (Dialogue.uses_trivial m.run)
  exact serve_trace hstep

theorem Unbroken.modify (h : Unbroken base s) {g : State → State}
    (hsession : (g s.state).session.uid = s.state.session.uid ∧
      (g s.state).session.tid = s.state.session.tid)
    (hhandles : (g s.state).handles = s.state.handles) : Unbroken base (s.modify g) := by
  rcases h with ⟨⟨ids, h⟩, hbase⟩ | hbroken
  · refine Or.inl ⟨⟨ids, ⟨fun fh hfh => ?_, ?_, h.issued⟩, h.lawful⟩, hbase⟩
    · have hhandle : (g s.state).handle fh = s.state.handle fh := by
        unfold State.handle
        rw [hhandles]
      show Matches (g s.state).session ((g s.state).handle fh) _
      rw [hhandle]
      exact matches_session hsession.1 hsession.2 (h.slots fh hfh)
    · show _ = (g s.state).handles.length
      rw [hhandles]
      exact h.length
  · exact Or.inr hbroken

theorem smbRestoreConnection_unbroken (hI : ∀ s', Unbroken base s' → I s') (h : Unbroken base s) :
    Ensures C I s smbRestoreConnection fun _ s' => Unbroken base s' := by
  refine Ensures.getSession (hI s h) ?_
  split
  · have hdropped : Broken base s.dropped := by
      rcases h with ⟨-, events, hbase⟩ | ⟨events, htrace, hmem⟩
      · refine ⟨.disconnect :: events, ?_, List.mem_cons_self⟩
        show .disconnect :: s.trace = _
        rw [← hbase]
        rfl
      · refine ⟨.disconnect :: events, ?_, List.mem_cons_self⟩
        show .disconnect :: s.trace = _
        rw [htrace]
        rfl
    have hbroken : ∀ s', Broken base s' → I s' := fun s' hs' => hI s' (Or.inr hs')
    refine Ensures.bind (R := fun _ s' => Broken base s') ?_ ?_ fun _ s' => Or.inr
    · exact Ensures.disconnect (hbroken _ hdropped) (ensures_broken hbroken hdropped _)
    · intro _ s' hs'
      exact (ensures_broken hbroken hs' _).mono fun _ s'' => Or.inr
  · exact ensures_throw h

/-- A reconnect begins with the end of the connection, or does not begin. -/
theorem reconnect_unbroken (hI : ∀ s', Unbroken base s' → I s') (h : Unbroken base s) (rounds : Nat) :
    Ensures C I s (smbReconnectUntilReady rounds) fun _ s' => Unbroken base s' := by
  have hlocked := h.modify (g := fun x => { x with session := { x.session with keepaliveLocked := true } })
    ⟨rfl, rfl⟩ rfl
  have hinvalid := hlocked.modify (g := State.invalidate none) ⟨rfl, rfl⟩ rfl
  refine Ensures.modify (hI _ hlocked) (Ensures.modify (hI _ hinvalid) ?_)
  refine Ensures.bind (R := fun _ s' => Unbroken base s') ?_ ?_ fun e s₁ h₁ => h₁
  · refine ensures_loop_keeps (fun _ s₁ h₁ => ?_) hinvalid
    refine (smbRestoreConnection_unbroken hI h₁).result fun r s₂ h₂ => ?_
    cases r with
    | ok _ => exact ensures_pure h₂
    | error e =>
        refine Ensures.getSession (hI s₂ h₂) ?_
        split
        · exact ensures_pure h₂
        · exact ensures_throw h₂
  · intro _ s₁ h₁
    have hunlocked := h₁.modify (g := fun x => { x with session := { x.session with keepaliveLocked := false } })
      ⟨rfl, rfl⟩ rfl
    exact ensures_modify (hI _ hunlocked) hunlocked

end Broken

end Reconnect

/-! ## Reading and writing -/

section Transfers

variable {C : Event → Prop} {s : Host} {fh : Nat}

theorem transfers_under {ids : List (Option Ident)} (h : Tracks ids s) {e : Event}
    (he : e.Sends (Transfers s.state fh)) :
    (e.Sends fun r => r.lasting = true) ∧ e.Under (live s.trace) := by
  have hheld : ∀ fid, (s.state.handle fh).fid = some fid →
      ∃ kind, (⟨s.state.session.uid, s.state.session.tid, kind, fid⟩ : Ident) ∈ live s.trace := by
    intro fid hfid
    obtain ⟨i, -, rfl, hlive, -, -, huid, htid, -⟩ := h.holds hfid
    refine ⟨i.kind, ?_⟩
    rw [← huid, ← htid]
    exact hlive
  cases e with
  | exchange caller request got =>
      cases request with
      | read uid tid fid offset nbytes =>
          obtain ⟨rfl, rfl, hfid⟩ := he
          cases fid with
          | none => exact ⟨rfl, trivial⟩
          | some fid => exact ⟨rfl, hheld fid hfid.symm⟩
      | write uid tid fid offset data =>
          obtain ⟨rfl, rfl, hfid⟩ := he
          cases fid with
          | none => exact ⟨rfl, trivial⟩
          | some fid => exact ⟨rfl, hheld fid hfid.symm⟩
      | _ => exact he.elim
  | connect _ => exact he.elim
  | disconnect => exact he.elim

theorem vacant_grip {x x' : State} (h : Vacant x)
    (hgrip : x'.handles.map Handle.grip = x.handles.map Handle.grip) : Vacant x' := by
  intro fh
  obtain ⟨hused, hfid, hmode⟩ : (x'.handle fh).used = (x.handle fh).used ∧
      (x'.handle fh).fid = (x.handle fh).fid ∧ (x'.handle fh).mode = (x.handle fh).mode := by
    simpa only [Handle.grip, Prod.mk.injEq] using map_eq_handle hgrip fh
  rw [hused, hfid, hmode]
  exact h fh

theorem TransferChange.grip {g : State → State} (h : TransferChange fh g) (x : State) :
    (g x).session = x.session ∧ (g x).handles.map Handle.grip = x.handles.map Handle.grip := by
  cases h with
  | readAhead g => exact ⟨rfl, rfl⟩
  | handle g hused hfid hmode hname =>
      refine ⟨rfl, map_modifyHandle fun h => ?_⟩
      rw [Handle.grip, hused, hfid, hmode]
      rfl

theorem keeps_tracks (fh : Nat) :
    Keeps C (fun s => Lawful s.trace) (fun s => Tracked s ∧ Replaceable s) fh where
  invariant s h := by
    obtain ⟨⟨ids, h⟩, -⟩ := h
    exact h.lawful
  requests s events h hevents := by
    obtain ⟨⟨ids, h⟩, hreplace⟩ := h
    refine ⟨⟨ids, h.step rfl rfl rfl (fun e he => ?_) fun e he => ?_⟩, hreplace⟩
    · exact (transfers_under h (hevents e he).1).1
    · exact (transfers_under h (hevents e he).1).2
  changes s g h hg := by
    obtain ⟨⟨ids, h⟩, hreplace⟩ := h
    obtain ⟨hsession, hgrip⟩ := hg.grip s.state
    refine ⟨⟨ids, h.step hsession hgrip rfl (List.forall_mem_nil _) (List.forall_mem_nil _)⟩, ?_⟩
    rcases hreplace with hvalid | hvacant
    · refine Or.inl ?_
      show (g s.state).session.openshareValid = true
      rw [hsession]
      exact hvalid
    · exact Or.inr (vacant_grip hvacant hgrip)
  reconnect s rounds h := reconnect_tracks h.1 h.2 rounds

theorem Broken.extend {base : List Event} (h : Broken base s) (events : List Event) :
    Broken base (s.extend events) := by
  obtain ⟨since, htrace, hmem⟩ := h
  refine ⟨events ++ since, ?_, List.mem_append_right _ hmem⟩
  show events ++ s.trace = _
  rw [htrace, List.append_assoc]

theorem keeps_unbroken (base : List Event) (fh : Nat) :
    Keeps C (fun s => Lawful s.trace ∨ Broken base s) (Unbroken base) fh where
  invariant s h := by
    rcases h with ⟨⟨ids, h⟩, -⟩ | hbroken
    · exact Or.inl h.lawful
    · exact Or.inr hbroken
  requests s events h hevents := by
    rcases h with ⟨⟨ids, h⟩, hbase⟩ | hbroken
    · refine Or.inl ⟨⟨ids, h.step rfl rfl rfl (fun e he => ?_) fun e he => ?_⟩, ?_⟩
      · exact (transfers_under h (hevents e he).1).1
      · exact (transfers_under h (hevents e he).1).2
      · exact hbase.trans (List.suffix_append _ _)
    · exact Or.inr (hbroken.extend events)
  changes s g h hg := by
    rcases h with ⟨⟨ids, h⟩, hbase⟩ | hbroken
    · obtain ⟨hsession, hgrip⟩ := hg.grip s.state
      refine Or.inl ⟨⟨ids, ?_⟩, hbase⟩
      exact h.step hsession hgrip rfl (List.forall_mem_nil _) (List.forall_mem_nil _)
    · exact Or.inr hbroken
  reconnect s rounds h := by
    refine reconnect_unbroken (fun s' h' => ?_) h rounds
    rcases h' with ⟨⟨ids, h'⟩, -⟩ | hbroken
    · exact Or.inl h'.lawful
    · exact Or.inr hbroken

theorem echo_free {events : List Event} (h : ∀ e ∈ events, e.Sends (· = .echo) ∧ C e) : Free events := by
  refine free_sends (P := (· = .echo)) (fun e he => (h e he).1) fun r hr => ?_
  subst hr
  exact ⟨rfl, rfl⟩

/-- The operations that can reconnect. -/
theorem reconnects_ensures {I P : Host → Prop} (k : ∀ fh, Keeps C I P fh)
    (hecho : ∀ s events, P s → (∀ e ∈ events, e.Sends (· = .echo) ∧ C e) → P (s.extend events))
    (hs : P s) {op : Op} (hop : op.reconnects = true) (rounds : Nat) :
    Ensures C I s (op.call rounds) fun _ s' => P s' := by
  have hI : I s := (k 0).invariant s hs
  have hback : ∀ {β : Type} (_ : Except Errno β) s', s' = s ∨ P s' → P s' := by
    rintro β _ s' (rfl | h')
    · exact hs
    · exact h'
  cases op with
  | read fh size =>
      refine Ensures.discard (withFile_ensures (P := P) hI hs fun _ => ?_)
      exact (smbRead_ensures (k fh) hI (fun _ _ => hs) rounds size).mono hback
  | write fh data =>
      refine Ensures.discard (withFile_ensures (P := P) hI hs fun _ => ?_)
      exact (smbWrite_ensures (k fh) hI (fun _ _ => hs) rounds data).mono hback
  | keepalive =>
      refine Ensures.discard (Ensures.mono ?_ hback)
      exact keepaliveTurn_ensures (k 0).invariant hecho (k 0).reconnect hI (fun _ => hs) rounds
  | _ => cases hop

end Transfers

/-! ## Session requests -/

/-- A call that finds no identifier in the table leaves none there. -/
def Settles {α : Type} (C : Event → Prop) (m : Call α) : Prop :=
  ∀ s : Host, Vacant s.state → Lawful s.trace →
    Ensures C (fun s' => Lawful s'.trace) s m fun _ s' => Vacant s'.state ∧ Lawful s'.trace

section Session

variable {α β : Type} {C : Event → Prop} {s : Host}

theorem managing_idle : Managing (fun r => r.unbound = true) fun g => ∀ x, (g x).handles = x.handles where
  requests _ _ h := h
  session _ _ := rfl
  server _ _ _ := rfl
  curdir _ _ := rfl

theorem settles_uses {m : Call α}
    (hm : m.Uses (Modifies (fun r => r.unbound = true) fun g => ∀ x, (g x).handles = x.handles)) :
    Settles C m := by
  intro s hvacant hlawful
  have hunbound : m.Uses (Modifies (fun r => r.unbound = true) fun _ => True) := by
    refine hm.mono fun c hc => ?_
    cases c with
    | exchange caller request => exact hc
    | _ => trivial
  have hhandles : m.Uses (Modifies (fun _ => True) fun g => ∀ x, (g x).handles = x.handles) := by
    refine hm.mono fun c hc => ?_
    cases c with
    | modify g => exact hc
    | _ => trivial
  refine ((ensures_lawful hlawful hunbound).and (always_handles hhandles).ensures).mono ?_
  rintro _ s' ⟨hlawful', hhandles'⟩
  exact ⟨vacant_handles hvacant hhandles', hlawful'⟩

theorem Settles.bind {m : Call α} {f : α → Call β} (hm : Settles C m) (hf : ∀ a, Settles C (f a)) :
    Settles C (m >>= f) := by
  intro s hvacant hlawful
  refine Ensures.bind (hm s hvacant hlawful) (fun a s' h' => hf a s' h'.1 h'.2) fun e s' h' => h'

theorem Settles.result {m : Call α} {f : Except Errno α → Call β} (hm : Settles C m)
    (hf : ∀ r, Settles C (f r)) : Settles C (m.result >>= f) := by
  intro s hvacant hlawful
  exact (hm s hvacant hlawful).result fun r s' h' => hf r s' h'.1 h'.2

theorem settles_pure (a : α) : Settles C (pure a) :=
  fun _ hvacant hlawful => ensures_pure ⟨hvacant, hlawful⟩

theorem settles_throw (e : Errno) : Settles C (throw e : Call α) :=
  fun _ hvacant hlawful => ensures_throw ⟨hvacant, hlawful⟩

theorem settles_getSession : Settles C getSession :=
  settles_uses getSession_modifies

/-- There is nothing to close. -/
theorem closeSlots_settles (slots : List Nat) : Settles C (closeSlots slots) := by
  induction slots with
  | nil => exact settles_pure ()
  | cons fh rest ih =>
      intro s hvacant hlawful
      refine Ensures.get hlawful ?_
      rw [if_pos (hvacant fh).1]
      exact ih s hvacant hlawful

theorem smbCloseAll_settles : Settles C smbCloseAll := by
  refine Settles.bind (settles_uses (modify_modifies fun _ => rfl)) fun _ => ?_
  exact Settles.bind (settles_uses get_modifies) fun x => closeSlots_settles _

theorem smbLogOff_settles (caller : Caller) : Settles C (smbLogOff caller) := by
  refine settles_getSession.bind fun x => ?_
  split
  · exact settles_throw _
  · refine Settles.bind ?_ fun _ => ?_
    · refine settles_getSession.bind fun y => ?_
      split
      · exact smbCloseAll_settles.bind fun _ => settles_uses managing_idle.leaveTree
      · exact settles_pure _
    · refine Settles.bind (settles_uses (uses_modifies (smbLogOffAndX_uses rfl))) fun _ => ?_
      refine Settles.bind (settles_uses (managing_idle.modifySession _)) fun _ => ?_
      exact settles_uses (Fallible.uses_command trivial)

theorem smbLogOn_settles (anonymous : Bool) : Settles C (smbLogOn anonymous) := by
  refine Settles.bind ?_ fun _ => ?_
  · refine settles_getSession.bind fun x => ?_
    split
    · exact (smbLogOff_settles .relogon).result fun _ => settles_pure _
    · exact settles_pure _
  · refine Settles.bind (settles_uses (orFail_modifies smbConnect_modifies)) fun _ => ?_
    refine Settles.bind (settles_uses (orFail_modifies (managing_idle.negotiate _))) fun _ => ?_
    refine Settles.bind (settles_uses (orFail_modifies (managing_idle.fallback _ _))) fun r => ?_
    exact settles_uses (managing_idle.modifySession _)

theorem smbCloseShare_settles : Settles C smbCloseShare := by
  refine settles_getSession.bind fun x => ?_
  split
  · exact settles_throw _
  · refine smbCloseAll_settles.bind fun _ => ?_
    refine Settles.bind (settles_uses (uses_modifies (smbTreeDisconnect_uses rfl))) fun _ => ?_
    exact settles_uses (managing_idle.modifySession _)

/-- The session requests that end the tree. -/
def Op.ends : Op → Bool
  | .logOn _ => true
  | .logOff => true
  | .getShareList _ => true
  | .openShare configured => (splitSharePath configured).isSome
  | .closeShare => true
  | _ => false

theorem ends_settles {op : Op} (hop : op.ends = true) (rounds : Nat) : Settles C (op.call rounds) := by
  cases op with
  | logOn anonymous => exact (smbLogOn_settles anonymous).bind fun _ => settles_pure _
  | logOff => exact (smbLogOff_settles .operation).bind fun _ => settles_pure _
  | getShareList maxent => exact (settles_uses (managing_idle.getShareList maxent)).bind fun _ => settles_pure _
  | openShare configured =>
      exact (settles_uses (managing_idle.openShare .operation configured)).bind fun _ => settles_pure _
  | closeShare => exact smbCloseShare_settles.bind fun _ => settles_pure _
  | _ => cases hop

end Session

/-! ## Runs -/

section Runs

variable {C : Event → Prop} {s : Host}

theorem call_tracks (h : Tracked s) (rounds : Nat) {op : Op} (hreconnects : op.reconnects = false)
    (hends : op.ends = true → Vacant s.state) : Tracking C s (op.call rounds) := by
  have hlawful : Lawful s.trace := by
    obtain ⟨ids, h⟩ := h
    exact h.lawful
  have hsettles : op.ends = true → Tracking C s (op.call rounds) := by
    intro hop
    exact (ends_settles hop rounds s (hends hop) hlawful).mono fun _ s' h' => h'.1.tracked h'.2
  have hfile : ∀ {α : Type} {fh : Nat} {body : Call α},
      ((s.state.handle fh).used = true → Tracking C s body) → Tracking C s (withFile fh body) :=
    fun hbody => withFile_ensures hlawful h hbody
  cases op with
  | openFile filename mode => exact (smbOpen_tracks h filename mode).discard
  | dopen dirname => exact (smbDopen_tracks h dirname).discard
  | close fh => exact (hfile fun _ => smbCloseFile_tracks h fh).discard
  | lseek fh pos whence => exact (hfile fun _ => smbLseek64_tracks h pos whence).discard
  | dread fh => exact (hfile fun hused => smbDread_tracks h hused).discard
  | read fh size => cases hreconnects
  | write fh data => cases hreconnects
  | keepalive => cases hreconnects
  | logOn _ => exact hsettles rfl
  | logOff => exact hsettles rfl
  | getShareList _ => exact hsettles rfl
  | closeShare => exact hsettles rfl
  | openShare configured =>
      cases hsplit : splitSharePath configured with
      | some _ => exact hsettles (by rw [Op.ends, hsplit]; rfl)
      | none =>
          refine Ensures.discard ?_
          unfold smbOpenShare
          rw [hsplit]
          exact ensures_throw h
  | remove _ => exact plain_tracks h rfl rounds
  | mkdir _ => exact plain_tracks h rfl rounds
  | rmdir _ => exact plain_tracks h rfl rounds
  | getstat _ => exact plain_tracks h rfl rounds
  | rename _ _ => exact plain_tracks h rfl rounds
  | chdir _ => exact plain_tracks h rfl rounds
  | echo => exact plain_tracks h rfl rounds
  | queryDiskInfo => exact plain_tracks h rfl rounds

theorem reconnects_tracks (h : Tracked s) (hreplace : Replaceable s) {op : Op}
    (hop : op.reconnects = true) (rounds : Nat) : Tracking C s (op.call rounds) := by
  refine (reconnects_ensures keeps_tracks (fun s events h hevents => ?_) ⟨h, hreplace⟩ hop rounds).mono
    fun _ s' h' => h'.1
  obtain ⟨⟨ids, h⟩, hreplace⟩ := h
  have hfree := echo_free hevents
  exact ⟨⟨ids, h.step rfl rfl rfl hfree.lasting hfree.under⟩, hreplace⟩

theorem reconnects_unbroken (h : Tracked s) {op : Op} (hop : op.reconnects = true) (rounds : Nat) :
    Ensures C (fun s' => Lawful s'.trace ∨ Broken s.trace s') s (op.call rounds)
      fun _ s' => Unbroken s.trace s' := by
  refine reconnects_ensures (keeps_unbroken s.trace) (fun s₁ events h₁ hevents => ?_)
    (Or.inl ⟨h, List.suffix_refl _⟩) hop rounds
  rcases h₁ with ⟨⟨ids, h₁⟩, hbase⟩ | hbroken
  · have hfree := echo_free hevents
    refine Or.inl ⟨⟨ids, h₁.step rfl rfl rfl hfree.lasting hfree.under⟩, ?_⟩
    exact hbase.trans (List.suffix_append _ _)
  · exact Or.inr (hbroken.extend events)

/-- Session requests come while no handle has an identifier, and so does a reconnect that
opens no share again. -/
structure Undisturbed (d : Machine) (t : Turn) : Prop where
  ends : t.op.ends = true → Vacant d.host.state
  reconnects : t.op.reconnects = true → Replaceable d.host ∨ ∀ e ∈ d.host.events t, e ≠ .disconnect

theorem turn_tracks {d : Machine} {t : Turn} (h : Tracked d.host) (hok : Undisturbed d t) :
    Lawful (d.host.after t).trace ∧ ∀ r, d.host.result t = some r → Tracked (d.host.after t) := by
  have hlawful : Lawful d.host.trace := by
    obtain ⟨ids, h⟩ := h
    exact h.lawful
  have hadmits : d.host.Admits fun _ => True := fun _ _ => trivial
  cases hop : t.op.reconnects with
  | false =>
      exact ((call_tracks h t.rounds hop hok.ends).turn hlawful hadmits fun _ _ => trivial).2
  | true =>
      rcases hok.reconnects hop with hreplace | hwhole
      · exact ((reconnects_tracks h hreplace hop t.rounds).turn hlawful hadmits fun _ _ => trivial).2
      · have hturn := ((reconnects_unbroken h hop t.rounds).turn (Or.inl hlawful) hadmits
          fun _ _ => trivial).2
        have hwhole' : ¬ Broken d.host.trace (d.host.after t) := by
          rintro ⟨events, htrace, hmem⟩
          rw [Host.after_trace, List.append_cancel_right_eq] at htrace
          exact hwhole _ (htrace ▸ hmem) rfl
        refine ⟨hturn.1.resolve_right hwhole', fun r hr => ?_⟩
        exact ((hturn.2 r hr).resolve_right hwhole').1

theorem vacant_initial {x : State} (h : x.handles = List.replicate 32 noHandle) : Vacant x := by
  intro fh
  have hnone : x.handle fh = noHandle := by
    unfold State.handle
    rw [h]
    exact List.getElem?_getD_replicate_default_eq noHandle 32 fh
  rw [hnone]
  exact ⟨rfl, nofun⟩

theorem tracked_invariant : driver.Invariant Undisturbed fun d =>
    Lawful d.host.trace ∧ (d.free = true → Tracked d.host) where
  init d hd := by
    subst hd
    refine ⟨trivial, fun _ => Vacant.tracked (fun fh => ?_) trivial⟩
    exact vacant_initial rfl fh
  step d t d' _ h hok hstep := by
    obtain ⟨hfree, -, rfl⟩ := hstep
    obtain ⟨hlawful, hreturned⟩ := turn_tracks (h.2 hfree) hok
    refine ⟨hlawful, fun hfree' => ?_⟩
    obtain ⟨r, hr⟩ := Option.isSome_iff_exists.mp hfree'
    exact hreturned r hr

/-- In an undisturbed turn, no search comes to its end. -/
structure Unended (d : Machine) (t : Turn) : Prop extends Undisturbed d t where
  searches : ∀ e ∈ d.host.events t, e.ends = none

theorem unended_invariant : driver.Invariant Unended fun d => ∀ e ∈ d.host.trace, e.ends = none where
  init d hd := by
    subst hd
    exact List.forall_mem_nil _
  step d t d' _ h hok hstep := by
    obtain ⟨-, -, rfl⟩ := hstep
    intro e he
    change e ∈ (d.host.after t).trace at he
    rw [Host.after_trace] at he
    exact (List.mem_append.mp he).elim (hok.searches e) (h e)

theorem identifiers_current {d : Machine} (h : driver.Reachable Unended d) :
    Timely d.host.trace ∧ (d.free = true → Held d.host) := by
  have hopen := unended_invariant.holds h
  obtain ⟨hlawful, htracked⟩ := tracked_invariant.holds (h.weaken fun _ _ hok => hok.toUndisturbed)
  refine ⟨hlawful.timely hopen, fun hfree => ?_⟩
  obtain ⟨ids, htracks⟩ := htracked hfree
  exact htracks.held hopen

end Runs

/-- A file is open, and some of it was read. -/
def readFile : Machine :=
  (sharing.next (granting (.openFile fileName readOnly) 3)).next (granting (.read 0 4) 2)

theorem identifiers_current_file :
    (readFile.host.state.handle 0).fid = some 1 ∧ readFile.free = true ∧ Held readFile.host := by
  have hfree : readFile.free = true := by decide +kernel
  have hlogon : driver.Reachable Unended loggedOn :=
    reachable_next (.init rfl) ⟨⟨fun _ => vacant_initial rfl, nofun⟩, by decide +kernel⟩ rfl nofun
  have hshare : driver.Reachable Unended sharing :=
    reachable_next hlogon ⟨⟨fun _ => vacant_initial (by decide +kernel), nofun⟩, by decide +kernel⟩
      (by decide +kernel) nofun
  have hopened : driver.Reachable Unended (sharing.next (granting (.openFile fileName readOnly) 3)) :=
    reachable_next hshare ⟨⟨nofun, nofun⟩, by decide +kernel⟩ (by decide +kernel) nofun
  have hread : driver.Reachable Unended readFile :=
    reachable_next hopened ⟨⟨nofun, fun _ => Or.inl (Or.inl (by decide +kernel))⟩, by decide +kernel⟩
      (by decide +kernel) (by decide +kernel)
  exact ⟨by decide +kernel, hfree, (identifiers_current hread).2 hfree⟩

/-- A directory is open. -/
def browsing : Machine :=
  sharing.next ⟨.dopen fileName, 3, List.replicate 2 (.reply { granted with directory := true }), []⟩

/-- A directory is searched. -/
def searched : Machine := browsing.next (granting (.dread 0) 1)

/-- The share is closed during the search. -/
def closedSearch : Machine := searched.next (granting .closeShare 2)

theorem search_closed :
    driver.Reachable (fun _ _ => True) closedSearch ∧
      .exchange .operation (.close (some 1) (some 1) (some 1)) (.reply granted) ∈ closedSearch.host.trace ∧
      ¬ Timely closedSearch.host.trace := by
  have htrace : closedSearch.host.trace = [
      .exchange .operation (.treeDisconnect (some 1) (some 1)) (.reply granted),
      .exchange .operation (.close (some 1) (some 1) (some 1)) (.reply granted)] ++
        searched.host.trace := by decide +kernel
  have hopen : unclosed searched.host.trace = [⟨some 1, some 1, .search, 1⟩] := by decide +kernel
  refine ⟨?_, by decide +kernel, fun h => ?_⟩
  · refine reachable_next (reachable_next (reachable_next (reachable_next (reachable_next (.init rfl)
      trivial rfl nofun) trivial ?_ nofun) trivial ?_ nofun) trivial ?_ ?_) trivial ?_ nofun
    · decide +kernel
    · decide +kernel
    · decide +kernel
    · decide +kernel
    · decide +kernel
  · rw [htrace] at h
    have hmem : (⟨some 1, some 1, .file, 1⟩ : Ident) ∈ unclosed searched.host.trace := h.2.1
    rw [hopen] at hmem
    exact absurd hmem (by decide)

/-- The only entry of the directory is read, and the search is over. -/
def exhausted : Machine := browsing.next ⟨.dread 0, 3, [.reply { granted with endOfSearch := true }], []⟩

/-- The handle keeps the search, which the server has closed. -/
theorem ended_search_held :
    driver.Reachable Undisturbed exhausted ∧ exhausted.free = true ∧ ¬ Held exhausted.host := by
  have hlogon : driver.Reachable Undisturbed loggedOn :=
    reachable_next (.init rfl) ⟨fun _ => vacant_initial rfl, nofun⟩ rfl nofun
  have hshare : driver.Reachable Undisturbed sharing :=
    reachable_next hlogon ⟨fun _ => vacant_initial (by decide +kernel), nofun⟩ (by decide +kernel) nofun
  have hopened : driver.Reachable Undisturbed browsing :=
    reachable_next hshare ⟨nofun, nofun⟩ (by decide +kernel) nofun
  have hnone : unclosed exhausted.host.trace = [] := by decide +kernel
  refine ⟨reachable_next hopened ⟨nofun, nofun⟩ (by decide +kernel) (by decide +kernel),
    by decide +kernel, fun h => ?_⟩
  obtain ⟨-, kind, hmem⟩ := h 0 1 (by decide +kernel) (by decide +kernel)
  rw [hnone] at hmem
  cases hmem

end BdmAssault.Smb.Driver
