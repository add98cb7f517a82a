import BdmAssault.Smb.Driver.Identifiers

/-! # The files of the server

What the server has in its files, when this client is the only one that writes to them. A
request that gets no reply may have been carried out.
-/

namespace BdmAssault.Smb.Driver

open Lib

/-- A path under a tree stands for a file, whether that exists yet or not; one that does not
is empty. `opened` is the file that was last opened under an identifier. -/
structure Files where
  content : Nat → List UInt8
  names : Option Nat → Name → Nat
  opened : Ident → Nat

/-- The bytes of the file under an identifier. An offset in front of the file is a large
number to the server. -/
def Files.bytes (v : Files) (i : Ident) (offset : Int) (length : Nat) : List UInt8 :=
  if offset < 0 then [] else ((v.content (v.opened i)).drop offset.toNat).take length

/-! ## Requests and files -/

/-- The file whose contents a request may change. -/
def Request.changes (v : Files) : Request → Option Nat
  | .write uid tid (some fid) _ _ => some (v.opened ⟨uid, tid, .file, fid⟩)
  | .openFile _ tid path mode => if mode.truncate then some (v.names tid path) else none
  | .ntCreate _ tid path mode => if mode.truncate then some (v.names tid path) else none
  | _ => none

/-- Requests after which paths may stand for other files. -/
def Request.renames : Request → Bool
  | .treeConnect _ _ _ => true
  | .delete _ _ _ => true
  | .manageDirectory _ _ _ _ => true
  | .rename _ _ _ _ => true
  | _ => false

/-- The tree and the path of an open. -/
def Request.target : Request → Option (Option Nat × Name)
  | .openFile _ tid path _ => some (tid, path)
  | .ntCreate _ tid path _ => some (tid, path)
  | _ => none

def Event.request : Event → Option Request
  | .exchange _ request _ => some request
  | _ => none

/-- The data of a READ, with the identifier and the offset it was asked for. -/
def Event.delivered : Event → Option (Ident × Int × List UInt8)
  | .exchange _ (.read uid tid (some fid) offset _) (.reply r) =>
      match r.read with
      | .data bytes => some (⟨uid, tid, .file, fid⟩, offset, bytes)
      | _ => none
  | _ => none

/-- What an event can do to the files; `ids` are the identifiers in use. Each reply is to the
request it is taken for. -/
structure Files.Step (ids : List Ident) (v : Files) (e : Event) (v' : Files) : Prop where
  content : ∀ f, (∀ r, e.request = some r → r.changes v ≠ some f) → v'.content f = v.content f
  names : (∀ r, e.request = some r → r.renames = false) → v'.names = v.names
  opened : ∀ i, e.issues ≠ some i → v'.opened i = v.opened i
  target : ∀ i r tid path, e.issues = some i → e.request = some r → r.target = some (tid, path) →
    v'.opened i = v.names tid path
  fresh : ∀ i, e.issues = some i → i.kind = .file → i ∉ ids
  read : ∀ i offset bytes, e.delivered = some (i, offset, bytes) → i ∈ ids →
    bytes = v.bytes i offset bytes.length

/-! ## Identifiers in use -/

/-- The identifier that a CLOSE is for. -/
def Event.closing : Event → Option Ident
  | .exchange _ (.close uid tid (some fid)) _ => some ⟨uid, tid, .file, fid⟩
  | _ => none

/-- What an event leaves of the identifiers in use. The server may have carried out a CLOSE
that it did not answer. -/
def Event.takes (e : Event) (ids : List Ident) : List Ident :=
  match e.closing with
  | some i => ids.erase i
  | none => e.leaves ids

/-- The identifiers that the server has certainly not taken back. -/
def kept : List Event → List Ident
  | [] => []
  | e :: trace => e.issues.toList ++ e.takes (kept trace)

/-- A CLOSE is answered with a success. -/
def Event.Answered (e : Event) : Prop := e.closing.isSome = true → e.closes = true

instance (e : Event) : Decidable e.Answered :=
  inferInstanceAs (Decidable (e.closing.isSome = true → e.closes = true))

section Kept

variable {e : Event} {ids : List Ident} {trace : List Event}

theorem closing_eq_some {i : Ident} (h : e.closing = some i) :
    ∃ caller uid tid fid got, e = .exchange caller (.close uid tid (some fid)) got ∧
      i = ⟨uid, tid, .file, fid⟩ := by
  unfold Event.closing at h
  split at h
  · cases h
    exact ⟨_, _, _, _, _, rfl, rfl⟩
  · cases h

theorem takes_eq_leaves (h : e.Answered) : e.takes ids = e.leaves ids := by
  unfold Event.takes
  split
  · rename_i i hclosing
    have hcloses : e.closes = true := h (by rw [hclosing]; rfl)
    obtain ⟨caller, uid, tid, fid, got, rfl, rfl⟩ := closing_eq_some hclosing
    exact (if_pos hcloses).symm
  · rfl

theorem kept_eq_live (h : ∀ e ∈ trace, e.Answered) : kept trace = live trace := by
  induction trace with
  | nil => rfl
  | cons e trace ih =>
      rw [kept, live, ih fun e' he' => h e' (List.mem_cons_of_mem e he'),
        takes_eq_leaves (h e List.mem_cons_self)]

theorem answered_of_asks {P : Request → Prop} (h : e.Asks P)
    (hP : ∀ uid tid fid, ¬ P (.close uid tid fid)) : e.Answered := by
  intro hclosing
  obtain ⟨i, hi⟩ := Option.isSome_iff_exists.mp hclosing
  obtain ⟨caller, uid, tid, fid, got, rfl, -⟩ := closing_eq_some hi
  exact absurd h (hP uid tid (some fid))

theorem leaves_sublist (e : Event) (ids : List Ident) : (e.leaves ids).Sublist ids := by
  unfold Event.leaves
  split
  · split
    · exact List.filter_sublist
    · exact List.Sublist.refl _
  · split
    · exact List.filter_sublist
    · exact List.Sublist.refl _
  · split
    · exact List.filter_sublist
    · exact List.Sublist.refl _
  · split
    · exact List.filter_sublist
    · exact List.Sublist.refl _
  · split
    · exact List.erase_sublist
    · exact List.Sublist.refl _
  · exact List.nil_sublist _
  · exact List.nil_sublist _
  · exact List.Sublist.refl _

end Kept

/-- No identifier of a file is in use twice. -/
def Single (trace : List Event) : Prop := ∀ i, i.kind = .file → (live trace).count i ≤ 1

/-! ## Courses of events -/

/-- The files go from `v` to `v'` with the events, latest first. -/
def Serves (base : List Event) (v : Files) : List Event → Files → Prop
  | [], v' => v' = v
  | e :: events, v'' => ∃ v', Serves base v events v' ∧ v'.Step (kept (events ++ base)) e v''

/-- The file under an identifier is the same and has the same contents. -/
structure Files.Same (i : Ident) (v v' : Files) : Prop where
  opened : v'.opened i = v.opened i
  content : v'.content (v.opened i) = v.content (v.opened i)

section Serves

variable {base events later : List Event} {v v' v'' : Files} {i : Ident} {e : Event} {ids : List Ident}

theorem serves_append : Serves base v (later ++ events) v'' ↔
    ∃ v', Serves base v events v' ∧ Serves (events ++ base) v' later v'' := by
  induction later generalizing v'' with
  | nil =>
      constructor
      · exact fun h => ⟨v'', h, rfl⟩
      · rintro ⟨v', h, rfl⟩
        exact h
  | cons e later ih =>
      have hassoc : later ++ events ++ base = later ++ (events ++ base) := List.append_assoc ..
      rw [List.cons_append, Serves, hassoc]
      constructor
      · rintro ⟨w, hw, hstep⟩
        obtain ⟨v', hv', hlater⟩ := ih.mp hw
        exact ⟨v', hv', w, hlater, hstep⟩
      · rintro ⟨v', hv', w, hlater, hstep⟩
        exact ⟨w, ih.mpr ⟨v', hv', hlater⟩, hstep⟩

theorem Files.Same.refl (i : Ident) (v : Files) : v.Same i v := ⟨rfl, rfl⟩

theorem Files.Same.trans (h : v.Same i v') (h' : v'.Same i v'') : v.Same i v'' := by
  refine ⟨h'.opened.trans h.opened, ?_⟩
  rw [← h.content, ← h.opened]
  exact h'.content

theorem Files.Same.bytes (h : v.Same i v') (offset : Int) (length : Nat) :
    v'.bytes i offset length = v.bytes i offset length := by
  unfold Files.bytes
  rw [h.opened, h.content]

/-- An identifier in use keeps its file through an event that does not change the file. -/
theorem Files.Step.same (h : v.Step ids e v') (hi : i ∈ ids) (hkind : i.kind = .file)
    (hchanges : ∀ r, e.request = some r → r.changes v ≠ some (v.opened i)) : v.Same i v' where
  opened := h.opened i fun hissues => h.fresh i hissues hkind hi
  content := h.content (v.opened i) hchanges

theorem Serves.single (h : Serves base v events v') (hanswered : ∀ e ∈ events ++ base, e.Answered)
    (hbase : Single base) : Single (events ++ base) := by
  induction events generalizing v' with
  | nil => exact hbase
  | cons e events ih =>
      obtain ⟨w, hw, hstep⟩ := h
      have hanswered' : ∀ e ∈ events ++ base, e.Answered :=
        fun e' he' => hanswered e' (List.mem_cons_of_mem e he')
      have hsingle := ih hw hanswered'
      rw [kept_eq_live hanswered'] at hstep
      intro i hkind
      have hleft : (e.leaves (live (events ++ base))).count i ≤ 1 :=
        Nat.le_trans ((leaves_sublist e _).count_le i) (hsingle i hkind)
      show (e.issues.toList ++ e.leaves (live (events ++ base))).count i ≤ 1
      rw [List.count_append]
      by_cases hissues : e.issues = some i
      · have hnone : (e.leaves (live (events ++ base))).count i = 0 := by
          refine List.count_eq_zero.mpr fun hmem => hstep.fresh i hissues hkind ?_
          exact (leaves_sublist e _).subset hmem
        rw [hnone, hissues]
        exact List.count_le_length
      · have hnone : e.issues.toList.count i = 0 := by
          refine List.count_eq_zero.mpr fun hmem => hissues ?_
          exact Option.mem_toList.mp hmem
        rw [hnone, Nat.zero_add]
        exact hleft

end Serves

/-! ## The system -/

/-- The driver and the files it works on. -/
structure Served where
  machine : Machine
  files : Files

/-- The files may be anything at first. -/
def served : System Served Turn where
  init x := x.machine = Machine.initial
  step x t x' := driver.step x.machine t x'.machine ∧
    Serves x.machine.host.trace x.files (x.machine.host.events t) x'.files

end BdmAssault.Smb.Driver
