import BdmAssault.Lib.Transition
import BdmAssault.Smb.Driver.Frames

/-! # Runs of the driver

A run is a sequence of operations from the start of the driver, each with an arbitrary
network. The IO lock is free where the last operation has returned.
-/

namespace BdmAssault.Smb.Driver

open Lib

/-- One operation, and what the network does during it. -/
structure Turn where
  op : Op
  rounds : Nat
  answers : List Got
  connects : List Bool
deriving DecidableEq, Repr

def Host.turn (s : Host) (t : Turn) : Option (Except Errno (Option Nat)) × Net :=
  (t.op.call t.rounds).run.exec serve ⟨s, t.answers, t.connects⟩

def Host.result (s : Host) (t : Turn) : Option (Except Errno (Option Nat)) := (s.turn t).1

def Host.after (s : Host) (t : Turn) : Host := (s.turn t).2.host

/-- What happens during the operation, latest first. -/
def Host.events (s : Host) (t : Turn) : List Event :=
  (s.after t).trace.take ((s.after t).trace.length - s.trace.length)

theorem exec_trace {α : Type} (m : Dialogue Cmd Cmd.Res α) :
    ∀ n : Net, n.host.trace <:+ (m.exec serve n).2.host.trace := by
  induction m with
  | ret a => exact fun n => List.suffix_refl _
  | call c k ih =>
      intro n
      rw [Dialogue.exec]
      cases hstep : serve c n with
      | none => exact List.suffix_refl _
      | some rn => exact (serve_trace hstep).trans (ih rn.1 rn.2)

theorem Host.after_trace (s : Host) (t : Turn) : (s.after t).trace = s.events t ++ s.trace := by
  obtain ⟨events, hevents⟩ : s.trace <:+ (s.after t).trace :=
    exec_trace (t.op.call t.rounds).run ⟨s, t.answers, t.connects⟩
  unfold Host.events
  rw [← hevents, List.length_append, Nat.add_sub_cancel, List.take_left]

/-- The rule of one operation. -/
theorem Ensures.turn {C : Event → Prop} {I : Host → Prop} {s : Host} {t : Turn}
    {Q : Except Errno (Option Nat) → Host → Prop} (h : Ensures C I s (t.op.call t.rounds) Q)
    (hI : I s) (hs : s.Admits C) (hevents : ∀ e ∈ s.events t, C e) :
    (s.after t).Admits C ∧ I (s.after t) ∧ ∀ r, s.result t = some r → Q r (s.after t) := by
  have hadmits : (s.after t).Admits C := by
    intro e he
    rw [s.after_trace] at he
    exact (List.mem_append.mp he).elim (hevents e) (hs e)
  exact ⟨hadmits, h.exec (n := ⟨s, t.answers, t.connects⟩) hI hadmits⟩

/-! ## The system -/

/-- `opened` are the slots of the files and directories that were opened and not closed
yet. -/
structure Machine where
  host : Host
  free : Bool
  opened : List Nat
deriving DecidableEq, Repr

def Op.file : Op → Option Nat
  | .close fh => some fh
  | .read fh _ => some fh
  | .write fh _ => some fh
  | .lseek fh _ _ => some fh
  | .dread fh => some fh
  | _ => none

/-- A file is closed once `smb_close` has returned, whatever it returns. -/
def track (opened : List Nat) : Op → Option (Except Errno (Option Nat)) → List Nat
  | .close fh, some _ => opened.erase fh
  | _, some (.ok (some fh)) => fh :: opened
  | _, _ => opened

def Machine.next (d : Machine) (t : Turn) : Machine where
  host := d.host.after t
  free := (d.host.result t).isSome
  opened := track d.opened t.op (d.host.result t)

def Machine.initial : Machine := ⟨⟨initialState, false, []⟩, true, []⟩

/-- The I/O manager hands on only files that are open. -/
def driver : System Machine Turn where
  init d := d = Machine.initial
  step d t d' := d.free = true ∧ (∀ fh, t.op.file = some fh → fh ∈ d.opened) ∧ d' = d.next t

instance (d : Machine) (t : Turn) : Decidable (∀ fh, t.op.file = some fh → fh ∈ d.opened) :=
  match h : t.op.file with
  | none => isTrue fun _ hfh => by cases hfh
  | some fh => decidable_of_iff (fh ∈ d.opened) ⟨fun hmem fh' hfh => by cases hfh; exact hmem,
      fun hall => hall fh rfl⟩

theorem reachable_next {ok : Machine → Turn → Prop} {d : Machine} {t : Turn}
    (h : driver.Reachable ok d) (hok : ok d t) (hfree : d.free = true)
    (hfile : ∀ fh, t.op.file = some fh → fh ∈ d.opened) : driver.Reachable ok (d.next t) :=
  h.next hok ⟨hfree, hfile, rfl⟩

/-- An operation during which the server grants everything. -/
def granting (op : Op) (answers : Nat) : Turn :=
  ⟨op, 3, List.replicate answers (.reply granted), [true]⟩

end BdmAssault.Smb.Driver
