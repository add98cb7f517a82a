import BdmAssault.Cache.Model

/-! # What block devices do

`read` and `write` of a `struct block_device` change the state of whatever is behind the
device. What callers rely on is said once, for every device and every way to fail.
-/

namespace BdmAssault

open Cache

/-- `read` and `write` of a `struct block_device`, on the state of what is behind it. -/
structure DeviceOps (σ α : Type) where
  read : UInt64 → UInt16 → σ → ReadReply α × σ
  write : UInt64 → (Nat → α) → UInt16 → σ → Int × σ

/-- The device has the sectors `contents`: a request that it answers in full is carried out,
and no request changes anything outside of what it writes. -/
structure HasSectors {σ α : Type} (bd : DeviceOps σ α) (contents : σ → UInt64 → α) : Prop where
  read_keeps : ∀ lba n s, contents (bd.read lba n s).2 = contents s
  read_data : ∀ lba n s, (bd.read lba n s).1.result = n.toNat →
    ∀ i < n.toNat, (bd.read lba n s).1.data i = contents s (lba + .ofNat i)
  write_data : ∀ lba buffer n s, (bd.write lba buffer n s).1 = n.toNat →
    ∀ i < n.toNat, contents (bd.write lba buffer n s).2 (lba + .ofNat i) = buffer i
  write_keeps : ∀ lba buffer n s a, (∀ i < n.toNat, a ≠ lba + .ofNat i) →
    contents (bd.write lba buffer n s).2 a = contents s a

/-- The device does what it is asked. -/
structure Working {σ α : Type} (bd : DeviceOps σ α) : Prop where
  reads : ∀ lba n s, (bd.read lba n s).1.result = n.toNat
  writes : ∀ lba buffer n s, (bd.write lba buffer n s).1 = n.toNat

section Array

variable {α : Type}

/-- A device that is an array. -/
def arrayDevice : DeviceOps (UInt64 → α) α where
  read lba n s := (⟨n.toNat, fun i => s (lba + .ofNat i)⟩, s)
  write lba buffer n s := (n.toNat, fun a => if (a - lba).toNat < n.toNat then buffer (a - lba).toNat else s a)

theorem arrayDevice_working : Working (arrayDevice (α := α)) := ⟨fun _ _ _ => rfl, fun _ _ _ _ => rfl⟩

theorem arrayDevice_holds : HasSectors (arrayDevice (α := α)) id where
  read_keeps _ _ _ := rfl
  read_data _ _ _ _ _ _ := rfl
  write_data lba buffer n s _ i hi := by
    have hn : n.toNat < 65536 := n.toNat_lt
    have hofs : (lba + .ofNat i - lba).toNat = i := by
      rw [UInt64.add_comm, UInt64.add_sub_cancel]
      exact UInt64.toNat_ofNat_of_lt' (by show i < 18446744073709551616; omega)
    refine (if_pos (by rw [hofs]; exact hi)).trans ?_
    rw [hofs]
  write_keeps lba buffer n s a ha := by
    refine if_neg fun hlt => ha _ hlt ?_
    rw [UInt64.ofNat_toNat, UInt64.add_comm, UInt64.sub_add_cancel]

end Array

end BdmAssault
