import BdmAssault.Usb.MassTable

/-! # Unplugging during set-up

Between the moment when `scsi_connect` takes a block device and the call of
`bdm_connect_bd` the two threads meet without a lock. As long as the device stays for that
time, and no other one gets its slot while the set-up is about to take it, every block
device belongs to a slot with a device in it.
-/

namespace BdmAssault.Usb

open Lib

variable {s t : MassState} {d : Int} {i k : Fin numDevices}

/-! ## Where the set-up stands -/

/-- The slots whose set-up has not ended. -/
def Phase.setup : Phase → List (Fin numDevices)
  | .idle => []
  | .configuring k rest => k :: rest
  | .interfacing k rest => k :: rest
  | .claiming k rest => k :: rest
  | .warmup k _ _ rest => k :: rest
  | .connecting k _ rest => k :: rest

/-- The slot that is set up and the block device that was taken for it. -/
def Phase.taken : Phase → Option (Fin numDevices × Fin numDevices)
  | .warmup k i _ _ => some (k, i)
  | .connecting k i _ => some (k, i)
  | _ => none

/-- The slot whose `USBMASS_DEV_STAT_CONF` the set-up has already set. -/
def Phase.late : Phase → Option (Fin numDevices)
  | .claiming k _ => some k
  | .warmup k _ _ _ => some k
  | .connecting k _ _ => some k
  | _ => none

@[simp] theorem Phase.setup_next (rest : List (Fin numDevices)) : (Phase.next rest).setup = rest := by
  cases rest <;> rfl

@[simp] theorem Phase.taken_next (rest : List (Fin numDevices)) : (Phase.next rest).taken = none := by
  cases rest <;> rfl

theorem Phase.next_ne_claiming {rest rest' : List (Fin numDevices)} : Phase.next rest ≠ .claiming k rest' := by
  cases rest <;> exact nofun

theorem Phase.late_mem {p : Phase} (h : p.late = some k) : k ∈ p.setup := by
  cases p with
  | claiming l rest =>
      cases h
      exact List.mem_cons_self
  | warmup l i cmd rest =>
      cases h
      exact List.mem_cons_self
  | connecting l i rest =>
      cases h
      exact List.mem_cons_self
  | _ => cases h

/-! ## The invariant -/

/-- The device of slot `k` is there and set up. -/
def Working (s : MassState) (k : Fin numDevices) : Prop :=
  (s.dev k).devId ≠ -1 ∧ (s.dev k).conn = true ∧ (s.dev k).conf = true

/-- The set-up took a block device for a device that had gone; it has not found out yet. -/
def Doomed (s : MassState) (k i : Fin numDevices) : Prop :=
  (s.dev k).devId = -1 ∧ ∃ cmd rest, s.thread = .warmup k i cmd rest ∧
    (cmd = .getMaxLun ∨ cmd = .inquiry)

structure Paired (s : MassState) : Prop where
  fault : s.fault = false
  nodup : s.thread.setup.Nodup
  setup : ∀ k ∈ s.thread.setup, ((s.dev k).devId = -1 ∧ (s.dev k).bulkEpO < 0) ∨
    ((s.dev k).devId ≠ -1 ∧ (s.dev k).conn = true)
  claiming : ∀ k rest, s.thread = .claiming k rest → (s.dev k).devId ≠ -1 → (s.dev k).conf = true
  taken : ∀ k i, s.thread.taken = some (k, i) → (s.bd i).priv = some k
  priv : ∀ i k, (s.bd i).priv = some k → Working s k ∨ Doomed s k i
  inj : ∀ i j k, (s.bd i).priv = some k → (s.bd j).priv = some k → i = j
  pending : ∀ i k, (s.bd i).priv = some k → k ∈ s.thread.setup → s.thread.taken = some (k, i)
  connected : ∀ i, (s.bd i).connected = true → ∃ k, (s.bd i).priv = some k ∧ k ∉ s.thread.setup

/-- The device whose set-up is past the choice of a block device stays, and a device that
comes does not get a slot in which the set-up has set `USBMASS_DEV_STAT_CONF`. -/
def Undivided (s : MassState) : Event → Prop
  | .unplug d => ∀ k i, s.thread.taken = some (k, i) → (s.dev k).devId ≠ d
  | .plug d _ env => ∀ k ∈ s.thread.setup, usbMassFindDevice s.dev d true = some k →
      0 ≤ env.sema ∧ s.thread.late ≠ some k
  | _ => True

/-! ## Comings and goings -/

theorem scsiDisconnect_bd (hinj : ∀ i j, (s.bd i).priv = some k → (s.bd j).priv = some k → i = j)
    (j : Fin numDevices) : (scsiDisconnect k s).bd j =
      if (s.bd j).priv = some k then { s.bd j with connected := false, priv := none } else s.bd j := by
  unfold scsiDisconnect
  cases hfind : (List.finRange numDevices).find? fun i => (s.bd i).priv = some k with
  | none =>
      have hj := List.find?_eq_none.mp hfind j (List.mem_finRange j)
      rw [if_neg (by simpa using hj)]
  | some i =>
      have hi : (s.bd i).priv = some k := by simpa using List.find?_some hfind
      by_cases e : (s.bd j).priv = some k
      · obtain rfl := hinj i j hi e
        rw [if_pos e]
        exact Function.update_self _ _ _
      · rw [if_neg e]
        apply Function.update_of_ne
        rintro rfl
        exact e hi

theorem scsiDisconnect_thread (k : Fin numDevices) (s : MassState) :
    (scsiDisconnect k s).thread = s.thread ∧ (scsiDisconnect k s).fault = s.fault := by
  unfold scsiDisconnect
  split <;> exact ⟨rfl, rfl⟩

/-- What `usb_mass_disconnect` can do to a slot and to the block devices. -/
theorem disconnect_effect (d : Int) (s : MassState) : usbMassDisconnect d s = s ∨
    ∃ k, (s.dev k).devId = d ∧
      usbMassDisconnect d s = scsiDisconnect k (freeSlot k (usbMassRelease k s)) := by
  unfold usbMassDisconnect
  cases hfind : usbMassFindDevice s.dev d false with
  | none => exact .inl rfl
  | some k =>
      have hk : (s.dev k).devId = d := by
        rcases findDevice_some hfind with hk | ⟨e, -⟩
        · exact hk
        · cases e
      by_cases hconn : (s.dev k).conn = true
      · exact .inr ⟨k, hk, if_pos hconn⟩
      · exact .inl (if_neg hconn)

/-- A slot whose device goes takes its block device with it. -/
theorem Paired.depart {m : MassDev} (h : Paired s) (hm : m.devId = -1) (hep : m.bulkEpO < 0)
    (hstay : ∀ i, s.thread.taken ≠ some (k, i)) (hdev : t.dev = Function.update s.dev k m)
    (hthread : t.thread = s.thread) (hfault : t.fault = s.fault)
    (hbd : ∀ j, t.bd j = if (s.bd j).priv = some k then
      { s.bd j with connected := false, priv := none } else s.bd j) : Paired t := by
  have hne : ∀ j, j ≠ k → t.dev j = s.dev j := by
    intro j hj
    rw [hdev, Function.update_of_ne hj]
  have hself : t.dev k = m := by rw [hdev, Function.update_self]
  have hkept : ∀ j, (s.bd j).priv ≠ some k → t.bd j = s.bd j := by
    intro j hj
    rw [hbd j, if_neg hj]
  have hpriv : ∀ j l, (t.bd j).priv = some l → (s.bd j).priv = some l ∧ l ≠ k := by
    intro j l hl
    by_cases e : (s.bd j).priv = some k
    · rw [hbd j, if_pos e] at hl
      cases hl
    · rw [hkept j e] at hl
      refine ⟨hl, ?_⟩
      rintro rfl
      exact e hl
  constructor
  · rw [hfault]
    exact h.fault
  · rw [hthread]
    exact h.nodup
  · intro l hl
    rw [hthread] at hl
    by_cases e : l = k
    · subst e
      rw [hself]
      exact .inl ⟨hm, hep⟩
    · rw [hne l e]
      exact h.setup l hl
  · intro l rest hl hthere
    rw [hthread] at hl
    by_cases e : l = k
    · subst e
      rw [hself] at hthere
      exact absurd hm hthere
    · rw [hne l e] at hthere ⊢
      exact h.claiming l rest hl hthere
  · intro l j hl
    rw [hthread] at hl
    have hj := h.taken l j hl
    have hlk : l ≠ k := by
      rintro rfl
      exact hstay j hl
    rw [hkept j (by rw [hj]; exact fun e => hlk (Option.some.inj e))]
    exact hj
  · intro j l hl
    obtain ⟨hold, hlk⟩ := hpriv j l hl
    unfold Working Doomed
    rw [hne l hlk, hthread]
    exact h.priv j l hold
  · intro j j' l hj hj'
    exact h.inj j j' l (hpriv j l hj).1 (hpriv j' l hj').1
  · intro j l hl
    rw [hthread]
    exact h.pending j l (hpriv j l hl).1
  · intro j hj
    by_cases e : (s.bd j).priv = some k
    · rw [hbd j, if_pos e] at hj
      cases hj
    · rw [hkept j e] at hj ⊢
      rw [hthread]
      exact h.connected j hj

theorem Paired.disconnect (h : Paired s) (ok : Undivided s (.unplug d)) :
    Paired (usbMassDisconnect d s) := by
  rcases disconnect_effect d s with e | ⟨k, hk, e⟩
  · rw [e]
    exact h
  rw [e]
  obtain ⟨hthread, hfault⟩ := scsiDisconnect_thread k (freeSlot k (usbMassRelease k s))
  have hdev := (scsiDisconnect_same k (freeSlot k (usbMassRelease k s))).1.trans (freed_dev k s)
  have hbd := scsiDisconnect_bd (s := freeSlot k (usbMassRelease k s)) (k := k) fun i j => h.inj i j k
  refine h.depart (k := k) ?_ ?_ ?_ hdev hthread hfault hbd
  · rfl
  · show (-1 : Int) < 0
    decide
  · intro i hi
    exact ok k i hi hk

/-- Slot `k` becomes `m`; the set-up and the block devices are as before. -/
structure Rewritten (k : Fin numDevices) (m : MassDev) (s t : MassState) : Prop where
  dev : t.dev = Function.update s.dev k m
  thread : t.thread = s.thread
  bd : t.bd = s.bd
  fault : t.fault = s.fault

/-- The slot gets the device, or is left without one and, unless only the semaphore was
missing, without pipes. -/
theorem finishConnect_rewritten (d : Int) (config : ConfigDescriptor) (env : Resources)
    (hk : (s.dev k).devId = -1) :
    ∃ m, Rewritten k m s (finishConnect d config env k (scanned d config env k s) s).2 ∧
      ((m.devId = -1 ∧ (0 ≤ env.sema → m.bulkEpO < 0)) ∨ (m.devId = d ∧ m.conn = true)) := by
  have hid : (scanned d config env k s).1.devId = -1 := scanned_devId hk
  unfold finishConnect
  split
  · refine ⟨_, ⟨Function.update_idem _ _ _, rfl, rfl, rfl⟩, .inl ⟨?_, fun _ => ?_⟩⟩
    · simpa using hid
    · show (-1 : Int) < 0
      decide
  · split
    · exact ⟨_, ⟨rfl, rfl, rfl, rfl⟩, .inl ⟨hid, fun h0 => by omega⟩⟩
    · exact ⟨_, ⟨rfl, rfl, rfl, rfl⟩, .inr ⟨rfl, rfl⟩⟩

/-- What a device that comes can do to a slot. -/
theorem connectNewDevice_effect (d : Int) (desc : Descriptors) (env : Resources) (s : MassState) :
    connectNewDevice d desc env s = s ∨
      ∃ k m, usbMassFindDevice s.dev d true = some k ∧ (s.dev k).devId = -1 ∧
        Rewritten k m s (connectNewDevice d desc env s) ∧
        ((m.devId = -1 ∧ (0 ≤ env.sema → m.bulkEpO < 0)) ∨ (m.devId = d ∧ m.conn = true)) := by
  unfold connectNewDevice
  split
  · rename_i config _
    split
    · unfold usbMassConnect
      cases hfind : usbMassFindDevice s.dev d true with
      | none => exact .inl rfl
      | some k =>
          by_cases hk : (s.dev k).devId = -1
          · obtain ⟨m, hrew, hm⟩ := finishConnect_rewritten d config env hk
            refine .inr ⟨k, m, rfl, hk, ?_, hm⟩
            show Rewritten k m s (if (s.dev k).devId ≠ -1 then (1, s) else
              finishConnect d config env k (scanned d config env k s) s).2
            rw [if_neg (not_not.mpr hk)]
            exact hrew
          · exact .inl (by simp [hk])
    · exact .inl rfl
  · exact .inl rfl

/-- A device may come into a free slot that the set-up has not yet marked. -/
theorem Paired.arrive {m : MassDev} (h : Paired s) (hk : (s.dev k).devId = -1)
    (hrew : Rewritten k m s t) (hlate : s.thread.late ≠ some k)
    (hm : k ∈ s.thread.setup → (m.devId = -1 ∧ m.bulkEpO < 0) ∨ (m.devId ≠ -1 ∧ m.conn = true)) :
    Paired t := by
  have hne : ∀ j, j ≠ k → t.dev j = s.dev j := by
    intro j hj
    rw [hrew.dev, Function.update_of_ne hj]
  constructor
  · rw [hrew.fault]
    exact h.fault
  · rw [hrew.thread]
    exact h.nodup
  · intro l hl
    rw [hrew.thread] at hl
    by_cases e : l = k
    · subst e
      rw [hrew.dev, Function.update_self]
      exact hm hl
    · rw [hne l e]
      exact h.setup l hl
  · intro l rest hl hthere
    rw [hrew.thread] at hl
    have hlk : l ≠ k := by
      rintro rfl
      exact hlate (by rw [hl]; rfl)
    rw [hne l hlk] at hthere ⊢
    exact h.claiming l rest hl hthere
  · rw [hrew.thread, hrew.bd]
    exact h.taken
  · intro j l hl
    rw [hrew.bd] at hl
    have hlk : l ≠ k := by
      rintro rfl
      rcases h.priv j l hl with hw | ⟨-, cmd, rest, hth, -⟩
      · exact hw.1 hk
      · exact hlate (by rw [hth]; rfl)
    unfold Working Doomed
    rw [hne l hlk, hrew.thread]
    exact h.priv j l hl
  · rw [hrew.bd]
    exact h.inj
  · rw [hrew.bd, hrew.thread]
    exact h.pending
  · rw [hrew.bd, hrew.thread]
    exact h.connected

theorem Paired.connectNewDevice {desc : Descriptors} {env : Resources} (h : Paired s) (hd : 0 < d)
    (ok : Undivided s (.plug d desc env)) : Paired (connectNewDevice d desc env s) := by
  rcases connectNewDevice_effect d desc env s with e | ⟨k, m, hfind, hk, hrew, hm⟩
  · rw [e]
    exact h
  refine h.arrive hk hrew ?_ ?_
  · intro hlate
    exact (ok k (Phase.late_mem hlate) hfind).2 hlate
  · intro hsetup
    have hsema := (ok k hsetup hfind).1
    rcases hm with ⟨hm, hep⟩ | ⟨hm, hconn⟩
    · exact .inl ⟨hm, hep hsema⟩
    · exact .inr ⟨by omega, hconn⟩

/-! ## The update thread -/

theorem Paired.not_taken (h : Paired s) (hk : k ∈ s.thread.setup) (ht : s.thread.taken = none)
    (i : Fin numDevices) : (s.bd i).priv ≠ some k := by
  intro hi
  have htaken := h.pending i k hi hk
  rw [ht] at htaken
  cases htaken

/-- The set-up goes on to other slots, after a step that may have changed the slot `k` that
was its turn. -/
theorem Paired.advance {m : MassDev} {rest : List (Fin numDevices)} (h : Paired s)
    (hsetup : s.thread.setup = k :: rest) (ht : s.thread.taken = none)
    (hdev : t.dev = Function.update s.dev k m) (hthread : t.thread = .next rest) (hbd : t.bd = s.bd)
    (hfault : t.fault = s.fault) : Paired t := by
  have hnodup : (k :: rest).Nodup := hsetup ▸ h.nodup
  have hne : ∀ j, j ≠ k → t.dev j = s.dev j := by
    intro j hj
    rw [hdev, Function.update_of_ne hj]
  have hmem : ∀ j, j ∈ t.thread.setup → j ∈ s.thread.setup ∧ j ≠ k := by
    intro j hj
    rw [hthread, Phase.setup_next] at hj
    rw [hsetup]
    refine ⟨List.mem_cons_of_mem k hj, ?_⟩
    rintro rfl
    exact (List.nodup_cons.mp hnodup).1 hj
  have hfree := fun i => h.not_taken (k := k) (by rw [hsetup]; exact List.mem_cons_self) ht i
  constructor
  · rw [hfault]
    exact h.fault
  · rw [hthread, Phase.setup_next]
    exact (List.nodup_cons.mp hnodup).2
  · intro l hl
    obtain ⟨hold, hlk⟩ := hmem l hl
    rw [hne l hlk]
    exact h.setup l hold
  · intro l rest' hl
    rw [hthread] at hl
    exact absurd hl Phase.next_ne_claiming
  · intro l i hl
    rw [hthread, Phase.taken_next] at hl
    cases hl
  · intro j l hl
    rw [hbd] at hl
    have hlk : l ≠ k := by
      rintro rfl
      exact hfree j hl
    rcases h.priv j l hl with hw | ⟨-, cmd, rest', hth, -⟩
    · refine .inl ?_
      unfold Working
      rw [hne l hlk]
      exact hw
    · rw [hth] at ht
      cases ht
  · rw [hbd]
    exact h.inj
  · intro j l hl hmem'
    rw [hbd] at hl
    exact absurd (h.pending j l hl (hmem l hmem').1) (by rw [ht]; exact nofun)
  · intro j hj
    rw [hbd] at hj ⊢
    obtain ⟨l, hl, hnot⟩ := h.connected j hj
    exact ⟨l, hl, fun hmem' => hnot (hmem l hmem').1⟩

/-- The set-up goes on with the same slot, before it takes a block device. -/
theorem Paired.proceed {m : MassDev} {rest : List (Fin numDevices)} (h : Paired s)
    (hsetup : s.thread.setup = k :: rest) (ht : s.thread.taken = none)
    (hdev : t.dev = Function.update s.dev k m)
    (hm : m.devId = (s.dev k).devId ∧ m.conn = (s.dev k).conn ∧ m.bulkEpO = (s.dev k).bulkEpO)
    (hsetup' : t.thread.setup = s.thread.setup) (ht' : t.thread.taken = none)
    (hclaim : ∀ l rest', t.thread = .claiming l rest' → l = k ∧ m.conf = true) (hbd : t.bd = s.bd)
    (hfault : t.fault = s.fault) : Paired t := by
  have hself : t.dev k = m := by rw [hdev, Function.update_self]
  have hne : ∀ j, j ≠ k → t.dev j = s.dev j := by
    intro j hj
    rw [hdev, Function.update_of_ne hj]
  have hfree := fun i => h.not_taken (k := k) (by rw [hsetup]; exact List.mem_cons_self) ht i
  constructor
  · rw [hfault]
    exact h.fault
  · rw [hsetup']
    exact h.nodup
  · intro l hl
    rw [hsetup'] at hl
    by_cases e : l = k
    · subst e
      rw [hself, hm.1, hm.2.1, hm.2.2]
      exact h.setup l hl
    · rw [hne l e]
      exact h.setup l hl
  · intro l rest' hl _
    obtain ⟨rfl, hconf⟩ := hclaim l rest' hl
    rw [hself]
    exact hconf
  · intro l i hl
    rw [ht'] at hl
    cases hl
  · intro j l hl
    rw [hbd] at hl
    have hlk : l ≠ k := by
      rintro rfl
      exact hfree j hl
    rcases h.priv j l hl with hw | ⟨-, cmd, rest', hth, -⟩
    · refine .inl ?_
      unfold Working
      rw [hne l hlk]
      exact hw
    · rw [hth] at ht
      cases ht
  · rw [hbd]
    exact h.inj
  · intro j l hl hmem
    rw [hbd] at hl
    rw [hsetup'] at hmem
    exact absurd (h.pending j l hl hmem) (by rw [ht]; exact nofun)
  · rw [hbd, hsetup']
    exact h.connected

theorem Paired.wake (h : Paired s) (ht : s.thread = .idle) : Paired (wake s) := by
  have hnew : ∀ k, k ∈ newDevs s →
      (s.dev k).devId ≠ -1 ∧ (s.dev k).conn = true ∧ (s.dev k).conf = false := by
    intro k hk
    have hk' := (List.mem_filter.mp hk).2
    simpa [and_assoc] using hk'
  have hworking : ∀ i k, (s.bd i).priv = some k → Working s k := by
    intro i k hi
    rcases h.priv i k hi with hw | ⟨-, cmd, rest, hth, -⟩
    · exact hw
    · rw [ht] at hth
      cases hth
  have hnot : ∀ i k, (s.bd i).priv = some k → k ∉ newDevs s := by
    intro i k hi hk
    have hconf := (hworking i k hi).2.2
    rw [(hnew k hk).2.2] at hconf
    cases hconf
  have hsetup : (Usb.wake s).thread.setup = newDevs s := Phase.setup_next _
  constructor
  · exact h.fault
  · rw [hsetup]
    exact (List.nodup_finRange numDevices).filter _
  · intro k hk
    rw [hsetup] at hk
    exact .inr ⟨(hnew k hk).1, (hnew k hk).2.1⟩
  · intro k rest hk
    exact absurd hk Phase.next_ne_claiming
  · intro k i hk
    rw [show (Usb.wake s).thread.taken = none from Phase.taken_next _] at hk
    cases hk
  · intro i k hi
    exact .inl (hworking i k hi)
  · exact h.inj
  · intro i k hi hk
    rw [hsetup] at hk
    exact absurd hk (hnot i k hi)
  · intro i hi
    obtain ⟨k, hk, -⟩ := h.connected i hi
    rw [hsetup]
    exact ⟨k, hk, hnot i k hk⟩

theorem Paired.setConfiguration {rest : List (Fin numDevices)} (h : Paired s) (ret : Int)
    (ht : s.thread = .configuring k rest) : Paired (setConfiguration ret k rest s) := by
  have hsetup : s.thread.setup = k :: rest := by rw [ht]; rfl
  have htaken : s.thread.taken = none := by rw [ht]; rfl
  unfold Usb.setConfiguration
  split
  · exact h.advance hsetup htaken rfl rfl rfl rfl
  · refine h.proceed (m := s.dev k) hsetup htaken ?_ ⟨rfl, rfl, rfl⟩ ?_ rfl nofun rfl rfl
    · exact (Function.update_eq_self k s.dev).symm
    · rw [hsetup]
      rfl

theorem Paired.setInterface {rest : List (Fin numDevices)} (h : Paired s) (ret : Int)
    (ht : s.thread = .interfacing k rest) : Paired (setInterface ret k rest s) := by
  have hsetup : s.thread.setup = k :: rest := by rw [ht]; rfl
  have htaken : s.thread.taken = none := by rw [ht]; rfl
  unfold Usb.setInterface
  split
  · exact h.advance hsetup htaken rfl rfl rfl rfl
  · refine h.proceed hsetup htaken rfl ⟨rfl, rfl, rfl⟩ ?_ rfl ?_ rfl rfl
    · rw [hsetup]
      rfl
    · intro l rest' hl
      cases hl
      exact ⟨rfl, rfl⟩

/-- The set-up takes the free block device `i`. -/
theorem Paired.take {rest : List (Fin numDevices)} (h : Paired s) (ht : s.thread = .claiming k rest)
    (hi : (s.bd i).priv = none) (hdev : t.dev = s.dev)
    (hthread : t.thread = .warmup k i .getMaxLun rest)
    (hbd : t.bd = Function.update s.bd i { s.bd i with priv := some k })
    (hfault : t.fault = s.fault) : Paired t := by
  have hsetup : t.thread.setup = s.thread.setup := by rw [hthread, ht]; rfl
  have hmem : k ∈ s.thread.setup := by rw [ht]; exact List.mem_cons_self
  have hfree : ∀ l, l ∈ s.thread.setup → ∀ j, (s.bd j).priv ≠ some l :=
    fun l hl => h.not_taken hl (by rw [ht]; rfl)
  have hself : t.bd i = { s.bd i with priv := some k } := by rw [hbd, Function.update_self]
  have hne : ∀ j, j ≠ i → t.bd j = s.bd j := by
    intro j hj
    rw [hbd, Function.update_of_ne hj]
  have hpriv : ∀ j l, (t.bd j).priv = some l → (j = i ∧ l = k) ∨ (s.bd j).priv = some l := by
    intro j l hl
    by_cases e : j = i
    · subst e
      rw [hself] at hl
      exact .inl ⟨rfl, (Option.some.inj hl).symm⟩
    · rw [hne j e] at hl
      exact .inr hl
  constructor
  · rw [hfault]
    exact h.fault
  · rw [hsetup]
    exact h.nodup
  · rw [hsetup, hdev]
    exact h.setup
  · intro l rest' hl
    rw [hthread] at hl
    cases hl
  · intro l j hl
    rw [hthread] at hl
    cases hl
    rw [hself]
  · intro j l hl
    unfold Working Doomed
    rw [hdev]
    rcases hpriv j l hl with ⟨rfl, rfl⟩ | hl
    · by_cases hthere : (s.dev l).devId = -1
      · exact .inr ⟨hthere, .getMaxLun, rest, hthread, .inl rfl⟩
      · have hconn := ((h.setup l hmem).resolve_left fun e => hthere e.1).2
        exact .inl ⟨hthere, hconn, h.claiming l rest ht hthere⟩
    · rcases h.priv j l hl with hw | ⟨-, cmd, rest', hth, -⟩
      · exact .inl hw
      · rw [ht] at hth
        cases hth
  · intro j j' l hj hj'
    rcases hpriv j l hj with ⟨rfl, rfl⟩ | hold
    · rcases hpriv j' l hj' with ⟨rfl, -⟩ | hold'
      · rfl
      · exact absurd hold' (hfree l hmem j')
    · rcases hpriv j' l hj' with ⟨rfl, rfl⟩ | hold'
      · exact absurd hold (hfree l hmem j)
      · exact h.inj j j' l hold hold'
  · intro j l hl hl'
    rcases hpriv j l hl with ⟨rfl, rfl⟩ | hold
    · rw [hthread]
      rfl
    · exact absurd hold (hfree l (hsetup ▸ hl') j)
  · intro j hj
    by_cases e : j = i
    · subst e
      rw [hself] at hj
      obtain ⟨l, hl, -⟩ := h.connected j hj
      rw [hi] at hl
      cases hl
    · rw [hne j e] at hj ⊢
      rw [hsetup]
      exact h.connected j hj

theorem Paired.claim {rest : List (Fin numDevices)} (h : Paired s)
    (ht : s.thread = .claiming k rest) : Paired (claim k rest s) := by
  unfold Usb.claim
  cases hfind : (List.finRange numDevices).find? fun i => (s.bd i).priv = none with
  | none =>
      refine h.advance ?_ ?_ (Function.update_eq_self k s.dev).symm rfl rfl rfl
      · rw [ht]
        rfl
      · rw [ht]
        rfl
  | some i =>
      have hi : (s.bd i).priv = none := by simpa using List.find?_some hfind
      exact h.take ht hi rfl rfl rfl rfl

/-- A command that the set-up goes on after leaves the pairing alone. -/
theorem Paired.keep (h : Paired s) (hdev : t.dev = s.dev) (hsetup : t.thread.setup = s.thread.setup)
    (htaken : t.thread.taken = s.thread.taken) (hclaim : ∀ l rest, t.thread ≠ .claiming l rest)
    (hpriv : ∀ j, (t.bd j).priv = (s.bd j).priv)
    (hconn : ∀ j, (t.bd j).connected = (s.bd j).connected) (hfault : t.fault = false)
    (hdoom : ∀ l j, Doomed s l j → Doomed t l j) : Paired t where
  fault := hfault
  nodup := by
    rw [hsetup]
    exact h.nodup
  setup := by
    rw [hsetup, hdev]
    exact h.setup
  claiming l rest hl := absurd hl (hclaim l rest)
  taken l j hl := by
    rw [hpriv]
    exact h.taken l j (htaken ▸ hl)
  priv j l hl := by
    rw [hpriv] at hl
    unfold Working
    rw [hdev]
    exact (h.priv j l hl).imp id (hdoom l j)
  inj j j' l hj hj' := by
    rw [hpriv] at hj hj'
    exact h.inj j j' l hj hj'
  pending j l hl hmem := by
    rw [hpriv] at hl
    rw [hsetup] at hmem
    rw [htaken]
    exact h.pending j l hl hmem
  connected j hj := by
    rw [hconn] at hj
    rw [hpriv, hsetup]
    exact h.connected j hj

/-- The set-up of a slot ends: the block device is given back, or stays with the slot. -/
theorem Paired.conclude {rest : List (Fin numDevices)} (h : Paired s)
    (hsetup : s.thread.setup = k :: rest) (htaken : s.thread.taken = some (k, i))
    (hdev : t.dev = s.dev) (hthread : t.thread = .next rest) (hfault : t.fault = false)
    (hother : ∀ j, j ≠ i → t.bd j = s.bd j)
    (hi : ((t.bd i).priv = none ∧ (t.bd i).connected = false) ∨
      ((t.bd i).priv = some k ∧ Working s k)) : Paired t := by
  have hnodup : (k :: rest).Nodup := hsetup ▸ h.nodup
  have hk : k ∉ rest := (List.nodup_cons.mp hnodup).1
  have hmem : ∀ l, l ∈ t.thread.setup → l ∈ s.thread.setup ∧ l ≠ k := by
    intro l hl
    rw [hthread, Phase.setup_next] at hl
    rw [hsetup]
    refine ⟨List.mem_cons_of_mem k hl, ?_⟩
    rintro rfl
    exact hk hl
  have hpriv : ∀ j l, (t.bd j).priv = some l → (s.bd j).priv = some l ∧ (j = i → l = k ∧ Working s k) := by
    intro j l hl
    by_cases e : j = i
    · subst e
      rcases hi with ⟨hnone, -⟩ | ⟨hsome, hw⟩
      · rw [hnone] at hl
        cases hl
      · rw [hsome] at hl
        cases hl
        exact ⟨h.taken k j htaken, fun _ => ⟨rfl, hw⟩⟩
    · rw [hother j e] at hl
      exact ⟨hl, fun e' => absurd e' e⟩
  constructor
  · exact hfault
  · rw [hthread, Phase.setup_next]
    exact (List.nodup_cons.mp hnodup).2
  · intro l hl
    rw [hdev]
    exact h.setup l (hmem l hl).1
  · intro l rest' hl
    rw [hthread] at hl
    exact absurd hl Phase.next_ne_claiming
  · intro l j hl
    rw [hthread, Phase.taken_next] at hl
    cases hl
  · intro j l hl
    obtain ⟨hold, hself⟩ := hpriv j l hl
    refine .inl ?_
    unfold Working
    rw [hdev]
    rcases h.priv j l hold with hw | ⟨-, cmd, rest', hth, -⟩
    · exact hw
    · -- only the block device that was taken can be waiting for its first answer
      rw [hth] at htaken
      cases htaken
      exact (hself rfl).2
  · intro j j' l hj hj'
    exact h.inj j j' l (hpriv j l hj).1 (hpriv j' l hj').1
  · intro j l hl hl'
    have htaken' := h.pending j l (hpriv j l hl).1 (hmem l hl').1
    rw [htaken] at htaken'
    cases htaken'
    exact absurd rfl (hmem k hl').2
  · intro j hj
    by_cases e : j = i
    · subst e
      rcases hi with ⟨-, hno⟩ | ⟨hsome, -⟩
      · rw [hno] at hj
        cases hj
      · exact ⟨k, hsome, fun hl => (hmem k hl).2 rfl⟩
    · rw [hother j e] at hj ⊢
      obtain ⟨l, hl, hnot⟩ := h.connected j hj
      exact ⟨l, hl, fun hl' => hnot (hmem l hl').1⟩

theorem scsiWarmup_priv (ans : Answer) (bd : ScsiBd) (cmd : Command) :
    (scsiWarmup ans bd cmd).2.priv = bd.priv ∧ (scsiWarmup ans bd cmd).2.connected = bd.connected := by
  cases cmd with
  | getMaxLun => exact ⟨rfl, rfl⟩
  | readCapacity =>
      simp only [scsiWarmup]
      split
      · exact ⟨rfl, rfl⟩
      · split <;> exact ⟨rfl, rfl⟩
  | _ =>
      simp only [scsiWarmup]
      split <;> exact ⟨rfl, rfl⟩

/-- A device that has gone does not get past the first command that needs its pipes. -/
theorem scsiWarmup_doomed {ans : Answer} {bd : ScsiBd} {cmd : Command}
    (hcmd : cmd = .getMaxLun ∨ cmd = .inquiry) (hans : cmd ≠ .getMaxLun → ans.stat = -eio) :
    (scsiWarmup ans bd cmd).1 = .more .inquiry ∨ (scsiWarmup ans bd cmd).1 = .failed := by
  rcases hcmd with rfl | rfl
  · exact .inl rfl
  · refine .inr ?_
    unfold scsiWarmup
    rw [if_pos (by rw [hans nofun]; decide)]

theorem Paired.command {ans : Answer} {cmd : Command} {rest : List (Fin numDevices)} (h : Paired s)
    (ht : s.thread = .warmup k i cmd rest)
    (hans : ∀ j, (s.bd i).priv = some j → (s.dev j).bulkEpO < 0 → cmd ≠ .getMaxLun →
      ans.stat = -eio) : Paired (command ans k i cmd rest s) := by
  have hsetup : s.thread.setup = k :: rest := by rw [ht]; rfl
  have htaken : s.thread.taken = some (k, i) := by rw [ht]; rfl
  have hi : (s.bd i).priv = some k := h.taken k i htaken
  have hk : k ∈ s.thread.setup := by rw [hsetup]; exact List.mem_cons_self
  have hfault : (s.fault || decide ((s.bd i).priv ≠ some k)) = false := by simp [h.fault, hi]
  obtain ⟨hpriv, hconn⟩ := scsiWarmup_priv ans (s.bd i) cmd
  have hdoomed : ∀ l j, Doomed s l j → (l = k ∧ j = i) ∧
      ((scsiWarmup ans (s.bd i) cmd).1 = .more .inquiry ∨ (scsiWarmup ans (s.bd i) cmd).1 = .failed) := by
    rintro l j ⟨hgone, cmd', rest', hth, hcmd⟩
    rw [ht] at hth
    cases hth
    have hep : (s.dev k).bulkEpO < 0 := by
      rcases h.setup k hk with ⟨-, hep⟩ | ⟨hthere, -⟩
      · exact hep
      · exact absurd hgone hthere
    exact ⟨⟨rfl, rfl⟩, scsiWarmup_doomed hcmd (hans k hi hep)⟩
  have hupdate : ∀ b : ScsiBd, b.priv = (s.bd i).priv → b.connected = (s.bd i).connected → ∀ j,
      (Function.update s.bd i b j).priv = (s.bd j).priv ∧
        (Function.update s.bd i b j).connected = (s.bd j).connected := by
    intro b hb hc j
    by_cases e : j = i
    · subst e
      rw [Function.update_self]
      exact ⟨hb, hc⟩
    · rw [Function.update_of_ne e]
      exact ⟨rfl, rfl⟩
  unfold Usb.command
  cases hout : (scsiWarmup ans (s.bd i) cmd).1 with
  | more next =>
      have hbd := hupdate _ hpriv hconn
      refine h.keep rfl ?_ ?_ nofun (fun j => (hbd j).1) (fun j => (hbd j).2) hfault ?_
      · rw [hsetup]
        rfl
      · rw [htaken]
        rfl
      · intro l j hd
        obtain ⟨⟨rfl, rfl⟩, hnext⟩ := hdoomed l j hd
        rw [hout] at hnext
        refine ⟨hd.1, next, rest, rfl, .inr ?_⟩
        simpa using hnext
  | failed =>
      refine h.conclude hsetup htaken rfl rfl hfault (fun j hj => Function.update_of_ne hj _ _) (.inl ?_)
      show (Function.update s.bd i _ i).priv = none ∧ (Function.update s.bd i _ i).connected = false
      rw [Function.update_self]
      refine ⟨rfl, ?_⟩
      -- a block device that BDM knows is not being set up
      cases hc : (s.bd i).connected with
      | false => exact hconn.trans hc
      | true =>
          obtain ⟨l, hl, hnot⟩ := h.connected i hc
          rw [hi] at hl
          cases hl
          exact absurd hk hnot
  | ready =>
      have hbd := hupdate _ hpriv hconn
      refine h.keep rfl ?_ ?_ nofun (fun j => (hbd j).1) (fun j => (hbd j).2) hfault ?_
      · rw [hsetup]
        rfl
      · rw [htaken]
        rfl
      · intro l j hd
        have hnext := (hdoomed l j hd).2
        rw [hout] at hnext
        simp at hnext

theorem Paired.bdmConnectBd {rest : List (Fin numDevices)} (h : Paired s)
    (ht : s.thread = .connecting k i rest) : Paired (bdmConnectBd i rest s) := by
  have hsetup : s.thread.setup = k :: rest := by rw [ht]; rfl
  have htaken : s.thread.taken = some (k, i) := by rw [ht]; rfl
  have hi : (s.bd i).priv = some k := h.taken k i htaken
  refine h.conclude hsetup htaken rfl rfl h.fault (fun j hj => Function.update_of_ne hj _ _) (.inr ⟨?_, ?_⟩)
  · show (Function.update s.bd i _ i).priv = some k
    rw [Function.update_self]
    exact hi
  · rcases h.priv i k hi with hw | ⟨-, cmd, rest', hth, -⟩
    · exact hw
    · rw [ht] at hth
      cases hth

/-! ## Every order of the steps -/

theorem paired_invariant : massStorage.Invariant Undivided Paired where
  init := by
    intro s h
    have hsetup : s.thread.setup = [] := by rw [h.thread]; rfl
    have hnone : ∀ i k, (s.bd i).priv ≠ some k := by
      intro i k hi
      rw [(h.bd i).1] at hi
      cases hi
    constructor
    · exact h.fault
    · rw [hsetup]
      exact List.nodup_nil
    · rw [hsetup]
      exact List.forall_mem_nil _
    · intro k rest hk
      rw [h.thread] at hk
      cases hk
    · intro k i hk
      rw [h.thread] at hk
      cases hk
    · intro i k hi
      exact absurd hi (hnone i k)
    · intro i j k hi
      exact absurd hi (hnone i k)
    · intro i k hi
      exact absurd hi (hnone i k)
    · intro i hi
      rw [(h.bd i).2] at hi
      cases hi
  step := by
    intro s e t _ h ok hstep
    cases hstep with
    | plug hd => exact h.connectNewDevice hd ok
    | unplug hd => exact h.disconnect ok
    | wake ht hsema => exact h.wake ht
    | configured ht => exact h.setConfiguration _ ht
    | interfaced ht => exact h.setInterface _ ht
    | claim ht => exact h.claim ht
    | command ht hans => exact h.command ht hans
    | connect ht => exact h.bdmConnectBd ht

/-- What holds between the tasks of the threads: BDM knows only block devices of slots with
a device, and those of the other slots are free. -/
def AllAttached (s : MassState) : Prop :=
  ∀ i, ((s.bd i).connected = true → (s.bd i).priv ≠ none) ∧
    ∀ k, (s.bd i).priv = some k → (s.dev k).devId ≠ -1

theorem unplug_any_time (h : massStorage.Reachable Undivided s) :
    s.fault = false ∧ (s.thread = .idle → AllAttached s) := by
  have hp := paired_invariant.holds h
  refine ⟨hp.fault, fun hidle i => ⟨?_, ?_⟩⟩
  · intro hi
    obtain ⟨k, hk, -⟩ := hp.connected i hi
    rw [hk]
    exact nofun
  · intro k hk
    rcases hp.priv i k hk with hw | ⟨-, cmd, rest, hth, -⟩
    · exact hw.1
    · rw [hidle] at hth
      cases hth

/-! ## The memory stick again -/

def stickAnswer : Answer := ⟨0, ⟨0, 0, 0, 0⟩, 0xffff, 0, 512⟩

/-- The set-up has taken the first block device for the stick. -/
def stickClaimed : MassState :=
  claim 0 [] (setInterface 0 0 [] (setConfiguration 0 0 [] (wake stickPlugged)))

/-- All commands are answered; `bdm_connect_bd` comes next. -/
def stickReady : MassState :=
  command stickAnswer 0 0 .readCapacity [] (command stickAnswer 0 0 .testUnitReady []
    (command stickAnswer 0 0 .inquiry [] (command stickAnswer 0 0 .getMaxLun [] stickClaimed)))

theorem stickClaimed_reachable : massStorage.Reachable Undivided stickClaimed := by
  have hplug : Step startState (.plug 1 stick stickResources) stickPlugged := .plug (by decide)
  have hwake : Step stickPlugged .wake (wake stickPlugged) := .wake rfl rfl
  have hconf : Step _ (.configured 0) (setConfiguration 0 0 [] (wake stickPlugged)) :=
    .configured (by decide)
  have hintf : Step _ (.interfaced 0) (setInterface 0 0 [] (setConfiguration 0 0 [] (wake stickPlugged))) :=
    .interfaced (by decide)
  have hclaim : Step _ .claim stickClaimed := .claim (by decide)
  have hstart : massStorage.Reachable Undivided stickPlugged :=
    (System.Reachable.init startState_started).next
      (show Undivided startState (.plug 1 stick stickResources) from nofun) hplug
  have h₁ := hstart.next (show Undivided _ .wake from trivial) hwake
  have h₂ := h₁.next (show Undivided _ (.configured 0) from trivial) hconf
  have h₃ := h₂.next (show Undivided _ (.interfaced 0) from trivial) hintf
  exact h₃.next (show Undivided _ .claim from trivial) hclaim

theorem stick_command (cmd : Command) (h : massStorage.Reachable Undivided s)
    (ht : s.thread = .warmup 0 0 cmd []) (hep : ∀ j, 0 ≤ (s.dev j).bulkEpO) :
    massStorage.Reachable Undivided (command stickAnswer 0 0 cmd [] s) := by
  have hstep : Step s (.command stickAnswer) (command stickAnswer 0 0 cmd [] s) := by
    refine .command ht fun j _ hneg => ?_
    have hj := hep j
    omega
  exact h.next (show Undivided s (.command stickAnswer) from trivial) hstep

theorem stickReady_reachable : massStorage.Reachable Undivided stickReady := by
  have hlun := stick_command .getMaxLun stickClaimed_reachable (by decide) (by decide)
  have hinquiry := stick_command .inquiry hlun (by decide) (by decide)
  have hunit := stick_command .testUnitReady hinquiry (by decide) (by decide)
  exact stick_command .readCapacity hunit (by decide) (by decide)

theorem unplug_any_time_stick : ((bdmConnectBd 0 [] stickReady).bd 0).connected = true ∧
    (bdmConnectBd 0 [] stickReady).fault = false ∧ AllAttached (bdmConnectBd 0 [] stickReady) := by
  have hconnect : Step stickReady .connect (bdmConnectBd 0 [] stickReady) := .connect (k := 0) (by decide)
  have hreach := stickReady_reachable.next (show Undivided _ .connect from trivial) hconnect
  obtain ⟨hfault, hidle⟩ := unplug_any_time hreach
  exact ⟨by decide, hfault, hidle (by decide)⟩

/-- The stick is pulled out during its set-up: before the first command, which then finds no
interface, or after the last one, and BDM gets a device without one. -/
theorem phantom_device :
    (∃ s, massStorage.Reachable (fun _ _ => True) s ∧ s.fault = true) ∧
    ∃ s, massStorage.Reachable (fun _ _ => True) s ∧ s.thread = .idle ∧
      (s.bd 0).connected = true ∧ (s.bd 0).priv = none ∧ ∀ k, (s.dev k).devId = -1 := by
  have hclaimed : massStorage.Reachable (fun _ _ => True) stickClaimed :=
    stickClaimed_reachable.weaken fun _ _ _ => trivial
  have hready : massStorage.Reachable (fun _ _ => True) stickReady :=
    stickReady_reachable.weaken fun _ _ _ => trivial
  have hunplug : ∀ s, Step s (.unplug 1) (usbMassDisconnect 1 s) := fun _ => .unplug (by decide)
  have hlun : Step _ (.command stickAnswer)
      (command stickAnswer 0 0 .getMaxLun [] (usbMassDisconnect 1 stickClaimed)) :=
    .command (by decide) (by decide)
  have hconnect : Step _ .connect (bdmConnectBd 0 [] (usbMassDisconnect 1 stickReady)) :=
    .connect (k := 0) (by decide)
  refine ⟨⟨_, (hclaimed.next trivial (hunplug _)).next trivial hlun, by decide⟩, ?_⟩
  exact ⟨_, (hready.next trivial (hunplug _)).next trivial hconnect, by decide, by decide, by decide,
    by decide⟩

end BdmAssault.Usb
