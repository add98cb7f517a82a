import BdmAssault.Usb.MassStorage

/-! # The slots of mass-storage devices

What the driver opened for a device is in the slot of that device, so disconnecting it
releases everything. This needs that no set-up step is refused while the device is there:
`usb_mass_update` then releases the pipes and leaves the device's id in the slot, and
`usb_mass_disconnect` takes the slot for a free one.
-/

namespace BdmAssault.Usb

open Lib

variable {s t : MassState} {d : Int} {k : Fin numDevices}

/-! ## Finding a slot -/

theorem findDevice_some {dev : Fin numDevices → MassDev} {create : Bool}
    (h : usbMassFindDevice dev d create = some k) :
    (dev k).devId = d ∨ create = true ∧ (dev k).devId = -1 := by
  have hk := List.find?_some h
  simpa using hk

theorem findDevice_none {dev : Fin numDevices → MassDev} {create : Bool}
    (h : usbMassFindDevice dev d create = none) (j : Fin numDevices) :
    (dev j).devId ≠ d ∧ (create = true → (dev j).devId ≠ -1) := by
  have hj := List.find?_eq_none.mp h j (List.mem_finRange j)
  simpa using hj

theorem findDevice_absent {dev : Fin numDevices → MassDev} (h : ∀ j, (dev j).devId ≠ d) :
    usbMassFindDevice dev d false = none := by
  unfold usbMassFindDevice
  rw [List.find?_eq_none]
  intro j _
  simpa using h j

/-! ## The invariant -/

/-- A slot with a device is connected, no other slot has that device, and every open pipe or
semaphore is recorded in the slot of its device. -/
structure Accounted (s : MassState) : Prop where
  conn : ∀ k, (s.dev k).devId ≠ -1 → (s.dev k).conn = true
  distinct : ∀ j k, (s.dev j).devId = (s.dev k).devId → (s.dev j).devId ≠ -1 → j = k
  pipe : ∀ p d, (p, d) ∈ s.pipes → 0 ≤ p ∧ d ≠ -1 ∧
    ∃ k, (s.dev k).devId = d ∧ ((s.dev k).bulkEpI = p ∨ (s.dev k).bulkEpO = p)
  sema : ∀ m d, (m, d) ∈ s.semas → d ≠ -1 ∧ ∃ k, (s.dev k).devId = d ∧ (s.dev k).ioSema = m

/-- Every step of the driver changes one slot. What is open afterwards is either recorded in
it, or was open before for the device of another slot. -/
theorem Accounted.modify {m : MassDev} (h : Accounted s) (hdev : t.dev = Function.update s.dev k m)
    (hconn : m.devId ≠ -1 → m.conn = true)
    (hother : m.devId ≠ -1 → ∀ j, j ≠ k → (s.dev j).devId ≠ m.devId)
    (hpipe : ∀ p d, (p, d) ∈ t.pipes →
      (0 ≤ p ∧ d ≠ -1 ∧ m.devId = d ∧ (m.bulkEpI = p ∨ m.bulkEpO = p)) ∨
        ((p, d) ∈ s.pipes ∧ (s.dev k).devId ≠ d))
    (hsema : ∀ n d, (n, d) ∈ t.semas →
      (d ≠ -1 ∧ m.devId = d ∧ m.ioSema = n) ∨ ((n, d) ∈ s.semas ∧ (s.dev k).devId ≠ d)) :
    Accounted t := by
  have hself : t.dev k = m := by rw [hdev, Function.update_self]
  have hne : ∀ j, j ≠ k → t.dev j = s.dev j := by
    intro j hj
    rw [hdev, Function.update_of_ne hj]
  have hkept : ∀ j d, (s.dev j).devId = d → (s.dev k).devId ≠ d → t.dev j = s.dev j := by
    intro j d hj hk
    apply hne
    rintro rfl
    exact hk hj
  constructor
  · intro j hj
    by_cases e : j = k
    · subst e
      rw [hself] at hj ⊢
      exact hconn hj
    · rw [hne j e] at hj ⊢
      exact h.conn j hj
  · intro i j hij hi
    by_cases ei : i = k
    · subst ei
      by_cases ej : j = i
      · exact ej.symm
      · rw [hself, hne j ej] at hij
        rw [hself] at hi
        exact absurd hij.symm (hother hi j ej)
    · by_cases ej : j = k
      · subst ej
        rw [hne i ei, hself] at hij
        rw [hne i ei, hij] at hi
        exact absurd hij (hother hi i ei)
      · rw [hne i ei, hne j ej] at hij
        rw [hne i ei] at hi
        exact h.distinct i j hij hi
  · intro p d hp
    rcases hpipe p d hp with ⟨h0, hd, hm, hep⟩ | ⟨hold, hk⟩
    · refine ⟨h0, hd, k, ?_⟩
      rw [hself]
      exact ⟨hm, hep⟩
    · obtain ⟨h0, hd, j, hj, hep⟩ := h.pipe p d hold
      refine ⟨h0, hd, j, ?_⟩
      rw [hkept j d hj hk]
      exact ⟨hj, hep⟩
  · intro n d hn
    rcases hsema n d hn with ⟨hd, hm, hio⟩ | ⟨hold, hk⟩
    · refine ⟨hd, k, ?_⟩
      rw [hself]
      exact ⟨hm, hio⟩
    · obtain ⟨hd, j, hj, hio⟩ := h.sema n d hold
      refine ⟨hd, j, ?_⟩
      rw [hkept j d hj hk]
      exact ⟨hj, hio⟩

/-- What belongs to no device is not open. -/
theorem Accounted.none_open (h : Accounted s) (hd : ∀ k, (s.dev k).devId ≠ d) :
    (∀ e ∈ s.pipes, e.2 ≠ d) ∧ ∀ e ∈ s.semas, e.2 ≠ d := by
  constructor
  · rintro ⟨p, c⟩ he rfl
    obtain ⟨-, -, k, hk, -⟩ := h.pipe p c he
    exact hd k hk
  · rintro ⟨n, c⟩ he rfl
    obtain ⟨-, k, hk, -⟩ := h.sema n c he
    exact hd k hk

theorem Accounted.of_same (h : Accounted s) (hdev : t.dev = s.dev) (hpipes : t.pipes = s.pipes)
    (hsemas : t.semas = s.semas) : Accounted t where
  conn := hdev ▸ h.conn
  distinct := hdev ▸ h.distinct
  pipe := hdev ▸ hpipes ▸ h.pipe
  sema := hdev ▸ hsemas ▸ h.sema

/-- A slot without a device may be written over. -/
theorem Accounted.modify_free {m : MassDev} (h : Accounted s) (hk : (s.dev k).devId = -1)
    (hm : m.devId = -1) (hdev : t.dev = Function.update s.dev k m)
    (hpipes : t.pipes ⊆ s.pipes) (hsemas : t.semas = s.semas) : Accounted t := by
  refine h.modify hdev (fun e => absurd hm e) (fun e => absurd hm e) ?_ ?_
  · intro p d hp
    refine .inr ⟨hpipes hp, ?_⟩
    rw [hk]
    exact (h.pipe p d (hpipes hp)).2.1.symm
  · intro n d hn
    rw [hsemas] at hn
    refine .inr ⟨hn, ?_⟩
    rw [hk]
    exact (h.sema n d hn).1.symm

/-! ## Disconnecting -/

theorem mem_closePipe {p q d : Int} {pipes : List (Int × Int)} (h : (q, d) ∈ closePipe p pipes) :
    (q, d) ∈ pipes ∧ (0 ≤ q → q ≠ p) := by
  unfold closePipe at h
  split at h
  · rw [List.mem_filter] at h
    exact ⟨h.1, fun _ => by simpa using h.2⟩
  · exact ⟨h, by omega⟩

theorem mem_release_pipes {q c : Int} (h : (q, c) ∈ (usbMassRelease k s).pipes) :
    (q, c) ∈ s.pipes ∧ (0 ≤ q → q ≠ (s.dev k).bulkEpI ∧ q ≠ (s.dev k).bulkEpO) := by
  obtain ⟨h₁, hO⟩ := mem_closePipe h
  obtain ⟨h₀, hI⟩ := mem_closePipe h₁
  exact ⟨h₀, fun hq => ⟨hI hq, hO hq⟩⟩

theorem release_pipes_subset : (usbMassRelease k s).pipes ⊆ s.pipes :=
  fun _ he => (mem_release_pipes he).1

theorem scsiDisconnect_same (k : Fin numDevices) (s : MassState) :
    (scsiDisconnect k s).dev = s.dev ∧ (scsiDisconnect k s).pipes = s.pipes ∧
      (scsiDisconnect k s).semas = s.semas := by
  unfold scsiDisconnect
  split <;> exact ⟨rfl, rfl, rfl⟩

theorem freed_dev (k : Fin numDevices) (s : MassState) : (freeSlot k (usbMassRelease k s)).dev =
    Function.update s.dev k
      { s.dev k with
        bulkEpI := -1, bulkEpO := -1, controlEp := -1, conn := false, conf := false, devId := -1 } := by
  simp [freeSlot, usbMassRelease]

/-- The pipes and the semaphore of a slot go with the slot. -/
theorem Accounted.freed (h : Accounted s) (hk : (s.dev k).devId ≠ -1) :
    Accounted (freeSlot k (usbMassRelease k s)) := by
  refine h.modify (freed_dev k s) (fun e => absurd rfl e) (fun e => absurd rfl e) ?_ ?_
  · intro p c hp
    obtain ⟨hold, hclosed⟩ := mem_release_pipes hp
    refine .inr ⟨hold, ?_⟩
    rintro rfl
    obtain ⟨h0, -, j, hj, hep⟩ := h.pipe _ _ hold
    obtain rfl := h.distinct j k hj (hj ▸ hk)
    obtain ⟨hI, hO⟩ := hclosed h0
    exact hep.elim (fun e => hI e.symm) (fun e => hO e.symm)
  · intro n c hn
    have hn' := List.mem_filter.mp hn
    have hnot : n ≠ (s.dev k).ioSema := by simpa [usbMassRelease] using hn'.2
    refine .inr ⟨hn'.1, ?_⟩
    rintro rfl
    obtain ⟨-, j, hj, hio⟩ := h.sema _ _ hn'.1
    obtain rfl := h.distinct j k hj (hj ▸ hk)
    exact hnot hio.symm

/-- Either the device is in no slot, or its slot is freed. -/
theorem Accounted.disconnect_cases (h : Accounted s) (hd : 0 < d) :
    (usbMassDisconnect d s = s ∧ ∀ k, (s.dev k).devId ≠ d) ∨
      ∃ k, (s.dev k).devId = d ∧
        usbMassDisconnect d s = scsiDisconnect k (freeSlot k (usbMassRelease k s)) := by
  unfold usbMassDisconnect
  cases hfind : usbMassFindDevice s.dev d false with
  | none => exact .inl ⟨rfl, fun k => (findDevice_none hfind k).1⟩
  | some k =>
      have hk : (s.dev k).devId = d := by
        rcases findDevice_some hfind with hk | ⟨e, -⟩
        · exact hk
        · cases e
      have hconn : (s.dev k).conn = true := h.conn k (by omega)
      exact .inr ⟨k, hk, if_pos hconn⟩

theorem Accounted.disconnect (h : Accounted s) (hd : 0 < d) : Accounted (usbMassDisconnect d s) := by
  rcases h.disconnect_cases hd with ⟨e, -⟩ | ⟨k, hk, e⟩
  · rw [e]
    exact h
  · rw [e]
    obtain ⟨hdev, hpipes, hsemas⟩ := scsiDisconnect_same k (freeSlot k (usbMassRelease k s))
    exact (h.freed (k := k) (by omega)).of_same hdev hpipes hsemas

theorem Accounted.disconnected (h : Accounted s) (hd : 0 < d) (j : Fin numDevices) :
    ((usbMassDisconnect d s).dev j).devId ≠ d := by
  rcases h.disconnect_cases hd with ⟨e, hnone⟩ | ⟨k, hk, e⟩
  · rw [e]
    exact hnone j
  · rw [e, (scsiDisconnect_same k _).1, freed_dev]
    by_cases hj : j = k
    · subst hj
      rw [Function.update_self]
      show (-1 : Int) ≠ d
      omega
    · rw [Function.update_of_ne hj]
      exact fun e => hj (h.distinct j k (e.trans hk.symm) (by omega))

/-! ## Connecting -/

/-- The slot's pipes are those opened for `d` so far; the others were open before. -/
def Opened (d : Int) (pipes : List (Int × Int)) (r : MassDev × List (Int × Int)) : Prop :=
  ∀ p c, (p, c) ∈ r.2 → (p, c) ∈ pipes ∨ 0 ≤ p ∧ c = d ∧ (r.1.bulkEpI = p ∨ r.1.bulkEpO = p)

theorem mem_openPipe {p q c : Int} {pipes : List (Int × Int)} (h : (q, c) ∈ openPipe p d pipes) :
    (q, c) ∈ pipes ∨ 0 ≤ q ∧ q = p ∧ c = d := by
  unfold openPipe at h
  split at h
  · rcases List.mem_cons.mp h with e | h
    · cases e
      exact .inr ⟨‹_›, rfl, rfl⟩
    · exact .inl h
  · exact .inl h

theorem Opened.probeEndpoint {pipes : List (Int × Int)} {r : MassDev × List (Int × Int)}
    (h : Opened d pipes r) (endpoint : EndpointDescriptor) (answer : Int) :
    Opened d pipes (usbBulkProbeEndpoint d endpoint answer r) := by
  unfold usbBulkProbeEndpoint
  split
  · split
    · rename_i hout
      intro p c hp
      rcases mem_openPipe hp with hp | ⟨h0, e, ec⟩
      · -- a pipe that is open is not the one that the slot did not have
        rcases h p c hp with hold | ⟨h0, ec, hI | hO⟩
        · exact .inl hold
        · exact .inr ⟨h0, ec, .inl hI⟩
        · omega
      · exact .inr ⟨h0, ec, .inr e.symm⟩
    · split
      · rename_i hin
        intro p c hp
        rcases mem_openPipe hp with hp | ⟨h0, e, ec⟩
        · rcases h p c hp with hold | ⟨h0, ec, hI | hO⟩
          · exact .inl hold
          · omega
          · exact .inr ⟨h0, ec, .inr hO⟩
        · exact .inr ⟨h0, ec, .inl e.symm⟩
      · exact h
  · exact h

theorem probeEndpoint_devId (endpoint : EndpointDescriptor) (answer : Int)
    (r : MassDev × List (Int × Int)) : (usbBulkProbeEndpoint d endpoint answer r).1.devId = r.1.devId := by
  unfold usbBulkProbeEndpoint
  split
  · split
    · rfl
    · split <;> rfl
  · rfl

variable {config : ConfigDescriptor} {env : Resources} {desc : Descriptors}

theorem probeEndpoints_opened {dev : MassDev} {pipes : List (Int × Int)} :
    Opened d pipes (probeEndpoints d config env (dev, pipes)) ∧
      (probeEndpoints d config env (dev, pipes)).1.devId = dev.devId := by
  unfold probeEndpoints
  refine List.foldlRecOn (motive := fun r => Opened d pipes r ∧ r.1.devId = dev.devId) _ _ ?_ ?_
  · exact ⟨fun p c hp => .inl hp, rfl⟩
  · intro r hr i _
    exact ⟨hr.1.probeEndpoint _ _, (probeEndpoint_devId _ _ r).trans hr.2⟩

/-- The slot that `usb_mass_connect` fills in, and what it makes of the endpoints. -/
def scanned (d : Int) (config : ConfigDescriptor) (env : Resources) (k : Fin numDevices)
    (s : MassState) : MassDev × List (Int × Int) :=
  probeEndpoints d config env (prepared config env (s.dev k), s.pipes)

theorem scanned_devId (hk : (s.dev k).devId = -1) : (scanned d config env k s).1.devId = -1 :=
  probeEndpoints_opened.2.trans hk

theorem mem_scanned {p c : Int} (h : (p, c) ∈ (scanned d config env k s).2) :
    (p, c) ∈ s.pipes ∨ 0 ≤ p ∧ c = d ∧
      ((scanned d config env k s).1.bulkEpI = p ∨ (scanned d config env k s).1.bulkEpO = p) :=
  probeEndpoints_opened.1 p c h

/-- With the device in no slot, either all slots are taken or a free one is filled in. -/
theorem connect_cases (config : ConfigDescriptor) (env : Resources)
    (hfree : ∀ k, (s.dev k).devId ≠ d) :
    (usbMassConnect d config env s = (1, s) ∧ ∀ k, (s.dev k).devId ≠ -1) ∨
      ∃ k, (s.dev k).devId = -1 ∧
        usbMassConnect d config env s = finishConnect d config env k (scanned d config env k s) s := by
  unfold usbMassConnect
  cases hfind : usbMassFindDevice s.dev d true with
  | none => exact .inl ⟨rfl, fun k => (findDevice_none hfind k).2 rfl⟩
  | some k =>
      have hk : (s.dev k).devId = -1 := by
        rcases findDevice_some hfind with hk | ⟨-, hk⟩
        · exact absurd hk (hfree k)
        · exact hk
      exact .inr ⟨k, hk, if_neg (not_not.mpr hk)⟩

/-- The two ways in which `usb_mass_connect` ends once it has a slot and a semaphore. -/
theorem finishConnect_cases (d : Int) (config : ConfigDescriptor) (k : Fin numDevices) (s : MassState)
    (hsema : 0 ≤ env.sema) :
    (((scanned d config env k s).1.bulkEpI < 0 ∨ (scanned d config env k s).1.bulkEpO < 0) ∧
      finishConnect d config env k (scanned d config env k s) s = (-1, usbMassRelease k { s with
        dev := Function.update s.dev k (scanned d config env k s).1
        pipes := (scanned d config env k s).2 })) ∨
    (0 ≤ (scanned d config env k s).1.bulkEpI ∧ 0 ≤ (scanned d config env k s).1.bulkEpO ∧
      finishConnect d config env k (scanned d config env k s) s = (0, { s with
        dev := Function.update s.dev k
          { (scanned d config env k s).1 with
            ioSema := env.sema, configId := config.bConfigurationValue, conn := true, devId := d }
        pipes := (scanned d config env k s).2
        semas := (env.sema, d) :: s.semas
        updateSema := true })) := by
  unfold finishConnect
  split
  · exact .inl ⟨‹_›, rfl⟩
  · rw [if_neg (by omega)]
    exact .inr ⟨by omega, by omega, rfl⟩

/-- What a connection attempt without enough endpoints opened is closed again. -/
theorem abandoned_pipes : (usbMassRelease k { s with
      dev := Function.update s.dev k (scanned d config env k s).1
      pipes := (scanned d config env k s).2 }).pipes ⊆ s.pipes := by
  rintro ⟨p, c⟩ hp
  obtain ⟨hscan, hclosed⟩ := mem_release_pipes hp
  rcases mem_scanned hscan with hold | ⟨h0, -, hep⟩
  · exact hold
  · have hne := hclosed h0
    simp only [Function.update_self] at hne
    exact absurd hep (not_or.mpr ⟨fun e => hne.1 e.symm, fun e => hne.2 e.symm⟩)

theorem Accounted.connect (h : Accounted s) (hd : 0 < d) (hfree : ∀ k, (s.dev k).devId ≠ d)
    (hsema : 0 ≤ env.sema) : Accounted (usbMassConnect d config env s).2 := by
  rcases connect_cases config env hfree with ⟨e, -⟩ | ⟨k, hk, e⟩
  · rw [e]
    exact h
  rw [e]
  rcases finishConnect_cases d config k s hsema with ⟨-, e⟩ | ⟨-, -, e⟩
  · rw [e]
    refine h.modify_free (k := k) hk ?_ (Function.update_idem _ _ _) abandoned_pipes rfl
    simp [scanned_devId hk]
  · rw [e]
    refine h.modify (k := k) rfl (fun _ => rfl) (fun _ j _ => hfree j) ?_ ?_
    · intro p c hp
      rcases mem_scanned hp with hold | ⟨h0, ec, hep⟩
      · refine .inr ⟨hold, ?_⟩
        rw [hk]
        exact (h.pipe p c hold).2.1.symm
      · exact .inl ⟨h0, by omega, ec.symm, hep⟩
    · intro n c hn
      rcases List.mem_cons.mp hn with en | hold
      · cases en
        exact .inl ⟨by omega, rfl, rfl⟩
      · refine .inr ⟨hold, ?_⟩
        rw [hk]
        exact (h.sema n c hold).1.symm

theorem probe_absent (h : Accounted s) (hd : 0 < d) (hprobe : usbMassProbe d desc s = true)
    (k : Fin numDevices) : (s.dev k).devId ≠ d := by
  unfold usbMassProbe at hprobe
  cases hfind : usbMassFindDevice s.dev d false with
  | none => exact (findDevice_none hfind k).1
  | some j =>
      have hj : (s.dev j).devId = d := by
        rcases findDevice_some hfind with hj | ⟨e, -⟩
        · exact hj
        · cases e
      have hconn : (s.dev j).conn = true := h.conn j (by omega)
      simp [hfind, hconn] at hprobe

theorem Accounted.connectNewDevice (h : Accounted s) (hd : 0 < d) (hsema : 0 ≤ env.sema) :
    Accounted (connectNewDevice d desc env s) := by
  unfold Usb.connectNewDevice
  split
  · split
    · rename_i hprobe
      exact h.connect hd (probe_absent h hd hprobe) hsema
    · exact h
  · exact h

/-! ## Runs -/

/-- Semaphores can be created, and the control requests of the set-up fail only when the
device has gone. -/
def Careful (s : MassState) : Event → Prop
  | .plug _ _ env => 0 ≤ env.sema
  | .configured ret => ∀ k rest, s.thread = .configuring k rest →
      ret = usbRcOk ∨ (s.dev k).devId = -1
  | .interfaced ret => ∀ k rest, s.thread = .interfacing k rest →
      ret = usbRcOk ∨ ret = usbRcStall ∨ (s.dev k).devId = -1
  | _ => True

theorem Accounted.release_free (h : Accounted s) (hk : (s.dev k).devId = -1) (th : Phase) :
    Accounted { usbMassRelease k s with thread := th } := by
  have hreleased : Accounted (usbMassRelease k s) := by
    refine h.modify_free (k := k) hk ?_ rfl release_pipes_subset rfl
    exact hk
  exact hreleased.of_same rfl rfl rfl

theorem Accounted.step {e : Event} (h : Accounted s) (ok : Careful s e) (hstep : Step s e t) :
    Accounted t := by
  cases hstep with
  | plug hd => exact h.connectNewDevice hd ok
  | unplug hd => exact h.disconnect hd
  | wake ht hsema => exact h.of_same rfl rfl rfl
  | @configured ret k rest ht =>
      unfold setConfiguration
      split
      · rename_i hret
        exact h.release_free ((ok k rest ht).resolve_left hret) _
      · exact h.of_same rfl rfl rfl
  | @interfaced ret k rest ht =>
      unfold setInterface
      split
      · rename_i hret
        exact h.release_free (((ok k rest ht).resolve_left hret.1).resolve_left hret.2) _
      · -- only the bit for a finished configuration changes
        refine h.modify (k := k) rfl (h.conn k) ?_ ?_ ?_
        · intro hk j hj e
          exact hj (h.distinct j k e (e ▸ hk))
        · intro p c hp
          by_cases e : (s.dev k).devId = c
          · obtain ⟨h0, hc, j, hj, hep⟩ := h.pipe p c hp
            obtain rfl := h.distinct j k (hj.trans e.symm) (hj ▸ hc)
            exact .inl ⟨h0, hc, hj, hep⟩
          · exact .inr ⟨hp, e⟩
        · intro n c hn
          by_cases e : (s.dev k).devId = c
          · obtain ⟨hc, j, hj, hio⟩ := h.sema n c hn
            obtain rfl := h.distinct j k (hj.trans e.symm) (hj ▸ hc)
            exact .inl ⟨hc, hj, hio⟩
          · exact .inr ⟨hn, e⟩
  | claim ht =>
      unfold Usb.claim
      split <;> exact h.of_same rfl rfl rfl
  | command ht hans => exact h.of_same rfl rfl rfl
  | connect ht => exact h.of_same rfl rfl rfl

theorem accounted_invariant : massStorage.Invariant Careful Accounted where
  init := by
    intro s h
    constructor
    · intro k hk
      exact absurd (h.dev k).1 hk
    · intro j k _ hj
      exact absurd (h.dev j).1 hj
    · intro p d hp
      rw [h.pipes] at hp
      cases hp
    · intro n d hn
      rw [h.semas] at hn
      cases hn
  step := fun _ _ _ _ h ok hstep => h.step ok hstep

/-! ## The table in every run -/

/-- A device that the probe accepts, with a bulk endpoint for each direction whose pipe can
be opened. -/
structure Usable (desc : Descriptors) (config : ConfigDescriptor) (env : Resources) : Prop where
  acceptable : acceptable desc = true
  configured : desc.config = some config
  out : ∃ i, i < config.intf.bNumEndpoints ∧ (config.endpoint i).bmAttributes = 2 ∧
    (config.endpoint i).bEndpointAddress &&& 0x80 = 0 ∧ 0 ≤ env.pipe i
  inp : ∃ i, i < config.intf.bNumEndpoints ∧ (config.endpoint i).bmAttributes = 2 ∧
    (config.endpoint i).bEndpointAddress &&& 0x80 = 0x80 ∧ 0 ≤ env.pipe i
  sema : 0 ≤ env.sema

/-- A slot's pipe, once open, is kept. -/
theorem probeEndpoint_keeps (endpoint : EndpointDescriptor) (answer : Int)
    (r : MassDev × List (Int × Int)) :
    (0 ≤ r.1.bulkEpI → 0 ≤ (usbBulkProbeEndpoint d endpoint answer r).1.bulkEpI) ∧
      (0 ≤ r.1.bulkEpO → 0 ≤ (usbBulkProbeEndpoint d endpoint answer r).1.bulkEpO) := by
  unfold usbBulkProbeEndpoint
  split
  · split
    · exact ⟨id, fun h => by omega⟩
    · split
      · exact ⟨fun h => by omega, id⟩
      · exact ⟨id, id⟩
  · exact ⟨id, id⟩

theorem probeEndpoint_out {endpoint : EndpointDescriptor} {answer : Int}
    (r : MassDev × List (Int × Int)) (hbulk : endpoint.bmAttributes = 2)
    (hdir : endpoint.bEndpointAddress &&& 0x80 = 0) (h0 : 0 ≤ answer) :
    0 ≤ (usbBulkProbeEndpoint d endpoint answer r).1.bulkEpO := by
  unfold usbBulkProbeEndpoint
  rw [if_pos hbulk]
  split
  · exact h0
  · rw [if_neg (by omega)]
    omega

theorem probeEndpoint_in {endpoint : EndpointDescriptor} {answer : Int}
    (r : MassDev × List (Int × Int)) (hbulk : endpoint.bmAttributes = 2)
    (hdir : endpoint.bEndpointAddress &&& 0x80 = 0x80) (h0 : 0 ≤ answer) :
    0 ≤ (usbBulkProbeEndpoint d endpoint answer r).1.bulkEpI := by
  unfold usbBulkProbeEndpoint
  rw [if_pos hbulk, if_neg (by omega)]
  split
  · exact h0
  · omega

/-- Among the endpoints is one that is met with its pipe opening, and from there on `P`
holds. -/
theorem probeEndpoints_reaches {P : MassDev × List (Int × Int) → Prop} {n : Nat}
    (hkeep : ∀ i r, P r → P (usbBulkProbeEndpoint d (config.endpoint i) (env.pipe i) r))
    (hmeet : ∃ i, i < n ∧ ∀ r, P (usbBulkProbeEndpoint d (config.endpoint i) (env.pipe i) r))
    (r : MassDev × List (Int × Int)) :
    P ((List.range n).foldl
      (fun r i => usbBulkProbeEndpoint d (config.endpoint i) (env.pipe i) r) r) := by
  obtain ⟨i, hi, hPi⟩ := hmeet
  induction n with
  | zero => omega
  | succ n ih =>
      rw [List.range_succ, List.foldl_append]
      by_cases e : i = n
      · subst e
        exact hPi _
      · exact hkeep n _ (ih (by omega))

theorem Usable.pipes (h : Usable desc config env) :
    0 ≤ (scanned d config env k s).1.bulkEpI ∧ 0 ≤ (scanned d config env k s).1.bulkEpO := by
  constructor
  · obtain ⟨i, hi, hbulk, hdir, h0⟩ := h.inp
    refine probeEndpoints_reaches (P := fun r => 0 ≤ r.1.bulkEpI)
      (fun _ r => (probeEndpoint_keeps _ _ r).1) ⟨i, by omega, fun r => ?_⟩ _
    exact probeEndpoint_in r hbulk hdir h0
  · obtain ⟨i, hi, hbulk, hdir, h0⟩ := h.out
    refine probeEndpoints_reaches (P := fun r => 0 ≤ r.1.bulkEpO)
      (fun _ r => (probeEndpoint_keeps _ _ r).2) ⟨i, by omega, fun r => ?_⟩ _
    exact probeEndpoint_out r hbulk hdir h0

/-- Nothing is open for `d`. -/
def Clean (d : Int) (s : MassState) : Prop := (∀ e ∈ s.pipes, e.2 ≠ d) ∧ ∀ e ∈ s.semas, e.2 ≠ d

/-- What the slots promise to the USB stack, which connects a device only if the probe
accepts it. -/
structure TableSound (s : MassState) : Prop where
  distinct : ∀ j k, (s.dev j).devId = (s.dev k).devId → (s.dev j).devId ≠ -1 → j = k
  disconnected : ∀ d, 0 < d →
    (∀ k, ((usbMassDisconnect d s).dev k).devId ≠ d) ∧ Clean d (usbMassDisconnect d s)
  failed : ∀ d desc config env, 0 < d → desc.config = some config →
    usbMassProbe d desc s = true → 0 ≤ env.sema → (usbMassConnect d config env s).1 ≠ 0 →
      (∀ k, ((usbMassConnect d config env s).2.dev k).devId = (s.dev k).devId) ∧
        Clean d (usbMassConnect d config env s).2
  again : ∀ d desc config env, 0 < d → Usable desc config env →
    (∃ k, ((usbMassDisconnect d s).dev k).devId = -1) →
      usbMassProbe d desc (usbMassDisconnect d s) = true ∧
        (usbMassConnect d config env (usbMassDisconnect d s)).1 = 0 ∧
        ∃ k, ((usbMassConnect d config env (usbMassDisconnect d s)).2.dev k).devId = d

/-- A connection that fails leaves the slots as they were. -/
theorem connect_failed (hfree : ∀ k, (s.dev k).devId ≠ d) (hsema : 0 ≤ env.sema)
    (hret : (usbMassConnect d config env s).1 ≠ 0) (j : Fin numDevices) :
    ((usbMassConnect d config env s).2.dev j).devId = (s.dev j).devId := by
  rcases connect_cases config env hfree with ⟨e, -⟩ | ⟨k, hk, e⟩
  · rw [e]
  rw [e] at hret ⊢
  rcases finishConnect_cases d config k s hsema with ⟨-, e⟩ | ⟨-, -, e⟩
  · rw [e]
    by_cases hj : j = k
    · subst hj
      simp [usbMassRelease, scanned_devId hk, hk]
    · simp [usbMassRelease, hj]
  · rw [e] at hret
    exact absurd rfl hret

/-- With a slot free, a usable device gets one. -/
theorem Usable.connects (h : Usable desc config env) (hfree : ∀ k, (s.dev k).devId ≠ d)
    (hk : (s.dev k).devId = -1) : (usbMassConnect d config env s).1 = 0 ∧
      ∃ j, ((usbMassConnect d config env s).2.dev j).devId = d := by
  rcases connect_cases config env hfree with ⟨-, hfull⟩ | ⟨j, -, e⟩
  · exact absurd hk (hfull k)
  rw [e]
  rcases finishConnect_cases d config j s h.sema with ⟨hbad, -⟩ | ⟨-, -, e⟩
  · have hpipes := h.pipes (d := d) (k := j) (s := s)
    omega
  · rw [e]
    refine ⟨rfl, j, ?_⟩
    simp

theorem Usable.probed (h : Usable desc config env) (hfree : ∀ k, (s.dev k).devId ≠ d) :
    usbMassProbe d desc s = true := by
  unfold usbMassProbe
  rw [findDevice_absent hfree]
  exact h.acceptable

theorem mass_table_sound (h : massStorage.Reachable Careful s) : TableSound s := by
  have hacc := accounted_invariant.holds h
  refine ⟨hacc.distinct, ?_, ?_, ?_⟩
  · intro d hd
    have hgone := hacc.disconnected hd
    exact ⟨hgone, (hacc.disconnect hd).none_open hgone⟩
  · intro d desc config env hd _ hprobe hsema hret
    have hfree := probe_absent hacc hd hprobe
    have hsame := connect_failed hfree hsema hret
    refine ⟨hsame, (hacc.connect hd hfree hsema).none_open ?_⟩
    intro k
    rw [hsame k]
    exact hfree k
  · intro d desc config env hd husable hslot
    obtain ⟨k, hk⟩ := hslot
    have hfree := hacc.disconnected hd
    exact ⟨husable.probed hfree, husable.connects hfree hk⟩

/-! ## A memory stick -/

def stickConfig : ConfigDescriptor where
  bNumInterfaces := 1
  wTotalLength := 32
  bConfigurationValue := 1
  intf := ⟨0, 0, 2, 0x08, 0x06, 0x50⟩
  endpoint i := if i = 0 then ⟨2, 0x81⟩ else ⟨2, 0x02⟩

def stick : Descriptors := ⟨some 1, some stickConfig⟩

/-- The pipes 5 and 6 and the semaphore 7. -/
def stickResources : Resources := ⟨4, fun i => 5 + i, 7⟩

def startState : MassState where
  dev _ := ⟨0, 0, 0, -1, 0, false, false, 0, 0, 0⟩
  pipes := []
  semas := []
  updateSema := false
  thread := .idle
  bd _ := ⟨none, false, 0, 0⟩
  fault := false

theorem startState_started : Started startState where
  dev _ := ⟨rfl, rfl, rfl⟩
  pipes := rfl
  semas := rfl
  thread := rfl
  bd _ := ⟨rfl, rfl⟩
  fault := rfl

def stickPlugged : MassState := connectNewDevice 1 stick stickResources startState

theorem mass_table_sound_stick : (stickPlugged.dev 0).devId = 1 ∧ TableSound stickPlugged :=
  ⟨by decide, mass_table_sound
    ((System.Reachable.init startState_started).next (a := .plug 1 stick stickResources)
      (by show (0 : Int) ≤ 7; decide) (.plug (by decide)))⟩

/-- The stick refuses to be configured and is pulled out: its slot is lost with the semaphore,
and putting the stick in again fails although the other slot is free. -/
theorem refused_slot_lost : ∃ s, massStorage.Reachable (fun _ _ => True) s ∧
    ((usbMassDisconnect 1 s).dev 0).devId = 1 ∧ (usbMassDisconnect 1 s).semas = [(7, 1)] ∧
    ((usbMassDisconnect 1 s).dev 1).devId = -1 ∧
    usbMassProbe 1 stick (usbMassDisconnect 1 s) = true ∧
    (usbMassConnect 1 stickConfig stickResources (usbMassDisconnect 1 s)).1 = 1 := by
  have hplug : Step startState (.plug 1 stick stickResources) stickPlugged := .plug (by decide)
  have hwake : Step stickPlugged .wake (wake stickPlugged) := .wake rfl rfl
  have hrefused : Step (wake stickPlugged) (.configured 4)
      (setConfiguration 4 0 [] (wake stickPlugged)) := .configured (by decide)
  refine ⟨setConfiguration 4 0 [] (wake stickPlugged), ?_, by decide⟩
  exact (((System.Reachable.init startState_started).next trivial hplug).next trivial hwake).next
    trivial hrefused

end BdmAssault.Usb
