import OpenFlash.Driver.AdminChannel

/-! From a reset device to a served I/O queue: the commands of `openflash_probe` and of
`openflash_reset_controller`, sent over the rings of the admin queue. -/
namespace OpenFlash.Driver
open Abi Support Support.Ring

inductive ProbeErrno where
  | admin (e : Errno)
  | enodev
  deriving DecidableEq, Repr

namespace AdminLink

/-- The number of blocks that becomes `capacity_blocks`. -/
def openflashAdminIdentify (rings : AdminRings) (fuel : ℕ) (fileOk : Bool) (l : AdminLink) :
    Option (Except ProbeErrno UInt64 × AdminLink) :=
  (l.openflashAdminCommand rings fuel fileOk { opcode := Qemu.adminIdentify }).map fun (r, l) =>
    match r with
    | .error e => (.error (.admin e), l)
    | .ok capacity => (if capacity = 0 then .error .enodev else .ok capacity, l)

def openflashCreateIoQueue (rings : AdminRings) (fuel : ℕ) (fileOk : Bool) (l : AdminLink) :
    Option (Except Errno Unit × AdminLink) :=
  (l.openflashAdminCommand rings fuel fileOk
    (Driver.openflashCreateIoQueue l.queue.depth rings.dma.ioSq rings.dma.ioCq)).map fun (r, l) =>
    match r with
    | .error e => (.error e, l)
    | .ok result => (if result = 1 then .ok () else .error .eproto, l)

def openflashResetController (rings : AdminRings) (fuel : ℕ) (fileOk : Bool) (l : AdminLink) :
    Option (Except Errno Unit × AdminLink) :=
  match (l.restart rings).pollReady with
  | .error e => some (.error e, l.restart rings)
  | .ok _ => (l.restart rings).openflashCreateIoQueue rings fuel fileOk

end AdminLink

/-- `openflash_probe` between the mapping of the device and the registration of the disk, when
no allocation fails; `pci_alloc_irq_vectors` has turned MSI-X on. -/
def openflashProbe (rings : AdminRings) (fuel : ℕ) (fileOk : Bool) (device : Qemu.OpenFlashState)
    (memory : Memory) : Option (Except ProbeErrno UInt64 × AdminLink) :=
  let setup := openflashSetupAdminQueue none rings.depth rings.dma.adminSq rings.dma.adminCq device
  let link (q : AdminQueue) : AdminLink := ⟨q, .start setup.2 memory, true⟩
  match setup.1 with
  | .error e => some (.error (.admin e), link (.fresh rings.depth))
  | .ok q =>
      ((link q).openflashAdminIdentify rings fuel fileOk).bind fun (r, l) =>
        match r with
        | .error e => some (.error e, l)
        | .ok capacity =>
            (l.openflashCreateIoQueue rings fuel fileOk).map fun (r, l) =>
              match r with
              | .error e => (.error (.admin e), l)
              | .ok () => (.ok capacity, l)

/-- An event that moves no data. -/
def AdminEvent.Dataless : AdminEvent → Prop
  | .command _ cmd => Qemu.Dataless cmd
  | .restart => True

instance : (event : AdminEvent) → Decidable event.Dataless
  | .command _ cmd => inferInstanceAs (Decidable (Qemu.Dataless cmd))
  | .restart => inferInstanceAs (Decidable True)

/-- The device behind the link is the one that is called directly, apart from its admin
queue. -/
def Serves (rings : AdminRings) (l : AdminLink) (s : Qemu.OpenFlashState) : Prop :=
  ∃ n, Linked rings n l ∧ l.machine.device = Qemu.updateQueue s 0 (rings.queueAt n)

section
variable {rings : AdminRings} {n fuel : ℕ} {l : AdminLink} {memory : Memory}

theorem openflashMmioWrite_register {addr : ℕ} (h : addr < 0x1000) (value : UInt64)
    (s : Qemu.OpenFlashState) : (Qemu.openflashMmioWrite addr value s).2 = none := by
  unfold Qemu.openflashMmioWrite
  split
  · rfl
  · rfl
  · rfl
  · rfl
  · rfl
  · rfl
  · unfold Qemu.writeDoorbell
    rw [if_neg (by omega)]

/-- Register writes below the doorbells enter no loop. -/
theorem run_registers (writes : List (ℕ × UInt64)) (h : ∀ w ∈ writes, w.1 < 0x1000)
    {m : Qemu.Machine} (hidle : m.loop = none) :
    m.run (writes.map fun w => .mmioWrite w.1 w.2)
      = { m with device := writeRegisters writes m.device } := by
  induction writes generalizing m with
  | nil => rfl
  | cons w rest ih =>
    have hstep : m.step (.mmioWrite w.1 w.2)
        = { m with device := (Qemu.openflashMmioWrite w.1 w.2 m.device).1 } := by
      rw [Qemu.Machine.step, Qemu.Machine.mmioWrite, hidle]
      dsimp only
      rw [openflashMmioWrite_register (h w List.mem_cons_self)]
    rw [List.map_cons, Qemu.Machine.run, List.foldl_cons, hstep]
    exact ih (fun v hv => h v (List.mem_cons_of_mem w hv)) hidle

theorem cqe_of_zero {slot : ℕ} (hslot : slot < rings.depth)
    (h : ∀ a, rings.dma.adminCq.toNat ≤ a → a < rings.dma.adminCq.toNat + 64 * rings.depth →
      memory a = 0) : rings.cqe memory slot = ⟨0, 0, 0, 0, 0, 0⟩ := by
  have hcqe : rings.cqe memory slot = rings.cqe (fun _ => 0) slot := AdminRings.cqe_congr hslot h
  rw [hcqe, AdminRings.cqe]
  simp [OpenFlashCompletion.read, readLE]

/-- Zeroed rings and a device that has just taken their addresses. -/
theorem linked_zero (hqueue : l.queue.depth = rings.depth ∧ l.queue.sqTail = 0 ∧
      l.queue.cqHead = 0 ∧ l.queue.cqPhase = 1)
    (hmsix : l.msixEnabled = true) (hidle : l.machine.loop = none)
    (hready : l.machine.device.status = Qemu.statusReady)
    (hattached : l.machine.device.queues 0 = rings.queueAt 0)
    (hzero : ∀ a, rings.dma.adminCq.toNat ≤ a →
      a < rings.dma.adminCq.toNat + 64 * rings.depth → l.machine.memory a = 0) :
    Linked rings 0 l := by
  obtain ⟨hdepth, hsqTail, hcqHead, hcqPhase⟩ := hqueue
  refine
    { depth := hdepth, sqTail := ?_, cqHead := ?_, cqPhase := ?_, msix := hmsix, idle := hidle
      ready := ?_, attached := hattached, phases := ⟨?_, ?_⟩ }
  · rw [hsqTail, Nat.zero_mod]
  · rw [hcqHead, Nat.zero_mod]
  · rw [hcqPhase, phase_zero]
  · rw [hready]
    decide
  · intro m _ hm
    exact absurd hm (Nat.not_lt_zero m)
  · intro slot _ hslot
    rw [AdminRings.phaseAt, cqe_of_zero hslot hzero]
    rfl

theorem overwrite_zero {base size a : ℕ} (h : memory a = 0) :
    overwrite memory base size (fun _ => 0) a = 0 := by
  unfold overwrite
  split_ifs
  · rfl
  · exact h

theorem cleared_adminCq (memory : Memory) {a : ℕ} (hlo : rings.dma.adminCq.toNat ≤ a)
    (hhi : a < rings.dma.adminCq.toNat + 64 * rings.depth) :
    AdminLink.cleared rings rings.depth memory a = 0 := by
  apply overwrite_zero
  apply overwrite_zero
  exact if_pos ⟨hlo, hhi⟩

/-- The writes that enable the admin queue of a device whose queue is reset. -/
theorem writeRegisters_attach {s : Qemu.OpenFlashState} (hreset : s.queues 0 = { cqPhase := 1 }) :
    writeRegisters (enableWrites rings.depth rings.dma.adminSq rings.dma.adminCq) s
      = Qemu.updateQueue { s with control := 1, status := Qemu.statusReady } 0
        (rings.queueAt 0) := by
  have hqueue : rings.queueAt 0
      = { s.queues 0 with
          sqAddr := rings.dma.adminSq
          cqAddr := rings.dma.adminCq
          depth := rings.depth
          enabled := true } := by
    rw [hreset, AdminRings.queueAt, Nat.zero_mod, phase_zero]
  rw [writeRegisters_enable rings.depth_valid, hqueue]
  rfl

theorem openflashReset_adminQueue (s : Qemu.OpenFlashState) :
    (Qemu.openflashReset s).queues 0 = { cqPhase := 1 } := by
  simp [Qemu.openflashReset]

theorem writeRegisters_cons (w : ℕ × UInt64) (writes : List (ℕ × UInt64))
    (s : Qemu.OpenFlashState) :
    writeRegisters (w :: writes) s = writeRegisters writes (Qemu.openflashMmioWrite w.1 w.2 s).1 :=
  rfl

/-- A reset and the writes that follow it. -/
theorem writeRegisters_restart (rings : AdminRings) (s : Qemu.OpenFlashState) :
    writeRegisters ((0x0010, 2) ::
        enableWrites rings.depth rings.dma.adminSq rings.dma.adminCq) s
      = Qemu.updateQueue { Qemu.openflashReset s with control := 1, status := Qemu.statusReady } 0
        (rings.queueAt 0) := by
  have hreset : (Qemu.openflashMmioWrite 0x0010 2 s).1 = Qemu.openflashReset s := by
    show Qemu.writeControl 2 s = _
    exact if_pos (by decide)
  rw [writeRegisters_cons, hreset, writeRegisters_attach (openflashReset_adminQueue s)]

namespace Linked

theorem restart_machine (h : Linked rings n l) :
    (l.restart rings).machine
      = { l.machine with
          device := Qemu.updateQueue
            { Qemu.openflashReset l.machine.device with
              control := 1
              status := Qemu.statusReady } 0 (rings.queueAt 0)
          memory := AdminLink.cleared rings rings.depth l.machine.memory } := by
  have hbelow : ∀ w ∈ (0x0010, 2) ::
      enableWrites rings.depth rings.dma.adminSq rings.dma.adminCq, w.1 < 0x1000 := by
    simp [enableWrites]
  have hidle : (l.machine.step (.guest (AdminLink.cleared rings rings.depth
      l.machine.memory))).loop = none := h.idle
  rw [AdminLink.restart, h.depth, run_registers _ hbelow hidle, writeRegisters_restart]
  rfl

theorem restart_adminCq (h : Linked rings n l) (a : ℕ) (hlo : rings.dma.adminCq.toNat ≤ a)
    (hhi : a < rings.dma.adminCq.toNat + 64 * rings.depth) :
    (l.restart rings).machine.memory a = 0 := by
  rw [h.restart_machine]
  exact cleared_adminCq l.machine.memory hlo hhi

/-- `openflash_reset_controller` up to its poll starts the rings anew. -/
theorem restart (h : Linked rings n l) :
    Linked rings 0 (l.restart rings) ∧
      (l.restart rings).machine.device
        = Qemu.updateQueue
          { Qemu.openflashReset l.machine.device with control := 1, status := Qemu.statusReady } 0
          (rings.queueAt 0) := by
  have hmachine := h.restart_machine
  refine ⟨linked_zero ⟨h.depth, rfl, rfl, rfl⟩ h.msix ?_ ?_ ?_ h.restart_adminCq, ?_⟩
  · rw [hmachine]
    exact h.idle
  · rw [hmachine]
    rfl
  · rw [hmachine]
    exact Qemu.updateQueue_self ..
  · rw [hmachine]

end Linked

/-- A call or a restart keeps the device behind the link and the device that is called directly
alike, and both answer alike. -/
theorem Serves.next {s : Qemu.OpenFlashState} (h : Serves rings l s) (hfuel : 2 ≤ fuel)
    {event : AdminEvent} (hevent : event.Dataless) :
    (l.next rings fuel event).1 = (directCall s event).1 ∧
      Serves rings (l.next rings fuel event).2 (directCall s event).2 := by
  obtain ⟨n, hlinked, hdevice⟩ := h
  cases event with
  | command fileOk cmd =>
    obtain ⟨l', hcall, hlinked', hdevice'⟩ :=
      hlinked.openflashAdminCommand hevent hfuel fileOk
    rw [hdevice, Qemu.openflashExecute_updateAdmin] at hcall hdevice'
    rw [Qemu.updateQueue_idem] at hdevice'
    rw [AdminLink.next, hcall]
    exact ⟨rfl, n + 1, hlinked', hdevice'⟩
  | restart =>
    obtain ⟨hlinked', hdevice'⟩ := hlinked.restart
    refine ⟨?_, 0, hlinked', ?_⟩
    · show some (l.restart rings).pollReady = some (.ok 0)
      rw [AdminLink.pollReady, if_pos hlinked'.ready]
    · show (l.restart rings).machine.device = _
      rw [hdevice', hdevice]
      rfl

theorem Serves.run {s : Qemu.OpenFlashState} (h : Serves rings l s) (hfuel : 2 ≤ fuel)
    (events : List AdminEvent) (hevents : ∀ event ∈ events, event.Dataless) :
    Serves rings (runOutputs (AdminLink.next rings fuel) l events).2
      (runOutputs directCall s events).2 := by
  have hstep : ∀ l s event, Serves rings l s → event.Dataless →
      Serves rings (AdminLink.next rings fuel l event).2 (directCall s event).2 :=
    fun _ _ _ hserves hevent => (hserves.next hfuel hevent).2
  exact runOutputs_related hstep events hevents h

/-- The link serves an I/O queue that agrees with the one of the driver. -/
structure Connected (rings : AdminRings) (sglDma : ℕ → UInt64) (l : AdminLink) : Prop where
  agrees : Transport.Agrees rings.depth (openflashSetupIoQueue rings.depth sglDma) l.machine.device
  created : l.machine.device.queues 1
    = Qemu.createdQueue (openflashCreateIoQueue rings.depth rings.dma.ioSq rings.dma.ioCq)

theorem Transport.Agrees.updateAdmin {d : ℕ} {driver : OpenflashQueue}
    {device : Qemu.OpenFlashState} (h : Agrees d driver device) (q : Qemu.OpenFlashQueue) :
    Agrees d driver (Qemu.updateQueue device 0 q) := by
  have hqueue : (Qemu.updateQueue device 0 q).queues 1 = device.queues 1 :=
    Qemu.updateQueue_of_ne device q (by decide)
  refine { h with enabled := ?_, deviceDepth := ?_, sqHead := ?_, cqTail := ?_, devicePhase := ?_ }
  · rw [hqueue]
    exact h.enabled
  · rw [hqueue]
    exact h.deviceDepth
  · rw [hqueue]
    exact h.sqHead
  · rw [hqueue]
    exact h.cqTail
  · rw [hqueue]
    exact h.devicePhase

theorem reply_createIoQueue {d : ℕ} {sqDma cqDma : UInt64}
    (h : Qemu.createIoqAccepted (openflashCreateIoQueue d sqDma cqDma)) (fileOk : Bool)
    (memory : Memory) (s : Qemu.OpenFlashState) :
    reply (Qemu.openflashExecute fileOk (openflashCreateIoQueue d sqDma cqDma) memory s)
      = .ok 1 := by
  have hopcode : ¬ (openflashCreateIoQueue d sqDma cqDma).opcode = Qemu.adminIdentify := by
    show ¬ Qemu.adminCreateIoq = Qemu.adminIdentify
    decide
  have hcreate : (openflashCreateIoQueue d sqDma cqDma).opcode = Qemu.adminCreateIoq := rfl
  unfold Qemu.openflashExecute
  dsimp only
  rw [if_neg hopcode, if_pos hcreate, Qemu.executeCreateIoq, if_pos h, reply, if_pos rfl]
  dsimp only
  rw [Transport.createdQid_eq]
  rfl

theorem openflashCreateIoQueue_dataless (d : ℕ) (sqDma cqDma : UInt64) :
    Qemu.Dataless (openflashCreateIoQueue d sqDma cqDma) := by
  show Qemu.adminCreateIoq ≠ Qemu.opRead ∧ Qemu.adminCreateIoq ≠ Qemu.opWrite
  decide

theorem capacity_blocks_ne_zero (s : Qemu.OpenFlashState) : s.capacity / Qemu.ofBlockSize ≠ 0 := by
  intro hzero
  have hle : Qemu.ofBlockSize.toNat ≤ s.capacity.toNat := s.capacity_valid.1
  have hnat := congrArg UInt64.toNat hzero
  rw [UInt64.toNat_div] at hnat
  have hpos : 0 < s.capacity.toNat / Qemu.ofBlockSize.toNat := Nat.div_pos hle (by decide)
  exact hpos.ne' hnat

namespace Linked

theorem openflashAdminIdentify (h : Linked rings n l) (hfuel : 2 ≤ fuel) (fileOk : Bool) :
    ∃ l', l.openflashAdminIdentify rings fuel fileOk
        = some (.ok (l.machine.device.capacity / Qemu.ofBlockSize), l') ∧
      Linked rings (n + 1) l' ∧ l'.machine.device.storage = l.machine.device.storage := by
  have hexecute : Qemu.openflashExecute fileOk { opcode := Qemu.adminIdentify } (fun _ => 0)
      l.machine.device
      = ⟨.success, l.machine.device.capacity / Qemu.ofBlockSize, l.machine.device, fun _ => 0,
        []⟩ := by
    unfold Qemu.openflashExecute
    exact if_pos rfl
  have hcmd : Qemu.Dataless { opcode := Qemu.adminIdentify } := by decide
  obtain ⟨l', hcall, hlinked, hdevice⟩ := h.openflashAdminCommand hcmd hfuel fileOk
  rw [hexecute] at hcall hdevice
  refine ⟨l', ?_, hlinked, ?_⟩
  · rw [AdminLink.openflashAdminIdentify, hcall, Option.map_some]
    dsimp only [reply]
    rw [if_pos rfl]
    dsimp only
    rw [if_neg (capacity_blocks_ne_zero _)]
  · rw [hdevice]
    rfl

theorem openflashCreateIoQueue (h : Linked rings n l)
    (hdma : rings.dma.ioSq ≠ 0 ∧ rings.dma.ioCq ≠ 0) (hfuel : 2 ≤ fuel) (fileOk : Bool)
    (sglDma : ℕ → UInt64) :
    ∃ l', l.openflashCreateIoQueue rings fuel fileOk = some (.ok (), l') ∧
      Linked rings (n + 1) l' ∧ Connected rings sglDma l' ∧
      l'.machine.device.storage = l.machine.device.storage := by
  have haccepted := Transport.openflashCreateIoQueue_accepted rings.depth_valid hdma.1 hdma.2
  have hagrees := Transport.openflashCreateIoQueue_agrees rings.depth_valid hdma.1 hdma.2 sglDma
    h.ready fileOk fun _ => 0
  have hstate := Transport.openflashExecute_createIoQueue haccepted fileOk (fun _ => 0)
    l.machine.device
  obtain ⟨l', hcall, hlinked, hdevice⟩ :=
    h.openflashAdminCommand (openflashCreateIoQueue_dataless ..) hfuel fileOk
  rw [reply_createIoQueue haccepted] at hcall
  refine ⟨l', ?_, hlinked, ⟨?_, ?_⟩, ?_⟩
  · rw [AdminLink.openflashCreateIoQueue, h.depth, hcall]
    rfl
  · rw [hdevice]
    exact hagrees.updateAdmin _
  · rw [hdevice, Qemu.updateQueue_of_ne _ _ (by decide), hstate]
    exact Qemu.updateQueue_self ..
  · rw [hdevice, hstate]
    rfl

/-- A controller reset brings the I/O queue back, whatever the admin queue went through. -/
theorem openflashResetController (h : Linked rings n l)
    (hdma : rings.dma.ioSq ≠ 0 ∧ rings.dma.ioCq ≠ 0) (hfuel : 2 ≤ fuel) (fileOk : Bool)
    (sglDma : ℕ → UInt64) :
    ∃ l', l.openflashResetController rings fuel fileOk = some (.ok (), l') ∧
      Linked rings 1 l' ∧ Connected rings sglDma l' ∧
      l'.machine.device.storage = l.machine.device.storage := by
  obtain ⟨hlinked, hdevice⟩ := h.restart
  obtain ⟨l', hcall, hlinked', hconnected, hstorage⟩ :=
    hlinked.openflashCreateIoQueue hdma hfuel fileOk sglDma
  refine ⟨l', ?_, hlinked', hconnected, ?_⟩
  · rw [AdminLink.openflashResetController, AdminLink.pollReady, if_pos hlinked.ready]
    exact hcall
  · rw [hstorage, hdevice]
    rfl

end Linked

/-- The admin queue after its setup on a reset device. -/
theorem openflashSetupAdminQueue_linked (rings : AdminRings) {device : Qemu.OpenFlashState}
    (hreset : device.queues 0 = { cqPhase := 1 })
    (hzero : ∀ a, rings.dma.adminCq.toNat ≤ a →
      a < rings.dma.adminCq.toNat + 64 * rings.depth → memory a = 0) :
    (openflashSetupAdminQueue none rings.depth rings.dma.adminSq rings.dma.adminCq device).1
        = .ok (.fresh rings.depth) ∧
      Linked rings 0 ⟨.fresh rings.depth, .start (openflashSetupAdminQueue none rings.depth
        rings.dma.adminSq rings.dma.adminCq device).2 memory, true⟩ ∧
      (openflashSetupAdminQueue none rings.depth rings.dma.adminSq rings.dma.adminCq
        device).2.storage = device.storage ∧
      (openflashSetupAdminQueue none rings.depth rings.dma.adminSq rings.dma.adminCq
        device).2.capacity = device.capacity := by
  have hready : Qemu.statusReady &&& Qemu.statusReady ≠ 0 := by decide
  have hsetup : openflashSetupAdminQueue none rings.depth rings.dma.adminSq rings.dma.adminCq
      device = (.ok (.fresh rings.depth),
        Qemu.updateQueue { device with control := 1, status := Qemu.statusReady } 0
          (rings.queueAt 0)) := by
    simp only [openflashSetupAdminQueue, writeRegisters_attach hreset]
    exact if_pos hready
  rw [hsetup]
  exact ⟨rfl, linked_zero ⟨rfl, rfl, rfl, rfl⟩ rfl rfl rfl (Qemu.updateQueue_self ..) hzero, rfl,
    rfl⟩

end

end OpenFlash.Driver
