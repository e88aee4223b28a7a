import OpenFlash.Qemu.Backpressure
import OpenFlash.Qemu.GuestRings

/-! A queue pair in guest memory against the reference queue engine. The host packs commands
into the submission ring and unpacks completions by their phase; the device fetches, executes
and posts. The engine makes one step for each submission, loop iteration and completion. -/
namespace OpenFlash.Qemu
open Abi Support Support.Ring Reference

/-- The host's side of a queue pair on the machine that serves it. -/
structure RingHost where
  machine : Machine
  tail : ℕ
  head : ℕ
  phase : ℕ
  returned : List Completion

inductive PairEvent where
  | submit (command : Command)
  | doorbell
  | iterate
  | consume
  | fill (addr : ℕ) (data : List UInt8)

namespace RingHost

def start (device : OpenFlashState) (memory : Memory) : RingHost :=
  ⟨.start device memory, 0, 0, 1, []⟩

def write (host : RingHost) (memory : Memory) : RingHost :=
  { host with machine := host.machine.step (.guest memory) }

/-- A command that does not fit its fields raises in `pack`. -/
def submit (layout : RingLayout) (command : Command) (host : RingHost) : RingHost :=
  match command.pack with
  | none => host
  | some bytes =>
      { host.write (writeSlot host.machine.memory layout.sqAddr.toNat 64 host.tail bytes) with
        tail := (host.tail + 1) % layout.depth }

def doorbell (layout : RingLayout) (host : RingHost) : RingHost :=
  { host with
    machine := host.machine.step (.mmioWrite (sqDoorbell layout.qid) (.ofNat host.tail)) }

def iterate (host : RingHost) : RingHost :=
  { host with machine := host.machine.step (.iterate true) }

def consume (layout : RingLayout) (host : RingHost) : RingHost :=
  if phaseAt layout host.machine.memory host.head = host.phase then
    match Completion.unpack (slotBytes host.machine.memory layout.cqAddr.toNat 64 host.head) with
    | .error _ => host
    | .ok completion =>
        let head := (host.head + 1) % layout.depth
        { host with
          head := head
          phase := if head = 0 then host.phase ^^^ 1 else host.phase
          returned := host.returned ++ [completion] }
  else host

def fill (addr : ℕ) (data : List UInt8) (host : RingHost) : RingHost :=
  host.write (overwrite host.machine.memory addr data.length fun i => data.getD i 0)

def step (layout : RingLayout) (host : RingHost) : PairEvent → RingHost
  | .submit command => host.submit layout command
  | .doorbell => host.doorbell layout
  | .iterate => host.iterate
  | .consume => host.consume layout
  | .fill addr data => host.fill addr data

/-- The next loop iteration runs the body. -/
def running (host : RingHost) : Bool :=
  host.machine.loop.any fun l => (host.machine.device.queues l.1).sqHead != l.2

end RingHost

/-- Both sides of the comparison. -/
structure Paired where
  host : RingHost
  oracle : History

namespace Paired

/-- What the reference engine does on an event: the body of the loop is a doorbell with a
budget of one. -/
def action (p : Paired) : PairEvent → Option Reference.Action
  | .submit command => some (.submit command)
  | .doorbell => none
  | .iterate => if p.host.running then some (.ring (some 1)) else none
  | .consume => some .consume
  | .fill addr data => some (.touchDma (p.oracle.dma.set addr data))

def step (layout : RingLayout) (p : Paired) (event : PairEvent) : Paired :=
  ⟨p.host.step layout event, (p.action event).elim p.oracle p.oracle.step⟩

def run (layout : RingLayout) (p : Paired) (events : List PairEvent) : Paired :=
  events.foldl (step layout) p

/-- A host that keeps one submission slot free and takes completions in time; the device has
no check of its own for either. -/
def Contract (layout : RingLayout) (capacity : UInt64) (p : Paired) : PairEvent → Prop
  | .submit command => command.Fits ∧
      Admissible layout.buffers (capacity.toNat / 4096) (.command (wire command)) ∧
      p.oracle.engine.sqCount + 1 < layout.depth
  | .doorbell => True
  | .iterate => p.oracle.engine.cqCount < layout.depth
  | .consume => True
  | .fill addr data => (addr, data.length) ∈ layout.buffers.regions

/-- An idle queue pair next to a new engine. -/
def start (layout : RingLayout) (device : OpenFlashState) (memory : Memory)
    (reference : ReferenceDevice) (dma : Dma) : Paired :=
  ⟨.start device memory, .initial reference layout.depth layout.depth_valid dma⟩

/-- What the two sides have in common: the completions the host took, the indices and phases
of both rings, the contents of the buffers and the stored bytes. -/
structure Mirrors (layout : RingLayout) (p : Paired) : Prop where
  returned : p.host.returned = p.oracle.returned
  tail : p.host.tail = p.oracle.engine.sqTail
  head : p.host.head = p.oracle.engine.cqHead
  phase : p.host.phase = p.oracle.engine.hostPhase
  sqHead : (p.host.machine.device.queues layout.qid).sqHead = p.oracle.engine.sqHead
  cqTail : (p.host.machine.device.queues layout.qid).cqTail = p.oracle.engine.cqTail
  cqPhase : (p.host.machine.device.queues layout.qid).cqPhase = p.oracle.engine.devicePhase
  buffers : ∀ x ∈ layout.buffers.regions,
    p.oracle.dma.get? x.1 = some (readBytes p.host.machine.memory x.1 x.2)
  storage : ∀ a < p.host.machine.device.capacity.toNat, p.host.machine.device.storage a
    = flat blockSize 0 p.oracle.engine.device.arrays.visible a

/-- A doorbell gets every submitted command executed, and its loop ends. -/
def Serves (layout : RingLayout) (p : Paired) : Prop :=
  p.host.machine.loop = none →
    p.oracle.engine.sqCount + p.oracle.engine.cqCount ≤ layout.depth →
    let q := p.run layout (.doorbell :: List.replicate (p.oracle.engine.sqCount + 1) .iterate)
    q.Mirrors layout ∧ q.host.machine.loop = none ∧
      q.oracle.executed.map Executed.command = p.oracle.submitted

end Paired

/-- The device has the queue pair set up, and no completion slot shows a phase yet. -/
structure Prepared (layout : RingLayout) (device : OpenFlashState) (memory : Memory) : Prop where
  ready : device.status &&& statusReady ≠ 0
  queue : device.queues layout.qid =
    { sqAddr := layout.sqAddr, cqAddr := layout.cqAddr, depth := layout.depth, cqPhase := 1
      vector := (device.queues layout.qid).vector, enabled := true }
  blank : ∀ slot < layout.depth, phaseAt layout memory slot = 0

namespace Paired

structure Related (layout : RingLayout) (capacity : UInt64) (p : Paired) : Prop where
  inv : p.oracle.Inv
  depth : p.oracle.engine.depth = layout.depth
  attached : Attached layout p.host.machine.device p.oracle.engine
  rings : Rings layout (capacity.toNat / 4096) p.host.machine.memory p.oracle.submitted
    p.oracle.executed
  refines : Refines layout.buffers capacity ⟨p.oracle.engine.device, p.oracle.dma⟩
    ⟨p.host.machine.device, p.host.machine.memory⟩
  returned : p.host.returned = p.oracle.returned
  tail : p.host.tail = p.oracle.engine.sqTail
  head : p.host.head = p.oracle.engine.cqHead
  phase : p.host.phase = p.oracle.engine.hostPhase
  room : p.oracle.engine.sqCount < layout.depth
  loop : ∀ qid newTail, p.host.machine.loop = some (qid, newTail) → qid = layout.qid ∧
    ∃ k, p.oracle.executed.length ≤ k ∧ k ≤ p.oracle.submitted.length ∧
      newTail = k % layout.depth

end Paired

section
variable {layout : RingLayout} {capacity : UInt64}

namespace Paired
variable {p : Paired}

/-- The command at the submission head, in the engine and in guest memory. -/
theorem Related.fetch (h : Related layout capacity p)
    (hlt : p.oracle.executed.length < p.oracle.submitted.length) :
    ∃ c, p.oracle.engine.sq p.oracle.engine.sqHead = some c ∧ c.Fits ∧
      Admissible layout.buffers (capacity.toNat / 4096) (.command (wire c)) ∧
      OpenFlashCommand.read p.host.machine.memory
        (p.host.machine.device.queues layout.qid).sqSlotAddr = wire c := by
  have hget := List.getElem?_eq_getElem hlt
  obtain ⟨hfits, hadm⟩ := h.rings.admitted _ _ le_rfl hget
  refine ⟨_, ?_, hfits, hadm, read_packed hfits ?_⟩
  · rw [h.inv.sqHead]
    exact h.inv.sqStored.get le_rfl hlt
  · have hslot := Nat.mod_lt p.oracle.executed.length layout.depth_pos
    rw [OpenFlashQueue.sqSlotAddr, h.attached.sqAddr, h.attached.sqHead, h.inv.sqHead, h.depth,
      slotAddr_toNat layout.sq_fits hslot]
    exact (h.rings.sqStored.get le_rfl hlt).symm

/-- Both devices execute the command alike. -/
theorem Related.executes (h : Related layout capacity p) {c : Command} (hfits : c.Fits)
    (hadm : Admissible layout.buffers (capacity.toNat / 4096) (.command (wire c))) :
    (p.oracle.engine.device.execute c p.oracle.dma).1.status
        = (openflashExecute true (wire c) p.host.machine.memory p.host.machine.device).status ∧
      (p.oracle.engine.device.execute c p.oracle.dma).1.result
        = (openflashExecute true (wire c) p.host.machine.memory
            p.host.machine.device).result.toNat ∧
      Refines layout.buffers capacity
        ⟨(p.oracle.engine.device.execute c p.oracle.dma).2.1,
          (p.oracle.engine.device.execute c p.oracle.dma).2.2⟩
        ⟨(openflashExecute true (wire c) p.host.machine.memory p.host.machine.device).state,
          (openflashExecute true (wire c) p.host.machine.memory
            p.host.machine.device).memory⟩ := by
  obtain ⟨hreply, hnext⟩ := respond_refines h.refines hadm
  simp only [OracleState.respond, GuestState.respond, toCommand_wire hfits,
    Reply.completed.injEq] at hreply hnext
  exact ⟨hreply.1, hreply.2, hnext⟩

/-- The device posts the bytes of the engine's completion. -/
theorem Related.posts (h : Related layout capacity p) {c : Command} (hfits : c.Fits)
    (hadm : Admissible layout.buffers (capacity.toNat / 4096) (.command (wire c))) :
    (p.oracle.engine.executeHead c p.oracle.dma).1.completion.Fits ∧
      (p.oracle.engine.executeHead c p.oracle.dma).1.completion.pack
        = some (processCommand true layout.qid (wire c) p.host.machine.memory
            p.host.machine.device).completion.bytes := by
  obtain ⟨hstatus, hresult, -⟩ := h.executes hfits hadm
  have hphase := phase_lt_two layout.depth p.oracle.executed.length
  have hslot := Nat.mod_lt (p.oracle.executed.length + 1) layout.depth_pos
  have hdepth := layout.depth_lt
  have hflags : (stamp layout.depth p.oracle.executed.length
      (p.oracle.engine.device.execute c p.oracle.dma).1).flags
      = Ring.phase layout.depth p.oracle.executed.length := by
    simp only [stamp, ReferenceDevice.execute, Nat.zero_div, Nat.zero_mul, Nat.zero_or]
  have hfit : (p.oracle.engine.executeHead c p.oracle.dma).1.completion.Fits := by
    rw [History.executeHead_completion h.inv, h.depth]
    refine ⟨?_, hfits.userData, ?_, hfits.cid, ?_⟩
    · show (p.oracle.engine.device.execute c p.oracle.dma).1.result < 2 ^ 64
      rw [hresult]
      exact UInt64.toNat_lt _
    · show (p.oracle.executed.length + 1) % layout.depth < 2 ^ 16
      omega
    · rw [hflags]
      omega
  refine ⟨hfit, hfit.pack_wire.trans ?_⟩
  obtain ⟨hqueue, -, -⟩ := processCommand_queue hadm.ne_create true layout.qid
    p.host.machine.memory p.host.machine.device
  have hcompletion : (processCommand true layout.qid (wire c) p.host.machine.memory
      p.host.machine.device).completion
      = (p.host.machine.device.queues layout.qid).fetched.completion (wire c)
        (openflashExecute true (wire c) p.host.machine.memory p.host.machine.device) := by
    rw [← hqueue]
    rfl
  have hhead : (p.host.machine.device.queues layout.qid).fetched.sqHead
      = (p.oracle.executed.length + 1) % layout.depth := by
    rw [OpenFlashQueue.fetched, h.attached.advance h.depth, h.attached.sqHead, h.inv.sqHead,
      QueueEngine.advance_mod, h.depth]
  have hflag : (p.host.machine.device.queues layout.qid).fetched.cqPhase
      = Ring.phase layout.depth p.oracle.executed.length := by
    rw [← h.depth, ← h.inv.devicePhase]
    exact h.attached.cqPhase
  rw [hcompletion, OpenFlashQueue.completion, hhead, hflag, History.executeHead_completion h.inv,
    h.depth, hflags, ← hstatus]
  have hword : (openflashExecute true (wire c) p.host.machine.memory
      p.host.machine.device).result
      = .ofNat (p.oracle.engine.device.execute c p.oracle.dma).1.result := by
    rw [hresult, UInt64.ofNat_toNat]
  rw [hword]
  rfl

/-- What the loop body leaves behind. -/
theorem Related.body (h : Related layout capacity p) {c : Command}
    (hadm : Admissible layout.buffers (capacity.toNat / 4096) (.command (wire c)))
    (hread : OpenFlashCommand.read p.host.machine.memory
      (p.host.machine.device.queues layout.qid).sqSlotAddr = wire c) :
    (processSq true layout.qid p.host.machine.memory p.host.machine.device).device
        = updateQueue (openflashExecute true (wire c) p.host.machine.memory
            p.host.machine.device).state layout.qid
          (p.host.machine.device.queues layout.qid).fetched.posted ∧
      (processSq true layout.qid p.host.machine.memory p.host.machine.device).memory
        = writeSlot (openflashExecute true (wire c) p.host.machine.memory
            p.host.machine.device).memory layout.cqAddr.toNat 64
          (p.oracle.executed.length % layout.depth)
          (processCommand true layout.qid (wire c) p.host.machine.memory
            p.host.machine.device).completion.bytes := by
  obtain ⟨hqueue, -, -⟩ := processCommand_queue hadm.ne_create true layout.qid
    p.host.machine.memory p.host.machine.device
  have hslot := Nat.mod_lt p.oracle.executed.length layout.depth_pos
  have haddr : (p.host.machine.device.queues layout.qid).fetched.cqSlotAddr
      = layout.cqAddr.toNat + 64 * (p.oracle.executed.length % layout.depth) := by
    have htail : (p.host.machine.device.queues layout.qid).fetched.cqTail
        = p.oracle.executed.length % layout.depth := by
      rw [← h.depth, ← h.inv.cqTail]
      exact h.attached.cqTail
    have hbase : (p.host.machine.device.queues layout.qid).fetched.cqAddr = layout.cqAddr :=
      h.attached.cqAddr
    rw [OpenFlashQueue.cqSlotAddr, hbase, htail, slotAddr_toNat layout.cq_fits hslot]
  constructor
  · simp only [processSq, hread]
    rw [← hqueue]
    rfl
  · simp only [processSq, hread]
    rw [hqueue, haddr]
    rfl

/-- The memory of the submission ring survives the loop body. -/
theorem Related.memory_outside (h : Related layout capacity p) {c : Command}
    (hadm : Admissible layout.buffers (capacity.toNat / 4096) (.command (wire c))) {a : ℕ}
    (ha : ∀ x ∈ layout.buffers.regions, a < x.1 ∨ x.1 + x.2 ≤ a) :
    (openflashExecute true (wire c) p.host.machine.memory p.host.machine.device).memory a
      = p.host.machine.memory a := by
  apply openflashExecute_memory true _ _ ha
  have htotal : p.host.machine.device.capacity = capacity := h.refines.total
  rw [htotal]
  exact hadm

/-- The pair after the loop body on a command. -/
def posted (layout : RingLayout) (c : Command) (p : Paired) : Paired :=
  let it := processSq true layout.qid p.host.machine.memory p.host.machine.device
  { host := { p.host with
      machine := { p.host.machine with
        device := it.device
        memory := it.memory
        trace := p.host.machine.trace ++ it.trace } }
    oracle := (p.oracle.post c).interrupted (p.oracle.engine.interrupts + 1) }

theorem Related.posted (h : Related layout capacity p)
    (hlt : p.oracle.executed.length < p.oracle.submitted.length)
    (hcq : p.oracle.engine.cqCount < layout.depth)
    (hrun : ∀ qid newTail, p.host.machine.loop = some (qid, newTail) →
      (p.host.machine.device.queues layout.qid).sqHead ≠ newTail) {c : Command}
    (hhead : p.oracle.engine.sq p.oracle.engine.sqHead = some c) (hfits : c.Fits)
    (hadm : Admissible layout.buffers (capacity.toNat / 4096) (.command (wire c)))
    (hread : OpenFlashCommand.read p.host.machine.memory
      (p.host.machine.device.queues layout.qid).sqSlotAddr = wire c) :
    Related layout capacity (p.posted layout c) := by
  have hcount := h.inv.sqCount
  have hroom := h.room
  have hsq : p.oracle.engine.sqCount ≠ 0 := by omega
  have hcq' : p.oracle.engine.cqCount < p.oracle.engine.depth := by rwa [h.depth]
  have hinv := History.step_inv h.inv (.ring (some 1))
  rw [History.step_ring_one hsq hcq' hhead] at hinv
  obtain ⟨hdevice, hmemory⟩ := h.body hadm hread
  obtain ⟨-, -, hnext⟩ := h.executes hfits hadm
  obtain ⟨hfit, hpack⟩ := h.posts hfits hadm
  obtain ⟨-, hqueue, hstatus⟩ := processCommand_queue hadm.ne_create true layout.qid
    p.host.machine.memory p.host.machine.device
  have hslot := Nat.mod_lt p.oracle.executed.length layout.depth_pos
  have hrings := (h.rings.outside fun a ha => h.memory_outside hadm ha).post hfit hpack
  rw [← hmemory] at hrings
  have hrefines := (hnext.updateQueue layout.qid
    (p.host.machine.device.queues layout.qid).fetched.posted).frame
    (processSq true layout.qid p.host.machine.memory p.host.machine.device).memory
    fun x hx a hlo hhi => by
      have hapart := (layout.buffers_apart x hx).2
      unfold Apart at hapart
      rw [hmemory]
      exact writeSlot_of_notMem _ hslot (by omega)
  rw [← hdevice] at hrefines
  have hattached : Attached layout
      (processSq true layout.qid p.host.machine.memory p.host.machine.device).device
      (p.oracle.engine.executeHead c p.oracle.dma).2.1 := by
    apply h.attached.post h.depth
    · simpa only [processSq, hread] using hstatus
    · simpa only [processSq, hread] using hqueue
  refine
    { inv := hinv, depth := h.depth, attached := { hattached with }, rings := hrings
      refines := hrefines, returned := h.returned, tail := h.tail, head := h.head
      phase := h.phase, room := ?_, loop := ?_ }
  · show p.oracle.engine.sqCount - 1 < layout.depth
    omega
  · intro qid newTail hloop
    obtain ⟨hqid, k, hlo, hhi, htail⟩ := h.loop qid newTail hloop
    refine ⟨hqid, k, ?_, hhi, htail⟩
    have hne := hrun qid newTail hloop
    rw [h.attached.sqHead, h.inv.sqHead, h.depth, htail] at hne
    have hlen : (p.posted layout c).oracle.executed.length = p.oracle.executed.length + 1 :=
      List.length_append
    rw [hlen]
    rcases hlo.lt_or_eq with hlt | heq
    · exact hlt
    · rw [heq] at hne
      exact absurd rfl hne

theorem step_iterate_of_none (hloop : p.host.machine.loop = none) :
    p.step layout .iterate = p := by
  have hrunning : p.host.running = false := by
    rw [RingHost.running, hloop]
    rfl
  simp only [step, action, hrunning, Bool.false_eq_true, if_false, Option.elim_none,
    RingHost.step, RingHost.iterate, Machine.step, Machine.iterate, hloop]

theorem step_iterate_of_eq {qid : Fin maxQueues} {newTail : ℕ}
    (hloop : p.host.machine.loop = some (qid, newTail))
    (hend : (p.host.machine.device.queues qid).sqHead = newTail) :
    p.step layout .iterate
      = ⟨{ p.host with machine := { p.host.machine with loop := none } }, p.oracle⟩ := by
  have hrunning : p.host.running = false := by
    simp only [RingHost.running, hloop, Option.any_some, hend, bne_self_eq_false]
  simp only [step, action, hrunning, Bool.false_eq_true, if_false, Option.elim_none,
    RingHost.step, RingHost.iterate, Machine.step, Machine.iterate, hloop, hend, if_true]

theorem step_iterate_of_ne {newTail : ℕ} {c : Command}
    (hloop : p.host.machine.loop = some (layout.qid, newTail))
    (hne : (p.host.machine.device.queues layout.qid).sqHead ≠ newTail)
    (hsq : p.oracle.engine.sqCount ≠ 0)
    (hcq : p.oracle.engine.cqCount < p.oracle.engine.depth)
    (hhead : p.oracle.engine.sq p.oracle.engine.sqHead = some c) :
    p.step layout .iterate = p.posted layout c := by
  have hrunning : p.host.running = true := by
    simp only [RingHost.running, hloop, Option.any_some, bne_iff_ne, ne_eq, hne, not_false_eq_true]
  simp only [step, action, hrunning, if_true, Option.elim_some, History.step_ring_one hsq hcq hhead,
    RingHost.step, RingHost.iterate, Machine.step, Machine.iterate, hloop, if_neg hne, posted]

/-- An iteration of the loop. -/
theorem Related.iterate (h : Related layout capacity p)
    (hcq : p.oracle.engine.cqCount < layout.depth) :
    Related layout capacity (p.step layout .iterate) := by
  cases hloop : p.host.machine.loop with
  | none =>
    rw [step_iterate_of_none hloop]
    exact h
  | some l =>
    obtain ⟨qid, newTail⟩ := l
    obtain ⟨rfl, k, hlo, hhi, htail⟩ := h.loop qid newTail hloop
    by_cases hend : (p.host.machine.device.queues layout.qid).sqHead = newTail
    · rw [step_iterate_of_eq hloop hend]
      refine { h with loop := fun qid newTail hnone => ?_ }
      cases hnone
    · have hlt : p.oracle.executed.length < p.oracle.submitted.length := by
        rcases hlo.lt_or_eq with hlt | heq
        · omega
        · rw [h.attached.sqHead, h.inv.sqHead, h.depth, htail, heq] at hend
          exact absurd rfl hend
      have hcount := h.inv.sqCount
      obtain ⟨c, hhead, hfits, hadm, hread⟩ := h.fetch hlt
      rw [step_iterate_of_ne hloop hend (by omega) (by rwa [h.depth]) hhead]
      refine h.posted hlt hcq ?_ hhead hfits hadm hread
      intro qid' newTail' hloop'
      rw [hloop] at hloop'
      cases hloop'
      exact hend

theorem Related.submit (h : Related layout capacity p) {c : Command} (hfits : c.Fits)
    (hadm : Admissible layout.buffers (capacity.toNat / 4096) (.command (wire c)))
    (hroom : p.oracle.engine.sqCount + 1 < layout.depth) :
    Related layout capacity (p.step layout (.submit c)) := by
  have hcount := h.inv.sqCount
  have hslot := Nat.mod_lt p.oracle.submitted.length layout.depth_pos
  have htail : p.host.tail = p.oracle.submitted.length % layout.depth := by
    rw [h.tail, h.inv.sqTail, h.depth]
  have hinv := History.step_inv h.inv (.submit c)
  have haccept : p.oracle.step (.submit c) = p.oracle.accept c := by
    have hfree : ¬ p.oracle.engine.sqCount = p.oracle.engine.depth := by
      rw [h.depth]
      omega
    simp only [History.step, QueueEngine.submit, if_neg hfree]
    rfl
  have hpack := hfits.pack_wire
  have hstep : p.step layout (.submit c)
      = ⟨{ p.host.write (writeSlot p.host.machine.memory layout.sqAddr.toNat 64 p.host.tail
            (wire c).bytes) with tail := (p.host.tail + 1) % layout.depth },
          p.oracle.accept c⟩ := by
    simp only [step, action, Option.elim_some, haccept, RingHost.step, RingHost.submit, hpack]
    rfl
  rw [haccept] at hinv
  rw [hstep, htail]
  have hlen : (p.oracle.accept c).submitted.length = p.oracle.submitted.length + 1 :=
    List.length_append
  refine
    { inv := hinv, depth := h.depth, attached := { h.attached with }, returned := h.returned
      head := h.head, phase := h.phase, rings := ?_, refines := ?_, tail := ?_, room := ?_
      loop := ?_ }
  · exact h.rings.submit (by omega) hfits hadm hpack
  · refine h.refines.frame _ fun x hx a hlo hhi => ?_
    have hapart := (layout.buffers_apart x hx).1
    unfold Apart at hapart
    exact writeSlot_of_notMem _ hslot (by omega)
  · show (p.oracle.submitted.length % layout.depth + 1) % layout.depth
      = p.oracle.engine.advance p.oracle.engine.sqTail
    rw [h.inv.sqTail, QueueEngine.advance_mod, h.depth, succ_mod]
  · exact hroom
  · intro qid newTail hloop
    obtain ⟨hqid, k, hlo, hhi, hk⟩ := h.loop qid newTail hloop
    exact ⟨hqid, k, hlo, hhi.trans (by rw [hlen]; exact Nat.le_succ _), hk⟩

/-- A doorbell between two loops starts one that runs to the last submission. -/
theorem Related.step_doorbell (h : Related layout capacity p)
    (hloop : p.host.machine.loop = none) :
    p.step layout .doorbell = ⟨{ p.host with
      machine := { p.host.machine with
        loop := some (layout.qid, p.oracle.submitted.length % layout.depth) } }, p.oracle⟩ := by
  have hslot := Nat.mod_lt p.oracle.submitted.length layout.depth_pos
  have hdepth := layout.depth_lt
  have htail : (UInt64.ofNat p.host.tail).toNat % 2 ^ 16
      = p.oracle.submitted.length % layout.depth := by
    have hlt : p.oracle.submitted.length % layout.depth < UInt64.size := by
      show _ < 2 ^ 64
      omega
    rw [h.tail, h.inv.sqTail, h.depth, UInt64.toNat_ofNat_of_lt' hlt,
      Nat.mod_eq_of_lt (hslot.trans hdepth)]
  have haccepted : doorbellAccepted p.host.machine.device layout.qid
      (p.oracle.submitted.length % layout.depth) := by
    refine ⟨h.attached.ready, h.attached.enabled, ?_, ?_⟩
    · rw [h.attached.depth]
      exact layout.depth_pos.ne'
    · rw [h.attached.depth]
      exact hslot
  simp only [step, action, Option.elim_none, RingHost.step, RingHost.doorbell, Machine.step,
    Machine.mmioWrite, hloop, openflashMmioWrite_sqDoorbell, htail, if_pos haccepted]

theorem Related.doorbell (h : Related layout capacity p) :
    Related layout capacity (p.step layout .doorbell) := by
  cases hloop : p.host.machine.loop with
  | none =>
    rw [h.step_doorbell hloop]
    have hcount := h.inv.sqCount
    have hle : p.oracle.executed.length ≤ p.oracle.submitted.length := by omega
    refine { h with loop := fun qid newTail hl => ?_ }
    cases hl
    exact ⟨rfl, p.oracle.submitted.length, hle, le_rfl, rfl⟩
  | some l =>
    have hsame : p.step layout .doorbell = p := by
      simp only [step, action, Option.elim_none, RingHost.step, RingHost.doorbell, Machine.step,
        Machine.mmioWrite, hloop]
    rw [hsame]
    exact h

theorem Related.fill (h : Related layout capacity p) {addr : ℕ} {data : List UInt8}
    (hmem : (addr, data.length) ∈ layout.buffers.regions) :
    Related layout capacity (p.step layout (.fill addr data)) := by
  have hinv := History.step_inv h.inv (.touchDma (p.oracle.dma.set addr data))
  obtain ⟨-, hrefines⟩ := fill_step h.refines hmem
  have hrings := h.rings.outside fun a ha =>
    overwrite_of_notMem p.host.machine.memory (fun i => data.getD i 0) (ha _ hmem)
  exact
    { inv := hinv, depth := h.depth, attached := h.attached, rings := hrings, refines := hrefines
      returned := h.returned, tail := h.tail, head := h.head, phase := h.phase, room := h.room
      loop := h.loop }

/-- The host sees its phase at the completion head exactly when a completion is waiting. -/
theorem Related.phaseAt_iff (h : Related layout capacity p) :
    phaseAt layout p.host.machine.memory p.host.head = p.host.phase ↔
      p.oracle.returned.length < p.oracle.executed.length := by
  have hcount := h.inv.cqCount
  have hroom := h.inv.cqRoom
  have hdepth := h.depth
  rw [h.head, h.phase, h.inv.cqHead, h.inv.hostPhase, h.depth]
  refine phase_test layout.depth_pos ?_ h.rings.blank (by omega) (by omega)
  intro n hlo hhi
  have hget := List.getElem?_eq_getElem hhi
  have hslot := h.rings.cqStored n _ hlo hget
  have hfits := h.rings.fits _ (List.getElem_mem hhi)
  have hflags := (unpack_packed hfits hslot.symm).2
  rw [phaseAt, hflags, h.inv.stamped n _ hget, stamp_phase, h.depth]

theorem Related.consume (h : Related layout capacity p) :
    Related layout capacity (p.step layout .consume) := by
  have hcount := h.inv.cqCount
  have hinv := History.step_inv h.inv .consume
  by_cases hwaiting : p.oracle.returned.length < p.oracle.executed.length
  · obtain ⟨e, he, heq⟩ := History.consumeCompletion_of_pos h.inv (by omega)
    have hdeliver : p.oracle.step .consume = p.oracle.deliver e := by
      simp only [History.step, heq, Option.toList_some]
      rfl
    have hroom := h.inv.cqRoom
    have hdepth := h.depth
    have hslot := h.rings.cqStored _ _ (by omega) he
    have hhead : p.host.head = p.oracle.returned.length % layout.depth := by
      rw [h.head, h.inv.cqHead, h.depth]
    have hunpack := (unpack_packed (h.rings.fits e (List.mem_of_getElem? he)) hslot.symm).1
    rw [← hhead] at hunpack
    have hstep : p.step layout .consume
        = ⟨{ p.host with
            head := (p.host.head + 1) % layout.depth
            phase := if (p.host.head + 1) % layout.depth = 0 then p.host.phase ^^^ 1
              else p.host.phase
            returned := p.host.returned ++ [e.completion] }, p.oracle.deliver e⟩ := by
      simp only [step, action, Option.elim_some, hdeliver, RingHost.step, RingHost.consume,
        if_pos (h.phaseAt_iff.mpr hwaiting), hunpack]
    have hadvance : (p.host.head + 1) % layout.depth
        = p.oracle.engine.advance p.oracle.engine.cqHead := by
      rw [hhead, h.inv.cqHead, QueueEngine.advance_mod, h.depth, succ_mod]
    rw [hdeliver] at hinv
    rw [hstep, hadvance, h.phase, h.returned]
    exact
      { inv := hinv, depth := h.depth, attached := { h.attached with }, rings := h.rings
        refines := h.refines, returned := rfl, tail := h.tail, head := rfl, phase := rfl
        room := h.room, loop := h.loop }
  · have hnone : p.oracle.engine.cqCount = 0 := by omega
    have hsame : p.step layout .consume = p := by
      simp only [step, action, Option.elim_some, RingHost.step, RingHost.consume,
        if_neg (fun hp => hwaiting (h.phaseAt_iff.mp hp)), History.step,
        QueueEngine.consumeCompletion, hnone, if_true, Option.toList_none, List.append_nil]
    rw [hsame]
    exact h

theorem Related.step (h : Related layout capacity p) {event : PairEvent}
    (hc : Contract layout capacity p event) :
    Related layout capacity (p.step layout event) := by
  cases event with
  | submit c => exact h.submit hc.1 hc.2.1 hc.2.2
  | doorbell => exact h.doorbell
  | iterate => exact h.iterate hc
  | consume => exact h.consume
  | fill addr data => exact h.fill hc

/-- A loop that runs to the last submission executes what is pending and ends. -/
theorem Related.drain (h : Related layout capacity p) {n : ℕ} (hn : p.oracle.engine.sqCount = n)
    (hloop : p.host.machine.loop
      = some (layout.qid, p.oracle.submitted.length % layout.depth))
    (hroom : p.oracle.engine.sqCount + p.oracle.engine.cqCount ≤ layout.depth) :
    Related layout capacity (p.run layout (List.replicate (n + 1) .iterate)) ∧
      (p.run layout (List.replicate (n + 1) .iterate)).host.machine.loop = none ∧
      (p.run layout (List.replicate (n + 1) .iterate)).oracle.executed.map Executed.command
        = p.oracle.submitted := by
  have hcount := h.inv.sqCount
  induction n generalizing p with
  | zero =>
    have hlen : p.oracle.executed.length = p.oracle.submitted.length := by omega
    have hend : (p.host.machine.device.queues layout.qid).sqHead
        = p.oracle.submitted.length % layout.depth := by
      rw [h.attached.sqHead, h.inv.sqHead, h.depth, hlen]
    have hstep : p.run layout (List.replicate (0 + 1) .iterate)
        = ⟨{ p.host with machine := { p.host.machine with loop := none } }, p.oracle⟩ :=
      step_iterate_of_eq hloop hend
    rw [hstep]
    refine ⟨{ h with loop := fun qid newTail hnone => ?_ }, rfl, ?_⟩
    · cases hnone
    · show p.oracle.executed.map Executed.command = p.oracle.submitted
      rw [h.inv.order, hlen, List.take_length]
  | succ n ih =>
    have hlt : p.oracle.executed.length < p.oracle.submitted.length := by omega
    have hdepth := h.room
    have hne : (p.host.machine.device.queues layout.qid).sqHead
        ≠ p.oracle.submitted.length % layout.depth := by
      rw [h.attached.sqHead, h.inv.sqHead, h.depth]
      exact slot_ne_of_lt le_rfl hlt (by omega)
    have hcq : p.oracle.engine.cqCount < layout.depth := by omega
    obtain ⟨c, hhead, -, -, -⟩ := h.fetch hlt
    have hnext := h.iterate hcq
    have hstep : p.step layout .iterate = p.posted layout c :=
      step_iterate_of_ne hloop hne (by omega) (by rwa [h.depth]) hhead
    rw [hstep] at hnext
    have hsq : (p.posted layout c).oracle.engine.sqCount = n := by
      show p.oracle.engine.sqCount - 1 = n
      omega
    have hroom' : (p.posted layout c).oracle.engine.sqCount
        + (p.posted layout c).oracle.engine.cqCount ≤ layout.depth := by
      rw [hsq]
      show n + (p.oracle.engine.cqCount + 1) ≤ layout.depth
      omega
    have hrest := ih hnext hsq hloop hroom' hnext.inv.sqCount
    rw [List.replicate_succ, run, List.foldl_cons, hstep]
    exact hrest

end Paired
end

end OpenFlash.Qemu
