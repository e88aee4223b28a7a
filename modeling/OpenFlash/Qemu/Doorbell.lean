import Mathlib.Data.Nat.Find
import OpenFlash.Qemu.Machine
import OpenFlash.Support.Ring

/-! When the submission loop behind a doorbell ends. The loop condition compares the head
of the queue with a tail checked on entry, while the commands of the loop may create the
queue anew. -/
namespace OpenFlash.Qemu
open Abi Support Support.Ring

/-- The depths the device ever accepts. -/
def DepthBounded (s : OpenFlashState) : Prop := ∀ qid, (s.queues qid).depth ≤ maxQueueDepth

theorem updateQueue_depthBounded {s : OpenFlashState} (h : DepthBounded s) {q : OpenFlashQueue}
    (hq : q.depth ≤ maxQueueDepth) (qid : Fin maxQueues) : DepthBounded (updateQueue s qid q) :=
  updateQueue_forall (P := fun q => q.depth ≤ maxQueueDepth) h hq qid

theorem updateQueue_keep_depth {s : OpenFlashState} (h : DepthBounded s) {q : OpenFlashQueue}
    {qid : Fin maxQueues} (hq : q.depth = (s.queues qid).depth) :
    DepthBounded (updateQueue s qid q) := updateQueue_depthBounded h (hq.trans_le (h qid)) qid

theorem adminDepth_le (value : UInt64) : adminDepth value ≤ maxQueueDepth := by
  unfold adminDepth
  split_ifs with h
  · exact h.2
  · exact Nat.zero_le _

theorem openflashReset_depthBounded (s : OpenFlashState) : DepthBounded (openflashReset s) := by
  intro qid
  have hempty : DepthBounded { s with queues := fun _ => {} } := fun _ => Nat.zero_le _
  exact updateQueue_depthBounded hempty (Nat.zero_le _) 0 qid

theorem writeControl_depthBounded {s : OpenFlashState} (h : DepthBounded s) (value : UInt64) :
    DepthBounded (writeControl value s) := by
  unfold writeControl
  by_cases hreset : value &&& 2 ≠ 0
  · rw [if_pos hreset]
    exact openflashReset_depthBounded s
  · rw [if_neg hreset]
    exact h

theorem openflashMmioWrite_depthBounded {s : OpenFlashState} (h : DepthBounded s) (addr : ℕ)
    (value : UInt64) : DepthBounded (openflashMmioWrite addr value s).1 := by
  unfold openflashMmioWrite
  split
  · exact writeControl_depthBounded h value
  · exact updateQueue_keep_depth h rfl
  · exact updateQueue_keep_depth h rfl
  · exact updateQueue_keep_depth h rfl
  · exact updateQueue_keep_depth h rfl
  · exact updateQueue_depthBounded h (adminDepth_le value) 0
  · unfold writeDoorbell
    dsimp only
    split_ifs
    · exact h
    · exact h
    · exact updateQueue_keep_depth h rfl
    · exact h
    · exact h

theorem openflashExecute_depthBounded {s : OpenFlashState} (h : DepthBounded s) (fileOk : Bool)
    (cmd : OpenFlashCommand) (memory : Memory) :
    DepthBounded (openflashExecute fileOk cmd memory s).state :=
  fun qid => openflashExecute_queue_rule (P := fun q => q.depth ≤ maxQueueDepth) (h qid)
    (fun _ hc => hc.2.2.2.2.1) fileOk cmd memory

theorem processSq_depthBounded {s : OpenFlashState} (h : DepthBounded s) (fileOk : Bool)
    (qid : Fin maxQueues) (memory : Memory) :
    DepthBounded (processSq fileOk qid memory s).device := by
  have hexec := openflashExecute_depthBounded h fileOk
    (OpenFlashCommand.read memory (s.queues qid).sqSlotAddr) memory
  exact updateQueue_keep_depth hexec rfl

namespace Machine

theorem step_depthBounded {m : Machine} (h : DepthBounded m.device) (event : Event) :
    DepthBounded (m.step event).device := by
  refine step_rule (P := fun m => DepthBounded m.device) h ?_ h ?_ (fun _ => h) event
  · intro _ addr value
    exact openflashMmioWrite_depthBounded h addr value
  · intro qid newTail _ fileOk
    exact processSq_depthBounded h fileOk qid m.memory

theorem run_depthBounded {m : Machine} (h : DepthBounded m.device) (events : List Event) :
    DepthBounded (m.run events).device := by
  induction events generalizing m with
  | nil => exact h
  | cons event rest ih => exact ih (step_depthBounded h event)

/-- `n` evaluations of the loop condition, each with its body when it holds. Before each of
them the guest may change memory. -/
def loopRun (guest : ℕ → Memory → Memory) (fileOk : ℕ → Bool) (m : Machine) : ℕ → Machine
  | 0 => m
  | n + 1 =>
      let before := loopRun guest fileOk m n
      { before with memory := guest n before.memory }.iterate (fileOk n)

/-- The command that iteration `n` fetches. -/
def fetchedAt (guest : ℕ → Memory → Memory) (fileOk : ℕ → Bool) (m : Machine)
    (qid : Fin maxQueues) (n : ℕ) : OpenFlashCommand :=
  let before := loopRun guest fileOk m n
  .read (guest n before.memory) (before.device.queues qid).sqSlotAddr

/-- The loop runs its body `n` times and then ends. -/
def EndsAfter (guest : ℕ → Memory → Memory) (fileOk : ℕ → Bool) (m : Machine) (n : ℕ) : Prop :=
  (∀ k ≤ n, (loopRun guest fileOk m k).loop ≠ none) ∧ (loopRun guest fileOk m (n + 1)).loop = none

end Machine

/-- The device creates the given queue anew. -/
def Recreates (qid : Fin maxQueues) (cmd : OpenFlashCommand) : Prop :=
  Creates cmd ∧ createdQid cmd = qid

theorem openflashExecute_queue {qid : Fin maxQueues} {cmd : OpenFlashCommand}
    (hn : ¬ Recreates qid cmd) (fileOk : Bool) (memory : Memory) (s : OpenFlashState) :
    (openflashExecute fileOk cmd memory s).state.queues qid = s.queues qid := by
  rcases openflashExecute_control fileOk cmd memory s with ⟨hc, heq⟩ | ⟨-, hsame⟩
  · have hne : qid ≠ Fin.ofNat maxQueues (createdQid cmd) := by
      rintro rfl
      refine hn ⟨hc, ?_⟩
      exact (Nat.mod_eq_of_lt hc.2.2.1).symm
    rw [heq, updateQueue_of_ne s _ hne]
  · rw [hsame.queues]

theorem processSq_queue {qid : Fin maxQueues} {memory : Memory} {s : OpenFlashState}
    (hn : ¬ Recreates qid (.read memory (s.queues qid).sqSlotAddr)) (fileOk : Bool) :
    (processSq fileOk qid memory s).device.queues qid = (s.queues qid).fetched.posted := by
  simp only [processSq, processCommand, updateQueue_self]
  rw [openflashExecute_queue hn]

theorem openflashExecute_recreated {qid : Fin maxQueues} {cmd : OpenFlashCommand}
    (hr : Recreates qid cmd) (fileOk : Bool) (memory : Memory) (s : OpenFlashState) :
    (openflashExecute fileOk cmd memory s).state.queues qid = createdQueue cmd := by
  rcases openflashExecute_control fileOk cmd memory s with ⟨-, heq⟩ | ⟨hn, -⟩
  · have hqid : Fin.ofNat maxQueues (createdQid cmd) = qid := by
      apply Fin.ext
      rw [← hr.2]
      exact Nat.mod_eq_of_lt hr.1.2.2.1
    rw [heq, hqid, updateQueue_self]
  · exact absurd hr.1 hn

theorem processSq_recreated {qid : Fin maxQueues} {memory : Memory} {s : OpenFlashState}
    {cmd : OpenFlashCommand} (hread : .read memory (s.queues qid).sqSlotAddr = cmd)
    (hr : Recreates qid cmd) (fileOk : Bool) :
    (processSq fileOk qid memory s).device.queues qid = (createdQueue cmd).fetched.posted := by
  simp only [processSq, processCommand, updateQueue_self, hread]
  rw [openflashExecute_recreated hr]

namespace Machine
variable {guest : ℕ → Memory → Memory} {fileOk : ℕ → Bool} {m : Machine} {qid : Fin maxQueues}
  {newTail : ℕ}

/-- The head after `k` iterations over a queue of depth `d` that stays as it is. -/
def headAt (d start : ℕ) : ℕ → ℕ
  | 0 => start
  | k + 1 => (start + (k + 1)) % d

theorem headAt_succ (d start k : ℕ) : (headAt d start k + 1) % d = headAt d start (k + 1) := by
  cases k with
  | zero => rfl
  | succ k =>
    rw [headAt, headAt, succ_mod]
    rfl

theorem loopRun_succ_of_head {n : ℕ} (hloop : (loopRun guest fileOk m n).loop = some (qid, newTail))
    (hhead : ((loopRun guest fileOk m n).device.queues qid).sqHead ≠ newTail) :
    (loopRun guest fileOk m (n + 1)).loop = some (qid, newTail) ∧
    (loopRun guest fileOk m (n + 1)).device = (processSq (fileOk n) qid
      (guest n (loopRun guest fileOk m n).memory) (loopRun guest fileOk m n).device).device := by
  simp only [loopRun, iterate, hloop, hhead, if_false, and_self]

theorem loopRun_succ_of_end {n : ℕ} (hloop : (loopRun guest fileOk m n).loop = some (qid, newTail))
    (hhead : ((loopRun guest fileOk m n).device.queues qid).sqHead = newTail) :
    (loopRun guest fileOk m (n + 1)).loop = none := by
  simp only [loopRun, iterate, hloop, hhead, if_true]

/-- No command that the loop fetches creates the queue it runs on. -/
def NeverRecreates (guest : ℕ → Memory → Memory) (fileOk : ℕ → Bool) (m : Machine)
    (qid : Fin maxQueues) (newTail : ℕ) : Prop :=
  ∀ n, (loopRun guest fileOk m n).loop = some (qid, newTail) →
    ((loopRun guest fileOk m n).device.queues qid).sqHead ≠ newTail →
    ¬ Recreates qid (fetchedAt guest fileOk m qid n)

theorem loopRun_running (hloop : m.loop = some (qid, newTail))
    (hpos : 0 < (m.device.queues qid).depth)
    (hle : (m.device.queues qid).depth ≤ maxQueueDepth)
    (hkeep : NeverRecreates guest fileOk m qid newTail) (n : ℕ)
    (hrun : ∀ k < n, headAt (m.device.queues qid).depth (m.device.queues qid).sqHead k ≠ newTail) :
    (loopRun guest fileOk m n).loop = some (qid, newTail) ∧
    ((loopRun guest fileOk m n).device.queues qid).depth = (m.device.queues qid).depth ∧
    ((loopRun guest fileOk m n).device.queues qid).sqHead
      = headAt (m.device.queues qid).depth (m.device.queues qid).sqHead n := by
  induction n with
  | zero => exact ⟨hloop, rfl, rfl⟩
  | succ n ih =>
    obtain ⟨hl, hd, hh⟩ := ih fun k hk => hrun k (by omega)
    have hne : ((loopRun guest fileOk m n).device.queues qid).sqHead ≠ newTail := by
      rw [hh]
      exact hrun n (by omega)
    obtain ⟨hl', hdev⟩ := loopRun_succ_of_head hl hne
    have hqueue : (loopRun guest fileOk m (n + 1)).device.queues qid
        = ((loopRun guest fileOk m n).device.queues qid).fetched.posted := by
      rw [hdev]
      exact processSq_queue (hkeep n hl hne) _
    refine ⟨hl', ?_, ?_⟩
    · rw [hqueue]
      exact hd
    · rw [hqueue, ← headAt_succ, ← hh, ← hd]
      have hmax : maxQueueDepth < 2 ^ 16 := by decide
      exact advance_of_lt (by omega) (by omega) _

/-- With its queue left alone the loop meets the tail within one lap. -/
theorem endsAfter_of_neverRecreates (hloop : m.loop = some (qid, newTail))
    (htail : newTail < (m.device.queues qid).depth)
    (hle : (m.device.queues qid).depth ≤ maxQueueDepth)
    (hkeep : NeverRecreates guest fileOk m qid newTail) :
    ∃ n ≤ (m.device.queues qid).depth, EndsAfter guest fileOk m n := by
  obtain ⟨k, hk, hkd, hslot⟩ := exists_add_mod_eq (m.device.queues qid).sqHead htail
  have hmeets : headAt (m.device.queues qid).depth (m.device.queues qid).sqHead k = newTail := by
    obtain ⟨j, rfl⟩ := Nat.exists_eq_add_of_le' hk
    exact hslot
  have hex : ∃ n, headAt (m.device.queues qid).depth (m.device.queues qid).sqHead n = newTail :=
    ⟨k, hmeets⟩
  have hrunning := fun n (hn : n ≤ Nat.find hex) =>
    loopRun_running hloop (by omega) hle hkeep n fun j hj => Nat.find_min hex (by omega)
  refine ⟨Nat.find hex, (Nat.find_min' hex hmeets).trans hkd, ?_, ?_⟩
  · intro n hn
    rw [(hrunning n hn).1]
    exact nofun
  · have hlast := hrunning (Nat.find hex) le_rfl
    exact loopRun_succ_of_end hlast.1 (hlast.2.2.trans (Nat.find_spec hex))

/-- Created with this depth the first I/O queue starts over inside its own loop. -/
def recreateCommand (depth : UInt32) : OpenFlashCommand :=
  { opcode := adminCreateIoq, control := 1, nblocks := depth, dataAddr := 0x3000
    metadataAddr := 0x4000 }

def recreatedQueue (depth : UInt32) : OpenFlashQueue :=
  (createdQueue (recreateCommand depth)).fetched.posted

/-- A guest that has the given command in whatever slot the device fetches next. -/
def recreateGuest (first : ℕ) (depth : UInt32) : ℕ → Memory → Memory
  | 0, _ => placed first (recreateCommand depth).bytes
  | _ + 1, _ => placed (recreatedQueue depth).sqSlotAddr (recreateCommand depth).bytes

/-- A depth whose restarted head misses the tail keeps the loop running for ever. -/
theorem loopRun_recreated (fileOk : ℕ → Bool) {depth : UInt32}
    (hr : Recreates 1 (recreateCommand depth))
    (hmiss : (recreatedQueue depth).sqHead ≠ newTail) (hloop : m.loop = some (1, newTail))
    (hhead : (m.device.queues 1).sqHead ≠ newTail) (n : ℕ) :
    (loopRun (recreateGuest (m.device.queues 1).sqSlotAddr depth) fileOk m n).loop
      = some (1, newTail) ∧
    ((loopRun (recreateGuest (m.device.queues 1).sqSlotAddr depth) fileOk m n).device.queues
      1).sqHead ≠ newTail ∧
    (n ≠ 0 → (loopRun (recreateGuest (m.device.queues 1).sqSlotAddr depth) fileOk m
      n).device.queues 1 = recreatedQueue depth) := by
  induction n with
  | zero => exact ⟨hloop, hhead, fun h => absurd rfl h⟩
  | succ n ih =>
    obtain ⟨hl, hh, hq⟩ := ih
    obtain ⟨hl', hdev⟩ := loopRun_succ_of_head hl hh
    have hread : OpenFlashCommand.read
        (recreateGuest (m.device.queues 1).sqSlotAddr depth n
          (loopRun (recreateGuest (m.device.queues 1).sqSlotAddr depth) fileOk m n).memory)
        ((loopRun (recreateGuest (m.device.queues 1).sqSlotAddr depth) fileOk m
          n).device.queues 1).sqSlotAddr = recreateCommand depth := by
      cases n with
      | zero => exact OpenFlashCommand.read_of_holds (placed_holds _ _)
      | succ n =>
        rw [hq (Nat.succ_ne_zero n)]
        exact OpenFlashCommand.read_of_holds (placed_holds _ _)
    have hqueue : (loopRun (recreateGuest (m.device.queues 1).sqSlotAddr depth) fileOk m
        (n + 1)).device.queues 1 = recreatedQueue depth := by
      rw [hdev]
      exact processSq_recreated hread hr _
    refine ⟨hl', ?_, fun _ => hqueue⟩
    rw [hqueue]
    exact hmiss

/-- A loop entered on the I/O queue never ends for some content of guest memory. -/
theorem exists_guest_not_ends (hloop : m.loop = some (1, newTail))
    (hhead : (m.device.queues 1).sqHead ≠ newTail) :
    ∃ guest, ∀ n, ¬ EndsAfter guest (fun _ => true) m n := by
  have hgo : ∃ depth, Recreates 1 (recreateCommand depth) ∧
      (recreatedQueue depth).sqHead ≠ newTail := by
    by_cases hzero : newTail = 0
    · refine ⟨2, ⟨⟨rfl, by decide⟩, rfl⟩, ?_⟩
      rw [hzero]
      decide
    · refine ⟨1, ⟨⟨rfl, by decide⟩, rfl⟩, ?_⟩
      have hrestart : (recreatedQueue 1).sqHead = 0 := by decide
      rw [hrestart]
      exact Ne.symm hzero
  obtain ⟨depth, hr, hmiss⟩ := hgo
  refine ⟨recreateGuest (m.device.queues 1).sqSlotAddr depth, fun n hend => ?_⟩
  have hrun := (loopRun_recreated (fun _ => true) hr hmiss hloop hhead (n + 1)).1
  rw [hend.2] at hrun
  cases hrun

end Machine

theorem openflashRealize_ok {host : RealizeHost} {capacity : UInt64} {backingFile : Option String}
    {file : Option Image} {device : OpenFlashState}
    (h : openflashRealize host capacity backingFile file = .ok device) :
    ∃ storage hvalid, device = realizedOn capacity backingFile file storage hvalid := by
  unfold openflashRealize at h
  dsimp only at h
  split_ifs at h with hvalid
  split at h
  · split at h
    · cases h
    · split_ifs at h
      split at h
      · cases h
      · exact ⟨_, hvalid, (Except.ok.inj h).symm⟩
  · split at h
    · cases h
    · exact ⟨_, hvalid, (Except.ok.inj h).symm⟩

theorem openflashMmioWrite_enters {addr : ℕ} {value : UInt64} {s : OpenFlashState}
    {qid : Fin maxQueues} {newTail : ℕ}
    (h : (openflashMmioWrite addr value s).2 = some (qid, newTail)) :
    (openflashMmioWrite addr value s).1 = s ∧ doorbellAccepted s qid newTail := by
  revert h
  unfold openflashMmioWrite
  split
  · exact nofun
  · exact nofun
  · exact nofun
  · exact nofun
  · exact nofun
  · exact nofun
  · unfold writeDoorbell
    dsimp only
    split_ifs with _ _ hacc
    · intro h
      cases h
      exact ⟨rfl, hacc⟩
    · exact nofun
    · exact nofun
    · exact nofun
    · exact nofun

namespace Machine

/-- States a realized device reaches with its guest, loops in progress included. -/
def Reachable (m : Machine) : Prop :=
  ∃ host capacity backingFile file device memory events,
    openflashRealize host capacity backingFile file = .ok device ∧
      m = (start device memory).run events

theorem Reachable.depthBounded {m : Machine} (h : m.Reachable) : DepthBounded m.device := by
  obtain ⟨host, capacity, backingFile, file, device, memory, events, hrealize, rfl⟩ := h
  obtain ⟨storage, hvalid, rfl⟩ := openflashRealize_ok hrealize
  exact run_depthBounded (openflashReset_depthBounded _) events

/-- A doorbell rung in any reachable state starts a loop that ends after at most as many
fetches as the queue is deep, as long as no fetched command creates that queue anew.
Whether it does so for every content of guest memory depends on the queue only: the
admin queue always does, the I/O queue never unless the loop has nothing to fetch. -/
theorem doorbell_loop_ends {m : Machine} (hm : m.Reachable) (hidle : m.loop = none) (addr : ℕ)
    (value : UInt64) (qid : Fin maxQueues) (newTail : ℕ)
    (hring : (openflashMmioWrite addr value m.device).2 = some (qid, newTail)) :
    (∀ guest fileOk, NeverRecreates guest fileOk (m.mmioWrite addr value) qid newTail →
      ∃ n ≤ (m.device.queues qid).depth, EndsAfter guest fileOk (m.mmioWrite addr value) n) ∧
    ((∀ guest fileOk, ∃ n ≤ (m.device.queues qid).depth,
        EndsAfter guest fileOk (m.mmioWrite addr value) n) ↔
      qid = 0 ∨ (m.device.queues qid).sqHead = newTail) := by
  obtain ⟨hsame, hacc⟩ := openflashMmioWrite_enters hring
  have hloop : (m.mmioWrite addr value).loop = some (qid, newTail) := by
    simp only [mmioWrite, hidle, hring]
  have hdevice : (m.mmioWrite addr value).device = m.device := by
    simp only [mmioWrite, hidle, hsame]
  have hle : (m.device.queues qid).depth ≤ maxQueueDepth := hm.depthBounded qid
  have hends : ∀ guest fileOk, NeverRecreates guest fileOk (m.mmioWrite addr value) qid newTail →
      ∃ n ≤ (m.device.queues qid).depth, EndsAfter guest fileOk (m.mmioWrite addr value) n := by
    intro guest fileOk hkeep
    rw [← hdevice]
    exact endsAfter_of_neverRecreates hloop (by rw [hdevice]; exact hacc.2.2.2)
      (by rw [hdevice]; exact hle) hkeep
  refine ⟨hends, ?_, ?_⟩
  · intro hall
    by_contra hnot
    rw [not_or] at hnot
    obtain rfl : qid = 1 := Fin.eq_one_of_ne_zero qid hnot.1
    obtain ⟨guest, hnever⟩ := exists_guest_not_ends hloop (by rw [hdevice]; exact hnot.2)
    obtain ⟨n, -, hend⟩ := hall guest fun _ => true
    exact hnever n hend
  · rintro (rfl | hhead) guest fileOk
    · apply hends guest fileOk
      intro n _ _ hrec
      exact hrec.1.2.1 hrec.2
    · have hend : EndsAfter guest fileOk (m.mmioWrite addr value) 0 := by
        refine ⟨fun k hk => ?_, loopRun_succ_of_end hloop ?_⟩
        · obtain rfl : k = 0 := by omega
          rw [loopRun, hloop]
          exact Option.some_ne_none _
        · rw [loopRun, hdevice]
          exact hhead
      exact ⟨0, Nat.zero_le _, hend⟩

def freshDevice : OpenFlashState := realizedOn 4096 none none (fun _ => 0) ofBlockSize_valid

/-- The admin ring holds a command that creates the I/O queue with two slots, and the
first of these a command that creates it again with one. -/
def recreateMemory : Memory := fun a =>
  if a < 0x3000 then placed 0x1000 (recreateCommand 2).bytes a
  else placed 0x3000 (recreateCommand 1).bytes a

/-- Enable the device, then let it process one admin command. -/
def createIoqEvents : List Event :=
  [.mmioWrite 0x0020 0x1000, .mmioWrite 0x0028 0x2000, .mmioWrite 0x0030 2, .mmioWrite 0x0010 1,
    .mmioWrite 0x1000 1, .iterate true, .iterate true]

def ioqMachine : Machine := (start freshDevice recreateMemory).run createIoqEvents

theorem ioqMachine_reachable : ioqMachine.Reachable :=
  ⟨{}, 4096, none, none, freshDevice, recreateMemory, createIoqEvents, rfl, rfl⟩

theorem openflashExecute_recreate (fileOk : Bool) (memory : Memory) (s : OpenFlashState) :
    openflashExecute fileOk (recreateCommand 1) memory s
      = ⟨.success, 1, updateQueue s 1 (createdQueue (recreateCommand 1)), memory, []⟩ := rfl

/-- The loop stands at slot zero of the I/O queue, which holds the creating command. -/
structure Restarting (m : Machine) : Prop where
  loop : m.loop = some (1, 1)
  head : (m.device.queues 1).sqHead = 0
  slot : (m.device.queues 1).sqSlotAddr = 0x3000
  command : OpenFlashCommand.read m.memory 0x3000 = recreateCommand 1

theorem iterate_restarting {m : Machine} (h : m.Restarting) : (m.iterate true).Restarting := by
  have hne : (m.device.queues 1).sqHead ≠ 1 := by
    rw [h.head]
    decide
  have hread : OpenFlashCommand.read m.memory (m.device.queues 1).sqSlotAddr
      = recreateCommand 1 := by
    rw [h.slot]
    exact h.command
  have hqueue : (m.iterate true).device.queues 1 = recreatedQueue 1 := by
    simp only [iterate, h.loop, hne, if_false]
    exact processSq_recreated hread ⟨⟨rfl, by decide⟩, rfl⟩ true
  constructor
  · simp only [iterate, h.loop, hne, if_false]
  · rw [hqueue]
    decide
  · rw [hqueue]
    decide
  · simp only [iterate, h.loop, hne, if_false, processSq, processCommand, hread,
      openflashExecute_recreate]
    refine (OpenFlashCommand.read_congr fun i hi => ?_).trans h.command
    have hslot : (createdQueue (recreateCommand 1)).fetched.cqSlotAddr = 0x4000 := by decide
    refine overwrite_of_notMem _ _ (Or.inl ?_)
    rw [updateQueue_self, hslot]
    omega

theorem loopRun_restarting {m : Machine} (h : m.Restarting) (n : ℕ) :
    (loopRun (fun _ memory => memory) (fun _ => true) m n).Restarting := by
  induction n with
  | zero => exact h
  | succ n ih => exact iterate_restarting ih

/-- One command on the I/O queue hangs the device: in a state that
takes seven events to reach, the loop behind the doorbell never ends. -/
theorem ioqMachine_never_ends :
    ioqMachine.Reachable ∧ ioqMachine.loop = none ∧
    (openflashMmioWrite 0x1008 1 ioqMachine.device).2 = some (1, 1) ∧
    ∀ n, ¬ EndsAfter (fun _ memory => memory) (fun _ => true)
      (ioqMachine.mmioWrite 0x1008 1) n := by
  refine ⟨ioqMachine_reachable, by decide, by decide, fun n hend => ?_⟩
  have hstart : (ioqMachine.mmioWrite 0x1008 1).Restarting :=
    ⟨by decide, by decide, by decide, by decide⟩
  have hloop := (loopRun_restarting hstart (n + 1)).loop
  rw [hend.2] at hloop
  cases hloop

/-- The admin queue of the same machine always finishes. -/
theorem adminDoorbell_loop_ends :
    ioqMachine.Reachable ∧ ioqMachine.loop = none ∧
    (openflashMmioWrite 0x1000 0 ioqMachine.device).2 = some (0, 0) ∧
    ∀ guest fileOk, ∃ n ≤ (ioqMachine.device.queues 0).depth,
      EndsAfter guest fileOk (ioqMachine.mmioWrite 0x1000 0) n := by
  have hidle : ioqMachine.loop = none := by decide
  have hring : (openflashMmioWrite 0x1000 0 ioqMachine.device).2 = some (0, 0) := by decide
  exact ⟨ioqMachine_reachable, hidle, hring,
    (doorbell_loop_ends ioqMachine_reachable hidle 0x1000 0 0 0 hring).2.mpr (Or.inl rfl)⟩

end Machine
end OpenFlash.Qemu
