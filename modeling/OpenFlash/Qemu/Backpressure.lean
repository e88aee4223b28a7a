import OpenFlash.Qemu.RingBounds

/-! Completions the host has not acknowledged yet. The device posts whatever it fetches, so
only the host can keep it from running over them. -/
namespace OpenFlash.Qemu
open Abi Support Support.Ring

instance (cmd : OpenFlashCommand) : Decidable (Creates cmd) :=
  inferInstanceAs (Decidable (_ ∧ _))

instance (qid : Fin maxQueues) (cmd : OpenFlashCommand) : Decidable (Recreates qid cmd) :=
  inferInstanceAs (Decidable (_ ∧ _))

def sqDoorbell (qid : Fin maxQueues) : ℕ := 0x1000 + 8 * qid

def cqDoorbell (qid : Fin maxQueues) : ℕ := 0x1000 + 8 * qid + 4

theorem openflashMmioWrite_doorbell {addr : ℕ} (h : 0x1000 ≤ addr) (value : UInt64)
    (s : OpenFlashState) : openflashMmioWrite addr value s = writeDoorbell addr value s := by
  unfold openflashMmioWrite
  split <;> first | rfl | omega

theorem doorbell_qid {qid : Fin maxQueues} {addr : ℕ} (hlo : 0x1000 + 8 * qid.val ≤ addr)
    (hhi : addr < 0x1000 + 8 * qid.val + 8) : Fin.ofNat maxQueues ((addr - 0x1000) / 8) = qid := by
  have hqid : (addr - 0x1000) / 8 = qid.val := by omega
  rw [hqid]
  exact Fin.ext (Nat.mod_eq_of_lt qid.isLt)

theorem openflashMmioWrite_sqDoorbell (qid : Fin maxQueues) (value : UInt64) (s : OpenFlashState) :
    openflashMmioWrite (sqDoorbell qid) value s
      = (s, if doorbellAccepted s qid (value.toNat % 2 ^ 16) then
          some (qid, value.toNat % 2 ^ 16) else none) := by
  have hlt := qid.isLt
  have hqid : Fin.ofNat maxQueues ((sqDoorbell qid - 0x1000) / 8) = qid :=
    doorbell_qid le_rfl (by unfold sqDoorbell; omega)
  have hrange : 0x1000 ≤ sqDoorbell qid ∧ sqDoorbell qid < 0x1000 + maxQueues * 8 := by
    unfold sqDoorbell
    omega
  have hsq : (sqDoorbell qid - 0x1000) % 8 = 0 := by
    unfold sqDoorbell
    omega
  rw [openflashMmioWrite_doorbell hrange.1, writeDoorbell, if_pos hrange, if_pos hsq, hqid]

theorem openflashMmioWrite_cqDoorbell (qid : Fin maxQueues) (value : UInt64) (s : OpenFlashState) :
    openflashMmioWrite (cqDoorbell qid) value s
      = (if value.toNat < (s.queues qid).depth then
          updateQueue s qid { s.queues qid with cqHead := value.toNat % 2 ^ 16 } else s, none) := by
  have hlt := qid.isLt
  have hqid : Fin.ofNat maxQueues ((cqDoorbell qid - 0x1000) / 8) = qid :=
    doorbell_qid (Nat.le_add_right _ _) (by unfold cqDoorbell; omega)
  have hrange : 0x1000 ≤ cqDoorbell qid ∧ cqDoorbell qid < 0x1000 + maxQueues * 8 := by
    unfold cqDoorbell
    omega
  have hcq : ¬ (cqDoorbell qid - 0x1000) % 8 = 0 := by
    unfold cqDoorbell
    omega
  rw [openflashMmioWrite_doorbell hrange.1, writeDoorbell, if_pos hrange, if_neg hcq, hqid]
  split_ifs <;> rfl

namespace OpenFlashQueue

/-- Entries between the head and a tail. -/
def pending (q : OpenFlashQueue) (newTail : ℕ) : ℕ :=
  if q.sqHead ≤ newTail then newTail - q.sqHead else newTail + q.depth - q.sqHead

theorem fetched_sqHead {q : OpenFlashQueue} (h : q.Inside) (hd : q.depth ≠ 0) :
    q.fetched.sqHead = if q.sqHead + 1 = q.depth then 0 else q.sqHead + 1 := by
  have hmax : maxQueueDepth < 2 ^ 16 := by decide
  have hhead := (h.2 hd).1
  have hle := h.1
  rw [fetched, advance_of_lt (by omega) (by omega)]
  split_ifs with hlast
  · rw [hlast, Nat.mod_self]
  · exact Nat.mod_eq_of_lt (by omega)

/-- A fetch takes one entry, and a head that stands at the tail goes all the way round. -/
theorem pending_fetched {q : OpenFlashQueue} (h : q.Inside) {newTail : ℕ}
    (htail : newTail < q.depth) :
    q.fetched.pending newTail + 1 = if q.sqHead = newTail then q.depth else q.pending newTail := by
  have hd : q.depth ≠ 0 := by omega
  have hhead := (h.2 hd).1
  have hnext := fetched_sqHead h hd
  have hdepth : q.fetched.depth = q.depth := rfl
  rw [pending, pending, hnext, hdepth]
  split_ifs <;> omega

/-- The unacknowledged completions are the latest ones posted, oldest first, and fit the ring. -/
def Outstanding (q : OpenFlashQueue) (slots : List ℕ) : Prop :=
  slots.length ≤ q.depth ∧
    ∃ a, slots = window q.depth a slots.length ∧ (a + slots.length) % q.depth = q.cqTail

theorem outstanding_nil {q : OpenFlashQueue} (h : q.Inside) : q.Outstanding [] := by
  refine ⟨Nat.zero_le _, q.cqTail, rfl, ?_⟩
  by_cases hd : q.depth = 0
  · rw [hd]
    exact Nat.mod_zero _
  · exact Nat.mod_eq_of_lt (h.2 hd).2

theorem Outstanding.congr {q q' : OpenFlashQueue} {slots : List ℕ} (h : q.Outstanding slots)
    (hdepth : q'.depth = q.depth) (htail : q'.cqTail = q.cqTail) : q'.Outstanding slots := by
  rw [Outstanding, hdepth, htail]
  exact h

theorem Outstanding.drop {q : OpenFlashQueue} {slots : List ℕ} (h : q.Outstanding slots)
    (hq : q.Inside) (consumed : ℕ) : q.Outstanding (slots.drop consumed) := by
  obtain ⟨hlen, a, hslots, htail⟩ := h
  by_cases hall : slots.length ≤ consumed
  · rw [List.drop_of_length_le hall]
    exact outstanding_nil hq
  · refine ⟨?_, a + consumed, ?_, ?_⟩
    · rw [List.length_drop]
      omega
    · rw [List.length_drop, ← drop_window, ← hslots]
    · rw [List.length_drop, Nat.add_assoc, Nat.add_sub_cancel' (by omega)]
      exact htail

/-- A ring with room takes a completion in a slot that holds no unacknowledged one. -/
theorem Outstanding.post {q : OpenFlashQueue} {slots : List ℕ} (h : q.Outstanding slots)
    (hq : q.Inside) (hroom : slots.length < q.depth) :
    q.cqTail ∉ slots ∧ q.posted.Outstanding (slots ++ [q.cqTail]) := by
  obtain ⟨-, a, hslots, htail⟩ := h
  have hmax : maxQueueDepth < 2 ^ 16 := by decide
  have hle := hq.1
  have hlen : (slots ++ [q.cqTail]).length = slots.length + 1 := List.length_append
  constructor
  · have hfree := next_notMem_window a hroom
    rwa [← hslots, htail] at hfree
  · refine ⟨by rw [hlen]; exact hroom, a, ?_, ?_⟩
    · have hdepth : q.posted.depth = q.depth := rfl
      rw [hlen, hdepth, window_succ, ← hslots, htail]
    · rw [hlen, posted, advance_of_lt (by omega) (by omega), ← htail, succ_mod]
      rfl

end OpenFlashQueue
/-- What host, device and guest memory do once the queues are set up. A CQ doorbell tells
that the host is done with the oldest completions, as many as it counts. -/
inductive RingEvent where
  | submit (qid : Fin maxQueues) (value : UInt64)
  | acknowledge (qid : Fin maxQueues) (value : UInt64) (consumed : ℕ)
  | iterate (fileOk : Bool)
  | guest (memory : Memory)

def RingEvent.toEvent : RingEvent → Event
  | .submit qid value => .mmioWrite (sqDoorbell qid) value
  | .acknowledge qid value _ => .mmioWrite (cqDoorbell qid) value
  | .iterate fileOk => .iterate fileOk
  | .guest memory => .guest memory

/-- A machine, with the slots of the completions not yet acknowledged, oldest first. -/
structure Watched where
  machine : Machine
  unacked : Fin maxQueues → List ℕ

namespace Watched

def start (machine : Machine) : Watched := ⟨machine, fun _ => []⟩

/-- The command that a loop on the queue fetches next. -/
def fetching (w : Watched) (qid : Fin maxQueues) : OpenFlashCommand :=
  .read w.machine.memory (w.machine.device.queues qid).sqSlotAddr

/-- Creating a queue gives up the completions in its former ring. -/
def kept (w : Watched) (cmd : OpenFlashCommand) : Fin maxQueues → List ℕ :=
  fun qid => if Recreates qid cmd then [] else w.unacked qid

/-- The queue of a loop once its next command has been executed. -/
def executed (w : Watched) (fileOk : Bool) (qid : Fin maxQueues) : OpenFlashQueue :=
  (openflashExecute fileOk (w.fetching qid) w.machine.memory w.machine.device).state.queues qid

/-- The slot a loop on the queue posts to next. -/
def postingSlot (w : Watched) (fileOk : Bool) (qid : Fin maxQueues) : ℕ :=
  (processSq fileOk qid w.machine.memory w.machine.device).queue.cqTail

/-- What an event does to the unacknowledged completions. -/
def unackedAfter (w : Watched) : RingEvent → Fin maxQueues → List ℕ
  | .acknowledge qid _ consumed =>
      match w.machine.loop with
      | some _ => w.unacked
      | none => Function.update w.unacked qid ((w.unacked qid).drop consumed)
  | .iterate fileOk =>
      match w.machine.loop with
      | none => w.unacked
      | some (qid, newTail) =>
          if (w.machine.device.queues qid).sqHead = newTail then w.unacked
          else
            Function.update (w.kept (w.fetching qid)) qid
              (w.kept (w.fetching qid) qid ++ [w.postingSlot fileOk qid])
  | _ => w.unacked

def step (w : Watched) (event : RingEvent) : Watched :=
  ⟨w.machine.step event.toEvent, w.unackedAfter event⟩

/-- The event posts a completion into a slot with an unacknowledged one. -/
def Overwrites (w : Watched) : RingEvent → Prop
  | .iterate fileOk =>
      match w.machine.loop with
      | none => False
      | some (qid, newTail) =>
          (w.machine.device.queues qid).sqHead ≠ newTail ∧
            w.postingSlot fileOk qid ∈ w.kept (w.fetching qid) qid
  | _ => False

instance (w : Watched) (event : RingEvent) : Decidable (w.Overwrites event) := by
  unfold Overwrites
  split
  · split <;> infer_instance
  · infer_instance

/-- The host rings only for what the completion ring has room for, acknowledged completions
apart. A command that creates the queue of its own loop leaves the tail of the loop inside. -/
def LeavesRoom (w : Watched) : RingEvent → Prop
  | .submit qid value =>
      w.machine.loop = none →
      doorbellAccepted w.machine.device qid (value.toNat % 2 ^ 16) →
      (w.unacked qid).length + (w.machine.device.queues qid).pending (value.toNat % 2 ^ 16)
        ≤ (w.machine.device.queues qid).depth
  | .iterate _ =>
      match w.machine.loop with
      | none => True
      | some (qid, newTail) =>
          (w.machine.device.queues qid).sqHead ≠ newTail → Recreates qid (w.fetching qid) →
            newTail < (w.fetching qid).nblocks.toNat
  | _ => True

instance (w : Watched) (event : RingEvent) : Decidable (w.LeavesRoom event) := by
  unfold LeavesRoom
  split
  · infer_instance
  · split <;> infer_instance
  · infer_instance

/-- The unacknowledged completions fit every ring, with those of a loop in progress. -/
structure Paced (w : Watched) : Prop where
  inside : RingsInside w.machine.device
  rings : ∀ qid, (w.machine.device.queues qid).Outstanding (w.unacked qid)
  room : ∀ qid newTail, w.machine.loop = some (qid, newTail) →
    newTail < (w.machine.device.queues qid).depth ∧
      (w.unacked qid).length + (w.machine.device.queues qid).pending newTail
        ≤ (w.machine.device.queues qid).depth

theorem start_paced {machine : Machine} (hidle : machine.loop = none)
    (hinside : RingsInside machine.device) : (start machine).Paced where
  inside := hinside
  rings := fun qid => OpenFlashQueue.outstanding_nil (hinside qid)
  room := by
    intro qid newTail hloop
    rw [start, hidle] at hloop
    cases hloop

variable {w : Watched}

theorem submit_paced (h : w.Paced) {qid : Fin maxQueues} {value : UInt64}
    (hroom : w.LeavesRoom (.submit qid value)) : (w.step (.submit qid value)).Paced := by
  have hstep : w.step (.submit qid value)
      = ⟨w.machine.mmioWrite (sqDoorbell qid) value, w.unacked⟩ := rfl
  rw [hstep, Machine.mmioWrite]
  cases hl : w.machine.loop with
  | some l => exact ⟨h.inside, h.rings, h.room⟩
  | none =>
    rw [openflashMmioWrite_sqDoorbell]
    refine ⟨h.inside, h.rings, ?_⟩
    intro qid' newTail hloop
    dsimp only at hloop
    split_ifs at hloop with hacc
    cases hloop
    exact ⟨hacc.2.2.2, hroom hl hacc⟩

/-- A CQ doorbell moves no index that the device works with. -/
theorem cqDoorbell_queue (qid other : Fin maxQueues) (value : UInt64) (s : OpenFlashState) :
    ((openflashMmioWrite (cqDoorbell qid) value s).1.queues other).depth = (s.queues other).depth ∧
    ((openflashMmioWrite (cqDoorbell qid) value s).1.queues other).cqTail
      = (s.queues other).cqTail := by
  rw [openflashMmioWrite_cqDoorbell]
  dsimp only
  split_ifs
  · by_cases hqid : other = qid
    · rw [hqid, updateQueue_self]
      exact ⟨rfl, rfl⟩
    · rw [updateQueue_of_ne _ _ hqid]
      exact ⟨rfl, rfl⟩
  · exact ⟨rfl, rfl⟩

theorem acknowledge_paced (h : w.Paced) (qid : Fin maxQueues) (value : UInt64) (consumed : ℕ) :
    (w.step (.acknowledge qid value consumed)).Paced := by
  have hne : cqDoorbell qid ≠ 0x0030 := by
    unfold cqDoorbell
    omega
  rw [step, unackedAfter, RingEvent.toEvent, Machine.step, Machine.mmioWrite]
  cases hl : w.machine.loop with
  | some l => exact ⟨h.inside, h.rings, h.room⟩
  | none =>
    refine ⟨?_, ?_, ?_⟩
    · exact (openflashMmioWrite_inside_iff h.inside _ _).mpr fun h0 => absurd h0 hne
    · intro other
      obtain ⟨hdepth, htail⟩ := cqDoorbell_queue qid other value w.machine.device
      refine OpenFlashQueue.Outstanding.congr ?_ hdepth htail
      dsimp only
      by_cases hqid : other = qid
      · rw [hqid, Function.update_self]
        exact (h.rings qid).drop (h.inside qid) consumed
      · rw [Function.update_of_ne hqid]
        exact h.rings other
    · intro other newTail hloop
      dsimp only at hloop
      rw [openflashMmioWrite_cqDoorbell] at hloop
      cases hloop

/-- The execution of a command keeps the rings paced, those it creates included. -/
theorem execute_outstanding (h : w.Paced) (fileOk : Bool) (cmd : OpenFlashCommand)
    (qid : Fin maxQueues) :
    ((openflashExecute fileOk cmd w.machine.memory w.machine.device).state.queues
      qid).Outstanding (w.kept cmd qid) := by
  have hinside := openflashExecute_inside h.inside fileOk cmd w.machine.memory qid
  by_cases hr : Recreates qid cmd
  · rw [kept, if_pos hr]
    exact OpenFlashQueue.outstanding_nil hinside
  · rw [kept, if_neg hr, openflashExecute_queue hr]
    exact h.rings qid

/-- After the execution of a fetched command its completion still has room, and so have
those of the entries behind it. -/
theorem executed_room (h : w.Paced) (fileOk : Bool) {qid : Fin maxQueues} {newTail : ℕ}
    (hl : w.machine.loop = some (qid, newTail))
    (hhead : (w.machine.device.queues qid).sqHead ≠ newTail)
    (hroom : Recreates qid (w.fetching qid) → newTail < (w.fetching qid).nblocks.toNat) :
    newTail < (w.executed fileOk qid).depth ∧
      (w.kept (w.fetching qid) qid).length
        + ((w.executed fileOk qid).fetched.pending newTail + 1)
        ≤ (w.executed fileOk qid).depth := by
  have hinside : (w.executed fileOk qid).Inside := openflashExecute_inside h.inside _ _ _ qid
  by_cases hr : Recreates qid (w.fetching qid)
  · have hqueue : w.executed fileOk qid = createdQueue (w.fetching qid) :=
      openflashExecute_recreated hr _ _ _
    rw [hqueue] at hinside ⊢
    have htail : newTail < (createdQueue (w.fetching qid)).depth := hroom hr
    have hpending : (createdQueue (w.fetching qid)).pending newTail = newTail := by
      simp [OpenFlashQueue.pending, createdQueue]
    rw [OpenFlashQueue.pending_fetched hinside htail, hpending, kept, if_pos hr, List.length_nil]
    refine ⟨htail, ?_⟩
    split_ifs <;> omega
  · have hqueue : w.executed fileOk qid = w.machine.device.queues qid :=
      openflashExecute_queue hr _ _ _
    rw [hqueue] at hinside ⊢
    obtain ⟨htail, hle⟩ := h.room qid newTail hl
    rw [OpenFlashQueue.pending_fetched hinside htail, if_neg hhead, kept, if_neg hr]
    exact ⟨htail, hle⟩

/-- One pass of the loop posts into a free slot and keeps the room of the rest. -/
theorem iterate_paced (h : w.Paced) (fileOk : Bool) (hroom : w.LeavesRoom (.iterate fileOk)) :
    ¬ w.Overwrites (.iterate fileOk) ∧ (w.step (.iterate fileOk)).Paced := by
  rw [LeavesRoom] at hroom
  rw [step, Overwrites, unackedAfter, RingEvent.toEvent, Machine.step, Machine.iterate]
  cases hl : w.machine.loop with
  | none => exact ⟨id, h.inside, h.rings, h.room⟩
  | some l =>
    obtain ⟨qid, newTail⟩ := l
    rw [hl] at hroom
    dsimp only at hroom ⊢
    by_cases hhead : (w.machine.device.queues qid).sqHead = newTail
    · rw [if_pos hhead, if_pos hhead]
      refine ⟨fun hover => hover.1 hhead, h.inside, h.rings, ?_⟩
      intro other newTail' hloop
      cases hloop
    · rw [if_neg hhead, if_neg hhead]
      obtain ⟨htail, hle⟩ := executed_room h fileOk hl hhead (hroom hhead)
      have hinside : (w.executed fileOk qid).fetched.Inside :=
        (openflashExecute_inside h.inside _ _ _ qid).fetched
      have hout : (w.executed fileOk qid).fetched.Outstanding (w.kept (w.fetching qid) qid) :=
        (execute_outstanding h fileOk (w.fetching qid) qid).congr rfl rfl
      have hfits : (w.kept (w.fetching qid) qid).length < (w.executed fileOk qid).fetched.depth :=
        lt_of_lt_of_le (by omega) hle
      obtain ⟨hfree, hposted⟩ := hout.post hinside hfits
      refine ⟨fun hover => hfree hover.2, (processSq_inside h.inside fileOk qid _).2, ?_, ?_⟩
      · intro other
        by_cases hqid : other = qid
        · subst hqid
          simp only [processSq, processCommand, updateQueue_self, Function.update_self]
          exact hposted
        · simp only [processSq, processCommand, updateQueue_of_ne _ _ hqid,
            Function.update_of_ne hqid]
          exact execute_outstanding h fileOk (w.fetching qid) other
      · intro other newTail' hloop
        cases hloop
        have hrest : (w.kept (w.fetching qid) qid).length + 1
            + (w.executed fileOk qid).fetched.posted.pending newTail
              ≤ (w.executed fileOk qid).fetched.posted.depth := by
          rw [Nat.add_assoc, Nat.add_comm 1]
          exact hle
        simp only [processSq, processCommand, updateQueue_self, Function.update_self,
          List.length_append, List.length_singleton]
        exact ⟨htail, hrest⟩

theorem step_paced (h : w.Paced) {event : RingEvent} (hroom : w.LeavesRoom event) :
    (w.step event).Paced := by
  cases event with
  | submit qid value => exact submit_paced h hroom
  | acknowledge qid value consumed => exact acknowledge_paced h qid value consumed
  | iterate fileOk => exact (iterate_paced h fileOk hroom).2
  | guest memory => exact ⟨h.inside, h.rings, h.room⟩

theorem not_overwrites (h : w.Paced) {event : RingEvent} (hroom : w.LeavesRoom event) :
    ¬ w.Overwrites event := by
  cases event with
  | submit qid value => exact id
  | acknowledge qid value consumed => exact id
  | iterate fileOk => exact (iterate_paced h fileOk hroom).1
  | guest memory => exact id

/-- From any idle device with its indices inside the rings, over any sequence of doorbells
in which the host leaves room for every completion, none is posted over an
unacknowledged one. Any tail below the depth keeps submission flow control: between
loops the head of the device is the one it has reported last. -/
theorem run_never_overwrites (machine : Machine) (hidle : machine.loop = none)
    (hinside : RingsInside machine.device) (events : List RingEvent)
    (h : Along step LeavesRoom (start machine) events) :
    Along step (fun w event => ¬ w.Overwrites event) (start machine) events := by
  have hstep : ∀ (w : Watched) event, w.Paced → w.LeavesRoom event → (w.step event).Paced :=
    fun w event hw hroom => step_paced hw hroom
  exact h.imp_of_invariant hstep (fun w event hw hroom => not_overwrites hw hroom)
    (start_paced hidle hinside)

/-- An admin queue of two slots, enabled. -/
def twoSlots : Machine :=
  (Machine.start Machine.freshDevice (fun _ => 0)).run
    [.mmioWrite 0x0020 0x1000, .mmioWrite 0x0028 0x2000, .mmioWrite 0x0030 2, .mmioWrite 0x0010 1]

theorem twoSlots_inside : RingsInside twoSlots.device := by
  intro qid
  match qid with
  | 0 => exact ⟨by decide, by decide⟩
  | 1 => exact ⟨by decide, by decide⟩

/-- Ring for one command and let the loop run to its end. -/
def submitOne (tail : UInt64) : List RingEvent :=
  [.submit 0 tail, .iterate true, .iterate true]

/-- The host acknowledges the first completion before it submits the third command. -/
theorem acknowledged_not_overwritten :
    Along step (fun w event => ¬ w.Overwrites event) (start twoSlots)
      (submitOne 1 ++ submitOne 0 ++ [.acknowledge 0 1 1] ++ submitOne 1) :=
  run_never_overwrites twoSlots (by decide) twoSlots_inside _ (by decide)

/-- Without the acknowledgement the third completion goes over the first. -/
theorem unacknowledged_overwritten :
    let w : Watched :=
      List.foldl step (start twoSlots) (submitOne 1 ++ submitOne 0 ++ [.submit 0 1])
    w.machine.loop = some (0, 1) ∧ w.unacked 0 = [0, 1] ∧ w.postingSlot true 0 = 0 ∧
      w.Overwrites (.iterate true) := by
  decide

end Watched
end OpenFlash.Qemu
