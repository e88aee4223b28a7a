import OpenFlash.Qemu.Storage

/-! The device in its environment. Register writes, single iterations of a submission
loop and arbitrary changes of guest memory interleave, so a loop that never ends is
still a run of the machine. -/
namespace OpenFlash.Qemu
open Abi Support

/-- A device, the guest memory, the submission loop in progress with the tail it runs to,
and the accesses made so far. -/
structure Machine where
  device : OpenFlashState
  memory : Memory
  loop : Option (Fin maxQueues × ℕ)
  trace : List Access

inductive Event where
  | mmioWrite (addr : ℕ) (value : UInt64)
  | iterate (fileOk : Bool)
  | guest (memory : Memory)

namespace Machine

def start (device : OpenFlashState) (memory : Memory) : Machine := ⟨device, memory, none, []⟩

/-- The guest reaches the registers only between loops. -/
def mmioWrite (m : Machine) (addr : ℕ) (value : UInt64) : Machine :=
  match m.loop with
  | some _ => m
  | none =>
      { m with
        device := (openflashMmioWrite addr value m.device).1
        loop := (openflashMmioWrite addr value m.device).2 }

/-- One evaluation of the loop condition, with the body when it holds. -/
def iterate (m : Machine) (fileOk : Bool) : Machine :=
  match m.loop with
  | none => m
  | some (qid, newTail) =>
      if (m.device.queues qid).sqHead = newTail then { m with loop := none }
      else
        let it := processSq fileOk qid m.memory m.device
        { m with device := it.device, memory := it.memory, trace := m.trace ++ it.trace }

def step (m : Machine) : Event → Machine
  | .mmioWrite addr value => m.mmioWrite addr value
  | .iterate fileOk => m.iterate fileOk
  | .guest memory => { m with memory := memory }

def run (m : Machine) (events : List Event) : Machine := events.foldl step m

end Machine

/-- At most the storage and the content of the backing file differ. -/
structure SameControl (s s' : OpenFlashState) : Prop where
  queues : s'.queues = s.queues
  status : s'.status = s.status
  capacity : s'.capacity = s.capacity
  backingFile : s'.backingFile = s.backingFile

theorem SameControl.rfl (s : OpenFlashState) (storage : ℕ → UInt8) :
    SameControl s { s with storage := storage } := ⟨Eq.refl _, Eq.refl _, Eq.refl _, Eq.refl _⟩

theorem openflashPersist_sameControl (fileOk : Bool) (s : OpenFlashState) :
    SameControl s (openflashPersist fileOk s).2.1 := by
  unfold openflashPersist
  cases hb : s.backingFile with
  | none => exact .rfl s s.storage
  | some path =>
    cases fileOk with
    | false => exact .rfl s s.storage
    | true => exact ⟨rfl, rfl, rfl, hb.symm⟩

theorem executeWrite_sameControl (fileOk : Bool) (cmd : OpenFlashCommand)
    (offset length : UInt64) (memory : Memory) (s : OpenFlashState) :
    SameControl s (executeWrite fileOk cmd offset length memory s).state := by
  unfold executeWrite
  dsimp only
  generalize openflashTransfer cmd offset length true s.storage memory = t
  by_cases hok : t.ok = false
  · simp only [hok, if_true]
    exact .rfl s t.storage
  · by_cases hfua : cmd.flags &&& cmdFua = 0
    · simp only [hok, hfua, if_true, Bool.true_eq_false, if_false]
      exact .rfl s t.storage
    · simp only [hok, hfua, Bool.true_eq_false, if_false]
      have hp := openflashPersist_sameControl fileOk { s with storage := t.storage }
      exact ⟨hp.queues, hp.status, hp.capacity, hp.backingFile⟩

theorem executeRanged_sameControl (fileOk : Bool) (cmd : OpenFlashCommand)
    (offset length : UInt64) (memory : Memory) (s : OpenFlashState) :
    SameControl s (executeRanged fileOk cmd offset length memory s).state := by
  unfold executeRanged
  split_ifs
  · exact .rfl s _
  · exact executeWrite_sameControl fileOk cmd offset length memory s
  · exact .rfl s _
  · exact .rfl s s.storage

/-- The device creates a queue. -/
def Creates (cmd : OpenFlashCommand) : Prop :=
  cmd.opcode = adminCreateIoq ∧ createIoqAccepted cmd

/-- A command either creates a queue or leaves all of them alone. -/
theorem openflashExecute_control (fileOk : Bool) (cmd : OpenFlashCommand) (memory : Memory)
    (s : OpenFlashState) :
    (Creates cmd ∧ (openflashExecute fileOk cmd memory s).state
      = updateQueue s (Fin.ofNat maxQueues (createdQid cmd)) (createdQueue cmd)) ∨
    (¬ Creates cmd ∧ SameControl s (openflashExecute fileOk cmd memory s).state) := by
  unfold openflashExecute
  by_cases hid : cmd.opcode = adminIdentify
  · have hn : ¬ Creates cmd := by
      rintro ⟨hc, -⟩
      exact absurd (hid.symm.trans hc) (by decide)
    simp only [hid, if_true]
    exact Or.inr ⟨hn, .rfl s s.storage⟩
  by_cases hcreate : cmd.opcode = adminCreateIoq
  · simp only [if_neg hid, if_pos hcreate, executeCreateIoq]
    by_cases hacc : createIoqAccepted cmd
    · simp only [hacc, if_true]
      exact Or.inl ⟨⟨hcreate, hacc⟩, trivial⟩
    · simp only [hacc, if_false]
      exact Or.inr ⟨fun hc => hacc hc.2, .rfl s s.storage⟩
  · refine Or.inr ⟨fun hc => hcreate hc.1, ?_⟩
    simp only [hid, hcreate, if_false]
    split_ifs
    · exact openflashPersist_sameControl fileOk s
    · exact .rfl s s.storage
    · exact .rfl s s.storage
    · exact .rfl s s.storage
    · exact executeRanged_sameControl fileOk cmd _ _ memory s

/-- A command leaves a queue as it is or creates it. -/
theorem openflashExecute_queues (fileOk : Bool) (cmd : OpenFlashCommand) (memory : Memory)
    (s : OpenFlashState) (qid : Fin maxQueues) :
    (openflashExecute fileOk cmd memory s).state.queues qid = s.queues qid ∨
      (createIoqAccepted cmd ∧
        (openflashExecute fileOk cmd memory s).state.queues qid = createdQueue cmd) := by
  rcases openflashExecute_control fileOk cmd memory s with ⟨hc, heq⟩ | ⟨-, hsame⟩
  · rw [heq]
    by_cases hqid : qid = Fin.ofNat maxQueues (createdQid cmd)
    · rw [hqid, updateQueue_self]
      exact Or.inr ⟨hc.2, rfl⟩
    · exact Or.inl (updateQueue_of_ne s _ hqid)
  · exact Or.inl (by rw [hsame.queues])

/-- What holds of a queue and of every queue that is created holds after the command. -/
theorem openflashExecute_queue_rule {P : OpenFlashQueue → Prop} {s : OpenFlashState}
    {qid : Fin maxQueues} (h : P (s.queues qid))
    (hcreated : ∀ cmd, createIoqAccepted cmd → P (createdQueue cmd)) (fileOk : Bool)
    (cmd : OpenFlashCommand) (memory : Memory) :
    P ((openflashExecute fileOk cmd memory s).state.queues qid) := by
  rcases openflashExecute_queues fileOk cmd memory s qid with heq | ⟨hc, heq⟩
  · rw [heq]
    exact h
  · rw [heq]
    exact hcreated cmd hc

theorem advance_of_lt {q : OpenFlashQueue} (hpos : 0 < q.depth) (hlt : q.depth < 2 ^ 16)
    (index : ℕ) : q.advance index = (index + 1) % q.depth :=
  Nat.mod_eq_of_lt ((Nat.mod_lt _ hpos).trans hlt)

/-- A command of the I/O queue leaves the queues to the loop. -/
theorem processCommand_queue {cmd : OpenFlashCommand} (h : cmd.opcode ≠ adminCreateIoq)
    (fileOk : Bool) (qid : Fin maxQueues) (memory : Memory) (s : OpenFlashState) :
    (processCommand fileOk qid cmd memory s).queue = (s.queues qid).fetched ∧
      (processCommand fileOk qid cmd memory s).device.queues qid
        = (s.queues qid).fetched.posted ∧
      (processCommand fileOk qid cmd memory s).device.status = s.status := by
  have hsame : SameControl s (openflashExecute fileOk cmd memory s).state := by
    rcases openflashExecute_control fileOk cmd memory s with ⟨hc, -⟩ | ⟨-, hsame⟩
    · exact absurd hc.1 h
    · exact hsame
  simp only [processCommand, updateQueue_self, hsame.queues, true_and]
  exact hsame.status

theorem openflashExecute_capacity (fileOk : Bool) (cmd : OpenFlashCommand) (memory : Memory)
    (s : OpenFlashState) : (openflashExecute fileOk cmd memory s).state.capacity = s.capacity := by
  rcases openflashExecute_control fileOk cmd memory s with ⟨-, heq⟩ | ⟨-, hsame⟩
  · rw [heq]
    rfl
  · exact hsame.capacity

theorem openflashMmioWrite_capacity (addr : ℕ) (value : UInt64) (s : OpenFlashState) :
    (openflashMmioWrite addr value s).1.capacity = s.capacity := by
  unfold openflashMmioWrite
  split
  · unfold writeControl
    split_ifs <;> rfl
  · rfl
  · rfl
  · rfl
  · rfl
  · rfl
  · unfold writeDoorbell
    dsimp only
    split_ifs <;> rfl

namespace Machine

/-- An event either leaves the machine alone, writes a register between loops, ends a loop,
runs its body once, or changes guest memory. -/
theorem step_rule {P : Machine → Prop} {m : Machine} (hsame : P m)
    (hwrite : m.loop = none → ∀ addr value,
      P { m with
          device := (openflashMmioWrite addr value m.device).1
          loop := (openflashMmioWrite addr value m.device).2 })
    (hend : P { m with loop := none })
    (hbody : ∀ qid newTail, m.loop = some (qid, newTail) → ∀ fileOk,
      P { m with
          device := (processSq fileOk qid m.memory m.device).device
          memory := (processSq fileOk qid m.memory m.device).memory
          trace := m.trace ++ (processSq fileOk qid m.memory m.device).trace })
    (hguest : ∀ memory, P { m with memory := memory }) (event : Event) : P (m.step event) := by
  cases event with
  | mmioWrite addr value =>
    rw [step, mmioWrite]
    cases hl : m.loop with
    | some l => exact hsame
    | none => exact hwrite hl addr value
  | iterate fileOk =>
    rw [step, iterate]
    cases hl : m.loop with
    | none => exact hsame
    | some l =>
      dsimp only
      split_ifs
      · exact hend
      · have hrun := hbody l.1 l.2 hl fileOk
        rw [hl] at hrun
        exact hrun
  | guest memory => exact hguest memory

structure Safe (m : Machine) (capacity : UInt64) : Prop where
  capacity_eq : m.device.capacity = capacity
  confined : Confined 0 capacity.toNat m.trace

theorem step_safe {m : Machine} {capacity : UInt64} (h : m.Safe capacity) (event : Event) :
    (m.step event).Safe capacity := by
  refine step_rule (P := fun m => m.Safe capacity) h ?_ ?_ ?_ ?_ event
  · intro _ addr value
    exact ⟨(openflashMmioWrite_capacity _ _ _).trans h.capacity_eq, h.confined⟩
  · exact ⟨h.capacity_eq, h.confined⟩
  · intro qid newTail _ fileOk
    refine ⟨(openflashExecute_capacity _ _ _ _).trans h.capacity_eq, h.confined.append ?_⟩
    rw [← h.capacity_eq]
    exact openflashExecute_confined _ _ _ _
  · intro memory
    exact ⟨h.capacity_eq, h.confined⟩

theorem run_safe {m : Machine} {capacity : UInt64} (h : m.Safe capacity) (events : List Event) :
    (m.run events).Safe capacity := by
  induction events generalizing m with
  | nil => exact h
  | cons event rest ih => exact ih (step_safe h event)

/-- Whatever the guest writes to registers and memory, every access to the storage of a
realized device lies inside it and no unsigned subtraction wraps. -/
theorem run_confined (device : OpenFlashState) (memory : Memory) (events : List Event) :
    Confined 0 device.capacity.toNat ((start device memory).run events).trace :=
  (run_safe ⟨rfl, .nil _ _⟩ events).confined

end Machine
end OpenFlash.Qemu
