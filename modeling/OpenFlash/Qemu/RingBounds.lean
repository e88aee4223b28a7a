import OpenFlash.Qemu.Doorbell
import OpenFlash.Support.Runs

/-! Where the submission loop reads and writes guest memory: the slots of its two rings, as
long as no write to the queue size register shrinks the admin queue below an index in use. -/
namespace OpenFlash.Qemu
open Abi Support

namespace OpenFlashQueue

/-- The depth is one the device accepts and both indices are slots of the ring. -/
def Inside (q : OpenFlashQueue) : Prop :=
  q.depth ≤ maxQueueDepth ∧ (q.depth ≠ 0 → q.sqHead < q.depth ∧ q.cqTail < q.depth)

theorem advance_lt {q : OpenFlashQueue} (h : q.depth ≠ 0) (index : ℕ) :
    q.advance index < q.depth :=
  (Nat.mod_le _ _).trans_lt (Nat.mod_lt _ (Nat.pos_of_ne_zero h))

theorem Inside.fetched {q : OpenFlashQueue} (h : q.Inside) : q.fetched.Inside :=
  ⟨h.1, fun hd => ⟨advance_lt hd _, (h.2 hd).2⟩⟩

theorem Inside.posted {q : OpenFlashQueue} (h : q.Inside) : q.posted.Inside :=
  ⟨h.1, fun hd => ⟨(h.2 hd).1, advance_lt hd _⟩⟩

end OpenFlashQueue

theorem createdQueue_inside {cmd : OpenFlashCommand} (h : createIoqAccepted cmd) :
    (createdQueue cmd).Inside ∧ (createdQueue cmd).depth ≠ 0 := by
  obtain ⟨-, -, -, hn, hmax, -, -⟩ := h
  have hdepth : (createdQueue cmd).depth ≠ 0 := fun h0 => hn (UInt32.toNat_inj.mp h0)
  exact ⟨⟨hmax, fun hd => ⟨Nat.pos_of_ne_zero hd, Nat.pos_of_ne_zero hd⟩⟩, hdepth⟩

theorem openflashExecute_depth_ne_zero {s : OpenFlashState} {qid : Fin maxQueues}
    (h : (s.queues qid).depth ≠ 0) (fileOk : Bool) (cmd : OpenFlashCommand) (memory : Memory) :
    ((openflashExecute fileOk cmd memory s).state.queues qid).depth ≠ 0 :=
  openflashExecute_queue_rule (P := fun q => q.depth ≠ 0) h
    (fun _ hc => (createdQueue_inside hc).2) fileOk cmd memory

/-- Every queue of the device. -/
def RingsInside (s : OpenFlashState) : Prop := ∀ qid, (s.queues qid).Inside

theorem updateQueue_inside {s : OpenFlashState} (h : RingsInside s) {q : OpenFlashQueue}
    (hq : q.Inside) (qid : Fin maxQueues) : RingsInside (updateQueue s qid q) :=
  updateQueue_forall h hq qid

theorem updateQueue_keep_inside {s : OpenFlashState} (h : RingsInside s) {q : OpenFlashQueue}
    {qid : Fin maxQueues} (hdepth : q.depth = (s.queues qid).depth)
    (hhead : q.sqHead = (s.queues qid).sqHead) (htail : q.cqTail = (s.queues qid).cqTail) :
    RingsInside (updateQueue s qid q) := by
  have hq : q.Inside := by
    rw [OpenFlashQueue.Inside, hdepth, hhead, htail]
    exact h qid
  exact updateQueue_inside h hq qid

theorem openflashReset_inside (s : OpenFlashState) : RingsInside (openflashReset s) := by
  have hempty : RingsInside { s with queues := fun _ => {} } :=
    fun _ => ⟨Nat.zero_le _, fun hd => absurd rfl hd⟩
  exact updateQueue_inside hempty ⟨Nat.zero_le _, fun hd => absurd rfl hd⟩ 0

theorem openflashExecute_inside {s : OpenFlashState} (h : RingsInside s) (fileOk : Bool)
    (cmd : OpenFlashCommand) (memory : Memory) :
    RingsInside (openflashExecute fileOk cmd memory s).state :=
  fun qid => openflashExecute_queue_rule (h qid) (fun _ hc => (createdQueue_inside hc).1) fileOk
    cmd memory

theorem processSq_inside {s : OpenFlashState} (h : RingsInside s) (fileOk : Bool)
    (qid : Fin maxQueues) (memory : Memory) :
    (processSq fileOk qid memory s).queue.Inside ∧
      RingsInside (processSq fileOk qid memory s).device := by
  have hexec := openflashExecute_inside h fileOk
    (OpenFlashCommand.read memory (s.queues qid).sqSlotAddr) memory
  have hqueue := (hexec qid).fetched
  exact ⟨hqueue, updateQueue_inside hexec hqueue.posted qid⟩

theorem writeControl_inside {s : OpenFlashState} (h : RingsInside s) (value : UInt64) :
    RingsInside (writeControl value s) := by
  unfold writeControl
  by_cases hreset : value &&& 2 ≠ 0
  · rw [if_pos hreset]
    exact openflashReset_inside s
  · rw [if_neg hreset]
    exact h

theorem writeDoorbell_inside {s : OpenFlashState} (h : RingsInside s) (addr : ℕ) (value : UInt64) :
    RingsInside (writeDoorbell addr value s).1 := by
  unfold writeDoorbell
  dsimp only
  split_ifs
  · exact h
  · exact h
  · exact updateQueue_keep_inside h rfl rfl rfl
  · exact h
  · exact h

/-- A depth that leaves both indices of the admin queue inside the ring. -/
def QsizeFits (s : OpenFlashState) (value : UInt64) : Prop :=
  adminDepth value = 0 ∨
    ((s.queues 0).sqHead < adminDepth value ∧ (s.queues 0).cqTail < adminDepth value)

instance (s : OpenFlashState) (value : UInt64) : Decidable (QsizeFits s value) :=
  inferInstanceAs (Decidable (_ ∨ _))

/-- The queue size register is the only one that can leave an index behind. -/
theorem openflashMmioWrite_inside_iff {s : OpenFlashState} (h : RingsInside s) (addr : ℕ)
    (value : UInt64) :
    RingsInside (openflashMmioWrite addr value s).1 ↔ (addr = 0x0030 → QsizeFits s value) := by
  by_cases haddr : addr = 0x0030
  · subst haddr
    simp only [openflashMmioWrite, forall_const]
    constructor
    · intro hafter
      have hzero := hafter 0
      rw [updateQueue_self] at hzero
      by_cases hdepth : adminDepth value = 0
      · exact Or.inl hdepth
      · exact Or.inr (hzero.2 hdepth)
    · intro hfits
      refine updateQueue_inside h ⟨adminDepth_le value, fun hdepth => ?_⟩ 0
      rcases hfits with hzero | hlt
      · exact absurd hzero hdepth
      · exact hlt
  · refine ⟨fun _ h0 => absurd h0 haddr, fun _ => ?_⟩
    unfold openflashMmioWrite
    split
    · exact writeControl_inside h value
    · exact updateQueue_keep_inside h rfl rfl rfl
    · exact updateQueue_keep_inside h rfl rfl rfl
    · exact updateQueue_keep_inside h rfl rfl rfl
    · exact updateQueue_keep_inside h rfl rfl rfl
    · exact absurd rfl haddr
    · exact writeDoorbell_inside h addr value

/-- The 64 bytes at `addr` lie in the ring at `base`, whose addresses may wrap. -/
def InRing (base : UInt64) (depth addr : ℕ) : Prop :=
  ∀ j < 64, (UInt64.ofNat (addr + j) - base).toNat < 64 * depth

theorem slot_inRing (base : UInt64) {depth index : ℕ} (hdepth : depth ≤ maxQueueDepth)
    (hindex : index < depth) : InRing base depth (base + .ofNat (index * 64)).toNat := by
  intro j hj
  have hmax : maxQueueDepth = 4096 := rfl
  have hbase := base.toNat_lt
  rw [UInt64.toNat_sub, UInt64.toNat_ofNat', UInt64.toNat_add, UInt64.toNat_ofNat']
  omega

namespace Machine

/-- The condition on one event: a queue size fits when it is written. -/
def QsizeKeeps (m : Machine) : Event → Prop
  | .mmioWrite addr value => m.loop = none → addr = 0x0030 → QsizeFits m.device value
  | _ => True

/-- The slot fetched and the slot posted to lie in the rings of the queue. -/
def AccessesInside (m : Machine) : Event → Prop
  | .iterate fileOk =>
      ∀ qid newTail, m.loop = some (qid, newTail) → (m.device.queues qid).sqHead ≠ newTail →
        let q := m.device.queues qid
        let posting := (processSq fileOk qid m.memory m.device).queue
        (q.sqHead < q.depth ∧ InRing q.sqAddr q.depth q.sqSlotAddr) ∧
          (posting.cqTail < posting.depth ∧ InRing posting.cqAddr posting.depth posting.cqSlotAddr)
  | _ => True

/-- A loop runs on a queue that has slots. -/
def LoopReady (m : Machine) : Prop :=
  ∀ qid newTail, m.loop = some (qid, newTail) → (m.device.queues qid).depth ≠ 0

theorem step_loopReady {m : Machine} (h : m.LoopReady) (event : Event) :
    (m.step event).LoopReady := by
  refine step_rule (P := LoopReady) h ?_ ?_ ?_ (fun _ => h) event
  · intro _ addr value qid newTail hloop
    obtain ⟨hsame, hacc⟩ := openflashMmioWrite_enters hloop
    dsimp only
    rw [hsame]
    exact hacc.2.2.1
  · intro qid newTail hloop
    cases hloop
  · intro qid newTail hl fileOk other tail hloop
    rw [hl] at hloop
    cases hloop
    simp only [processSq, processCommand, updateQueue_self]
    exact openflashExecute_depth_ne_zero (h _ _ hl) _ _ _

/-- One event keeps the indices inside exactly under the condition. -/
theorem step_inside_iff {m : Machine} (h : RingsInside m.device) (event : Event) :
    RingsInside (m.step event).device ↔ m.QsizeKeeps event := by
  cases event with
  | mmioWrite addr value =>
    rw [step, mmioWrite, QsizeKeeps]
    cases hl : m.loop with
    | some l => exact ⟨fun _ h0 => absurd h0 (Option.some_ne_none l), fun _ => h⟩
    | none =>
      dsimp only
      rw [openflashMmioWrite_inside_iff h]
      exact ⟨fun h _ => h, fun h => h rfl⟩
  | iterate fileOk =>
    refine ⟨fun _ => trivial, fun _ => ?_⟩
    rw [step, iterate]
    cases hl : m.loop with
    | none => exact h
    | some l =>
      dsimp only
      split_ifs
      · exact h
      · exact (processSq_inside h fileOk l.1 m.memory).2
  | guest memory => exact ⟨fun _ => trivial, fun _ => h⟩

theorem accessesInside {m : Machine} (h : RingsInside m.device) (hready : m.LoopReady)
    (event : Event) : m.AccessesInside event := by
  cases event with
  | mmioWrite addr value => trivial
  | iterate fileOk =>
    intro qid newTail hloop _
    have hdepth := hready qid newTail hloop
    have hfetch := (h qid).2 hdepth
    have hposting := (processSq_inside h fileOk qid m.memory).1
    have hslot := hposting.2 (openflashExecute_depth_ne_zero hdepth _ _ _)
    exact ⟨⟨hfetch.1, slot_inRing _ (h qid).1 hfetch.1⟩,
      ⟨hslot.2, slot_inRing _ hposting.1 hslot.2⟩⟩
  | guest memory => trivial

/-- From reset, every index is a slot of its ring in every state of a run exactly when each
write to the queue size register keeps the admin indices below the new depth. Then every
access of every submission loop lies in the rings. -/
theorem run_ringsInside_iff (s : OpenFlashState) (memory : Memory) (events : List Event) :
    ((∀ n, RingsInside ((start (openflashReset s) memory).run (events.take n)).device) ↔
      Along step QsizeKeeps (start (openflashReset s) memory) events) ∧
    (Along step QsizeKeeps (start (openflashReset s) memory) events →
      Along step AccessesInside (start (openflashReset s) memory) events) := by
  have hready : (start (openflashReset s) memory).LoopReady := nofun
  have hinside : RingsInside (start (openflashReset s) memory).device := openflashReset_inside s
  constructor
  · have hstep : ∀ (m : Machine) event, True → True → RingsInside m.device →
        (RingsInside (m.step event).device ↔ m.QsizeKeeps event) :=
      fun m event _ _ h => step_inside_iff h event
    exact forall_take_iff_along (fun _ _ _ _ => trivial) hstep trivial hinside
      (along_of_forall (fun _ _ => trivial) step _ events)
  · intro hkeeps
    have hstep : ∀ (m : Machine) event, RingsInside m.device ∧ m.LoopReady → m.QsizeKeeps event →
        RingsInside (m.step event).device ∧ (m.step event).LoopReady :=
      fun m event h hk => ⟨(step_inside_iff h.1 event).mpr hk, step_loopReady h.2 event⟩
    exact hkeeps.imp_of_invariant hstep (fun m event h _ => accessesInside h.1 h.2 event)
      ⟨hinside, hready⟩

/-- Three commands on an admin queue of four slots, which then becomes one of two. -/
def shrinkEvents : List Event :=
  [.mmioWrite 0x0020 0x1000, .mmioWrite 0x0028 0x2000, .mmioWrite 0x0030 4, .mmioWrite 0x0010 1,
    .mmioWrite 0x1000 3, .iterate true, .iterate true, .iterate true, .iterate true,
    .mmioWrite 0x0030 2, .mmioWrite 0x1000 0]

/-- The device fetches from 0x10c0 and posts to 0x20c0, past the end of both rings. -/
theorem shrunk_accesses_outside :
    let m := (start freshDevice (fun _ => 0)).run shrinkEvents
    let posting := (processSq true 0 m.memory m.device).queue
    m.loop = some (0, 0) ∧ (m.device.queues 0).sqHead = 3 ∧ (m.device.queues 0).depth = 2 ∧
      (m.device.queues 0).sqSlotAddr = 0x10c0 ∧ posting.cqTail = 3 ∧ posting.depth = 2 ∧
      posting.cqSlotAddr = 0x20c0 ∧ ¬ m.AccessesInside (.iterate true) := by
  have hinside : ∀ m : Machine, m.loop = some (0, 0) → (m.device.queues 0).sqHead = 3 →
      (m.device.queues 0).depth = 2 → ¬ m.AccessesInside (.iterate true) := by
    intro m hloop hhead hdepth h
    have hlt := (h 0 0 hloop (by rw [hhead]; decide)).1.1
    omega
  have hloop : ((start freshDevice (fun _ => 0)).run shrinkEvents).loop = some (0, 0) := by decide
  exact ⟨hloop, by decide, by decide, by decide, by decide, by decide, by decide,
    hinside _ hloop (by decide) (by decide)⟩

end Machine
end OpenFlash.Qemu
