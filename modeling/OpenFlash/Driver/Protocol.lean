import OpenFlash.Driver.RingInvariant

/-! The ring protocol from agreeing state: nothing is overwritten too early, the phase
test is exact, and every request is ended by the completion of its own command. -/
namespace OpenFlash.Driver
open Abi Support
namespace Transport
variable {d : ℕ} {t : Transport}

/-- Both sides before the first submission: indices at zero, phases at one, a zeroed
completion ring and no request. -/
structure Agrees (d : ℕ) (driver : OpenflashQueue) (device : Qemu.OpenFlashState) : Prop where
  depth_valid : 2 ≤ d ∧ d < 2 ^ 16
  driverDepth : driver.depth = d
  sqTail : driver.sqTail = 0
  cqHead : driver.cqHead = 0
  hostPhase : driver.cqPhase = 1
  zeroed : ∀ slot, slot < d → (driver.cqes slot).flags = 0
  free : ∀ tag, (driver.requests tag).rq = none
  ready : device.status &&& Qemu.statusReady ≠ 0
  enabled : (device.queues 1).enabled = true
  deviceDepth : (device.queues 1).depth = d
  sqHead : (device.queues 1).sqHead = 0
  cqTail : (device.queues 1).cqTail = 0
  devicePhase : (device.queues 1).cqPhase = 1

theorem createdDepth_eq (hd : d < 2 ^ 32) (sqDma cqDma : UInt64) :
    (Qemu.createdQueue (openflashCreateIoQueue d sqDma cqDma)).depth = d := by
  show (UInt32.ofNat d).toNat = d
  rw [UInt32.toNat_ofNat']
  exact Nat.mod_eq_of_lt hd

theorem createdQid_eq (d : ℕ) (sqDma cqDma : UInt64) :
    Qemu.createdQid (openflashCreateIoQueue d sqDma cqDma) = 1 := by
  show (createIoqControl 1 1 &&& 0xffff).toNat = 1
  decide

theorem openflashCreateIoQueue_accepted (hd : 2 ≤ d ∧ d ≤ Qemu.maxQueueDepth)
    {sqDma cqDma : UInt64} (hsq : sqDma ≠ 0) (hcq : cqDma ≠ 0) :
    Qemu.createIoqAccepted (openflashCreateIoQueue d sqDma cqDma) := by
  have hmax : Qemu.maxQueueDepth = 4096 := rfl
  have hdepth : (UInt32.ofNat d).toNat = d := createdDepth_eq (by omega) sqDma cqDma
  have hvector : Qemu.createdVector (openflashCreateIoQueue d sqDma cqDma) = 1 := by
    show (createIoqControl 1 1 >>> 16).toNat = 1
    decide
  refine ⟨?_, ?_, ?_, ?_, ?_, hsq, hcq⟩
  · rw [createdQid_eq]
    decide
  · rw [createdQid_eq]
    decide
  · rw [hvector]
    decide
  · intro hzero
    have hnat : (UInt32.ofNat d).toNat = 0 := congrArg UInt32.toNat hzero
    omega
  · exact hdepth.trans_le hd.2

theorem openflashExecute_createIoQueue {sqDma cqDma : UInt64}
    (h : Qemu.createIoqAccepted (openflashCreateIoQueue d sqDma cqDma)) (fileOk : Bool)
    (memory : Memory) (device : Qemu.OpenFlashState) :
    (Qemu.openflashExecute fileOk (openflashCreateIoQueue d sqDma cqDma) memory device).state
      = Qemu.updateQueue device 1 (Qemu.createdQueue (openflashCreateIoQueue d sqDma cqDma)) := by
  rcases Qemu.openflashExecute_control fileOk (openflashCreateIoQueue d sqDma cqDma) memory
    device with ⟨-, heq⟩ | ⟨hn, -⟩
  · rw [heq, createdQid_eq]
    rfl
  · exact absurd ⟨rfl, h⟩ hn

/-- A queue at its start and a device that has just created its own make an agreement. -/
theorem agrees_of_created (hd : 2 ≤ d ∧ d < 2 ^ 16) {driver : OpenflashQueue}
    (hdriver : driver.depth = d ∧ driver.sqTail = 0 ∧ driver.cqHead = 0 ∧ driver.cqPhase = 1)
    (hzeroed : ∀ slot, slot < d → (driver.cqes slot).flags = 0)
    (hfree : ∀ tag, (driver.requests tag).rq = none) {device : Qemu.OpenFlashState}
    (hready : device.status &&& Qemu.statusReady ≠ 0) (sqDma cqDma : UInt64) :
    Agrees d driver
      (Qemu.updateQueue device 1 (Qemu.createdQueue (openflashCreateIoQueue d sqDma cqDma))) := by
  have hqueue := Qemu.updateQueue_self device 1
    (Qemu.createdQueue (openflashCreateIoQueue d sqDma cqDma))
  constructor
  · exact hd
  · exact hdriver.1
  · exact hdriver.2.1
  · exact hdriver.2.2.1
  · exact hdriver.2.2.2
  · exact hzeroed
  · exact hfree
  · exact hready
  · rw [hqueue]
    rfl
  · rw [hqueue]
    exact createdDepth_eq (by omega) sqDma cqDma
  · rw [hqueue]
    rfl
  · rw [hqueue]
    rfl
  · rw [hqueue]
    rfl

/-- The driver's own setup brings a ready device into agreement. -/
theorem openflashCreateIoQueue_agrees (hd : 2 ≤ d ∧ d ≤ Qemu.maxQueueDepth)
    {sqDma cqDma : UInt64} (hsq : sqDma ≠ 0) (hcq : cqDma ≠ 0) (sglDma : ℕ → UInt64)
    {device : Qemu.OpenFlashState} (hready : device.status &&& Qemu.statusReady ≠ 0)
    (fileOk : Bool) (memory : Memory) :
    Agrees d (openflashSetupIoQueue d sglDma)
      (Qemu.openflashExecute fileOk (openflashCreateIoQueue d sqDma cqDma) memory
        device).state := by
  have hlt : d < 2 ^ 16 := Nat.lt_of_le_of_lt hd.2 (by decide)
  rw [openflashExecute_createIoQueue (openflashCreateIoQueue_accepted hd hsq hcq)]
  exact agrees_of_created ⟨hd.1, hlt⟩ ⟨rfl, rfl, rfl, rfl⟩ (fun _ _ => rfl) (fun _ => rfl) hready
    sqDma cqDma

theorem start_inv {driver : OpenflashQueue} {device : Qemu.OpenFlashState}
    (h : Agrees d driver device) (capabilities : UInt64) :
    (start capabilities driver device).Inv d := by
  constructor
  · exact h.depth_valid
  · constructor <;> simp [start, h.driverDepth, h.sqTail, h.cqHead, h.hostPhase, h.deviceDepth,
      h.sqHead, h.cqTail, h.devicePhase]
  · constructor <;> simp [start, h.ready, h.enabled]
  · constructor <;> simp [start, unended, h.free]
  · constructor
    · intro n a _ ha
      cases ha
    · intro n x _ hx
      cases hx
    · exact fun slot _ hslot => h.zeroed slot hslot
  · constructor <;> simp [start]

/-- The ring protocol between driver and device. -/
structure ProtocolSafe (t : Transport) : Prop where
  /-- A command the device has not fetched is in its slot, and no submission writes there. -/
  unfetched : ∀ (n : ℕ) a, t.executed.length ≤ n → t.accepted[n]? = some a →
    t.driver.sqCmds (n % t.driver.depth) = a.2 ∧ n % t.driver.depth ≠ t.driver.sqTail ∧
      ∀ rq, (t.step (.submit rq)).driver.sqCmds (n % t.driver.depth) = a.2
  /-- An entry the driver has not drained is in its slot, and no iteration writes there. -/
  undrained : ∀ (n : ℕ) x, t.advanced ≤ n → t.executed[n]? = some x →
    t.driver.cqes (n % t.driver.depth) = x.completion ∧
      (∀ tail, t.loop = some tail → (t.device.queues 1).sqHead ≠ tail →
        n % t.driver.depth ≠ (t.device.queues 1).cqTail) ∧
      ∀ fileOk memory,
        (t.step (.iterate fileOk memory)).driver.cqes (n % t.driver.depth) = x.completion
  phase_test : phaseMatches t.driver ↔ t.advanced < t.executed.length
  /-- The entry of a command carries its identifier and its status. -/
  executed : ∀ (n : ℕ) x, t.executed[n]? = some x → ∃ a, t.accepted[n]? = some a ∧
    x.command = a.2 ∧ x.completion.cid = a.2.cid ∧ x.completion.status = .ofNat x.status.code
  /-- The interrupt ends request `n` by entry `n`, with the status of command `n`. -/
  ended : ∀ (n : ℕ) e, t.drained[n]? = some e → ∃ a x, t.accepted[n]? = some a ∧
    t.executed[n]? = some x ∧ e.cqe = x.completion ∧
      e.ended = some (a.1, openflashBlkStatus (.ofNat x.status.code))
  /-- The requests ended so far are the first accepted ones, once each. -/
  ended_once : t.drained.map (fun e => e.ended.map Prod.fst)
    = (t.accepted.take t.drained.length).map fun a => some a.1
  unended_tags : (t.unended.map Request.tag).Nodup
  caught_up : t.advanced = t.executed.length → t.drained.length = t.executed.length

theorem step_submit_commands (h : t.Inv d) (rq : Request) {n : ℕ}
    {a : Request × OpenFlashCommand} (hlo : t.executed.length ≤ n) (ha : t.accepted[n]? = some a) :
    (t.step (.submit rq)).driver.sqCmds (n % d) = a.2 := by
  refine (step_inv h (.submit rq)).rings.commands n a ?_ ?_ <;> unfold step <;> split_ifs
  · exact hlo
  · exact hlo
  · have hn := (List.getElem?_eq_some_iff.mp ha).1
    exact (List.getElem?_append_left hn).trans ha
  · exact ha

theorem step_iterate_completions (h : t.Inv d) (fileOk : Bool) (memory : Memory) {n : ℕ}
    {x : Executed} (hlo : t.advanced ≤ n) (hx : t.executed[n]? = some x) :
    (t.step (.iterate fileOk memory)).driver.cqes (n % d) = x.completion := by
  have hn := (List.getElem?_eq_some_iff.mp hx).1
  have hstep : t.step (.iterate fileOk memory) = t.iterate fileOk memory := if_pos trivial
  have hkeep : (t.iterate fileOk memory).advanced = t.advanced ∧
      (t.iterate fileOk memory).executed[n]? = some x := by
    unfold iterate
    cases t.loop with
    | none => exact ⟨rfl, hx⟩
    | some tail =>
      dsimp only
      split_ifs
      · exact ⟨rfl, hx⟩
      · exact ⟨rfl, (List.getElem?_append_left hn).trans hx⟩
  rw [hstep]
  refine (iterate_inv h fileOk memory).undrained n x ?_ hkeep.2
  rw [hkeep.1]
  exact hlo

theorem ended_once_of_logs (h : t.Logs d) :
    t.drained.map (fun e => e.ended.map Prod.fst)
      = (t.accepted.take t.drained.length).map fun a => some a.1 := by
  apply List.ext_getElem?
  intro n
  rw [List.getElem?_map, List.getElem?_map]
  cases he : t.drained[n]? with
  | none =>
    have hn := List.getElem?_eq_none_iff.mp he
    rw [List.getElem?_take, if_neg (by omega)]
    rfl
  | some e =>
    obtain ⟨a, x, ha, -, -, hended⟩ := h.drained n e he
    rw [List.getElem?_take_of_lt (List.getElem?_eq_some_iff.mp he).1, ha]
    simp only [Option.map_some, hended]

theorem protocolSafe_of_inv (h : t.Inv d) : t.ProtocolSafe where
  unfetched := by
    intro n a hlo ha
    have hn := (List.getElem?_eq_some_iff.mp ha).1
    rw [h.counts.driverDepth]
    exact ⟨h.rings.commands n a hlo ha, h.unfetched_ne hlo hn,
      fun rq => step_submit_commands h rq hlo ha⟩
  undrained := by
    intro n x hlo hx
    have hn := (List.getElem?_eq_some_iff.mp hx).1
    rw [h.counts.driverDepth]
    refine ⟨h.undrained n x hlo hx, fun tail hloop hgoes => ?_,
      fun fileOk memory => step_iterate_completions h fileOk memory hlo hx⟩
    have hpending := h.fetches hloop hgoes
    exact h.undrained_ne (by omega) hlo hn
  phase_test := h.phaseMatches_iff
  executed := by
    intro n x hx
    obtain ⟨a, ha, hcommand, hcid, hstatus, -⟩ := h.logs.executed n x hx
    exact ⟨a, ha, hcommand, hcid, hstatus⟩
  ended := h.logs.drained
  ended_once := ended_once_of_logs h.logs
  unended_tags := h.tags.nodup
  caught_up := by
    intro hcaught
    have hdrained := h.counts.drained_bounds
    have hdle := h.counts.drained_le
    omega

/-- In every interleaving of submissions, device iterations and drain iterations from
agreeing state, on rings of any depth. -/
theorem ringProtocol_safe (d : ℕ) (driver : OpenflashQueue) (device : Qemu.OpenFlashState)
    (hagrees : Agrees d driver device) (capabilities : UInt64) (actions : List Action) :
    ((start capabilities driver device).run actions).ProtocolSafe :=
  protocolSafe_of_inv (run_inv (start_inv hagrees capabilities) actions)

/-- One flush, submitted, executed and drained. -/
def flushRound : List Action :=
  [.submit { tag := 0, op := .flush }, .enterLoop, .iterate true (fun _ => 0),
    .iterate true (fun _ => 0), .endRequest, .advanceHead]

def readyDevice : Qemu.OpenFlashState :=
  { Qemu.realizedOn 4096 none none (fun _ => 0) Qemu.ofBlockSize_valid with status := 1 }

def createdDevice : Qemu.OpenFlashState :=
  (Qemu.openflashExecute true (openflashCreateIoQueue 2 0x3000 0x4000) (fun _ => 0)
    readyDevice).state

/-- Three rounds wrap a ring of two slots. -/
theorem flushRounds_safe :
    ((start 0 (openflashSetupIoQueue 2 fun _ => 0x1000) createdDevice).run
      (flushRound ++ flushRound ++ flushRound)).drained.length = 3 ∧
    ((start 0 (openflashSetupIoQueue 2 fun _ => 0x1000) createdDevice).run
      (flushRound ++ flushRound ++ flushRound)).ProtocolSafe :=
  ⟨by decide, ringProtocol_safe 2 _ createdDevice
    (openflashCreateIoQueue_agrees (by decide) (by decide) (by decide) _ (by decide) true _) 0 _⟩

end Transport
end OpenFlash.Driver
