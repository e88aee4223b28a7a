import OpenFlash.Driver.Transport
import OpenFlash.Support.Ring
import Mathlib.Data.List.Nodup
import Mathlib.Data.List.Perm.Subperm

/-! What driver and device keep true of their shared rings. Request, command and
completion of one submission carry the same sequence number; the tags bound how far the
two ends can drift apart. -/
namespace OpenFlash.Driver
open Abi Support Support.Ring
namespace Transport

/-- Accepted requests that no completion has ended. -/
def unended (t : Transport) : List Request := (t.accepted.drop t.drained.length).map Prod.fst

/-- The positions of both sides, from the lengths of the logs. -/
structure Counts (d : ℕ) (t : Transport) : Prop where
  driverDepth : t.driver.depth = d
  sqTail : t.driver.sqTail = t.accepted.length % d
  cqHead : t.driver.cqHead = t.advanced % d
  hostPhase : t.driver.cqPhase = phase d t.advanced
  deviceDepth : (t.device.queues 1).depth = d
  sqHead : (t.device.queues 1).sqHead = t.executed.length % d
  cqTail : (t.device.queues 1).cqTail = t.executed.length % d
  devicePhase : (t.device.queues 1).cqPhase = phase d t.executed.length
  drained_eq : t.drained.length = t.advanced + if t.draining then 1 else 0
  drained_le : t.drained.length ≤ t.executed.length
  executed_le : t.executed.length ≤ t.accepted.length

/-- The loop and the pending doorbells run through the tails in order of submission. -/
structure Doorbells (d : ℕ) (t : Transport) : Prop where
  ready : t.device.status &&& Qemu.statusReady ≠ 0
  enabled : (t.device.queues 1).enabled = true
  pending : t.executed.length + t.doorbells.length ≤ t.accepted.length
  idle : t.loop = none → t.executed.length + t.doorbells.length = t.accepted.length
  loop : ∀ tail, t.loop = some tail → tail = (t.accepted.length - t.doorbells.length) % d
  tails : ∀ (i : ℕ) tail, t.doorbells[i]? = some tail →
    tail = (t.accepted.length - t.doorbells.length + 1 + i) % d

/-- The driver's request table is the set of requests that are not ended. -/
structure Tags (d : ℕ) (t : Transport) : Prop where
  tag_lt : ∀ rq ∈ t.unended, rq.tag + 2 ≤ d
  nodup : (t.unended.map Request.tag).Nodup
  owners : ∀ tag rq, (t.driver.requests tag).rq = some rq ↔ rq ∈ t.unended ∧ rq.tag = tag

/-- The submission ring has every command not yet fetched, the completion ring the last lap
of entries and zeros before the first lap is over. -/
structure Rings (d : ℕ) (t : Transport) : Prop where
  commands : Stored d t.executed.length t.accepted Prod.snd t.driver.sqCmds
  completions : Stored d (t.executed.length - d) t.executed Executed.completion t.driver.cqes
  zeroed : ∀ slot, t.executed.length ≤ slot → slot < d → (t.driver.cqes slot).flags = 0

/-- Command `n` is that of request `n`, entry `n` that of command `n`, and the interrupt
ended request `n` by entry `n`. -/
structure Logs (d : ℕ) (t : Transport) : Prop where
  accepted : ∀ a ∈ t.accepted,
    a.2.cid = .ofNat (a.1.tag + 1) ∧ a.2.opcode ≠ Qemu.adminCreateIoq
  executed : ∀ (n : ℕ) x, t.executed[n]? = some x → ∃ a, t.accepted[n]? = some a ∧
    x.command = a.2 ∧ x.completion.cid = a.2.cid ∧
      x.completion.status = .ofNat x.status.code ∧ x.completion.flags = .ofNat (phase d n)
  drained : ∀ (n : ℕ) e, t.drained[n]? = some e → ∃ a x, t.accepted[n]? = some a ∧
    t.executed[n]? = some x ∧ e.cqe = x.completion ∧
      e.ended = some (a.1, openflashBlkStatus (.ofNat x.status.code))

structure Inv (d : ℕ) (t : Transport) : Prop where
  depth_valid : 2 ≤ d ∧ d < 2 ^ 16
  counts : t.Counts d
  doorbells : t.Doorbells d
  tags : t.Tags d
  rings : t.Rings d
  logs : t.Logs d

variable {d : ℕ} {t : Transport}

/-- Distinct tags below `d - 1` leave one slot of the ring free. -/
theorem Inv.in_flight (h : t.Inv d) : t.accepted.length < t.drained.length + d := by
  have hsub : t.unended.map Request.tag ⊆ List.range (d - 1) := by
    intro tag htag
    obtain ⟨rq, hrq, rfl⟩ := List.mem_map.mp htag
    have := h.tags.tag_lt rq hrq
    exact List.mem_range.mpr (by omega)
  have hlen := (List.subperm_of_subset h.tags.nodup hsub).length_le
  have hd := h.depth_valid.1
  rw [List.length_map, unended, List.length_map, List.length_drop, List.length_range] at hlen
  omega

/-- The completion head is at most one request behind the ended ones. -/
theorem Counts.drained_bounds (h : t.Counts d) :
    t.advanced ≤ t.drained.length ∧ t.drained.length ≤ t.advanced + 1 := by
  have := h.drained_eq
  split_ifs at this <;> omega

theorem Counts.drained_idle (h : t.Counts d) (hidle : t.draining = false) :
    t.drained.length = t.advanced := by
  rw [h.drained_eq, hidle]
  rfl

theorem Inv.unfetched_ne (h : t.Inv d) {n : ℕ} (hlo : t.executed.length ≤ n)
    (hhi : n < t.accepted.length) : n % d ≠ t.driver.sqTail := by
  rw [h.counts.sqTail]
  have hflight := h.in_flight
  have hdrained := h.counts.drained_le
  exact slot_ne_of_lt hlo hhi (by omega)

theorem Inv.undrained_ne (h : t.Inv d) (hpending : t.executed.length < t.accepted.length) {n : ℕ}
    (hlo : t.advanced ≤ n) (hhi : n < t.executed.length) :
    n % d ≠ (t.device.queues 1).cqTail := by
  rw [h.counts.cqTail]
  have hflight := h.in_flight
  have hdrained := h.counts.drained_bounds
  exact slot_ne_of_lt hlo hhi (by omega)

theorem Inv.undrained (h : t.Inv d) :
    Stored d t.advanced t.executed Executed.completion t.driver.cqes := by
  have hflight := h.in_flight
  have hdrained := h.counts.drained_bounds
  have hle := h.counts.executed_le
  exact h.rings.completions.mono (by omega)

theorem phase_flag (d n : ℕ) : (UInt16.ofNat (phase d n)).toNat &&& 1 = phase d n := by
  unfold phase
  split_ifs <;> rfl

theorem Inv.phaseMatches_iff (h : t.Inv d) :
    phaseMatches t.driver ↔ t.advanced < t.executed.length := by
  have hflight := h.in_flight
  have hdrained := h.counts.drained_bounds
  have hdle := h.counts.drained_le
  have hle := h.counts.executed_le
  have hd : 0 < d := Nat.lt_of_lt_of_le (by decide) h.depth_valid.1
  have hring : ∀ n, t.executed.length - d ≤ n → n < t.executed.length →
      (fun slot => (t.driver.cqes slot).flags.toNat &&& 1) (n % d) = phase d n := by
    intro n hlo hhi
    obtain ⟨a, -, -, -, -, hflags⟩ := h.logs.executed n _ (List.getElem?_eq_getElem hhi)
    dsimp only
    rw [h.rings.completions.get hlo hhi, hflags, phase_flag]
  have hzero : ∀ slot, t.executed.length ≤ slot → slot < d →
      (fun slot => (t.driver.cqes slot).flags.toNat &&& 1) slot = 0 := by
    intro slot hlo hhi
    dsimp only
    rw [h.rings.zeroed slot hlo hhi]
    rfl
  have hbehind : t.advanced ≤ t.executed.length := by omega
  have htest := phase_test hd hring hzero hbehind (by omega)
  unfold phaseMatches
  rw [h.counts.cqHead, h.counts.hostPhase]
  exact htest

theorem reject_inv (h : t.Inv d) {q : OpenflashQueue} (hr : Rejects t.driver q) :
    Inv d { t with driver := q } := by
  constructor
  · exact h.depth_valid
  · exact { h.counts with
      driverDepth := hr.depth.trans h.counts.driverDepth
      sqTail := hr.sqTail.trans h.counts.sqTail
      cqHead := hr.cqHead.trans h.counts.cqHead
      hostPhase := hr.cqPhase.trans h.counts.hostPhase }
  · exact { h.doorbells with }
  · refine { h.tags with owners := fun tag rq => ?_ }
    rw [hr.owners]
    exact h.tags.owners tag rq
  · constructor
    · intro n a hlo ha
      have hn := (List.getElem?_eq_some_iff.mp ha).1
      rw [hr.slots _ (h.unfetched_ne hlo hn)]
      exact h.rings.commands n a hlo ha
    · rw [hr.cqes]
      exact h.rings.completions
    · rw [hr.cqes]
      exact h.rings.zeroed
  · exact { h.logs with }

/-- The state after an accepted call. -/
def submitted (t : Transport) (rq : Request) (cmd : OpenFlashCommand) (q : OpenflashQueue) :
    Transport :=
  { t with
    driver := q
    doorbells := t.doorbells ++ [q.sqTail]
    accepted := t.accepted ++ [(rq, cmd)] }

theorem submitted_unended (h : t.Counts d) (rq : Request) (cmd : OpenFlashCommand)
    (q : OpenflashQueue) : (t.submitted rq cmd q).unended = t.unended ++ [rq] := by
  have hle : t.drained.length ≤ t.accepted.length := h.drained_le.trans h.executed_le
  simp only [unended, submitted, List.drop_append_of_le_length hle, List.map_append,
    List.map_singleton]

theorem submitted_tags (h : t.Inv d) {rq : Request} {cmd : OpenFlashCommand} {q : OpenflashQueue}
    (ha : Accepts rq cmd t.driver q) (htag : rq.tag + 2 ≤ d) : (t.submitted rq cmd q).Tags d := by
  have hfree : ∀ other ∈ t.unended, other.tag ≠ rq.tag := by
    intro other hother heq
    have howner := (h.tags.owners rq.tag other).mpr ⟨hother, heq⟩
    rw [ha.free] at howner
    cases howner
  constructor
  · intro other hother
    rw [submitted_unended h.counts, List.mem_append, List.mem_singleton] at hother
    rcases hother with hother | rfl
    · exact h.tags.tag_lt other hother
    · exact htag
  · rw [submitted_unended h.counts, List.map_append, List.map_singleton]
    refine List.nodup_append.mpr ⟨h.tags.nodup, List.nodup_singleton _, ?_⟩
    intro tag hmem tag' hmem'
    obtain ⟨other, hother, rfl⟩ := List.mem_map.mp hmem
    rw [List.mem_singleton.mp hmem']
    exact hfree other hother
  · intro tag other
    rw [submitted_unended h.counts, List.mem_append, List.mem_singleton]
    apply (congrArg (· = some other) (ha.owners tag)).to_iff.trans
    by_cases htaken : tag = rq.tag
    · rw [if_pos htaken, Option.some.injEq]
      constructor
      · rintro rfl
        exact ⟨Or.inr rfl, htaken.symm⟩
      · rintro ⟨hmem | rfl, hsame⟩
        · exact absurd (hsame.trans htaken) (hfree other hmem)
        · rfl
    · rw [if_neg htaken, h.tags.owners]
      constructor
      · rintro ⟨hmem, hsame⟩
        exact ⟨Or.inl hmem, hsame⟩
      · rintro ⟨hmem | rfl, hsame⟩
        · exact ⟨hmem, hsame⟩
        · exact absurd hsame.symm htaken

theorem submitted_doorbells (h : t.Inv d) (rq : Request) (cmd : OpenFlashCommand)
    {q : OpenflashQueue} (htail : q.sqTail = (t.accepted.length + 1) % d) :
    (t.submitted rq cmd q).Doorbells d := by
  have hpending := h.doorbells.pending
  refine { h.doorbells with pending := ?_, idle := ?_, loop := ?_, tails := ?_ } <;>
    simp only [submitted, List.length_append, List.length_singleton, Nat.add_sub_add_right]
  · omega
  · intro hidle
    have := h.doorbells.idle hidle
    omega
  · exact h.doorbells.loop
  · intro i tail hi
    rcases getElem?_append_singleton hi with hi | ⟨rfl, rfl⟩
    · exact h.doorbells.tails i tail hi
    · rw [htail]
      congr 1
      omega

/-- Entries of the logs stay where they are when a request is accepted. -/
theorem submitted_accepted {n : ℕ} {a : Request × OpenFlashCommand} (rq : Request)
    (cmd : OpenFlashCommand) (q : OpenflashQueue) (h : t.accepted[n]? = some a) :
    (t.submitted rq cmd q).accepted[n]? = some a := by
  have hn := (List.getElem?_eq_some_iff.mp h).1
  exact (List.getElem?_append_left hn).trans h

theorem submitted_inv (h : t.Inv d) {rq : Request} {cmd : OpenFlashCommand} {q : OpenflashQueue}
    (ha : Accepts rq cmd t.driver q) (htag : rq.tag + 2 ≤ d)
    (hcid : cmd.cid = .ofNat (rq.tag + 1)) (hop : cmd.opcode ≠ Qemu.adminCreateIoq) :
    (t.submitted rq cmd q).Inv d := by
  have hle := h.counts.executed_le
  have hdle := h.counts.drained_le
  have hflight := h.in_flight
  have htail : q.sqTail = (t.accepted.length + 1) % d := by
    rw [ha.sqTail, h.counts.sqTail, h.counts.driverDepth, succ_mod]
  have hlen : (t.accepted ++ [(rq, cmd)]).length = t.accepted.length + 1 := by simp
  constructor
  · exact h.depth_valid
  · refine { h.counts with
      driverDepth := ha.depth.trans h.counts.driverDepth
      sqTail := ?_
      cqHead := ha.cqHead.trans h.counts.cqHead
      hostPhase := ha.cqPhase.trans h.counts.hostPhase
      executed_le := ?_ } <;> simp only [submitted, hlen]
    · exact htail
    · omega
  · exact submitted_doorbells h rq cmd htail
  · exact submitted_tags h ha htag
  · constructor <;> simp only [submitted]
    · rw [ha.sqCmds, h.counts.sqTail]
      exact h.rings.commands.push (by omega) (rq, cmd)
    · rw [ha.cqes]
      exact h.rings.completions
    · rw [ha.cqes]
      exact h.rings.zeroed
  · constructor
    · intro a hmem
      rcases List.mem_append.mp hmem with hmem | hmem
      · exact h.logs.accepted a hmem
      · rw [List.mem_singleton.mp hmem]
        exact ⟨hcid, hop⟩
    · intro n x hx
      obtain ⟨a, hacc, hrest⟩ := h.logs.executed n x hx
      exact ⟨a, submitted_accepted rq cmd q hacc, hrest⟩
    · intro n e he
      obtain ⟨a, x, hacc, hrest⟩ := h.logs.drained n e he
      exact ⟨a, x, submitted_accepted rq cmd q hacc, hrest⟩

theorem opcodeOf_ne_create (op : ReqOp) : opcodeOf op ≠ Qemu.adminCreateIoq := by
  cases op <;> decide

theorem submit_inv (h : t.Inv d) {rq : Request} (htag : rq.tag + 2 ≤ t.driver.depth) :
    (t.submit rq).Inv d := by
  rw [h.counts.driverDepth] at htag
  unfold submit
  rcases openflashQueueRq_submits t.capabilities rq t.driver with ⟨hs, hb, hr⟩ | ⟨hs, hb, ha⟩
  · simp only [hs, hb, Option.toList_none, List.append_nil, if_false]
    exact reject_inv h hr
  · simp only [hs, hb, Option.toList_some, if_true, ha.sqCmds, Function.update_self]
    apply submitted_inv h ha htag (fillCommand_cid ..)
    rw [fillCommand_opcode]
    exact opcodeOf_ne_create rq.op

/-- Doorbells and loop are the concern of one part of the invariant only. -/
theorem Inv.of_doorbells (h : t.Inv d) {doorbells : List ℕ} {loop : Option ℕ}
    (hb : Doorbells d { t with doorbells := doorbells, loop := loop }) :
    Inv d { t with doorbells := doorbells, loop := loop } :=
  ⟨h.depth_valid, { h.counts with }, hb, { h.tags with }, { h.rings with }, { h.logs with }⟩

theorem enterLoop_inv (h : t.Inv d) (hidle : t.loop = none) : t.enterLoop.Inv d := by
  have hd := h.depth_valid.1
  have hcount := h.doorbells.idle hidle
  unfold enterLoop
  cases hb : t.doorbells with
  | nil => exact h
  | cons tail rest =>
    have hlen : t.doorbells.length = rest.length + 1 := by
      rw [hb]
      rfl
    have htail : tail = (t.accepted.length - rest.length) % d := by
      rw [h.doorbells.tails 0 tail (by rw [hb]; rfl)]
      congr 1
      omega
    have haccepted : Qemu.doorbellAccepted t.device 1 tail := by
      refine ⟨h.doorbells.ready, h.doorbells.enabled, ?_, ?_⟩
      · rw [h.counts.deviceDepth]
        omega
      · rw [h.counts.deviceDepth, htail]
        exact Nat.mod_lt _ (by omega)
    simp only [haccepted, if_true]
    apply h.of_doorbells
    refine { h.doorbells with pending := ?_, idle := nofun, loop := ?_, tails := ?_ } <;>
      dsimp only
    · omega
    · intro other hother
      rw [← Option.some.inj hother]
      exact htail
    · intro i other hi
      rw [h.doorbells.tails (i + 1) other (by rw [hb]; exact hi)]
      congr 1
      omega

/-- A loop that meets its tail has executed everything up to it. -/
theorem leaveLoop_inv (h : t.Inv d) {tail : ℕ} (hloop : t.loop = some tail)
    (hmeets : (t.device.queues 1).sqHead = tail) : Inv d { t with loop := none } := by
  have hpending := h.doorbells.pending
  have hflight := h.in_flight
  have hdle := h.counts.drained_le
  apply h.of_doorbells
  refine { h.doorbells with idle := fun _ => ?_, loop := nofun }
  dsimp only
  rw [h.counts.sqHead, h.doorbells.loop tail hloop] at hmeets
  by_contra hne
  have hlt : t.executed.length < t.accepted.length - t.doorbells.length := by omega
  exact slot_ne_of_lt le_rfl hlt (by omega) hmeets

/-- A loop that has not met its tail has a command to fetch. -/
theorem Inv.fetches (h : t.Inv d) {tail : ℕ} (hloop : t.loop = some tail)
    (hgoes : (t.device.queues 1).sqHead ≠ tail) :
    t.executed.length + t.doorbells.length < t.accepted.length := by
  have hpending := h.doorbells.pending
  refine lt_of_le_of_ne hpending fun heq => hgoes ?_
  rw [h.counts.sqHead, h.doorbells.loop tail hloop]
  congr 1
  omega

/-- The transport once the device has answered its next command by `x`. -/
def answered (t : Transport) (d : ℕ) (device : Qemu.OpenFlashState) (x : Executed) : Transport :=
  { t with
    device := device
    driver := { t.driver with
      cqes := Function.update t.driver.cqes (t.executed.length % d) x.completion }
    executed := t.executed ++ [x] }

/-- What an iteration does: it takes the oldest command not yet fetched and posts its
completion in the next slot. -/
theorem Inv.process_eq (h : t.Inv d) (hlt : t.executed.length < t.accepted.length) (fileOk : Bool)
    (memory : Memory) :
    ∃ a x device, t.accepted[t.executed.length]? = some a ∧
      x.command = a.2 ∧ x.completion.cid = a.2.cid ∧ x.completion.status = .ofNat x.status.code ∧
      x.completion.flags = .ofNat (phase d t.executed.length) ∧
      device.queues 1 = (t.device.queues 1).fetched.posted ∧ device.status = t.device.status ∧
      t.process fileOk memory = t.answered d device x := by
  have hget := List.getElem?_eq_getElem hlt
  have hcmd : t.driver.sqCmds (t.device.queues 1).sqHead = t.accepted[t.executed.length].2 := by
    rw [h.counts.sqHead]
    exact h.rings.commands.get le_rfl hlt
  have hop := (h.logs.accepted _ (List.getElem_mem hlt)).2
  obtain ⟨hqueue, hdevice, hstatus⟩ := Qemu.processCommand_queue hop fileOk 1 memory t.device
  have hslot : (Qemu.processCommand fileOk 1 t.accepted[t.executed.length].2 memory
      t.device).queue.cqTail = t.executed.length % d := by
    rw [hqueue]
    exact h.counts.cqTail
  have hflags : (Qemu.processCommand fileOk 1 t.accepted[t.executed.length].2 memory
      t.device).completion.flags = .ofNat (phase d t.executed.length) := by
    rw [← h.counts.devicePhase]
    show UInt16.ofNat (Qemu.processCommand fileOk 1 t.accepted[t.executed.length].2 memory
      t.device).queue.cqPhase = _
    rw [hqueue]
    rfl
  refine ⟨_, ⟨_, _, _⟩, _, hget, rfl, rfl, rfl, hflags, hdevice, hstatus, ?_⟩
  simp only [process, answered, hcmd, hslot]

theorem answered_length (t : Transport) (d : ℕ) (device : Qemu.OpenFlashState) (x : Executed) :
    (t.answered d device x).executed.length = t.executed.length + 1 := by
  simp [answered]

theorem Inv.answered_counts (h : t.Inv d) (hlt : t.executed.length < t.accepted.length)
    {device : Qemu.OpenFlashState} (hqueue : device.queues 1 = (t.device.queues 1).fetched.posted)
    (x : Executed) : (t.answered d device x).Counts d := by
  have hd := h.depth_valid
  have hdrained := h.counts.drained_le
  have hadvance : ∀ n, (t.device.queues 1).advance (n % d) = (n + 1) % d := by
    intro n
    have hdepth := h.counts.deviceDepth
    rw [Qemu.advance_of_lt (by omega) (by omega), hdepth, succ_mod]
  have hdevice : (t.answered d device x).device.queues 1 = (t.device.queues 1).fetched.posted :=
    hqueue
  refine { h.counts with
    deviceDepth := ?_
    sqHead := ?_
    cqTail := ?_
    devicePhase := ?_
    drained_le := ?_
    executed_le := ?_ } <;> simp only [answered_length, hdevice]
  · exact h.counts.deviceDepth
  · rw [← hadvance, ← h.counts.sqHead]
    rfl
  · rw [← hadvance, ← h.counts.cqTail]
    rfl
  · rw [phase_succ, ← hadvance, ← h.counts.cqTail, ← h.counts.devicePhase]
    rfl
  · exact hdrained.trans (Nat.le_succ _)
  · exact hlt

theorem Inv.answered_rings (h : t.Inv d) (device : Qemu.OpenFlashState) (x : Executed) :
    (t.answered d device x).Rings d := by
  have hd := h.depth_valid
  constructor <;> simp only [answered_length]
  · exact h.rings.commands.mono (Nat.le_succ _)
  · have hlap : t.executed.length - d ≤ t.executed.length + 1 - d := by omega
    exact (h.rings.completions.mono hlap).push (by omega) x
  · intro slot hlo hhi
    have hne : slot ≠ t.executed.length % d := by
      rw [Nat.mod_eq_of_lt (by omega)]
      omega
    show (Function.update t.driver.cqes (t.executed.length % d) x.completion slot).flags = 0
    rw [Function.update_of_ne hne]
    exact h.rings.zeroed slot (by omega) hhi

/-- The new entry of the log answers the command that it stands beside. -/
theorem Logs.answered (h : t.Logs d) {a : Request × OpenFlashCommand} {x : Executed}
    (ha : t.accepted[t.executed.length]? = some a) (hcommand : x.command = a.2)
    (hcid : x.completion.cid = a.2.cid) (hstatus : x.completion.status = .ofNat x.status.code)
    (hflags : x.completion.flags = .ofNat (phase d t.executed.length))
    (device : Qemu.OpenFlashState) : (t.answered d device x).Logs d := by
  refine { h with executed := ?_, drained := ?_ }
  · intro n y hy
    rcases getElem?_append_singleton hy with hy | ⟨rfl, rfl⟩
    · exact h.executed n y hy
    · exact ⟨a, ha, hcommand, hcid, hstatus, hflags⟩
  · intro n e he
    obtain ⟨b, y, hb, hy, hrest⟩ := h.drained n e he
    have hn := (List.getElem?_eq_some_iff.mp hy).1
    exact ⟨b, y, hb, (List.getElem?_append_left hn).trans hy, hrest⟩

theorem process_inv (h : t.Inv d) {tail : ℕ} (hloop : t.loop = some tail)
    (hgoes : (t.device.queues 1).sqHead ≠ tail) (fileOk : Bool) (memory : Memory) :
    (t.process fileOk memory).Inv d := by
  have hpending := h.fetches hloop hgoes
  have hlt : t.executed.length < t.accepted.length := by omega
  obtain ⟨a, x, device, ha, hcommand, hcid, hstatus, hflags, hqueue, hready, heq⟩ :=
    h.process_eq hlt fileOk memory
  rw [heq]
  have hdoorbells : (t.answered d device x).Doorbells d := by
    refine { h.doorbells with ready := ?_, enabled := ?_, pending := ?_, idle := ?_ }
    · show device.status &&& Qemu.statusReady ≠ 0
      rw [hready]
      exact h.doorbells.ready
    · show (device.queues 1).enabled = true
      rw [hqueue]
      exact h.doorbells.enabled
    · rw [answered_length]
      show t.executed.length + 1 + t.doorbells.length ≤ t.accepted.length
      omega
    · intro hidle
      cases hloop.symm.trans hidle
  exact ⟨h.depth_valid, h.answered_counts hlt hqueue x, hdoorbells, { h.tags with },
    h.answered_rings device x, h.logs.answered ha hcommand hcid hstatus hflags device⟩

theorem iterate_inv (h : t.Inv d) (fileOk : Bool) (memory : Memory) :
    (t.iterate fileOk memory).Inv d := by
  unfold iterate
  cases hloop : t.loop with
  | none => exact h
  | some tail =>
    dsimp only
    split_ifs with hmeets
    · exact leaveLoop_inv h hloop hmeets
    · exact process_inv h hloop hmeets fileOk memory

/-- The entry at the completion head ends the oldest request that is not ended. -/
theorem Inv.endRequest_eq (h : t.Inv d) (hidle : t.draining = false)
    (hmatch : phaseMatches t.driver) :
    ∃ a x dma, t.accepted[t.drained.length]? = some a ∧
      t.executed[t.drained.length]? = some x ∧
      t.driver.cqes t.driver.cqHead = x.completion ∧
      endRequest t.driver =
        (t.driver.setRequest a.1.tag
          { t.driver.requests a.1.tag with rq := none, nrMapped := 0 },
          some (a.1, openflashBlkStatus (.ofNat x.status.code)), dma) := by
  have hcount := h.counts.drained_idle hidle
  have hlt := h.phaseMatches_iff.mp hmatch
  have hle := h.counts.executed_le
  have hd := h.depth_valid
  have hdepth := h.counts.driverDepth
  have hx := List.getElem?_eq_getElem hlt
  obtain ⟨a, ha, -, hcid, hstatus, -⟩ := h.logs.executed _ _ hx
  have hcqe : t.driver.cqes t.driver.cqHead = t.executed[t.advanced].completion := by
    rw [h.counts.cqHead]
    exact h.undrained.get le_rfl hlt
  have hmem : a.1 ∈ t.unended := by
    rw [unended, hcount, List.drop_eq_getElem_cons (by omega), List.map_cons]
    rw [(List.getElem?_eq_some_iff.mp ha).2]
    exact List.mem_cons_self
  have htag := h.tags.tag_lt a.1 hmem
  have hnum : (UInt16.ofNat (a.1.tag + 1)).toNat = a.1.tag + 1 := by
    rw [UInt16.toNat_ofNat']
    exact Nat.mod_eq_of_lt (by omega)
  have howner := (h.tags.owners a.1.tag a.1).mpr ⟨hmem, rfl⟩
  rw [hcount]
  refine ⟨a, _, unmapSegments (t.driver.requests a.1.tag).dmaDir
    (t.driver.requests a.1.tag).sgl (t.driver.requests a.1.tag).nrMapped, ha, hx, hcqe, ?_⟩
  have hvalid : ¬ (a.1.tag + 1 = 0 ∨ t.driver.depth - 1 < a.1.tag + 1) := by omega
  unfold endRequest
  simp only [hcqe, hcid, (h.logs.accepted a (List.mem_of_getElem? ha)).1, hnum, if_neg hvalid,
    Nat.add_sub_cancel, howner, hstatus]

/-- Ending the oldest request frees its tag. -/
theorem Tags.ended {t' : Transport} (h : t.Tags d) {rq : Request} {request : OpenflashRequest}
    (hunended : t.unended = rq :: t'.unended) (hfree : request.rq = none)
    (hdriver : t'.driver = t.driver.setRequest rq.tag request) : t'.Tags d := by
  have hnodup := h.nodup
  rw [hunended, List.map_cons, List.nodup_cons] at hnodup
  constructor
  · intro other hother
    apply h.tag_lt other
    rw [hunended]
    exact List.mem_cons_of_mem _ hother
  · exact hnodup.2
  · intro tag other
    rw [hdriver, setRequest_rq]
    by_cases htag : tag = rq.tag
    · rw [if_pos htag, hfree]
      refine iff_of_false (fun hnone => by cases hnone) fun hr => hnodup.1 ?_
      rw [← htag, ← hr.2]
      exact List.mem_map_of_mem hr.1
    · rw [if_neg htag, h.owners, hunended, List.mem_cons]
      constructor
      · rintro ⟨rfl | hmem, hsame⟩
        · exact absurd hsame.symm htag
        · exact ⟨hmem, hsame⟩
      · rintro ⟨hmem, hsame⟩
        exact ⟨Or.inr hmem, hsame⟩

theorem drain_inv (h : t.Inv d) (hidle : t.draining = false) (hmatch : phaseMatches t.driver) :
    t.drain.Inv d := by
  have hcount := h.counts.drained_idle hidle
  have hlt := h.phaseMatches_iff.mp hmatch
  obtain ⟨a, x, dma, ha, hx, hcqe, heq⟩ := h.endRequest_eq hidle hmatch
  have hunended : t.unended = a.1 :: t.drain.unended := by
    have hn := (List.getElem?_eq_some_iff.mp ha).1
    simp only [unended, drain, List.length_append, List.length_singleton]
    rw [List.drop_eq_getElem_cons hn, List.map_cons, (List.getElem?_eq_some_iff.mp ha).2]
  have hdriver : t.drain.driver = t.driver.setRequest a.1.tag
      { t.driver.requests a.1.tag with rq := none, nrMapped := 0 } := by
    simp only [drain, heq]
  have hlog : t.drain.drained
      = t.drained ++ [⟨x.completion, some (a.1, openflashBlkStatus (.ofNat x.status.code))⟩] := by
    simp only [drain, heq, hcqe]
  have hlen : t.drain.drained.length = t.advanced + 1 := by
    rw [hlog, List.length_append, hcount]
    rfl
  constructor
  · exact h.depth_valid
  · refine { h.counts with
      driverDepth := ?_
      sqTail := ?_
      cqHead := ?_
      hostPhase := ?_
      drained_eq := hlen
      drained_le := ?_ }
    · rw [hdriver]
      exact h.counts.driverDepth
    · rw [hdriver]
      exact h.counts.sqTail
    · rw [hdriver]
      exact h.counts.cqHead
    · rw [hdriver]
      exact h.counts.hostPhase
    · rw [hlen]
      exact hlt
  · exact { h.doorbells with }
  · exact h.tags.ended hunended rfl hdriver
  · constructor
    · rw [hdriver]
      exact h.rings.commands
    · rw [hdriver]
      exact h.rings.completions
    · rw [hdriver]
      exact h.rings.zeroed
  · refine { h.logs with drained := ?_ }
    intro n e he
    rw [hlog] at he
    rcases getElem?_append_singleton he with he | ⟨rfl, rfl⟩
    · exact h.logs.drained n e he
    · exact ⟨a, x, ha, hx, rfl, rfl⟩

theorem advance_inv (h : t.Inv d) (hdraining : t.draining = true) : t.advance.Inv d := by
  have hcount := h.counts.drained_eq
  rw [hdraining, if_pos rfl] at hcount
  have hhead : (t.driver.cqHead + 1) % t.driver.depth = (t.advanced + 1) % d := by
    rw [h.counts.cqHead, h.counts.driverDepth, succ_mod]
  constructor
  · exact h.depth_valid
  · refine { h.counts with cqHead := hhead, hostPhase := ?_, drained_eq := hcount }
    simp only [advance, advanceHead]
    rw [phase_succ, hhead, h.counts.hostPhase]
  · exact { h.doorbells with }
  · exact { h.tags with }
  · exact { h.rings with }
  · exact { h.logs with }

theorem step_inv (h : t.Inv d) (action : Action) : (t.step action).Inv d := by
  unfold step
  split_ifs with henabled
  · cases action with
    | submit rq => exact submit_inv h henabled
    | enterLoop => exact enterLoop_inv h henabled
    | iterate fileOk memory => exact iterate_inv h fileOk memory
    | endRequest => exact drain_inv h henabled.1 henabled.2
    | advanceHead => exact advance_inv h henabled
  · exact h

theorem run_inv (h : t.Inv d) (actions : List Action) : (t.run actions).Inv d := by
  induction actions generalizing t with
  | nil => exact h
  | cons action rest ih => exact ih (step_inv h action)

end Transport
end OpenFlash.Driver
