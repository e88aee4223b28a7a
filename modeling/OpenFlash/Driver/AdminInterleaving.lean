import OpenFlash.Driver.Probe

/-! Admin commands sent one after the other over the rings are runs of the model in which
caller, device and interrupt take their steps in any order. -/
namespace OpenFlash.Driver
open Abi Support Support.Ring

/-- The queue with the rings of another. -/
def AdminQueue.withRings (q r : AdminQueue) : AdminQueue :=
  { q with sqCmds := r.sqCmds, cqes := r.cqes }

/-- The fields that a call sets before the doorbell. -/
def AdminQueue.prepared (q : AdminQueue) : AdminQueue :=
  { q with
    nextCid := freshCid q.nextCid
    adminDone := false
    adminCid := freshCid q.nextCid
    adminError := none
    adminPending := true
    sqTail := (q.sqTail + 1) % q.depth }

/-- The interrupt looks at the entry at the head only. -/
theorem AdminQueue.record_withRings {q r : AdminQueue} (h : r.cqes q.cqHead = q.head) :
    (q.withRings r).record = q.record.withRings r := by
  have hhead : (q.withRings r).head = q.head := h
  have hcid : (q.withRings r).adminCid = q.adminCid := rfl
  unfold AdminQueue.record
  rw [hhead, hcid]
  split_ifs
  · rfl
  · rfl

theorem AdminQueue.round_withRings {q r : AdminQueue} (h : r.cqes q.cqHead = q.head) :
    (q.withRings r).round = q.round.withRings r := by
  have hpending : (q.withRings r).adminPending = q.adminPending := rfl
  unfold AdminQueue.round
  rw [AdminQueue.record_withRings h, hpending]
  dsimp only
  split_ifs
  · rfl
  · rfl

theorem AdminQueue.round_done {q : AdminQueue} (h : q.adminPending = true) :
    q.round.adminDone = true := by
  unfold AdminQueue.round
  rw [if_pos h]
  rfl

namespace Admin

/-- No call and no interrupt is on its way, and the device writes where the driver looks. -/
structure Quiet (s : Admin) : Prop where
  caller : s.caller = .idle
  drainer : s.drainer = .idle
  outstanding : s.outstanding = []
  cqTail : s.cqTail = s.queue.cqHead
  cqPhase : s.cqPhase = s.queue.cqPhase

/-- The command as it gets its CID. -/
def named (s : Admin) (cmd : OpenFlashCommand) : OpenFlashCommand :=
  { cmd with qid := 0, cid := freshCid s.queue.nextCid }

/-- The steps of a call whose command the device answers at once. -/
def callActions (n : ℕ) (cmd : OpenFlashCommand) (cqe : OpenFlashCompletion) : List Action :=
  [.call cmd, .pend, .fill, .ring, .post n cqe, .test, .decide, .clear, .complete, .advance, .wake]

/-- The state in which the call waits for its completion. -/
def rung (s : Admin) (cmd : OpenFlashCommand) : Admin :=
  { s with
    queue :=
      { s.queue.prepared with
        sqCmds := Function.update s.queue.sqCmds s.queue.sqTail (s.named cmd) }
    calls := s.calls ++ [⟨s.named cmd, none⟩]
    caller := .waiting s.calls.length
    outstanding := [s.calls.length] }

/-- The state once the device has written the completion. -/
def posting (s : Admin) (cmd : OpenFlashCommand) (cqe : OpenFlashCompletion) : Admin :=
  (s.rung cmd).post s.calls.length (s.named cmd) cqe

/-- The state after the call. -/
def answered (s : Admin) (cmd : OpenFlashCommand) (cqe : OpenFlashCompletion) : Admin :=
  { s.posting cmd cqe with
    queue := (s.posting cmd cqe).queue.round
    calls := s.calls ++ [⟨s.named cmd, some (s.posting cmd cqe).queue.round.outcome⟩]
    caller := .idle }

theorem run_append (s : Admin) (before after : List Action) :
    s.run (before ++ after) = (s.run before).run after := List.foldl_append

theorem step_wake {s : Admin} {n : ℕ} (hcaller : s.caller = .waiting n)
    (hdone : s.queue.adminDone = true) : s.step .wake = s.leave n s.queue.outcome := by
  rw [step, hcaller]
  exact if_pos hdone

section
variable {s : Admin} (h : s.Quiet) (cmd : OpenFlashCommand) (cqe : OpenFlashCompletion)
include h

theorem Quiet.run_rung : s.run [.call cmd, .pend, .fill, .ring] = s.rung cmd := by
  have hcall : s.step (.call cmd) = s.call cmd := by
    rw [step, h.outstanding]
    exact if_pos ⟨h.caller, by decide⟩
  rw [run, List.foldl_cons, hcall]
  simp [step, call, rung, named, AdminQueue.prepared, h.outstanding]

theorem Quiet.posting_head :
    (s.posting cmd cqe).queue.head
      = { cqe with cid := (s.named cmd).cid, flags := .ofNat s.cqPhase } := by
  show Function.update s.queue.cqes s.cqTail _ s.queue.cqHead = _
  rw [h.cqTail, Function.update_self]
  rfl

/-- The five steps of the interrupt find the completion, and the call wakes up. -/
theorem Quiet.run_callActions
    (hflag : (UInt16.ofNat s.queue.cqPhase).toNat &&& 1 = s.queue.cqPhase) :
    s.run (callActions s.calls.length cmd cqe) = s.answered cmd cqe := by
  have hpost : (s.rung cmd).step (.post s.calls.length cqe) = s.posting cmd cqe := by
    have hcall : (s.rung cmd).calls[s.calls.length]? = some ⟨s.named cmd, none⟩ :=
      List.getElem?_concat_length
    rw [step, hcall]
    exact if_pos (List.mem_singleton_self _)
  have hmatch : (s.posting cmd cqe).queue.PhaseMatches := by
    rw [AdminQueue.PhaseMatches, h.posting_head]
    show (UInt16.ofNat s.cqPhase).toNat &&& 1 = s.queue.cqPhase
    rw [h.cqPhase, hflag]
  have hround := run_round (s := s.posting cmd cqe) h.drainer hmatch
  have hdone : (s.posting cmd cqe).queue.round.adminDone = true := AdminQueue.round_done rfl
  have hleave : (s.calls ++ [(⟨s.named cmd, none⟩ : AdminCall)]).modify s.calls.length
      (fun c => { c with returned := some (s.posting cmd cqe).queue.round.outcome })
      = s.calls ++ [⟨s.named cmd, some (s.posting cmd cqe).queue.round.outcome⟩] :=
    modify_append_length ..
  have hwake : step { s.posting cmd cqe with queue := (s.posting cmd cqe).queue.round } .wake
      = s.answered cmd cqe := by
    rw [step_wake rfl hdone, leave, answered, ← hleave]
    rfl
  have hsplit : callActions s.calls.length cmd cqe
      = [.call cmd, .pend, .fill, .ring] ++ ([.post s.calls.length cqe] ++
        ([.test, .decide, .clear, .complete, .advance] ++ [.wake])) := rfl
  have hone (t : Admin) (a : Action) : t.run [a] = t.step a := rfl
  rw [hsplit, run_append, run_append, run_append, h.run_rung, hone (s.rung cmd), hpost, hround,
    hone, hwake]

end
end Admin

/-- Between two calls the interleaved model has the driver's side of the link, with its
completion ring. -/
structure Follows (rings : AdminRings) (l : AdminLink) (s : Admin) : Prop where
  quiet : s.Quiet
  queue : s.queue = l.queue.withRings s.queue
  entries : ∀ slot < rings.depth, s.queue.cqes slot = rings.cqe l.machine.memory slot

section
variable {rings : AdminRings} {n fuel : ℕ} {l : AdminLink} {s : Admin}

namespace Follows

theorem fields (h : Follows rings l s) :
    s.queue.depth = l.queue.depth ∧ s.queue.nextCid = l.queue.nextCid ∧
      s.queue.cqHead = l.queue.cqHead ∧ s.queue.cqPhase = l.queue.cqPhase := by
  rw [h.queue]
  exact ⟨rfl, rfl, rfl, rfl⟩

theorem named (h : Follows rings l s) (cmd : OpenFlashCommand) : s.named cmd = l.named cmd := by
  rw [Admin.named, AdminLink.named, h.fields.2.1]

section
variable (h : Follows rings l s) (hl : Linked rings n l) (fileOk : Bool) (cmd : OpenFlashCommand)
  (trace : List Qemu.Access)
include h hl

/-- The device of the link writes the completion that is posted. -/
theorem posting_head :
    (s.posting cmd (l.answer rings n fileOk cmd)).queue.head = l.answer rings n fileOk cmd := by
  have hphase : s.cqPhase = phase rings.depth n := by
    rw [h.quiet.cqPhase, h.fields.2.2.2, hl.cqPhase]
  rw [h.quiet.posting_head, h.named, hphase]
  rfl

/-- The interrupt does the same on both sides. -/
theorem round_posting :
    (s.posting cmd (l.answer rings n fileOk cmd)).queue.round
      = (l.finished rings n fileOk cmd trace).queue.withRings
        (s.posting cmd (l.answer rings n fileOk cmd)).queue := by
  have hslot : (s.posting cmd (l.answer rings n fileOk cmd)).queue.cqHead = l.queue.cqHead :=
    h.fields.2.2.1
  have hhead : (s.posting cmd (l.answer rings n fileOk cmd)).queue.cqes l.queue.cqHead
      = ((l.served rings n fileOk cmd trace).view rings).head := by
    rw [hl.served_head, ← hslot]
    exact h.posting_head hl fileOk cmd
  have hqueue : (s.posting cmd (l.answer rings n fileOk cmd)).queue
      = ((l.served rings n fileOk cmd trace).view rings).withRings
        (s.posting cmd (l.answer rings n fileOk cmd)).queue :=
    congrArg (fun q => q.prepared.withRings (s.posting cmd (l.answer rings n fileOk cmd)).queue)
      h.queue
  rw [AdminLink.finished_round, ← AdminQueue.round_withRings hhead, ← hqueue]

theorem posting_entries {slot : ℕ} (hslot : slot < rings.depth) :
    (s.posting cmd (l.answer rings n fileOk cmd)).queue.cqes slot
      = rings.cqe (l.finished rings n fileOk cmd trace).machine.memory slot := by
  have htail : s.cqTail = n % rings.depth := by
    rw [h.quiet.cqTail, h.fields.2.2.1, hl.cqHead]
  have hmemory : (l.finished rings n fileOk cmd trace).machine.memory
      = writeSlot (l.prepare rings cmd).machine.memory rings.dma.adminCq.toNat 64
        (n % rings.depth) (l.answer rings n fileOk cmd).bytes := rfl
  rw [hmemory]
  by_cases heq : slot = n % rings.depth
  · have hhead := h.posting_head hl fileOk cmd
    have hcqHead : (s.posting cmd (l.answer rings n fileOk cmd)).queue.cqHead = slot := by
      rw [heq, ← htail]
      exact h.quiet.cqTail.symm
    rw [AdminQueue.head, hcqHead] at hhead
    rw [hhead, heq, rings.cqe_writeSlot_self]
  · have hother : (s.posting cmd (l.answer rings n fileOk cmd)).queue.cqes slot
        = s.queue.cqes slot := Function.update_of_ne (htail ▸ heq) ..
    rw [hother, h.entries slot hslot, rings.cqe_writeSlot_of_ne _ _ heq,
      AdminRings.cqe_congr hslot (hl.prepare_adminCq cmd)]

theorem answered :
    Follows rings (l.finished rings n fileOk cmd trace)
      (s.answered cmd (l.answer rings n fileOk cmd)) := by
  have hround := h.round_posting hl fileOk cmd trace
  have hfinished := hl.finished fileOk cmd trace
  obtain ⟨hdepth, -, hcqHead, hcqPhase⟩ := h.fields
  have htail : (s.cqTail + 1) % s.queue.depth = (n + 1) % rings.depth := by
    rw [h.quiet.cqTail, hcqHead, hdepth, hl.cqHead, hl.depth, succ_mod]
  refine ⟨⟨rfl, h.quiet.drainer, List.erase_cons_head .., ?_, ?_⟩, ?_, fun slot hslot => ?_⟩
  · show (s.cqTail + 1) % s.queue.depth
      = (s.posting cmd (l.answer rings n fileOk cmd)).queue.round.cqHead
    rw [hround, htail]
    exact hfinished.cqHead.symm
  · show (if (s.cqTail + 1) % s.queue.depth = 0 then s.cqPhase ^^^ 1 else s.cqPhase)
      = (s.posting cmd (l.answer rings n fileOk cmd)).queue.round.cqPhase
    rw [hround, htail, h.quiet.cqPhase, hcqPhase, hl.cqPhase, ← phase_succ]
    exact hfinished.cqPhase.symm
  · show (s.posting cmd (l.answer rings n fileOk cmd)).queue.round
      = (l.finished rings n fileOk cmd trace).queue.withRings
        (s.posting cmd (l.answer rings n fileOk cmd)).queue.round
    rw [hround]
    rfl
  · show (s.posting cmd (l.answer rings n fileOk cmd)).queue.round.cqes slot = _
    rw [hround]
    exact h.posting_entries hl fileOk cmd trace hslot

/-- A call over the rings is a run of the interleaved model, in which the call returns the same
value. -/
theorem openflashAdminCommand (hcmd : Qemu.Dataless cmd) (hfuel : 2 ≤ fuel) :
    ∃ r l' actions, l.openflashAdminCommand rings fuel fileOk cmd = some (r, l') ∧
      Linked rings (n + 1) l' ∧ Follows rings l' (s.run actions) ∧
      (s.run actions).calls = s.calls ++ [⟨l.named cmd, some r⟩] := by
  obtain ⟨trace, hcall⟩ := hl.openflashAdminCommand_finished hcmd hfuel fileOk
  have hflag : (UInt16.ofNat s.queue.cqPhase).toNat &&& 1 = s.queue.cqPhase := by
    rw [h.fields.2.2.2, hl.cqPhase]
    exact Transport.phase_flag rings.depth n
  have hrun := h.quiet.run_callActions cmd (l.answer rings n fileOk cmd) hflag
  refine ⟨_, _, Admin.callActions s.calls.length cmd (l.answer rings n fileOk cmd), hcall,
    hl.finished fileOk cmd trace, ?_, ?_⟩
  · rw [hrun]
    exact h.answered hl fileOk cmd trace
  · have hdone : (l.finished rings n fileOk cmd trace).queue.adminDone = true :=
      AdminQueue.round_done rfl
    have hawait := hl.finished_await fileOk cmd trace
    rw [AdminLink.await, if_pos hdone] at hawait
    rw [hrun, Admin.answered, h.named, h.round_posting hl fileOk cmd trace,
      ← (Prod.mk.inj hawait).1]
    rfl

end
end Follows

/-- Any number of calls, one after the other, is a run of the interleaved model with the same
return values. -/
theorem adminCommands_interleaved (hfuel : 2 ≤ fuel) (commands : List (Bool × OpenFlashCommand))
    (hcommands : ∀ c ∈ commands, Qemu.Dataless c.2) (h : Follows rings l s)
    (hl : Linked rings n l) :
    ∃ actions,
      Follows rings (runOutputs (AdminLink.next rings fuel) l
        (commands.map fun c => .command c.1 c.2)).2 (s.run actions) ∧
      (s.run actions).calls.map AdminCall.returned
        = s.calls.map AdminCall.returned ++ (runOutputs (AdminLink.next rings fuel) l
          (commands.map fun c => .command c.1 c.2)).1.map Prod.snd := by
  induction commands generalizing n l s with
  | nil => exact ⟨[], h, (List.append_nil _).symm⟩
  | cons c rest ih =>
    obtain ⟨r, l', actions, hcall, hl', h', hcalls⟩ :=
      h.openflashAdminCommand hl c.1 c.2 (hcommands c List.mem_cons_self) hfuel
    obtain ⟨more, hfollows, hreturned⟩ :=
      ih (fun d hd => hcommands d (List.mem_cons_of_mem c hd)) h' hl'
    have hnext : l.next rings fuel (.command c.1 c.2) = (some r, l') := by
      rw [AdminLink.next, hcall]
    refine ⟨actions ++ more, ?_⟩
    rw [Admin.run_append, List.map_cons, runOutputs, hnext]
    refine ⟨hfollows, ?_⟩
    rw [hreturned, hcalls]
    simp

/-- Both models start alike. -/
theorem fresh_follows (rings : AdminRings) (device : Qemu.OpenFlashState) {memory : Memory}
    (hzero : ∀ a, rings.dma.adminCq.toNat ≤ a →
      a < rings.dma.adminCq.toNat + 64 * rings.depth → memory a = 0) :
    Follows rings ⟨.fresh rings.depth, .start device memory, true⟩ (.start rings.depth) := by
  refine ⟨⟨rfl, rfl, rfl, rfl, rfl⟩, rfl, fun slot hslot => ?_⟩
  exact (cqe_of_zero hslot hzero).symm

/-- After bring-up on a reset device, the admin commands of the driver are a run of the
interleaved model from its start. -/
theorem adminQueue_interleaved (rings : AdminRings) {device : Qemu.OpenFlashState}
    {memory : Memory} (hreset : device.queues 0 = { cqPhase := 1 })
    (hzero : ∀ a, rings.dma.adminCq.toNat ≤ a →
      a < rings.dma.adminCq.toNat + 64 * rings.depth → memory a = 0)
    (hfuel : 2 ≤ fuel) (commands : List (Bool × OpenFlashCommand))
    (hcommands : ∀ c ∈ commands, Qemu.Dataless c.2) :
    ∃ actions, ((Admin.start rings.depth).run actions).calls.map AdminCall.returned
      = (runOutputs (AdminLink.next rings fuel)
          ⟨.fresh rings.depth, .start (openflashSetupAdminQueue none rings.depth rings.dma.adminSq
            rings.dma.adminCq device).2 memory, true⟩
          (commands.map fun c => .command c.1 c.2)).1.map Prod.snd := by
  obtain ⟨-, hlinked, -⟩ := openflashSetupAdminQueue_linked rings hreset hzero
  obtain ⟨actions, -, hreturned⟩ :=
    adminCommands_interleaved hfuel commands hcommands (fresh_follows rings _ hzero) hlinked
  exact ⟨actions, hreturned⟩

end

end OpenFlash.Driver
