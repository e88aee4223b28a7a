import OpenFlash.Driver.Reset

/-! What holds after each write of a reset that nothing disturbs, up to the agreement of both
sides at its end. -/
namespace OpenFlash.Driver
open Abi Support

/-- The place of a step in the program. The first store to the I/O completion ring and the
write that enables the controller have places of their own. -/
def ResetStep.rank : ResetStep → ℕ
  | .clearAdminSq _ => 0
  | .clearAdminCq _ => 1
  | .clearIoSq _ => 2
  | .clearIoCq slot => if slot = 0 then 3 else 4
  | .adminSqTail => 5
  | .adminCqHead => 6
  | .adminCqPhase => 7
  | .ioSqTail => 8
  | .ioCqHead => 9
  | .ioCqPhase => 10
  | .ctrlReset => 11
  | .readStatus => 12
  | .writel addr _ => if addr = 0x0010 then 14 else 13
  | .pollReady => 15
  | .createIoQueue => 16

theorem rank_clearIoCq (slot : ℕ) :
    3 ≤ (ResetStep.clearIoCq slot).rank ∧ (ResetStep.clearIoCq slot).rank ≤ 4 := by
  simp only [ResetStep.rank]
  split_ifs <;> decide

/-- Ranks do not fall, and nothing follows the last step. -/
def Ordered (steps : List ResetStep) : Prop :=
  steps.Pairwise fun a b => a.rank ≤ b.rank ∧ a ≠ .createIoQueue

theorem Ordered.append {A B : List ResetStep} (hA : Ordered A) (hB : Ordered B) (k : ℕ)
    (hle : ∀ a ∈ A, a.rank ≤ k ∧ a ≠ .createIoQueue) (hge : ∀ b ∈ B, k ≤ b.rank) :
    Ordered (A ++ B) :=
  List.pairwise_append.mpr
    ⟨hA, hB, fun a ha b hb => ⟨(hle a ha).1.trans (hge b hb), (hle a ha).2⟩⟩

theorem ordered_map {f : ℕ → ResetStep} (n : ℕ)
    (h : ∀ i j, i < j → (f i).rank ≤ (f j).rank ∧ f i ≠ .createIoQueue) :
    Ordered ((List.range n).map f) := by
  unfold Ordered
  rw [List.pairwise_map]
  exact List.pairwise_lt_range.imp fun hlt => h _ _ hlt

theorem hostWrites_ordered (adminDepth d : ℕ) : Ordered (hostWrites adminDepth d) := by
  have hsq : Ordered ((List.range adminDepth).map .clearAdminSq) :=
    ordered_map _ fun _ _ _ => ⟨le_rfl, by simp⟩
  have hcq : Ordered ((List.range adminDepth).map .clearAdminCq) :=
    ordered_map _ fun _ _ _ => ⟨le_rfl, by simp⟩
  have hioSq : Ordered ((List.range d).map .clearIoSq) :=
    ordered_map _ fun _ _ _ => ⟨le_rfl, by simp⟩
  have hioCq : Ordered ((List.range d).map .clearIoCq) := by
    refine ordered_map _ fun i j hlt => ⟨?_, by simp⟩
    rw [show (ResetStep.clearIoCq j).rank = 4 from if_neg (by omega)]
    exact (rank_clearIoCq i).2
  have hindices : Ordered [.adminSqTail, .adminCqHead, .adminCqPhase, .ioSqTail, .ioCqHead,
      .ioCqPhase] := by
    simp [Ordered, ResetStep.rank]
  unfold hostWrites
  refine (((hsq.append hcq 0 ?_ ?_).append hioSq 1 ?_ ?_).append hioCq 2 ?_ ?_).append hindices 4
    ?_ ?_
  all_goals
    simp only [List.forall_mem_append, List.forall_mem_map, List.forall_mem_cons, ResetStep.rank]
    grind

theorem resetProgram_ordered (adminDepth d : ℕ) (dma : DmaRings) :
    Ordered (resetProgram adminDepth d dma) := by
  have hcontroller : Ordered (.ctrlReset :: controllerWrites adminDepth dma) := by
    simp [Ordered, controllerWrites, enableWrites, ResetStep.rank]
  apply (hostWrites_ordered adminDepth d).append hcontroller 10
  · simp only [hostWrites, List.forall_mem_append, List.forall_mem_map, List.forall_mem_cons,
      ResetStep.rank]
    grind
  · simp [controllerWrites, enableWrites, ResetStep.rank]

section Order
variable {todo rest : List ResetStep} {s x : ResetStep} {adminDepth d : ℕ} {dma : DmaRings}

theorem mem_of_rank_lt (h : todo <:+ resetProgram adminDepth d dma) (hs : s ∈ todo)
    (hx : x ∈ resetProgram adminDepth d dma) (hlt : s.rank < x.rank) : x ∈ todo := by
  have hordered := resetProgram_ordered adminDepth d dma
  obtain ⟨done, hdone⟩ := h
  rw [← hdone] at hordered hx
  rcases List.mem_append.mp hx with hbefore | hafter
  · have hle := ((List.pairwise_append.mp hordered).2.2 x hbefore s hs).1
    omega
  · exact hafter

theorem notMem_of_rank_lt (h : s :: rest <:+ resetProgram adminDepth d dma)
    (hlt : x.rank < s.rank) : x ∉ s :: rest := by
  have hordered := (resetProgram_ordered adminDepth d dma).sublist h.sublist
  intro hx
  rcases List.mem_cons.mp hx with rfl | hmem
  · omega
  · have hle := ((List.pairwise_cons.mp hordered).1 x hmem).1
    omega

theorem ctrlReset_mem (adminDepth d : ℕ) (dma : DmaRings) :
    .ctrlReset ∈ resetProgram adminDepth d dma := by
  simp [resetProgram]

theorem enable_mem (adminDepth d : ℕ) (dma : DmaRings) :
    .writel 0x0010 1 ∈ resetProgram adminDepth d dma := by
  simp [resetProgram, controllerWrites, enableWrites]

theorem clearIoCq_mem {slot : ℕ} (hslot : slot < d) (adminDepth : ℕ) (dma : DmaRings) :
    .clearIoCq slot ∈ resetProgram adminDepth d dma := by
  simp [resetProgram, hostWrites, hslot]

theorem clearIoCq_mem_of_first (h : todo <:+ resetProgram adminDepth d dma)
    (hs : .clearIoCq 0 ∈ todo) {slot : ℕ} (hslot : slot < d) : .clearIoCq slot ∈ todo := by
  by_cases hzero : slot = 0
  · rw [hzero]
    exact hs
  · apply mem_of_rank_lt h hs (clearIoCq_mem hslot adminDepth dma)
    simp [ResetStep.rank, hzero]

theorem ioCqPhase_mem_of_ioCqHead (h : todo <:+ resetProgram adminDepth d dma)
    (hs : .ioCqHead ∈ todo) : .ioCqPhase ∈ todo := by
  apply mem_of_rank_lt h hs _ (by decide)
  simp [resetProgram, hostWrites]

theorem enable_mem_of_writel (h : todo <:+ resetProgram adminDepth d dma) {addr : ℕ}
    {value : UInt64} (hs : .writel addr value ∈ todo) : .writel 0x0010 1 ∈ todo := by
  by_cases heq : addr = 0x0010
  · have hmem := h.subset hs
    obtain rfl : value = 1 := by
      simpa [resetProgram, hostWrites, controllerWrites, enableWrites, heq] using hmem
    rw [← heq]
    exact hs
  · apply mem_of_rank_lt h hs (enable_mem adminDepth d dma)
    simp [ResetStep.rank, heq]

theorem rest_eq_nil_iff (h : s :: rest <:+ resetProgram adminDepth d dma) :
    rest = [] ↔ s = .createIoQueue := by
  constructor
  · rintro rfl
    by_contra hne
    have hlast : ResetStep.createIoQueue ∈ [s] := by
      apply mem_of_rank_lt h List.mem_cons_self
      · simp [resetProgram, controllerWrites]
      · cases s with
        | createIoQueue => exact absurd rfl hne
        | clearIoCq slot | writel slot _ =>
          simp only [ResetStep.rank]
          split_ifs <;> decide
        | _ => simp [ResetStep.rank]
    exact hne (List.mem_singleton.mp hlast).symm
  · rintro rfl
    have hordered := (resetProgram_ordered adminDepth d dma).sublist h.sublist
    rw [List.eq_nil_iff_forall_not_mem]
    intro x hx
    exact ((List.pairwise_cons.mp hordered).1 x hx).2 rfl

end Order

/-- The next iteration of the device executes a command and posts its completion. -/
def Transport.Posts (t : Transport) : Prop :=
  t.loop ≠ none ∧ t.loop ≠ some (t.device.queues 1).sqHead

instance (t : Transport) : Decidable t.Posts := inferInstanceAs (Decidable (_ ∧ _))

namespace Recovery
variable {d : ℕ} {r : Recovery} {t : Transport} {todo rest : List ResetStep} {s : ResetStep}

/-- What a step leaves behind for the steps after it. -/
def Established (d : ℕ) (t : Transport) : ResetStep → Prop
  | .clearIoCq slot => slot < d → (t.driver.cqes slot).flags = 0
  | .ioSqTail => t.driver.sqTail = 0
  | .ioCqHead => t.driver.cqHead = 0 ∧ t.draining = false
  | .ioCqPhase => t.driver.cqPhase = 1
  | .ctrlReset =>
      t.loop = none ∧ t.doorbells = [] ∧ t.advanced = 0 ∧ t.accepted = [] ∧ t.executed = [] ∧
        t.drained = []
  | .writel addr value => addr = 0x0010 ∧ value = 1 → t.device.status = Qemu.statusReady
  | _ => True

/-- A transport without requests on which all steps but those in `todo` are made. -/
structure Stage (d : ℕ) (t : Transport) (todo : List ResetStep) : Prop where
  depth : t.driver.depth = d
  free : ∀ tag, (t.driver.requests tag).rq = none
  established : ∀ s, s ∉ todo → Established d t s

theorem stage_start (hdepth : t.driver.depth = d)
    (hfree : ∀ tag, (t.driver.requests tag).rq = none) (adminDepth : ℕ) (dma : DmaRings) :
    Stage d t (resetProgram adminDepth d dma) := by
  refine ⟨hdepth, hfree, fun s hs => ?_⟩
  cases s with
  | clearIoCq slot =>
    intro hslot
    exact absurd (clearIoCq_mem hslot adminDepth dma) hs
  | writel addr value =>
    rintro ⟨rfl, rfl⟩
    exact absurd (enable_mem adminDepth d dma) hs
  | ioSqTail | ioCqHead | ioCqPhase | ctrlReset =>
    exact absurd (by simp [resetProgram, hostWrites]) hs
  | _ => trivial

theorem Stage.enterLoop (h : Stage d t todo) : Stage d (t.step .enterLoop) todo := by
  unfold Transport.step
  split_ifs with henabled
  · show Stage d t.enterLoop todo
    unfold Transport.enterLoop
    split
    · exact h
    · rename_i tail rest hbells
      refine { h with established := fun s hs => ?_ }
      have hmade := h.established s hs
      cases s with
      | ctrlReset =>
        have hempty := hmade.2.1
        rw [hbells] at hempty
        cases hempty
      | _ => exact hmade
  · exact h

section Traffic
variable {adminDepth : ℕ} {dma : DmaRings} (h : Stage d t todo)
  (hsuffix : todo <:+ resetProgram adminDepth d dma)
include h hsuffix

/-- After the device is reset nothing passes the phase test. -/
theorem Stage.not_phaseMatches (hd : 0 < d) (hreset : .ctrlReset ∉ todo) :
    ¬ phaseMatches t.driver := by
  have hdone : ∀ s : ResetStep, s.rank < 11 → Established d t s := fun s hrank =>
    h.established s fun hs =>
      hreset (mem_of_rank_lt hsuffix hs (ctrlReset_mem adminDepth d dma) hrank)
  have hhead := (hdone .ioCqHead (by decide)).1
  have hphase : t.driver.cqPhase = 1 := hdone .ioCqPhase (by decide)
  have hflags := hdone (.clearIoCq 0) (by decide) hd
  unfold phaseMatches
  rw [hhead, hphase, hflags]
  decide

theorem Stage.endRequest (hd : 0 < d) (hquiet : .ctrlReset ∈ todo → .ioCqHead ∈ todo) :
    Stage d (t.step .endRequest) todo := by
  unfold Transport.step
  split_ifs with henabled
  · have hreset : .ctrlReset ∈ todo := by
      by_contra hnot
      exact h.not_phaseMatches hsuffix hd hnot henabled.2
    have hsame : (Driver.endRequest t.driver).1 = t.driver := by
      unfold Driver.endRequest
      dsimp only
      split_ifs
      · rfl
      · rw [h.free]
    have hdriver : (t.next .endRequest).driver = t.driver := hsame
    have hfixed : (t.next .endRequest).driver.depth = d ∧
        ∀ tag, ((t.next .endRequest).driver.requests tag).rq = none := by
      rw [hdriver]
      exact ⟨h.depth, h.free⟩
    refine ⟨hfixed.1, hfixed.2, fun s hs => ?_⟩
    have hmade := h.established s hs
    cases s with
    | ioCqHead => exact absurd (hquiet hreset) hs
    | ctrlReset => exact absurd hreset hs
    | clearIoCq slot | ioSqTail | ioCqPhase => simpa only [Established, hdriver] using hmade
    | _ => exact hmade
  · exact h

theorem Stage.advanceHead : Stage d (t.step .advanceHead) todo := by
  unfold Transport.step
  split_ifs with henabled
  · have hhead : .ioCqHead ∈ todo := by
      by_contra hnot
      have hidle := (h.established .ioCqHead hnot).2
      rw [show t.draining = true from henabled] at hidle
      cases hidle
    have hreset := mem_of_rank_lt hsuffix hhead (ctrlReset_mem adminDepth d dma) (by decide)
    refine { h with established := fun s hs => ?_ }
    have hmade := h.established s hs
    cases s with
    | ioCqHead => exact absurd hhead hs
    | ioCqPhase => exact absurd (ioCqPhase_mem_of_ioCqHead hsuffix hhead) hs
    | ctrlReset => exact absurd hreset hs
    | _ => exact hmade
  · exact h

theorem Stage.iterate (hquiet : .ctrlReset ∈ todo → .clearIoCq 0 ∉ todo → ¬ t.Posts)
    (fileOk : Bool) (memory : Memory) : Stage d (t.step (.iterate fileOk memory)) todo := by
  have hstep : t.step (.iterate fileOk memory) = t.iterate fileOk memory := if_pos trivial
  rw [hstep]
  unfold Transport.iterate
  cases hloop : t.loop with
  | none => exact h
  | some tail =>
    have hreset : .ctrlReset ∈ todo := by
      by_contra hnot
      rw [(h.established .ctrlReset hnot).1] at hloop
      cases hloop
    dsimp only
    split_ifs with hhead
    · refine { h with established := fun s hs => ?_ }
      have hmade := h.established s hs
      cases s with
      | ctrlReset => exact absurd hreset hs
      | _ => exact hmade
    · have hfirst : .clearIoCq 0 ∈ todo := by
        by_contra hnot
        refine hquiet hreset hnot ⟨by simp [hloop], ?_⟩
        rw [hloop]
        exact fun heq => hhead (Option.some.inj heq).symm
      refine { h with established := fun s hs => ?_ }
      have hmade := h.established s hs
      cases s with
      | clearIoCq slot =>
        exact fun hslot => absurd (clearIoCq_mem_of_first hsuffix hfirst hslot) hs
      | writel addr value =>
        rintro ⟨rfl, rfl⟩
        exact absurd (mem_of_rank_lt hsuffix hreset (enable_mem adminDepth d dma) (by decide)) hs
      | ctrlReset => exact absurd hreset hs
      | _ => exact hmade

end Traffic

/-- No step changes a depth, a request or a ring address. -/
theorem perform_frame (r : Recovery) (reply : Reply) (s : ResetStep) :
    (r.perform reply s).1.transport.driver.depth = r.transport.driver.depth ∧
      (r.perform reply s).1.transport.driver.requests = r.transport.driver.requests ∧
      (r.perform reply s).1.admin.depth = r.admin.depth ∧
      (r.perform reply s).1.dma = r.dma := by
  cases s with
  | pollReady => cases reply <;> exact ⟨rfl, rfl, rfl, rfl⟩
  | createIoQueue =>
    cases reply with
    | prompt => exact ⟨rfl, rfl, rfl, rfl⟩
    | fault executed e => cases executed <;> exact ⟨rfl, rfl, rfl, rfl⟩
  | _ => exact ⟨rfl, rfl, rfl, rfl⟩

section Steps
variable (h : Stage d r.transport (s :: rest))
  (hsuffix : s :: rest <:+ resetProgram r.admin.depth d r.dma)
include h hsuffix

/-- A step does not undo the steps before it. -/
theorem Stage.perform_keeps (hlast : s ≠ .createIoQueue) (reply : Reply) {x : ResetStep}
    (hx : x ∉ s :: rest) : Established d (r.perform reply s).1.transport x := by
  have hmade := h.established x hx
  have hne : x ≠ s := fun heq => hx (heq ▸ List.mem_cons_self)
  have henable : s = .ctrlReset ∨ (∃ addr value, s = .writel addr value) →
      .writel 0x0010 1 ∈ s :: rest := by
    rintro (rfl | ⟨addr, value, rfl⟩)
    · exact mem_of_rank_lt hsuffix List.mem_cons_self (enable_mem r.admin.depth d r.dma) (by decide)
    · exact enable_mem_of_writel hsuffix List.mem_cons_self
  cases s with
  | clearIoCq slot =>
    cases x with
    | clearIoCq slot' =>
      intro hslot
      show (Function.update r.transport.driver.cqes slot ⟨0, 0, 0, 0, 0, 0⟩ slot').flags = 0
      rw [Function.update_of_ne (fun heq => hne (congrArg ResetStep.clearIoCq heq))]
      exact hmade hslot
    | _ => exact hmade
  | ioSqTail => cases x <;> first | exact hmade | exact rfl
  | ioCqHead => cases x <;> first | exact hmade | exact absurd rfl hne
  | ioCqPhase => cases x <;> first | exact hmade | exact rfl
  | ctrlReset =>
    cases x with
    | writel addr value =>
      rintro ⟨rfl, rfl⟩
      exact absurd (henable (Or.inl rfl)) hx
    | ctrlReset => exact absurd rfl hne
    | _ => exact hmade
  | writel addr value =>
    cases x with
    | writel addr' value' =>
      rintro ⟨rfl, rfl⟩
      exact absurd (henable (Or.inr ⟨addr, value, rfl⟩)) hx
    | _ => exact hmade
  | createIoQueue => exact absurd rfl hlast
  | pollReady => cases reply <;> exact hmade
  | clearIoSq slot => cases x <;> exact hmade
  | _ => exact hmade

omit h hsuffix in
theorem perform_establishes (hquiet : s = .ioCqHead → r.transport.draining = false)
    (reply : Reply) : Established d (r.perform reply s).1.transport s := by
  cases s with
  | clearIoCq slot =>
    intro hslot
    show (Function.update r.transport.driver.cqes slot ⟨0, 0, 0, 0, 0, 0⟩ slot).flags = 0
    rw [Function.update_self]
  | ioCqHead => exact ⟨rfl, hquiet rfl⟩
  | ctrlReset => exact ⟨rfl, rfl, rfl, rfl, rfl, rfl⟩
  | writel addr value =>
    rintro ⟨rfl, rfl⟩
    rfl
  | ioSqTail => exact rfl
  | ioCqPhase => exact rfl
  | _ => trivial

theorem Stage.perform (hquiet : s = .ioCqHead → r.transport.draining = false)
    (hlast : s ≠ .createIoQueue) (reply : Reply) :
    Stage d (r.perform reply s).1.transport rest := by
  obtain ⟨hdepth, hrequests, -, -⟩ := perform_frame r reply s
  have hfree : ∀ tag, ((r.perform reply s).1.transport.driver.requests tag).rq = none := by
    rw [hrequests]
    exact h.free
  refine ⟨hdepth.trans h.depth, hfree, fun x hx => ?_⟩
  · by_cases heq : x = s
    · rw [heq]
      exact perform_establishes hquiet reply
    · exact h.perform_keeps hsuffix hlast reply fun hmem =>
        (List.mem_cons.mp hmem).elim heq hx

end Steps

/-- The last step succeeds only when the device has created the queue. -/
theorem createIoqAccepted_of_success (h : r.createdBy.status = .success) :
    Qemu.createIoqAccepted
      (openflashCreateIoQueue r.transport.driver.depth r.dma.ioSq r.dma.ioCq) := by
  by_contra hnot
  have hstatus : r.createdBy.status = .invalidField := by
    show (Qemu.executeCreateIoq _ _ _).status = _
    rw [Qemu.executeCreateIoq, if_neg hnot]
  rw [hstatus] at h
  cases h

/-- The state that a reset leaves when it returns zero. -/
structure Rebuilt (d : ℕ) (r : Recovery) : Prop where
  inv : r.transport.Inv d
  accepted : r.transport.accepted = []
  sqAddr : (r.transport.device.queues 1).sqAddr = r.dma.ioSq
  cqAddr : (r.transport.device.queues 1).cqAddr = r.dma.ioCq

theorem Stage.rebuilt (h : Stage d r.transport [.createIoQueue]) (hd : 2 ≤ d ∧ d < 2 ^ 16)
    {reply : Reply} (hok : (r.perform reply .createIoQueue).2 = none) :
    Rebuilt d (r.perform reply .createIoQueue).1 := by
  cases reply with
  | fault executed e => cases hok
  | prompt =>
    have hsuccess : r.createdBy.status = .success := by
      by_contra hnot
      have herror : (r.perform .prompt .createIoQueue).2 = some .eio := if_pos hnot
      rw [hok] at herror
      cases herror
    have hstate : r.createdBy.state = Qemu.updateQueue r.transport.device 1
        (Qemu.createdQueue (openflashCreateIoQueue d r.dma.ioSq r.dma.ioCq)) := by
      have haccepted := createIoqAccepted_of_success hsuccess
      unfold createdBy
      rw [h.depth] at haccepted ⊢
      exact Transport.openflashExecute_createIoQueue haccepted _ _ _
    have hready : r.transport.device.status &&& Qemu.statusReady ≠ 0 := by
      rw [h.established (.writel 0x0010 1) (by simp) ⟨rfl, rfl⟩]
      decide
    have hhead := h.established .ioCqHead (by simp)
    have hagrees := Transport.agrees_of_created hd
      ⟨h.depth, h.established .ioSqTail (by simp), hhead.1, h.established .ioCqPhase (by simp)⟩
      (fun slot hslot => h.established (.clearIoCq slot) (by simp) hslot) h.free
      hready r.dma.ioSq r.dma.ioCq
    obtain ⟨hloop, hbells, hadvanced, haccepted, hexecuted, hdrained⟩ :=
      h.established .ctrlReset (by simp)
    have hdraining := hhead.2
    have htransport : (r.perform .prompt .createIoQueue).1.transport
        = Transport.start r.transport.capabilities r.transport.driver
          (Qemu.updateQueue r.transport.device 1
            (Qemu.createdQueue (openflashCreateIoQueue d r.dma.ioSq r.dma.ioCq))) := by
      simp only [Recovery.perform, setDevice, Transport.start, hstate, hloop, hbells, hadvanced,
        haccepted, hexecuted, hdrained, hdraining]
    constructor
    · rw [htransport]
      exact Transport.start_inv hagrees _
    · exact haccepted
    · rw [htransport]
      exact congrArg Qemu.OpenFlashQueue.sqAddr (Qemu.updateQueue_self ..)
    · rw [htransport]
      exact congrArg Qemu.OpenFlashQueue.cqAddr (Qemu.updateQueue_self ..)

end Recovery
end OpenFlash.Driver
