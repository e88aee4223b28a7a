import OpenFlash.Driver.Ownership
import OpenFlash.Support.Ring

/-! Every step of a call keeps the ownership invariant. -/
namespace OpenFlash.Driver
open Abi Support
namespace World
variable {w w' : World} {n tag : ℕ} {call : Call}

@[simp] theorem history_emit (w : World) (n m : ℕ) (event : Event) :
    (w.emit n event).history m
      = if m = n then w.history m ++ [event] else w.history m := by
  by_cases hm : m = n
  · simp [history, emit, hm]
  · simp [history, emit, hm, Ne.symm hm]

@[simp] theorem slot_setSlot (w : World) (tag other : ℕ) (request : OpenflashRequest) :
    (w.setSlot tag request).slot other = if other = tag then request else w.slot other := by
  simp only [setSlot, slot, OpenflashQueue.setRequest, Function.update_apply]

@[simp] theorem calls_setPhase (w : World) (n m : ℕ) (phase : Phase) :
    (w.setPhase n phase).calls[m]?
      = if m = n then w.calls[m]?.map fun call => { call with phase := phase }
        else w.calls[m]? := by
  by_cases hm : m = n
  · simp [setPhase, hm]
  · simp [setPhase, hm, Ne.symm hm]

theorem Touches.rfl (n tag : ℕ) (w : World) : Touches n tag w w :=
  ⟨Eq.refl _, fun _ _ => Eq.refl _, fun _ _ => Eq.refl _, fun _ _ => Eq.refl _,
    fun _ _ => Eq.refl _, fun _ _ _ => Iff.rfl⟩

theorem Touches.of_same (hcalls : w'.calls = w.calls) (hlog : w'.log = w.log)
    (hrequests : w'.queue.requests = w.queue.requests) (howner : w'.owner = w.owner)
    (hheld : w'.held = w.held) : Touches n tag w w' where
  length := by rw [hcalls]
  calls := fun _ _ => by rw [hcalls]
  history := fun _ _ => by simp only [World.history, hlog]
  slots := fun _ _ => by simp only [World.slot, hrequests]
  owners := fun _ _ => by rw [howner]
  held := fun _ _ _ => by rw [hheld]

theorem Touches.emit (h : Touches n tag w w') (event : Event) :
    Touches n tag w (w'.emit n event) :=
  { h with
    history := by
      intro m hm
      rw [history_emit, if_neg hm]
      exact h.history m hm }

theorem Touches.setSlot (h : Touches n tag w w') (request : OpenflashRequest) :
    Touches n tag w (w'.setSlot tag request) :=
  { h with
    slots := by
      intro other hother
      rw [slot_setSlot, if_neg hother]
      exact h.slots other hother }

theorem Touches.setPhase (h : Touches n tag w w') (phase : Phase) :
    Touches n tag w (w'.setPhase n phase) :=
  { h with
    length := by
      simp only [World.setPhase, List.length_modify]
      exact h.length
    calls := by
      intro m hm
      rw [calls_setPhase, if_neg hm]
      exact h.calls m hm }

theorem Inv.held_tag (h : w.Inv) (hcall : w.calls[n]? = some call) {x : Holder} {t : Taken}
    (hx : w.held x = some t) (htn : t.call = n) : t.tag = call.rq.tag := by
  obtain ⟨c, hc, htag, -⟩ := h.holders x t hx
  rw [htn, hcall] at hc
  cases hc
  exact htag.symm

/-- A step on a running call that leaves its request un-ended. -/
theorem Inv.stay (h : w.Inv) (hcall : w.calls[n]? = some call) (hrun : ¬ w.Ended n)
    (ht : Touches n call.rq.tag w w') {phase : Phase}
    (hcall' : w'.calls[n]? = some { call with phase := phase }) (hheld : w'.held = w.held)
    (hlive : Live call.rq (w'.history n) (w'.slot call.rq.tag) (w'.owner call.rq.tag = n)
      (w.Holds n) phase) : w'.Inv := by
  have hended : ¬ w'.Ended n := by simp [Ended, hlive.not_ends]
  refine h.touch ⟨call, hcall, rfl, hrun⟩ ht hcall' rfl (Or.inr ?_) ?_ ?_ ?_
  · simpa only [Holds, hheld] using hlive
  · exact fun hslot => ⟨hlive.owned hslot, hended⟩
  · intro x t hx htn
    exact ⟨h.held_tag hcall (hheld ▸ hx) htn, hended⟩
  · intro x y t u hx hy htn hun
    exact h.single x y t u (hheld ▸ hx) (hheld ▸ hy) (htn.trans hun.symm)

/-- A running call goes on to its next phase. -/
theorem Inv.advance (h : w.Inv) (hcall : w.calls[n]? = some call) (hrun : ¬ w.Ended n)
    (ht : Touches n call.rq.tag w w') (hcalls : w'.calls = w.calls) (hheld : w'.held = w.held)
    {phase : Phase} (hlive : Live call.rq (w'.history n) (w'.slot call.rq.tag)
      (w'.owner call.rq.tag = n) (w.Holds n) phase) : (w'.setPhase n phase).Inv := by
  refine h.stay hcall hrun (ht.setPhase phase) ?_ hheld hlive
  simp [hcalls, hcall]

/-- Before it publishes, a call has its request to itself. -/
theorem Inv.uncommitted (h : w.Inv) (hcall : w.calls[n]? = some call) {phase : Phase}
    (hphase : call.phase = phase) (hcommitted : ¬ phase.Committed)
    (hreturned : ∀ status, phase ≠ .returned status) :
    ¬ w.Ended n ∧ Live call.rq (w.history n) (w.slot call.rq.tag) (w.owner call.rq.tag = n)
      (w.Holds n) phase := by
  subst hphase
  rcases h.calls n call hcall with hdone | hlive
  · generalize call.phase = phase at *
    cases hdone with
    | finished committed => exact absurd committed hcommitted
    | rejected => exact absurd rfl (hreturned _)
  · exact ⟨by simp [Ended, hlive.not_ends], hlive⟩

/-- What the invariant does not speak of may change. -/
theorem Inv.of_same (h : w.Inv) (hcalls : w'.calls = w.calls) (hlog : w'.log = w.log)
    (hrequests : w'.queue.requests = w.queue.requests) (howner : w'.owner = w.owner)
    (hheld : w'.held = w.held) : w'.Inv := by
  obtain ⟨_, ⟨_, _, _, _, _, _, _, requests⟩, owner, _, calls, held, _, log⟩ := w'
  dsimp only at hcalls hlog hrequests howner hheld
  subst hcalls hlog hrequests howner hheld
  exact ⟨h.logged, h.calls, h.slots, h.holders, h.single, h.tags⟩

section Proceed
variable (h : w.Inv) (hcall : w.calls[n]? = some call)
include h hcall

theorem proceed_mapping {k : ℕ} (hphase : call.phase = .mapping k) : (w.proceed n call).Inv := by
  obtain ⟨hrun, hlive⟩ := h.uncommitted hcall hphase id nofun
  simp only [proceed, hphase]
  cases hlive with
  | ready before => simp at before
  | waiting committed => cases committed
  | taken committed => cases committed
  | mapping idle data bound filled events =>
    have hget := descs_getElem? data bound
    have hfull : call.rq.descs[k]? = none → k = call.rq.descs.length := by
      intro hnone
      have := List.getElem?_eq_none_iff.mp hnone
      omega
    cases hk : call.rq.segments[k]? with
    | none =>
      have hall := hfull (by rw [hget, hk]; rfl)
      subst hall
      rw [List.take_length] at filled events
      refine h.advance hcall hrun (Touches.rfl ..) rfl rfl ?_
      exact .ready (by simp) idle (Request.complete_of_end hk) filled events
    | some bvec =>
      cases hm : bvec.mapping with
      | none =>
        have hall := hfull (by rw [hget, hk]; simp [hm])
        subst hall
        rw [List.take_length] at filled events
        simp only [hm]
        refine h.advance hcall hrun (Touches.rfl ..) rfl rfl ?_
        refine .unwinding idle (by decide) le_rfl filled ?_
        simpa [unmaps] using events
      | some dma =>
        have hdesc : call.rq.descs[k]? = some ⟨dma, bvec.length⟩ := by
          rw [hget, hk]
          simp [hm]
        simp only [hm]
        refine h.advance hcall hrun ((Touches.rfl ..).emit _) rfl rfl ?_
        refine .storing idle data hdesc filled ?_
        rw [history_emit, if_pos rfl, events, maps_take_succ hdesc]

theorem proceed_storing {k : ℕ} {desc : OpenFlashSglDesc}
    (hphase : call.phase = .storing k desc) : (w.proceed n call).Inv := by
  obtain ⟨hrun, hlive⟩ := h.uncommitted hcall hphase id nofun
  simp only [proceed, hphase]
  cases hlive with
  | ready before => simp at before
  | waiting committed => cases committed
  | taken committed => cases committed
  | storing idle data mapped filled events =>
    have hk := (List.getElem?_eq_some_iff.mp mapped).1
    refine h.advance hcall hrun ((Touches.rfl ..).setSlot _) rfl rfl ?_
    rw [slot_setSlot, if_pos rfl]
    exact .mapping ⟨idle.empty, idle.untaken⟩ data hk (filled.update mapped) events

theorem proceed_unwinding {k : ℕ} {status : BlkStatus}
    (hphase : call.phase = .unwinding (k + 1) status) : (w.proceed n call).Inv := by
  obtain ⟨hrun, hlive⟩ := h.uncommitted hcall hphase id nofun
  simp only [proceed, hphase]
  cases hlive with
  | ready before => simp at before
  | waiting committed => cases committed
  | taken committed => cases committed
  | @unwinding _ _ descs idle failed bound filled events =>
    have hk : descs[k]? = some (descs.get ⟨k, bound⟩) := List.getElem?_eq_getElem bound
    have hsgl := filled k _ hk
    rw [Nat.zero_add] at hsgl
    refine h.advance hcall hrun ((Touches.rfl ..).emit _) rfl rfl ?_
    refine .unwinding idle failed (Nat.le_of_succ_le bound) filled ?_
    rw [history_emit, if_pos rfl, events, unmaps_drop hk, hsgl, List.append_assoc]

theorem proceed_submitting {k : ℕ} (hphase : call.phase = .submitting k) :
    (w.proceed n call).Inv := by
  obtain ⟨hrun, hlive⟩ := h.uncommitted hcall hphase id nofun
  obtain ⟨rfl, idle, complete, filled, events⟩ := hlive.ready_of (Or.inl rfl)
  simp only [proceed, hphase]
  by_cases hlock : w.lock ≠ none
  · rw [if_pos hlock]
    exact h
  · rw [if_neg hlock, if_neg (not_not.mpr idle.empty)]
    apply h.advance hcall hrun
    · exact .of_same rfl rfl rfl rfl rfl
    · rfl
    · rfl
    exact .ready (by simp) idle complete filled events

theorem proceed_filling {k : ℕ} (hphase : call.phase = .filling k) : (w.proceed n call).Inv := by
  obtain ⟨hrun, hlive⟩ := h.uncommitted hcall hphase id nofun
  obtain ⟨rfl, idle, complete, filled, events⟩ := hlive.ready_of (Or.inr (Or.inl rfl))
  simp only [proceed, hphase]
  by_cases hfua : call.rq.fua = true ∧ w.capabilities &&& capFua = 0
  · rw [if_pos hfua]
    apply h.advance hcall hrun
    · exact .of_same rfl rfl rfl rfl rfl
    · rfl
    · rfl
    refine .unwinding idle (by decide) le_rfl filled ?_
    rw [List.drop_length]
    exact events.trans (List.append_nil _).symm
  · rw [if_neg hfua]
    apply h.advance hcall hrun
    · exact .of_same rfl rfl rfl rfl rfl
    · rfl
    · rfl
    exact .ready (by simp) idle complete filled events

theorem proceed_arming {k : ℕ} (hphase : call.phase = .arming k) : (w.proceed n call).Inv := by
  obtain ⟨hrun, hlive⟩ := h.uncommitted hcall hphase id nofun
  obtain ⟨rfl, idle, complete, filled, events⟩ := hlive.ready_of (Or.inr (Or.inr rfl))
  simp only [proceed, hphase]
  apply h.advance hcall hrun
  · apply Touches.setSlot
    exact .of_same rfl rfl rfl rfl rfl
  · rfl
  · rfl
  rw [slot_setSlot, if_pos rfl]
  refine .publishing ⟨idle.empty, idle.untaken⟩ complete ⟨filled, rfl, fun hne => ?_⟩ events
  exact if_pos (by simpa using hne)

theorem proceed_publishing (hphase : call.phase = .publishing) : (w.proceed n call).Inv := by
  obtain ⟨hrun, hlive⟩ := h.uncommitted hcall hphase id nofun
  simp only [proceed, hphase]
  cases hlive with
  | ready before => simp at before
  | waiting committed => cases committed
  | taken committed => cases committed
  | publishing idle complete armed events =>
    have htouch : Touches n call.rq.tag w
        { w with owner := Function.update w.owner call.rq.tag n } :=
      { Touches.rfl n call.rq.tag w with
        owners := fun other hother => Function.update_of_ne hother .. }
    refine h.advance hcall hrun ((htouch.setSlot _).emit _) rfl rfl ?_
    refine .waiting trivial complete ?_ ?_ ?_ idle.untaken ?_
    · show Armed _ ((World.setSlot _ _ _).slot _) _
      rw [slot_setSlot, if_pos rfl]
      exact ⟨armed.filled, armed.nrMapped, armed.dmaDir⟩
    · show ((World.setSlot _ _ _).slot _).rq ≠ none
      rw [slot_setSlot, if_pos rfl]
      simp
    · exact Function.update_self ..
    · rw [history_emit, if_pos rfl]
      exact congrArg (· ++ [Event.accept]) events

theorem proceed_rejecting {status : BlkStatus} (hphase : call.phase = .unwinding 0 status) :
    (w.proceed n call).Inv := by
  obtain ⟨hrun, hlive⟩ := h.uncommitted hcall hphase id nofun
  simp only [proceed, hphase]
  cases hlive with
  | ready before => simp at before
  | waiting committed => cases committed
  | taken committed => cases committed
  | @unwinding _ _ descs idle failed bound filled events =>
    have hcall' : ((w.emit n (.reject status)).setPhase n (.returned status)).calls[n]?
        = some { call with phase := .returned status } := by
      simp [emit, hcall]
    refine h.touch ⟨call, hcall, rfl, hrun⟩ (((Touches.rfl ..).emit _).setPhase _) hcall' rfl
      (Or.inl ?_) ?_ ?_ ?_
    · have hevents : (w.emit n (.reject status)).history n
          = rejectedHistory (dirOf call.rq.op) descs status := by
        rw [history_emit, if_pos rfl, events, rejectedHistory, List.append_assoc]
        rfl
      exact .rejected failed hevents
    · exact fun hslot => absurd idle.empty hslot
    · exact fun x t hx htn => absurd ⟨x, t, hx, htn⟩ idle.untaken
    · exact fun x y t u hx hy htn hun => absurd ⟨x, t, hx, htn⟩ idle.untaken

end Proceed

theorem setPhase_inv (h : w.Inv) (hcall : w.calls[n]? = some call)
    (hphase : call.phase.Committed) {phase : Phase} (hphase' : phase.Committed) :
    (w.setPhase n phase).Inv := by
  have hrun : ∀ m tag, (w.setPhase n phase).Running m tag ↔ w.Running m tag := by
    intro m tag
    show (∃ c, (w.setPhase n phase).calls[m]? = some c ∧ c.rq.tag = tag ∧ ¬ w.Ended m) ↔ _
    simp only [Running, calls_setPhase]
    by_cases hm : m = n
    · subst hm
      simp [hcall]
    · simp only [if_neg hm]
  constructor
  · intro m hm
    exact h.logged m (by simpa [setPhase] using hm)
  · intro m c hc
    rw [calls_setPhase] at hc
    by_cases hm : m = n
    · subst hm
      obtain rfl : { call with phase := phase } = c := by simpa [hcall] using hc
      rcases h.calls m call hcall with hdone | hlive
      · exact Or.inl (hdone.shift hphase hphase')
      · exact Or.inr (hlive.shift hphase hphase')
    · rw [if_neg hm] at hc
      exact h.calls m c hc
  · exact fun tag hslot => (hrun _ _).mpr (h.slots tag hslot)
  · exact fun x t hx => (hrun _ _).mpr (h.holders x t hx)
  · exact h.single
  · exact fun a b tag ha hb => h.tags a b tag ((hrun _ _).mp ha) ((hrun _ _).mp hb)

theorem proceed_inv (h : w.Inv) (hcall : w.calls[n]? = some call) : (w.proceed n call).Inv := by
  cases hphase : call.phase with
  | mapping k => exact proceed_mapping h hcall hphase
  | storing k desc => exact proceed_storing h hcall hphase
  | submitting k => exact proceed_submitting h hcall hphase
  | filling k => exact proceed_filling h hcall hphase
  | arming k => exact proceed_arming h hcall hphase
  | publishing => exact proceed_publishing h hcall hphase
  | unwinding k status =>
    cases k with
    | zero => exact proceed_rejecting h hcall hphase
    | succ k => exact proceed_unwinding h hcall hphase
  | advancing =>
    have hmoved : Inv { w with
        queue := { w.queue with sqTail := (w.queue.sqTail + 1) % w.queue.depth } } :=
      h.of_same rfl rfl rfl rfl rfl
    simp only [proceed, hphase]
    exact setPhase_inv hmoved hcall (by simp [hphase, Phase.Committed]) trivial
  | ringing =>
    have hunlocked : Inv { w with lock := none } :=
      h.of_same rfl rfl rfl rfl rfl
    simp only [proceed, hphase]
    exact setPhase_inv hunlocked hcall (by simp [hphase, Phase.Committed]) trivial
  | returned status =>
    simp only [proceed, hphase]
    exact h

theorem entry_live (depth : ℕ) (rq : Request) {slot : OpenflashRequest} {mine held : Prop}
    (hidle : Idle slot held) : Live rq [] slot mine held (entry depth rq) := by
  have hnone : ∀ sgl, Filled sgl 0 [] := by
    intro sgl i d hd
    cases hd
  have hreject : ∀ {status : BlkStatus}, status ≠ .ok →
      Live rq [] slot mine held (.unwinding 0 status) := fun hs =>
    .unwinding hidle hs (Nat.zero_le _) (hnone _) rfl
  have hplain : rq.op = .flush ∨ rq.op = .discard →
      Live rq [] slot mine held (.submitting 0) := by
    intro hop
    have hdescs : rq.descs = [] := by rcases hop with hop | hop <;> simp [Request.descs, hop]
    refine .ready (by simp [hdescs]) hidle ?_ (by simpa [hdescs] using hnone _)
      (by simp [hdescs, maps])
    rcases hop with hop | hop <;> simp [Request.Complete, hop]
  have hsegments : rq.op = .read ∨ rq.op = .write →
      Live rq [] slot mine held (if rq.bytes = 0 ∨ maxSglEntries < rq.nrPhysSegments then
        .unwinding 0 .ioErr else .mapping 0) := by
    intro hop
    split_ifs
    · exact hreject (by decide)
    · exact .mapping hidle hop (Nat.zero_le _) (hnone _) rfl
  unfold entry
  dsimp only
  by_cases hbad : rq.pos % 8 ≠ 0 ∨ rq.bytes % 4096 ≠ 0 ∨
      depth ≤ (UInt16.ofNat (rq.tag + 1)).toNat
  · rw [if_pos hbad]
    exact hreject (by decide)
  · rw [if_neg hbad]
    by_cases hfua : rq.fua = true ∧ rq.op ≠ .write
    · rw [if_pos hfua]
      exact hreject (by decide)
    · rw [if_neg hfua]
      cases hop : rq.op with
      | read => exact hsegments (Or.inl hop)
      | write => exact hsegments (Or.inr hop)
      | flush => exact hplain (Or.inl hop)
      | discard => exact hplain (Or.inr hop)
      | other => exact hreject (by decide)

/-- A new call finds the slot of its tag empty and nobody at work on it. -/
theorem queueRq_inv (h : w.Inv) {rq : Request} (hfresh : ∀ m, ¬ w.Running m rq.tag) :
    (w.queueRq rq).Inv := by
  have hold : ∀ {m c}, (w.queueRq rq).calls[m]? = some c →
      w.calls[m]? = some c ∨ m = w.calls.length ∧ c = ⟨rq, entry w.queue.depth rq⟩ := by
    intro m c hc
    rcases Ring.getElem?_append_singleton hc with hc | ⟨hm, hcall⟩
    · exact Or.inl hc
    · exact Or.inr ⟨hm, hcall.symm⟩
  have hkeep : ∀ {m tag}, w.Running m tag → (w.queueRq rq).Running m tag := by
    rintro m tag ⟨c, hc, hrest⟩
    refine ⟨c, ?_, hrest⟩
    have hm := (List.getElem?_eq_some_iff.mp hc).1
    exact (List.getElem?_append_left hm).trans hc
  have hnew : ∀ {m tag}, (w.queueRq rq).Running m tag →
      w.Running m tag ∨ m = w.calls.length ∧ tag = rq.tag := by
    rintro m tag ⟨c, hc, htag, hended⟩
    rcases hold hc with hc | ⟨hm, rfl⟩
    · exact Or.inl ⟨c, hc, htag, hended⟩
    · exact Or.inr ⟨hm, htag.symm⟩
  have hunheld : ¬ w.Holds w.calls.length := by
    rintro ⟨x, t, hx, ht⟩
    obtain ⟨c, hc, -⟩ := h.holders x t hx
    have := (List.getElem?_eq_some_iff.mp hc).1
    omega
  constructor
  · intro m hm
    exact h.logged m (by simp [queueRq] at hm; omega)
  · intro m c hc
    rcases hold hc with hc | ⟨rfl, rfl⟩
    · exact h.calls m c hc
    · right
      have hempty : (w.slot rq.tag).rq = none := by
        by_contra hslot
        exact hfresh _ (h.slots _ hslot)
      show Live rq (w.history _) (w.slot rq.tag) _ (w.Holds _) _
      rw [h.logged _ le_rfl]
      exact entry_live _ rq ⟨hempty, hunheld⟩
  · exact fun tag hslot => hkeep (h.slots tag hslot)
  · exact fun x t hx => hkeep (h.holders x t hx)
  · exact h.single
  · intro a b tag ha hb
    rcases hnew ha with ha | ⟨hal, htag⟩ <;> rcases hnew hb with hb | ⟨hbl, htag'⟩
    · exact h.tags a b tag ha hb
    · exact absurd (htag' ▸ ha) (hfresh a)
    · exact absurd (htag ▸ hb) (hfresh b)
    · exact hal.trans hbl.symm

end World
end OpenFlash.Driver
