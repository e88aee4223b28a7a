import OpenFlash.Driver.OwnershipCalls

/-! The interrupt and the failure passes keep the ownership invariant, and with them every
run. -/
namespace OpenFlash.Driver
open Abi Support
namespace World
variable {w : World} {tag : ℕ} {call : Call}

/-- The request of a waiting call passes from its slot to the holder. -/
theorem take_inv (h : w.Inv) {x : Holder} (hx : w.held x = none)
    (hslot : (w.slot tag).rq ≠ none) : (w.take x tag).Inv := by
  have hrun := h.slots tag hslot
  obtain ⟨call, hcall, rfl, hended⟩ := hrun
  have hlive := h.live hcall hended
  have hempty : Idle (w.slot call.rq.tag) (w.Holds (w.owner call.rq.tag)) → False :=
    fun idle => hslot idle.empty
  generalize hp : call.phase = phase at hlive
  cases hlive with
  | mapping idle => exact (hempty idle).elim
  | storing idle => exact (hempty idle).elim
  | ready _ idle => exact (hempty idle).elim
  | publishing idle => exact (hempty idle).elim
  | unwinding idle => exact (hempty idle).elim
  | taken _ _ _ _ empty => exact absurd empty hslot
  | waiting committed complete armed owned owner untaken events =>
    have hheld : ∀ y t, (w.take x call.rq.tag).held y = some t ↔
        y = x ∧ t = ⟨w.owner call.rq.tag, call.rq.tag⟩ ∨ w.held y = some t := by
      intro y t
      simp only [take, setSlot, Function.update_apply]
      by_cases hy : y = x
      · simp [hy, hx, eq_comm]
      · simp [hy]
    have htaken : ∀ {y t}, (w.take x call.rq.tag).held y = some t →
        t.call = w.owner call.rq.tag → y = x ∧ t = ⟨w.owner call.rq.tag, call.rq.tag⟩ := by
      intro y t hy ht
      rcases (hheld y t).mp hy with hy | hy
      · exact hy
      · exact absurd ⟨y, t, hy, ht⟩ untaken
    have htouch : Touches (w.owner call.rq.tag) call.rq.tag w (w.take x call.rq.tag) := by
      apply Touches.setSlot
      refine { Touches.rfl (w.owner call.rq.tag) call.rq.tag w with held := ?_ }
      intro y t ht
      refine (hheld y t).trans ⟨?_, Or.inr⟩
      rintro (⟨-, rfl⟩ | hy)
      · exact absurd rfl ht
      · exact hy
    refine h.touch ⟨call, hcall, rfl, hended⟩ htouch hcall rfl (Or.inr ?_) ?_ ?_ ?_
    · have hslot' : (w.take x call.rq.tag).slot call.rq.tag
          = { w.slot call.rq.tag with rq := none } :=
        (slot_setSlot ..).trans (if_pos rfl)
      rw [hslot', hp]
      refine .taken committed complete ⟨armed.filled, armed.nrMapped, armed.dmaDir⟩ le_rfl rfl
        ⟨x, _, (hheld x _).mpr (Or.inl ⟨rfl, rfl⟩), rfl⟩ ?_
      rw [List.drop_length]
      exact events
    · intro hne
      exact absurd (by simp [take]) hne
    · intro y t hy ht
      rw [(htaken hy ht).2]
      exact ⟨rfl, hended⟩
    · intro y z t u hy hz ht hu
      rw [(htaken hy ht).1, (htaken hz hu).1]

/-- What a holder finds when it goes on with the request it took. -/
structure Handing (w : World) (t : Taken) (call : Call) (k : ℕ) : Prop where
  known : w.calls[t.call]? = some call
  tag : call.rq.tag = t.tag
  unended : ¬ w.Ended t.call
  committed : call.phase.Committed
  complete : call.rq.Complete
  armed : Armed call.rq (w.slot call.rq.tag) k
  bound : k ≤ call.rq.descs.length
  empty : (w.slot call.rq.tag).rq = none
  events : w.history t.call = maps (dirOf call.rq.op) call.rq.descs ++
    .accept :: unmaps (dirOf call.rq.op) (call.rq.descs.drop k)

theorem Inv.handing (h : w.Inv) {x : Holder} {t : Taken} (hx : w.held x = some t) :
    ∃ call k, w.Handing t call k := by
  obtain ⟨call, hcall, htag, hended⟩ := h.holders x t hx
  have hholds : w.Holds t.call := ⟨x, t, hx, rfl⟩
  have hlive := h.live hcall hended
  generalize hp : call.phase = phase at hlive
  cases hlive with
  | mapping idle => exact absurd hholds idle.untaken
  | storing idle => exact absurd hholds idle.untaken
  | ready _ idle => exact absurd hholds idle.untaken
  | publishing idle => exact absurd hholds idle.untaken
  | unwinding idle => exact absurd hholds idle.untaken
  | waiting _ _ _ _ _ untaken => exact absurd hholds untaken
  | @taken _ k committed complete armed bound empty holder events =>
    exact ⟨call, k, hcall, htag, hended, hp ▸ committed, complete, armed, bound, empty, events⟩

theorem release_unmap_inv (h : w.Inv) {x : Holder} {t : Taken} (hx : w.held x = some t) {k : ℕ}
    (hg : w.Handing t call (k + 1)) :
    ((w.setSlot call.rq.tag { w.slot call.rq.tag with nrMapped := k }).emit t.call
      (.unmap ((w.slot call.rq.tag).sgl k) (w.slot call.rq.tag).dmaDir)).Inv := by
  have hdesc : call.rq.descs[k]? = some (call.rq.descs.get ⟨k, hg.bound⟩) :=
    List.getElem?_eq_getElem hg.bound
  have hsgl := hg.armed.filled k _ hdesc
  rw [Nat.zero_add] at hsgl
  have hlt : 0 < call.rq.descs.length := Nat.lt_of_lt_of_le (Nat.succ_pos k) hg.bound
  have hdir := hg.armed.dmaDir (List.ne_nil_of_length_pos hlt)
  refine h.stay hg.known hg.unended (((Touches.rfl ..).setSlot _).emit _) hg.known rfl ?_
  refine .taken (k := k) hg.committed hg.complete ?_ (Nat.le_of_succ_le hg.bound) ?_
    ⟨x, t, hx, rfl⟩ ?_
  · show Armed _ ((World.setSlot _ _ _).slot _) _
    rw [slot_setSlot, if_pos rfl]
    exact ⟨hg.armed.filled, rfl, hg.armed.dmaDir⟩
  · show ((World.setSlot _ _ _).slot _).rq = none
    rw [slot_setSlot, if_pos rfl]
    exact hg.empty
  · rw [history_emit, if_pos rfl, unmaps_drop hdesc, hsgl, hdir]
    show w.history t.call ++ _ = _
    rw [hg.events, List.append_assoc]
    rfl

theorem release_finish_inv (h : w.Inv) {x : Holder} {t : Taken} (hx : w.held x = some t)
    (hg : w.Handing t call 0) (status : BlkStatus) :
    ({ w with held := Function.update w.held x none }.emit t.call (.finish status)).Inv := by
  have hheld : ∀ {y u}, Function.update w.held x none y = some u →
      w.held y = some u ∧ u.call ≠ t.call := by
    intro y u hy
    by_cases hyx : y = x
    · simp [hyx] at hy
    · rw [Function.update_of_ne hyx] at hy
      exact ⟨hy, fun heq => hyx (h.single y x u t hy hx heq)⟩
  have htouch : Touches t.call call.rq.tag w
      { w with held := Function.update w.held x none } := by
    refine { Touches.rfl t.call call.rq.tag w with held := ?_ }
    intro y u hu
    refine ⟨fun hy => (hheld hy).1, fun hy => ?_⟩
    have hyx : y ≠ x := by
      rintro rfl
      rw [hx] at hy
      exact hu (congrArg Taken.call (Option.some.inj hy)).symm
    exact (Function.update_of_ne hyx ..).trans hy
  refine h.touch ⟨call, hg.known, rfl, hg.unended⟩ (htouch.emit _) hg.known rfl (Or.inl ?_) ?_ ?_ ?_
  · have hevents : ({ w with held := Function.update w.held x none }.emit t.call
        (.finish status)).history t.call
          = acceptedHistory (dirOf call.rq.op) call.rq.descs status := by
      rw [history_emit, if_pos rfl]
      show w.history t.call ++ _ = _
      rw [hg.events, acceptedHistory, List.append_assoc]
      rfl
    exact .finished hg.committed hg.complete hevents
  · exact fun hne => absurd hg.empty hne
  · exact fun y u hy hu => absurd hu (hheld hy).2
  · exact fun y z u v hy _ hu => absurd hu (hheld hy).2

theorem release_inv (h : w.Inv) {x : Holder} {t : Taken} (hx : w.held x = some t)
    (status : BlkStatus) {moveOn : World → World} (hmove : ∀ v : World, v.Inv → (moveOn v).Inv) :
    (w.release x t status moveOn).Inv := by
  obtain ⟨call, k, hg⟩ := h.handing hx
  simp only [release, ← hg.tag, hg.armed.nrMapped]
  cases k with
  | succ k => exact release_unmap_inv h hx hg
  | zero => exact hmove _ (release_finish_inv h hx hg status)

theorem skipEntry_inv (w : World) (h : w.Inv) : w.skipEntry.Inv :=
  h.of_same rfl rfl rfl rfl rfl

theorem skipSlot_inv (p : ℕ) (pass : Pass) (w : World) (h : w.Inv) : (skipSlot p pass w).Inv :=
  h.of_same rfl rfl rfl rfl rfl

theorem drain_inv (h : w.Inv) : w.drain.Inv := by
  unfold drain
  dsimp only
  cases hheld : w.held .irq with
  | some t => exact release_inv h hheld _ skipEntry_inv
  | none =>
    by_cases hphase : phaseMatches w.queue
    · simp only [hphase, not_true_eq_false, if_false]
      split_ifs with hcid
      · exact skipEntry_inv w h
      · rw [not_or, not_or] at hcid
        exact take_inv h hheld hcid.2.2
    · simp only [hphase, not_false_eq_true, if_true]
      exact h

theorem fail_inv (h : w.Inv) (p : ℕ) : (w.fail p).Inv := by
  unfold fail
  cases hpass : w.passes p with
  | none => exact h
  | some pass =>
    cases hheld : w.held (.pass p) with
    | some t => exact release_inv h hheld _ (skipSlot_inv p pass)
    | none =>
      dsimp only
      split_ifs with htag hslot
      · exact h.of_same rfl rfl rfl rfl rfl
      · exact skipSlot_inv p pass w h
      · exact take_inv h hheld hslot

theorem step_inv (h : w.Inv) (action : Action) : (w.step action).Inv := by
  unfold step
  split_ifs with henabled
  · cases action with
    | queueRq rq =>
      apply queueRq_inv h
      rintro m ⟨c, hc, htag, hended⟩
      exact hended (henabled.2 m (List.getElem?_eq_some_iff.mp hc).1 (by simp [hc, htag]))
    | proceed n =>
      simp only [next]
      cases hcall : w.calls[n]? with
      | none => exact h
      | some call => exact proceed_inv h hcall
    | post slot cqe => exact h.of_same rfl rfl rfl rfl rfl
    | drain => exact drain_inv h
    | failStart p status => exact h.of_same rfl rfl rfl rfl rfl
    | fail p => exact fail_inv h p
  · exact h

theorem run_inv (h : w.Inv) (actions : List Action) : (w.run actions).Inv := by
  induction actions generalizing w with
  | nil => exact h
  | cons action rest ih => exact ih (step_inv h action)

theorem start_inv (capabilities : UInt64) (depth : ℕ) (sglDma : ℕ → UInt64) :
    (start capabilities depth sglDma).Inv := by
  constructor
  · exact fun _ _ => rfl
  · intro n call hcall
    cases hcall
  · exact fun tag hslot => absurd rfl hslot
  · intro x t hx
    cases hx
  · intro x y t u hx
    cases hx
  · rintro n m tag ⟨call, hcall, -⟩
    cases hcall

end World
end OpenFlash.Driver
