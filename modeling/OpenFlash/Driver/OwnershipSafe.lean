import OpenFlash.Driver.OwnershipSteps

/-! What the ownership invariant means for whole runs: histories are balanced, a failed call
leaves the queue alone, and a slot is free whenever a call tests it. -/
namespace OpenFlash.Driver
open Abi Support

theorem unmaps_split (dir : DmaDir) (descs : List OpenFlashSglDesc) (k : ℕ) :
    unmaps dir descs = unmaps dir (descs.drop k) ++ unmaps dir (descs.take k) := by
  simp only [unmaps, ← List.map_append, ← List.reverse_append, List.take_append_drop]

theorem maps_append_accept (dir : DmaDir) (descs : List OpenFlashSglDesc) (k : ℕ) :
    maps dir descs ++ .accept :: unmaps dir (descs.drop k) <+: acceptedHistory dir descs .ok := by
  refine ⟨unmaps dir (descs.take k) ++ [.finish .ok], ?_⟩
  rw [acceptedHistory, unmaps_split dir descs k]
  simp only [List.append_assoc, List.cons_append]

theorem maps_append_unmaps (dir : DmaDir) (descs : List OpenFlashSglDesc) (k : ℕ) :
    maps dir descs ++ unmaps dir (descs.drop k) <+: rejectedHistory dir descs .ok := by
  refine ⟨unmaps dir (descs.take k) ++ [.reject .ok], ?_⟩
  rw [rejectedHistory, unmaps_split dir descs k]
  simp only [List.append_assoc]

theorem maps_take (dir : DmaDir) (descs : List OpenFlashSglDesc) (k : ℕ) :
    maps dir (descs.take k) <+: acceptedHistory dir descs .ok :=
  ((List.take_prefix k descs).map _).trans (List.prefix_append _ _)

/-- A call that is under way has done the first part of a balanced history. -/
theorem Live.balanced {rq : Request} {history : List Event} {slot : OpenflashRequest}
    {mine held : Prop} {phase : Phase} (h : Live rq history slot mine held phase) :
    ∃ descs status, history <+: acceptedHistory (dirOf rq.op) descs status ∨
      history <+: rejectedHistory (dirOf rq.op) descs status := by
  have hall := maps_take (dirOf rq.op) rq.descs rq.descs.length
  rw [List.take_length] at hall
  cases h with
  | mapping _ _ _ _ events => exact ⟨rq.descs, .ok, Or.inl (events ▸ maps_take _ _ _)⟩
  | storing _ _ _ _ events => exact ⟨rq.descs, .ok, Or.inl (events ▸ maps_take _ _ _)⟩
  | ready _ _ _ _ events => exact ⟨rq.descs, .ok, Or.inl (events ▸ hall)⟩
  | publishing _ _ _ events => exact ⟨rq.descs, .ok, Or.inl (events ▸ hall)⟩
  | @unwinding _ _ descs _ _ _ _ events =>
    exact ⟨descs, .ok, Or.inr (events ▸ maps_append_unmaps _ _ _)⟩
  | waiting _ _ _ _ _ _ events =>
    have hwaits := maps_append_accept (dirOf rq.op) rq.descs rq.descs.length
    rw [List.drop_length] at hwaits
    exact ⟨rq.descs, .ok, Or.inl (events ▸ hwaits)⟩
  | taken _ _ _ _ _ _ events =>
    exact ⟨rq.descs, .ok, Or.inl (events ▸ maps_append_accept _ _ _)⟩

theorem Done.balanced {rq : Request} {history : List Event} {phase : Phase}
    (h : Done rq history phase) :
    ∃ descs status, history <+: acceptedHistory (dirOf rq.op) descs status ∨
      history <+: rejectedHistory (dirOf rq.op) descs status := by
  cases h with
  | @finished _ status _ _ events =>
    exact ⟨rq.descs, status, Or.inl (events ▸ List.prefix_rfl)⟩
  | @rejected status descs _ events =>
    exact ⟨descs, status, Or.inr (events ▸ List.prefix_rfl)⟩

theorem Done.finish_mem {rq : Request} {history : List Event} {phase : Phase}
    (h : Done rq history phase) {status : BlkStatus} (hmem : .finish status ∈ history) :
    rq.Complete ∧ history = acceptedHistory (dirOf rq.op) rq.descs status := by
  cases h with
  | finished _ complete events =>
    subst events
    simp only [acceptedHistory, maps, unmaps, List.mem_append, List.mem_map, List.mem_cons,
      reduceCtorEq, and_false, exists_false, false_or, Event.finish.injEq, List.not_mem_nil,
      or_false] at hmem
    subst hmem
    exact ⟨complete, rfl⟩
  | rejected _ events =>
    subst events
    simp [rejectedHistory, maps, unmaps] at hmem

namespace World
variable {w w' : World} {n tag : ℕ} {call : Call}

/-- The fields of the queue that a rejected call has to leave alone. -/
def Untouched (w w' : World) : Prop :=
  (∀ tag, (w'.slot tag).rq = (w.slot tag).rq ∧ (w'.slot tag).nrMapped = (w.slot tag).nrMapped) ∧
    w'.queue.sqTail = w.queue.sqTail

/-- A step of a call binds it, or leaves those fields alone. -/
theorem proceed_untouched (hcall : w.calls[n]? = some call) :
    (∃ c, (w.proceed n call).calls[n]? = some c ∧ c.phase.Bound) ∨
      ¬ call.phase.Bound ∧ Untouched w (w.proceed n call) := by
  have hbind : ∀ {v : World} {phase : Phase}, v.calls = w.calls → phase.Bound →
      ∃ c, (v.setPhase n phase).calls[n]? = some c ∧ c.phase.Bound := by
    intro v phase hcalls hbound
    exact ⟨{ call with phase := phase }, by simp [hcalls, hcall], hbound⟩
  unfold proceed
  dsimp only
  cases hphase : call.phase with
  | mapping k =>
    refine Or.inr ⟨id, ?_⟩
    dsimp only
    split
    · exact ⟨fun _ => ⟨rfl, rfl⟩, rfl⟩
    · split <;> exact ⟨fun _ => ⟨rfl, rfl⟩, rfl⟩
  | storing k desc =>
    refine Or.inr ⟨id, fun tag => ?_, rfl⟩
    show ((World.setSlot _ _ _).slot tag).rq = _ ∧ ((World.setSlot _ _ _).slot tag).nrMapped = _
    rw [slot_setSlot]
    split_ifs with htag
    · rw [htag]
      exact ⟨rfl, rfl⟩
    · exact ⟨rfl, rfl⟩
  | submitting k =>
    refine Or.inr ⟨id, ?_⟩
    dsimp only
    split_ifs <;> exact ⟨fun _ => ⟨rfl, rfl⟩, rfl⟩
  | filling k =>
    refine Or.inr ⟨id, ?_⟩
    dsimp only
    split_ifs <;> exact ⟨fun _ => ⟨rfl, rfl⟩, rfl⟩
  | arming k => exact Or.inl (hbind rfl trivial)
  | publishing => exact Or.inl (hbind rfl trivial)
  | advancing => exact Or.inl (hbind rfl trivial)
  | ringing => exact Or.inl (hbind rfl trivial)
  | unwinding k status =>
    refine Or.inr ⟨id, ?_⟩
    cases k <;> exact ⟨fun _ => ⟨rfl, rfl⟩, rfl⟩
  | returned status =>
    by_cases hok : status = .ok
    · exact Or.inl ⟨call, hcall, by rw [hphase, hok]; trivial⟩
    · refine Or.inr ⟨?_, fun _ => ⟨rfl, rfl⟩, rfl⟩
      cases status <;> first | exact absurd rfl hok | exact id

theorem proceed_calls (m : ℕ) (c : Call) (hne : n ≠ m) :
    (w.proceed m c).calls[n]? = w.calls[n]? := by
  have hother : ∀ {v : World} {phase : Phase}, v.calls = w.calls →
      (v.setPhase m phase).calls[n]? = w.calls[n]? := by
    intro v phase hcalls
    rw [calls_setPhase, if_neg hne, hcalls]
  unfold proceed
  dsimp only
  repeat' split
  all_goals first | rfl | exact hother rfl

theorem release_calls (x : Holder) (t : Taken) (status : BlkStatus) {moveOn : World → World}
    (hmove : ∀ v : World, (moveOn v).calls = v.calls) :
    (w.release x t status moveOn).calls = w.calls := by
  unfold release
  dsimp only
  cases (w.slot t.tag).nrMapped with
  | zero => exact hmove _
  | succ k => rfl

theorem drain_calls (w : World) : w.drain.calls = w.calls := by
  unfold drain
  dsimp only
  cases w.held .irq with
  | some t => exact release_calls _ _ _ fun _ => rfl
  | none =>
    dsimp only
    split_ifs <;> rfl

theorem fail_calls (w : World) (p : ℕ) : (w.fail p).calls = w.calls := by
  unfold fail
  cases w.passes p with
  | none => rfl
  | some pass =>
    cases w.held (.pass p) with
    | some t => exact release_calls _ _ _ fun _ => rfl
    | none =>
      dsimp only
      split_ifs <;> rfl

/-- Nothing unbinds a call. -/
theorem step_bound (hcall : w.calls[n]? = some call) (hbound : call.phase.Bound)
    (action : Action) : ∃ c, (w.step action).calls[n]? = some c ∧ c.phase.Bound := by
  unfold step
  split_ifs
  · cases action with
    | queueRq rq =>
      have hn := (List.getElem?_eq_some_iff.mp hcall).1
      exact ⟨call, (List.getElem?_append_left hn).trans hcall, hbound⟩
    | proceed m =>
      simp only [next]
      cases hm : w.calls[m]? with
      | none => exact ⟨call, hcall, hbound⟩
      | some c =>
        by_cases hmn : m = n
        · subst hmn
          obtain rfl : call = c := Option.some.inj (hcall.symm.trans hm)
          rcases proceed_untouched hcall with hb | ⟨hb, -⟩
          · exact hb
          · exact absurd hbound hb
        · exact ⟨call, (proceed_calls m c (Ne.symm hmn)).trans hcall, hbound⟩
    | post slot cqe => exact ⟨call, hcall, hbound⟩
    | drain => exact ⟨call, (drain_calls w).symm ▸ hcall, hbound⟩
    | failStart p status => exact ⟨call, hcall, hbound⟩
    | fail p => exact ⟨call, (fail_calls w p).symm ▸ hcall, hbound⟩
  · exact ⟨call, hcall, hbound⟩

theorem run_bound (hcall : w.calls[n]? = some call) (hbound : call.phase.Bound)
    (actions : List Action) : ∃ c, (w.run actions).calls[n]? = some c ∧ c.phase.Bound := by
  induction actions generalizing w call with
  | nil => exact ⟨call, hcall, hbound⟩
  | cons action rest ih =>
    obtain ⟨c, hc, hb⟩ := step_bound hcall hbound action
    exact ih hc hb

/-- A call that fails in the end has left those fields alone in all its steps. -/
theorem step_untouched {after : List Action}
    (hcall : ((w.step (.proceed n)).run after).calls[n]? = some call)
    (hfails : ¬ call.phase.Bound) : Untouched w (w.step (.proceed n)) := by
  have hstep : w.step (.proceed n) = w.next (.proceed n) := if_pos trivial
  rw [hstep] at hcall ⊢
  simp only [next] at hcall ⊢
  cases hc : w.calls[n]? with
  | none => exact ⟨fun _ => ⟨rfl, rfl⟩, rfl⟩
  | some c =>
    rw [hc] at hcall
    rcases proceed_untouched hc with ⟨c', hc', hbound⟩ | ⟨-, hsame⟩
    · obtain ⟨e, he, hebound⟩ := run_bound hc' hbound after
      rw [he] at hcall
      cases hcall
      exact absurd hebound hfails
    · exact hsame

structure OwnershipSafe (w : World) (actions : List Action) : Prop where
  /-- Every mapping and every end belongs to a call. -/
  known : ∀ n, (w.run actions).calls.length ≤ n → (w.run actions).history n = []
  /-- Nothing is unmapped that is not mapped, nothing is unmapped or ended twice, and
  nothing is ended before it is unmapped. -/
  balanced : ∀ n call, (w.run actions).calls[n]? = some call → ∃ descs status,
    (w.run actions).history n <+: acceptedHistory (dirOf call.rq.op) descs status ∨
      (w.run actions).history n <+: rejectedHistory (dirOf call.rq.op) descs status
  /-- An accepted request that is ended had all its segments mapped and unmapped. -/
  finished : ∀ n call status, (w.run actions).calls[n]? = some call →
    .finish status ∈ (w.run actions).history n → call.rq.Complete ∧
      (w.run actions).history n = acceptedHistory (dirOf call.rq.op) call.rq.descs status
  rejected : ∀ n call status, (w.run actions).calls[n]? = some call →
    call.phase = .returned status → status ≠ .ok → ∃ descs,
      (w.run actions).history n = rejectedHistory (dirOf call.rq.op) descs status
  untouched : ∀ n call status, (w.run actions).calls[n]? = some call →
    call.phase = .returned status → status ≠ .ok → ∀ before action after,
      actions = before ++ action :: after →
      (action = .proceed n ∨ ∃ rq, action = .queueRq rq) →
      Untouched (w.run before) ((w.run before).step action)
  /-- The test of `request->rq` under the lock never finds a request. -/
  free : ∀ (n : ℕ) (call : Call) (k : ℕ), (w.run actions).calls[n]? = some call →
    call.phase = .submitting k → ((w.run actions).slot call.rq.tag).rq = none

theorem Inv.finish_mem (h : w.Inv) (hcall : w.calls[n]? = some call) {status : BlkStatus}
    (hmem : .finish status ∈ w.history n) :
    call.rq.Complete ∧ w.history n = acceptedHistory (dirOf call.rq.op) call.rq.descs status := by
  rcases h.calls n call hcall with hdone | hlive
  · exact hdone.finish_mem hmem
  · have hends : (w.history n).any Event.ends = true := List.any_eq_true.mpr ⟨_, hmem, rfl⟩
    rw [hlive.not_ends] at hends
    cases hends

theorem Inv.returned (h : w.Inv) (hcall : w.calls[n]? = some call) {status : BlkStatus}
    (hphase : call.phase = .returned status) (hfails : status ≠ .ok) :
    ∃ descs, w.history n = rejectedHistory (dirOf call.rq.op) descs status := by
  have hcommitted : ¬ (Phase.returned status).Committed := by
    cases status <;> first | exact absurd rfl hfails | exact id
  have htracks := h.calls n call hcall
  unfold Tracks at htracks
  rw [hphase] at htracks
  rcases htracks with hdone | hlive
  · cases hdone with
    | finished committed => exact absurd committed hcommitted
    | @rejected _ descs _ events => exact ⟨descs, events⟩
  · cases hlive with
    | ready before => simp at before
    | waiting committed => exact absurd committed hcommitted
    | taken committed => exact absurd committed hcommitted

theorem Inv.submitting_free (h : w.Inv) (hcall : w.calls[n]? = some call) {k : ℕ}
    (hphase : call.phase = .submitting k) : (w.slot call.rq.tag).rq = none := by
  obtain ⟨-, hlive⟩ := h.uncommitted hcall hphase id nofun
  cases hlive with
  | ready _ idle => exact idle.empty
  | waiting committed => cases committed
  | taken committed => cases committed

/-- In every interleaving of submissions, drain iterations over arbitrary entries and failure
passes. -/
theorem ownership_safe (capabilities : UInt64) (depth : ℕ) (sglDma : ℕ → UInt64)
    (actions : List Action) : OwnershipSafe (start capabilities depth sglDma) actions := by
  have h := run_inv (start_inv capabilities depth sglDma) actions
  constructor
  · exact h.logged
  · intro n call hcall
    rcases h.calls n call hcall with hdone | hlive
    · exact hdone.balanced
    · exact hlive.balanced
  · exact fun n call status hcall hmem => h.finish_mem hcall hmem
  · exact fun n call status hcall hphase hfails => h.returned hcall hphase hfails
  · rintro n call status hcall hphase hfails before action after rfl haction
    have hbound : ¬ call.phase.Bound := by
      rw [hphase]
      cases status <;> first | exact absurd rfl hfails | exact id
    rcases haction with rfl | ⟨rq, rfl⟩
    · simp only [run, List.foldl_append, List.foldl_cons] at hcall
      exact step_untouched hcall hbound
    · unfold step
      split_ifs <;> exact ⟨fun _ => ⟨rfl, rfl⟩, rfl⟩
  · exact fun n call k hcall hphase => h.submitting_free hcall hphase

end World
end OpenFlash.Driver
