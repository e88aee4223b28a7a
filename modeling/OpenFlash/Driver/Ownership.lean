import OpenFlash.Driver.Concurrent

/-! Ownership of requests and balance of DMA mappings: whoever takes a request out of its
slot ends it alone, after every segment is unmapped as it was mapped. -/
namespace OpenFlash.Driver
open Abi Support

def maps (dir : DmaDir) (descs : List OpenFlashSglDesc) : List Event :=
  descs.map (.map · dir)

def unmaps (dir : DmaDir) (descs : List OpenFlashSglDesc) : List Event :=
  descs.reverse.map (.unmap · dir)

/-- Every segment is mapped, unmapped once after the acceptance, and then the request is
ended. -/
def acceptedHistory (dir : DmaDir) (descs : List OpenFlashSglDesc) (status : BlkStatus) :
    List Event :=
  maps dir descs ++ .accept :: (unmaps dir descs ++ [.finish status])

/-- What was mapped is unmapped, and the request goes back to the block layer. -/
def rejectedHistory (dir : DmaDir) (descs : List OpenFlashSglDesc) (status : BlkStatus) :
    List Event :=
  maps dir descs ++ (unmaps dir descs ++ [.reject status])

/-- No segment of a read or a write failed to map. -/
def Request.Complete (rq : Request) : Prop :=
  rq.op = .read ∨ rq.op = .write → rq.descs.length = rq.segments.length

/-- Entry `k` of the mapped descriptors is segment `k`, up to the first that fails. -/
theorem mappedDescs_getElem? {segments : List Bvec} {k : ℕ}
    (h : k ≤ (mappedDescs segments).length) :
    (mappedDescs segments)[k]?
      = segments[k]?.bind fun bvec => bvec.mapping.map fun dma => ⟨dma, bvec.length⟩ := by
  induction segments generalizing k with
  | nil => rfl
  | cons bvec rest ih =>
    cases hm : bvec.mapping with
    | none =>
      simp only [mappedDescs, hm, List.length_nil, Nat.le_zero] at h
      simp [mappedDescs, hm, h]
    | some dma =>
      simp only [mappedDescs, hm, List.length_cons] at h ⊢
      cases k with
      | zero => simp [hm]
      | succ k => simpa using ih (by omega)

theorem descs_getElem? {rq : Request} (hdata : rq.op = .read ∨ rq.op = .write) {k : ℕ}
    (h : k ≤ rq.descs.length) :
    rq.descs[k]?
      = rq.segments[k]?.bind fun bvec => bvec.mapping.map fun dma => ⟨dma, bvec.length⟩ := by
  simp only [Request.descs, hdata, if_true] at h ⊢
  exact mappedDescs_getElem? h

theorem mappedDescs_length_le (segments : List Bvec) :
    (mappedDescs segments).length ≤ segments.length := by
  induction segments with
  | nil => exact le_rfl
  | cons bvec rest ih =>
    cases hm : bvec.mapping with
    | none => simp [mappedDescs, hm]
    | some dma => simpa [mappedDescs, hm] using ih

/-- A loop that has seen every segment has mapped them all. -/
theorem Request.complete_of_end {rq : Request} (h : rq.segments[rq.descs.length]? = none) :
    rq.Complete := by
  intro hdata
  have hle := mappedDescs_length_le rq.segments
  have hend := List.getElem?_eq_none_iff.mp h
  simp only [Request.descs, hdata, if_true] at hend ⊢
  omega

theorem unmaps_drop {dir : DmaDir} {descs : List OpenFlashSglDesc} {k : ℕ}
    {desc : OpenFlashSglDesc} (h : descs[k]? = some desc) :
    unmaps dir (descs.drop k) = unmaps dir (descs.drop (k + 1)) ++ [.unmap desc dir] := by
  obtain ⟨hk, rfl⟩ := List.getElem?_eq_some_iff.mp h
  rw [List.drop_eq_getElem_cons hk]
  simp only [unmaps, List.reverse_cons, List.map_append, List.map_cons, List.map_nil]

theorem maps_take_succ {dir : DmaDir} {descs : List OpenFlashSglDesc} {k : ℕ}
    {desc : OpenFlashSglDesc} (h : descs[k]? = some desc) :
    maps dir (descs.take (k + 1)) = maps dir (descs.take k) ++ [.map desc dir] := by
  simp [maps, List.take_add_one, h]

theorem Filled.update {sgl : ℕ → OpenFlashSglDesc} {descs : List OpenFlashSglDesc} {k : ℕ}
    {desc : OpenFlashSglDesc} (h : Filled sgl 0 (descs.take k)) (hk : descs[k]? = some desc) :
    Filled (Function.update sgl k desc) 0 (descs.take (k + 1)) := by
  intro i d hi
  rw [Nat.zero_add]
  by_cases hik : i = k
  · subst hik
    rw [Function.update_self]
    rw [List.getElem?_take_of_lt (by omega), hk] at hi
    exact Option.some.inj hi
  · rw [Function.update_of_ne hik]
    have hlt := (List.getElem?_eq_some_iff.mp hi).1
    rw [List.length_take] at hlt
    have hd := h i d
    rw [Nat.zero_add] at hd
    apply hd
    rw [List.getElem?_take_of_lt (by omega)] at hi ⊢
    exact hi

/-- The table and the two fields that a holder reads. -/
structure Armed (rq : Request) (slot : OpenflashRequest) (mapped : ℕ) : Prop where
  filled : Filled slot.sgl 0 rq.descs
  nrMapped : slot.nrMapped = mapped
  dmaDir : rq.descs ≠ [] → slot.dmaDir = dirOf rq.op

/-- Neither the slot nor a holder has the request. -/
structure Idle (slot : OpenflashRequest) (held : Prop) : Prop where
  empty : slot.rq = none
  untaken : ¬ held

/-- The store to `request->rq` is done. -/
def Phase.Committed : Phase → Prop
  | .advancing | .ringing | .returned .ok => True
  | _ => False

/-- The slot is armed, and the call can no longer fail. -/
def Phase.Bound : Phase → Prop
  | .publishing | .advancing | .ringing | .returned .ok => True
  | _ => False

/-- A call whose request is not ended, by where it is and who has the request. -/
inductive Live (rq : Request) (history : List Event) (slot : OpenflashRequest)
    (mine held : Prop) : Phase → Prop
  | mapping {k : ℕ} (idle : Idle slot held) (data : rq.op = .read ∨ rq.op = .write)
      (bound : k ≤ rq.descs.length) (filled : Filled slot.sgl 0 (rq.descs.take k))
      (events : history = maps (dirOf rq.op) (rq.descs.take k)) :
      Live rq history slot mine held (.mapping k)
  | storing {k : ℕ} {desc : OpenFlashSglDesc} (idle : Idle slot held)
      (data : rq.op = .read ∨ rq.op = .write) (mapped : rq.descs[k]? = some desc)
      (filled : Filled slot.sgl 0 (rq.descs.take k))
      (events : history = maps (dirOf rq.op) (rq.descs.take (k + 1))) :
      Live rq history slot mine held (.storing k desc)
  | ready {phase : Phase}
      (before : phase ∈ [Phase.submitting rq.descs.length, .filling rq.descs.length,
        .arming rq.descs.length])
      (idle : Idle slot held) (complete : rq.Complete) (filled : Filled slot.sgl 0 rq.descs)
      (events : history = maps (dirOf rq.op) rq.descs) :
      Live rq history slot mine held phase
  | publishing (idle : Idle slot held) (complete : rq.Complete)
      (armed : Armed rq slot rq.descs.length)
      (events : history = maps (dirOf rq.op) rq.descs) :
      Live rq history slot mine held .publishing
  | unwinding {k : ℕ} {status : BlkStatus} {descs : List OpenFlashSglDesc}
      (idle : Idle slot held) (failed : status ≠ .ok) (bound : k ≤ descs.length)
      (filled : Filled slot.sgl 0 descs)
      (events : history = maps (dirOf rq.op) descs ++ unmaps (dirOf rq.op) (descs.drop k)) :
      Live rq history slot mine held (.unwinding k status)
  | waiting {phase : Phase} (committed : phase.Committed) (complete : rq.Complete)
      (armed : Armed rq slot rq.descs.length) (owned : slot.rq ≠ none) (owner : mine)
      (untaken : ¬ held)
      (events : history = maps (dirOf rq.op) rq.descs ++ [.accept]) :
      Live rq history slot mine held phase
  | taken {phase : Phase} {k : ℕ} (committed : phase.Committed) (complete : rq.Complete)
      (armed : Armed rq slot k) (bound : k ≤ rq.descs.length) (empty : slot.rq = none)
      (holder : held)
      (events : history = maps (dirOf rq.op) rq.descs ++
        .accept :: unmaps (dirOf rq.op) (rq.descs.drop k)) :
      Live rq history slot mine held phase

/-- A call whose request is ended, by the interrupt, by a pass or by the call itself. -/
inductive Done (rq : Request) (history : List Event) : Phase → Prop
  | finished {phase : Phase} {status : BlkStatus} (committed : phase.Committed)
      (complete : rq.Complete)
      (events : history = acceptedHistory (dirOf rq.op) rq.descs status) :
      Done rq history phase
  | rejected {status : BlkStatus} {descs : List OpenFlashSglDesc} (failed : status ≠ .ok)
      (events : history = rejectedHistory (dirOf rq.op) descs status) :
      Done rq history (.returned status)

@[simp] theorem maps_ends (dir : DmaDir) (descs : List OpenFlashSglDesc) :
    (maps dir descs).any Event.ends = false := by
  simp [maps, Event.ends]

@[simp] theorem unmaps_ends (dir : DmaDir) (descs : List OpenFlashSglDesc) :
    (unmaps dir descs).any Event.ends = false := by
  simp [unmaps, Event.ends]

/-- Between the last mapping and the publication the table is complete. -/
theorem Live.ready_of {rq : Request} {history : List Event} {slot : OpenflashRequest}
    {mine held : Prop} {phase : Phase} {k : ℕ} (h : Live rq history slot mine held phase)
    (hphase : phase = .submitting k ∨ phase = .filling k ∨ phase = .arming k) :
    k = rq.descs.length ∧ Idle slot held ∧ rq.Complete ∧ Filled slot.sgl 0 rq.descs ∧
      history = maps (dirOf rq.op) rq.descs := by
  cases h with
  | ready before idle complete filled events =>
    refine ⟨?_, idle, complete, filled, events⟩
    rcases hphase with rfl | rfl | rfl <;> simpa using before
  | waiting committed => rcases hphase with rfl | rfl | rfl <;> cases committed
  | taken committed => rcases hphase with rfl | rfl | rfl <;> cases committed
  | mapping | storing | publishing | unwinding => rcases hphase with h | h | h <;> cases h

theorem Live.not_ends {rq : Request} {history : List Event} {slot : OpenflashRequest}
    {mine held : Prop} {phase : Phase} (h : Live rq history slot mine held phase) :
    history.any Event.ends = false := by
  cases h with
  | mapping _ _ _ _ events => simp [events]
  | storing _ _ _ _ events => simp [events]
  | ready _ _ _ _ events => simp [events]
  | publishing _ _ _ events => simp [events]
  | unwinding _ _ _ _ events => simp [events]
  | waiting _ _ _ _ _ _ events => simp [events, Event.ends]
  | taken _ _ _ _ _ _ events => simp [events, Event.ends]

theorem Done.ends {rq : Request} {history : List Event} {phase : Phase}
    (h : Done rq history phase) : history.any Event.ends = true := by
  cases h with
  | finished _ _ events => simp [events, acceptedHistory, Event.ends]
  | rejected _ events => simp [events, rejectedHistory, Event.ends]

/-- Only the owner of the slot has put a request there. -/
theorem Live.owned {rq : Request} {history : List Event} {slot : OpenflashRequest}
    {mine held : Prop} {phase : Phase} (h : Live rq history slot mine held phase)
    (hslot : slot.rq ≠ none) : mine := by
  cases h with
  | mapping idle => exact absurd idle.empty hslot
  | storing idle => exact absurd idle.empty hslot
  | ready _ idle => exact absurd idle.empty hslot
  | publishing idle => exact absurd idle.empty hslot
  | unwinding idle => exact absurd idle.empty hslot
  | waiting _ _ _ _ owner => exact owner
  | taken _ _ _ _ empty => exact absurd empty hslot

theorem Done.shift {rq : Request} {history : List Event} {phase phase' : Phase}
    (h : Done rq history phase) (hphase : phase.Committed) (hphase' : phase'.Committed) :
    Done rq history phase' := by
  cases h with
  | finished _ complete events => exact .finished hphase' complete events
  | @rejected status _ failed =>
    cases status <;> first | exact absurd rfl failed | cases hphase

theorem Live.shift {rq : Request} {history : List Event} {slot : OpenflashRequest}
    {mine held : Prop} {phase phase' : Phase} (h : Live rq history slot mine held phase)
    (hphase : phase.Committed) (hphase' : phase'.Committed) :
    Live rq history slot mine held phase' := by
  cases h with
  | ready before =>
    simp only [List.mem_cons, List.not_mem_nil, or_false] at before
    rcases before with rfl | rfl | rfl <;> cases hphase
  | waiting _ complete armed owned owner untaken events =>
    exact .waiting hphase' complete armed owned owner untaken events
  | taken _ complete armed bound empty holder events =>
    exact .taken hphase' complete armed bound empty holder events
  | _ => cases hphase

namespace World
variable {w w' : World} {n tag : ℕ} {call : Call}

def Holds (w : World) (n : ℕ) : Prop := ∃ x t, w.held x = some t ∧ t.call = n

def Tracks (w : World) (n : ℕ) (call : Call) : Prop :=
  Done call.rq (w.history n) call.phase ∨
    Live call.rq (w.history n) (w.slot call.rq.tag) (w.owner call.rq.tag = n) (w.Holds n)
      call.phase

/-- Call `n` has an un-ended request with this tag. -/
def Running (w : World) (n tag : ℕ) : Prop :=
  ∃ call, w.calls[n]? = some call ∧ call.rq.tag = tag ∧ ¬ w.Ended n

structure Inv (w : World) : Prop where
  logged : ∀ n, w.calls.length ≤ n → w.history n = []
  calls : ∀ n call, w.calls[n]? = some call → w.Tracks n call
  slots : ∀ tag, (w.slot tag).rq ≠ none → w.Running (w.owner tag) tag
  holders : ∀ x t, w.held x = some t → w.Running t.call t.tag
  single : ∀ x y t u, w.held x = some t → w.held y = some u → t.call = u.call → x = y
  tags : ∀ n m tag, w.Running n tag → w.Running m tag → n = m

theorem Inv.live (h : w.Inv) (hcall : w.calls[n]? = some call) (hrun : ¬ w.Ended n) :
    Live call.rq (w.history n) (w.slot call.rq.tag) (w.owner call.rq.tag = n) (w.Holds n)
      call.phase := by
  rcases h.calls n call hcall with hdone | hlive
  · exact absurd hdone.ends hrun
  · exact hlive

/-- A step that touches only call `n`, its slot and its history. -/
structure Touches (n tag : ℕ) (w w' : World) : Prop where
  length : w'.calls.length = w.calls.length
  calls : ∀ m, m ≠ n → w'.calls[m]? = w.calls[m]?
  history : ∀ m, m ≠ n → w'.history m = w.history m
  slots : ∀ other, other ≠ tag → w'.slot other = w.slot other
  owners : ∀ other, other ≠ tag → w'.owner other = w.owner other
  held : ∀ x t, t.call ≠ n → (w'.held x = some t ↔ w.held x = some t)

theorem Touches.running (h : Touches n tag w w') {m other : ℕ} (hm : m ≠ n) :
    w'.Running m other ↔ w.Running m other := by
  simp only [Running, Ended, h.calls m hm, h.history m hm]

theorem Touches.holds (h : Touches n tag w w') {m : ℕ} (hm : m ≠ n) :
    w'.Holds m ↔ w.Holds m := by
  constructor
  · rintro ⟨x, t, hx, rfl⟩
    exact ⟨x, t, (h.held x t hm).mp hx, rfl⟩
  · rintro ⟨x, t, hx, rfl⟩
    exact ⟨x, t, (h.held x t hm).mpr hx, rfl⟩

/-- Other un-ended calls have other tags, so they keep their slots. -/
theorem Inv.touch_other (h : w.Inv) (hrun : w.Running n tag) (ht : Touches n tag w w') {m : ℕ}
    (hmn : m ≠ n) {c : Call} (hc : w.calls[m]? = some c) : w'.Tracks m c := by
  rcases h.calls m c hc with hdone | hlive
  · left
    rw [ht.history m hmn]
    exact hdone
  · right
    have hother : c.rq.tag ≠ tag := by
      intro heq
      refine hmn (h.tags m n tag ⟨c, hc, heq, ?_⟩ hrun)
      simp [Ended, hlive.not_ends]
    rw [ht.history m hmn, ht.slots _ hother, ht.owners _ hother, propext (ht.holds hmn)]
    exact hlive

theorem Inv.touch (h : w.Inv) (hrun : w.Running n tag) (ht : Touches n tag w w')
    (hcall : w'.calls[n]? = some call) (htag : call.rq.tag = tag) (htracks : w'.Tracks n call)
    (hslot : (w'.slot tag).rq ≠ none → w'.owner tag = n ∧ ¬ w'.Ended n)
    (hheld : ∀ x t, w'.held x = some t → t.call = n → t.tag = tag ∧ ¬ w'.Ended n)
    (hsingle : ∀ x y t u, w'.held x = some t → w'.held y = some u → t.call = n → u.call = n →
      x = y) : w'.Inv where
  logged := by
    intro m hm
    rw [ht.length] at hm
    have hmn : m ≠ n := by
      rintro rfl
      obtain ⟨c, hc, -⟩ := hrun
      have := (List.getElem?_eq_some_iff.mp hc).1
      omega
    rw [ht.history m hmn]
    exact h.logged m hm
  calls := by
    intro m c hc
    by_cases hmn : m = n
    · subst hmn
      rw [hcall] at hc
      cases hc
      exact htracks
    · rw [ht.calls m hmn] at hc
      exact h.touch_other hrun ht hmn hc
  slots := by
    intro other hrq
    by_cases hother : other = tag
    · subst hother
      obtain ⟨howner, hended⟩ := hslot hrq
      rw [howner]
      exact ⟨call, hcall, htag, hended⟩
    · rw [ht.slots _ hother] at hrq
      rw [ht.owners _ hother]
      have hrun' := h.slots other hrq
      refine (ht.running ?_).mpr hrun'
      intro heq
      obtain ⟨c, hc, hct, -⟩ := hrun
      obtain ⟨c', hc', hct', -⟩ := hrun'
      rw [heq, hc] at hc'
      cases hc'
      exact hother (hct'.symm.trans hct)
  holders := by
    intro x t hx
    by_cases htn : t.call = n
    · obtain ⟨htt, hended⟩ := hheld x t hx htn
      rw [htn, htt]
      exact ⟨call, hcall, htag, hended⟩
    · exact (ht.running htn).mpr (h.holders x t ((ht.held x t htn).mp hx))
  single := by
    intro x y t u hx hy htu
    by_cases htn : t.call = n
    · exact hsingle x y t u hx hy htn (htu ▸ htn)
    · have hun : u.call ≠ n := htu ▸ htn
      exact h.single x y t u ((ht.held x t htn).mp hx) ((ht.held y u hun).mp hy) htu
  tags := by
    have hself : ∀ other, w'.Running n other → other = tag := by
      rintro other ⟨c, hc, hct, -⟩
      rw [hcall] at hc
      cases hc
      exact hct.symm.trans htag
    intro a b other ha hb
    by_cases han : a = n <;> by_cases hbn : b = n
    · rw [han, hbn]
    · subst han
      rw [hself other ha] at hb
      exact h.tags _ _ tag hrun ((ht.running hbn).mp hb)
    · subst hbn
      rw [hself other hb] at ha
      exact h.tags _ _ tag ((ht.running han).mp ha) hrun
    · exact h.tags _ _ other ((ht.running han).mp ha) ((ht.running hbn).mp hb)

end World
end OpenFlash.Driver
