import Mathlib.Tactic.Linarith
import Mathlib.Tactic.Positivity
import OpenFlash.Ftl.Placement
import OpenFlash.Simulator.Scheduler
import OpenFlash.Support.Indexing
import OpenFlash.Support.Reservations

/-! The timing loop of `Simulator.run`. A request transfers over the channel of its page and
then works on the die, each of which serves one request at a time. -/
namespace OpenFlash.Simulator
open Ftl Support

structure MediaOperation where
  latencyUs : ℚ
  correctedBits : ℕ := 0
  retries : ℕ := 0
  uncorrectable : Bool := false
  latency_nonneg : 0 ≤ latencyUs

/-- The seeded latency and error model, with the state of its random source. -/
structure MediaModel (σ : Type) where
  execute : Operation → ℕ → ℚ → σ → MediaOperation × σ

structure Completion where
  requestId : ℕ
  operation : Operation
  startUs : ℚ
  finishUs : ℚ
  latencyUs : ℚ
  correctedBits : ℕ
  retries : ℕ
  uncorrectable : Bool

def transferTimeUs (c : ControllerConfig) (pages : ℕ) : ℚ :=
  let bytesPerUs := c.channelTransferGbps * 1000000000 / 8 / 1000000
  pages * c.pageSize / bytesPerUs

/-- The variables of the loop, with the parts of the simulator that it changes. -/
structure Timing (σ : Type) where
  dieReady : List (List ℚ)
  channelReady : List ℚ
  channelBusy : List ℚ
  completions : List Completion
  ftl : PageMappingFTL
  media : σ

variable {σ : Type} {c : ControllerConfig} {media : MediaModel σ}

def Timing.start (c : ControllerConfig) (ftl : PageMappingFTL) (media : σ) : Timing σ :=
  { dieReady := List.replicate c.channels (List.replicate c.diesPerChannel 0)
    channelReady := List.replicate c.channels 0
    channelBusy := List.replicate c.channels 0
    completions := []
    ftl := ftl
    media := media }

/-- The loop body; `none` is an `IndexError`. -/
def Timing.step (c : ControllerConfig) (media : MediaModel σ) (item : ScheduledRequest)
    (t : Timing σ) : Option (Timing σ) := do
  let request := item.request
  let channel := item.physical.channel
  let die := item.physical.die
  let dies ← getItem? t.dieReady channel
  let dieFree ← getItem? dies die
  let channelFree ← getItem? t.channelReady channel
  let start := max (max request.arrivalUs dieFree) channelFree
  let transfer := transferTimeUs c request.pages
  let wear := t.ftl.wearFraction c item.physical
  let operation := media.execute request.operation request.pages wear.1 t.media
  let channelReady ← setItem? t.channelReady channel (start + transfer)
  let busy ← getItem? t.channelBusy channel
  let channelBusy ← setItem? t.channelBusy channel (busy + transfer)
  let finish := start + transfer + operation.1.latencyUs
  let dies ← setItem? dies die finish
  let dieReady ← setItem? t.dieReady channel dies
  some
    { dieReady := dieReady
      channelReady := channelReady
      channelBusy := channelBusy
      completions := t.completions ++
        [{ requestId := request.requestId
           operation := request.operation
           startUs := start
           finishUs := finish
           latencyUs := finish - request.arrivalUs
           correctedBits := operation.1.correctedBits
           retries := operation.1.retries
           uncorrectable := operation.1.uncorrectable }]
      ftl := wear.2
      media := operation.2 }

def Timing.loop (c : ControllerConfig) (media : MediaModel σ) :
    List ScheduledRequest → Timing σ → Except IndexError Unit × Timing σ
  | [], t => (.ok (), t)
  | item :: rest, t =>
      match t.step c media item with
      | none => (.error ⟨"list index out of range"⟩, t)
      | some t => Timing.loop c media rest t

def channelOf (item : ScheduledRequest) : ℕ := item.physical.channel.toNat

def dieOf (item : ScheduledRequest) : ℕ × ℕ := (channelOf item, item.physical.die.toNat)

namespace Timing

def channelFree (t : Timing σ) (channel : ℕ) : ℚ := t.channelReady.getD channel 0

def dieFree (t : Timing σ) (die : ℕ × ℕ) : ℚ := (t.dieReady.getD die.1 []).getD die.2 0

def busyTime (t : Timing σ) (channel : ℕ) : ℚ := t.channelBusy.getD channel 0

theorem exists_busyTime {t : Timing σ} {x : ℚ} (h : x ∈ t.channelBusy) :
    ∃ channel, t.busyTime channel = x := by
  obtain ⟨channel, hlt, rfl⟩ := List.getElem_of_mem h
  exact ⟨channel, List.getD_eq_getElem _ _ hlt⟩

theorem busyTime_mem {t : Timing σ} {channel : ℕ} (h : t.busyTime channel ≠ 0) :
    t.busyTime channel ∈ t.channelBusy := by
  by_cases hlt : channel < t.channelBusy.length
  · rw [busyTime, List.getD_eq_getElem _ _ hlt]
    exact List.getElem_mem hlt
  · exact absurd (List.getD_eq_default _ _ (Nat.le_of_not_lt hlt)) h

/-- The lists have an entry for every channel and every die. -/
structure Sized (c : ControllerConfig) (t : Timing σ) : Prop where
  dies : t.dieReady.length = c.channels
  rows : ∀ channel < c.channels, (t.dieReady.getD channel []).length = c.diesPerChannel
  ready : t.channelReady.length = c.channels
  busy : t.channelBusy.length = c.channels

/-- What one pass of the loop does. -/
structure Serves (c : ControllerConfig) (item : ScheduledRequest) (t t' : Timing σ)
    (done : Completion) : Prop where
  requestId : done.requestId = item.request.requestId
  operation : done.operation = item.request.operation
  start : done.startUs
    = max (max item.request.arrivalUs (t.dieFree (dieOf item))) (t.channelFree (channelOf item))
  finish : done.startUs + transferTimeUs c item.request.pages ≤ done.finishUs
  channelFree : t'.channelFree = Function.update t.channelFree (channelOf item)
    (done.startUs + transferTimeUs c item.request.pages)
  dieFree : t'.dieFree = Function.update t.dieFree (dieOf item) done.finishUs
  busyTime : t'.busyTime = Function.update t.busyTime (channelOf item)
    (t.busyTime (channelOf item) + transferTimeUs c item.request.pages)
  completions : t'.completions = t.completions ++ [done]
  ftl : t'.ftl = (t.ftl.wearFraction c item.physical).2

theorem start_sized (c : ControllerConfig) (ftl : PageMappingFTL) (m : σ) :
    (Timing.start c ftl m).Sized c := by
  refine ⟨List.length_replicate, fun channel h => ?_, List.length_replicate,
    List.length_replicate⟩
  simp [Timing.start, List.getD_eq_getElem?_getD, h]

/-- The completion of an item, by the numbers of its channel and die. -/
def completionOf (c : ControllerConfig) (media : MediaModel σ) (item : ScheduledRequest)
    (t : Timing σ) : Completion :=
  let start := max (max item.request.arrivalUs (t.dieFree (dieOf item)))
    (t.channelFree (channelOf item))
  let wear := (t.ftl.wearFraction c item.physical).1
  let operation := (media.execute item.request.operation item.request.pages wear t.media).1
  let finish := start + transferTimeUs c item.request.pages + operation.latencyUs
  { requestId := item.request.requestId
    operation := item.request.operation
    startUs := start
    finishUs := finish
    latencyUs := finish - item.request.arrivalUs
    correctedBits := operation.correctedBits
    retries := operation.retries
    uncorrectable := operation.uncorrectable }

/-- The variables after a pass whose subscripts are in range. -/
def advance (c : ControllerConfig) (media : MediaModel σ) (item : ScheduledRequest)
    (t : Timing σ) : Timing σ :=
  let done := t.completionOf c media item
  let transfer := transferTimeUs c item.request.pages
  let wear := t.ftl.wearFraction c item.physical
  { dieReady := t.dieReady.set (channelOf item)
      ((t.dieReady.getD (channelOf item) []).set (dieOf item).2 done.finishUs)
    channelReady := t.channelReady.set (channelOf item) (done.startUs + transfer)
    channelBusy := t.channelBusy.set (channelOf item) (t.busyTime (channelOf item) + transfer)
    completions := t.completions ++ [done]
    ftl := wear.2
    media := (media.execute item.request.operation item.request.pages wear.1 t.media).2 }

section
variable {item : ScheduledRequest} {t : Timing σ}

theorem channelOf_lt (hitem : InGeometry c item.physical) : channelOf item < c.channels := by
  have := hitem.1
  rw [channelOf]
  omega

theorem dieOf_lt (hsized : t.Sized c) (hitem : InGeometry c item.physical) :
    (dieOf item).2 < (t.dieReady.getD (channelOf item) []).length := by
  have := hitem.2.1
  rw [hsized.rows _ (channelOf_lt hitem), dieOf]
  dsimp only
  omega

/-- A page of the geometry is never out of range for the lists. -/
theorem step_eq_advance (media : MediaModel σ) (hsized : t.Sized c)
    (hitem : InGeometry c item.physical) : t.step c media item = some (t.advance c media item) := by
  have hchannel : item.physical.channel = (channelOf item : ℕ) :=
    (Int.toNat_of_nonneg hitem.1.1).symm
  have hdie : item.physical.die = ((dieOf item).2 : ℕ) := (Int.toNat_of_nonneg hitem.2.1.1).symm
  have hlt := channelOf_lt hitem
  have hdies := hsized.dies ▸ hlt
  have hready := hsized.ready ▸ hlt
  have hbusy := hsized.busy ▸ hlt
  have hcell := dieOf_lt hsized hitem
  simp only [step, hchannel, hdie, getItem?_natCast hdies ([] : List ℚ),
    getItem?_natCast hcell (0 : ℚ), getItem?_natCast hready (0 : ℚ),
    getItem?_natCast hbusy (0 : ℚ), setItem?_natCast hdies, setItem?_natCast hready,
    setItem?_natCast hbusy, setItem?_natCast hcell, Option.bind_eq_bind, Option.bind_some]
  rfl

theorem advance_sized (media : MediaModel σ) (hsized : t.Sized c)
    (hitem : InGeometry c item.physical) : (t.advance c media item).Sized c := by
  refine ⟨List.length_set.trans hsized.dies, fun channel hlt => ?_,
    List.length_set.trans hsized.ready, List.length_set.trans hsized.busy⟩
  rw [advance, getD_set (hsized.dies ▸ channelOf_lt hitem)]
  by_cases hsame : channel = channelOf item
  · rw [hsame, Function.update_self, List.length_set]
    exact hsized.rows _ (channelOf_lt hitem)
  · rw [Function.update_of_ne hsame]
    exact hsized.rows channel hlt

theorem advance_dieFree (media : MediaModel σ) (hsized : t.Sized c)
    (hitem : InGeometry c item.physical) :
    (t.advance c media item).dieFree
      = Function.update t.dieFree (dieOf item) (t.completionOf c media item).finishUs := by
  funext die
  obtain ⟨i, j⟩ := die
  rw [dieFree, advance, getD_set (hsized.dies ▸ channelOf_lt hitem)]
  by_cases hrow : i = channelOf item
  · rw [hrow, Function.update_self, getD_set (dieOf_lt hsized hitem)]
    by_cases hcell : j = (dieOf item).2
    · rw [hcell, Function.update_self]
      show _ = Function.update t.dieFree (dieOf item) _ (dieOf item)
      rw [Function.update_self]
    · rw [Function.update_of_ne hcell, Function.update_of_ne fun h => hcell (congrArg Prod.snd h)]
      rfl
  · rw [Function.update_of_ne hrow, Function.update_of_ne fun h => hrow (congrArg Prod.fst h)]
    rfl

theorem advance_serves (media : MediaModel σ) (hsized : t.Sized c)
    (hitem : InGeometry c item.physical) :
    Serves c item t (t.advance c media item) (t.completionOf c media item) := by
  have hlt := channelOf_lt hitem
  constructor
  · rfl
  · rfl
  · rfl
  · exact le_add_of_nonneg_right (MediaOperation.latency_nonneg _)
  · exact funext fun j => getD_set (hsized.ready ▸ hlt) _ _ j
  · exact advance_dieFree media hsized hitem
  · exact funext fun j => getD_set (hsized.busy ▸ hlt) _ _ j
  · rfl
  · rfl

end

def channelReservation (c : ControllerConfig) (s : ScheduledRequest × Completion) :
    Reservation ℕ ℚ :=
  ⟨channelOf s.1, s.2.startUs, s.2.startUs + transferTimeUs c s.1.request.pages⟩

def dieReservation (s : ScheduledRequest × Completion) : Reservation (ℕ × ℕ) ℚ :=
  ⟨dieOf s.1, s.2.startUs, s.2.finishUs⟩

/-- The completion belongs to the item and gives it time for its transfer after its arrival. -/
structure Completes (c : ControllerConfig) (item : ScheduledRequest) (done : Completion) :
    Prop where
  requestId : done.requestId = item.request.requestId
  operation : done.operation = item.request.operation
  arrival : item.request.arrivalUs ≤ done.startUs
  transfer : done.startUs + transferTimeUs c item.request.pages ≤ done.finishUs

/-- The invariant of the loop over the items served so far. A channel is busy for no longer
than until it is ready again, and it is ready by some finish time. -/
structure Inv (c : ControllerConfig) (served : List (ScheduledRequest × Completion))
    (t : Timing σ) : Prop where
  sized : t.Sized c
  placed : PageMappingFTL.Placed c t.ftl
  completions : t.completions = served.map Prod.snd
  completes : ∀ s ∈ served, Completes c s.1 s.2
  channels : Reserved t.channelFree (served.map (channelReservation c))
  dies : Reserved t.dieFree (served.map dieReservation)
  busy : ∀ channel, 0 ≤ t.busyTime channel ∧ t.busyTime channel ≤ t.channelFree channel
  used : ∀ s ∈ served, 0 < t.busyTime (channelOf s.1)
  free : ∀ channel, t.channelFree channel = 0 ∨ ∃ s ∈ served, t.channelFree channel ≤ s.2.finishUs

theorem transferTimeUs_pos (c : ControllerConfig) {pages : ℕ} (h : 0 < pages) :
    0 < transferTimeUs c pages := by
  have hsize : (0 : ℚ) < c.pageSize := Nat.cast_pos.mpr c.geometry_pos.2.2.2.2.1
  have hpages : (0 : ℚ) < pages := Nat.cast_pos.mpr h
  have hrate := c.timing_pos.2.2.2
  unfold transferTimeUs
  positivity

theorem start_inv {ftl : PageMappingFTL} (h : PageMappingFTL.Placed c ftl) (m : σ) :
    Inv c [] (Timing.start c ftl m) := by
  have hfree : ∀ channel, (Timing.start c ftl m).channelFree channel = 0 := by
    intro channel
    simp only [channelFree, Timing.start, List.getD_eq_getElem?_getD, List.getElem?_replicate]
    split_ifs <;> rfl
  have hbusy : ∀ channel, (Timing.start c ftl m).busyTime channel = 0 := hfree
  refine ⟨start_sized c ftl m, h, rfl, ?_, reserved_nil _, reserved_nil _, fun channel => ?_, ?_,
    fun channel => Or.inl (hfree channel)⟩
  · intro s hs
    cases hs
  · rw [hbusy, hfree]
    exact ⟨le_rfl, le_rfl⟩
  · intro s hs
    cases hs

section
variable {item : ScheduledRequest} {done : Completion} {t t' : Timing σ}
  {served : List (ScheduledRequest × Completion)}

theorem Serves.completes (h : Serves c item t t' done) : Completes c item done := by
  refine ⟨h.requestId, h.operation, ?_, h.finish⟩
  rw [h.start]
  exact (le_max_left _ _).trans (le_max_left _ _)

theorem Serves.channels (h : Serves c item t t' done) (hinv : Inv c served t) :
    Reserved t'.channelFree ((served ++ [(item, done)]).map (channelReservation c)) := by
  rw [List.map_append, h.channelFree]
  apply hinv.channels.concat (r := channelReservation c (item, done))
  · show t.channelFree (channelOf item) ≤ done.startUs
    rw [h.start]
    exact le_max_right _ _
  · exact le_add_of_nonneg_right (transferTimeUs_pos c item.request.pages_pos).le

theorem Serves.dies (h : Serves c item t t' done) (hinv : Inv c served t) :
    Reserved t'.dieFree ((served ++ [(item, done)]).map dieReservation) := by
  have htransfer := transferTimeUs_pos c item.request.pages_pos
  rw [List.map_append, h.dieFree]
  apply hinv.dies.concat (r := dieReservation (item, done))
  · show t.dieFree (dieOf item) ≤ done.startUs
    rw [h.start]
    exact (le_max_right _ _).trans (le_max_left _ _)
  · show done.startUs ≤ done.finishUs
    have := h.finish
    linarith

theorem Serves.busy (h : Serves c item t t' done) (hinv : Inv c served t) (channel : ℕ) :
    t.busyTime channel ≤ t'.busyTime channel ∧ t'.busyTime channel ≤ t'.channelFree channel ∧
      (channel = channelOf item → 0 < t'.busyTime channel) := by
  have htransfer := transferTimeUs_pos c item.request.pages_pos
  rw [h.busyTime, h.channelFree]
  by_cases hsame : channel = channelOf item
  · obtain ⟨hnonneg, hle⟩ := hinv.busy (channelOf item)
    have hstart : t.channelFree (channelOf item) ≤ done.startUs := h.start ▸ le_max_right _ _
    rw [hsame, Function.update_self, Function.update_self]
    refine ⟨?_, ?_, fun _ => ?_⟩
    · linarith
    · linarith
    · linarith
  · rw [Function.update_of_ne hsame, Function.update_of_ne hsame]
    exact ⟨le_rfl, (hinv.busy channel).2, fun h => absurd h hsame⟩

theorem Serves.free (h : Serves c item t t' done) (hinv : Inv c served t) (channel : ℕ) :
    t'.channelFree channel = 0 ∨
      ∃ s ∈ served ++ [(item, done)], t'.channelFree channel ≤ s.2.finishUs := by
  rw [h.channelFree]
  by_cases hsame : channel = channelOf item
  · rw [hsame, Function.update_self]
    exact Or.inr ⟨(item, done), by simp, h.finish⟩
  · rw [Function.update_of_ne hsame]
    refine (hinv.free channel).imp_right ?_
    rintro ⟨s, hs, hle⟩
    exact ⟨s, List.mem_append_left _ hs, hle⟩

theorem Serves.inv (h : Serves c item t t' done) (hinv : Inv c served t) (hsized : t'.Sized c) :
    Inv c (served ++ [(item, done)]) t' := by
  constructor
  · exact hsized
  · rw [h.ftl]
    exact PageMappingFTL.wearFraction_placed hinv.placed item.physical
  · rw [h.completions, hinv.completions, List.map_append]
    rfl
  · intro s hs
    rcases List.mem_append.mp hs with hs | hs
    · exact hinv.completes s hs
    · rw [List.mem_singleton.mp hs]
      exact h.completes
  · exact h.channels hinv
  · exact h.dies hinv
  · intro channel
    obtain ⟨hmono, hle, -⟩ := h.busy hinv channel
    exact ⟨(hinv.busy channel).1.trans hmono, hle⟩
  · intro s hs
    obtain ⟨hmono, -, hpos⟩ := h.busy hinv (channelOf s.1)
    rcases List.mem_append.mp hs with hs | hs
    · exact (hinv.used s hs).trans_le hmono
    · rw [List.mem_singleton.mp hs] at hpos ⊢
      exact hpos rfl
  · exact h.free hinv

end

/-- The loop serves every item, one after the other, and raises no `IndexError`. -/
theorem loop_inv (media : MediaModel σ) (items : List ScheduledRequest)
    (hitems : ∀ item ∈ items, InGeometry c item.physical)
    {served : List (ScheduledRequest × Completion)} {t : Timing σ} (h : Inv c served t) :
    ∃ t' served', Timing.loop c media items t = (.ok (), t') ∧
      served'.map Prod.fst = served.map Prod.fst ++ items ∧ Inv c served' t' := by
  induction items generalizing served t with
  | nil => exact ⟨t, served, rfl, (List.append_nil _).symm, h⟩
  | cons item rest ih =>
    obtain ⟨hitem, hrest⟩ := List.forall_mem_cons.mp hitems
    have hinv := (advance_serves media h.sized hitem).inv h (advance_sized media h.sized hitem)
    obtain ⟨t', served', hloop, hmap, hinv'⟩ := ih hrest hinv
    refine ⟨t', served', ?_, ?_, hinv'⟩
    · rw [Timing.loop, step_eq_advance media h.sized hitem]
      exact hloop
    · rw [hmap, List.map_append, List.append_assoc]
      rfl

/-- Timing reads the mapping and leaves it. -/
theorem loop_mapping (media : MediaModel σ) (items : List ScheduledRequest)
    (hitems : ∀ item ∈ items, InGeometry c item.physical) {t : Timing σ} (h : t.Sized c) :
    (Timing.loop c media items t).2.ftl.mapping = t.ftl.mapping := by
  induction items generalizing t with
  | nil => rfl
  | cons item rest ih =>
    obtain ⟨hitem, hrest⟩ := List.forall_mem_cons.mp hitems
    rw [Timing.loop, step_eq_advance media h hitem]
    exact ih hrest (advance_sized media h hitem)

end Timing
end OpenFlash.Simulator
