import Mathlib.Algebra.Order.BigOperators.Group.List
import Mathlib.Algebra.Order.Floor.Ring
import Mathlib.Data.Rat.Floor
import OpenFlash.Simulator.Timing

/-! `Simulator.run` as a whole: mapping, scheduling, timing and the metrics, over any history
of a simulator. -/
namespace OpenFlash.Simulator
open Ftl PageMappingFTL Support

inductive Scheduler where
  | fifo
  | readPriority (readBurstLimit : ℤ)

def Scheduler.order : Scheduler → List ScheduledRequest → Except IndexError (List ScheduledRequest)
  | .fifo, requests => .ok (FIFOScheduler.order requests)
  | .readPriority readBurstLimit, requests => ReadPriorityScheduler.order readBurstLimit requests

def createScheduler (name : String) (readBurstLimit : ℤ) : Except ValueError Scheduler :=
  if name = "fifo" then .ok .fifo
  else if name = "read-priority" then .ok (.readPriority readBurstLimit)
  else .error ⟨"unknown scheduler policy: " ++ name⟩

inductive SimulationError where
  | mapping (e : RunError)
  | value (e : ValueError)
  | index (e : IndexError)

/-- `_percentile` at values of any type that `sorted` can order. -/
def percentileOf {α : Type} [LinearOrder α] (values : List α) (percentile : ℕ) :
    Except SimulationError α :=
  if values = [] then
    .error (.value ⟨"cannot calculate a percentile for an empty list"⟩)
  else
    let ordered := sortedBy id values
    let index := max 0 (⌈(percentile : ℚ) / 100 * ordered.length⌉ - 1)
    match getItem? ordered index with
    | none => .error (.index ⟨"list index out of range"⟩)
    | some value => .ok value

/-- `_percentile` at the latencies of the timing model. -/
def percentile (values : List ℚ) (percentile : ℕ) : Except SimulationError ℚ :=
  percentileOf values percentile

structure SimulationResult where
  policy : String
  requests : ℕ
  elapsedUs : ℚ
  throughputMibS : ℚ
  iops : ℚ
  meanLatencyUs : ℚ
  p50LatencyUs : ℚ
  p95LatencyUs : ℚ
  p99LatencyUs : ℚ
  readP99LatencyUs : ℚ
  writeP99LatencyUs : ℚ
  channelUtilization : ℚ
  gcEvents : ℕ
  gcPagesMoved : ℕ
  writeAmplification : ℚ
  correctedBits : ℕ
  readRetries : ℕ
  uncorrectableReads : ℕ
  maxEraseCount : ℤ

variable {σ : Type} {c : ControllerConfig}

/-- The last finish time and the serialized charge for collections. -/
def elapsedUs (c : ControllerConfig) (m : Mapped) (completions : List Completion) : ℚ :=
  let gcMediaUs := m.gcEvents * c.eraseUs + m.gcPagesMoved * (c.readUs + c.programUs)
  (completions.map Completion.finishUs).max?.getD 0 + gcMediaUs / c.dies

/-- `sum(item.pages for item in requests if item.operation == Operation.WRITE)`. -/
def hostPages (requests : List IORequest) : ℕ :=
  ((requests.filter fun request => request.operation = .write).map IORequest.pages).sum

/-- A percentile of the latencies of one kind of operation, zero when there are none. -/
def operationP99 (operation : Operation) (completions : List Completion) :
    Except SimulationError ℚ :=
  let latencies := (completions.filter fun done => done.operation = operation).map
    Completion.latencyUs
  if latencies = [] then .ok 0 else percentile latencies 99

/-- The metrics. There is a completion, and the elapsed time is positive, so nothing here
divides by zero. -/
def report (c : ControllerConfig) (policy : String) (requests : List IORequest) (m : Mapped)
    (t : Timing σ) : Except SimulationError SimulationResult := do
  let elapsed := elapsedUs c m t.completions
  let totalBytes := (requests.map IORequest.pages).sum * c.pageSize
  let latencies := t.completions.map Completion.latencyUs
  let p50 ← percentile latencies 50
  let p95 ← percentile latencies 95
  let p99 ← percentile latencies 99
  let readP99 ← operationP99 .read t.completions
  let writeP99 ← operationP99 .write t.completions
  .ok
    { policy := policy
      requests := requests.length
      elapsedUs := elapsed
      throughputMibS := (totalBytes : ℚ) / (1024 * 1024) / (elapsed / 1000000)
      iops := requests.length / (elapsed / 1000000)
      meanLatencyUs := latencies.sum / latencies.length
      p50LatencyUs := p50
      p95LatencyUs := p95
      p99LatencyUs := p99
      readP99LatencyUs := readP99
      writeP99LatencyUs := writeP99
      channelUtilization := t.channelBusy.sum / (elapsed * c.channels)
      gcEvents := m.gcEvents
      gcPagesMoved := m.gcPagesMoved
      writeAmplification := (hostPages requests + m.gcPagesMoved : ℕ) /
        (max 1 (hostPages requests) : ℕ)
      correctedBits := (t.completions.map Completion.correctedBits).sum
      readRetries := (t.completions.map Completion.retries).sum
      uncorrectableReads := (t.completions.filter Completion.uncorrectable).length
      maxEraseCount := t.ftl.maxObservedEraseCount }

end OpenFlash.Simulator

namespace OpenFlash

/-- A simulator; its configuration and its media model stay as they are. -/
structure Simulator (σ : Type) where
  policy : String
  ftl : Ftl.PageMappingFTL
  media : σ

end OpenFlash

namespace OpenFlash.Simulator
open Ftl PageMappingFTL Support
variable {σ : Type} {c : ControllerConfig}

def start (policy : String) (media : σ) : Simulator σ := ⟨policy, .fresh, media⟩

/-- `run` up to the end of the timing loop. -/
def simulate (c : ControllerConfig) (media : MediaModel σ) (requests : List IORequest)
    (sim : Simulator σ) : Except SimulationError (Mapped × Timing σ) × Simulator σ :=
  match runMapping c requests sim.ftl with
  | (.error e, ftl) => (.error (.mapping e), { sim with ftl := ftl })
  | (.ok m, ftl) =>
      match createScheduler sim.policy c.readBurstLimit with
      | .error e => (.error (.value e), { sim with ftl := ftl })
      | .ok scheduler =>
          match scheduler.order m.mapped with
          | .error e => (.error (.index e), { sim with ftl := ftl })
          | .ok ordered =>
              match Timing.loop c media ordered (.start c ftl sim.media) with
              | (.error e, t) => (.error (.index e), ⟨sim.policy, t.ftl, t.media⟩)
              | (.ok (), t) => (.ok (m, t), ⟨sim.policy, t.ftl, t.media⟩)

def run (c : ControllerConfig) (media : MediaModel σ) (requests : List IORequest)
    (sim : Simulator σ) : Except SimulationError SimulationResult × Simulator σ :=
  match sim.simulate c media requests with
  | (.error e, sim) => (.error e, sim)
  | (.ok (m, t), sim) => (report c sim.policy requests m t, sim)

/-- What a caller can do with a simulator: run it, or call its FTL. -/
inductive Use where
  | call (call : Call)
  | run (requests : List IORequest)

def use (c : ControllerConfig) (media : MediaModel σ) (sim : Simulator σ) : Use → Simulator σ
  | .call call => { sim with ftl := sim.ftl.after c call }
  | .run requests => (sim.run c media requests).2

def uses (c : ControllerConfig) (media : MediaModel σ) (sim : Simulator σ) (uses : List Use) :
    Simulator σ :=
  uses.foldl (use c media) sim

/-- The mapping loop only hands out pages of the geometry. -/
theorem mapRequests_inGeometry {ftl ftl' : PageMappingFTL} {requests : List IORequest}
    {m m' : Mapped} (hplaced : Placed c ftl)
    (hmapped : ∀ item ∈ m.mapped, InGeometry c item.physical)
    (h : mapRequests c requests m ftl = (.ok m', ftl')) :
    ∀ item ∈ m'.mapped, InGeometry c item.physical := by
  induction requests generalizing m ftl with
  | nil =>
    simp only [mapRequests, Prod.mk.injEq, Except.ok.injEq] at h
    rwa [← h.1]
  | cons request rest ih =>
    obtain ⟨gc, p, u, hs, hrest⟩ := mapRequests_cons_ok h
    have hu : Placed c u := by
      have hrule := serve_rule (fun _ call hs => after_placed call hs) request hplaced
      rwa [hs] at hrule
    have hp : InGeometry c p := by
      rcases serve_ok hs with ⟨-, -, rfl, -⟩ | ⟨-, v, hv, hw⟩
      · exact mapRead_inGeometry hplaced request.lpn
      · have hplaced' : Placed c v := by
          rcases collectIfNeeded_ok hv with ⟨-, -, rfl⟩ | ⟨-, r, -, hg⟩
          · exact hplaced
          · have hafter := after_placed .garbageCollect hplaced
            rwa [after, hg] at hafter
        exact write_inGeometry hplaced' hw
    apply ih hu _ hrest
    intro item hitem
    rcases List.mem_append.mp hitem with hitem | hitem
    · exact hmapped item hitem
    · rw [List.mem_singleton.mp hitem]
      exact hp

theorem order_ok (scheduler : Scheduler) (requests : List ScheduledRequest) :
    ∃ ordered, scheduler.order requests = .ok ordered ∧ ordered.Perm requests := by
  cases scheduler with
  | fifo => exact ⟨_, rfl, (sortedBy_stablySorted sortKey requests).perm⟩
  | readPriority readBurstLimit =>
    obtain ⟨ordered, hordered, hperm, -⟩ :=
      ReadPriorityScheduler.order_splits readBurstLimit requests
    exact ⟨ordered, hordered, hperm⟩

/-- What was served are the items of the mapping phase, and so the requests of the list; the
loop invariant holds of it. -/
structure Timed (c : ControllerConfig) (requests : List IORequest) (m : Mapped) (t : Timing σ)
    (served : List (ScheduledRequest × Completion)) : Prop where
  mapped : (served.map Prod.fst).Perm m.mapped
  requests : (served.map fun s => s.1.request).Perm requests
  inv : t.Inv c served

/-- The three ways the timing phase is reached or not. -/
inductive Simulates (c : ControllerConfig) (requests : List IORequest) (sim : Simulator σ) :
    Except SimulationError (Mapped × Timing σ) × Simulator σ → Prop
  | unmapped {e : RunError} {ftl : PageMappingFTL}
      (h : runMapping c requests sim.ftl = (.error e, ftl)) :
      Simulates c requests sim (.error (.mapping e), { sim with ftl := ftl })
  | unknown {m : Mapped} {ftl : PageMappingFTL} {e : ValueError}
      (h : runMapping c requests sim.ftl = (.ok m, ftl))
      (hpolicy : createScheduler sim.policy c.readBurstLimit = .error e) :
      Simulates c requests sim (.error (.value e), { sim with ftl := ftl })
  | timed {m : Mapped} {ftl : PageMappingFTL} {t : Timing σ}
      {served : List (ScheduledRequest × Completion)}
      (h : runMapping c requests sim.ftl = (.ok m, ftl)) (htimed : Timed c requests m t served)
      (hmapping : t.ftl.mapping = ftl.mapping) :
      Simulates c requests sim (.ok (m, t), ⟨sim.policy, t.ftl, t.media⟩)

theorem simulate_simulates (media : MediaModel σ) (requests : List IORequest) {sim : Simulator σ}
    (hplaced : Placed c sim.ftl) : Simulates c requests sim (sim.simulate c media requests) := by
  have hrule := runMapping_rule (fun _ call hs => after_placed call hs) requests hplaced
  unfold simulate
  rcases hm : runMapping c requests sim.ftl with ⟨e | m, ftl⟩
  · exact .unmapped hm
  · rw [hm] at hrule
    dsimp only
    cases hpolicy : createScheduler sim.policy c.readBurstLimit with
    | error e => exact .unknown hm hpolicy
    | ok scheduler =>
      obtain ⟨ordered, hordered, hperm⟩ := order_ok scheduler m.mapped
      obtain ⟨-, hmap⟩ := runMapping_ok hm
      have hinside : ∀ item ∈ ordered, InGeometry c item.physical := by
        intro item hitem
        refine mapRequests_inGeometry hplaced (fun _ h => ?_) hmap item (hperm.mem_iff.mp hitem)
        cases h
      obtain ⟨t, served, hloop, hserved, hinv⟩ :=
        Timing.loop_inv media ordered hinside (Timing.start_inv hrule sim.media)
      have hitems : (served.map Prod.fst).Perm m.mapped := by
        rw [show served.map Prod.fst = ordered from hserved]
        exact hperm
      have hrequests : (served.map fun s => s.1.request).Perm requests := by
        have hmapped : m.mapped.map ScheduledRequest.request = requests := mapRequests_mapped hmap
        have hall := hitems.map ScheduledRequest.request
        rwa [List.map_map, hmapped] at hall
      have hmapping := Timing.loop_mapping media ordered hinside
        (Timing.start_sized c ftl sim.media)
      rw [hloop] at hmapping
      simp only [hordered, hloop]
      exact .timed hm ⟨hitems, hrequests, hinv⟩ hmapping

/-- Percentiles up to the hundredth of a list with a value are values of it. -/
theorem percentile_ok {values : List ℚ} (h : values ≠ []) {p : ℕ} (hp : p ≤ 100) :
    ∃ value, percentile values p = .ok value := by
  have hlength : (sortedBy id values).length = values.length :=
    (sortedBy_stablySorted id values).perm.length_eq
  have hpos : 0 < values.length := List.length_pos_iff.mpr h
  have hle : (p : ℚ) / 100 * values.length ≤ values.length := by
    have hfraction : (p : ℚ) / 100 ≤ 1 := by
      rw [div_le_one (by norm_num)]
      exact_mod_cast hp
    exact mul_le_of_le_one_left (Nat.cast_nonneg _) hfraction
  have hceil : ⌈(p : ℚ) / 100 * values.length⌉ ≤ values.length := by
    rw [Int.ceil_le]
    exact_mod_cast hle
  obtain ⟨index, hindex⟩ : ∃ index : ℕ,
      max 0 (⌈(p : ℚ) / 100 * values.length⌉ - 1) = index :=
    Int.eq_ofNat_of_zero_le (le_max_left _ _)
  have hlt : index < (sortedBy id values).length := by
    rw [hlength]
    omega
  refine ⟨(sortedBy id values).getD index 0, ?_⟩
  rw [percentile, percentileOf, if_neg h]
  dsimp only
  rw [hlength, hindex, getItem?_natCast hlt 0]

theorem operationP99_ok (operation : Operation) (completions : List Completion) :
    ∃ value, operationP99 operation completions = .ok value := by
  unfold operationP99
  dsimp only
  split_ifs with h
  · exact ⟨0, rfl⟩
  · exact percentile_ok h (by decide)

theorem report_ok (c : ControllerConfig) (policy : String) (requests : List IORequest)
    (m : Mapped) {t : Timing σ} (h : t.completions ≠ []) :
    ∃ result, report c policy requests m t = .ok result ∧
      result.elapsedUs = elapsedUs c m t.completions ∧
      result.channelUtilization
        = t.channelBusy.sum / (elapsedUs c m t.completions * c.channels) ∧
      result.gcPagesMoved = m.gcPagesMoved := by
  have hne : t.completions.map Completion.latencyUs ≠ [] := by simpa using h
  obtain ⟨p50, h50⟩ := percentile_ok hne (p := 50) (by decide)
  obtain ⟨p95, h95⟩ := percentile_ok hne (p := 95) (by decide)
  obtain ⟨p99, h99⟩ := percentile_ok hne (p := 99) (by decide)
  obtain ⟨readP99, hread⟩ := operationP99_ok .read t.completions
  obtain ⟨writeP99, hwrite⟩ := operationP99_ok .write t.completions
  simp only [report, h50, h95, h99, hread, hwrite]
  exact ⟨_, rfl, rfl, rfl, rfl⟩

theorem Timed.completions_ne {requests : List IORequest} {m : Mapped} {t : Timing σ}
    {served : List (ScheduledRequest × Completion)} (h : Timed c requests m t served)
    (hne : requests ≠ []) : t.completions ≠ [] := by
  intro hnil
  rw [h.inv.completions, List.map_eq_nil_iff] at hnil
  have hlength := h.requests.length_eq
  simp only [hnil, List.map_nil, List.length_nil] at hlength
  exact hne (List.length_eq_zero_iff.mp hlength.symm)

/-- A run ends with an `IndexError` at no request list. -/
theorem run_ne_index (media : MediaModel σ) (requests : List IORequest) {sim : Simulator σ}
    (hplaced : Placed c sim.ftl) (e : IndexError) :
    (sim.run c media requests).1 ≠ .error (.index e) := by
  intro herror
  have hsim := simulate_simulates media requests hplaced
  unfold run at herror
  generalize sim.simulate c media requests = r at hsim herror
  cases hsim with
  | unmapped h => cases herror
  | unknown h hpolicy => cases herror
  | timed h htimed hmapping =>
    obtain ⟨result, hreport, -⟩ := report_ok c sim.policy requests _
      (htimed.completions_ne (runMapping_ok h).1)
    dsimp only at herror
    rw [hreport] at herror
    cases herror

/-- A run, whether it returns or raises, leaves the pages on the flash and the policy. -/
theorem run_keeps (media : MediaModel σ) (requests : List IORequest) {sim : Simulator σ}
    (hplaced : Placed c sim.ftl) :
    Placed c (sim.run c media requests).2.ftl ∧
      (sim.run c media requests).2.policy = sim.policy := by
  have hrule := runMapping_rule (fun _ call hs => after_placed call hs) requests hplaced
  have hsim := simulate_simulates media requests hplaced
  unfold run
  generalize sim.simulate c media requests = r at hsim
  cases hsim with
  | unmapped h =>
    rw [h] at hrule
    exact ⟨hrule, rfl⟩
  | unknown h hpolicy =>
    rw [h] at hrule
    exact ⟨hrule, rfl⟩
  | timed h htimed hmapping => exact ⟨htimed.inv.placed, rfl⟩

theorem uses_keep (c : ControllerConfig) (media : MediaModel σ) (policy : String) (m : σ)
    (history : List Use) :
    Placed c (uses c media (start policy m) history).ftl ∧
      (uses c media (start policy m) history).policy = policy := by
  unfold uses
  induction history using List.reverseRecOn with
  | nil => exact ⟨fresh_placed c, rfl⟩
  | append_singleton history use ih =>
    rw [List.foldl_append]
    cases use with
    | call call => exact ⟨after_placed call ih.1, ih.2⟩
    | run requests =>
      obtain ⟨hplaced, hpolicy⟩ := run_keeps media requests ih.1
      exact ⟨hplaced, hpolicy.trans ih.2⟩

/-- What the FTL of a simulator hands out, keeps or collects lies on the flash, and no run
subscripts a list out of range. -/
structure StaysInside (c : ControllerConfig) (media : MediaModel σ) (sim : Simulator σ) :
    Prop where
  write : ∀ lpn p ftl, sim.ftl.write c lpn = (.ok p, ftl) → InGeometry c p
  lookup : ∀ lpn p, sim.ftl.lookup lpn = some p → InGeometry c p
  mapRead : ∀ lpn, InGeometry c (sim.ftl.mapRead c lpn)
  reclaimed : ∀ p ∈ sim.ftl.reclaimed, InGeometry c p
  victim : ∀ victim, sim.ftl.victim? = some victim → BlockInGeometry c victim
  run : ∀ requests e, (sim.run c media requests).1 ≠ .error (.index e)

/-- Whatever writes, collections and runs a simulator has behind it. -/
theorem uses_staysInside (c : ControllerConfig) (media : MediaModel σ) (policy : String) (m : σ)
    (history : List Use) : StaysInside c media (uses c media (start policy m) history) := by
  have hplaced := (uses_keep c media policy m history).1
  constructor
  · exact fun lpn p ftl h => write_inGeometry hplaced h
  · exact hplaced.mapping
  · exact mapRead_inGeometry hplaced
  · exact hplaced.reclaimed
  · exact fun victim h => victim?_inGeometry hplaced h
  · exact fun requests e => run_ne_index media requests hplaced e

theorem finishUs_le_elapsedUs (c : ControllerConfig) (m : Mapped) {completions : List Completion}
    {done : Completion} (h : done ∈ completions) : done.finishUs ≤ elapsedUs c m completions := by
  have hmem : done.finishUs ∈ completions.map Completion.finishUs := List.mem_map_of_mem h
  have hcharge : 0 ≤ (m.gcEvents * c.eraseUs + m.gcPagesMoved * (c.readUs + c.programUs)) /
      (c.dies : ℚ) := by
    obtain ⟨hread, hprogram, herase, -⟩ := c.timing_pos
    positivity
  cases hmax : (completions.map Completion.finishUs).max? with
  | none =>
    rw [List.max?_eq_none_iff.mp hmax] at hmem
    cases hmem
  | some last =>
    have hle : done.finishUs ≤ last := (List.max?_eq_some_iff.mp hmax).2 _ hmem
    simp only [elapsedUs, hmax, Option.getD_some]
    linarith

theorem Timed.utilization {requests : List IORequest} {m : Mapped} {t : Timing σ}
    {served : List (ScheduledRequest × Completion)} (h : Timed c requests m t served)
    {elapsed : ℚ} (helapsed : ∀ s ∈ served, s.2.finishUs ≤ elapsed) (hne : served ≠ []) :
    0 < elapsed ∧ 0 < t.channelBusy.sum / (elapsed * c.channels) ∧
      t.channelBusy.sum / (elapsed * c.channels) ≤ 1 := by
  obtain ⟨first, rest, rfl⟩ := List.exists_cons_of_ne_nil hne
  have hinv := h.inv
  have hcompletes := hinv.completes first List.mem_cons_self
  have hpos : 0 < elapsed := by
    have harrival := first.1.request.arrival_nonneg.trans hcompletes.arrival
    have htransfer := Timing.transferTimeUs_pos c first.1.request.pages_pos
    have := helapsed first List.mem_cons_self
    have := hcompletes.transfer
    linarith
  have hupper : ∀ x ∈ t.channelBusy, x ≤ elapsed := by
    intro x hx
    obtain ⟨channel, rfl⟩ := Timing.exists_busyTime hx
    refine (hinv.busy channel).2.trans ?_
    rcases hinv.free channel with hfree | ⟨s, hs, hle⟩
    · exact hfree ▸ hpos.le
    · exact hle.trans (helapsed s hs)
  have hlower : ∀ x ∈ t.channelBusy, 0 ≤ x := by
    intro x hx
    obtain ⟨channel, rfl⟩ := Timing.exists_busyTime hx
    exact (hinv.busy channel).1
  have hsum : 0 < t.channelBusy.sum := by
    have hused : 0 < t.busyTime (channelOf first.1) := hinv.used first List.mem_cons_self
    exact hused.trans_le (List.single_le_sum hlower _ (Timing.busyTime_mem hused.ne'))
  have hchannels : (0 : ℚ) < c.channels := Nat.cast_pos.mpr c.geometry_pos.1
  have hbound : t.channelBusy.sum ≤ elapsed * c.channels := by
    have hcard := List.sum_le_card_nsmul t.channelBusy elapsed hupper
    rw [hinv.sized.busy, nsmul_eq_mul] at hcard
    linarith
  exact ⟨hpos, by positivity, (div_le_one (by positivity)).mpr hbound⟩

/-- What a run that got past its mapping phase did: the items it served with their
completions, against the requests, their mapped pages and the result. -/
structure Timetable (c : ControllerConfig) (requests : List IORequest) (mapped : Mapped)
    (completions : List Completion) (served : List (ScheduledRequest × Completion))
    (result : SimulationResult) : Prop where
  mapped : (served.map Prod.fst).Perm mapped.mapped
  requests : (served.map fun s => s.1.request).Perm requests
  completions : completions = served.map Prod.snd
  completes : ∀ s ∈ served, Timing.Completes c s.1 s.2
  channels : Exclusive (served.map (Timing.channelReservation c))
  dies : Exclusive (served.map Timing.dieReservation)
  elapsed : 0 < result.elapsedUs ∧ ∀ s ∈ served, s.2.finishUs ≤ result.elapsedUs
  utilization : 0 < result.channelUtilization ∧ result.channelUtilization ≤ 1

/-- Under a known policy a run returns whenever its mapping phase does. -/
theorem run_mapped (media : MediaModel σ) {sim : Simulator σ} (hplaced : Placed c sim.ftl)
    (hpolicy : sim.policy = "fifo" ∨ sim.policy = "read-priority") {requests : List IORequest}
    {mapped : Mapped} {ftl : PageMappingFTL}
    (hmap : runMapping c requests sim.ftl = (.ok mapped, ftl)) :
    ∃ t served result,
      sim.simulate c media requests = (.ok (mapped, t), ⟨sim.policy, t.ftl, t.media⟩) ∧
      report c sim.policy requests mapped t = .ok result ∧
      sim.run c media requests = (.ok result, ⟨sim.policy, t.ftl, t.media⟩) ∧
      Timed c requests mapped t served ∧ t.ftl.mapping = ftl.mapping := by
  have hsim := simulate_simulates media requests hplaced
  unfold run
  generalize sim.simulate c media requests = r at hsim
  cases hsim with
  | unmapped h =>
    rw [h] at hmap
    cases hmap
  | unknown h hunknown =>
    rcases hpolicy with hname | hname
    · rw [hname] at hunknown
      cases hunknown
    · rw [hname] at hunknown
      cases hunknown
  | @timed m' ftl' t served h htimed hmapping =>
    rw [h] at hmap
    simp only [Prod.mk.injEq, Except.ok.injEq] at hmap
    obtain ⟨rfl, rfl⟩ := hmap
    obtain ⟨result, hreport, -⟩ := report_ok c sim.policy requests m'
      (htimed.completions_ne (runMapping_ok h).1)
    exact ⟨t, served, result, rfl, hreport, congrArg (·, _) hreport, htimed, hmapping⟩

/-- Channels and dies serve one request at a time under both policies, for every media model
and whatever the simulator has behind it, and the utilization is a positive fraction. -/
theorem run_timetable (c : ControllerConfig) (media : MediaModel σ) {policy : String}
    (hpolicy : policy = "fifo" ∨ policy = "read-priority") (m : σ) (history : List Use)
    {requests : List IORequest} {mapped : Mapped} {ftl : PageMappingFTL}
    (hmap : runMapping c requests (uses c media (start policy m) history).ftl
      = (.ok mapped, ftl)) :
    ∃ t served result sim,
      (uses c media (start policy m) history).simulate c media requests = (.ok (mapped, t), sim) ∧
      (uses c media (start policy m) history).run c media requests = (.ok result, sim) ∧
      Timetable c requests mapped t.completions served result := by
  obtain ⟨hplaced, hname⟩ := uses_keep c media policy m history
  generalize uses c media (start policy m) history = sim at *
  obtain ⟨t, served, result, hsim, hreport, hrun, htimed, -⟩ :=
    run_mapped media hplaced (hname ▸ hpolicy) hmap
  have hne := htimed.completions_ne (runMapping_ok hmap).1
  obtain ⟨result', hreport', helapsed, hutilization, -⟩ :=
    report_ok c sim.policy requests mapped hne
  obtain rfl : result = result' := Except.ok.inj (hreport.symm.trans hreport')
  have hfinish : ∀ s ∈ served, s.2.finishUs ≤ elapsedUs c mapped t.completions := by
    intro s hs
    apply finishUs_le_elapsedUs
    rw [htimed.inv.completions]
    exact List.mem_map_of_mem hs
  have hserved : served ≠ [] := by
    rintro rfl
    exact hne htimed.inv.completions
  obtain ⟨hpos, hlower, hupper⟩ := htimed.utilization hfinish hserved
  refine ⟨t, served, result, _, hsim, hrun, htimed.mapped, htimed.requests,
    htimed.inv.completions, htimed.inv.completes, htimed.inv.channels.exclusive,
    htimed.inv.dies.exclusive, ?_, ?_⟩
  · rw [helapsed]
    exact ⟨hpos, hfinish⟩
  · rw [hutilization]
    exact ⟨hlower, hupper⟩

/-- Every operation takes a microsecond. -/
def steadyMedia : MediaModel Unit :=
  ⟨fun _ _ _ u => ({ latencyUs := 1, latency_nonneg := by norm_num }, u)⟩

/-- A request that arrives at time zero. -/
def atStart (requestId : ℕ) (operation : Operation) (lpn pages : ℕ) (h : 0 < pages) : IORequest :=
  { requestId := requestId, operation := operation, lpn := lpn, pages := pages, pages_pos := h
    arrival_nonneg := le_refl 0 }

def writeThenRead : List IORequest :=
  [atStart 0 .write 0 1 Nat.one_pos, atStart 1 .read 0 2 Nat.two_pos]

theorem writeThenRead_timetable :
    ∃ mapped t served result sim,
      (start "fifo" ()).simulate twoBlockConfig steadyMedia writeThenRead
        = (.ok (mapped, t), sim) ∧
      (start "fifo" ()).run twoBlockConfig steadyMedia writeThenRead = (.ok result, sim) ∧
      Timetable twoBlockConfig writeThenRead mapped t.completions served result :=
  ⟨_, run_timetable twoBlockConfig steadyMedia (Or.inl rfl) () [] rfl⟩

end OpenFlash.Simulator
