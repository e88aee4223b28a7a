import OpenFlash.Ftl.Relocation

/-! The mapping phase of `Simulator.run`: every request gets a physical page before any
timing is simulated, with a collection in front of a write when the FTL asks for one. -/
namespace OpenFlash.Simulator
open Ftl PageMappingFTL

inductive Operation where
  | read
  | write
  | erase
  deriving DecidableEq

/-- A request that `__post_init__` accepts. -/
structure IORequest where
  requestId : ℕ
  operation : Operation
  lpn : ℕ
  pages : ℕ := 1
  arrivalUs : ℚ := 0
  pages_pos : 0 < pages := by decide
  arrival_nonneg : 0 ≤ arrivalUs := by norm_num

structure ScheduledRequest where
  request : IORequest
  physical : PhysicalPage

/-- The local variables of the mapping loop. -/
structure Mapped where
  mapped : List ScheduledRequest
  gcEvents : ℕ
  gcPagesMoved : ℕ

inductive RunError where
  | value (e : ValueError)
  | outOfSpace (e : OutOfSpaceError)

/-- `if self.ftl.needs_gc`. -/
def collectIfNeeded (c : ControllerConfig) (ftl : PageMappingFTL) :
    Except OutOfSpaceError (Option GarbageCollectionResult) × PageMappingFTL :=
  if ftl.needsGc c then
    match ftl.garbageCollect c with
    | (.error e, ftl) => (.error e, ftl)
    | (.ok gc, ftl) => (.ok (some gc), ftl)
  else (.ok none, ftl)

/-- The FTL's part in one iteration: the collection, if there was one, and the page. -/
def serve (c : ControllerConfig) (request : IORequest) (ftl : PageMappingFTL) :
    Except OutOfSpaceError (Option GarbageCollectionResult × PhysicalPage) × PageMappingFTL :=
  if request.operation = .read then (.ok (none, ftl.mapRead c request.lpn), ftl)
  else
    match collectIfNeeded c ftl with
    | (.error e, ftl) => (.error e, ftl)
    | (.ok gc, ftl) =>
        match ftl.write c request.lpn with
        | (.error e, ftl) => (.error e, ftl)
        | (.ok physical, ftl) => (.ok (gc, physical), ftl)

def Mapped.record (m : Mapped) (request : IORequest) (gc : Option GarbageCollectionResult)
    (physical : PhysicalPage) : Mapped :=
  { mapped := m.mapped ++ [⟨request, physical⟩]
    gcEvents := m.gcEvents + gc.toList.length
    gcPagesMoved := m.gcPagesMoved + (gc.toList.map GarbageCollectionResult.pagesMoved).sum }

def mapRequests (c : ControllerConfig) :
    List IORequest → Mapped → PageMappingFTL → Except OutOfSpaceError Mapped × PageMappingFTL
  | [], m, ftl => (.ok m, ftl)
  | request :: rest, m, ftl =>
      match serve c request ftl with
      | (.error e, ftl) => (.error e, ftl)
      | (.ok (gc, physical), ftl) => mapRequests c rest (m.record request gc physical) ftl

/-- `Simulator.run` up to the end of the mapping loop, on the simulator's FTL. -/
def runMapping (c : ControllerConfig) (requests : List IORequest) (ftl : PageMappingFTL) :
    Except RunError Mapped × PageMappingFTL :=
  match requests with
  | [] => (.error (.value ⟨"at least one request is required"⟩), ftl)
  | requests =>
      match mapRequests c requests ⟨[], 0, 0⟩ ftl with
      | (.error e, ftl) => (.error (.outOfSpace e), ftl)
      | (.ok m, ftl) => (.ok m, ftl)

variable {c : ControllerConfig} {ftl ftl' : PageMappingFTL}

theorem collectIfNeeded_ok {gc : Option GarbageCollectionResult}
    (h : collectIfNeeded c ftl = (.ok gc, ftl')) :
    (ftl.needsGc c = false ∧ gc = none ∧ ftl' = ftl) ∨
      (ftl.needsGc c = true ∧ ∃ r, gc = some r ∧ ftl.garbageCollect c = (.ok r, ftl')) := by
  unfold collectIfNeeded at h
  by_cases hneeds : ftl.needsGc c = true
  · rw [if_pos hneeds] at h
    rcases hg : ftl.garbageCollect c with ⟨_ | r, u⟩
    · rw [hg] at h
      cases h
    · rw [hg] at h
      simp only [Prod.mk.injEq, Except.ok.injEq] at h
      obtain ⟨rfl, rfl⟩ := h
      exact Or.inr ⟨hneeds, r, rfl, rfl⟩
  · rw [if_neg hneeds] at h
    simp only [Prod.mk.injEq, Except.ok.injEq] at h
    exact Or.inl ⟨Bool.eq_false_of_not_eq_true hneeds, h.1.symm, h.2.symm⟩

/-- The ways an iteration returns: a read is looked up, anything else is written, after a
collection if there was one. -/
theorem serve_ok {request : IORequest} {gc : Option GarbageCollectionResult} {p : PhysicalPage}
    (h : serve c request ftl = (.ok (gc, p), ftl')) :
    (request.operation = .read ∧ gc = none ∧ p = ftl.mapRead c request.lpn ∧ ftl' = ftl) ∨
      (request.operation ≠ .read ∧ ∃ u, collectIfNeeded c ftl = (.ok gc, u) ∧
        u.write c request.lpn = (.ok p, ftl')) := by
  unfold serve at h
  by_cases hread : request.operation = .read
  · rw [if_pos hread] at h
    simp only [Prod.mk.injEq, Except.ok.injEq] at h
    obtain ⟨⟨rfl, rfl⟩, rfl⟩ := h
    exact Or.inl ⟨hread, rfl, rfl, rfl⟩
  · rw [if_neg hread] at h
    refine Or.inr ⟨hread, ?_⟩
    rcases hc : collectIfNeeded c ftl with ⟨_ | gc', u⟩
    · rw [hc] at h
      cases h
    · rw [hc] at h
      dsimp only at h
      rcases hw : u.write c request.lpn with ⟨_ | q, v⟩
      · rw [hw] at h
        cases h
      · rw [hw] at h
        simp only [Prod.mk.injEq, Except.ok.injEq] at h
        obtain ⟨⟨rfl, rfl⟩, rfl⟩ := h
        exact ⟨u, rfl, hw⟩

/-- The rule for an iteration: what every call of the FTL keeps, it keeps, also when it
raises. -/
theorem serve_rule {P : PageMappingFTL → Prop} (hafter : ∀ s call, P s → P (after c s call))
    (request : IORequest) (h : P ftl) : P (serve c request ftl).2 := by
  have hcollect : P (collectIfNeeded c ftl).2 := by
    unfold collectIfNeeded
    split_ifs
    · have hgc : P (ftl.garbageCollect c).2 := hafter ftl .garbageCollect h
      rcases hg : ftl.garbageCollect c with ⟨_ | _, u⟩
      · simpa [hg] using hgc
      · simpa [hg] using hgc
    · exact h
  unfold serve
  split_ifs
  · exact h
  · rcases hc : collectIfNeeded c ftl with ⟨_ | gc, u⟩
    · simpa [hc] using hcollect
    · have hu : P u := by simpa [hc] using hcollect
      have hwrite : P (u.write c request.lpn).2 := hafter u (.write request.lpn) hu
      rcases hw : u.write c request.lpn with ⟨_ | _, v⟩
      · simpa [hw] using hwrite
      · simpa [hw] using hwrite

theorem mapRequests_rule {P : PageMappingFTL → Prop}
    (hafter : ∀ s call, P s → P (after c s call)) (requests : List IORequest) (m : Mapped)
    (h : P ftl) : P (mapRequests c requests m ftl).2 := by
  induction requests generalizing m ftl with
  | nil => exact h
  | cons request rest ih =>
    have hserve := serve_rule hafter request h
    rw [mapRequests]
    rcases hs : serve c request ftl with ⟨_ | ⟨gc, p⟩, u⟩
    · simpa [hs] using hserve
    · exact ih (m.record request gc p) (by simpa [hs] using hserve)

/-- The run rule that goes with `serve_rule`. -/
theorem runMapping_rule {P : PageMappingFTL → Prop}
    (hafter : ∀ s call, P s → P (after c s call)) (requests : List IORequest) (h : P ftl) :
    P (runMapping c requests ftl).2 := by
  cases requests with
  | nil => exact h
  | cons request rest =>
    have hmap := mapRequests_rule hafter (request :: rest) ⟨[], 0, 0⟩ h
    unfold runMapping
    rcases hm : mapRequests c (request :: rest) ⟨[], 0, 0⟩ ftl with ⟨_ | _, u⟩
    · simpa [hm] using hmap
    · simpa [hm] using hmap

/-- The loop body of a run that returns, and the rest of the run. -/
theorem mapRequests_cons_ok {request : IORequest} {rest : List IORequest} {m m' : Mapped}
    (h : mapRequests c (request :: rest) m ftl = (.ok m', ftl')) :
    ∃ gc p u, serve c request ftl = (.ok (gc, p), u) ∧
      mapRequests c rest (m.record request gc p) u = (.ok m', ftl') := by
  rw [mapRequests] at h
  rcases hs : serve c request ftl with ⟨_ | ⟨gc, p⟩, u⟩
  · rw [hs] at h
    cases h
  · rw [hs] at h
    exact ⟨gc, p, u, rfl, h⟩

theorem runMapping_ok {requests : List IORequest} {m : Mapped}
    (h : runMapping c requests ftl = (.ok m, ftl')) :
    requests ≠ [] ∧ mapRequests c requests ⟨[], 0, 0⟩ ftl = (.ok m, ftl') := by
  cases requests with
  | nil => cases h
  | cons request rest =>
    refine ⟨List.cons_ne_nil _ _, ?_⟩
    unfold runMapping at h
    dsimp only at h
    rcases hm : mapRequests c (request :: rest) ⟨[], 0, 0⟩ ftl with ⟨_ | _, u⟩
    · rw [hm] at h
      cases h
    · rw [hm] at h
      simpa using h

/-- Every request is mapped once, in the order of the list. -/
theorem mapRequests_mapped {requests : List IORequest} {m m' : Mapped}
    (h : mapRequests c requests m ftl = (.ok m', ftl')) :
    m'.mapped.map ScheduledRequest.request
      = m.mapped.map ScheduledRequest.request ++ requests := by
  induction requests generalizing m ftl with
  | nil =>
    simp only [mapRequests, Prod.mk.injEq, Except.ok.injEq] at h
    simp [h.1]
  | cons request rest ih =>
    obtain ⟨gc, p, u, -, hrest⟩ := mapRequests_cons_ok h
    simp [ih hrest, Mapped.record]

/-- The collector can do what `needs_gc` asks for: no page is left at all, or some block can
be reclaimed and its live pages fit into the spare ones. -/
def CollectorReady (c : ControllerConfig) (ftl : PageMappingFTL) : Prop :=
  ftl.needsGc c = true → ftl.freePages c = 0 ∨
    ∃ victim, ftl.victim? = some victim ∧
      (ftl.liveLpns victim).length ≤ (sparePages c ftl victim).length

/-- Every write that the mapping loop reaches finds the collector ready. -/
def ReadyThroughout (c : ControllerConfig) : List IORequest → PageMappingFTL → Prop
  | [], _ => True
  | request :: rest, ftl =>
      (request.operation ≠ .read → CollectorReady c ftl) ∧
        ∀ r ftl', serve c request ftl = (.ok r, ftl') → ReadyThroughout c rest ftl'

/-- A collection that raises leaves free pages behind unless there were none before it; it
returns only if the victim's live pages fit. -/
theorem garbageCollect_spare {r : Except OutOfSpaceError GarbageCollectionResult}
    (h : ftl.garbageCollect c = (r, ftl')) :
    (∀ e, r = .error e →
      (ftl'.freePages c = 0 ↔ ftl.freePages c = 0 ∨ ∃ victim, ftl.victim? = some victim ∧
        (ftl.liveLpns victim).length ≤ (sparePages c ftl victim).length)) ∧
    (∀ gc, r = .ok gc → ∃ victim, ftl.victim? = some victim ∧
        (ftl.liveLpns victim).length ≤ (sparePages c ftl victim).length) := by
  have hcollects := PageMappingFTL.garbageCollect_collects c ftl
  rw [h] at hcollects
  cases hcollects with
  | noVictim hv =>
    refine ⟨fun e _ => ?_, fun gc hgc => by simp at hgc⟩
    simp [hv]
  | @noWorkspace victim hv hspace =>
    refine ⟨fun e _ => ?_, fun gc hgc => by simp at hgc⟩
    have hfree := length_sparePages_le c ftl victim
    show ftl.freePages c = 0 ↔ _
    constructor
    · exact Or.inl
    · rintro (h0 | ⟨victim', hv', hle⟩)
      · exact h0
      · obtain rfl : victim = victim' := Option.some.inj (hv.symm.trans hv')
        omega
  | @stuck victim e t hv hspace hr =>
    refine ⟨fun e _ => ?_, fun gc hgc => by simp at hgc⟩
    -- The pages that are left after it are those that it had to leave alone.
    obtain ⟨hlt, hused, -⟩ := relocate_error (nodup_liveLpns ftl victim) hr
    have hlt' : (sparePages c ftl victim).length < (ftl.liveLpns victim).length := hlt
    have hused' : ftl'.freePages c + (sparePages c ftl victim).length = ftl.freePages c := hused
    constructor
    · intro h0
      omega
    · rintro (h0 | ⟨victim', hv', hle⟩)
      · omega
      · obtain rfl : victim = victim' := Option.some.inj (hv.symm.trans hv')
        omega
  | @done victim t hv hspace hr =>
    refine ⟨fun e he => by simp at he, fun gc _ => ⟨victim, hv, ?_⟩⟩
    exact (relocate_ok (nodup_liveLpns ftl victim) hr).1

/-- The collection in front of a write, if one is due. -/
theorem collectIfNeeded_ready {r : Except OutOfSpaceError (Option GarbageCollectionResult)}
    (h : collectIfNeeded c ftl = (r, ftl')) :
    (∀ e, r = .error e → (ftl'.freePages c = 0 ↔ CollectorReady c ftl)) ∧
      ∀ gc, r = .ok gc → CollectorReady c ftl := by
  unfold collectIfNeeded at h
  by_cases hneeds : ftl.needsGc c = true
  · rw [if_pos hneeds] at h
    have hready : CollectorReady c ftl ↔
        (ftl.freePages c = 0 ∨ ∃ victim, ftl.victim? = some victim ∧
          (ftl.liveLpns victim).length ≤ (sparePages c ftl victim).length) :=
      ⟨fun hr => hr hneeds, fun hr _ => hr⟩
    rw [hready]
    rcases hgc : ftl.garbageCollect c with ⟨g, u⟩
    obtain ⟨herror, hok⟩ := garbageCollect_spare hgc
    rw [hgc] at h
    cases g with
    | error e =>
      obtain ⟨rfl, rfl⟩ := Prod.mk.inj h
      exact ⟨fun _ _ => herror e rfl, fun gc hgc => by cases hgc⟩
    | ok gc =>
      obtain ⟨rfl, -⟩ := Prod.mk.inj h
      exact ⟨fun e he => (by cases he), fun _ _ => Or.inr (hok gc rfl)⟩
  · rw [if_neg hneeds] at h
    obtain ⟨rfl, -⟩ := Prod.mk.inj h
    exact ⟨fun e he => (by cases he), fun _ _ hn => absurd hn hneeds⟩

/-- An iteration that raises does so on a full flash exactly when it found the collector
ready, and one that does not raise always did. -/
theorem serve_ready {request : IORequest}
    {r : Except OutOfSpaceError (Option GarbageCollectionResult × PhysicalPage)}
    (h : serve c request ftl = (r, ftl')) :
    (∀ e, r = .error e →
      (ftl'.freePages c = 0 ↔ (request.operation ≠ .read → CollectorReady c ftl))) ∧
    (∀ x, r = .ok x → request.operation ≠ .read → CollectorReady c ftl) := by
  unfold serve at h
  by_cases hread : request.operation = .read
  · rw [if_pos hread] at h
    obtain ⟨rfl, -⟩ := Prod.mk.inj h
    exact ⟨fun e he => (by cases he), fun _ _ hne => absurd hread hne⟩
  rw [if_neg hread] at h
  rcases hcollect : collectIfNeeded c ftl with ⟨g, u⟩
  obtain ⟨herror, hok⟩ := collectIfNeeded_ready hcollect
  rw [hcollect] at h
  cases g with
  | error e =>
    obtain ⟨rfl, rfl⟩ := Prod.mk.inj h
    constructor
    · intro _ _
      rw [herror e rfl]
      exact ⟨fun hr _ => hr, fun hr => hr hread⟩
    · intro x hx
      cases hx
  | ok gc =>
    have hready := hok gc rfl
    refine ⟨fun e he => iff_of_true ?_ fun _ => hready, fun _ _ _ => hready⟩
    dsimp only at h
    rcases hw : u.write c request.lpn with ⟨w, v⟩
    rw [hw] at h
    cases w with
    | ok p =>
      obtain ⟨rfl, -⟩ := Prod.mk.inj h
      cases he
    | error e' =>
      obtain ⟨-, rfl⟩ := Prod.mk.inj h
      obtain ⟨rfl, hzero⟩ := PageMappingFTL.write_error hw
      exact hzero

/-- The mapping loop, from any state of the FTL. -/
theorem mapRequests_ready_iff (requests : List IORequest) (m : Mapped) (ftl : PageMappingFTL) :
    (∀ e ftl', mapRequests c requests m ftl = (.error e, ftl') → ftl'.freePages c = 0) ↔
      ReadyThroughout c requests ftl := by
  induction requests generalizing m ftl with
  | nil => simp [mapRequests, ReadyThroughout]
  | cons request rest ih =>
    rw [mapRequests, ReadyThroughout]
    rcases hs : serve c request ftl with ⟨r, u⟩
    obtain ⟨herror, hok⟩ := serve_ready hs
    cases r with
    | error e =>
      simp only [Prod.mk.injEq, Except.error.injEq, reduceCtorEq, false_and, IsEmpty.forall_iff,
        implies_true, and_true]
      rw [← herror e rfl]
      constructor
      · exact fun h => h e u ⟨rfl, rfl⟩
      · rintro h0 _ _ ⟨-, rfl⟩
        exact h0
    | ok x =>
      simp only [Prod.mk.injEq, Except.ok.injEq]
      rw [ih]
      constructor
      · intro hrest
        refine ⟨hok x rfl, ?_⟩
        rintro _ _ ⟨-, rfl⟩
        exact hrest
      · exact fun h => h.2 x u ⟨rfl, rfl⟩

/-- A run raises `OutOfSpaceError` only on a full flash exactly when every write it reaches
finds the collector ready, whatever earlier runs left in the simulator's FTL. -/
theorem runMapping_ready_iff (c : ControllerConfig) (requests : List IORequest)
    (ftl : PageMappingFTL) :
    (∀ e ftl', runMapping c requests ftl = (.error (.outOfSpace e), ftl') →
        ftl'.freePages c = 0) ↔
      ReadyThroughout c requests ftl := by
  rw [← mapRequests_ready_iff requests ⟨[], 0, 0⟩ ftl]
  cases requests with
  | nil => simp [runMapping, mapRequests]
  | cons request rest =>
    rw [runMapping]
    · rcases mapRequests c (request :: rest) ⟨[], 0, 0⟩ ftl with ⟨_ | _, u⟩
      · simp
      · simp
    · simp

/-- One LPN written twice and two others once. -/
def overwriteThenTwo : List IORequest :=
  [{ requestId := 0, operation := .write, lpn := 0 },
   { requestId := 1, operation := .write, lpn := 0 },
   { requestId := 2, operation := .write, lpn := 1 },
   { requestId := 3, operation := .write, lpn := 2 }]

/-- The second collection finds only the zero entry that the first one left, and the run
ends with eight free pages. -/
theorem overwriteThenTwo_spurious :
    ∃ ftl, runMapping twoBlockConfig overwriteThenTwo .fresh =
        (.error (.outOfSpace ⟨"no reclaimable block is available"⟩), ftl) ∧
      ftl.freePages twoBlockConfig = 8 := by
  refine ⟨_, rfl, ?_⟩
  decide

end OpenFlash.Simulator
