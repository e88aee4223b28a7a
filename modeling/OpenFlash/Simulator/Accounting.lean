import OpenFlash.Ftl.Allocations
import OpenFlash.Simulator.Run

/-! Page accounting of a run. A request of several pages is charged for all of them in the
metrics, while the mapping loop writes its first LPN only. -/
namespace OpenFlash.Simulator
open Ftl PageMappingFTL
variable {c : ControllerConfig} {ftl ftl' : PageMappingFTL}

/-- The pages that the FTL allocates in one iteration of the mapping loop. -/
def servedPages (c : ControllerConfig) (request : IORequest) (ftl : PageMappingFTL) :
    List PhysicalPage :=
  if request.operation = .read then []
  else
    (if ftl.needsGc c then ftl.allocations c .garbageCollect else []) ++
      match collectIfNeeded c ftl with
      | (.error _, _) => []
      | (.ok _, ftl) => ftl.allocations c (.write request.lpn)

/-- The pages that the FTL allocates during the mapping loop. -/
def allocatedPages (c : ControllerConfig) : List IORequest → PageMappingFTL → List PhysicalPage
  | [], _ => []
  | request :: rest, ftl =>
      servedPages c request ftl ++
        match serve c request ftl with
        | (.error _, _) => []
        | (.ok _, ftl) => allocatedPages c rest ftl

/-- Writes and erases reach `ftl.write`, once each. -/
def writeCalls (requests : List IORequest) : List IORequest :=
  requests.filter fun request => request.operation ≠ .read

theorem serve_pages {request : IORequest} {gc : Option GarbageCollectionResult} {p : PhysicalPage}
    (h : serve c request ftl = (.ok (gc, p), ftl')) :
    (servedPages c request ftl).length
      = (writeCalls [request]).length + (gc.toList.map GarbageCollectionResult.pagesMoved).sum := by
  rcases serve_ok h with ⟨hread, rfl, -⟩ | ⟨hwrite, u, hcollect, hw⟩
  · simp [servedPages, writeCalls, hread]
  · rw [servedPages, if_neg hwrite, hcollect]
    dsimp only
    rw [write_allocations hw]
    rcases collectIfNeeded_ok hcollect with ⟨hneeds, rfl, -⟩ | ⟨hneeds, r, rfl, hg⟩
    · simp [hneeds, writeCalls, hwrite]
    · simp [hneeds, writeCalls, hwrite, garbageCollect_allocations hg, Nat.add_comm]

theorem serve_mapped (hcounted : Counted ftl) {request : IORequest}
    {gc : Option GarbageCollectionResult} {p : PhysicalPage}
    (h : serve c request ftl = (.ok (gc, p), ftl')) (l : ℤ) :
    (ftl'.mapping.get? l).isSome ↔
      (∃ r ∈ writeCalls [request], (r.lpn : ℤ) = l) ∨ (ftl.mapping.get? l).isSome := by
  rcases serve_ok h with ⟨hread, -, -, rfl⟩ | ⟨hwrite, u, hcollect, hw⟩
  · simp [writeCalls, hread]
  · have hu : (u.mapping.get? l).isSome ↔ (ftl.mapping.get? l).isSome := by
      rcases collectIfNeeded_ok hcollect with ⟨-, -, rfl⟩ | ⟨-, r, -, hg⟩
      · exact Iff.rfl
      · exact garbageCollect_mapped hcounted hg l
    rw [write_mapped hw, hu]
    simp [writeCalls, hwrite]

/-- What the mapping loop allocated and mapped, by the writes and erases of the list. -/
theorem mapRequests_pages {requests : List IORequest} {m m' : Mapped} (hcounted : Counted ftl)
    (h : mapRequests c requests m ftl = (.ok m', ftl')) :
    (allocatedPages c requests ftl).length + m.gcPagesMoved
        = (writeCalls requests).length + m'.gcPagesMoved ∧
      ∀ l, (ftl'.mapping.get? l).isSome ↔
        (∃ r ∈ writeCalls requests, (r.lpn : ℤ) = l) ∨ (ftl.mapping.get? l).isSome := by
  induction requests generalizing m ftl with
  | nil =>
    simp only [mapRequests, Prod.mk.injEq, Except.ok.injEq] at h
    obtain ⟨rfl, rfl⟩ := h
    simp [allocatedPages, writeCalls]
  | cons request rest ih =>
    obtain ⟨gc, p, u, hs, hrest⟩ := mapRequests_cons_ok h
    have hu : Counted u := by
      have hrule := serve_rule (c := c) (fun _ call hs => after_counted call hs) request hcounted
      rwa [hs] at hrule
    obtain ⟨hlength, hmapped⟩ := ih hu hrest
    have hcalls : writeCalls (request :: rest) = writeCalls [request] ++ writeCalls rest := by
      simp only [writeCalls, ← List.filter_append, List.singleton_append]
    constructor
    · have hpages := serve_pages hs
      rw [allocatedPages, hs, hcalls]
      simp only [List.length_append, Mapped.record] at hlength ⊢
      omega
    · intro l
      rw [hmapped, serve_mapped hcounted hs, hcalls]
      simp only [List.mem_append, or_and_right, exists_or]
      rw [or_left_comm, or_assoc]

/-- The FTL has a page for every LPN that the writes cover, and it allocated as many pages as
the numerator of `write_amplification` says. -/
structure PagesAccounted (c : ControllerConfig) (requests : List IORequest)
    (result : SimulationResult) (ftl : PageMappingFTL) : Prop where
  mapped : ∀ request ∈ requests, request.operation = .write →
    ∀ l : ℕ, request.lpn ≤ l → l < request.lpn + request.pages → (ftl.lookup l).isSome
  numerator : (allocatedPages c requests .fresh).length
    = hostPages requests + result.gcPagesMoved

/-- Every LPN that a write covers is the first LPN of a write or an erase, and there are as
many of these as pages to write. -/
def FirstPagesSuffice (requests : List IORequest) : Prop :=
  (∀ request ∈ requests, request.operation = .write →
    ∀ l : ℕ, request.lpn ≤ l → l < request.lpn + request.pages →
      ∃ r ∈ writeCalls requests, r.lpn = l) ∧
    (writeCalls requests).length = hostPages requests

theorem run_ok {σ : Type} {media : MediaModel σ} {requests : List IORequest}
    {sim sim' : Simulator σ} {result : SimulationResult} (hplaced : Placed c sim.ftl)
    (h : sim.run c media requests = (.ok result, sim')) :
    ∃ m ftl, runMapping c requests sim.ftl = (.ok m, ftl) ∧
      result.gcPagesMoved = m.gcPagesMoved ∧ sim'.ftl.mapping = ftl.mapping := by
  have hsim := simulate_simulates media requests hplaced
  unfold run at h
  generalize sim.simulate c media requests = r at hsim h
  cases hsim with
  | unmapped hm => cases h
  | unknown hm hpolicy => cases h
  | @timed m ftl t served hm htimed hmapping =>
    obtain ⟨result', hreport, -, -, hmoved⟩ := report_ok c sim.policy requests m
      (htimed.completions_ne (runMapping_ok hm).1)
    dsimp only at h
    rw [hreport] at h
    simp only [Prod.mk.injEq, Except.ok.injEq] at h
    obtain ⟨rfl, rfl⟩ := h
    exact ⟨m, ftl, hm, hmoved, hmapping⟩

/-- A run of a fresh simulator accounts for its pages exactly when the first pages of its
writes and erases are all there is to write. -/
theorem run_pagesAccounted_iff {σ : Type} (c : ControllerConfig) (media : MediaModel σ)
    (policy : String) (m : σ) (requests : List IORequest) {result : SimulationResult}
    {sim : Simulator σ} (h : (start policy m).run c media requests = (.ok result, sim)) :
    PagesAccounted c requests result sim.ftl ↔ FirstPagesSuffice requests := by
  obtain ⟨mapped, ftl, hmap, hmoved, hmapping⟩ := run_ok (fresh_placed c) h
  obtain ⟨hlength, hget⟩ := mapRequests_pages fresh_counted (runMapping_ok hmap).2
  have hmapped : ∀ l : ℕ, (sim.ftl.lookup l).isSome ↔ ∃ r ∈ writeCalls requests, r.lpn = l := by
    intro l
    rw [lookup, hmapping, hget l]
    simp [fresh]
  dsimp only at hlength
  constructor
  · rintro ⟨hcovered, hnumerator⟩
    refine ⟨fun request hr hw l hlo hhi => (hmapped l).mp (hcovered request hr hw l hlo hhi), ?_⟩
    omega
  · rintro ⟨hcovered, hcount⟩
    refine ⟨fun request hr hw l hlo hhi => (hmapped l).mpr (hcovered request hr hw l hlo hhi), ?_⟩
    omega

theorem writeThenRead_pagesAccounted :
    ∃ result sim, (start "fifo" ()).run twoBlockConfig steadyMedia writeThenRead
        = (.ok result, sim) ∧
      PagesAccounted twoBlockConfig writeThenRead result sim.ftl := by
  have hmap : runMapping twoBlockConfig writeThenRead (start "fifo" ()).ftl = (.ok _, _) := rfl
  obtain ⟨t, served, result, -, -, hrun, -⟩ :=
    run_mapped steadyMedia (fresh_placed twoBlockConfig) (Or.inl rfl) hmap
  refine ⟨result, _, hrun, (run_pagesAccounted_iff twoBlockConfig steadyMedia "fifo" ()
    writeThenRead hrun).mpr ⟨?_, rfl⟩⟩
  intro request hrequest hwrite l hlo hhi
  rcases List.mem_pair.mp hrequest with rfl | rfl
  · exact ⟨_, List.mem_cons_self, Nat.le_antisymm hlo (Nat.le_of_lt_succ hhi)⟩
  · cases hwrite

def twoPageWrite : List IORequest := [atStart 0 .write 0 2 Nat.two_pos]

/-- The second page is charged to the host, and neither allocated nor mapped. -/
theorem twoPageWrite_not_accounted :
    ∃ result sim, (start "fifo" ()).run twoBlockConfig steadyMedia twoPageWrite
        = (.ok result, sim) ∧
      (allocatedPages twoBlockConfig twoPageWrite .fresh).length = 1 ∧
      hostPages twoPageWrite + result.gcPagesMoved = 2 ∧ sim.ftl.lookup 1 = none ∧
      ¬ PagesAccounted twoBlockConfig twoPageWrite result sim.ftl := by
  have hmap : runMapping twoBlockConfig twoPageWrite (start "fifo" ()).ftl = (.ok _, _) := rfl
  obtain ⟨t, served, result, -, hreport, hrun, htimed, hmapping⟩ :=
    run_mapped steadyMedia (fresh_placed twoBlockConfig) (Or.inl rfl) hmap
  have hlookup : t.ftl.lookup 1 = none := by
    rw [lookup, hmapping]
    rfl
  obtain ⟨result', hreport', -, -, hmoved⟩ := report_ok twoBlockConfig "fifo" twoPageWrite _
    (htimed.completions_ne (List.cons_ne_nil _ _))
  obtain rfl : result = result' := Except.ok.inj (hreport.symm.trans hreport')
  refine ⟨result, _, hrun, rfl, ?_, hlookup, fun haccounted => ?_⟩
  · rw [hmoved]
    rfl
  · have hsome := haccounted.mapped _ List.mem_cons_self rfl 1 (by decide) (by decide)
    rw [show ((1 : ℕ) : ℤ) = 1 from rfl, hlookup] at hsome
    cases hsome

end OpenFlash.Simulator
