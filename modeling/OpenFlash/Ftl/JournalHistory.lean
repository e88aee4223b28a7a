import OpenFlash.Ftl.Checkpoint
import OpenFlash.Support.AtomicReplace

/-! The checkpoint journal over whole histories. Saves go through a temporary file and a
rename, processes end at any point, and the next one recovers from what the journal holds. -/
namespace OpenFlash.Ftl
open Support

/-- What `read` and `recover` raise. -/
inductive RestartError where
  | fileNotFound
  | jsonDecode
  | value (error : ValueError)

namespace CheckpointJournal

/-- `PageMappingFTL.recover(config, journal.read())`. A torn text is no JSON document. -/
def restore (c : ControllerConfig) : SavedFile Payload → Except RestartError PageMappingFTL
  | none => .error .fileNotFound
  | some none => .error .jsonDecode
  | some (some payload) =>
      match read payload with
      | .error error => .error (.value error)
      | .ok checkpoint =>
          match PageMappingFTL.recover c checkpoint with
          | .error error => .error (.value error)
          | .ok ftl => .ok ftl

/-- An FTL that saves itself with `journal.write(ftl.checkpoint())`. -/
def program (c : ControllerConfig) :
    SaveProgram PageMappingFTL PageMappingFTL.Operation PageMappingFTL.Answer Payload
      RestartError :=
  { initial := PageMappingFTL.fresh
    step := PageMappingFTL.perform c
    encode := fun ftl => write ftl.checkpoint
    load := restore c }

end CheckpointJournal

namespace PageMappingFTL
variable {c : ControllerConfig} {s t u : PageMappingFTL}

theorem Same.refl (s : PageMappingFTL) : Same s s :=
  ⟨fun _ => rfl, fun _ => rfl, fun _ _ => Iff.rfl, fun _ => rfl, rfl, rfl⟩

theorem Same.trans (h : Same s t) (h' : Same t u) : Same s u :=
  { mapping := fun lpn => (h.mapping lpn).trans (h'.mapping lpn)
    invalidPages := fun block => (h.invalidPages block).trans (h'.invalidPages block)
    validLpns := fun block lpn => (h.validLpns block lpn).trans (h'.validLpns block lpn)
    eraseCounts := fun block => (h.eraseCounts block).trans (h'.eraseCounts block)
    nextPage := h.nextPage.trans h'.nextPage
    reclaimed := h.reclaimed.trans h'.reclaimed }

/-- The allocation cursor stays inside the device. -/
theorem perform_nextPage_le (h : s.nextPage ≤ c.capacityPages) (op : Operation) :
    (s.perform c op).2.nextPage ≤ c.capacityPages := by
  cases op with
  | write lpn => exact after_nextPage_le (.write lpn) h
  | garbageCollect => exact after_nextPage_le .garbageCollect h
  | lookup lpn => exact h
  | mapRead lpn => exact h
  | needsGc => exact h
  | freePages => exact h
  | maxObservedEraseCount => exact h

/-- A saved state is restored up to the order of its containers. -/
theorem restore_write (h : s.nextPage ≤ c.capacityPages) :
    ∃ u, CheckpointJournal.restore c (some (some (CheckpointJournal.write s.checkpoint))) = .ok u ∧
      Same u s := by
  obtain ⟨u, hdecode, hsame⟩ := decode_sortKeys_checkpoint s
  have hcursor : 0 ≤ (CheckpointJournal.sortKeys s.checkpoint).nextPage ∧
      (CheckpointJournal.sortKeys s.checkpoint).nextPage ≤ c.capacityPages :=
    ⟨Int.natCast_nonneg _, Int.ofNat_le.mpr h⟩
  have hrecover : recover c (CheckpointJournal.sortKeys s.checkpoint) = .ok u := by
    rw [recover, hdecode]
    exact if_pos hcursor
  refine ⟨u, ?_, hsame⟩
  have hread : CheckpointJournal.read (CheckpointJournal.write s.checkpoint)
      = .ok (CheckpointJournal.sortKeys s.checkpoint) := rfl
  simp only [CheckpointJournal.restore, hread, hrecover]

end PageMappingFTL

theorem CheckpointJournal.faithful (c : ControllerConfig) :
    (CheckpointJournal.program c).Faithful .fileNotFound PageMappingFTL.Same
      fun ftl => ftl.nextPage ≤ c.capacityPages := by
  refine ⟨⟨.refl _, Nat.zero_le _⟩, ?_, ?_, rfl⟩
  · intro s t op hst ht
    obtain ⟨hanswer, hnext⟩ := PageMappingFTL.perform_same (c := c) hst op
    exact ⟨hanswer, hnext, PageMappingFTL.perform_nextPage_le ht op⟩
  · intro s t hst ht
    have hs : s.nextPage ≤ c.capacityPages := by
      rw [hst.nextPage]
      exact ht
    obtain ⟨u, hrestore, hu⟩ := PageMappingFTL.restore_write hs
    exact ⟨u, hrestore, hu.trans hst⟩

/-- Whatever operations, saves and crashes interleave, the FTL behind the journal answers as
one that keeps its last complete checkpoint in memory: a crash during a save costs nothing
but that save, and no restart after a save fails. -/
theorem journal_crashSafe (c : ControllerConfig)
    (events : List (SaveEvent PageMappingFTL.Operation)) :
    (runOutputs (CheckpointJournal.program c).next (CheckpointJournal.program c).start events).1
      = (runOutputs ((CheckpointJournal.program c).snapshotNext .fileNotFound)
        (CheckpointJournal.program c).snapshotStart events).1 :=
  (CheckpointJournal.faithful c).runOutputs events

end OpenFlash.Ftl
