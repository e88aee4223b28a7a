import Mathlib
import OpenFlash.Ftl.Equivalence
import OpenFlash.Ftl.Outcomes

/-! Checkpoints of the page mapping: the journal keeps the items of every container and
loses only their order, so a recovered FTL behaves as the one that was saved. The decimal
texts of integers read back by `Int.toInt?_repr`, which only the whole of Mathlib imports. -/
namespace OpenFlash.Ftl
open Support

/-- `"/".join(map(str, key))`. -/
def encodeBlock (key : BlockKey) : String :=
  "/".intercalate [key.1.repr, key.2.1.repr, key.2.2.repr]

/-- Exactly three decimal integers; Python would also skip blanks around them. -/
def decodeBlock (value : String) : Option BlockKey :=
  match (value.toList.splitOn '/').map String.ofList with
  | [channel, die, block] => do return (← channel.toInt?, ← die.toInt?, ← block.toInt?)
  | _ => none

def encodePage (page : PhysicalPage) : List ℤ := [page.channel, page.die, page.block, page.page]

/-- `PhysicalPage(*page)`. -/
def decodePage : List ℤ → Option PhysicalPage
  | [channel, die, block, page] => some ⟨channel, die, block, page⟩
  | _ => none

/-- `set(value)`. -/
def decodeLpns (lpns : List ℤ) : Option (PySet ℤ) := some (.ofList lpns)

/-- A checkpoint of the shape that `checkpoint` returns. -/
structure Checkpoint where
  nextPage : ℤ
  mapping : Dict String (List ℤ)
  invalidPages : Dict String ℤ
  validLpns : Dict String (List ℤ)
  eraseCounts : Dict String ℤ
  reclaimed : List (List ℤ)

namespace PageMappingFTL

def checkpoint (s : PageMappingFTL) : Checkpoint :=
  { nextPage := s.nextPage
    mapping := s.mapping.comprehension Int.repr encodePage
    invalidPages := s.invalidPages.comprehension encodeBlock id
    validLpns := s.validLpns.comprehension encodeBlock PySet.sorted
    eraseCounts := s.eraseCounts.comprehension encodeBlock id
    reclaimed := s.reclaimed.map encodePage }

/-- The containers of a checkpoint; `none` is any of the exceptions that `recover` turns
into one `ValueError`. -/
def decode (checkpoint : Checkpoint) : Option PageMappingFTL := do
  return {
    nextPage := checkpoint.nextPage.toNat
    mapping := ← checkpoint.mapping.comprehension? String.toInt? decodePage
    invalidPages := ← checkpoint.invalidPages.comprehension? decodeBlock some
    validLpns := ← checkpoint.validLpns.comprehension? decodeBlock decodeLpns
    eraseCounts := ← checkpoint.eraseCounts.comprehension? decodeBlock some
    reclaimed := ← checkpoint.reclaimed.mapM decodePage }

def recover (c : ControllerConfig) (checkpoint : Checkpoint) : Except ValueError PageMappingFTL :=
  match decode checkpoint with
  | none => .error ⟨"invalid OpenFlash FTL checkpoint"⟩
  | some ftl =>
      if 0 ≤ checkpoint.nextPage ∧ checkpoint.nextPage ≤ c.capacityPages then .ok ftl
      else .error ⟨"checkpoint allocation cursor exceeds FTL capacity"⟩

end PageMappingFTL

/-- The journal's file as `json` reads it; `none` stands for a checkpoint that is absent or
not an object. -/
structure Payload where
  version : ℤ
  checkpoint : Option Checkpoint

namespace CheckpointJournal

def version : ℤ := 1

/-- What remains of a checkpoint after `json.dumps` with sorted keys and `json.loads`. -/
def sortKeys (checkpoint : Checkpoint) : Checkpoint :=
  { checkpoint with
    mapping := checkpoint.mapping.sortKeys
    invalidPages := checkpoint.invalidPages.sortKeys
    validLpns := checkpoint.validLpns.sortKeys
    eraseCounts := checkpoint.eraseCounts.sortKeys }

def write (checkpoint : Checkpoint) : Payload := ⟨version, some (sortKeys checkpoint)⟩

def read (payload : Payload) : Except ValueError Checkpoint :=
  if payload.version ≠ version then .error ⟨"unsupported OpenFlash checkpoint version"⟩
  else
    match payload.checkpoint with
    | none => .error ⟨"invalid OpenFlash checkpoint"⟩
    | some checkpoint => .ok checkpoint

end CheckpointJournal

theorem decodePage_encodePage (page : PhysicalPage) : decodePage (encodePage page) = some page :=
  rfl

/-- Decimal numerals are free of the separator. -/
theorem slash_notMem_repr (n : ℤ) : '/' ∉ n.repr.toList := by
  have hnat : ∀ m : ℕ, '/' ∉ m.repr.toList := by
    intro m hm
    rw [Nat.toList_repr] at hm
    exact absurd (Nat.isDigit_of_mem_toDigits (by decide) (by decide) hm) (by decide)
  cases n with
  | ofNat m => exact hnat m
  | negSucc m =>
    show '/' ∉ ("-" ++ m.succ.repr).toList
    rw [String.toList_append, List.mem_append, not_or]
    exact ⟨by decide, hnat m.succ⟩

theorem decodeBlock_encodeBlock (key : BlockKey) : decodeBlock (encodeBlock key) = some key := by
  have hsplit : (encodeBlock key).toList.splitOn '/' =
      [key.1.repr.toList, key.2.1.repr.toList, key.2.2.repr.toList] := by
    rw [encodeBlock, String.toList_intercalate]
    apply List.splitOn_intercalate
    · intro l hl
      simp only [List.map_cons, List.map_nil, List.mem_cons, List.not_mem_nil, or_false] at hl
      rcases hl with rfl | rfl | rfl <;> exact slash_notMem_repr _
    · simp
  unfold decodeBlock
  rw [hsplit]
  simp [Int.toInt?_repr]

namespace PageMappingFTL
variable {c : ControllerConfig} {s s' : PageMappingFTL}

/-- Encoding, sorting the keys and decoding keep the items of every container. -/
theorem decode_sortKeys_checkpoint (s : PageMappingFTL) :
    ∃ s', decode (CheckpointJournal.sortKeys s.checkpoint) = some s' ∧ Same s' s := by
  obtain ⟨mapping, hmap, hmap'⟩ := Dict.comprehension?_sortKeys encodePage decodePage id
    Int.toInt?_repr decodePage_encodePage s.mapping
  obtain ⟨invalidPages, hinv, hinv'⟩ := Dict.comprehension?_sortKeys id some id
    decodeBlock_encodeBlock (fun _ => rfl) s.invalidPages
  obtain ⟨validLpns, hval, hval'⟩ := Dict.comprehension?_sortKeys PySet.sorted decodeLpns
    (fun lpns => .ofList lpns.sorted) decodeBlock_encodeBlock (fun _ => rfl) s.validLpns
  obtain ⟨eraseCounts, hcnt, hcnt'⟩ := Dict.comprehension?_sortKeys id some id
    decodeBlock_encodeBlock (fun _ => rfl) s.eraseCounts
  have hrec : (s.reclaimed.map encodePage).mapM decodePage = some s.reclaimed := by
    rw [List.mapM_map]
    exact (Dict.mapM_some (g := id) decodePage_encodePage s.reclaimed).trans (by rw [List.map_id])
  refine ⟨⟨mapping, invalidPages, validLpns, eraseCounts, s.nextPage, s.reclaimed⟩, ?_, ?_⟩
  · simp only [decode, CheckpointJournal.sortKeys, checkpoint, hmap, hinv, hval, hcnt, hrec]
    rfl
  · constructor
    · exact fun lpn => (hmap' lpn).trans Option.map_id'
    · exact fun block => (hinv' block).trans Option.map_id'
    · intro block lpn
      rw [Dict.getD, hval', Dict.getD]
      cases s.validLpns.get? block with
      | none => exact Iff.rfl
      | some lpns => simp
    · exact fun block => (hcnt' block).trans Option.map_id'
    · rfl
    · rfl

/-- An FTL recovered from the journal of any reachable state answers every further sequence
of operations as the state that was saved does. -/
theorem recover_checkpoint_runOutputs (c : ControllerConfig) (calls : List Call) :
    ∃ checkpoint s,
      CheckpointJournal.read (CheckpointJournal.write (run c calls).checkpoint) = .ok checkpoint ∧
      recover c checkpoint = .ok s ∧
      ∀ ops, (runOutputs (perform c) s ops).1 = (runOutputs (perform c) (run c calls) ops).1 := by
  obtain ⟨s, hdecode, hsame⟩ := decode_sortKeys_checkpoint (run c calls)
  refine ⟨CheckpointJournal.sortKeys (run c calls).checkpoint, s, rfl, ?_, runOutputs_same hsame⟩
  have hcursor : 0 ≤ (CheckpointJournal.sortKeys (run c calls).checkpoint).nextPage ∧
      (CheckpointJournal.sortKeys (run c calls).checkpoint).nextPage ≤ c.capacityPages :=
    ⟨Int.natCast_nonneg _, Int.ofNat_le.mpr (run_nextPage_le c calls)⟩
  rw [recover, hdecode]
  exact if_pos hcursor

end PageMappingFTL
end OpenFlash.Ftl
