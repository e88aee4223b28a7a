import OpenFlash.Support.Dict
import OpenFlash.Ftl.Config
import Mathlib.Data.List.Lex
import Mathlib.Data.List.MinMax

/-! The page-mapped flash translation layer. An operation that raises
`OutOfSpaceError` keeps the mutations it made before raising, so every operation
returns its outcome beside the state it leaves. -/
namespace OpenFlash.Ftl
open Support

structure OutOfSpaceError where
  message : String
  deriving DecidableEq

structure ValueError where
  message : String
  deriving DecidableEq

structure GarbageCollectionResult where
  victim : BlockKey
  pagesMoved : ℕ
  pagesReclaimed : ℕ
  eraseCount : ℤ
  deriving DecidableEq

structure PageMappingFTL where
  mapping : Dict ℤ PhysicalPage
  invalidPages : Dict BlockKey ℤ
  validLpns : Dict BlockKey (PySet ℤ)
  eraseCounts : Dict BlockKey ℤ
  nextPage : ℕ
  reclaimed : List PhysicalPage

namespace PageMappingFTL

def fresh : PageMappingFTL := ⟨.empty, .empty, .empty, .empty, 0, []⟩

def freePages (c : ControllerConfig) (s : PageMappingFTL) : ℕ :=
  c.capacityPages - s.nextPage + s.reclaimed.length

/-- `bool(self.invalid_pages)` also counts blocks whose entry is zero. -/
def needsGc (c : ControllerConfig) (s : PageMappingFTL) : Bool :=
  let threshold := c.gcLowWatermarkBlocks * c.pagesPerBlock
  decide (s.freePages c ≤ threshold) && !s.invalidPages.entries.isEmpty

def maxObservedEraseCount (s : PageMappingFTL) : ℤ :=
  (s.eraseCounts.entries.map Prod.snd).max?.getD 0

def lookup (s : PageMappingFTL) (lpn : ℤ) : Option PhysicalPage := s.mapping.get? lpn

/-- An unmapped LPN is read where striping would have put it. -/
def mapRead (c : ControllerConfig) (s : PageMappingFTL) (lpn : ℤ) : PhysicalPage :=
  match s.lookup lpn with
  | some physical => physical
  | none =>
      let stripe := lpn % c.dies
      { channel := stripe % c.channels
        die := stripe / c.channels
        block := lpn / c.dies % c.blocksPerDie
        page := lpn / (c.dies * c.blocksPerDie) % c.pagesPerBlock }

/-- The `for` loop of `_allocate`: pages of the avoided block rotate to the back. -/
def allocateLoop (avoid : Option BlockKey) :
    ℕ → List PhysicalPage → Option PhysicalPage × List PhysicalPage
  | 0, queue => (none, queue)
  | _ + 1, [] => (none, [])
  | n + 1, physical :: rest =>
      if some (blockKey physical) ≠ avoid then (some physical, rest)
      else allocateLoop avoid n (rest ++ [physical])

/-- The frontier page is taken without comparing its block with `avoid`. -/
def allocate (c : ControllerConfig) (avoid : Option BlockKey) (s : PageMappingFTL) :
    Except OutOfSpaceError PhysicalPage × PageMappingFTL :=
  match allocateLoop avoid s.reclaimed.length s.reclaimed with
  | (some physical, queue) => (.ok physical, { s with reclaimed := queue })
  | (none, queue) =>
      if c.capacityPages ≤ s.nextPage then
        (.error ⟨"FTL capacity exhausted; GC/reclamation is required"⟩,
          { s with reclaimed := queue })
      else
        (.ok (physicalFromLinear c s.nextPage),
          { s with reclaimed := queue, nextPage := s.nextPage + 1 })

def discardValid (s : PageMappingFTL) (block : BlockKey) (lpn : ℤ) : PageMappingFTL :=
  { s with validLpns := s.validLpns.set block ((s.validLpns.getD block .empty).discard lpn) }

def addValid (s : PageMappingFTL) (block : BlockKey) (lpn : ℤ) : PageMappingFTL :=
  { s with validLpns := s.validLpns.set block ((s.validLpns.getD block .empty).add lpn) }

/-- `self.mapping[lpn] = physical` and the matching `valid_lpns` entry. -/
def place (s : PageMappingFTL) (lpn : ℤ) (physical : PhysicalPage) : PageMappingFTL :=
  { s with mapping := s.mapping.set lpn physical }.addValid (blockKey physical) lpn

/-- The part of `write` before the allocation: the previous page becomes invalid. -/
def invalidatePrevious (s : PageMappingFTL) (lpn : ℤ) : PageMappingFTL :=
  match s.mapping.get? lpn with
  | none => s
  | some previous =>
      let block := blockKey previous
      let s := s.discardValid block lpn
      { s with invalidPages := s.invalidPages.set block (s.invalidPages.getD block 0 + 1) }

def write (c : ControllerConfig) (lpn : ℤ) (s : PageMappingFTL) :
    Except OutOfSpaceError PhysicalPage × PageMappingFTL :=
  match allocate c none (s.invalidatePrevious lpn) with
  | (.error e, s) => (.error e, s)
  | (.ok physical, s) => (.ok physical, s.place lpn physical)

def candidates (s : PageMappingFTL) : List BlockKey :=
  (s.invalidPages.entries.filter (fun e => 0 < e.2)).map Prod.fst

/-- Python compares the key tuples of `max` lexicographically. -/
def victimKey (s : PageMappingFTL) (block : BlockKey) : List ℤ :=
  [s.invalidPages.getD block 0, -s.eraseCounts.getD block 0, -block.1, -block.2.1, -block.2.2]

def victim? (s : PageMappingFTL) : Option BlockKey := s.candidates.argmax s.victimKey

def liveLpns (s : PageMappingFTL) (victim : BlockKey) : List ℤ :=
  (s.validLpns.getD victim .empty).sorted

/-- Evaluating the key and reading the victim's live set store the `defaultdict` defaults. -/
def touchVictim (s : PageMappingFTL) (victim : BlockKey) : PageMappingFTL :=
  { s with
    eraseCounts := s.candidates.foldl (fun d block => d.touch block 0) s.eraseCounts
    validLpns := s.validLpns.touch victim .empty }

def relocate (c : ControllerConfig) (victim : BlockKey) :
    List ℤ → PageMappingFTL → Option OutOfSpaceError × PageMappingFTL
  | [], s => (none, s)
  | lpn :: rest, s =>
      match allocate c (some victim) s with
      | (.error e, s) => (some e, s)
      | (.ok physical, s) => relocate c victim rest (s.place lpn physical)

def blockPages (c : ControllerConfig) (block : BlockKey) : List PhysicalPage :=
  (List.range c.pagesPerBlock).map fun (page : ℕ) => ⟨block.1, block.2.1, block.2.2, page⟩

/-- Erasing the victim returns every one of its pages to the free list. -/
def erase (c : ControllerConfig) (victim : BlockKey) (s : PageMappingFTL) : PageMappingFTL :=
  { s with
    validLpns := s.validLpns.set victim .empty
    invalidPages := s.invalidPages.set victim 0
    eraseCounts := s.eraseCounts.set victim (s.eraseCounts.getD victim 0 + 1)
    reclaimed := s.reclaimed ++ blockPages c victim }

def garbageCollect (c : ControllerConfig) (s : PageMappingFTL) :
    Except OutOfSpaceError GarbageCollectionResult × PageMappingFTL :=
  match s.victim? with
  | none => (.error ⟨"no reclaimable block is available"⟩, s)
  | some victim =>
      let live := s.liveLpns victim
      let s := s.touchVictim victim
      if s.freePages c < live.length then
        (.error ⟨"insufficient workspace to relocate GC victim"⟩, s)
      else
        match relocate c victim live s with
        | (some e, s) => (.error e, s)
        | (none, s) =>
            let s := s.erase c victim
            (.ok { victim := victim
                   pagesMoved := live.length
                   pagesReclaimed := c.pagesPerBlock
                   eraseCount := s.eraseCounts.getD victim 0 }, s)

inductive Call where
  | write (lpn : ℤ)
  | garbageCollect
  deriving DecidableEq

/-- The state after a call, whether it returned or raised. -/
def after (c : ControllerConfig) (s : PageMappingFTL) : Call → PageMappingFTL
  | .write lpn => (s.write c lpn).2
  | .garbageCollect => (s.garbageCollect c).2

def run (c : ControllerConfig) (calls : List Call) : PageMappingFTL := calls.foldl (after c) fresh

end PageMappingFTL
end OpenFlash.Ftl
