import Mathlib.Algebra.Order.Ring.Int
import Mathlib.Data.List.Nodup
import OpenFlash.Driver.Admin
import OpenFlash.Support.Ledger

/-! Setting up the I/O queue of the driver, step by step, with the labels that take back what
the steps before them acquired. -/
namespace OpenFlash.Driver
open Support

/-- The value that a function of the kernel returns for an error. -/
def Errno.code : Errno → ℤ
  | .eio => -5
  | .etimedout => -110
  | .eproto => -71
  | .enomem => -12

theorem Errno.code_neg (e : Errno) : e.code < 0 := by
  cases e <;> decide

namespace IoQueueSetup

/-- What the set-up acquires, apart from the device-managed request array. -/
inductive IoResource where
  | sq
  | cq
  | sgl (tag : ℕ)
  | irq
  deriving DecidableEq, Repr

abbrev IoEvent := LedgerEvent IoResource

/-- What the kernel and the controller answer: the allocations, the return value of
`request_irq` and the outcome of the admin command. -/
structure SetupHost where
  sq : Bool
  cq : Bool
  requests : Bool
  sgl : ℕ → Bool
  irq : ℤ
  admin : Except Errno UInt64
  irq_nonpos : irq ≤ 0

structure SetupResult where
  ret : ℤ
  nrQueues : ℕ
  events : List IoEvent

/-- The return value of `openflash_create_io_queue` for queue one. -/
def createIoQueue (admin : Except Errno UInt64) : ℤ :=
  match admin with
  | .error e => e.code
  | .ok result => if result = 1 then 0 else Errno.eproto.code

/-- The label `free_sq`. -/
def freeSq (ret : ℤ) (nrQueues : ℕ) (events : List IoEvent) : SetupResult :=
  ⟨ret, nrQueues, events ++ [.release .sq]⟩

/-- The label `free_cq`, which falls through. -/
def freeCq (ret : ℤ) (nrQueues : ℕ) (events : List IoEvent) : SetupResult :=
  freeSq ret nrQueues (events ++ [.release .cq])

/-- The label `free_sgl`: `while (tag--)`. -/
def freeSgl (tag : ℕ) (ret : ℤ) (nrQueues : ℕ) (events : List IoEvent) : SetupResult :=
  freeCq ret nrQueues (events ++ (List.range tag).reverse.map fun t => .release (.sgl t))

/-- The label `free_irq`. -/
def freeIrq (tag : ℕ) (ret : ℤ) (nrQueues : ℕ) (events : List IoEvent) : SetupResult :=
  freeSgl tag ret nrQueues (events ++ [.release .irq])

structure SglAllocation where
  ok : Bool
  tag : ℕ
  events : List IoEvent

/-- The loop over the tags, by the tables still to allocate. -/
def allocSgl (host : SetupHost) : ℕ → ℕ → List IoEvent → SglAllocation
  | 0, tag, events => ⟨true, tag, events⟩
  | n + 1, tag, events =>
      if host.sgl tag = false then ⟨false, tag, events⟩
      else allocSgl host n (tag + 1) (events ++ [.acquire (.sgl tag)])

/-- `ret` is the value of the local variable before its first assignment. -/
def openflashSetupIoQueue (host : SetupHost) (depth nrQueues : ℕ) (ret : ℤ) : SetupResult :=
  if host.sq = false then ⟨Errno.enomem.code, nrQueues, []⟩
  else if host.cq = false then freeSq Errno.enomem.code nrQueues [.acquire .sq]
  else if host.requests = false then
    freeCq Errno.enomem.code nrQueues [.acquire .sq, .acquire .cq]
  else
    let a := allocSgl host (depth - 1) 0 [.acquire .sq, .acquire .cq]
    if a.ok = false then freeSgl a.tag ret nrQueues a.events
    else if host.irq ≠ 0 then freeSgl a.tag host.irq nrQueues a.events
    else if createIoQueue host.admin ≠ 0 then
      freeIrq a.tag (createIoQueue host.admin) nrQueues (a.events ++ [.acquire .irq])
    else ⟨0, 2, a.events ++ [.acquire .irq]⟩

/-- The number of queues and what is released. -/
def openflashTeardownIoQueue (depth nrQueues : ℕ) : ℕ × List IoEvent :=
  if nrQueues < 2 then (nrQueues, [])
  else
    (1, [.release .irq] ++ ((List.range (depth - 1)).map fun t => .release (.sgl t)) ++
      [.release .cq, .release .sq])

/-- The rings and the tables of the first tags, in the order of their allocation. -/
def buffers (tag : ℕ) : List IoResource := [.sq, .cq] ++ (List.range tag).map .sgl

/-- Everything that a queue of this depth needs. -/
def resources (depth : ℕ) : List IoResource := buffers (depth - 1) ++ [.irq]

theorem resources_nodup (depth : ℕ) : (resources depth).Nodup := by
  have hsgl : ((List.range (depth - 1)).map IoResource.sgl).Nodup :=
    List.Nodup.map (fun _ _ h => IoResource.sgl.inj h) List.nodup_range
  simp [resources, buffers, List.nodup_append, hsgl]

theorem buffers_nodup (tag : ℕ) : (buffers tag).Nodup :=
  (List.nodup_append.mp (resources_nodup (tag + 1))).1

/-- What the loop over `n` tags from `tag` on leaves behind. -/
structure Allocates (host : SetupHost) (n tag : ℕ) (a : SglAllocation) : Prop where
  events : a.events = (buffers a.tag).map .acquire
  complete : a.ok = true → a.tag = tag + n
  failed : a.ok = false ↔ ∃ i, tag ≤ i ∧ i < tag + n ∧ host.sgl i = false

theorem allocSgl_allocates (host : SetupHost) (n tag : ℕ) :
    Allocates host n tag (allocSgl host n tag ((buffers tag).map .acquire)) := by
  induction n generalizing tag with
  | zero =>
    constructor
    · rfl
    · exact fun _ => rfl
    · simp only [allocSgl, Bool.true_eq_false, false_iff]
      rintro ⟨i, hlow, hhigh, -⟩
      omega
  | succ n ih =>
    have hnext : (buffers tag).map LedgerEvent.acquire ++ [.acquire (.sgl tag)]
        = (buffers (tag + 1)).map .acquire := by
      simp [buffers, List.range_succ]
    rw [allocSgl]
    by_cases hfail : host.sgl tag = false
    · rw [if_pos hfail]
      constructor
      · rfl
      · exact fun h => absurd h Bool.false_ne_true
      · exact ⟨fun _ => ⟨tag, by omega, by omega, hfail⟩, fun _ => rfl⟩
    · rw [if_neg hfail, hnext]
      obtain ⟨hevents, hcomplete, hfailed⟩ := ih (tag + 1)
      constructor
      · exact hevents
      · intro hok
        rw [hcomplete hok]
        omega
      · rw [hfailed]
        constructor
        · rintro ⟨i, hlow, hhigh, hi⟩
          exact ⟨i, by omega, by omega, hi⟩
        · rintro ⟨i, hlow, hhigh, hi⟩
          have hne : i ≠ tag := by
            rintro rfl
            exact hfail hi
          exact ⟨i, by omega, by omega, hi⟩

/-- Some table allocation fails, and nothing in front of it. -/
def SglFails (host : SetupHost) (depth : ℕ) : Prop :=
  host.sq = true ∧ host.cq = true ∧ host.requests = true ∧
    ∃ tag < depth - 1, host.sgl tag = false

/-- Some step of the set-up fails. -/
def Fails (host : SetupHost) (depth : ℕ) : Prop :=
  host.sq = false ∨ host.cq = false ∨ host.requests = false ∨
    (∃ tag < depth - 1, host.sgl tag = false) ∨ host.irq ≠ 0 ∨ createIoQueue host.admin ≠ 0

theorem SglFails.fails {host : SetupHost} {depth : ℕ} (h : SglFails host depth) :
    Fails host depth := Or.inr (Or.inr (Or.inr (Or.inl h.2.2.2)))

/-- How a set-up ends: everything it had acquired is released again, or everything is held. -/
inductive Ends (host : SetupHost) (depth nrQueues : ℕ) (unset : ℤ) : SetupResult → Prop
  | unwound {acquired : List IoResource} {ret : ℤ} (hnodup : acquired.Nodup)
      (hfails : Fails host depth) (hret : ret < 0 ∧ ¬ SglFails host depth ∨
        ret = unset ∧ SglFails host depth) :
      Ends host depth nrQueues unset
        ⟨ret, nrQueues, acquired.map .acquire ++ acquired.reverse.map .release⟩
  | ready (hfails : ¬ Fails host depth) :
      Ends host depth nrQueues unset ⟨0, 2, (resources depth).map .acquire⟩

theorem createIoQueue_nonpos (admin : Except Errno UInt64) : createIoQueue admin ≤ 0 := by
  cases admin with
  | error e => exact (Errno.code_neg e).le
  | ok result =>
    unfold createIoQueue
    dsimp only
    split_ifs
    · exact le_refl 0
    · exact (Errno.code_neg _).le

theorem freeSgl_eq (tag : ℕ) (ret : ℤ) (nrQueues : ℕ) (events : List IoEvent) :
    freeSgl tag ret nrQueues events
      = ⟨ret, nrQueues, events ++ (buffers tag).reverse.map .release⟩ := by
  simp [freeSgl, freeCq, freeSq, buffers]

theorem freeIrq_eq (tag : ℕ) (ret : ℤ) (nrQueues : ℕ) (events : List IoEvent) :
    freeIrq tag ret nrQueues events
      = ⟨ret, nrQueues, events ++ (buffers tag ++ [IoResource.irq]).reverse.map .release⟩ := by
  simp [freeIrq, freeSgl_eq]

/-- A failure in front of or behind the tables. -/
theorem Ends.of_error {host : SetupHost} {depth nrQueues : ℕ} {unset ret : ℤ}
    {acquired : List IoResource} (hnodup : acquired.Nodup) (hfails : Fails host depth)
    (hsgl : ¬ SglFails host depth) (hret : ret < 0) :
    Ends host depth nrQueues unset
      ⟨ret, nrQueues, acquired.map .acquire ++ acquired.reverse.map .release⟩ :=
  .unwound hnodup hfails (Or.inl ⟨hret, hsgl⟩)

section
variable {host : SetupHost} {depth nrQueues : ℕ} {ret : ℤ}

/-- With all tables allocated, the interrupt and the controller decide. -/
theorem ends_of_tables (hsq : host.sq = true) (hcq : host.cq = true)
    (hrequests : host.requests = true) (htables : ¬ ∃ tag < depth - 1, host.sgl tag = false) :
    Ends host depth nrQueues ret
      (if host.irq ≠ 0 then
        freeSgl (depth - 1) host.irq nrQueues ((buffers (depth - 1)).map .acquire)
      else if createIoQueue host.admin ≠ 0 then
        freeIrq (depth - 1) (createIoQueue host.admin) nrQueues ((resources depth).map .acquire)
      else ⟨0, 2, (resources depth).map .acquire⟩) := by
  have hsgl : ¬ SglFails host depth := fun h => htables h.2.2.2
  by_cases hirq : host.irq ≠ 0
  · rw [if_pos hirq, freeSgl_eq]
    exact .of_error (buffers_nodup _) (Or.inr (Or.inr (Or.inr (Or.inr (Or.inl hirq))))) hsgl
      (lt_of_le_of_ne host.irq_nonpos hirq)
  by_cases hcreate : createIoQueue host.admin ≠ 0
  · rw [if_neg hirq, if_pos hcreate, freeIrq_eq]
    exact .of_error (resources_nodup depth)
      (Or.inr (Or.inr (Or.inr (Or.inr (Or.inr hcreate))))) hsgl
      (lt_of_le_of_ne (createIoQueue_nonpos _) hcreate)
  rw [if_neg hirq, if_neg hcreate]
  apply Ends.ready
  rintro (h | h | h | h | h | h)
  · exact Bool.eq_false_iff.mp h hsq
  · exact Bool.eq_false_iff.mp h hcq
  · exact Bool.eq_false_iff.mp h hrequests
  · exact htables h
  · exact hirq h
  · exact hcreate h

theorem openflashSetupIoQueue_ends (host : SetupHost) (depth nrQueues : ℕ) (ret : ℤ) :
    Ends host depth nrQueues ret (openflashSetupIoQueue host depth nrQueues ret) := by
  unfold openflashSetupIoQueue
  by_cases hsq : host.sq = false
  · have hsgl : ¬ SglFails host depth := fun h => Bool.eq_false_iff.mp hsq h.1
    rw [if_pos hsq]
    exact .of_error List.nodup_nil (Or.inl hsq) hsgl (Errno.code_neg _)
  by_cases hcq : host.cq = false
  · have hsgl : ¬ SglFails host depth := fun h => Bool.eq_false_iff.mp hcq h.2.1
    have hnodup : [IoResource.sq].Nodup := List.nodup_singleton _
    rw [if_neg hsq, if_pos hcq]
    exact .of_error hnodup (Or.inr (Or.inl hcq)) hsgl (Errno.code_neg _)
  by_cases hrequests : host.requests = false
  · have hsgl : ¬ SglFails host depth := fun h => Bool.eq_false_iff.mp hrequests h.2.2.1
    rw [if_neg hsq, if_neg hcq, if_pos hrequests]
    exact .of_error (buffers_nodup 0) (Or.inr (Or.inr (Or.inl hrequests))) hsgl
      (Errno.code_neg _)
  rw [if_neg hsq, if_neg hcq, if_neg hrequests]
  rw [Bool.not_eq_false] at hsq hcq hrequests
  have halloc : Allocates host (depth - 1) 0
      (allocSgl host (depth - 1) 0 [.acquire .sq, .acquire .cq]) :=
    allocSgl_allocates host (depth - 1) 0
  dsimp only
  generalize allocSgl host (depth - 1) 0 [.acquire .sq, .acquire .cq] = a at halloc
  have htables : a.ok = false ↔ ∃ tag < depth - 1, host.sgl tag = false := by
    simpa using halloc.failed
  rw [halloc.events]
  by_cases hok : a.ok = false
  · have hsgl : SglFails host depth := ⟨hsq, hcq, hrequests, htables.mp hok⟩
    rw [if_pos hok, freeSgl_eq]
    exact .unwound (buffers_nodup a.tag) hsgl.fails (Or.inr ⟨rfl, hsgl⟩)
  · have htag : a.tag = depth - 1 := by
      rw [halloc.complete (Bool.of_not_eq_false hok), Nat.zero_add]
    have hevents : (buffers (depth - 1)).map LedgerEvent.acquire ++ [.acquire .irq]
        = (resources depth).map .acquire := by
      simp [resources]
    rw [if_neg hok, htag, hevents]
    exact ends_of_tables hsq hcq hrequests fun h => hok (htables.mpr h)

end

/-- A failed set-up returns an error and holds nothing any more; success means that everything
is held and the queue is counted. -/
structure Unwinds (host : SetupHost) (depth : ℕ) (r : SetupResult) : Prop where
  failed : Fails host depth → r.ret < 0 ∧ heldFrom [] r.events = some []
  succeeded : r.ret = 0 →
    (∃ held, heldFrom [] r.events = some held ∧ held.Perm (resources depth)) ∧ r.nrQueues = 2

/-- Whatever the unassigned `ret` holds, the set-up unwinds, except when the allocation of an SGL
table fails. -/
theorem openflashSetupIoQueue_unwinds_iff (host : SetupHost) (depth nrQueues : ℕ) :
    (∀ unset, Unwinds host depth (openflashSetupIoQueue host depth nrQueues unset)) ↔
      ¬ SglFails host depth := by
  constructor
  · intro h hsgl
    have hneg := ((h 0).failed hsgl.fails).1
    have hends := openflashSetupIoQueue_ends host depth nrQueues 0
    generalize openflashSetupIoQueue host depth nrQueues 0 = r at hneg hends
    cases hends with
    | unwound _ _ hret =>
      rcases hret with ⟨-, hnot⟩ | ⟨hzero, -⟩
      · exact hnot hsgl
      · exact absurd hneg (by simp [hzero])
    | ready hfails => exact hfails hsgl.fails
  · intro hsgl unset
    have hends := openflashSetupIoQueue_ends host depth nrQueues unset
    generalize openflashSetupIoQueue host depth nrQueues unset = r at hends
    cases hends with
    | unwound hnodup hfails hret =>
      rcases hret with ⟨hneg, -⟩ | ⟨-, hfail⟩
      · constructor
        · exact fun _ => ⟨hneg, heldFrom_unwound hnodup (List.reverse_perm _)⟩
        · exact fun hzero => absurd hzero hneg.ne
      · exact absurd hfail hsgl
    | ready hfails =>
      have hheld : heldFrom [] ((resources depth).map LedgerEvent.acquire)
          = some ((resources depth).reverse ++ []) :=
        heldFrom_acquire (by simpa using resources_nodup depth)
      constructor
      · exact fun h => absurd h hfails
      · exact fun _ => ⟨⟨_, hheld, by simp⟩, rfl⟩

/-- The order in which the teardown releases a queue. -/
def teardownOrder (depth : ℕ) : List IoResource :=
  .irq :: ((List.range (depth - 1)).map .sgl ++ [.cq, .sq])

theorem teardownOrder_perm (depth : ℕ) : (teardownOrder depth).Perm (resources depth) := by
  have hbuffers : ((List.range (depth - 1)).map IoResource.sgl ++ [IoResource.cq, .sq]).Perm
      (buffers (depth - 1)) :=
    List.perm_append_comm.trans ((List.Perm.swap ..).append_right _)
  exact (hbuffers.cons IoResource.irq).trans (List.perm_append_singleton ..).symm

theorem openflashTeardownIoQueue_two (depth : ℕ) :
    openflashTeardownIoQueue depth 2 = (1, (teardownOrder depth).map .release) := by
  simp [openflashTeardownIoQueue, teardownOrder]

/-- Whatever fails, nothing is held after a set-up and the teardown of its queue. -/
theorem setup_teardown (host : SetupHost) (depth : ℕ) (unset : ℤ) :
    let r := openflashSetupIoQueue host depth 1 unset
    let down := openflashTeardownIoQueue depth r.nrQueues
    heldFrom [] (r.events ++ down.2) = some [] ∧ down.1 = 1 := by
  have hends := openflashSetupIoQueue_ends host depth 1 unset
  generalize openflashSetupIoQueue host depth 1 unset = r at hends
  cases hends with
  | unwound hnodup _ _ =>
    have hdown : openflashTeardownIoQueue depth 1 = (1, []) := if_pos (by decide)
    dsimp only
    rw [hdown, List.append_nil]
    exact ⟨heldFrom_unwound hnodup (List.reverse_perm _), rfl⟩
  | ready _ =>
    dsimp only
    rw [openflashTeardownIoQueue_two]
    exact ⟨heldFrom_unwound (resources_nodup depth) (teardownOrder_perm depth), rfl⟩

/-- The table of tag three cannot be allocated, everything else succeeds. -/
def fourthTableFails : SetupHost :=
  { sq := true
    cq := true
    requests := true
    sgl := fun tag => tag ≠ 3
    irq := 0
    admin := .ok 1
    irq_nonpos := le_refl 0 }

/-- With a zero in the unassigned variable, the set-up reports success and holds nothing. -/
theorem fourthTableFails_not_unwinds :
    let r := openflashSetupIoQueue fourthTableFails 128 1 0
    r.ret = 0 ∧ r.nrQueues = 1 ∧ heldFrom [] r.events = some [] ∧
      ¬ ∀ unset, Unwinds fourthTableFails 128
        (openflashSetupIoQueue fourthTableFails 128 1 unset) := by
  intro r
  have hret : r.ret = 0 := by decide
  have hqueues : r.nrQueues = 1 := by decide
  refine ⟨hret, hqueues, by decide, fun h => ?_⟩
  exact absurd (hqueues.symm.trans ((h 0).succeeded hret).2) (by decide)

end IoQueueSetup
end OpenFlash.Driver
