import Mathlib.Data.Prod.Lex
import OpenFlash.Simulator.Mapping
import OpenFlash.Support.StableSort

/-! The two scheduling policies. Both put requests in the order of arrival; read priority
merges the reads and the other requests with a bound on how many reads may go first. -/
namespace OpenFlash.Simulator
open Support

structure IndexError where
  message : String
  deriving DecidableEq

def isRead (item : ScheduledRequest) : Bool := item.request.operation = .read

/-- The tuple `(arrival_us, request_id)`. -/
def sortKey (item : ScheduledRequest) : ℚ ×ₗ ℕ :=
  toLex (item.request.arrivalUs, item.request.requestId)

def FIFOScheduler.order (requests : List ScheduledRequest) : List ScheduledRequest :=
  sortedBy sortKey requests

def popleft {α : Type} : List α → Except IndexError (α × List α)
  | [] => .error ⟨"pop from an empty deque"⟩
  | item :: rest => .ok (item, rest)

namespace ReadPriorityScheduler

/-- The local variables of the merge loop. -/
structure Merge where
  reads : List ScheduledRequest
  writes : List ScheduledRequest
  ordered : List ScheduledRequest
  readBurst : ℕ

def Merge.start (requests : List ScheduledRequest) : Merge :=
  { reads := sortedBy sortKey (requests.filter isRead)
    writes := sortedBy sortKey (requests.filter fun item => !isRead item)
    ordered := []
    readBurst := 0 }

/-- The loop body. -/
def Merge.step (readBurstLimit : ℤ) (m : Merge) : Except IndexError Merge :=
  if m.reads ≠ [] ∧ (m.writes = [] ∨ m.readBurst < readBurstLimit) then
    match popleft m.reads with
    | .error e => .error e
    | .ok (item, reads) =>
        .ok { m with
          reads := reads, ordered := m.ordered ++ [item], readBurst := m.readBurst + 1 }
  else
    match popleft m.writes with
    | .error e => .error e
    | .ok (item, writes) =>
        .ok { m with writes := writes, ordered := m.ordered ++ [item], readBurst := 0 }

/-- What the loop body does while a deque has an item: it never pops from an empty one. -/
inductive Merge.Emits (readBurstLimit : ℤ) : Merge → Merge → Prop
  | read {item : ScheduledRequest} {reads writes ordered : List ScheduledRequest} {burst : ℕ}
      (h : writes = [] ∨ burst < readBurstLimit) :
      Emits readBurstLimit ⟨item :: reads, writes, ordered, burst⟩
        ⟨reads, writes, ordered ++ [item], burst + 1⟩
  | write {item : ScheduledRequest} {reads writes ordered : List ScheduledRequest} {burst : ℕ}
      (h : reads = [] ∨ readBurstLimit ≤ burst) :
      Emits readBurstLimit ⟨reads, item :: writes, ordered, burst⟩
        ⟨reads, writes, ordered ++ [item], 0⟩

theorem Merge.step_emits (readBurstLimit : ℤ) {m : Merge} (h : m.reads ≠ [] ∨ m.writes ≠ []) :
    ∃ m', m.step readBurstLimit = .ok m' ∧ m.Emits readBurstLimit m' := by
  obtain ⟨reads, writes, ordered, burst⟩ := m
  by_cases hread : reads ≠ [] ∧ (writes = [] ∨ (burst : ℤ) < readBurstLimit)
  · obtain ⟨item, reads, rfl⟩ := List.exists_cons_of_ne_nil hread.1
    exact ⟨_, if_pos hread, .read hread.2⟩
  · have hwrites : writes ≠ [] := by
      intro hnil
      exact hread ⟨h.resolve_right (not_not_intro hnil), Or.inl hnil⟩
    obtain ⟨item, writes, rfl⟩ := List.exists_cons_of_ne_nil hwrites
    refine ⟨_, if_neg hread, .write ?_⟩
    by_contra hblocked
    simp only [not_or, Int.not_le] at hblocked
    exact hread ⟨hblocked.1, Or.inr hblocked.2⟩

/-- Every pass of the loop takes one item off a deque. -/
theorem Merge.step_length {readBurstLimit : ℤ} {m m' : Merge}
    (h : m.reads ≠ [] ∨ m.writes ≠ []) (hstep : m.step readBurstLimit = .ok m') :
    m'.reads.length + m'.writes.length < m.reads.length + m.writes.length := by
  obtain ⟨n, hn, hemits⟩ := m.step_emits readBurstLimit h
  obtain rfl : n = m' := Except.ok.inj (hn.symm.trans hstep)
  cases hemits with
  | read => simp only [List.length_cons]; omega
  | write => simp only [List.length_cons]; omega

/-- `while reads or writes`. -/
def Merge.loop (readBurstLimit : ℤ) (m : Merge) : Except IndexError (List ScheduledRequest) :=
  if _h : m.reads ≠ [] ∨ m.writes ≠ [] then
    match _hstep : m.step readBurstLimit with
    | .error e => .error e
    | .ok m' => m'.loop readBurstLimit
  else .ok m.ordered
termination_by m.reads.length + m.writes.length
decreasing_by exact Merge.step_length _h _hstep

def order (readBurstLimit : ℤ) (requests : List ScheduledRequest) :
    Except IndexError (List ScheduledRequest) :=
  (Merge.start requests).loop readBurstLimit

/-- The rule for the loop: it ends with both deques empty, and what every pass keeps holds
then. -/
theorem Merge.loop_rule {readBurstLimit : ℤ} {P : Merge → Prop}
    (hstep : ∀ m m' : Merge, m.Emits readBurstLimit m' → P m → P m') (m : Merge) (h : P m) :
    ∃ ordered burst, m.loop readBurstLimit = .ok ordered ∧ P ⟨[], [], ordered, burst⟩ := by
  induction hn : m.reads.length + m.writes.length using Nat.strong_induction_on
    generalizing m with
  | _ n ih =>
    rw [Merge.loop]
    by_cases hmore : m.reads ≠ [] ∨ m.writes ≠ []
    · obtain ⟨m', hok, hemits⟩ := m.step_emits readBurstLimit hmore
      have hless := Merge.step_length hmore hok
      obtain ⟨ordered, burst, hloop, hend⟩ :=
        ih _ (hn ▸ hless) m' (hstep m m' hemits h) rfl
      refine ⟨ordered, burst, ?_, hend⟩
      rw [dif_pos hmore]
      split
      next e he => rw [hok] at he; cases he
      next n' hn' =>
        obtain rfl : m' = n' := Except.ok.inj (hok.symm.trans hn')
        exact hloop
    · simp only [ne_eq, not_or, not_not] at hmore
      obtain ⟨reads, writes, ordered, burst⟩ := m
      obtain ⟨rfl, rfl⟩ : reads = [] ∧ writes = [] := hmore
      exact ⟨ordered, burst, dif_neg (by simp), h⟩

/-- The items of each class that were emitted, with those that wait, are the class. -/
structure Merge.Splits (reads writes : List ScheduledRequest) (m : Merge) : Prop where
  reads_read : ∀ item ∈ m.reads, isRead item = true
  writes_not : ∀ item ∈ m.writes, isRead item = false
  reads : m.ordered.filter isRead ++ m.reads = reads
  writes : m.ordered.filter (fun item => !isRead item) ++ m.writes = writes

theorem Merge.Emits.splits {readBurstLimit : ℤ} {reads writes : List ScheduledRequest}
    {m m' : Merge} (h : m.Emits readBurstLimit m') (hm : m.Splits reads writes) :
    m'.Splits reads writes := by
  obtain ⟨hread, hnot, hreads, hwrites⟩ := hm
  cases h with
  | read =>
    obtain ⟨hitem, hread⟩ := List.forall_mem_cons.mp hread
    refine ⟨hread, hnot, ?_, ?_⟩
    · simpa [List.filter_append, hitem] using hreads
    · simpa [List.filter_append, hitem] using hwrites
  | write =>
    obtain ⟨hitem, hnot⟩ := List.forall_mem_cons.mp hnot
    refine ⟨hread, hnot, ?_, ?_⟩
    · simpa [List.filter_append, hitem] using hreads
    · simpa [List.filter_append, hitem] using hwrites

theorem Merge.start_splits (requests : List ScheduledRequest) :
    (Merge.start requests).Splits (sortedBy sortKey (requests.filter isRead))
      (sortedBy sortKey (requests.filter fun item => !isRead item)) := by
  refine ⟨fun item hitem => ?_, fun item hitem => ?_, rfl, rfl⟩
  · have hmem := (sortedBy_stablySorted sortKey _).perm.mem_iff.mp hitem
    exact (List.mem_filter.mp hmem).2
  · have hmem := (sortedBy_stablySorted sortKey _).perm.mem_iff.mp hitem
    simpa using (List.mem_filter.mp hmem).2

/-- The output has every item of the input once, and its classes are the sorted classes of
the input. -/
theorem order_splits (readBurstLimit : ℤ) (requests : List ScheduledRequest) :
    ∃ ordered, order readBurstLimit requests = .ok ordered ∧ ordered.Perm requests ∧
      ordered.filter isRead = sortedBy sortKey (requests.filter isRead) ∧
      ordered.filter (fun item => !isRead item)
        = sortedBy sortKey (requests.filter fun item => !isRead item) := by
  obtain ⟨ordered, burst, hloop, hend⟩ :=
    Merge.loop_rule (fun _ _ hemits hm => hemits.splits hm) _ (Merge.start_splits requests)
  have hreads : ordered.filter isRead = sortedBy sortKey (requests.filter isRead) := by
    simpa using hend.reads
  have hwrites : ordered.filter (fun item => !isRead item)
      = sortedBy sortKey (requests.filter fun item => !isRead item) := by
    simpa using hend.writes
  refine ⟨ordered, hloop, ?_, hreads, hwrites⟩
  have hclasses : (ordered.filter isRead ++ ordered.filter fun item => !isRead item).Perm
      (requests.filter isRead ++ requests.filter fun item => !isRead item) := by
    rw [hreads, hwrites]
    exact (sortedBy_stablySorted sortKey _).perm.append (sortedBy_stablySorted sortKey _).perm
  exact (List.filter_append_perm isRead ordered).symm.trans
    (hclasses.trans (List.filter_append_perm isRead requests))

end ReadPriorityScheduler

/-- Neither policy loses or duplicates a request. First come first served is the stable sort
by arrival and id; read priority ends without an empty pop, keeps each class in that order,
and so agrees with it class by class. -/
theorem order_permutes (readBurstLimit : ℤ) (requests : List ScheduledRequest) :
    StablySorted sortKey requests (FIFOScheduler.order requests) ∧
      ∃ ordered, ReadPriorityScheduler.order readBurstLimit requests = .ok ordered ∧
        ordered.Perm requests ∧
        StablySorted sortKey (requests.filter isRead) (ordered.filter isRead) ∧
        StablySorted sortKey (requests.filter fun item => !isRead item)
          (ordered.filter fun item => !isRead item) ∧
        ordered.filter isRead = (FIFOScheduler.order requests).filter isRead ∧
        ordered.filter (fun item => !isRead item)
          = (FIFOScheduler.order requests).filter fun item => !isRead item := by
  have hfifo : StablySorted sortKey requests (FIFOScheduler.order requests) :=
    sortedBy_stablySorted sortKey requests
  obtain ⟨ordered, hok, hperm, hreads, hwrites⟩ :=
    ReadPriorityScheduler.order_splits readBurstLimit requests
  have hsortedReads : StablySorted sortKey (requests.filter isRead) (ordered.filter isRead) :=
    hreads ▸ sortedBy_stablySorted sortKey _
  have hsortedWrites : StablySorted sortKey (requests.filter fun item => !isRead item)
      (ordered.filter fun item => !isRead item) :=
    hwrites ▸ sortedBy_stablySorted sortKey _
  exact ⟨hfifo, ordered, hok, hperm, hsortedReads, hsortedWrites,
    hsortedReads.unique (hfifo.filter isRead),
    hsortedWrites.unique (hfifo.filter fun item => !isRead item)⟩

namespace ReadPriorityScheduler

/-- The number of reads that `reads` of them and a credit of `limit` put in front of each
item that is no read. -/
def ReadsAhead (reads limit : ℕ) (ordered : List ScheduledRequest) : Prop :=
  ∀ before item after, ordered = before ++ item :: after → isRead item = false →
    before.countP isRead = min reads ((before.countP (fun item => !isRead item) + 1) * limit)

theorem ReadsAhead.concat {reads limit : ℕ} {ordered : List ScheduledRequest}
    (h : ReadsAhead reads limit ordered) {item : ScheduledRequest}
    (hitem : isRead item = false → ordered.countP isRead
      = min reads ((ordered.countP (fun item => !isRead item) + 1) * limit)) :
    ReadsAhead reads limit (ordered ++ [item]) := by
  intro before other after heq hother
  rcases List.eq_nil_or_concat' after with rfl | ⟨front, last, rfl⟩
  · obtain ⟨rfl, hlast⟩ := List.append_inj' heq rfl
    obtain rfl : item = other := (List.cons.inj hlast).1
    exact hitem hother
  · rw [← List.cons_append, ← List.append_assoc] at heq
    exact h before other front (List.append_inj' heq rfl).1 hother

/-- The reads emitted so far are those that earlier items had in front of them and the
current burst, which stays within the limit while an item waits. -/
structure Merge.Paced (reads limit : ℕ) (m : Merge) : Prop where
  ahead : ReadsAhead reads limit m.ordered
  emitted : m.ordered.countP isRead
    = min reads (m.ordered.countP (fun item => !isRead item) * limit) + m.readBurst
  credit : m.writes ≠ [] → m.readBurst ≤ limit

theorem Merge.Splits.length {reads writes : List ScheduledRequest} {m : Merge}
    (h : m.Splits reads writes) : m.ordered.countP isRead + m.reads.length = reads.length := by
  rw [← h.reads, List.length_append, List.countP_eq_length_filter]

/-- An item that is no read is emitted when the reads or the credit are used up, and then
the count is the closed form. -/
theorem Merge.Emits.paced {readBurstLimit : ℤ} {reads writes : List ScheduledRequest}
    {m m' : Merge} (h : m.Emits readBurstLimit m') (hs : m.Splits reads writes)
    (hp : m.Paced reads.length readBurstLimit.toNat) :
    m'.Paced reads.length readBurstLimit.toNat := by
  have hlength := hs.length
  obtain ⟨hahead, hemitted, hcredit⟩ := hp
  cases h with
  | @read item rest waiting ordered burst hburst =>
    have hitem : isRead item = true := hs.reads_read item List.mem_cons_self
    constructor
    · apply hahead.concat
      intro hnot
      rw [hitem] at hnot
      cases hnot
    · simp only [List.countP_append, List.countP_singleton, hitem] at hemitted ⊢
      simp only [if_true, Bool.not_true, Bool.false_eq_true, if_false, Nat.add_zero]
      omega
    · intro hwaiting
      have := hburst.resolve_left hwaiting
      show burst + 1 ≤ readBurstLimit.toNat
      omega
  | @write item waiting rest ordered burst hburst =>
    have hitem : isRead item = false := hs.writes_not item List.mem_cons_self
    have hburstLe : burst ≤ readBurstLimit.toNat := hcredit (List.cons_ne_nil _ _)
    have hexact : ordered.countP isRead
        = min reads.length
          ((ordered.countP (fun item => !isRead item) + 1) * readBurstLimit.toNat) := by
      dsimp only at hlength hemitted
      rw [Nat.add_one_mul]
      rcases hburst with rfl | hlimit
      · simp only [List.length_nil] at hlength
        omega
      · omega
    constructor
    · exact hahead.concat fun _ => hexact
    · simp only [List.countP_append, List.countP_singleton, hitem, Bool.not_false, if_true,
        Bool.false_eq_true, if_false]
      omega
    · exact fun _ => Nat.zero_le _

/-- The output is the input in an order in which the `k`-th item that is no read comes after
exactly `k` bursts of reads, or after all of them when there are fewer; a limit of zero or less
gives reads no precedence. -/
theorem order_readsAhead (readBurstLimit : ℤ) (requests : List ScheduledRequest) :
    ∃ ordered, order readBurstLimit requests = .ok ordered ∧ ordered.Perm requests ∧
      ReadsAhead (requests.countP isRead) (max 0 readBurstLimit).toNat ordered := by
  have hreads : (sortedBy sortKey (requests.filter isRead)).length = requests.countP isRead := by
    rw [(sortedBy_stablySorted sortKey _).perm.length_eq, List.countP_eq_length_filter]
  have hlimit : (max 0 readBurstLimit).toNat = readBurstLimit.toNat := by omega
  have hstart : (Merge.start requests).Paced
      (sortedBy sortKey (requests.filter isRead)).length readBurstLimit.toNat := by
    refine ⟨fun before item after heq => ?_, ?_, fun _ => Nat.zero_le _⟩
    · exact absurd heq.symm (List.append_ne_nil_of_right_ne_nil _ (List.cons_ne_nil _ _))
    · simp [Merge.start]
  obtain ⟨ordered, burst, hloop, -, hend⟩ := Merge.loop_rule
    (P := fun m => m.Splits _ _ ∧ m.Paced _ _)
    (fun _ _ hemits hm => ⟨hemits.splits hm.1, hemits.paced hm.1 hm.2⟩) _
    ⟨Merge.start_splits requests, hstart⟩
  obtain ⟨ordered', hok, hperm, -⟩ := order_splits readBurstLimit requests
  obtain rfl : ordered = ordered' := Except.ok.inj (hloop.symm.trans hok)
  refine ⟨ordered, hloop, hperm, ?_⟩
  rw [← hreads, hlimit]
  exact hend.ahead

end ReadPriorityScheduler
end OpenFlash.Simulator
