import Mathlib.Data.List.TakeWhile
import OpenFlash.Trace.Values

/-! `load_jsonl_trace`: a request for each line that is neither blank nor a comment, or the
exception of the first line that is not a record. -/
namespace OpenFlash.Trace
open Support
open Simulator (Operation)

/-- A request that `__post_init__` accepts, as it does with an arrival time that is a NaN. -/
structure IORequest where
  requestId : ℤ
  operation : Operation
  lpn : ℤ
  pages : ℤ
  arrivalUs : PyFloat
  valid : ¬ (requestId < 0 ∨ lpn < 0 ∨ pages ≤ 0 ∨ arrivalUs.IsNegative)

/-- A request as the simulator takes it, with a number for its arrival time. -/
def IORequest.ofSimulator (r : Simulator.IORequest) : IORequest where
  requestId := r.requestId
  operation := r.operation
  lpn := r.lpn
  pages := r.pages
  arrivalUs := .finite r.arrivalUs
  valid := by
    have hpages := r.pages_pos
    have harrival := r.arrival_nonneg
    rintro (h | h | h | h)
    · omega
    · omega
    · omega
    · exact absurd harrival (not_le_of_gt h)

/-- The requests that the simulator takes are those whose arrival time is a number. -/
theorem IORequest.exists_ofSimulator_iff {r : IORequest} :
    (∃ s, IORequest.ofSimulator s = r) ↔ ∃ x, r.arrivalUs = .finite x := by
  constructor
  · rintro ⟨s, rfl⟩
    exact ⟨s.arrivalUs, rfl⟩
  · obtain ⟨requestId, operation, lpn, pages, arrivalUs, hvalid⟩ := r
    rintro ⟨x, rfl⟩
    obtain ⟨hid, hlpn, hpages, harrival⟩ :
        0 ≤ requestId ∧ 0 ≤ lpn ∧ 0 < pages ∧ 0 ≤ x := by
      refine ⟨?_, ?_, ?_, ?_⟩
      · by_contra h
        exact hvalid (.inl (not_le.mp h))
      · by_contra h
        exact hvalid (.inr (.inl (not_le.mp h)))
      · by_contra h
        exact hvalid (.inr (.inr (.inl (not_lt.mp h))))
      · by_contra h
        exact hvalid (.inr (.inr (.inr (not_le.mp h))))
    obtain ⟨requestId, rfl⟩ := Int.eq_ofNat_of_zero_le hid
    obtain ⟨lpn, rfl⟩ := Int.eq_ofNat_of_zero_le hlpn
    obtain ⟨pages, rfl⟩ := Int.eq_ofNat_of_zero_le hpages.le
    exact ⟨⟨requestId, operation, lpn, pages, x, Int.natCast_pos.mp hpages, harrival⟩, rfl⟩

def ioRequest (requestId : ℤ) (operation : Operation) (lpn pages : ℤ) (arrivalUs : PyFloat) :
    Except PyException IORequest :=
  if h : requestId < 0 ∨ lpn < 0 ∨ pages ≤ 0 ∨ arrivalUs.IsNegative then
    .error ⟨.valueError, "request fields cannot be negative and pages must be positive"⟩
  else .ok ⟨requestId, operation, lpn, pages, arrivalUs, h⟩

/-- The characters that `str.strip` removes. -/
def isSpace (c : Char) : Bool :=
  let n := c.toNat
  decide ((0x09 ≤ n ∧ n ≤ 0x0d) ∨ (0x1c ≤ n ∧ n ≤ 0x20) ∨ n = 0x85 ∨ n = 0xa0 ∨ n = 0x1680 ∨
    (0x2000 ≤ n ∧ n ≤ 0x200a) ∨ n = 0x2028 ∨ n = 0x2029 ∨ n = 0x202f ∨ n = 0x205f ∨ n = 0x3000)

def lstrip (line : String) : List Char := line.toList.dropWhile isSpace

def strip (line : String) : List Char := ((lstrip line).reverse.dropWhile isSpace).reverse

/-- `not line.strip() or line.lstrip().startswith("#")`. -/
def Skipped (line : String) : Prop := strip line = [] ∨ (lstrip line).head? = some '#'

instance : DecidablePred Skipped := fun _ => inferInstanceAs (Decidable (_ ∨ _))

/-- The request of a decoded line that `count` requests come before. -/
def requestOf (rt : Runtime) (count : ℕ) (value : Json) : Except PyException IORequest := do
  let requestId ← toInt rt (← get value "request_id" (.int count))
  let operation ← toOperation rt (← subscript value "operation")
  let lpn ← toInt rt (← subscript value "lpn")
  let pages ← toInt rt (← get value "pages" (.int 1))
  let arrivalUs ← toFloat rt (← get value "arrival_us" (.float (.finite 0)))
  ioRequest requestId operation lpn pages arrivalUs

def record (rt : Runtime) (count : ℕ) (line : String) : Except PyException IORequest := do
  let value ← orValueError (rt.loads line)
  requestOf rt count value

/-- `except (KeyError, TypeError, ValueError, json.JSONDecodeError)`. -/
def caught : ExceptionKind → Bool
  | .keyError => true
  | .typeError => true
  | .valueError => true
  | .attributeError => false
  | .overflowError => false

def invalidRecord (path : String) (lineNumber : ℕ) (text : String) : PyException :=
  ⟨.valueError, "invalid trace record at " ++ path ++ ":" ++ toString lineNumber ++ ": " ++ text⟩

/-- The loop from a line number on, with the requests so far. -/
def loadLines (rt : Runtime) (path : String) :
    ℕ → List String → List IORequest → Except PyException (List IORequest)
  | _, [], requests =>
      if requests.isEmpty then .error ⟨.valueError, "trace contains no requests: " ++ path⟩
      else .ok requests
  | lineNumber, line :: rest, requests =>
      if Skipped line then loadLines rt path (lineNumber + 1) rest requests
      else
        match record rt requests.length line with
        | .ok request => loadLines rt path (lineNumber + 1) rest (requests ++ [request])
        | .error e =>
            if caught e.kind then .error (invalidRecord path lineNumber e.text) else .error e

def loadJsonlTrace (rt : Runtime) (path : String) (lines : List String) :
    Except PyException (List IORequest) :=
  loadLines rt path 1 lines []

/-- Every character is white space. -/
def IsBlank (line : String) : Prop := ∀ c ∈ line.toList, isSpace c

/-- The first character that is not white space is a hash. -/
def IsComment (line : String) : Prop :=
  ∃ spaces rest, line.toList = spaces ++ '#' :: rest ∧ ∀ c ∈ spaces, isSpace c

/-- A line that should be a record. -/
def IsRecordLine (line : String) : Prop := ¬ IsBlank line ∧ ¬ IsComment line

/-- The members of an object say what `r` is when `count` requests come before. -/
structure Describes (rt : Runtime) (count : ℕ) (members : List (String × Json)) (r : IORequest) :
    Prop where
  requestId : IntOf rt ((members.lookup "request_id").getD (.int count)) r.requestId
  operation : ∃ v, members.lookup "operation" = some v ∧ OperationOf v r.operation
  lpn : ∃ v, members.lookup "lpn" = some v ∧ IntOf rt v r.lpn
  pages : IntOf rt ((members.lookup "pages").getD (.int 1)) r.pages
  arrivalUs : FloatOf rt ((members.lookup "arrival_us").getD (.float (.finite 0))) r.arrivalUs

/-- `line` is a record, and `r` its request when `count` requests come before. -/
def Denotes (rt : Runtime) (count : ℕ) (line : String) (r : IORequest) : Prop :=
  ∃ members, rt.loads line = .ok (.object members) ∧ Describes rt count members r

def ValidRecord (rt : Runtime) (line : String) : Prop := ∃ count r, Denotes rt count line r

/-- One request for each line, in order, the first with `count` requests before it. -/
inductive Loaded (rt : Runtime) : ℕ → List String → List IORequest → Prop
  | nil (count : ℕ) : Loaded rt count [] []
  | cons {count : ℕ} {line : String} {lines : List String} {r : IORequest}
      {requests : List IORequest} (h : Denotes rt count line r)
      (hrest : Loaded rt (count + 1) lines requests) :
      Loaded rt count (line :: lines) (r :: requests)

variable {rt : Runtime} {line : String} {count : ℕ} {members : List (String × Json)}

theorem takeWhile_append_lstrip (line : String) :
    line.toList.takeWhile isSpace ++ lstrip line = line.toList := List.takeWhile_append_dropWhile

theorem strip_eq_nil_iff : strip line = [] ↔ IsBlank line := by
  rw [strip, List.reverse_eq_nil_iff, List.dropWhile_eq_nil_iff]
  simp only [List.mem_reverse, IsBlank]
  rw [← takeWhile_append_lstrip line]
  constructor
  · intro h c hc
    rcases List.mem_append.mp hc with hc | hc
    · exact List.mem_takeWhile_imp hc
    · exact h c hc
  · exact fun h c hc => h c (List.mem_append_right _ hc)

theorem head?_lstrip_iff : (lstrip line).head? = some '#' ↔ IsComment line := by
  constructor
  · intro h
    obtain ⟨rest, hrest⟩ := List.head?_eq_some_iff.mp h
    exact ⟨line.toList.takeWhile isSpace, rest, by rw [← hrest, takeWhile_append_lstrip],
      fun c hc => List.mem_takeWhile_imp hc⟩
  · rintro ⟨spaces, rest, hline, hspaces⟩
    rw [lstrip, hline, List.dropWhile_append_of_pos hspaces]
    rfl

theorem skipped_iff : Skipped line ↔ IsBlank line ∨ IsComment line := by
  rw [Skipped, strip_eq_nil_iff, head?_lstrip_iff]

theorem isRecordLine_iff : IsRecordLine line ↔ ¬ Skipped line := by
  rw [skipped_iff, not_or, IsRecordLine]

instance : DecidablePred IsRecordLine := fun _ => decidable_of_iff _ isRecordLine_iff.symm

def recordLines (lines : List String) : List String := lines.filter fun line => IsRecordLine line

theorem recordLines_cons_of_skipped (h : Skipped line) (lines : List String) :
    recordLines (line :: lines) = recordLines lines := by
  simp [recordLines, isRecordLine_iff, h]

theorem recordLines_cons_of_not_skipped (h : ¬ Skipped line) (lines : List String) :
    recordLines (line :: lines) = line :: recordLines lines := by
  simp [recordLines, isRecordLine_iff, h]

theorem get_object (members : List (String × Json)) (key : String) (default : Json) :
    get (.object members) key default = .ok ((members.lookup key).getD default) := rfl

theorem subscript_object_eq_ok_iff {key : String} {v : Json} :
    subscript (.object members) key = .ok v ↔ members.lookup key = some v := by
  cases h : members.lookup key with
  | none => simp [subscript, h]
  | some item => simp [subscript, h]

theorem ioRequest_eq_ok_iff {requestId lpn pages : ℤ} {operation : Operation} {arrivalUs : PyFloat}
    {r : IORequest} :
    ioRequest requestId operation lpn pages arrivalUs = .ok r ↔
      requestId = r.requestId ∧ operation = r.operation ∧ lpn = r.lpn ∧ pages = r.pages ∧
        arrivalUs = r.arrivalUs := by
  constructor
  · intro h
    unfold ioRequest at h
    split_ifs at h
    cases h
    exact ⟨rfl, rfl, rfl, rfl, rfl⟩
  · rintro ⟨rfl, rfl, rfl, rfl, rfl⟩
    exact dif_neg r.valid

theorem requestOf_object_eq_ok_iff {r : IORequest} :
    requestOf rt count (.object members) = .ok r ↔ Describes rt count members r := by
  simp only [requestOf, get_object, bind_eq_ok_iff, subscript_object_eq_ok_iff, Except.ok.injEq,
    exists_eq_left', toInt_eq_ok_iff, toFloat_eq_ok_iff, toOperation_eq_ok_iff,
    ioRequest_eq_ok_iff]
  constructor
  · rintro ⟨_, hid, op, hop, _, hoperation, l, hl, _, hlpn, _, hpages, _, harrival,
      rfl, rfl, rfl, rfl, rfl⟩
    exact ⟨hid, ⟨op, hop, hoperation⟩, ⟨l, hl, hlpn⟩, hpages, harrival⟩
  · rintro ⟨hid, ⟨op, hop, hoperation⟩, ⟨l, hl, hlpn⟩, hpages, harrival⟩
    exact ⟨_, hid, op, hop, _, hoperation, l, hl, _, hlpn, _, hpages, _, harrival,
      rfl, rfl, rfl, rfl, rfl⟩

theorem requestOf_of_not_object {value : Json} (h : ∀ members, value ≠ .object members)
    (rt : Runtime) (count : ℕ) :
    requestOf rt count value
      = .error ⟨.attributeError, "'" ++ value.typeName ++ "' object has no attribute 'get'"⟩ := by
  cases value with
  | object members => exact absurd rfl (h members)
  | _ => rfl

theorem record_eq_ok_iff {r : IORequest} :
    record rt count line = .ok r ↔ Denotes rt count line r := by
  simp only [record, bind_eq_ok_iff, orValueError_eq_ok_iff]
  constructor
  · rintro ⟨value, hload, hvalue⟩
    by_cases hobject : ∃ members, value = .object members
    · obtain ⟨members, rfl⟩ := hobject
      exact ⟨members, hload, requestOf_object_eq_ok_iff.mp hvalue⟩
    · rw [requestOf_of_not_object (not_exists.mp hobject)] at hvalue
      cases hvalue
  · rintro ⟨members, hload, hdescribes⟩
    exact ⟨_, hload, requestOf_object_eq_ok_iff.mpr hdescribes⟩

end OpenFlash.Trace
