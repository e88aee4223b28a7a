import OpenFlash.Trace.Loader

/-! Which lines make `load_jsonl_trace` raise something other than a `ValueError`, and what it
does on every other sequence of lines. -/
namespace OpenFlash.Trace
open Support
open Simulator (Operation)

/-- A float that `int` cannot convert. -/
def Json.IsInfinite : Json → Prop
  | .float (.infinite _) => True
  | _ => False

/-- An integer that rounds to no double. -/
def Json.BeyondDouble : Json → Prop
  | .int n => 2 ^ 1024 - 2 ^ 970 ≤ n.natAbs
  | _ => False

/-- Reading the members in the order of the source, the first that cannot be converted is an
infinite float for an integer or an integer too large for a double. -/
inductive MemberEscapes (rt : Runtime) (members : List (String × Json)) : Prop
  | requestId {v : Json} (hv : members.lookup "request_id" = some v) (hinfinite : v.IsInfinite)
  | lpn {v : Json} (hid : ∀ v, members.lookup "request_id" = some v → ∃ n, IntOf rt v n)
      (hoperation : ∃ v operation, members.lookup "operation" = some v ∧ OperationOf v operation)
      (hv : members.lookup "lpn" = some v) (hinfinite : v.IsInfinite)
  | pages {v : Json} (hid : ∀ v, members.lookup "request_id" = some v → ∃ n, IntOf rt v n)
      (hoperation : ∃ v operation, members.lookup "operation" = some v ∧ OperationOf v operation)
      (hlpn : ∃ v n, members.lookup "lpn" = some v ∧ IntOf rt v n)
      (hv : members.lookup "pages" = some v) (hinfinite : v.IsInfinite)
  | arrivalUs {v : Json} (hid : ∀ v, members.lookup "request_id" = some v → ∃ n, IntOf rt v n)
      (hoperation : ∃ v operation, members.lookup "operation" = some v ∧ OperationOf v operation)
      (hlpn : ∃ v n, members.lookup "lpn" = some v ∧ IntOf rt v n)
      (hpages : ∀ v, members.lookup "pages" = some v → ∃ n, IntOf rt v n)
      (hv : members.lookup "arrival_us" = some v) (hlarge : v.BeyondDouble)

/-- The line is JSON, and either not an object or one with such a member. -/
inductive Escapes (rt : Runtime) (line : String) : Prop
  | value {v : Json} (hload : rt.loads line = .ok v) (hv : ∀ members, v ≠ .object members)
  | member {members : List (String × Json)} (hload : rt.loads line = .ok (.object members))
      (h : MemberEscapes rt members)

/-- An exception that the loader does not catch. -/
def Uncaught {α : Type} (x : Except PyException α) : Prop :=
  ∃ e, x = .error e ∧ caught e.kind = false

variable {rt : Runtime} {line : String} {count : ℕ} {members : List (String × Json)} {v : Json}

theorem uncaught_bind {α β : Type} {x : Except PyException α} {f : α → Except PyException β} :
    Uncaught (x >>= f) ↔ Uncaught x ∨ ∃ a, x = .ok a ∧ Uncaught (f a) := by
  cases x with
  | error e => simp [Uncaught, bind, Except.bind]
  | ok a => simp [Uncaught, bind, Except.bind]

theorem not_uncaught_ok {α : Type} (a : α) : ¬ Uncaught (.ok a : Except PyException α) := by
  rintro ⟨e, he, -⟩
  cases he

theorem uncaught_error {α : Type} {e : PyException} :
    Uncaught (.error e : Except PyException α) ↔ caught e.kind = false := by
  simp [Uncaught]

theorem not_uncaught_orValueError {α : Type} (x : Except String α) :
    ¬ Uncaught (orValueError x) := by
  cases x with
  | ok a => exact not_uncaught_ok a
  | error text => simp [orValueError, uncaught_error, caught]

theorem not_uncaught_subscript (members : List (String × Json)) (key : String) :
    ¬ Uncaught (subscript (.object members) key) := by
  cases h : members.lookup key with
  | none => simp [subscript, h, uncaught_error, caught]
  | some item => simp [subscript, h, not_uncaught_ok]

theorem not_uncaught_toOperation (rt : Runtime) (v : Json) : ¬ Uncaught (toOperation rt v) := by
  unfold toOperation
  split
  · exact not_uncaught_ok _
  · exact not_uncaught_ok _
  · exact not_uncaught_ok _
  · simp [uncaught_error, caught]

theorem not_uncaught_ioRequest (requestId : ℤ) (operation : Operation) (lpn pages : ℤ)
    (arrivalUs : PyFloat) : ¬ Uncaught (ioRequest requestId operation lpn pages arrivalUs) := by
  unfold ioRequest
  split_ifs
  · simp [uncaught_error, caught]
  · exact not_uncaught_ok _

theorem uncaught_toInt_iff : Uncaught (toInt rt v) ↔ v.IsInfinite := by
  cases v with
  | bool b => exact iff_of_false (not_uncaught_ok _) id
  | int n => exact iff_of_false (not_uncaught_ok _) id
  | float x =>
    cases x with
    | finite x => exact iff_of_false (not_uncaught_ok _) id
    | infinite negative => exact iff_of_true (uncaught_error.mpr rfl) trivial
    | nan => exact iff_of_false (by simp [toInt, uncaught_error, caught]) id
  | str s => exact iff_of_false (not_uncaught_orValueError _) id
  | _ => exact iff_of_false (by simp [toInt, uncaught_error, caught]) id

theorem doubleOfInt_eq_none_iff {n : ℤ} :
    doubleOfInt n = none ↔ 2 ^ 1024 - 2 ^ 970 ≤ n.natAbs := by
  have hround : 2 ^ 1024 ≤ roundBits 53 n.natAbs ↔ 2 ^ 1024 - 2 ^ 970 ≤ n.natAbs :=
    le_roundBits_iff (by decide) rfl
  unfold doubleOfInt
  dsimp only
  rw [← hround]
  by_cases h : 2 ^ 1024 ≤ roundBits 53 n.natAbs
  · rw [if_pos h]
    exact iff_of_true rfl h
  · rw [if_neg h]
    exact iff_of_false (Option.some_ne_none _) h

theorem uncaught_floatOfInt_iff {n : ℤ} :
    Uncaught (floatOfInt n) ↔ 2 ^ 1024 - 2 ^ 970 ≤ n.natAbs := by
  rw [← doubleOfInt_eq_none_iff]
  unfold floatOfInt
  generalize doubleOfInt n = double
  cases double with
  | none => exact iff_of_true (uncaught_error.mpr rfl) rfl
  | some x => exact iff_of_false (not_uncaught_ok _) (Option.some_ne_none x)

theorem uncaught_toFloat_iff : Uncaught (toFloat rt v) ↔ v.BeyondDouble := by
  cases v with
  | bool b => exact iff_of_false (not_uncaught_ok _) id
  | int n =>
    rw [toFloat_int, uncaught_floatOfInt_iff]
    rfl
  | float x => exact iff_of_false (not_uncaught_ok _) id
  | str s => exact iff_of_false (not_uncaught_orValueError _) id
  | _ => exact iff_of_false (by simp [toFloat, uncaught_error, caught]) id

theorem infinite_getD_iff {key : String} {n : ℤ} :
    ((members.lookup key).getD (.int n)).IsInfinite ↔
      ∃ v, members.lookup key = some v ∧ v.IsInfinite :=
  getD_iff_exists id

theorem beyondDouble_getD_iff {key : String} {x : PyFloat} :
    ((members.lookup key).getD (.float x)).BeyondDouble ↔
      ∃ v, members.lookup key = some v ∧ v.BeyondDouble :=
  getD_iff_exists id

theorem intOf_getD_iff {key : String} {n : ℤ} :
    (∃ m, IntOf rt ((members.lookup key).getD (.int n)) m) ↔
      ∀ v, members.lookup key = some v → ∃ m, IntOf rt v m :=
  getD_iff_forall (P := fun v => ∃ m, IntOf rt v m) ⟨n, .int n⟩

theorem uncaught_requestOf_object_iff :
    Uncaught (requestOf rt count (.object members)) ↔ MemberEscapes rt members := by
  simp only [requestOf, get_object, uncaught_bind, not_uncaught_ok, false_or, Except.ok.injEq,
    exists_eq_left', uncaught_toInt_iff, uncaught_toFloat_iff, not_uncaught_subscript,
    not_uncaught_toOperation, not_uncaught_ioRequest, subscript_object_eq_ok_iff, toInt_eq_ok_iff,
    toOperation_eq_ok_iff, and_false, exists_false, or_false, infinite_getD_iff,
    beyondDouble_getD_iff]
  constructor
  · rintro (⟨v, hv, hinfinite⟩ | ⟨id, hid, op, hop, operation, hoperation, l, hl,
      hinfinite | ⟨lpn, hlpn, ⟨v, hv, hinfinite⟩ | ⟨pages, hpages, v, hv, hlarge⟩⟩⟩)
    · exact .requestId hv hinfinite
    · exact .lpn (intOf_getD_iff.mp ⟨id, hid⟩) ⟨op, operation, hop, hoperation⟩ hl hinfinite
    · exact .pages (intOf_getD_iff.mp ⟨id, hid⟩) ⟨op, operation, hop, hoperation⟩
        ⟨l, lpn, hl, hlpn⟩ hv hinfinite
    · exact .arrivalUs (intOf_getD_iff.mp ⟨id, hid⟩) ⟨op, operation, hop, hoperation⟩
        ⟨l, lpn, hl, hlpn⟩ (intOf_getD_iff.mp ⟨pages, hpages⟩) hv hlarge
  · intro h
    cases h with
    | requestId hv hinfinite => exact .inl ⟨_, hv, hinfinite⟩
    | lpn hid hoperation hv hinfinite =>
      obtain ⟨id, hid⟩ := intOf_getD_iff.mpr hid
      obtain ⟨op, operation, hop, hoperation⟩ := hoperation
      exact .inr ⟨id, hid, op, hop, operation, hoperation, _, hv, .inl hinfinite⟩
    | pages hid hoperation hlpn hv hinfinite =>
      obtain ⟨id, hid⟩ := intOf_getD_iff.mpr hid
      obtain ⟨op, operation, hop, hoperation⟩ := hoperation
      obtain ⟨l, lpn, hl, hlpn⟩ := hlpn
      exact .inr ⟨id, hid, op, hop, operation, hoperation, l, hl,
        .inr ⟨lpn, hlpn, .inl ⟨_, hv, hinfinite⟩⟩⟩
    | arrivalUs hid hoperation hlpn hpages hv hlarge =>
      obtain ⟨id, hid⟩ := intOf_getD_iff.mpr hid
      obtain ⟨op, operation, hop, hoperation⟩ := hoperation
      obtain ⟨l, lpn, hl, hlpn⟩ := hlpn
      obtain ⟨pages, hpages⟩ := intOf_getD_iff.mpr hpages
      exact .inr ⟨id, hid, op, hop, operation, hoperation, l, hl,
        .inr ⟨lpn, hlpn, .inr ⟨pages, hpages, _, hv, hlarge⟩⟩⟩

/-- The exceptions of a line that the loader lets through. -/
theorem uncaught_record_iff : Uncaught (record rt count line) ↔ Escapes rt line := by
  simp only [record, uncaught_bind, not_uncaught_orValueError, false_or, orValueError_eq_ok_iff]
  constructor
  · rintro ⟨value, hload, huncaught⟩
    by_cases hobject : ∃ members, value = .object members
    · obtain ⟨members, rfl⟩ := hobject
      exact .member hload (uncaught_requestOf_object_iff.mp huncaught)
    · exact .value hload (not_exists.mp hobject)
  · intro h
    cases h with
    | value hload hv =>
      refine ⟨_, hload, ?_⟩
      rw [requestOf_of_not_object hv, uncaught_error]
      rfl
    | member hload h => exact ⟨_, hload, uncaught_requestOf_object_iff.mpr h⟩

/-- Whether a line is a record does not depend on the requests before it. -/
theorem validRecord_iff (count : ℕ) : ValidRecord rt line ↔ ∃ r, Denotes rt count line r := by
  constructor
  · rintro ⟨count', r, members, hload, hid, hoperation, hlpn, hpages, harrival⟩
    cases hmember : members.lookup "request_id" with
    | some v =>
      rw [hmember] at hid
      exact ⟨r, members, hload, by rwa [hmember], hoperation, hlpn, hpages, harrival⟩
    | none =>
      have hvalid : ¬ ((count : ℤ) < 0 ∨ r.lpn < 0 ∨ r.pages ≤ 0 ∨ r.arrivalUs.IsNegative) := by
        rintro (hneg | hother)
        · omega
        · exact r.valid (.inr hother)
      refine ⟨{ r with requestId := count, valid := hvalid }, members, hload, ?_, hoperation, hlpn,
        hpages, harrival⟩
      rw [hmember]
      exact .int count
  · rintro ⟨r, h⟩
    exact ⟨count, r, h⟩

/-- The first line that should be a record and is not, behind the lines of `before`. -/
structure FirstInvalid (rt : Runtime) (lines before : List String) (line : String) : Prop where
  split : ∃ after, lines = before ++ line :: after
  valid : ∀ l ∈ recordLines before, ValidRecord rt l
  record : IsRecordLine line
  invalid : ¬ ValidRecord rt line

/-- Valid lines are read one after the other, whatever follows them. -/
theorem loadLines_append (path : String) {before : List String} (n : ℕ) (requests : List IORequest)
    (h : ∀ l ∈ recordLines before, ValidRecord rt l) :
    ∃ rs, Loaded rt requests.length (recordLines before) rs ∧
      ∀ after, loadLines rt path n (before ++ after) requests
        = loadLines rt path (n + before.length) after (requests ++ rs) := by
  induction before generalizing n requests with
  | nil => exact ⟨[], .nil _, fun after => by simp⟩
  | cons line before ih =>
    by_cases hskip : Skipped line
    · rw [recordLines_cons_of_skipped hskip] at h ⊢
      obtain ⟨rs, hloaded, hafter⟩ := ih (n + 1) requests h
      refine ⟨rs, hloaded, fun after => ?_⟩
      rw [List.cons_append, loadLines, if_pos hskip, hafter, List.length_cons]
      congr 1
      omega
    · rw [recordLines_cons_of_not_skipped hskip] at h ⊢
      obtain ⟨r, hr⟩ := (validRecord_iff requests.length).mp (h line List.mem_cons_self)
      obtain ⟨rs, hloaded, hafter⟩ := ih (n + 1) (requests ++ [r])
        fun l hl => h l (List.mem_cons_of_mem _ hl)
      rw [List.length_append, List.length_singleton] at hloaded
      refine ⟨r :: rs, .cons hr hloaded, fun after => ?_⟩
      rw [List.cons_append, loadLines, if_neg hskip, record_eq_ok_iff.mpr hr]
      dsimp only
      rw [hafter, List.append_assoc, List.length_cons]
      congr 1
      omega

theorem loadJsonlTrace_of_valid (path : String) {lines : List String}
    (h : ∀ l ∈ recordLines lines, ValidRecord rt l) :
    ∃ rs, Loaded rt 0 (recordLines lines) rs ∧
      loadJsonlTrace rt path lines
        = if rs.isEmpty then .error ⟨.valueError, "trace contains no requests: " ++ path⟩
          else .ok rs := by
  obtain ⟨rs, hloaded, hafter⟩ := loadLines_append path 1 [] h
  refine ⟨rs, hloaded, ?_⟩
  have hall := hafter []
  rw [List.append_nil] at hall
  rw [loadJsonlTrace, hall]
  rfl

theorem loadJsonlTrace_of_firstInvalid (path : String) {lines before : List String}
    (h : FirstInvalid rt lines before line) :
    ∃ e, (caught e.kind = false ↔ Escapes rt line) ∧
      loadJsonlTrace rt path lines
        = if caught e.kind then .error (invalidRecord path (before.length + 1) e.text)
          else .error e := by
  obtain ⟨after, rfl⟩ := h.split
  obtain ⟨rs, -, hafter⟩ := loadLines_append path 1 [] h.valid
  cases hrecord : record rt ([] ++ rs).length line with
  | ok r => exact absurd ⟨_, r, record_eq_ok_iff.mp hrecord⟩ h.invalid
  | error e =>
    refine ⟨e, ?_, ?_⟩
    · rw [← uncaught_record_iff, hrecord, uncaught_error]
    · rw [loadJsonlTrace, hafter, loadLines, if_neg (isRecordLine_iff.mp h.record), hrecord,
        Nat.add_comm 1]

theorem valid_or_firstInvalid (rt : Runtime) (lines : List String) :
    (∀ l ∈ recordLines lines, ValidRecord rt l) ∨
      ∃ before line, FirstInvalid rt lines before line := by
  induction lines with
  | nil => exact .inl fun l hl => absurd hl List.not_mem_nil
  | cons line lines ih =>
    by_cases hfirst : IsRecordLine line ∧ ¬ ValidRecord rt line
    · obtain ⟨hrecord, hinvalid⟩ := hfirst
      exact .inr ⟨[], line, ⟨lines, rfl⟩, fun l hl => absurd hl List.not_mem_nil, hrecord, hinvalid⟩
    · have hcons : ∀ {ls : List String}, (∀ l ∈ recordLines ls, ValidRecord rt l) →
          ∀ l ∈ recordLines (line :: ls), ValidRecord rt l := by
        intro ls hls l hl
        obtain ⟨hmem, hrecord⟩ := List.mem_filter.mp hl
        rcases List.mem_cons.mp hmem with rfl | hmem
        · by_contra hinvalid
          exact hfirst ⟨of_decide_eq_true hrecord, hinvalid⟩
        · exact hls l (List.mem_filter.mpr ⟨hmem, hrecord⟩)
      rcases ih with hvalid | ⟨before, bad, ⟨after, rfl⟩, hvalid, hrecord, hinvalid⟩
      · exact .inl (hcons hvalid)
      · exact .inr ⟨line :: before, bad, ⟨after, rfl⟩, hcons hvalid, hrecord, hinvalid⟩

/-- The loader returns one request for each record line, in order, or raises a `ValueError`,
which names the first invalid line if there is one. -/
structure Total (rt : Runtime) (path : String) (lines : List String) : Prop where
  returns : ∀ requests, loadJsonlTrace rt path lines = .ok requests →
    Loaded rt 0 (recordLines lines) requests
  raises : ∀ e, loadJsonlTrace rt path lines = .error e → e.kind = .valueError
  names : ∀ before line, FirstInvalid rt lines before line →
    ∃ text, loadJsonlTrace rt path lines = .error (invalidRecord path (before.length + 1) text)

/-- The loader is total on a sequence of lines exactly when the first invalid line, if there is
one, does not escape its handler. -/
theorem loadJsonlTrace_total_iff (rt : Runtime) (path : String) (lines : List String) :
    Total rt path lines ↔ ∀ before line, FirstInvalid rt lines before line → ¬ Escapes rt line := by
  constructor
  · intro htotal before line hfirst hescapes
    obtain ⟨e, hiff, hload⟩ := loadJsonlTrace_of_firstInvalid path hfirst
    have huncaught : caught e.kind = false := hiff.mpr hescapes
    rw [if_neg (by simp [huncaught])] at hload
    rw [htotal.raises e hload] at huncaught
    cases huncaught
  · intro h
    have hnames : ∀ before line, FirstInvalid rt lines before line →
        ∃ text, loadJsonlTrace rt path lines
          = .error (invalidRecord path (before.length + 1) text) := by
      intro before line hfirst
      obtain ⟨e, hiff, hload⟩ := loadJsonlTrace_of_firstInvalid path hfirst
      have hcaught : caught e.kind := by
        rw [← Bool.not_eq_false, hiff]
        exact h before line hfirst
      exact ⟨e.text, hload.trans (if_pos hcaught)⟩
    rcases valid_or_firstInvalid rt lines with hvalid | ⟨before, line, hfirst⟩
    · obtain ⟨rs, hloaded, hload⟩ := loadJsonlTrace_of_valid path hvalid
      refine ⟨?_, ?_, hnames⟩
      · intro requests hok
        rw [hload] at hok
        split_ifs at hok
        cases hok
        exact hloaded
      · intro e herror
        rw [hload] at herror
        split_ifs at herror
        cases herror
        rfl
    · obtain ⟨text, hload⟩ := hnames before line hfirst
      refine ⟨?_, ?_, hnames⟩
      · intro requests hok
        rw [hload] at hok
        cases hok
      · intro e herror
        rw [hload] at herror
        cases herror
        rfl

/-- What the library makes of an empty list, an empty object and a record. -/
def sampleRuntime : Runtime where
  loads line :=
    if line = "[]\n" then .ok (.array [])
    else if line = "\x7b\x7d\n" then .ok (.object [])
    else if line = "\x7b\"operation\": \"read\", \"lpn\": 42\x7d\n" then
      .ok (.object [("operation", .str "read"), ("lpn", .int 42)])
    else .error "Expecting value: line 1 column 1 (char 0)"
  intOfStr s := .error ("invalid literal for int() with base 10: '" ++ s ++ "'")
  floatOfStr s := .error ("could not convert string to float: '" ++ s ++ "'")
  repr value := value.typeName

/-- A list has no `get`, and an `AttributeError` is not one of the exceptions caught. -/
theorem emptyList_not_total :
    loadJsonlTrace sampleRuntime "trace.jsonl" ["[]\n"]
        = .error ⟨.attributeError, "'list' object has no attribute 'get'"⟩ ∧
      ¬ Total sampleRuntime "trace.jsonl" ["[]\n"] := by
  have hload : loadJsonlTrace sampleRuntime "trace.jsonl" ["[]\n"]
      = .error ⟨.attributeError, "'list' object has no attribute 'get'"⟩ := by
    rfl
  refine ⟨hload, fun htotal => ?_⟩
  have hkind := htotal.raises _ hload
  cases hkind

example : loadJsonlTrace sampleRuntime "bad.jsonl" ["# a trace\n", "\x7b\x7d\n"]
    = .error ⟨.valueError, "invalid trace record at bad.jsonl:2: 'operation'"⟩ := rfl

example : (loadJsonlTrace sampleRuntime "trace.jsonl"
      ["\n", "\x7b\"operation\": \"read\", \"lpn\": 42\x7d\n"]).map (List.map IORequest.lpn)
    = .ok [42] := rfl

end OpenFlash.Trace
