import OpenFlash.Support.Memory

/-! Records of unsigned little-endian fields without padding: packing and unpacking a whole
record as the `struct` module of Python does, and reading one member at its offset as C does. -/
namespace Support

/-- The number that bytes spell, least significant first. -/
def valueLE : List UInt8 → ℕ
  | [] => 0
  | byte :: rest => byte.toNat + 256 * valueLE rest

theorem valueLE_bytesLE (n value : ℕ) : valueLE (bytesLE n value) = value % 2 ^ (8 * n) := by
  induction n generalizing value with
  | zero => simp [bytesLE, valueLE, Nat.mod_one]
  | succ n ih =>
    have hpow : 2 ^ (8 * (n + 1)) = 256 * 2 ^ (8 * n) := by
      rw [Nat.mul_succ, pow_add, Nat.mul_comm, show 2 ^ 8 = 256 from rfl]
    rw [bytesLE, valueLE, ih, UInt8.toNat_ofNat', hpow, Nat.mod_mul]

theorem bytesLE_valueLE (bytes : List UInt8) : bytesLE bytes.length (valueLE bytes) = bytes := by
  induction bytes with
  | nil => rfl
  | cons byte rest ih =>
    have hlt : byte.toNat < 256 := byte.toNat_lt
    have hbyte : UInt8.ofNat (byte.toNat + 256 * valueLE rest) = byte := by
      apply UInt8.toNat_inj.mp
      rw [UInt8.toNat_ofNat']
      omega
    have hrest : (byte.toNat + 256 * valueLE rest) / 256 = valueLE rest := by omega
    rw [List.length_cons, valueLE, bytesLE, hbyte, hrest, ih]

theorem valueLE_lt (bytes : List UInt8) : valueLE bytes < 2 ^ (8 * bytes.length) := by
  rw [← bytesLE_valueLE bytes, valueLE_bytesLE, length_bytesLE]
  exact Nat.mod_lt _ (Nat.two_pow_pos _)

theorem bytesLE_zero (n : ℕ) : bytesLE n 0 = List.replicate n 0 := by
  induction n with
  | zero => rfl
  | succ n ih =>
    rw [bytesLE, Nat.zero_div, ih, List.replicate_succ]
    rfl

/-- The unsigned integer codes of a `struct` format. -/
inductive FormatCode where
  | b
  | h
  | i
  | q
  deriving DecidableEq, Repr

def FormatCode.size : FormatCode → ℕ
  | .b => 1
  | .h => 2
  | .i => 4
  | .q => 8

/-- As many values as codes, each within its width. -/
def FieldsFit (format : List FormatCode) (values : List ℕ) : Prop :=
  format.length = values.length ∧ ∀ x ∈ format.zip values, x.2 < 2 ^ (8 * x.1.size)

instance (format : List FormatCode) (values : List ℕ) : Decidable (FieldsFit format values) :=
  inferInstanceAs (Decidable (_ ∧ _))

def formatSize (format : List FormatCode) : ℕ := (format.map FormatCode.size).sum

/-- The fields one after the other. -/
def fieldBytes (format : List FormatCode) (values : List ℕ) : List UInt8 :=
  (List.zipWith (fun code value => bytesLE code.size value) format values).flatten

/-- `struct.pack`; `none` is the `struct.error` of a value that does not fit. -/
def packFields (format : List FormatCode) (values : List ℕ) : Option (List UInt8) :=
  if FieldsFit format values then some (fieldBytes format values) else none

def fieldValues : List FormatCode → List UInt8 → List ℕ
  | [], _ => []
  | code :: rest, bytes =>
      valueLE (bytes.take code.size) :: fieldValues rest (bytes.drop code.size)

/-- `struct.unpack`; `none` is the `struct.error` of a buffer of the wrong size. -/
def unpackFields (format : List FormatCode) (bytes : List UInt8) : Option (List ℕ) :=
  if bytes.length = formatSize format then some (fieldValues format bytes) else none

variable {format : List FormatCode} {values : List ℕ} {bytes : List UInt8}

theorem length_of_unpackFields (h : unpackFields format bytes = some values) :
    bytes.length = formatSize format := by
  unfold unpackFields at h
  split at h
  · assumption
  · cases h

theorem length_fieldBytes (h : format.length = values.length) :
    (fieldBytes format values).length = formatSize format := by
  induction format generalizing values with
  | nil => rfl
  | cons code rest ih =>
    cases values with
    | nil => cases h
    | cons value values =>
      have hrest := ih (Nat.succ.inj h)
      simp only [fieldBytes, formatSize, List.zipWith_cons_cons, List.flatten_cons,
        List.length_append, length_bytesLE, List.map_cons, List.sum_cons] at hrest ⊢
      rw [hrest]

theorem length_fieldValues (format : List FormatCode) (bytes : List UInt8) :
    (fieldValues format bytes).length = format.length := by
  induction format generalizing bytes with
  | nil => rfl
  | cons code rest ih => simp only [fieldValues, List.length_cons, ih]

theorem fieldValues_fieldBytes (h : FieldsFit format values) :
    fieldValues format (fieldBytes format values) = values := by
  obtain ⟨hlen, hfit⟩ := h
  induction format generalizing values with
  | nil => exact (List.length_eq_zero_iff.mp hlen.symm).symm
  | cons code rest ih =>
    cases values with
    | nil => cases hlen
    | cons value values =>
      have hvalue : value < 2 ^ (8 * code.size) := hfit (code, value) List.mem_cons_self
      have hrest := ih (Nat.succ.inj hlen) fun x hx => hfit x (List.mem_cons_of_mem _ hx)
      have hbytes : fieldBytes (code :: rest) (value :: values)
          = bytesLE code.size value ++ fieldBytes rest values := rfl
      rw [hbytes, fieldValues, List.take_left' (length_bytesLE _ _),
        List.drop_left' (length_bytesLE _ _), hrest, valueLE_bytesLE, Nat.mod_eq_of_lt hvalue]

theorem fieldsFit_fieldValues (format : List FormatCode) (h : bytes.length = formatSize format) :
    FieldsFit format (fieldValues format bytes) := by
  refine ⟨(length_fieldValues format bytes).symm, ?_⟩
  induction format generalizing bytes with
  | nil => simp
  | cons code rest ih =>
    have hsize : formatSize (code :: rest) = code.size + formatSize rest := by
      simp only [formatSize, List.map_cons, List.sum_cons]
    rw [fieldValues, List.zip_cons_cons, List.forall_mem_cons]
    constructor
    · have hlt := valueLE_lt (bytes.take code.size)
      rwa [List.length_take_of_le (by omega)] at hlt
    · exact ih (by rw [List.length_drop]; omega)

theorem fieldBytes_fieldValues (format : List FormatCode) (h : bytes.length = formatSize format) :
    fieldBytes format (fieldValues format bytes) = bytes := by
  induction format generalizing bytes with
  | nil => exact (List.length_eq_zero_iff.mp h).symm
  | cons code rest ih =>
    have hsize : formatSize (code :: rest) = code.size + formatSize rest := by
      simp only [formatSize, List.map_cons, List.sum_cons]
    have hdrop : (bytes.drop code.size).length = formatSize rest := by
      rw [List.length_drop]
      omega
    have htake : bytesLE code.size (valueLE (bytes.take code.size)) = bytes.take code.size := by
      have hvalue := bytesLE_valueLE (bytes.take code.size)
      rwa [List.length_take_of_le (by omega)] at hvalue
    have hbytes : fieldBytes (code :: rest) (fieldValues (code :: rest) bytes)
        = bytesLE code.size (valueLE (bytes.take code.size))
          ++ fieldBytes rest (fieldValues rest (bytes.drop code.size)) := rfl
    rw [hbytes, htake, ih hdrop, List.take_append_drop]

/-- Unpacking gives back what was packed. -/
theorem unpackFields_fieldBytes (h : FieldsFit format values) :
    unpackFields format (fieldBytes format values) = some values := by
  rw [unpackFields, if_pos (length_fieldBytes h.1), fieldValues_fieldBytes h]

section Append

variable {first rest : List FormatCode} {firstValues restValues : List ℕ}

theorem fieldBytes_append (h : first.length = firstValues.length) :
    fieldBytes (first ++ rest) (firstValues ++ restValues)
      = fieldBytes first firstValues ++ fieldBytes rest restValues := by
  rw [fieldBytes, List.zipWith_append h, List.flatten_append]
  rfl

theorem fieldBytes_zeros (format : List FormatCode) :
    fieldBytes format (List.replicate format.length 0) = List.replicate (formatSize format) 0 := by
  induction format with
  | nil => rfl
  | cons code format ih =>
    have hbytes : fieldBytes (code :: format) (List.replicate (code :: format).length 0)
        = bytesLE code.size 0 ++ fieldBytes format (List.replicate format.length 0) := rfl
    rw [hbytes, bytesLE_zero, ih, List.replicate_append_replicate]
    rfl

end Append

/-- `bytes` with `n` bytes from `off` on zeroed. -/
def zeroSlice (bytes : List UInt8) (off n : ℕ) : List UInt8 :=
  assignSlice bytes off n (List.replicate n 0)

theorem zeroSlice_append {left middle : List UInt8} {off n : ℕ} (hoff : left.length = off)
    (hn : middle.length = n) (right : List UInt8) :
    zeroSlice (left ++ (middle ++ right)) off n = left ++ (List.replicate n 0 ++ right) := by
  have hdrop : (left ++ (middle ++ right)).drop (off + n) = right := by
    rw [← List.append_assoc]
    exact List.drop_left' (by rw [List.length_append, hoff, hn])
  rw [zeroSlice, assignSlice, List.take_left' hoff, hdrop, List.append_assoc]

/-- Zeroing the bytes of consecutive fields is packing zeros there. -/
theorem zeroSlice_fieldBytes (before zeroed after : List FormatCode)
    (beforeValues zeroedValues afterValues : List ℕ) (hb : before.length = beforeValues.length)
    (hz : zeroed.length = zeroedValues.length) :
    zeroSlice (fieldBytes (before ++ (zeroed ++ after))
        (beforeValues ++ (zeroedValues ++ afterValues))) (formatSize before) (formatSize zeroed)
      = fieldBytes (before ++ (zeroed ++ after))
          (beforeValues ++ (List.replicate zeroed.length 0 ++ afterValues)) := by
  have hzeros : zeroed.length = (List.replicate zeroed.length 0).length :=
    List.length_replicate.symm
  rw [fieldBytes_append hb, fieldBytes_append hz, fieldBytes_append hb, fieldBytes_append hzeros,
    zeroSlice_append (length_fieldBytes hb) (length_fieldBytes hz), fieldBytes_zeros]

theorem slice_append_right {left : List UInt8} {n : ℕ} (h : left.length = n)
    (right : List UInt8) (off size : ℕ) :
    slice (left ++ right) (n + off) size = slice right off size := by
  rw [slice, slice, ← List.drop_drop, List.drop_left' h]

/-- The bytes of field `i` stand after those of the fields before it. -/
theorem slice_fieldBytes {i value : ℕ} {code : FormatCode} (hlen : format.length = values.length)
    (hcode : format[i]? = some code) (hvalue : values[i]? = some value) :
    slice (fieldBytes format values) (formatSize (format.take i)) code.size
      = bytesLE code.size value := by
  induction format generalizing values i with
  | nil => cases hcode
  | cons first format ih =>
    cases values with
    | nil => cases hlen
    | cons head values =>
      have hbytes : fieldBytes (first :: format) (head :: values)
          = bytesLE first.size head ++ fieldBytes format values := rfl
      rw [hbytes]
      cases i with
      | zero =>
        cases hcode
        cases hvalue
        exact List.take_left' (length_bytesLE _ _)
      | succ i =>
        rw [List.getElem?_cons_succ] at hcode hvalue
        rw [← ih (Nat.succ.inj hlen) hcode hvalue]
        exact slice_append_right (length_bytesLE _ _) _ _ _

section Members

variable {φ : Type} [DecidableEq φ]

/-- Offset of a member in a packed struct, given by its members in order with their sizes;
`none` is a reserved member. -/
def offsetOf (field : φ) : List (Option φ × ℕ) → ℕ
  | [] => 0
  | (member, size) :: rest => if member = some field then 0 else size + offsetOf field rest

def memberSize (field : φ) : List (Option φ × ℕ) → ℕ
  | [] => 0
  | (member, size) :: rest => if member = some field then size else memberSize field rest

/-- The little-endian value of a member. -/
def readMember (layout : List (Option φ × ℕ)) (field : φ) (bytes : List UInt8) : ℕ :=
  valueLE (slice bytes (offsetOf field layout) (memberSize field layout))

/-- The member lies on the bytes of entry `i` of the format. -/
def Occupies (layout : List (Option φ × ℕ)) (field : φ) (format : List FormatCode) (i : ℕ) :
    Prop :=
  ∃ code, format[i]? = some code ∧ offsetOf field layout = formatSize (format.take i) ∧
    memberSize field layout = code.size

/-- A member reads the value packed at its place. -/
theorem readMember_fieldBytes {layout : List (Option φ × ℕ)} {field : φ} {i value : ℕ}
    (h : FieldsFit format values) (hplace : Occupies layout field format i)
    (hvalue : values[i]? = some value) :
    readMember layout field (fieldBytes format values) = value := by
  obtain ⟨code, hcode, hoff, hsize⟩ := hplace
  have hzip : (code, value) ∈ format.zip values := by
    apply List.mem_of_getElem? (i := i)
    rw [List.getElem?_zip_eq_some]
    exact ⟨hcode, hvalue⟩
  rw [readMember, hoff, hsize, slice_fieldBytes h.1 hcode hvalue, valueLE_bytesLE,
    Nat.mod_eq_of_lt (h.2 _ hzip)]

end Members

end Support
