import ResourceLint.Data.Value

/-!
Records of named fields. A record is written with names, or as a list of its fields in declared
order. Names that are not declared are passed over; a declared name may be given once.
-/

namespace ResourceLint.Data

/-- The points on which document formats differ when a record or a mark is decoded. -/
structure Format where
  /-- Whether a list that is longer than the declared fields is refused. -/
  refusesSurplus : Bool
  /-- The values that may stand beside a mark written as a record with the mark as its name. -/
  isUnit : Value → Bool

abbrev Fields := List (String × Value)

namespace Format

/-- JSON refuses surplus fields, and null is its unit. -/
def json : Format where
  refusesSurplus := true
  isUnit
    | .null => true
    | _ => false

/-- TOML passes over surplus fields, and an empty list or table is its unit. -/
def toml : Format where
  refusesSurplus := false
  isUnit
    | .list [] => true
    | .record [] => true
    | _ => false

def fields? (f : Format) (names : List String) : Value → Option Fields
  | .record entries =>
    if names.all fun n => (entries.filter (·.1 == n)).length ≤ 1 then some entries else none
  | .list items =>
    if f.refusesSurplus && names.length < items.length then none else some (names.zip items)
  | _ => none

/-- A mark is a word, or a record of one entry named by it that holds a unit. -/
def mark? (f : Format) : Value → Option String
  | .text s => some s
  | .record [(s, v)] => if f.isUnit v then some s else none
  | _ => none

end Format

namespace Fields

variable {α : Type}

def required (fs : Fields) (name : String) (read : Value → Option α) : Option α :=
  (fs.lookup name).bind read

def defaulted (fs : Fields) (name : String) (fallback : α) (read : Value → Option α) : Option α :=
  match fs.lookup name with
  | none => some fallback
  | some v => read v

/-- A field that may be left out or null. -/
def optional (fs : Fields) (name : String) (read : Value → Option α) : Option (Option α) :=
  match fs.lookup name with
  | none => some none
  | some .null => some none
  | some v => (read v).map some

section Cons

variable (name : String) (v : Value) (fs : Fields) (fallback : α) (read : Value → Option α)

theorem lookup_cons_of_ne {name : String} {e : String × Value} (h : name ≠ e.1) :
    List.lookup name (e :: fs) = fs.lookup name := by
  obtain ⟨k, w⟩ := e
  simp [List.lookup_cons, beq_false_of_ne h]

@[simp] theorem required_cons_self : required ((name, v) :: fs) name read = read v := by
  simp [required]

@[simp] theorem required_cons_of_ne {e : String × Value} (h : name ≠ e.1) :
    required (e :: fs) name read = required fs name read := by
  rw [required, lookup_cons_of_ne fs h, required]

@[simp] theorem defaulted_nil : defaulted [] name fallback read = some fallback := rfl

@[simp] theorem defaulted_cons_self :
    defaulted ((name, v) :: fs) name fallback read = read v := by
  simp [defaulted]

@[simp] theorem defaulted_cons_of_ne {e : String × Value} (h : name ≠ e.1) :
    defaulted (e :: fs) name fallback read = defaulted fs name fallback read := by
  rw [defaulted, lookup_cons_of_ne fs h, defaulted]

@[simp] theorem optional_nil : optional [] name read = some none := rfl

@[simp] theorem optional_cons_self {v : Value} (h : v ≠ .null) :
    optional ((name, v) :: fs) name read = (read v).map some := by
  cases v <;> simp_all [optional]

@[simp] theorem optional_cons_of_ne {e : String × Value} (h : name ≠ e.1) :
    optional (e :: fs) name read = optional fs name read := by
  rw [optional, lookup_cons_of_ne fs h, optional]

end Cons

/-- A field's value is smaller than the list of fields. -/
theorem sizeOf_lookup_lt {fs : Fields} {name : String} {v : Value}
    (h : fs.lookup name = some v) : sizeOf v < sizeOf fs := by
  induction fs with
  | nil => simp at h
  | cons e es ih =>
    obtain ⟨k, w⟩ := e
    rw [List.lookup_cons] at h
    split at h
    · cases h
      simp
      omega
    · have := ih h
      simp
      omega

theorem sizeOf_lookup_zip_lt {names : List String} {vs : List Value} {name : String} {v : Value}
    (h : (names.zip vs).lookup name = some v) : sizeOf v < sizeOf vs := by
  induction names generalizing vs with
  | nil => simp at h
  | cons n ns ih =>
    cases vs with
    | nil => simp at h
    | cons w ws =>
      rw [List.zip_cons_cons, List.lookup_cons] at h
      split at h
      · cases h
        simp
        omega
      · have := ih h
        simp
        omega

end Fields

/-- Entries with different names are the fields of a record, whatever names are declared. -/
@[simp] theorem Format.fields?_record_of_nodup (f : Format) (names : List String) {es : Fields}
    (h : (es.map Prod.fst).Nodup) : f.fields? names (.record es) = some es := by
  have once : ∀ n, (es.filter (·.1 == n)).length ≤ 1 := by
    intro n
    have hcount := List.nodup_iff_count.1 h n
    rw [List.count_eq_countP, List.countP_map, List.countP_eq_length_filter] at hcount
    exact hcount
  simp [fields?, once]

/-- A field's value is smaller than the record it stands in. -/
theorem Format.sizeOf_field_lt {f : Format} {names : List String} {v : Value} {fs : Fields}
    {name : String} {w : Value} (hf : f.fields? names v = some fs) (hw : fs.lookup name = some w) :
    sizeOf w < sizeOf v := by
  cases v with
  | record entries =>
    simp only [Format.fields?] at hf
    split at hf
    · cases hf
      have := Fields.sizeOf_lookup_lt hw
      simp
      omega
    · cases hf
  | list items =>
    simp only [Format.fields?] at hf
    split at hf
    · cases hf
    · cases hf
      have := Fields.sizeOf_lookup_zip_lt hw
      simp
      omega
  | _ => simp [Format.fields?] at hf

end ResourceLint.Data
