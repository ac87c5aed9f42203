import ResourceLint.Data.Value

/-!
References to types in declarations: primitive and named types, lists, maps from text, and unions.
-/

namespace ResourceLint

open Data

inductive TypeRef where
  | primitive (name : String)
  | named (fqn : String)
  | array (element : TypeRef)
  | map (element : TypeRef)
  | union (types : List TypeRef)
  deriving Repr

namespace TypeRef

mutual

def same : TypeRef → TypeRef → Bool
  | .primitive a, .primitive b => a = b
  | .named a, .named b => a = b
  | .array a, .array b => same a b
  | .map a, .map b => same a b
  | .union as, .union bs => sameAll as bs
  | _, _ => false

def sameAll : List TypeRef → List TypeRef → Bool
  | [], [] => true
  | a :: as, b :: bs => same a b && sameAll as bs
  | _, _ => false

end

mutual

theorem same_iff : ∀ a b : TypeRef, same a b = true ↔ a = b
  | .primitive a, t => by cases t <;> simp [same]
  | .named a, t => by cases t <;> simp [same]
  | .array a, t => by
    cases t with
    | array b => simpa [same] using same_iff a b
    | _ => simp [same]
  | .map a, t => by
    cases t with
    | map b => simpa [same] using same_iff a b
    | _ => simp [same]
  | .union as, t => by
    cases t with
    | union bs => simpa [same] using sameAll_iff as bs
    | _ => simp [same]

theorem sameAll_iff : ∀ as bs : List TypeRef, sameAll as bs = true ↔ as = bs
  | [], bs => by cases bs <;> simp [sameAll]
  | a :: as, bs => by
    cases bs with
    | nil => simp [sameAll]
    | cons b bs => simp [sameAll, same_iff a b, sameAll_iff as bs]

end

instance : DecidableEq TypeRef := fun a b => decidable_of_iff _ (same_iff a b)

def any : TypeRef := .primitive "any"

instance : Inhabited TypeRef := ⟨any⟩

def fqn? : TypeRef → Option String
  | .named fqn => some fqn
  | _ => none

mutual

def text : TypeRef → String
  | .primitive name => name
  | .named fqn => fqn
  | .array element => "Array<" ++ element.text ++ ">"
  | .map element => "Map<string, " ++ element.text ++ ">"
  | .union types => String.intercalate " | " (texts types)

def texts : List TypeRef → List String
  | [] => []
  | t :: ts => t.text :: texts ts

end

mutual

def encode : TypeRef → Value
  | .primitive name => .record [("primitive", .text name)]
  | .named fqn => .record [("named", .text fqn)]
  | .array element => .record [("array", element.encode)]
  | .map element => .record [("map", element.encode)]
  | .union types => .record [("union", .list (encodeAll types))]

def encodeAll : List TypeRef → List Value
  | [] => []
  | t :: ts => t.encode :: encodeAll ts

end

mutual

/-- Reads a record of one entry, named for the kind of type. -/
def decode : Value → Option TypeRef
  | .record [("primitive", .text name)] => some (.primitive name)
  | .record [("named", .text fqn)] => some (.named fqn)
  | .record [("array", v)] => (decode v).map .array
  | .record [("map", v)] => (decode v).map .map
  | .record [("union", .list vs)] => (decodeAll vs).map .union
  | _ => none

def decodeAll : List Value → Option (List TypeRef)
  | [] => some []
  | v :: vs =>
    match decode v with
    | none => none
    | some t => (decodeAll vs).map (t :: ·)

end

end TypeRef

end ResourceLint
