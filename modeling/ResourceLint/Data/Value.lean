/-!
Values of a structured document, as a reader of JSON or TOML hands them to the decoders.
Records keep their entries as written, in order and with repetitions, because whether a repeated
name is a fault is for the decoder to say.
-/

namespace ResourceLint.Data

/-- A document value. `numeral` is a number that is not written as a plain sequence of digits.
`unreadable` is well-formed text that no decoder accepts and that may only be passed over: a
string with an unpaired surrogate, or a container nested beyond the reader's limit. -/
inductive Value where
  | null
  | bool (b : Bool)
  | natural (n : Nat)
  | numeral (written : String)
  | text (s : String)
  | list (items : List Value)
  | record (entries : List (String × Value))
  | unreadable
  deriving Inhabited

namespace Value

def text? : Value → Option String
  | .text s => some s
  | _ => none

def bool? : Value → Option Bool
  | .bool b => some b
  | _ => none

/-- A count is a natural number below 2^64. -/
def count? : Value → Option Nat
  | .natural n => if n < Nat.pow 2 64 then some n else none
  | _ => none

def listOf? {α : Type} (read : Value → Option α) : Value → Option (List α)
  | .list items => items.mapM read
  | _ => none

def entriesOf? {α : Type} (read : Value → Option α) : Value → Option (List (String × α))
  | .record entries => entries.mapM fun e => (read e.2).map fun a => (e.1, a)
  | _ => none

@[simp] theorem text?_text (s : String) : text? (.text s) = some s := rfl

@[simp] theorem bool?_bool (b : Bool) : bool? (.bool b) = some b := rfl

theorem count?_natural (n : Nat) :
    count? (.natural n) = if n < Nat.pow 2 64 then some n else none := rfl

section Lists

variable {α : Type} {read : Value → Option α} {write : α → Value}
  (h : ∀ a, read (write a) = some a)

include h

/-- A list is read back if its items are. -/
theorem listOf?_map (xs : List α) : listOf? read (.list (xs.map write)) = some xs := by
  rw [listOf?]
  induction xs with
  | nil => rfl
  | cons a as ih =>
    rw [List.map_cons, List.mapM_cons, h, ih]
    rfl

/-- A map is read back if its values are. -/
theorem entriesOf?_map (es : List (String × α)) :
    entriesOf? read (.record (es.map fun e => (e.1, write e.2))) = some es := by
  rw [entriesOf?]
  induction es with
  | nil => rfl
  | cons e es ih =>
    rw [List.map_cons, List.mapM_cons, h, ih]
    rfl

end Lists

end Value

end ResourceLint.Data
