import ResourceLint.Text.Scan

/-!
Dates and times in a TOML document. Only their form and ranges are read.
-/

namespace ResourceLint.Toml

open Text

def isLeap (year : Nat) : Bool := year % 4 = 0 && (year % 100 != 0 || year % 400 = 0)

def daysIn (year month : Nat) : Nat :=
  if month = 2 then (if isLeap year then 29 else 28)
  else if month ∈ [4, 6, 9, 11] then 30
  else 31

def date? (cs : List Char) : Option (List Char) := do
  let (year, cs) ← fixedDigits 4 cs
  let (month, cs) ← fixedDigits 2 (← dropChar '-' cs)
  let (day, cs) ← fixedDigits 2 (← dropChar '-' cs)
  if 1 ≤ month ∧ month ≤ 12 ∧ 1 ≤ day ∧ day ≤ daysIn year month then some cs else none

def hourMinute? (cs : List Char) : Option (List Char) := do
  let (hour, cs) ← fixedDigits 2 cs
  let (minute, cs) ← fixedDigits 2 (← dropChar ':' cs)
  if hour ≤ 23 ∧ minute ≤ 59 then some cs else none

def time? (cs : List Char) : Option (List Char) := do
  let (second, cs) ← fixedDigits 2 (← dropChar ':' (← hourMinute? cs))
  if second ≤ 60 then
    match dropChar '.' cs with
    | none => some cs
    | some fraction => (spanSome isDigit fraction).map Prod.snd
  else none

def isOffset : List Char → Bool
  | [] => true
  | ['Z'] => true
  | ['z'] => true
  | '+' :: cs => hourMinute? cs = some []
  | '-' :: cs => hourMinute? cs = some []
  | _ => false

def isZonedTime (cs : List Char) : Bool := (time? cs).any isOffset

def isDate (cs : List Char) : Bool := date? cs = some []

/-- Whether a text is a date, a time, or a date and a time with a letter between them. -/
def isMoment (cs : List Char) : Bool :=
  time? cs = some []
    || match date? cs with
      | none => false
      | some [] => true
      | some (c :: rest) => (c = 'T' || c = 't') && isZonedTime rest

def isShift : List Char → Bool
  | [] => true
  | ['Z'] => true
  | ['z'] => true
  | sign :: cs =>
    (sign = '+' || sign = '-')
      && (do
        let (hours, cs) ← fixedDigits 2 cs
        let (minutes, cs) ← fixedDigits 2 (← dropChar ':' cs)
        return cs.isEmpty && hours * 60 + minutes ≤ 24 * 60 : Option Bool) = some true

/-- Whether a text that is not part of a document's own writing is a date, a time, or both. A blank
may stand for the letter between them, and any minutes count in a distance. -/
def isStamp (cs : List Char) : Bool :=
  time? cs = some []
    || match date? cs with
      | none => false
      | some [] => true
      | some (c :: rest) => c ∈ ['T', 't', ' '] && (time? rest).any isShift

end ResourceLint.Toml
