import ResourceLint.Json.Token

/-!
From tokens to a value. The containers part way through are held in a list of frames, so that the
reading is one pass over the tokens whatever the nesting.
-/

namespace ResourceLint.Json

open Data

/-- A container part way through, with what it holds so far in reverse. An entry whose name is
`none` has a name with an unpaired surrogate. -/
inductive Frame where
  | items (done : List Value)
  | entries (done : List (Option String × Value))
  | entry (done : List (Option String × Value)) (name : Option String)

inductive Expected where
  | value
  | valueOrClose
  | name
  | nameOrClose
  | colon
  | commaOrClose

inductive Reading where
  | underway (frames : List Frame) (expected : Expected)
  | finished (v : Value)

def deliver (v : Value) : List Frame → Option Reading
  | [] => some (.finished v)
  | .items done :: outer => some (.underway (.items (v :: done) :: outer) .commaOrClose)
  | .entry done name :: outer =>
    some (.underway (.entries ((name, v) :: done) :: outer) .commaOrClose)
  | .entries _ :: _ => none

def sealed (limit depth : Nat) (v : Value) : Value :=
  if depth < limit then v else .unreadable

def recordOf (done : List (Option String × Value)) : Value :=
  match done.reverse.mapM fun e => e.1.map fun name => (name, e.2) with
  | some entries => .record entries
  | none => .unreadable

def beginValue (frames : List Frame) : Token → Option Reading
  | .scalar v => deliver v frames
  | .openArray => some (.underway (.items [] :: frames) .valueOrClose)
  | .openObject => some (.underway (.entries [] :: frames) .nameOrClose)
  | _ => none

def closeArray (limit : Nat) : List Frame → Option Reading
  | .items done :: outer => deliver (sealed limit outer.length (.list done.reverse)) outer
  | _ => none

def closeObject (limit : Nat) : List Frame → Option Reading
  | .entries done :: outer => deliver (sealed limit outer.length (recordOf done)) outer
  | _ => none

def beginEntry (frames : List Frame) : Token → Option Reading
  | .scalar (.text s) =>
    match frames with
    | .entries done :: outer => some (.underway (.entry done (some s) :: outer) .colon)
    | _ => none
  | .scalar .unreadable =>
    match frames with
    | .entries done :: outer => some (.underway (.entry done none :: outer) .colon)
    | _ => none
  | _ => none

def afterComma : List Frame → Option Reading
  | .items done :: outer => some (.underway (.items done :: outer) .value)
  | .entries done :: outer => some (.underway (.entries done :: outer) .name)
  | _ => none

def step (limit : Nat) : Reading → Token → Option Reading
  | .finished _, _ => none
  | .underway frames .value, t => beginValue frames t
  | .underway frames .valueOrClose, t =>
    match t with
    | .closeArray => closeArray limit frames
    | t => beginValue frames t
  | .underway frames .name, t => beginEntry frames t
  | .underway frames .nameOrClose, t =>
    match t with
    | .closeObject => closeObject limit frames
    | t => beginEntry frames t
  | .underway frames .colon, t =>
    match t with
    | .colon => some (.underway frames .value)
    | _ => none
  | .underway frames .commaOrClose, t =>
    match t with
    | .comma => afterComma frames
    | .closeArray => closeArray limit frames
    | .closeObject => closeObject limit frames
    | _ => none

/-- The value of a text that holds exactly one. Containers within more than `limit - 1` others
are `unreadable`. -/
def parse (limit : Nat) (s : String) : Option Value :=
  match (lex s.toList).bind fun ts => ts.foldlM (step limit) (.underway [] .value) with
  | some (.finished v) => some v
  | _ => none

def depthLimit : Nat := 127

def decode {α : Type} (read : Value → Option α) (s : String) : Option α :=
  (parse depthLimit s).bind read

end ResourceLint.Json
