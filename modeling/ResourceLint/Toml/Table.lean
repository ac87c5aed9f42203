import ResourceLint.Data.Entries
import ResourceLint.Data.Value
import ResourceLint.Toml.Key

/-!
Tables under construction. What may still be added to a table depends on how it came to be: by a
header of its own, by a longer header, or by a dotted key.
-/

namespace ResourceLint.Toml

open Data

inductive Origin where
  /-- By its own header, or as the document itself. -/
  | header
  /-- By the header of a table within it. -/
  | implied
  /-- By a dotted key. -/
  | dotted
  deriving DecidableEq, Repr

mutual

inductive Node where
  | value (v : Value)
  | table (t : Table)
  /-- An array of tables: those before the last, and the last, to which headers refer. -/
  | series (earlier : List Table) (last : Table)

inductive Table where
  | mk (origin : Origin) (entries : List (String × Node))

end

namespace Table

def empty (origin : Origin) : Table := ⟨origin, []⟩

def origin : Table → Origin
  | ⟨origin, _⟩ => origin

def entries : Table → List (String × Node)
  | ⟨_, entries⟩ => entries

def get? (t : Table) (name : String) : Option Node := t.entries.lookup name

def set (t : Table) (name : String) (n : Node) : Table :=
  ⟨t.origin, setEntry name n t.entries⟩

/-- Enters a node after all others, which it may have been among. -/
def moveLast (t : Table) (name : String) (n : Node) : Table :=
  ⟨t.origin, t.entries.filter (·.1 != name) ++ [(name, n)]⟩

/-- Changes the table at the end of a path. Missing tables on the way come to be by `way`. A dotted
key does not lead through a table that has its own header. -/
def alterAt (way : Origin) (change : Table → Option Table) : List String → Table → Option Table
  | [], t => change t
  | name :: path, t =>
    (match t.get? name with
      | none => (alterAt way change path (empty way)).map Node.table
      | some (.value _) => none
      | some (.table sub) =>
        if way = Origin.dotted ∧ sub.origin = Origin.header then none
        else (alterAt way change path sub).map Node.table
      | some (.series earlier last) => (alterAt way change path last).map (Node.series earlier)).map
      (t.set name)

def addValue (name : String) (v : Value) (t : Table) : Option Table :=
  match t.get? name with
  | none => some (t.set name (.value v))
  | some _ => none

/-- Adds a value under a key. A dotted key adds only to tables that dotted keys made. -/
def assign (k : Key) (v : Value) (t : Table) : Option Table :=
  alterAt .dotted (fun sub =>
    if sub.origin = .dotted ↔ k.parents ≠ [] then sub.addValue k.name v else none) k.parents t

/-- Opens a table by its header: a new one, or one that a longer header implied. Either way it comes
last. -/
def openTable (k : Key) : Table → Option Table :=
  alterAt .implied (fun parent =>
    match parent.get? k.name with
    | none => some (parent.set k.name (.table (empty .header)))
    | some (.table ⟨.implied, entries⟩) => some (parent.moveLast k.name (.table ⟨.header, entries⟩))
    | some _ => none) k.parents

def openElement (k : Key) : Table → Option Table :=
  alterAt .implied (fun parent =>
    match parent.get? k.name with
    | none => some (parent.set k.name (.series [] (empty .header)))
    | some (.series earlier last) =>
      some (parent.set k.name (.series (earlier ++ [last]) (empty .header)))
    | some _ => none) k.parents

end Table

mutual

def Node.toValue : Node → Value
  | .value v => v
  | .table t => t.toValue
  | .series earlier last => .list (tableValues earlier ++ [last.toValue])

def Table.toValue : Table → Value
  | ⟨_, entries⟩ => .record (entryValues entries)

def tableValues : List Table → List Value
  | [] => []
  | t :: ts => t.toValue :: tableValues ts

def entryValues : List (String × Node) → List (String × Value)
  | [] => []
  | (name, n) :: es => (name, n.toValue) :: entryValues es

end

end ResourceLint.Toml
