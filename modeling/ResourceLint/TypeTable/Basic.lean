import ResourceLint.Assembly

/-!
The types known to a run: those that the assembly under check declares and those of its
dependencies. The last registration of a name decides what it stands for and, for a class, whether
it belongs to the assembly.
-/

namespace ResourceLint

structure TypeTable where
  name : String
  /-- At most one class for each name. -/
  classes : List ClassDecl := []
  /-- At most one interface for each name. -/
  interfaces : List InterfaceDecl := []
  /-- The names of the assembly's own classes, in order of registration. -/
  own : List String := []

namespace TypeTable

def class? (t : TypeTable) (fqn : String) : Option ClassDecl :=
  t.classes.find? (·.fqn = fqn)

def interface? (t : TypeTable) (fqn : String) : Option InterfaceDecl :=
  t.interfaces.find? (·.fqn = fqn)

def ownClasses (t : TypeTable) : List ClassDecl :=
  t.own.filterMap t.class?

def enterClass (t : TypeTable) (c : ClassDecl) : TypeTable :=
  { t with classes := t.classes.filter (·.fqn ≠ c.fqn) ++ [c] }

/-- Registers a class of the assembly. A class that is one already keeps its position. -/
def addOwn (t : TypeTable) (c : ClassDecl) : TypeTable :=
  { t.enterClass c with own := if c.fqn ∈ t.own then t.own else t.own ++ [c.fqn] }

/-- Registers a class of a dependency, which no longer belongs to the assembly if it did. -/
def addForeign (t : TypeTable) (c : ClassDecl) : TypeTable :=
  { t.enterClass c with own := t.own.filter (· ≠ c.fqn) }

def addInterface (t : TypeTable) (i : InterfaceDecl) : TypeTable :=
  { t with interfaces := t.interfaces.filter (·.fqn ≠ i.fqn) ++ [i] }

mutual

/-- Registers the types of a dependency after those of its own dependencies. -/
def addDependency (t : TypeTable) : Assembly → TypeTable
  | ⟨_, classes, interfaces, dependencies⟩ =>
    interfaces.foldl addInterface (classes.foldl addForeign (addDependencies t dependencies))

def addDependencies (t : TypeTable) : List Assembly → TypeTable
  | [] => t
  | a :: as => addDependencies (addDependency t a) as

end

/-- The table of an assembly: its dependencies first, so that its own declarations win. -/
def ofAssembly (a : Assembly) : TypeTable :=
  a.interfaces.foldl addInterface
    (a.classes.foldl addOwn (addDependencies { name := a.name } a.dependencies))

end TypeTable

end ResourceLint
