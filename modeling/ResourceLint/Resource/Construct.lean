import ResourceLint.Log
import ResourceLint.TypeTable.Ancestry

/-!
Constructs: the assembly's own classes that derive from the construct base, each with the public
interface that convention gives it.
-/

namespace ResourceLint

structure Construct where
  decl : ClassDecl
  interface : Option InterfaceDecl

/-- The name of a class's public interface: an `I` before the simple name. -/
def interfaceNameOf (fqn : String) : String :=
  match Text.cutLast '.' fqn with
  | some (space, name) => space ++ ".I" ++ name
  | none => "I" ++ fqn

namespace Construct

def ofClass (t : TypeTable) (c : ClassDecl) : Construct :=
  ⟨c, t.interface? (interfaceNameOf c.fqn)⟩

def logLine (c : Construct) : LogLine :=
  ⟨.debug, "construct " ++ c.decl.fqn ++ " (interface: "
    ++ (c.interface.map (·.fqn)).getD "none" ++ ")"⟩

end Construct

def TypeTable.constructs (t : TypeTable) (base : String) : List Construct :=
  (t.ownClasses.filter (t.classExtends · base)).map (Construct.ofClass t)

end ResourceLint
