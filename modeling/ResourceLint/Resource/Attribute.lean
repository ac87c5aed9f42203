import ResourceLint.Naming
import ResourceLint.Text.Blank
import ResourceLint.TypeTable.Members

/-!
Which properties stand for which schema attributes: by spelling, or by a tag of their own or of a
property they override.
-/

namespace ResourceLint

structure AttributeBinding where
  name : String
  property : Member PropertyDecl
  /-- The property as a member of the resource. -/
  scope : String

def attributeTag : String := "attribute"

namespace TypeTable

/-- The attribute tag of `p`, or else of the first tagged property on its override chain, with
`seen` the types the chain came through. All properties on a chain have one name, so it ends where
it comes back to a type. -/
def attributeTagFrom (t : TypeTable) (seen : List String) (p : Member PropertyDecl) :
    Option String :=
  match p.decl.docs.tag? attributeTag with
  | some tag => some tag
  | none =>
    if p.owner ∈ seen then none
    else
      match _h : t.overridden? p with
      | none => none
      | some q => t.attributeTagFrom (p.owner :: seen) q
termination_by unseen t.typeNames seen + (if p.owner ∈ t.typeNames then 0 else 1)
decreasing_by
  rw [if_pos (overridden?_spec _h).1]
  exact unseen_cons_lt_add ‹p.owner ∉ seen›

def attributeTag? (t : TypeTable) (p : Member PropertyDecl) : Option String :=
  t.attributeTagFrom [] p

def taggedAttributes (t : TypeTable) (p : Member PropertyDecl) : List String :=
  match t.attributeTag? p with
  | some tag => Text.listed Text.trim tag
  | none => []

def spelledProperty? (t : TypeTable) (c : ClassDecl) (schema : SchemaEntry) (attr : String) :
    Option (Member PropertyDecl) :=
  (t.properties c).find? fun p => p.decl.name ∈ Naming.spellings schema attr

def bindingOn (c : ClassDecl) (attr : String) (p : Member PropertyDecl) : AttributeBinding :=
  ⟨attr, p, c.fqn ++ "." ++ p.decl.name⟩

/-- The attributes of a class: those found by spelling, in schema order, and then those that tags
list, in property order. A property found both ways is listed twice. -/
def attributeBindings (t : TypeTable) (c : ClassDecl) (schema : SchemaEntry) :
    List AttributeBinding :=
  schema.attributes.filterMap (fun a => (t.spelledProperty? c schema a).map (bindingOn c a))
  ++ (t.properties c).flatMap fun p => (t.taggedAttributes p).map (bindingOn c · p)

end TypeTable

end ResourceLint
