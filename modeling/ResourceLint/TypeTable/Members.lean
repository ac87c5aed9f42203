import ResourceLint.TypeTable.Ancestry
import ResourceLint.TypeTable.Extension

/-!
Members as a type sees them. Declarations are laid over each other from the base on: one that
repeats a name takes the place of the earlier one.
-/

namespace ResourceLint

structure Member (α : Type) where
  owner : String
  decl : α

namespace Member

def propertyName (m : Member PropertyDecl) : String := m.decl.name

def methodName (m : Member MethodDecl) : String := m.decl.name

def propertyFqn (m : Member PropertyDecl) : String := m.owner ++ "." ++ m.decl.name

def methodFqn (m : Member MethodDecl) : String := m.owner ++ "." ++ m.decl.name

end Member

/-- Puts `a` in place of the first item of its name, or at the end. -/
def layOver {α : Type} (name : α → String) (items : List α) (a : α) : List α :=
  match items with
  | [] => [a]
  | b :: rest => if name b = name a then a :: rest else b :: layOver name rest a

def layered {α : Type} (name : α → String) (items : List α) : List α :=
  items.foldl (layOver name) []

theorem mem_of_mem_layOver {α : Type} {name : α → String} {items : List α} {a b : α}
    (h : b ∈ layOver name items a) : b ∈ items ∨ b = a := by
  induction items with
  | nil => simpa [layOver] using h
  | cons d rest ih =>
    unfold layOver at h
    split at h
    · rcases List.mem_cons.1 h with h | h
      · exact Or.inr h
      · exact Or.inl (List.mem_cons_of_mem _ h)
    · rcases List.mem_cons.1 h with h | h
      · exact Or.inl (h ▸ List.mem_cons_self)
      · exact (ih h).imp_left (List.mem_cons_of_mem _)

theorem mem_of_mem_foldl_layOver {α : Type} {name : α → String} {items acc : List α} {a : α}
    (h : a ∈ items.foldl (layOver name) acc) : a ∈ acc ∨ a ∈ items := by
  induction items generalizing acc with
  | nil => exact Or.inl h
  | cons b rest ih =>
    rcases ih h with h | h
    · rcases mem_of_mem_layOver h with h | h
      · exact Or.inl h
      · exact Or.inr (h ▸ List.mem_cons_self)
    · exact Or.inr (List.mem_cons_of_mem _ h)

theorem mem_of_mem_layered {α : Type} {name : α → String} {items : List α} {a : α}
    (h : a ∈ layered name items) : a ∈ items :=
  (mem_of_mem_foldl_layOver h).resolve_left (by simp)

namespace ClassDecl

def propertyMembers (c : ClassDecl) : List (Member PropertyDecl) :=
  c.properties.map (⟨c.fqn, ·⟩)

def methodMembers (c : ClassDecl) : List (Member MethodDecl) :=
  c.methods.map (⟨c.fqn, ·⟩)

end ClassDecl

def InterfaceDecl.propertyMembers (i : InterfaceDecl) : List (Member PropertyDecl) :=
  i.properties.map (⟨i.fqn, ·⟩)

namespace TypeTable

/-- A class after all its ancestors, the farthest first. -/
def chain (t : TypeTable) (c : ClassDecl) : List ClassDecl :=
  (t.ancestors c).reverse ++ [c]

def properties (t : TypeTable) (c : ClassDecl) : List (Member PropertyDecl) :=
  layered Member.propertyName ((t.chain c).flatMap ClassDecl.propertyMembers)

def methods (t : TypeTable) (c : ClassDecl) : List (Member MethodDecl) :=
  layered Member.methodName ((t.chain c).flatMap ClassDecl.methodMembers)

def interfaceProperties (t : TypeTable) (i : InterfaceDecl) : List (Member PropertyDecl) :=
  layered Member.propertyName ((t.lineage i).flatMap InterfaceDecl.propertyMembers)

/-- The properties visible on the type of that name, which is a class if there is one. -/
def propertiesOf? (t : TypeTable) (fqn : String) : Option (List (Member PropertyDecl)) :=
  match t.class? fqn with
  | some c => some (t.properties c)
  | none => (t.interface? fqn).map t.interfaceProperties

/-- The property that `p` overrides: the one of its name on the type that its declaration
points to. -/
def overridden? (t : TypeTable) (p : Member PropertyDecl) : Option (Member PropertyDecl) := do
  let target ← p.decl.overrides
  (← t.propertiesOf? target).find? (·.decl.name = p.decl.name)

def typeNames (t : TypeTable) : List String := t.classNames ++ t.interfaceNames

theorem mem_classNames_of_mem_chain {t : TypeTable} {c d : ClassDecl} (hc : c.fqn ∈ t.classNames)
    (hd : d ∈ t.chain c) : d.fqn ∈ t.classNames := by
  rcases List.mem_append.1 hd with hd | hd
  · exact mem_classNames_of_mem_ancestors (List.mem_reverse.1 hd)
  · exact List.mem_singleton.1 hd ▸ hc

theorem mem_interfaceNames_of_mem_lineage {t : TypeTable} {i j : InterfaceDecl}
    (hi : i.fqn ∈ t.interfaceNames) (hj : j ∈ t.lineage i) : j.fqn ∈ t.interfaceNames := by
  rcases List.mem_append.1 hj with hj | hj
  · exact mem_interfaceNames_of_mem_basesFirst hj
  · exact List.mem_singleton.1 hj ▸ hi

theorem owner_mem_of_propertiesOf? {t : TypeTable} {fqn : String} {ps : List (Member PropertyDecl)}
    (h : t.propertiesOf? fqn = some ps) {p : Member PropertyDecl} (hp : p ∈ ps) :
    p.owner ∈ t.typeNames := by
  unfold propertiesOf? at h
  split at h
  · rename_i c hc
    cases h
    obtain ⟨d, hd, hpd⟩ := List.mem_flatMap.1 (mem_of_mem_layered hp)
    obtain ⟨_, _, rfl⟩ := List.mem_map.1 hpd
    exact List.mem_append_left _ (mem_classNames_of_mem_chain (mem_classNames_of_class? hc) hd)
  · obtain ⟨i, hi, rfl⟩ := Option.map_eq_some_iff.1 h
    obtain ⟨j, hj, hpj⟩ := List.mem_flatMap.1 (mem_of_mem_layered hp)
    obtain ⟨_, _, rfl⟩ := List.mem_map.1 hpj
    exact List.mem_append_right _
      (mem_interfaceNames_of_mem_lineage (mem_interfaceNames_of_interface? hi) hj)

/-- An overridden property belongs to a registered type and has the name of its override. -/
theorem overridden?_spec {t : TypeTable} {p q : Member PropertyDecl}
    (h : t.overridden? p = some q) : q.owner ∈ t.typeNames ∧ q.decl.name = p.decl.name := by
  unfold overridden? at h
  obtain ⟨_, _, h⟩ := Option.bind_eq_some_iff.1 h
  obtain ⟨ps, hps, h⟩ := Option.bind_eq_some_iff.1 h
  exact ⟨owner_mem_of_propertiesOf? hps (List.mem_of_find?_eq_some h),
    by simpa using List.find?_some h⟩

end TypeTable

end ResourceLint
