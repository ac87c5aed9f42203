import ResourceLint.Proofs.Remedy

/-!
Attributes that are found by the names of properties. Of several properties that spell an attribute,
the first one visible on the class is taken.
-/

namespace ResourceLint

namespace TypeTable

open Naming

variable (t : TypeTable) (c : ClassDecl) (s : SchemaEntry)

def FirstSpelled (a : String) (p : Member PropertyDecl) : Prop :=
  ∃ before after, t.properties c = before ++ p :: after ∧ Spells s a p.decl.name ∧
    ∀ q ∈ before, ¬ Spells s a q.decl.name

/-- The bindings that the names of properties give: one for every attribute that some visible
property spells, in schema order, and to the first property that does. -/
structure BoundBySpelling (named : List AttributeBinding) : Prop where
  names : named.map (·.name) =
    s.attributes.filter fun a => ∃ p ∈ t.properties c, Spells s a p.decl.name
  first : ∀ b ∈ named, t.FirstSpelled c s b.name b.property
  scope : ∀ b ∈ named, b.scope = c.fqn ++ "." ++ b.property.decl.name

theorem spelledProperty?_eq_some_iff (a : String) (p : Member PropertyDecl) :
    t.spelledProperty? c s a = some p ↔ t.FirstSpelled c s a p := by
  unfold spelledProperty? FirstSpelled
  rw [List.find?_eq_some_iff_append]
  simp only [decide_eq_true_eq, Bool.not_eq_true', decide_eq_false_iff_not, ← spells_iff]
  constructor
  · rintro ⟨hp, before, after, hsplit, hbefore⟩
    exact ⟨before, after, hsplit, hp, hbefore⟩
  · rintro ⟨before, after, hsplit, hp, hbefore⟩
    exact ⟨hp, before, after, hsplit, hbefore⟩

theorem isSome_spelledProperty?_iff (a : String) :
    (t.spelledProperty? c s a).isSome ↔ ∃ p ∈ t.properties c, Spells s a p.decl.name := by
  simp [spelledProperty?, List.find?_isSome, spells_iff]

theorem map_name_spelled (attributes : List String) :
    (attributes.filterMap fun a => (t.spelledProperty? c s a).map (bindingOn c a)).map (·.name) =
      attributes.filter fun a => ∃ p ∈ t.properties c, Spells s a p.decl.name := by
  induction attributes with
  | nil => rfl
  | cons a attributes ih =>
    have hsome := t.isSome_spelledProperty?_iff c s a
    cases h : t.spelledProperty? c s a with
    | none =>
      have hnone : ¬ ∃ p ∈ t.properties c, Spells s a p.decl.name := by
        rw [← hsome, h]
        exact Bool.false_ne_true
      rw [List.filterMap_cons_none (by rw [h, Option.map_none]), ih,
        List.filter_cons_of_neg (by simpa using hnone)]
    | some p =>
      have hspelled : ∃ p ∈ t.properties c, Spells s a p.decl.name := by
        rw [← hsome, h]
        rfl
      rw [List.filterMap_cons_some (by rw [h, Option.map_some]), List.map_cons, ih,
        List.filter_cons_of_pos (by simpa using hspelled)]
      rfl

theorem boundBySpelling_spelled :
    t.BoundBySpelling c s
      (s.attributes.filterMap fun a => (t.spelledProperty? c s a).map (bindingOn c a)) := by
  refine ⟨t.map_name_spelled c s s.attributes, ?_, ?_⟩
  · intro b hb
    obtain ⟨a, -, hspelled⟩ := List.mem_filterMap.1 hb
    obtain ⟨p, hp, rfl⟩ := Option.map_eq_some_iff.1 hspelled
    exact (t.spelledProperty?_eq_some_iff c s a p).1 hp
  · intro b hb
    obtain ⟨a, -, hspelled⟩ := List.mem_filterMap.1 hb
    obtain ⟨p, -, rfl⟩ := Option.map_eq_some_iff.1 hspelled
    rfl

/-- The bindings of a class start with those that the names of its properties give, each to the
first property that spells the attribute. An attribute that some visible property spells is not
reported as missing. -/
theorem attributeBindings_boundBySpelling :
    (∃ named, t.BoundBySpelling c s named ∧
      t.attributeBindings c s = named ++
        (t.properties c).flatMap fun p => (t.taggedAttributes p).map (bindingOn c · p)) ∧
      ∀ (f : Framework) (i : Option InterfaceDecl), ∀ rule ∈ Conventions.all f,
        rule.code = "resource-attribute" → ∀ a, ∀ p ∈ t.properties c, Spells s a p.decl.name →
          missingAttribute c s a ∉ rule.found (t.resourceAs f ⟨c, i⟩ s) := by
  refine ⟨⟨_, t.boundBySpelling_spelled c s, rfl⟩, ?_⟩
  intro f i rule hrule hcode a p hp hspells hmissing
  obtain ⟨ha, hunbound⟩ := (missingAttribute_mem_found_iff hrule hcode a).1 hmissing
  exact hunbound ((exists_binding_iff t c s ha).2 ⟨p, hp, Or.inl ((spells_iff s a _).1 hspells)⟩)

end TypeTable

namespace Sample

def widget : ClassDecl where
  fqn := "n.Widget"
  properties := [.ofName "widgetWidgetId", .ofName "widgetArn", .ofName "Arn"]

def widgetEntry : SchemaEntry := ⟨"FOO::BAR::Widget", ["WidgetId", "Arn"]⟩

def shelf : TypeTable where
  name := "n"
  classes := [widget]

/-- The attribute `Arn` is bound to the first of the two properties that spell it. -/
theorem widget_arn_bound :
    ∃ named, shelf.BoundBySpelling widget widgetEntry named ∧ named.map (·.name) = ["Arn"] ∧
      missingAttribute widget widgetEntry "Arn" ∉
        (Rule.ofChecks "resource-attribute"
          "resources must represent all resource attributes as properties" .error
          Conventions.attributeChecks).found
          (shelf.resourceAs framework ⟨widget, none⟩ widgetEntry) := by
  obtain ⟨⟨named, hnamed, -⟩, hkept⟩ :=
    shelf.attributeBindings_boundBySpelling widget widgetEntry
  have hnames : named.map (·.name) = ["Arn"] := by
    rw [hnamed.names]
    decide +kernel
  refine ⟨named, hnamed, hnames, ?_⟩
  refine hkept framework none _ (by simp [Conventions.all]) rfl "Arn"
    ⟨"n.Widget", .ofName "widgetArn"⟩ ?_ (by decide +kernel)
  rw [TypeTable.properties, TypeTable.chain, TypeTable.ancestors, TypeTable.ancestorsFrom]
  exact List.mem_cons_of_mem _ List.mem_cons_self

/-- A property with the joined name of an attribute that carries the resource's name is passed
over, and the attribute is reported. -/
theorem widget_id_passed_over :
    "WidgetId" ∈ widgetEntry.attributes ∧
      (∃ p ∈ shelf.properties widget,
        p.decl.name = Naming.camelCase (widgetEntry.basename ++ "WidgetId")) ∧
      (¬ ∃ b ∈ shelf.attributeBindings widget widgetEntry, b.name = "WidgetId") ∧
      missingAttribute widget widgetEntry "WidgetId" ∈
        (Rule.ofChecks "resource-attribute"
          "resources must represent all resource attributes as properties" .error
          Conventions.attributeChecks).found
          (shelf.resourceAs framework ⟨widget, none⟩ widgetEntry) := by
  decide +kernel

end Sample

end ResourceLint
