import ResourceLint.Proofs.PropertyFrame
import ResourceLint.Proofs.Unreferenced

/-!
The remedy for a missing attribute. A class that declares one more property, with the name that the
report gives, is no longer reported for the attributes that the name spells, and nothing else
changes: the property comes last among those visible on the class, so it stands for an attribute
only where no other does by its spelling, and neither the tags nor the overrides of other properties
see it.
-/

namespace ResourceLint

def missingAttribute (c : ClassDecl) (s : SchemaEntry) (a : String) : Violation where
  code := "resource-attribute"
  severity := .error
  resource := c.fqn
  scope := c.fqn ++ "." ++ Naming.expectedProperty s a
  message := "resources must represent all resource attributes as properties"
  extra := some ("(missing attribute " ++ a ++ ")")

def answeredBy (c : ClassDecl) (s : SchemaEntry) (e : String) : List Violation :=
  (s.attributes.filter fun a => e ∈ Naming.spellings s a).map (missingAttribute c s)

theorem missingAttribute_extra_inj {a b : String}
    (h : some ("(missing attribute " ++ a ++ ")") = some ("(missing attribute " ++ b ++ ")")) :
    a = b := by
  have htext := Option.some.inj h
  rw [String.append_left_inj, String.append_right_inj] at htext
  exact htext

theorem missingAttribute_mem_answeredBy_iff (c : ClassDecl) (s : SchemaEntry) (e a : String) :
    missingAttribute c s a ∈ answeredBy c s e ↔ a ∈ s.attributes ∧ e ∈ Naming.spellings s a := by
  constructor
  · intro hmem
    obtain ⟨b, hb, heq⟩ := List.mem_map.1 hmem
    have hba : b = a := missingAttribute_extra_inj (congrArg Violation.extra heq)
    subst hba
    simpa using List.mem_filter.1 hb
  · rintro ⟨ha, hspelled⟩
    exact List.mem_map_of_mem (List.mem_filter.2 ⟨ha, by simpa using hspelled⟩)

namespace TypeTable

def resourceAs (t : TypeTable) (f : Framework) (k : Construct) (s : SchemaEntry) : Resource :=
  ⟨t, f, k, s, t.attributeBindings k.decl s⟩

theorem outcome_ofConstruct_eq_ok_iff (t : TypeTable) (cat : Catalog) (f : Framework)
    (k : Construct) (r : Resource) :
    (Resource.ofConstruct t cat f k).outcome = .ok r ↔
      ∃ s, t.schemaFor? cat k.decl = some s ∧ r = t.resourceAs f k s := by
  unfold Resource.ofConstruct
  rw [Run.outcome_lift_bind]
  cases t.schemaFor? cat k.decl with
  | none =>
    constructor
    · intro h
      cases h
    · rintro ⟨s, hs, -⟩
      cases hs
  | some s =>
    constructor
    · intro h
      exact ⟨s, rfl, (Except.ok.inj h).symm⟩
    · rintro ⟨s', hs, rfl⟩
      cases hs
      rfl

/-- A walk along bases goes on to the next base as long as it is new. -/
theorem ancestorsFrom_eq_elim (t : TypeTable) (seen : List String) (c : ClassDecl) :
    t.ancestorsFrom seen c =
      ((t.base? c).filter (·.fqn ∉ seen)).elim [] fun b =>
        b :: t.ancestorsFrom (b.fqn :: seen) b := by
  rw [ancestorsFrom_unfold]
  cases t.base? c with
  | none => rfl
  | some b => by_cases hb : b.fqn ∈ seen <;> simp [Option.filter_some, hb]

/-- A class that was passed is not new, whatever is registered in its place. -/
theorem filter_base?_addOwn (t : TypeTable) (d : ClassDecl) {seen : List String}
    (hd : d.fqn ∈ seen) {c c' : ClassDecl} (hbase : c'.base = c.base) :
    ((t.addOwn d).base? c').filter (·.fqn ∉ seen) = (t.base? c).filter (·.fqn ∉ seen) := by
  rw [base?, base?, hbase]
  cases c.base with
  | none => rfl
  | some n =>
    rw [Option.bind_some, Option.bind_some, class?_addOwn]
    by_cases hn : n = d.fqn
    · cases hc : t.class? n with
      | none => simp [hn, Option.filter_some, hd]
      | some b =>
        have hb : b.fqn ∈ seen := by rw [fqn_of_class? hc, hn]; exact hd
        simp [hn, Option.filter_some, hd, hb]
    · rw [if_neg hn]

theorem ancestorsFrom_addOwn (t : TypeTable) (d : ClassDecl) {seen : List String}
    (hd : d.fqn ∈ seen) {c c' : ClassDecl} (hbase : c'.base = c.base) :
    (t.addOwn d).ancestorsFrom seen c' = t.ancestorsFrom seen c := by
  fun_induction ancestorsFrom t seen c generalizing c' with
  | case1 seen c hnone =>
    rw [ancestorsFrom_eq_elim, filter_base?_addOwn t d hd hbase, base?, hnone]
    rfl
  | case2 seen c b hb hseen =>
    rw [ancestorsFrom_eq_elim, filter_base?_addOwn t d hd hbase, base?, hb]
    simp [Option.filter_some, hseen]
  | case3 seen c b hb hseen ih =>
    have hrest := ih (List.mem_cons_of_mem b.fqn hd) rfl
    rw [ancestorsFrom_eq_elim, filter_base?_addOwn t d hd hbase, base?, hb]
    simp [Option.filter_some, hseen, hrest]

/-- The convention on attributes reports those that are bound to no property, in schema order. -/
theorem found_attribute (t : TypeTable) (f : Framework) (k : Construct) (s : SchemaEntry)
    {rule : Rule Resource} (hrule : rule ∈ Conventions.all f)
    (hcode : rule.code = "resource-attribute") :
    rule.found (t.resourceAs f k s) =
      (s.attributes.filter fun a => !(t.attributeBindings k.decl s).any (·.name = a)).map
        (missingAttribute k.decl s) := by
  simp only [Conventions.all, List.mem_cons, List.not_mem_nil, or_false] at hrule
  rcases hrule with rfl | rfl | rfl | rfl | rfl | rfl
  case inr.inr.inr.inl =>
    rw [Rule.found_ofChecks, Conventions.attributeChecks, List.filter_map, List.map_map]
    rfl
  all_goals simp [Rule.ofChecks] at hcode

theorem missingAttribute_mem_found_iff {t : TypeTable} {f : Framework} {k : Construct}
    {s : SchemaEntry} {rule : Rule Resource} (hrule : rule ∈ Conventions.all f)
    (hcode : rule.code = "resource-attribute") (a : String) :
    missingAttribute k.decl s a ∈ rule.found (t.resourceAs f k s) ↔
      a ∈ s.attributes ∧ ¬ ∃ b ∈ t.attributeBindings k.decl s, b.name = a := by
  have hunbound : ∀ n, (!(t.attributeBindings k.decl s).any (·.name = n)) = true ↔
      ¬ ∃ b ∈ t.attributeBindings k.decl s, b.name = n := by
    intro n
    simp
  rw [found_attribute t f k s hrule hcode]
  constructor
  · intro hmem
    obtain ⟨n, hn, heq⟩ := List.mem_map.1 hmem
    have hna : n = a := missingAttribute_extra_inj (congrArg Violation.extra heq)
    subst hna
    exact (List.mem_filter.1 hn).imp_right (hunbound n).1
  · rintro ⟨ha, hnone⟩
    exact List.mem_map_of_mem (List.mem_filter.2 ⟨ha, (hunbound a).2 hnone⟩)

section Remedied

variable {t : TypeTable} {c : ClassDecl} (p : PropertyDecl)

theorem ancestors_addOwn_withProperty :
    (t.addOwn (c.withProperty p)).ancestors (c.withProperty p) = t.ancestors c :=
  ancestorsFrom_addOwn t (c.withProperty p) List.mem_cons_self rfl

theorem methods_addOwn_withProperty :
    (t.addOwn (c.withProperty p)).methods (c.withProperty p) = t.methods c := by
  rw [methods, chain, ancestors_addOwn_withProperty, List.flatMap_append]
  rw [methods, chain, List.flatMap_append]
  rfl

/-- A property of a new name comes after those that were visible. -/
theorem properties_addOwn_withProperty (hnew : ∀ q ∈ t.properties c, q.decl.name ≠ p.name) :
    (t.addOwn (c.withProperty p)).properties (c.withProperty p) =
      t.properties c ++ [⟨c.fqn, p⟩] := by
  have hmembers : (c.withProperty p).propertyMembers = c.propertyMembers ++ [⟨c.fqn, p⟩] := by
    simp [ClassDecl.propertyMembers, ClassDecl.withProperty]
  have hitems : (((t.ancestors c).reverse ++ [c.withProperty p]).flatMap
      ClassDecl.propertyMembers) =
        (t.chain c).flatMap ClassDecl.propertyMembers ++ [⟨c.fqn, p⟩] := by
    simp [chain, hmembers]
  rw [properties, chain, ancestors_addOwn_withProperty, hitems, layered_concat]
  exact layOver_of_notMem hnew

variable (hc : t.class? c.fqn = some c)

include hc

theorem alikeBeside_addOwn_withProperty :
    AlikeBeside p.name t (t.addOwn (c.withProperty p)) := by
  have halike : c.AlikeBeside p.name (c.withProperty p) := by
    refine ⟨rfl, rfl, ?_⟩
    simp [ClassDecl.withProperty]
  have hfqn : (c.withProperty p).fqn = c.fqn := rfl
  refine ⟨?_, ?_, fun _ => rfl⟩
  · intro n d hd
    rw [class?_addOwn, hfqn]
    by_cases hn : n = c.fqn
    · rw [hn, hc] at hd
      cases hd
      exact ⟨c.withProperty p, if_pos hn, halike⟩
    · exact ⟨d, (if_neg hn).trans hd, .refl _ d⟩
  · intro n hnone
    have hn : n ≠ c.fqn := by
      rintro rfl
      rw [hc] at hnone
      cases hnone
    rw [class?_addOwn, hfqn, if_neg hn, hnone]

theorem schemaFor?_addOwn_withProperty (cat : Catalog) :
    (t.addOwn (c.withProperty p)).schemaFor? cat (c.withProperty p) = t.schemaFor? cat c := by
  rw [schemaFor?_eq_findSome? cat (class?_addOwn_self t (c.withProperty p)),
    schemaFor?_eq_findSome? cat hc, searchLine, searchLine, ancestors_addOwn_withProperty]
  change (if c.schemaClue.isTagged then [c.withProperty p] else _).findSome? cat.ownEntry? = _
  cases c.schemaClue.isTagged <;> rfl

variable {p} (hnew : ∀ q ∈ t.properties c, q.decl.name ≠ p.name)

include hnew

theorem taggedAttributes_addOwn_withProperty {q : Member PropertyDecl} (hq : q ∈ t.properties c) :
    (t.addOwn (c.withProperty p)).taggedAttributes q = t.taggedAttributes q :=
  (alikeBeside_addOwn_withProperty p hc).taggedAttributes_eq (hnew q hq)

omit hc in
theorem spelledProperty?_addOwn_withProperty (s : SchemaEntry) (a : String) :
    (t.addOwn (c.withProperty p)).spelledProperty? (c.withProperty p) s a =
      (t.spelledProperty? c s a).or
        (if p.name ∈ Naming.spellings s a then some ⟨c.fqn, p⟩ else none) := by
  rw [spelledProperty?, properties_addOwn_withProperty p hnew, List.find?_append,
    List.find?_singleton]
  simp only [decide_eq_true_eq]
  rfl

variable (htag : p.docs.tag? attributeTag = none) (hover : p.overrides = none)

omit hc hnew in
include htag hover in
theorem taggedAttributes_eq_nil (t : TypeTable) (owner : String) :
    t.taggedAttributes ⟨owner, p⟩ = [] := by
  have hnone : t.attributeTag? ⟨owner, p⟩ = none := by
    rw [attributeTag?, attributeTagFrom_unfold, htag, overridden?, hover]
    rfl
  rw [taggedAttributes, hnone]

include htag hover

/-- The new property is listed for the attributes that it spells and no other property does, and
all other bindings stay. -/
theorem attributeBindings_addOwn_withProperty (s : SchemaEntry) :
    (t.addOwn (c.withProperty p)).attributeBindings (c.withProperty p) s =
      s.attributes.filterMap (fun a =>
        ((t.spelledProperty? c s a).or
          (if p.name ∈ Naming.spellings s a then some ⟨c.fqn, p⟩ else none)).map (bindingOn c a))
      ++ (t.properties c).flatMap fun q => (t.taggedAttributes q).map (bindingOn c · q) := by
  have htagged : (t.properties c).flatMap (fun q =>
        ((t.addOwn (c.withProperty p)).taggedAttributes q).map (bindingOn c · q)) =
      (t.properties c).flatMap fun q => (t.taggedAttributes q).map (bindingOn c · q) := by
    refine List.flatMap_congr fun q hq => ?_
    rw [taggedAttributes_addOwn_withProperty hc hnew hq]
  have hbinding : bindingOn (c.withProperty p) = bindingOn c := rfl
  unfold attributeBindings
  simp only [hbinding, spelledProperty?_addOwn_withProperty hnew,
    properties_addOwn_withProperty p hnew, List.flatMap_append, List.flatMap_singleton,
    taggedAttributes_eq_nil htag hover, List.map_nil, List.append_nil, htagged]

/-- An attribute has a property afterwards if it had one before or the new property spells it. -/
theorem any_attributeBindings_addOwn_withProperty (s : SchemaEntry) {a : String}
    (ha : a ∈ s.attributes) :
    ((t.addOwn (c.withProperty p)).attributeBindings (c.withProperty p) s).any (·.name = a) =
      ((t.attributeBindings c s).any (·.name = a) || decide (p.name ∈ Naming.spellings s a)) := by
  have hiff : (∃ b ∈ (t.addOwn (c.withProperty p)).attributeBindings (c.withProperty p) s,
      b.name = a) ↔
        (∃ b ∈ t.attributeBindings c s, b.name = a) ∨ p.name ∈ Naming.spellings s a := by
    rw [exists_binding_iff _ _ s ha, exists_binding_iff _ _ s ha,
      properties_addOwn_withProperty p hnew]
    constructor
    · rintro ⟨q, hq, hstands⟩
      rcases List.mem_append.1 hq with hq | hq
      · rw [taggedAttributes_addOwn_withProperty hc hnew hq] at hstands
        exact Or.inl ⟨q, hq, hstands⟩
      · rw [List.mem_singleton.1 hq, taggedAttributes_eq_nil htag hover] at hstands
        exact Or.inr (hstands.resolve_right List.not_mem_nil)
    · rintro (⟨q, hq, hstands⟩ | hspelled)
      · rw [← taggedAttributes_addOwn_withProperty hc hnew hq] at hstands
        exact ⟨q, List.mem_append_left _ hq, hstands⟩
      · exact ⟨⟨c.fqn, p⟩, List.mem_append_right _ List.mem_cons_self, Or.inl hspelled⟩
  rw [Bool.eq_iff_iff]
  simpa using hiff

/-- An immutable property adds no binding to a mutable one. -/
theorem filter_attributeBindings_addOwn_withProperty (himm : p.immutable = true)
    (s : SchemaEntry) :
    ((t.addOwn (c.withProperty p)).attributeBindings (c.withProperty p) s).filter
        (!·.property.decl.immutable) =
      (t.attributeBindings c s).filter (!·.property.decl.immutable) := by
  rw [attributeBindings_addOwn_withProperty hc hnew htag hover, attributeBindings,
    List.filter_append, List.filter_append, List.filter_filterMap, List.filter_filterMap]
  congr 1
  refine List.filterMap_congr fun a _ => ?_
  cases t.spelledProperty? c s a with
  | some q => rfl
  | none =>
    by_cases hspelled : p.name ∈ Naming.spellings s a
    · simp [hspelled, Option.filter_some, bindingOn, himm]
    · simp [hspelled]

/-- Every other convention finds the same on the class with the new property. -/
theorem found_addOwn_withProperty_of_ne (himm : p.immutable = true) (f : Framework)
    (i : Option InterfaceDecl) (s : SchemaEntry) {rule : Rule Resource}
    (hrule : rule ∈ Conventions.all f) (hcode : rule.code ≠ "resource-attribute") :
    rule.found ((t.addOwn (c.withProperty p)).resourceAs f ⟨c.withProperty p, i⟩ s) =
      rule.found (t.resourceAs f ⟨c, i⟩ s) := by
  have hbase : (t.addOwn (c.withProperty p)).classExtends (c.withProperty p) f.resource =
      t.classExtends c f.resource :=
    (alikeBeside_addOwn_withProperty p hc).classExtends_eq hc (class?_addOwn_self t _) rfl _
  have hinterface : ∀ j, (t.addOwn (c.withProperty p)).interfaceExtends j f.resourceInterface =
      t.interfaceExtends j f.resourceInterface :=
    fun j => interfaceExtends_congr (alikeBeside_addOwn_withProperty p hc).interface_eq j _
  have hmutable := filter_attributeBindings_addOwn_withProperty hc hnew htag hover himm s
  have hmethods : (t.addOwn (c.withProperty p)).methods (c.withProperty p) = t.methods c :=
    methods_addOwn_withProperty p
  simp only [Conventions.all, List.mem_cons, List.not_mem_nil, or_false] at hrule
  rcases hrule with rfl | rfl | rfl | rfl | rfl | rfl
  · refine Rule.found_ofChecks_congr rfl ?_
    exact congrArg (fun holds => [(⟨holds, c.fqn, none⟩ : Check)]) hbase
  · exact Rule.found_ofChecks_congr rfl rfl
  · refine Rule.found_ofChecks_congr rfl ?_
    unfold Conventions.interfaceBaseChecks resourceAs
    simp only [hinterface]
  · exact absurd rfl hcode
  · rw [Rule.found_ofChecks, Rule.found_ofChecks]
    unfold Conventions.immutableChecks resourceAs
    rw [List.filter_map, List.filter_map]
    exact congrArg (fun bs => List.map _ (List.map _ bs)) hmutable
  · refine Rule.found_ofChecks_congr rfl ?_
    exact congrArg (fun ms => List.flatMap _ (List.filter _ ms)) hmethods

/-- On the class with the new property, every convention finds what it found less the reports that
the property answers. -/
theorem found_addOwn_withProperty (himm : p.immutable = true) (f : Framework)
    (i : Option InterfaceDecl) (s : SchemaEntry) {rule : Rule Resource}
    (hrule : rule ∈ Conventions.all f) :
    rule.found ((t.addOwn (c.withProperty p)).resourceAs f ⟨c.withProperty p, i⟩ s) =
      (rule.found (t.resourceAs f ⟨c, i⟩ s)).filter (· ∉ answeredBy c s p.name) := by
  by_cases hcode : rule.code = "resource-attribute"
  · rw [found_attribute _ f _ s hrule hcode, found_attribute t f _ s hrule hcode, List.filter_map,
      List.filter_filter]
    change List.map (missingAttribute c s) _ = List.map (missingAttribute c s) _
    congr 1
    refine List.filter_congr fun a ha => ?_
    rw [any_attributeBindings_addOwn_withProperty hc hnew htag hover s ha, Bool.not_or,
      Bool.and_comm]
    congr 1
    rw [Bool.eq_iff_iff]
    simp [missingAttribute_mem_answeredBy_iff, ha]
  · have hkept : ∀ v ∈ rule.found (t.resourceAs f ⟨c, i⟩ s),
        decide (v ∉ answeredBy c s p.name) = true := by
      intro v hv
      rw [decide_eq_true_iff]
      intro hmem
      obtain ⟨a, -, rfl⟩ := List.mem_map.1 hmem
      exact hcode (Conventions.code_of_mem_found hrule _ hv).symm
    rw [found_addOwn_withProperty_of_ne hc hnew htag hover himm f i s hrule hcode,
      List.filter_eq_self.2 hkept]

end Remedied

/-- An attribute is reported as missing under a name that no visible property has. -/
theorem name_ne_of_mem_found {t : TypeTable} {f : Framework} {k : Construct} {s : SchemaEntry}
    {rule : Rule Resource} (hrule : rule ∈ Conventions.all f)
    (hcode : rule.code = "resource-attribute") {a : String}
    (hmem : missingAttribute k.decl s a ∈ rule.found (t.resourceAs f k s)) :
    a ∈ s.attributes ∧
      ∀ q ∈ t.properties k.decl, q.decl.name ≠ Naming.expectedProperty s a := by
  obtain ⟨ha, hunbound⟩ := (missingAttribute_mem_found_iff hrule hcode a).1 hmem
  refine ⟨ha, fun q hq hname => hunbound ?_⟩
  exact (exists_binding_iff t k.decl s ha).2
    ⟨q, hq, Or.inl (by simp [hname, Naming.spellings])⟩

end TypeTable

theorem Conventions.mapM_evaluate (f : Framework) (r : Resource) :
    (all f).mapM (·.evaluate r) = .ok ((all f).map (·.found r)) :=
  mapM_eq_ok_map _ _ _ fun _ hrule => completes hrule r

/-- If the attribute `a` is reported as missing at the property `e` of a class, then no property of
that name is visible there. Once the class declares one that is immutable, untagged and no override,
every convention reports what it did, less the attributes that `e` spells, of which `a` is one. -/
theorem evaluate_withProperty_of_missing (t : TypeTable) (cat : Catalog) (f : Framework)
    (c : ClassDecl) (hc : c ∈ t.ownClasses) (i : Option InterfaceDecl) (r : Resource)
    (hr : (Resource.ofConstruct t cat f ⟨c, i⟩).outcome = .ok r) (rule : Rule Resource)
    (hrule : rule ∈ Conventions.all f) (hcode : rule.code = "resource-attribute")
    (vs : List Violation) (hvs : rule.evaluate r = .ok vs) (v : Violation) (hv : v ∈ vs)
    (e a : String) (hscope : v.scope = c.fqn ++ "." ++ e)
    (hextra : v.extra = some ("(missing attribute " ++ a ++ ")")) (p : PropertyDecl)
    (hname : p.name = e) (himm : p.immutable = true) (htag : p.docs.tag? attributeTag = none)
    (hover : p.overrides = none) :
    (∀ q ∈ t.properties c, q.decl.name ≠ e) ∧
      v = missingAttribute c r.schema a ∧
      v ∈ answeredBy c r.schema e ∧
      ∃ r' found,
        (Resource.ofConstruct (t.addOwn (c.withProperty p)) cat f ⟨c.withProperty p, i⟩).outcome =
          .ok r' ∧
        r'.schema = r.schema ∧
        (Conventions.all f).mapM (·.evaluate r) = .ok found ∧
        (Conventions.all f).mapM (·.evaluate r') =
          .ok (found.map (List.filter (· ∉ answeredBy c r.schema e))) := by
  have hclass : t.class? c.fqn = some c := TypeTable.class?_of_mem_ownClasses hc
  obtain ⟨s, hs, rfl⟩ := (t.outcome_ofConstruct_eq_ok_iff cat f _ r).1 hr
  have hfound : rule.found (t.resourceAs f ⟨c, i⟩ s) = vs :=
    Except.ok.inj ((Conventions.completes hrule _).symm.trans hvs)
  -- The report names the attribute, and its place the property that is expected for it.
  obtain ⟨b, rfl⟩ : ∃ b, missingAttribute c s b = v := by
    rw [← hfound, TypeTable.found_attribute t f _ s hrule hcode] at hv
    obtain ⟨b, -, heq⟩ := List.mem_map.1 hv
    exact ⟨b, heq⟩
  have hba : b = a := missingAttribute_extra_inj hextra
  have hexpected : Naming.expectedProperty s a = p.name := by
    have htext : c.fqn ++ "." ++ Naming.expectedProperty s b = c.fqn ++ "." ++ e := hscope
    rw [String.append_right_inj, hba] at htext
    exact htext.trans hname.symm
  subst hname hba
  obtain ⟨hb, hnew⟩ := TypeTable.name_ne_of_mem_found hrule hcode (hfound ▸ hv)
  rw [hexpected] at hnew
  have hanswered : missingAttribute c s b ∈ answeredBy c s p.name :=
    (missingAttribute_mem_answeredBy_iff c s p.name b).2
      ⟨hb, by simp [Naming.spellings, hexpected]⟩
  have hs' : (t.addOwn (c.withProperty p)).schemaFor? cat (c.withProperty p) = some s :=
    (TypeTable.schemaFor?_addOwn_withProperty p hclass cat).trans hs
  refine ⟨hnew, rfl, hanswered, _, _, (TypeTable.outcome_ofConstruct_eq_ok_iff _ cat f _ _).2
    ⟨s, hs', rfl⟩, rfl, Conventions.mapM_evaluate f _, ?_⟩
  rw [Conventions.mapM_evaluate, List.map_map]
  refine congrArg Except.ok (List.map_congr_left fun rule' hrule' => ?_)
  exact TypeTable.found_addOwn_withProperty hclass hnew htag hover himm f i s hrule'

namespace Sample

/-- An entry with two attributes that one property name spells. -/
def wideEntry : SchemaEntry := ⟨"Sheet", ["Name", "Arn", "Id", "sheetId"]⟩

theorem leaf_remedied :
    ∃ r r' found,
      (Resource.ofConstruct table ⟨[wideEntry]⟩ framework ⟨leaf, none⟩).outcome = .ok r ∧
      (Resource.ofConstruct
          (table.addOwn (leaf.withProperty (PropertyDecl.ofName "sheetId").asImmutable))
          ⟨[wideEntry]⟩ framework
          ⟨leaf.withProperty (PropertyDecl.ofName "sheetId").asImmutable, none⟩).outcome = .ok r' ∧
      (Conventions.all framework).mapM (·.evaluate r) = .ok found ∧
      (found.map (·.length)) = [1, 1, 0, 2, 2, 1] ∧
      (Conventions.all framework).mapM (·.evaluate r') =
        .ok (found.map (List.filter
          (· ∉ [missingAttribute leaf wideEntry "Id", missingAttribute leaf wideEntry "sheetId"])))
      := by
  have hr : (Resource.ofConstruct table ⟨[wideEntry]⟩ framework ⟨leaf, none⟩).outcome =
      .ok (table.resourceAs framework ⟨leaf, none⟩ wideEntry) :=
    (TypeTable.outcome_ofConstruct_eq_ok_iff _ _ _ _ _).2 ⟨wideEntry, by decide +kernel, rfl⟩
  have hown : leaf ∈ table.ownClasses := List.mem_singleton_self leaf
  have hanswered : answeredBy leaf wideEntry "sheetId" =
      [missingAttribute leaf wideEntry "Id", missingAttribute leaf wideEntry "sheetId"] := by
    decide +kernel
  obtain ⟨-, -, -, r', found, hr', -, hfound, hfound'⟩ :=
    evaluate_withProperty_of_missing table ⟨[wideEntry]⟩ framework leaf hown none _ hr
      (.ofChecks "resource-attribute"
        "resources must represent all resource attributes as properties" .error
        Conventions.attributeChecks)
      (by simp [Conventions.all]) rfl
      [missingAttribute leaf wideEntry "Id", missingAttribute leaf wideEntry "sheetId"]
      (by decide +kernel) (missingAttribute leaf wideEntry "Id") List.mem_cons_self "sheetId" "Id"
      (by decide +kernel) rfl (PropertyDecl.ofName "sheetId").asImmutable rfl rfl rfl rfl
  refine ⟨_, r', found, hr, hr', hfound, ?_, hanswered ▸ hfound'⟩
  have hcount : Except.map (List.map List.length) ((Conventions.all framework).mapM
      fun rule => rule.evaluate (table.resourceAs framework ⟨leaf, none⟩ wideEntry)) =
        .ok [1, 1, 0, 2, 2, 1] := by
    decide +kernel
  rw [hfound] at hcount
  exact Except.ok.inj hcount

end Sample

end ResourceLint
