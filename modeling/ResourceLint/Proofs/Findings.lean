import ResourceLint.Proofs.Cutting
import ResourceLint.Proofs.ExpectedName
import ResourceLint.Proofs.LintOutcome
import ResourceLint.Proofs.SchemaSearch
import ResourceLint.Proofs.TagInheritance

/-!
The findings on a class, by law. What is visible on the class is laid down by relations and not by
walks; from it, each convention has a list of places at fault. A plain run that succeeds reports
these places, class by class and convention by convention, and nothing else.
-/

namespace ResourceLint

/-- The name of the public interface of a class: in the same namespace, with an `I` before it. -/
inductive PublicName : String → String → Prop
  | inSpace (space name : String) (h : '.' ∉ name.toList) :
      PublicName (space ++ "." ++ name) (space ++ ".I" ++ name)
  | bare (name : String) (h : '.' ∉ name.toList) : PublicName name ("I" ++ name)

theorem publicName_iff (fqn n : String) : PublicName fqn n ↔ n = interfaceNameOf fqn := by
  have hdot : ∀ space name : String,
      (space ++ "." ++ name).toList = space.toList ++ '.' :: name.toList := by
    intro space name
    simp
  constructor
  · intro hname
    cases hname with
    | inSpace space name h =>
      have hcut := (Text.cutLast_eq_some_iff '.' _ space name).2 ⟨hdot space name, h⟩
      rw [interfaceNameOf, hcut]
    | bare _ h =>
      have hcut := (Text.cutLast_eq_none_iff '.' fqn).2 h
      rw [interfaceNameOf, hcut]
  · intro heq
    subst heq
    unfold interfaceNameOf
    split
    · rename_i space name hcut
      obtain ⟨heq, h⟩ := (Text.cutLast_eq_some_iff '.' fqn space name).1 hcut
      have hfqn : fqn = space ++ "." ++ name := String.toList_inj.1 (heq.trans (hdot _ _).symm)
      rw [hfqn]
      exact .inSpace space name h
    · rename_i hcut
      exact .bare fqn ((Text.cutLast_eq_none_iff '.' fqn).1 hcut)

/-- What can be seen on a class, with the laws that fix it. -/
structure ClassView (t : TypeTable) (c : ClassDecl) where
  interfaceName : String
  ancestors : List ClassDecl
  properties : List (Member PropertyDecl)
  methods : List (Member MethodDecl)
  /-- The attribute tag that reaches a visible property. -/
  tag : Member PropertyDecl → Option String
  /-- The attributes that this tag lists. -/
  listed : Member PropertyDecl → List String
  publicName : PublicName c.fqn interfaceName
  ancestry : t.Ancestry c ancestors
  propertyOverlay : Overlay Member.propertyName
    ((ancestors.reverse ++ [c]).flatMap ClassDecl.propertyMembers) properties
  methodOverlay : Overlay Member.methodName
    ((ancestors.reverse ++ [c]).flatMap ClassDecl.methodMembers) methods
  tag_iff : ∀ p ∈ properties, ∀ text, tag p = some text ↔ t.InheritsTag p text
  lists : ∀ p ∈ properties, ∀ text, tag p = some text → Text.Lists text (listed p)
  listed_of_untagged : ∀ p ∈ properties, tag p = none → listed p = []

structure Place where
  scope : String
  extra : Option String := none

def reported (c : ClassDecl) (code : String) (severity : Severity) (message : String)
    (places : List Place) : List Violation :=
  places.map fun p => ⟨code, severity, c.fqn, p.scope, message, p.extra⟩

namespace ClassView

variable {t : TypeTable} {c : ClassDecl}

/-- Some visible property spells the attribute or has a tag that lists it. -/
def Covered (v : ClassView t c) (s : SchemaEntry) (a : String) : Prop :=
  ∃ p ∈ v.properties, Naming.Spells s a p.decl.name ∨ a ∈ v.listed p

instance (v : ClassView t c) (s : SchemaEntry) (a : String) : Decidable (v.Covered s a) :=
  inferInstanceAs (Decidable (∃ p ∈ _, _))

def basePlaces (_ : ClassView t c) (f : Framework) : List Place :=
  if t.Derives c.fqn f.resource then [] else [{ scope := c.fqn }]

def interfacePlaces (v : ClassView t c) : List Place :=
  if (t.interface? v.interfaceName).isSome then [] else [{ scope := c.fqn }]

def interfaceBasePlaces (v : ClassView t c) (f : Framework) : List Place :=
  match t.interface? v.interfaceName with
  | none => []
  | some i => if t.Extends i.fqn f.resourceInterface then [] else [{ scope := i.fqn }]

def missingPlaces (v : ClassView t c) (s : SchemaEntry) : List Place :=
  (s.attributes.filter fun a => ¬ v.Covered s a).map fun a =>
    ⟨c.fqn ++ "." ++ Naming.expectedProperty s a, some ("(missing attribute " ++ a ++ ")")⟩

/-- The first property that spells each attribute, in schema order, and then each visible property
once for every attribute that its tag lists; the mutable ones of these. -/
def mutablePlaces (v : ClassView t c) (s : SchemaEntry) : List Place :=
  ((s.attributes.filterMap fun a =>
        (v.properties.find? fun p => Naming.Spells s a p.decl.name).filter (!·.decl.immutable))
      ++ (v.properties.filter (!·.decl.immutable)).flatMap fun p => (v.listed p).map fun _ => p).map
    fun p => { scope := c.fqn ++ "." ++ p.decl.name }

def grantPlaces (v : ClassView t c) (f : Framework) : List Place :=
  (v.methods.filter fun m =>
      m.decl.name.startsWith "grant" ∧ m.decl.returns ≠ some (.named f.grant)).map fun m =>
    ⟨m.owner ++ "." ++ m.decl.name,
      some ("(expected=\"" ++ (TypeRef.named f.grant).text ++ "\",actual=\""
        ++ (m.decl.returns.map TypeRef.text).getD "void" ++ "\")")⟩

def findings (v : ClassView t c) (f : Framework) (s : SchemaEntry) : List Violation :=
  reported c "resource-class-extends-resource" .error
      ("resource classes must extend " ++ f.resource) (v.basePlaces f)
    ++ reported c "resource-interface" .warning "every resource must have a resource interface"
      v.interfacePlaces
    ++ reported c "resource-interface-extends-resource" .error
      ("resource interfaces must extend " ++ f.resourceInterface) (v.interfaceBasePlaces f)
    ++ reported c "resource-attribute" .error
      "resources must represent all resource attributes as properties" (v.missingPlaces s)
    ++ reported c "resource-attribute-immutable" .error
      "resource attributes must be immutable (readonly)" (v.mutablePlaces s)
    ++ reported c "grant-result" .error ("\"grant\" method must return " ++ f.grant)
      (v.grantPlaces f)

theorem interface?_eq (v : ClassView t c) :
    t.interface? v.interfaceName = (Construct.ofClass t c).interface := by
  rw [(publicName_iff _ _).1 v.publicName]
  rfl

theorem ancestors_eq (v : ClassView t c) : v.ancestors = t.ancestors c :=
  (TypeTable.ancestry_iff t c _).1 v.ancestry

theorem properties_eq (v : ClassView t c) : v.properties = t.properties c := by
  rw [(overlay_iff _ _).1 v.propertyOverlay, ancestors_eq]
  rfl

theorem methods_eq (v : ClassView t c) : v.methods = t.methods c := by
  rw [(overlay_iff _ _).1 v.methodOverlay, ancestors_eq]
  rfl

/-- A property that is visible on a registered class is the last of its name on its owner. -/
theorem placed_of_mem_properties (hc : t.class? c.fqn = some c) {p : Member PropertyDecl}
    (hp : p ∈ t.properties c) : t.Placed p :=
  TypeTable.placed_of_latest_chain hc ((mem_layered_iff _ p).1 hp)

theorem tag_eq (v : ClassView t c) (apart : t.NamesApart) (hc : t.class? c.fqn = some c)
    {p : Member PropertyDecl} (hp : p ∈ t.properties c) : v.tag p = t.attributeTag? p := by
  apply Option.ext
  intro text
  rw [v.tag_iff p (v.properties_eq ▸ hp),
    TypeTable.attributeTag?_eq_some_iff apart (placed_of_mem_properties hc hp)]

theorem listed_eq (v : ClassView t c) (apart : t.NamesApart) (hc : t.class? c.fqn = some c)
    {p : Member PropertyDecl} (hp : p ∈ t.properties c) : v.listed p = t.taggedAttributes p := by
  have hvisible : p ∈ v.properties := v.properties_eq ▸ hp
  have htag := v.tag_eq apart hc hp
  unfold TypeTable.taggedAttributes
  cases h : t.attributeTag? p with
  | none => exact v.listed_of_untagged p hvisible (htag.trans h)
  | some text => exact (Text.lists_iff text _).1 (v.lists p hvisible text (htag.trans h))

def ofClass (apart : t.NamesApart) (hc : t.class? c.fqn = some c) : ClassView t c where
  interfaceName := interfaceNameOf c.fqn
  ancestors := t.ancestors c
  properties := t.properties c
  methods := t.methods c
  tag := t.attributeTag?
  listed := t.taggedAttributes
  publicName := (publicName_iff _ _).2 rfl
  ancestry := (TypeTable.ancestry_iff t c _).2 rfl
  propertyOverlay := overlay_layered _ _
  methodOverlay := overlay_layered _ _
  tag_iff _ hp text :=
    TypeTable.attributeTag?_eq_some_iff apart (placed_of_mem_properties hc hp) text
  lists p _ text htag := by
    rw [Text.lists_iff, TypeTable.taggedAttributes, htag]
  listed_of_untagged p _ htag := by
    rw [TypeTable.taggedAttributes, htag]

end ClassView

/-- A name is bound to some property exactly if it is a schema attribute and a visible property has
a spelling of it, or the tag of a visible property lists it. -/
theorem TypeTable.exists_binding_named_iff (t : TypeTable) (c : ClassDecl) (s : SchemaEntry)
    (n : String) :
    (∃ b ∈ t.attributeBindings c s, b.name = n) ↔
      ∃ p ∈ t.properties c,
        (n ∈ s.attributes ∧ p.decl.name ∈ Naming.spellings s n) ∨ n ∈ t.taggedAttributes p := by
  constructor
  · intro hbound
    obtain ⟨b, hb, rfl⟩ := hbound
    rcases List.mem_append.1 hb with hb | hb
    · obtain ⟨a, ha, hspelled⟩ := List.mem_filterMap.1 hb
      obtain ⟨p, hp, rfl⟩ := Option.map_eq_some_iff.1 hspelled
      have hname : p.decl.name ∈ Naming.spellings s a := by simpa using List.find?_some hp
      exact ⟨p, List.mem_of_find?_eq_some hp, Or.inl ⟨ha, hname⟩⟩
    · obtain ⟨p, hp, htagged⟩ := List.mem_flatMap.1 hb
      obtain ⟨a, hlisted, rfl⟩ := List.mem_map.1 htagged
      exact ⟨p, hp, Or.inr hlisted⟩
  · intro hstands
    rcases hstands with ⟨p, hp, ⟨hn, hspelled⟩ | hlisted⟩
    · obtain ⟨q, hq⟩ : ∃ q, t.spelledProperty? c s n = some q :=
        Option.isSome_iff_exists.1 (List.find?_isSome.2 ⟨p, hp, by simpa using hspelled⟩)
      refine ⟨TypeTable.bindingOn c n q, List.mem_append_left _ ?_, rfl⟩
      exact List.mem_filterMap.2 ⟨n, hn, by rw [hq, Option.map_some]⟩
    · refine ⟨TypeTable.bindingOn c n p, List.mem_append_right _ ?_, rfl⟩
      exact List.mem_flatMap.2 ⟨p, hp, List.mem_map.2 ⟨n, hlisted, rfl⟩⟩

theorem TypeTable.exists_binding_iff (t : TypeTable) (c : ClassDecl) (s : SchemaEntry) {a : String}
    (ha : a ∈ s.attributes) :
    (∃ b ∈ t.attributeBindings c s, b.name = a) ↔
      ∃ p ∈ t.properties c, p.decl.name ∈ Naming.spellings s a ∨ a ∈ t.taggedAttributes p := by
  simp only [exists_binding_named_iff, ha, true_and]

def faults (checks : List Check) : List Place :=
  (checks.filter (!·.holds)).map fun k => ⟨k.scope, k.extra⟩

theorem found_eq_reported (t : TypeTable) (f : Framework) (c : ClassDecl) (s : SchemaEntry)
    (code message : String) (severity : Severity) (checks : Resource → List Check) :
    (Rule.ofChecks code message severity checks).found (t.resourceOf f c s) =
      reported c code severity message (faults (checks (t.resourceOf f c s))) := by
  rw [Rule.found_ofChecks, reported, faults, List.map_map]
  rfl

theorem faults_singleton (k : Check) :
    faults [k] = if k.holds then [] else [⟨k.scope, k.extra⟩] := by
  cases h : k.holds <;> simp [faults, h]

namespace ClassView

variable {t : TypeTable} {c : ClassDecl}

theorem faults_class (v : ClassView t c) (hc : t.class? c.fqn = some c) (f : Framework)
    (s : SchemaEntry) :
    faults (Conventions.classChecks f (t.resourceOf f c s)) = v.basePlaces f := by
  have hderives := TypeTable.classExtends_iff_derives hc f.resource
  rw [Conventions.classChecks, faults_singleton, basePlaces]
  exact if_congr hderives rfl rfl

theorem faults_interface (v : ClassView t c) (f : Framework) (s : SchemaEntry) :
    faults (Conventions.interfaceChecks (t.resourceOf f c s)) = v.interfacePlaces := by
  rw [Conventions.interfaceChecks, faults_singleton, interfacePlaces, interface?_eq]
  rfl

theorem faults_interfaceBase (v : ClassView t c) (f : Framework) (s : SchemaEntry) :
    faults (Conventions.interfaceBaseChecks f (t.resourceOf f c s)) = v.interfaceBasePlaces f := by
  have hinterface : (t.resourceOf f c s).construct.interface = t.interface? v.interfaceName :=
    v.interface?_eq.symm
  rw [Conventions.interfaceBaseChecks, interfaceBasePlaces, hinterface]
  cases t.interface? v.interfaceName with
  | none => rfl
  | some i =>
    have hextends := TypeTable.interfaceExtends_iff_extends t i f.resourceInterface
    simp only [faults_singleton]
    exact if_congr hextends rfl rfl

/-- A schema attribute is bound to some property exactly if it is covered. -/
theorem bound_iff_covered (v : ClassView t c) (apart : t.NamesApart)
    (hc : t.class? c.fqn = some c) (s : SchemaEntry) {a : String} (ha : a ∈ s.attributes) :
    (∃ b ∈ t.attributeBindings c s, b.name = a) ↔ v.Covered s a := by
  unfold Covered
  simp only [TypeTable.exists_binding_iff t c s ha, v.properties_eq, Naming.spells_iff]
  constructor
  · rintro ⟨p, hp, hstands⟩
    exact ⟨p, hp, v.listed_eq apart hc hp ▸ hstands⟩
  · rintro ⟨p, hp, hstands⟩
    exact ⟨p, hp, v.listed_eq apart hc hp ▸ hstands⟩

theorem faults_attribute (v : ClassView t c) (apart : t.NamesApart)
    (hc : t.class? c.fqn = some c) (f : Framework) (s : SchemaEntry) :
    faults (Conventions.attributeChecks (t.resourceOf f c s)) = v.missingPlaces s := by
  have hsame : ∀ a ∈ s.attributes,
      (!(t.attributeBindings c s).any (·.name = a)) = decide (¬ v.Covered s a) := by
    intro a ha
    rw [Bool.eq_iff_iff, decide_eq_true_iff, ← v.bound_iff_covered apart hc s ha]
    simp
  unfold faults Conventions.attributeChecks missingPlaces
  rw [List.filter_map, List.map_map]
  exact congrArg _ (List.filter_congr hsame)

/-- The bindings by spelling, less those to immutable properties. -/
theorem filter_spelled (v : ClassView t c) (s : SchemaEntry) :
    ((s.attributes.filterMap fun a =>
        (t.spelledProperty? c s a).map (TypeTable.bindingOn c a)).filter
          (!·.property.decl.immutable)).map (·.property) =
      s.attributes.filterMap fun a =>
        (v.properties.find? fun p => Naming.Spells s a p.decl.name).filter
          (!·.decl.immutable) := by
  rw [List.filter_filterMap, List.map_filterMap]
  refine List.filterMap_congr fun a _ => ?_
  simp only [v.properties_eq, Naming.spells_iff]
  rw [Option.filter_map, Option.map_map]
  exact Option.map_id'

/-- The bindings by tag, less those to immutable properties. -/
theorem filter_tagged (v : ClassView t c) (apart : t.NamesApart) (hc : t.class? c.fqn = some c) :
    (((t.properties c).flatMap fun p =>
        (t.taggedAttributes p).map (TypeTable.bindingOn c · p)).filter
          (!·.property.decl.immutable)).map (·.property) =
      (v.properties.filter (!·.decl.immutable)).flatMap fun p => (v.listed p).map fun _ => p := by
  rw [filter_flatMap_of_source (!·.decl.immutable), List.map_flatMap, v.properties_eq]
  · refine List.flatMap_congr fun p hp => ?_
    rw [v.listed_eq apart hc (List.mem_filter.1 hp).1, List.map_map]
    rfl
  · intro p _ b hb
    obtain ⟨a, -, rfl⟩ := List.mem_map.1 hb
    rfl

theorem faults_immutable (v : ClassView t c) (apart : t.NamesApart)
    (hc : t.class? c.fqn = some c) (f : Framework) (s : SchemaEntry) :
    faults (Conventions.immutableChecks (t.resourceOf f c s)) = v.mutablePlaces s := by
  have hscope : ∀ b ∈ t.attributeBindings c s, b.scope = c.fqn ++ "." ++ b.property.decl.name := by
    intro b hb
    rcases List.mem_append.1 hb with hb | hb
    · obtain ⟨a, -, hspelled⟩ := List.mem_filterMap.1 hb
      obtain ⟨p, -, rfl⟩ := Option.map_eq_some_iff.1 hspelled
      rfl
    · obtain ⟨p, -, htagged⟩ := List.mem_flatMap.1 hb
      obtain ⟨a, -, rfl⟩ := List.mem_map.1 htagged
      rfl
  have hfaults : faults (Conventions.immutableChecks (t.resourceOf f c s)) =
      (((t.attributeBindings c s).filter (!·.property.decl.immutable)).map (·.property)).map
        fun p => { scope := c.fqn ++ "." ++ p.decl.name } := by
    unfold faults Conventions.immutableChecks
    rw [List.filter_map, List.map_map, List.map_map]
    refine List.map_congr_left fun b hb => ?_
    simp [hscope b (List.mem_filter.1 hb).1]
  rw [hfaults, TypeTable.attributeBindings, List.filter_append, List.map_append, v.filter_spelled,
    v.filter_tagged apart hc, mutablePlaces]

theorem faults_grant (v : ClassView t c) (f : Framework) (s : SchemaEntry) :
    faults (Conventions.grantChecks f (t.resourceOf f c s)) = v.grantPlaces f := by
  have hchecks : ∀ m : Member MethodDecl,
      ExpectedSignature.checks { returns := some (.named f.grant) } m =
        [typeCheck m.methodFqn m.decl.returns (.named f.grant)] := fun _ => rfl
  unfold faults Conventions.grantChecks grantPlaces
  rw [v.methods_eq, funext hchecks, ← List.map_eq_flatMap, List.filter_map, List.map_map,
    List.filter_filter]
  refine congrArg _ (List.filter_congr fun m _ => ?_)
  change (!decide (m.decl.returns = some (.named f.grant)) && m.decl.name.startsWith "grant") = _
  rw [Bool.eq_iff_iff]
  simp [and_comm]

/-- The conventions find, on a class as a resource, what the laws ask for. -/
theorem found_eq_findings (v : ClassView t c) (apart : t.NamesApart)
    (hc : t.class? c.fqn = some c) (f : Framework) (s : SchemaEntry) :
    (Conventions.all f).flatMap (·.found (t.resourceOf f c s)) = v.findings f s := by
  simp only [Conventions.all, List.flatMap_cons, List.flatMap_nil, found_eq_reported,
    v.faults_class hc, v.faults_interface, v.faults_interfaceBase, v.faults_attribute apart hc,
    v.faults_immutable apart hc, v.faults_grant, findings, List.append_assoc, List.append_nil]

end ClassView

namespace TypeTable

def PartOf (t : TypeTable) (cat : Catalog) (f : Framework) (c : ClassDecl)
    (part : List Violation) : Prop :=
  ∃ (s : SchemaEntry) (v : ClassView t c), t.Wraps cat c s ∧ part = v.findings f s

/-- A whole report: one part for each checked class, in the order of the assembly. -/
def WholeReport (t : TypeTable) (cat : Catalog) (f : Framework) (vs : List Violation) : Prop :=
  ∃ parts, List.Forall₂ (t.PartOf cat f) (t.checkedClasses f) parts ∧ vs = parts.flatten

theorem partOf_iff {t : TypeTable} (apart : t.NamesApart) {cat : Catalog} {f : Framework}
    {c : ClassDecl} (hc : t.class? c.fqn = some c) {r : Resource}
    (hr : t.resolve cat f c = .ok r) (part : List Violation) :
    t.PartOf cat f c part ↔ part = (Conventions.all f).flatMap (·.found r) := by
  obtain ⟨s, hs, rfl⟩ := (resolve_eq_ok_iff t cat f c r).1 hr
  constructor
  · intro hpart
    obtain ⟨s', v, hwraps, rfl⟩ := hpart
    rw [wraps_iff cat hc, hs] at hwraps
    cases hwraps
    exact (v.found_eq_findings apart hc f s).symm
  · intro heq
    subst heq
    let v := ClassView.ofClass apart hc
    exact ⟨s, v, (wraps_iff cat hc s).2 hs, v.found_eq_findings apart hc f s⟩

/-- The parts of a report on resolved classes are fixed by their resources. -/
theorem forall₂_partOf_iff {t : TypeTable} (apart : t.NamesApart) {cat : Catalog} {f : Framework}
    {cs : List ClassDecl} {rs : List Resource} (hcs : ∀ c ∈ cs, t.class? c.fqn = some c)
    (hrs : List.Forall₂ (fun c r => t.resolve cat f c = .ok r) cs rs)
    (parts : List (List Violation)) :
    List.Forall₂ (t.PartOf cat f) cs parts ↔
      parts = rs.map fun r => (Conventions.all f).flatMap (·.found r) := by
  induction hrs generalizing parts with
  | nil => simp
  | @cons c r cs rs hr _ ih =>
    have hhead := partOf_iff apart (hcs c List.mem_cons_self) hr
    have htail := ih fun c' hc' => hcs c' (List.mem_cons_of_mem c hc')
    cases parts with
    | nil => simp
    | cons part parts => simp [List.forall₂_cons, hhead, htail]

/-- A plain run that succeeds has the one report that the laws ask for. -/
theorem wholeReport_iff_violations_eq (t : TypeTable) (apart : t.NamesApart) (cat : Catalog)
    (f : Framework) (report : Report)
    (h : (lint t cat { framework := f } none).outcome = .ok report) (vs : List Violation) :
    t.WholeReport cat f vs ↔ report.violations = vs := by
  obtain ⟨rs, es, hrs, hes, rfl⟩ := (outcome_lint_eq_ok_iff t cat _ none report).1 h
  obtain rfl : [] = es := Except.ok.inj hes
  have hparts := forall₂_partOf_iff apart (fun c hc => class?_of_mem_checkedClasses hc)
    (forall₂_of_mapM_eq_ok _ _ _ hrs)
  unfold WholeReport
  simp only [hparts, exists_eq_left, reportFor_plain, List.flatMap_def]
  exact eq_comm

end TypeTable

namespace Sample

def stem : ClassDecl where
  fqn := "n.Stem"
  base := some "Base"
  properties := [PropertyDecl.ofName "tags" |>.withTag "attribute" "Arn"]
  methods := [.ofName "grantAll"]

def leaf : ClassDecl where
  fqn := "n.Leaf"
  base := some "n.Stem"
  properties := [.ofName "name", PropertyDecl.ofName "tags" |>.overriding "n.Stem"]
  docs := Docs.empty.withTag "resource" "Sheet"

def table : TypeTable where
  name := "n"
  classes := [stem, leaf]
  interfaces := [.ofName "n.IStem"]
  own := ["n.Leaf"]

def catalog : Catalog := ⟨[⟨"Sheet", ["Name", "Arn", "Id"]⟩]⟩

def framework : Framework := ⟨"Base", "Res", "IRes", "Grant"⟩

def report : Report where
  violations :=
    [⟨"resource-class-extends-resource", .error, "n.Leaf", "n.Leaf",
        "resource classes must extend Res", none⟩,
      ⟨"resource-interface", .warning, "n.Leaf", "n.Leaf",
        "every resource must have a resource interface", none⟩,
      ⟨"resource-attribute", .error, "n.Leaf", "n.Leaf.sheetId",
        "resources must represent all resource attributes as properties",
        some "(missing attribute Id)"⟩,
      ⟨"resource-attribute-immutable", .error, "n.Leaf", "n.Leaf.name",
        "resource attributes must be immutable (readonly)", none⟩,
      ⟨"resource-attribute-immutable", .error, "n.Leaf", "n.Leaf.tags",
        "resource attributes must be immutable (readonly)", none⟩,
      ⟨"grant-result", .error, "n.Leaf", "n.Stem.grantAll", "\"grant\" method must return Grant",
        some "(expected=\"Grant\",actual=\"void\")"⟩]
  resourcesChecked := 1

/-- The sample table with a tag that lists two names, with blanks around them and a blank piece
between. Only the second is an attribute of the schema entry. -/
def spreadTable : TypeTable :=
  let tags := PropertyDecl.ofName "tags" |>.withTag "attribute" "Url, ,\tArn "
  { table with classes := [{ stem with properties := [tags] }, leaf] }

def spreadReport : Report where
  violations :=
    [⟨"resource-class-extends-resource", .error, "n.Leaf", "n.Leaf",
        "resource classes must extend Res", none⟩,
      ⟨"resource-interface", .warning, "n.Leaf", "n.Leaf",
        "every resource must have a resource interface", none⟩,
      ⟨"resource-attribute", .error, "n.Leaf", "n.Leaf.sheetId",
        "resources must represent all resource attributes as properties",
        some "(missing attribute Id)"⟩,
      ⟨"resource-attribute-immutable", .error, "n.Leaf", "n.Leaf.name",
        "resource attributes must be immutable (readonly)", none⟩,
      ⟨"resource-attribute-immutable", .error, "n.Leaf", "n.Leaf.tags",
        "resource attributes must be immutable (readonly)", none⟩,
      ⟨"resource-attribute-immutable", .error, "n.Leaf", "n.Leaf.tags",
        "resource attributes must be immutable (readonly)", none⟩,
      ⟨"grant-result", .error, "n.Leaf", "n.Stem.grantAll", "\"grant\" method must return Grant",
        some "(expected=\"Grant\",actual=\"void\")"⟩]
  resourcesChecked := 1

theorem namesApart : spreadTable.NamesApart := by
  intro fqn
  by_cases h : fqn = "n.IStem"
  · subst h
    exact Or.inl (by decide +kernel)
  · refine Or.inr ?_
    simp [TypeTable.interface?, spreadTable, table, InterfaceDecl.ofName, Ne.symm h]

theorem wholeReport_table :
    (lint spreadTable catalog { framework := framework } none).outcome = .ok spreadReport ∧
      spreadTable.WholeReport catalog framework spreadReport.violations := by
  have hrun : (lint spreadTable catalog { framework := framework } none).outcome =
      .ok spreadReport := by
    decide +kernel
  have hwhole :=
    spreadTable.wholeReport_iff_violations_eq namesApart catalog framework spreadReport hrun
  exact ⟨hrun, (hwhole spreadReport.violations).2 rfl⟩

end Sample

end ResourceLint
