import ResourceLint.Proofs.LintOutcome
import ResourceLint.Proofs.SchemaSearch
import ResourceLint.Proofs.TagInheritance

/-!
Tables that agree on some names. If no link leads out of these names, every walk from one of them
meets the same types in both tables, and so a class with such a name is resolved to the same
resource and every convention finds the same on it.
-/

namespace ResourceLint

theorem Rule.found_ofChecks_congr {σ : Type} [Subject σ] {code message : String}
    {severity : Severity} {checks : σ → List Check} {s s' : σ}
    (hname : Subject.fqn s = Subject.fqn s') (hchecks : checks s = checks s') :
    (ofChecks code message severity checks).found s =
      (ofChecks code message severity checks).found s' := by
  rw [found_ofChecks, found_ofChecks, hchecks]
  simp only [violationAt, hname]

def Conventions.Alike (f : Framework) (r r' : Resource) : Prop :=
  ∀ rule ∈ all f, rule.found r = rule.found r'

namespace TypeTable

/-- Tables that agree on what is overridden, as far as a chain of overrides stays among some
properties, agree on the tag that reaches them. -/
theorem attributeTagFrom_congr {t t' : TypeTable} {P : Member PropertyDecl → Prop}
    (hsame : ∀ p, P p → t'.overridden? p = t.overridden? p)
    (hstay : ∀ p q, P p → t.overridden? p = some q → P q) (seen : List String)
    (p : Member PropertyDecl) (hp : P p) :
    t'.attributeTagFrom seen p = t.attributeTagFrom seen p := by
  fun_induction attributeTagFrom t seen p with
  | case1 seen p tag htag => rw [attributeTagFrom_unfold, htag]
  | case2 seen p htag hseen =>
    rw [attributeTagFrom_unfold, htag]
    exact if_pos hseen
  | case3 seen p htag hseen hnone =>
    rw [attributeTagFrom_unfold, htag, hsame p hp, hnone]
    exact if_neg hseen
  | case4 seen p htag hseen q hq ih =>
    have hrest := ih (hstay p q hp hq)
    rw [attributeTagFrom_unfold, htag, hsame p hp, hq]
    exact (if_neg hseen).trans hrest

section SameInterfaces

variable {t t' : TypeTable} (h : ∀ n, t'.interface? n = t.interface? n)

include h

theorem extendsLink_congr : t'.ExtendsLink = t.ExtendsLink := by
  funext a b
  simp only [ExtendsLink, h]

theorem interfaceExtends_congr (i : InterfaceDecl) (base : String) :
    t'.interfaceExtends i base = t.interfaceExtends i base := by
  rw [Bool.eq_iff_iff, interfaceExtends_iff_extends, interfaceExtends_iff_extends, Extends, Extends,
    extendsLink_congr h]

theorem waysUp_congr (path ns : List String) : t'.waysUp path ns = t.waysUp path ns := by
  fun_induction waysUp t path ns with
  | case1 => rw [waysUp]
  | case2 path fqn ns hnone ih =>
    rw [waysUp_of_none ((h fqn).trans hnone), ih]
  | case3 path fqn ns i hi hpath ih =>
    rw [waysUp_of_some ((h fqn).trans hi), if_pos hpath, ih]
  | case4 path fqn ns i hi hpath ih₁ ih₂ =>
    rw [waysUp_of_some ((h fqn).trans hi), if_neg hpath, ih₁, ih₂]

theorem interfaceProperties_congr {i : InterfaceDecl} (hi : t.interface? i.fqn = some i) :
    t'.interfaceProperties i = t.interfaceProperties i := by
  have hi' : t'.interface? i.fqn = some i := (h i.fqn).trans hi
  have hupward : t'.upward i.fqn = t.upward i.fqn := by
    rw [upward, upward, waysUp_congr h, funext h]
  rw [interfaceProperties, interfaceProperties, lineage_eq_upward hi', lineage_eq_upward hi,
    hupward]

end SameInterfaces

/-- Two tables stand for the same types on a set of names, and no link of the first leads out of
it. Interfaces are the same throughout. -/
structure AgreeOn (names : Set String) (t t' : TypeTable) : Prop where
  class_eq : ∀ n ∈ names, t'.class? n = t.class? n
  interface_eq : ∀ n, t'.interface? n = t.interface? n
  base_mem : ∀ n ∈ names, ∀ c, t.class? n = some c → ∀ b, c.base = some b → b ∈ names
  classOverride_mem : ∀ n ∈ names, ∀ c, t.class? n = some c →
    ∀ p ∈ c.properties, ∀ o, p.overrides = some o → o ∈ names
  interfaceOverride_mem : ∀ n i, t.interface? n = some i →
    ∀ p ∈ i.properties, ∀ o, p.overrides = some o → o ∈ names

namespace AgreeOn

variable {names : Set String} {t t' : TypeTable} (h : AgreeOn names t t')

include h

section Classes

variable {c : ClassDecl} (hc : t.class? c.fqn = some c) (hn : c.fqn ∈ names)

include hc hn

theorem class?_right : t'.class? c.fqn = some c := by rw [h.class_eq c.fqn hn, hc]

theorem base?_eq : t'.base? c = t.base? c := by
  unfold base?
  cases hbase : c.base with
  | none => rfl
  | some b => exact h.class_eq b (h.base_mem c.fqn hn c hc b hbase)

theorem base?_mem {b : ClassDecl} (hb : t.base? c = some b) : b.fqn ∈ names := by
  obtain ⟨n, hbase, hclass⟩ := Option.bind_eq_some_iff.1 hb
  rw [fqn_of_class? hclass]
  exact h.base_mem c.fqn hn c hc n hbase

theorem ancestorsFrom_eq (seen : List String) :
    t'.ancestorsFrom seen c = t.ancestorsFrom seen c ∧
      ∀ d ∈ t.ancestorsFrom seen c, d.fqn ∈ names := by
  fun_induction ancestorsFrom t seen c with
  | case1 seen c hnone =>
    rw [ancestorsFrom_unfold, h.base?_eq hc hn, base?, hnone]
    exact ⟨rfl, by simp⟩
  | case2 seen c b hb hseen =>
    rw [ancestorsFrom_unfold, h.base?_eq hc hn, base?, hb]
    exact ⟨if_pos hseen, by simp⟩
  | case3 seen c b hb hseen ih =>
    have hbn : b.fqn ∈ names := h.base?_mem hc hn hb
    obtain ⟨hrest, hmem⟩ := ih (class?_of_base? hb) hbn
    rw [ancestorsFrom_unfold, h.base?_eq hc hn, base?, hb]
    refine ⟨?_, ?_⟩
    · simp only [if_neg hseen, hrest]
    · intro d hd
      rcases List.mem_cons.1 hd with rfl | hd
      · exact hbn
      · exact hmem d hd

theorem chain_eq : t'.chain c = t.chain c := by
  rw [chain, ancestors, (h.ancestorsFrom_eq hc hn _).1]
  rfl

theorem mem_of_mem_chain {d : ClassDecl} (hd : d ∈ t.chain c) : d.fqn ∈ names := by
  rcases List.mem_append.1 hd with hd | hd
  · exact (h.ancestorsFrom_eq hc hn _).2 d (List.mem_reverse.1 hd)
  · exact List.mem_singleton.1 hd ▸ hn

theorem properties_eq : t'.properties c = t.properties c := by
  rw [properties, h.chain_eq hc hn]
  rfl

theorem methods_eq : t'.methods c = t.methods c := by
  rw [methods, h.chain_eq hc hn]
  rfl

theorem schemaFor?_eq (cat : Catalog) : t'.schemaFor? cat c = t.schemaFor? cat c := by
  rw [schemaFor?_eq_findSome? cat hc, schemaFor?_eq_findSome? cat (h.class?_right hc hn),
    searchLine, ancestors, (h.ancestorsFrom_eq hc hn _).1]
  rfl

end Classes

theorem baseLink_iff {x : String} (hx : x ∈ names) (y : String) :
    t'.BaseLink x y ↔ t.BaseLink x y := by
  unfold BaseLink
  rw [h.class_eq x hx]

/-- Derivation from one of the names stays among them. -/
theorem derives_iff {x : String} (hx : x ∈ names) (y : String) :
    t'.Derives x y ↔ t.Derives x y := by
  have hstay : ∀ {a b}, t.BaseLink a b → a ∈ names → b ∈ names := by
    intro a b hlink ha
    obtain ⟨c, hc, hbase⟩ := hlink
    exact h.base_mem a ha c hc b hbase
  constructor
  · intro hpath
    induction hpath using Relation.ReflTransGen.head_induction_on with
    | refl => exact .refl
    | head hlink _ ih =>
      have hlink' := (h.baseLink_iff hx _).1 hlink
      exact .head hlink' (ih (hstay hlink' hx))
  · intro hpath
    induction hpath using Relation.ReflTransGen.head_induction_on with
    | refl => exact .refl
    | head hlink _ ih => exact .head ((h.baseLink_iff hx _).2 hlink) (ih (hstay hlink hx))

theorem classExtends_eq {c : ClassDecl} (hc : t.class? c.fqn = some c) (hn : c.fqn ∈ names)
    (base : String) : t'.classExtends c base = t.classExtends c base := by
  rw [Bool.eq_iff_iff, classExtends_iff_derives hc,
    classExtends_iff_derives (h.class?_right hc hn), h.derives_iff hn]

theorem checked_iff (f : Framework) {c : ClassDecl} (hn : c.fqn ∈ names) :
    t'.Checked f c ↔ t.Checked f c := by
  rw [Checked, Checked, h.derives_iff hn, h.derives_iff hn]

/-- What a property overrides is looked up under one of the names. -/
theorem overrides_mem_of_propertiesOf? {n : String} (hn : n ∈ names)
    {ps : List (Member PropertyDecl)} (hps : t.propertiesOf? n = some ps) {p : Member PropertyDecl}
    (hp : p ∈ ps) {o : String} (ho : p.decl.overrides = some o) : o ∈ names := by
  unfold propertiesOf? at hps
  split at hps
  · rename_i c hc
    cases hps
    have hfqn : c.fqn ∈ names := (fqn_of_class? hc).symm ▸ hn
    obtain ⟨d, hd, hpd⟩ := List.mem_flatMap.1 (mem_of_mem_layered hp)
    obtain ⟨q, hq, rfl⟩ := List.mem_map.1 hpd
    exact h.classOverride_mem d.fqn (h.mem_of_mem_chain (class?_fqn hc) hfqn hd) d
      (class?_of_mem_chain (class?_fqn hc) hd) q hq o ho
  · obtain ⟨i, hi, rfl⟩ := Option.map_eq_some_iff.1 hps
    obtain ⟨j, hj, hpj⟩ := List.mem_flatMap.1 (mem_of_mem_layered hp)
    obtain ⟨q, hq, rfl⟩ := List.mem_map.1 hpj
    rw [lineage_eq_upward (interface?_fqn hi)] at hj
    obtain ⟨m, -, hm⟩ := List.mem_filterMap.1 hj
    exact h.interfaceOverride_mem m j hm q hq o ho

theorem propertiesOf?_eq {n : String} (hn : n ∈ names) :
    t'.propertiesOf? n = t.propertiesOf? n := by
  unfold propertiesOf?
  rw [h.class_eq n hn, h.interface_eq n]
  cases hc : t.class? n with
  | some c =>
    exact congrArg some (h.properties_eq (class?_fqn hc) ((fqn_of_class? hc).symm ▸ hn))
  | none =>
    cases hi : t.interface? n with
    | none => rfl
    | some i => exact congrArg some (interfaceProperties_congr h.interface_eq (interface?_fqn hi))

theorem overridden?_eq {p : Member PropertyDecl} (hp : ∀ o, p.decl.overrides = some o → o ∈ names) :
    t'.overridden? p = t.overridden? p := by
  unfold overridden?
  cases ho : p.decl.overrides with
  | none => rfl
  | some o => simp only [Option.bind_eq_bind, Option.bind_some, h.propertiesOf?_eq (hp o ho)]

/-- A chain of overrides that starts among the names stays among them. -/
theorem overrides_mem_of_overridden? {p q : Member PropertyDecl}
    (hp : ∀ o, p.decl.overrides = some o → o ∈ names) (hq : t.overridden? p = some q) {o : String}
    (ho : q.decl.overrides = some o) : o ∈ names := by
  obtain ⟨n, hn, hq⟩ := Option.bind_eq_some_iff.1 hq
  obtain ⟨ps, hps, hq⟩ := Option.bind_eq_some_iff.1 hq
  exact h.overrides_mem_of_propertiesOf? (hp n hn) hps (List.mem_of_find?_eq_some hq) ho

theorem attributeTagFrom_eq (seen : List String) (p : Member PropertyDecl)
    (hp : ∀ o, p.decl.overrides = some o → o ∈ names) :
    t'.attributeTagFrom seen p = t.attributeTagFrom seen p :=
  attributeTagFrom_congr (P := fun p => ∀ o, p.decl.overrides = some o → o ∈ names)
    (fun _ => h.overridden?_eq) (fun _ _ hp hq _ => h.overrides_mem_of_overridden? hp hq) seen p hp

section Resources

variable {c : ClassDecl} (hc : t.class? c.fqn = some c) (hn : c.fqn ∈ names)

include hc hn

theorem taggedAttributes_eq {p : Member PropertyDecl} (hp : p ∈ t.properties c) :
    t'.taggedAttributes p = t.taggedAttributes p := by
  have hps : t.propertiesOf? c.fqn = some (t.properties c) := by rw [propertiesOf?, hc]
  have htag := h.attributeTagFrom_eq [] p fun o ho => h.overrides_mem_of_propertiesOf? hn hps hp ho
  rw [taggedAttributes, attributeTag?, htag]
  rfl

theorem attributeBindings_eq (s : SchemaEntry) :
    t'.attributeBindings c s = t.attributeBindings c s := by
  have hprops := h.properties_eq hc hn
  have hspelled : t'.spelledProperty? c s = t.spelledProperty? c s := by
    funext a
    rw [spelledProperty?, hprops]
    rfl
  have htagged : (t.properties c).flatMap (fun p => (t'.taggedAttributes p).map (bindingOn c · p)) =
      (t.properties c).flatMap fun p => (t.taggedAttributes p).map (bindingOn c · p) := by
    refine List.flatMap_congr fun p hp => ?_
    rw [h.taggedAttributes_eq hc hn hp]
  rw [attributeBindings, hspelled, hprops, htagged]
  rfl

theorem resourceOf_eq (f : Framework) (s : SchemaEntry) :
    t'.resourceOf f c s = { t.resourceOf f c s with types := t' } := by
  rw [resourceOf, h.attributeBindings_eq hc hn, Construct.ofClass, h.interface_eq]
  rfl

/-- A class is resolved to the same resource, or to the same error. -/
theorem resolve_eq (cat : Catalog) (f : Framework) :
    t'.resolve cat f c = (t.resolve cat f c).map fun r => { r with types := t' } := by
  rw [resolve, resolve, h.schemaFor?_eq hc hn]
  cases t.schemaFor? cat c with
  | none => rfl
  | some s => exact congrArg Except.ok (h.resourceOf_eq hc hn f s)

/-- Every convention finds the same on a class that both tables have. -/
theorem alike_resourceOf (f : Framework) (s : SchemaEntry) :
    Conventions.Alike f (t'.resourceOf f c s) (t.resourceOf f c s) := by
  intro rule hrule
  have hbase := h.classExtends_eq hc hn f.resource
  have hmethods := h.methods_eq hc hn
  have hinterface := fun i => interfaceExtends_congr h.interface_eq i f.resourceInterface
  rw [h.resourceOf_eq hc hn]
  simp only [Conventions.all, List.mem_cons, List.not_mem_nil, or_false] at hrule
  rcases hrule with rfl | rfl | rfl | rfl | rfl | rfl <;> refine Rule.found_ofChecks_congr rfl ?_
  · exact congrArg (fun holds => [(⟨holds, c.fqn, none⟩ : Check)]) hbase
  · rfl
  · unfold Conventions.interfaceBaseChecks
    simp only [hinterface]
    rfl
  · rfl
  · rfl
  · exact congrArg (fun ms => List.flatMap _ (List.filter _ ms)) hmethods

end Resources

/-- The resources of the same classes under two tables, pair by pair, are alike to every
convention. -/
theorem exists_mapM_resolve (cat : Catalog) (f : Framework) {cs : List ClassDecl}
    (hcs : ∀ c ∈ cs, t.class? c.fqn = some c ∧ c.fqn ∈ names) {rs : List Resource}
    (hrs : cs.mapM (t.resolve cat f) = .ok rs) :
    ∃ rs', cs.mapM (t'.resolve cat f) = .ok rs' ∧
      List.Forall₂ (Conventions.Alike f) rs' rs := by
  have hall := forall₂_of_mapM_eq_ok _ _ _ hrs
  clear hrs
  induction hall with
  | nil => exact ⟨[], rfl, .nil⟩
  | @cons c r cs rs hr _ ih =>
    obtain ⟨hc, hn⟩ := hcs c List.mem_cons_self
    obtain ⟨rs', hrs', hsame⟩ := ih fun d hd => hcs d (List.mem_cons_of_mem c hd)
    obtain ⟨s, hs, rfl⟩ := (resolve_eq_ok_iff t cat f c r).1 hr
    have hr' : t'.resolve cat f c = .ok (t'.resourceOf f c s) :=
      (resolve_eq_ok_iff t' cat f c _).2 ⟨s, (h.schemaFor?_eq hc hn cat).trans hs, rfl⟩
    refine ⟨t'.resourceOf f c s :: rs', ?_, .cons (h.alike_resourceOf hc hn f s) hsame⟩
    rw [List.mapM_cons, hr', hrs']
    rfl

/-- Resolving the same classes under two tables stops at the same class with the same error. -/
theorem mapM_resolve_eq_error (cat : Catalog) (f : Framework) {cs : List ClassDecl}
    (hcs : ∀ c ∈ cs, t.class? c.fqn = some c ∧ c.fqn ∈ names) {e : SchemaNotFound}
    (he : cs.mapM (t.resolve cat f) = .error e) : cs.mapM (t'.resolve cat f) = .error e := by
  have hresolve : ∀ c ∈ cs, t'.resolve cat f c =
      (t.resolve cat f c).map fun r => { r with types := t' } :=
    fun c hc => h.resolve_eq (hcs c hc).1 (hcs c hc).2 cat f
  rcases mapM_cases (t.resolve cat f) cs with ⟨rs, hok, -⟩ | ⟨before, c, after, e', rfl, hrest⟩
  · rw [hok] at he
    cases he
  · obtain ⟨hbefore, hc, he'⟩ := hrest
    rw [he'] at he
    cases he
    refine mapM_eq_error_of_first _ before after c e ?_ ?_
    · intro d hd
      obtain ⟨r, hr⟩ := hbefore d hd
      exact ⟨_, by rw [hresolve d (by simp [hd]), hr]; rfl⟩
    · rw [hresolve c (by simp), hc]
      rfl

end AgreeOn

/-- Tables with the same look-ups agree on all names. -/
theorem agreeOn_univ {t t' : TypeTable} (hclass : t'.class? = t.class?)
    (hinterface : t'.interface? = t.interface?) : AgreeOn Set.univ t t' where
  class_eq n _ := congrFun hclass n
  interface_eq n := congrFun hinterface n
  base_mem _ _ _ _ _ _ := trivial
  classOverride_mem _ _ _ _ _ _ _ _ := trivial
  interfaceOverride_mem _ _ _ _ _ _ _ := trivial

end TypeTable

end ResourceLint
