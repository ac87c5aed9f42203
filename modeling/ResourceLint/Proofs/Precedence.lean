import ResourceLint.Proofs.Flattening
import ResourceLint.Proofs.Unreferenced

/-!
Which declaration of a name an assembly gives precedence. It is the last one where all dependencies
are laid out before their dependents, siblings in order: so an assembly's own declarations win over
those of all its dependencies, at every depth, and a later dependency wins over an earlier one.
Siblings that have no name in common can change places, which changes no look-up and no result of a
run.
-/

namespace ResourceLint

variable {α : Type}

namespace Assembly

mutual

/-- What an assembly and all its dependencies declare of one kind. A dependency comes before what
depends on it, and an earlier one, with all that is nested in it, before a later one. -/
def flattened (declared : Assembly → List α) : Assembly → List α
  | ⟨name, classes, interfaces, dependencies⟩ =>
    flattenedAmong declared dependencies ++ declared ⟨name, classes, interfaces, dependencies⟩

def flattenedAmong (declared : Assembly → List α) : List Assembly → List α
  | [] => []
  | a :: as => a.flattened declared ++ flattenedAmong declared as

end

theorem flattenedAmong_eq_flatMap (declared : Assembly → List α) (as : List Assembly) :
    flattenedAmong declared as = as.flatMap (flattened declared) := by
  induction as with
  | nil => rfl
  | cons a as ih => rw [flattenedAmong, ih, List.flatMap_cons]

theorem flattened_eq (declared : Assembly → List α) (a : Assembly) :
    a.flattened declared = a.dependencies.flatMap (flattened declared) ++ declared a := by
  obtain ⟨name, classes, interfaces, dependencies⟩ := a
  rw [flattened, flattenedAmong_eq_flatMap]

mutual

theorem flattened_classes (a : Assembly) : a.flattened Assembly.classes = a.allClasses := by
  obtain ⟨name, classes, interfaces, dependencies⟩ := a
  rw [flattened, flattenedAmong_classes dependencies]
  rfl

theorem flattenedAmong_classes (as : List Assembly) :
    flattenedAmong Assembly.classes as = classesAmong as := by
  match as with
  | [] => rfl
  | a :: as =>
    rw [flattenedAmong, flattened_classes a, flattenedAmong_classes as]
    rfl

end

mutual

theorem interfaces_foreignRegistrations (a : Assembly) :
    a.foreignRegistrations.filterMap Registration.interface? =
      a.flattened Assembly.interfaces := by
  obtain ⟨name, classes, interfaces, dependencies⟩ := a
  have hnested := interfaces_registrationsAmong dependencies
  simp [foreignRegistrations, flattened, hnested, List.filterMap_map, Function.comp_def,
    Registration.interface?]

theorem interfaces_registrationsAmong (as : List Assembly) :
    (registrationsAmong as).filterMap Registration.interface? =
      flattenedAmong Assembly.interfaces as := by
  match as with
  | [] => rfl
  | a :: as =>
    have hfirst := interfaces_foreignRegistrations a
    have hrest := interfaces_registrationsAmong as
    simp [registrationsAmong, flattenedAmong, hfirst, hrest]

end

theorem interfaces_registrations (a : Assembly) :
    a.registrations.filterMap Registration.interface? = a.flattened Assembly.interfaces := by
  rw [flattened_eq, ← flattenedAmong_eq_flatMap, ← interfaces_registrationsAmong]
  simp [registrations, List.filterMap_map, Function.comp_def, Registration.interface?]

/-- The declaration `x` has precedence in an assembly: it is the last of its name that the assembly
makes itself, or, where it makes none, it has precedence in the last of the dependencies that have
the name at any depth. -/
inductive Precedes (declared : Assembly → List α) (name : α → String) : Assembly → α → Prop
  | own {a : Assembly} {x : α} (h : Latest name (declared a) x) : Precedes declared name a x
  | ofDependency {a d : Assembly} {before after : List Assembly} {x : α}
      (hown : ∀ y ∈ declared a, name y ≠ name x) (hsplit : a.dependencies = before ++ d :: after)
      (hlater : ∀ e ∈ after, ∀ y ∈ e.flattened declared, name y ≠ name x)
      (hd : Precedes declared name d x) : Precedes declared name a x

theorem latest_of_precedes {declared : Assembly → List α} {name : α → String} {a : Assembly} {x : α}
    (h : Precedes declared name a x) : Latest name (a.flattened declared) x := by
  induction h with
  | own hlatest =>
    rw [flattened_eq]
    exact (latest_append_iff _ _ _).2 (Or.inl hlatest)
  | @ofDependency a d before after x hown hsplit hlater _ ih =>
    rw [flattened_eq]
    refine (latest_append_iff _ _ _).2 (Or.inr ⟨?_, hown⟩)
    exact (latest_flatMap_iff _ _ _).2 ⟨before, d, after, hsplit, ih, hlater⟩

theorem sizeOf_lt_of_mem_dependencies {a d : Assembly} (h : d ∈ a.dependencies) :
    sizeOf d < sizeOf a := by
  obtain ⟨name, classes, interfaces, dependencies⟩ := a
  have hmem : sizeOf d < sizeOf dependencies := List.sizeOf_lt_of_mem h
  simp only [mk.sizeOf_spec]
  omega

theorem precedes_of_latest (declared : Assembly → List α) (name : α → String) (a : Assembly)
    (x : α) (h : Latest name (a.flattened declared) x) : Precedes declared name a x := by
  rw [flattened_eq, latest_append_iff, latest_flatMap_iff] at h
  rcases h with hown | ⟨⟨before, d, after, hsplit, hlatest, hlater⟩, hown⟩
  · exact .own hown
  · exact .ofDependency hown hsplit hlater (precedes_of_latest declared name d x hlatest)
termination_by sizeOf a
decreasing_by exact sizeOf_lt_of_mem_dependencies (by simp [hsplit])

/-- The last declaration of a name, with all declarations laid out, is the one with precedence. -/
theorem latest_flattened_iff (declared : Assembly → List α) (name : α → String) (a : Assembly)
    (x : α) : Latest name (a.flattened declared) x ↔ Precedes declared name a x :=
  ⟨precedes_of_latest declared name a x, latest_of_precedes⟩

/-- No class name and no interface name is declared in both, at any depth. -/
def Apart (a b : Assembly) : Prop :=
  (∀ c ∈ a.flattened Assembly.classes, ∀ d ∈ b.flattened Assembly.classes, c.fqn ≠ d.fqn) ∧
    ∀ i ∈ a.flattened Assembly.interfaces, ∀ j ∈ b.flattened Assembly.interfaces, i.fqn ≠ j.fqn

instance (a b : Assembly) : Decidable (a.Apart b) :=
  inferInstanceAs (Decidable (_ ∧ _))

theorem Apart.symm {a b : Assembly} (h : a.Apart b) : b.Apart a :=
  ⟨fun d hd c hc => (h.1 c hc d hd).symm, fun j hj i hi => (h.2 i hi j hj).symm⟩

/-- The assemblies differ in the order of sibling dependencies, at any depth; those that change
places are apart. -/
inductive Reordered : Assembly → Assembly → Prop
  | siblings {name : String} {classes : List ClassDecl} {interfaces : List InterfaceDecl}
      (before after : List Assembly) {ds ds' : List Assembly} (hperm : ds.Perm ds')
      (hapart : ds.Pairwise Apart) :
      Reordered ⟨name, classes, interfaces, before ++ ds ++ after⟩
        ⟨name, classes, interfaces, before ++ ds' ++ after⟩
  | nested {name : String} {classes : List ClassDecl} {interfaces : List InterfaceDecl}
      (before after : List Assembly) {d d' : Assembly} (h : Reordered d d') :
      Reordered ⟨name, classes, interfaces, before ++ [d] ++ after⟩
        ⟨name, classes, interfaces, before ++ [d'] ++ after⟩
  | trans {a b c : Assembly} (hab : Reordered a b) (hbc : Reordered b c) : Reordered a c

namespace Reordered

variable {a b : Assembly}

theorem classes_eq (h : Reordered a b) : a.classes = b.classes := by
  induction h with
  | siblings => rfl
  | nested => rfl
  | trans _ _ ihab ihbc => exact ihab.trans ihbc

section Kind

variable (declared : Assembly → List α) (name : α → String)
  (hnames : ∀ {a b : Assembly}, a.Apart b →
    ∀ x ∈ a.flattened declared, ∀ y ∈ b.flattened declared, name x ≠ name y)

include hnames

theorem sameLatest_of_perm {ds ds' : List Assembly} (hperm : ds.Perm ds')
    (hapart : ds.Pairwise Apart) :
    SameLatest name (ds.flatMap (flattened declared)) (ds'.flatMap (flattened declared)) := by
  intro x
  have hapart' : ds'.Pairwise Apart := hperm.pairwise hapart Apart.symm
  rw [latest_flatMap_of_apart _ (hapart.imp hnames), latest_flatMap_of_apart _ (hapart'.imp hnames)]
  simp only [hperm.mem_iff]

/-- The last declarations of all names are the same if what an assembly itself declares does not
hang on its dependencies. -/
theorem sameLatest
    (hown : ∀ n cs is ds ds', declared ⟨n, cs, is, ds⟩ = declared ⟨n, cs, is, ds'⟩)
    (h : Reordered a b) : SameLatest name (a.flattened declared) (b.flattened declared) := by
  -- What is laid out before and after the dependencies that differ is the same on both sides.
  have haround : ∀ n cs is before after ds,
      flattened declared ⟨n, cs, is, before ++ ds ++ after⟩ =
        before.flatMap (flattened declared) ++ ds.flatMap (flattened declared)
          ++ (after.flatMap (flattened declared) ++ declared ⟨n, cs, is, []⟩) := by
    intro n cs is before after ds
    rw [flattened_eq, hown n cs is _ [], List.flatMap_append, List.flatMap_append,
      List.append_assoc]
  induction h with
  | siblings before after hperm hapart =>
    rw [haround, haround]
    exact (sameLatest_of_perm declared name hnames hperm hapart).around _ _
  | nested before after _ ih =>
    rw [haround, haround, List.flatMap_singleton, List.flatMap_singleton]
    exact ih.around _ _
  | trans _ _ ihab ihbc => exact ihab.trans ihbc

end Kind

end Reordered

end Assembly

namespace TypeTable

open Assembly

theorem interface?_ofAssembly_eq_some_iff (a : Assembly) (fqn : String) (i : InterfaceDecl) :
    (ofAssembly a).interface? fqn = some i ↔
      i.fqn = fqn ∧ Latest (·.fqn) (a.flattened Assembly.interfaces) i := by
  rw [(follows_ofAssembly a).interface_iff, LastInterface, interfaces_registrations]

section Reordering

variable {a b : Assembly} (h : a.Reordered b)

include h

theorem class?_ofAssembly_of_reordered : (ofAssembly b).class? = (ofAssembly a).class? := by
  have hsame := h.sameLatest Assembly.classes ClassDecl.fqn And.left fun _ _ _ _ _ => rfl
  funext fqn
  apply Option.ext
  intro c
  rw [class?_ofAssembly_eq_some_iff, class?_ofAssembly_eq_some_iff, ← flattened_classes,
    ← flattened_classes, hsame c]

theorem interface?_ofAssembly_of_reordered :
    (ofAssembly b).interface? = (ofAssembly a).interface? := by
  have hsame := h.sameLatest Assembly.interfaces InterfaceDecl.fqn And.right fun _ _ _ _ _ => rfl
  funext fqn
  apply Option.ext
  intro i
  rw [interface?_ofAssembly_eq_some_iff, interface?_ofAssembly_eq_some_iff, hsame i]

theorem own_ofAssembly_of_reordered : (ofAssembly b).own = (ofAssembly a).own := by
  rw [own_ofAssembly, own_ofAssembly, h.classes_eq]

end Reordering

end TypeTable

/-- A run depends on a table through its look-ups and the assembly's own names. -/
theorem outcome_lint_congr {t t' : TypeTable} (hclass : t'.class? = t.class?)
    (hinterface : t'.interface? = t.interface?) (hown : t'.own = t.own) (cat : Catalog)
    (config : Config) (selected : Option (List String)) :
    (lint t' cat config selected).outcome = (lint t cat config selected).outcome := by
  have hagree := TypeTable.agreeOn_univ hclass hinterface
  have hchecked : t'.checkedClasses config.framework = t.checkedClasses config.framework := by
    rw [TypeTable.checkedClasses, TypeTable.ownClasses, hclass, hown]
    refine List.filter_congr fun c _ => ?_
    rw [decide_eq_decide]
    exact hagree.checked_iff config.framework trivial
  have hcs : ∀ c ∈ t.checkedClasses config.framework,
      t.class? c.fqn = some c ∧ c.fqn ∈ Set.univ :=
    fun c hc => ⟨TypeTable.class?_of_mem_checkedClasses hc, trivial⟩
  rw [outcome_lint, outcome_lint, hchecked]
  cases hrs : (t.checkedClasses config.framework).mapM (t.resolve cat config.framework) with
  | error e => rw [hagree.mapM_resolve_eq_error cat config.framework hcs hrs]
  | ok rs =>
    obtain ⟨rs', hrs', hsame⟩ := hagree.exists_mapM_resolve cat config.framework hcs hrs
    have hreport : (fun es => reportFor config selected es rs') =
        fun es => reportFor config selected es rs :=
      funext fun es => reportFor_congr config selected es hsame
    rw [hrs']
    exact congrArg (fun report => Except.map report _) hreport

/-- A name stands for the last declaration of it, where all dependencies are laid out before their
dependents and siblings in order: an assembly's own declarations have precedence over its
dependencies, and a later dependency has precedence over an earlier one. The order of siblings that
are apart matters to no look-up and to no run. -/
theorem TypeTable.ofAssembly_respects_precedence (a : Assembly) :
    (∀ fqn c, (ofAssembly a).class? fqn = some c ↔
      c.fqn = fqn ∧ Latest (·.fqn) (a.flattened Assembly.classes) c) ∧
    (∀ fqn i, (ofAssembly a).interface? fqn = some i ↔
      i.fqn = fqn ∧ Latest (·.fqn) (a.flattened Assembly.interfaces) i) ∧
    (∀ c, Latest (·.fqn) (a.flattened Assembly.classes) c ↔
      a.Precedes Assembly.classes (·.fqn) c) ∧
    (∀ i, Latest (·.fqn) (a.flattened Assembly.interfaces) i ↔
      a.Precedes Assembly.interfaces (·.fqn) i) ∧
    ∀ b, a.Reordered b →
      (∀ fqn, (ofAssembly b).class? fqn = (ofAssembly a).class? fqn) ∧
      (∀ fqn, (ofAssembly b).interface? fqn = (ofAssembly a).interface? fqn) ∧
      (ofAssembly b).ownClasses = (ofAssembly a).ownClasses ∧
      ∀ cat config selected, (lint (ofAssembly b) cat config selected).outcome =
        (lint (ofAssembly a) cat config selected).outcome := by
  refine ⟨?_, interface?_ofAssembly_eq_some_iff a, Assembly.latest_flattened_iff _ _ a,
    Assembly.latest_flattened_iff _ _ a, ?_⟩
  · intro fqn c
    rw [class?_ofAssembly_eq_some_iff, Assembly.flattened_classes]
  · intro b h
    have hclass := class?_ofAssembly_of_reordered h
    have hinterface := interface?_ofAssembly_of_reordered h
    have hown := own_ofAssembly_of_reordered h
    refine ⟨congrFun hclass, congrFun hinterface, ?_, outcome_lint_congr hclass hinterface hown⟩
    rw [ownClasses, hclass, hown]
    rfl

namespace Sample

def shade : Assembly where
  name := "shade"
  classes := [.ofName "shade.Root"]
  dependencies := [{ name := "deep", classes := [stem] }]

def sun : Assembly where
  name := "sun"
  classes := [.ofName "sun.Root"]
  interfaces := [.ofName "n.IStem"]

def garden (siblings : List Assembly) : Assembly where
  name := "n"
  classes := [leaf]
  dependencies :=
    [{ name := "bed"
       dependencies := [{ name := "frost", classes := [.ofName "n.Stem"] }] ++ siblings ++ [] }]

theorem garden_reordered :
    (garden [shade, sun]).Reordered (garden [sun, shade]) ∧
      ((TypeTable.ofAssembly (garden [sun, shade])).class? "n.Stem").bind (·.base) = some "Base" ∧
      (lint (.ofAssembly (garden [sun, shade])) catalog { framework := framework } none).outcome =
        .ok report := by
  have hapart : [shade, sun].Pairwise Assembly.Apart := by decide +kernel
  have hmoved : (garden [shade, sun]).Reordered (garden [sun, shade]) := by
    apply Assembly.Reordered.nested [] []
    exact .siblings _ [] (.swap sun shade []) hapart
  obtain ⟨-, -, -, -, hreordered⟩ :=
    TypeTable.ofAssembly_respects_precedence (garden [shade, sun])
  obtain ⟨hclass, -, -, hrun⟩ := hreordered _ hmoved
  refine ⟨hmoved, ?_, ?_⟩
  · rw [hclass]
    decide +kernel
  · rw [hrun]
    decide +kernel

end Sample

end ResourceLint
