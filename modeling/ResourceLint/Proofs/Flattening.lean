import ResourceLint.Proofs.Registration

/-!
The table of an assembly and all that the assembly declares, its dependencies included. The table
follows the declarations in one order, in which nested dependencies come first and the assembly's
own declarations last, and the last declaration of a name is the one it stands for. The classes of
the assembly are its own declarations laid over each other.
-/

namespace ResourceLint

namespace Registration

def classes (rs : List Registration) : List ClassDecl := (rs.filterMap class?).map Prod.fst

@[simp] theorem classes_append (rs rs' : List Registration) :
    classes (rs ++ rs') = classes rs ++ classes rs' := by
  simp [classes]

@[simp] theorem classes_map_ofClass (cs : List ClassDecl) (own : Bool) :
    classes (cs.map (.ofClass · own)) = cs := by
  simp [classes, List.filterMap_map, Function.comp_def, class?]

@[simp] theorem classes_map_ofInterface (is : List InterfaceDecl) (own : Bool) :
    classes (is.map (.ofInterface · own)) = [] := by
  simp [classes, List.filterMap_map, Function.comp_def, class?]

end Registration

theorem exists_lastClass_iff (rs : List Registration) (fqn : String) (c : ClassDecl) :
    (∃ own, LastClass rs fqn c own) ↔
      c.fqn = fqn ∧ Latest (·.fqn) (Registration.classes rs) c := by
  simp only [LastClass, Registration.classes, latest_map_iff, Prod.exists, exists_and_left,
    exists_eq_left]

namespace Assembly

mutual

/-- All class declarations of an assembly. Those of its dependencies come before its own, and a
dependency has those nested in it before its own. -/
def allClasses : Assembly → List ClassDecl
  | ⟨_, classes, _, dependencies⟩ => classesAmong dependencies ++ classes

def classesAmong : List Assembly → List ClassDecl
  | [] => []
  | a :: as => a.allClasses ++ classesAmong as

end

theorem allClasses_eq (a : Assembly) :
    a.allClasses = classesAmong a.dependencies ++ a.classes := by
  cases a
  rfl

mutual

def foreignRegistrations : Assembly → List Registration
  | ⟨_, classes, interfaces, dependencies⟩ =>
    registrationsAmong dependencies ++ classes.map (.ofClass · false)
      ++ interfaces.map (.ofInterface · false)

def registrationsAmong : List Assembly → List Registration
  | [] => []
  | a :: as => a.foreignRegistrations ++ registrationsAmong as

end

def registrations (a : Assembly) : List Registration :=
  registrationsAmong a.dependencies ++ a.classes.map (.ofClass · true)
    ++ a.interfaces.map (.ofInterface · true)

mutual

theorem classes_foreignRegistrations (a : Assembly) :
    Registration.classes a.foreignRegistrations = a.allClasses := by
  obtain ⟨_, classes, interfaces, dependencies⟩ := a
  have hnested := classes_registrationsAmong dependencies
  simp [foreignRegistrations, allClasses, hnested]

theorem classes_registrationsAmong (as : List Assembly) :
    Registration.classes (registrationsAmong as) = classesAmong as := by
  match as with
  | [] => rfl
  | a :: as =>
    have hfirst := classes_foreignRegistrations a
    have hrest := classes_registrationsAmong as
    simp [registrationsAmong, classesAmong, hfirst, hrest]

end

theorem classes_registrations (a : Assembly) :
    Registration.classes a.registrations = a.allClasses := by
  simp [registrations, allClasses_eq, classes_registrationsAmong]

mutual

theorem not_own_of_mem_foreignRegistrations (a : Assembly) (c : ClassDecl) :
    .ofClass c true ∉ a.foreignRegistrations := by
  obtain ⟨_, classes, interfaces, dependencies⟩ := a
  have hnested := not_own_of_mem_registrationsAmong dependencies c
  simp [foreignRegistrations, hnested]

theorem not_own_of_mem_registrationsAmong (as : List Assembly) (c : ClassDecl) :
    .ofClass c true ∉ registrationsAmong as := by
  match as with
  | [] => simp [registrationsAmong]
  | a :: as =>
    have hfirst := not_own_of_mem_foreignRegistrations a c
    have hrest := not_own_of_mem_registrationsAmong as c
    simp [registrationsAmong, hfirst, hrest]

end

end Assembly

namespace TypeTable

open Assembly

theorem foldl_addForeign (t : TypeTable) (cs : List ClassDecl) :
    cs.foldl addForeign t = (cs.map (Registration.ofClass · false)).foldl Registration.enter t := by
  rw [List.foldl_map]
  rfl

theorem foldl_addOwn (t : TypeTable) (cs : List ClassDecl) :
    cs.foldl addOwn t = (cs.map (Registration.ofClass · true)).foldl Registration.enter t := by
  rw [List.foldl_map]
  rfl

theorem foldl_addInterface (t : TypeTable) (is : List InterfaceDecl) (own : Bool) :
    is.foldl addInterface t =
      (is.map (Registration.ofInterface · own)).foldl Registration.enter t := by
  rw [List.foldl_map]
  rfl

mutual

theorem addDependency_eq_foldl (t : TypeTable) (a : Assembly) :
    t.addDependency a = a.foreignRegistrations.foldl Registration.enter t := by
  obtain ⟨_, classes, interfaces, dependencies⟩ := a
  rw [addDependency, foreignRegistrations, addDependencies_eq_foldl t dependencies,
    foldl_addForeign, foldl_addInterface _ _ false, List.foldl_append, List.foldl_append]

theorem addDependencies_eq_foldl (t : TypeTable) (as : List Assembly) :
    t.addDependencies as = (registrationsAmong as).foldl Registration.enter t := by
  match as with
  | [] => rfl
  | a :: as =>
    rw [addDependencies, registrationsAmong, List.foldl_append, addDependency_eq_foldl t a,
      addDependencies_eq_foldl _ as]

end

/-- The table of an assembly is made by its registrations in order. -/
theorem ofAssembly_eq_replay (a : Assembly) : ofAssembly a = replay a.name a.registrations := by
  rw [ofAssembly, addDependencies_eq_foldl, foldl_addOwn, foldl_addInterface _ _ true, replay,
    registrations, List.foldl_append, List.foldl_append]

theorem follows_ofAssembly (a : Assembly) : Follows a.registrations (ofAssembly a) := by
  rw [ofAssembly_eq_replay]
  exact follows_replay a.name a.registrations

/-- A name stands for its last declaration. -/
theorem class?_ofAssembly_eq_some_iff (a : Assembly) (fqn : String) (c : ClassDecl) :
    (ofAssembly a).class? fqn = some c ↔ c.fqn = fqn ∧ Latest (·.fqn) a.allClasses c := by
  rw [(follows_ofAssembly a).class_iff, exists_lastClass_iff, classes_registrations]

/-- Dependencies have no part in the assembly's own names. -/
theorem own_addDependencies (name : String) (as : List Assembly) :
    (addDependencies { name := name } as).own = [] := by
  have hfollows : Follows (registrationsAmong as) (addDependencies { name := name } as) := by
    rw [addDependencies_eq_foldl]
    exact follows_replay name (registrationsAmong as)
  apply List.eq_nil_iff_forall_not_mem.2
  intro fqn hfqn
  obtain ⟨k, ⟨c, hc, -⟩, -⟩ := (hfollows.own_iff fqn).1 hfqn
  exact not_own_of_mem_registrationsAmong as c (List.mem_of_getElem? hc)

/-- Own classes alone, from a table without any, stand in the order in which they first occur. -/
theorem own_foldl_addOwn (t : TypeTable) (h : t.own = []) (cs : List ClassDecl) :
    (cs.foldl addOwn t).own = (cs.map (·.fqn)).eraseDups := by
  induction cs using List.reverseRecOn with
  | nil => simpa using h
  | append_singleton cs c ih =>
    rw [List.foldl_append, List.foldl_cons, List.foldl_nil, own_addOwn, ih, List.map_append,
      List.map_singleton, eraseDups_concat]
    simp only [List.mem_eraseDups]

theorem own_foldl_addInterface (t : TypeTable) (is : List InterfaceDecl) :
    (is.foldl addInterface t).own = t.own := by
  induction is generalizing t with
  | nil => rfl
  | cons i is ih =>
    rw [List.foldl_cons, ih]
    rfl

theorem own_ofAssembly (a : Assembly) : (ofAssembly a).own = (a.classes.map (·.fqn)).eraseDups := by
  rw [ofAssembly, own_foldl_addInterface, own_foldl_addOwn _ (own_addDependencies _ _)]

/-- The assembly's own classes are its own declarations, later ones in the place of earlier ones,
whatever its dependencies declare. -/
theorem overlay_ownClasses (a : Assembly) :
    Overlay (·.fqn) a.classes (ofAssembly a).ownClasses := by
  have hnames : (ofAssembly a).ownClasses.map (·.fqn) = (a.classes.map (·.fqn)).eraseDups := by
    rw [(follows_ofAssembly a).map_fqn_ownClasses, own_ofAssembly]
  refine ⟨hnames, ?_⟩
  intro c hc
  have hown : c.fqn ∈ a.classes.map (·.fqn) := by
    rw [← List.mem_eraseDups, ← hnames]
    exact List.mem_map_of_mem hc
  have hlatest := ((class?_ofAssembly_eq_some_iff a _ c).1 (class?_of_mem_ownClasses hc)).2
  rw [allClasses_eq] at hlatest
  rcases (latest_append_iff _ _ c).1 hlatest with hlatest | ⟨-, hnone⟩
  · exact hlatest
  · obtain ⟨d, hd, hfqn⟩ := List.mem_map.1 hown
    exact absurd hfqn (hnone d hd)

end TypeTable

end ResourceLint
