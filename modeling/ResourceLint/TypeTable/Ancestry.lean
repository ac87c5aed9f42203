import ResourceLint.TypeTable.Basic
import ResourceLint.TypeTable.Walk

/-!
Walks along the base links of classes. Links may dangle or run in a circle; every walk keeps the
names it has passed, and it ends because each step passes another registered class.
-/

namespace ResourceLint.TypeTable

def classNames (t : TypeTable) : List String := t.classes.map (·.fqn)

theorem fqn_of_class? {t : TypeTable} {fqn : String} {c : ClassDecl} (h : t.class? fqn = some c) :
    c.fqn = fqn := by simpa using List.find?_some h

theorem mem_classNames_of_class? {t : TypeTable} {fqn : String} {c : ClassDecl}
    (h : t.class? fqn = some c) : c.fqn ∈ t.classNames :=
  List.mem_map_of_mem (List.mem_of_find?_eq_some h)

def ancestorsFrom (t : TypeTable) (seen : List String) (c : ClassDecl) : List ClassDecl :=
  match _h : c.base.bind t.class? with
  | none => []
  | some b => if b.fqn ∈ seen then [] else b :: t.ancestorsFrom (b.fqn :: seen) b
termination_by unseen t.classNames seen
decreasing_by
  obtain ⟨_, _, hb⟩ := Option.bind_eq_some_iff.1 _h
  exact unseen_cons_lt (mem_classNames_of_class? hb) ‹_›

/-- The base classes of `c`, nearest first, up to one that is unknown or comes again. -/
def ancestors (t : TypeTable) (c : ClassDecl) : List ClassDecl :=
  t.ancestorsFrom [c.fqn] c

theorem mem_classNames_of_mem_ancestorsFrom {t : TypeTable} {seen : List String} {c d : ClassDecl}
    (h : d ∈ t.ancestorsFrom seen c) : d.fqn ∈ t.classNames := by
  fun_induction ancestorsFrom t seen c with
  | case1 => simp at h
  | case2 => simp at h
  | case3 seen c b hb _ ih =>
    obtain ⟨_, _, hb⟩ := Option.bind_eq_some_iff.1 hb
    rcases List.mem_cons.1 h with rfl | h
    · exact mem_classNames_of_class? hb
    · exact ih h

theorem mem_classNames_of_mem_ancestors {t : TypeTable} {c d : ClassDecl}
    (h : d ∈ t.ancestors c) : d.fqn ∈ t.classNames :=
  mem_classNames_of_mem_ancestorsFrom h

/-- Whether the chain from `c` on names `base`, with `seen` the classes it came through. Only the
first class of a chain can be unregistered, which the measure counts as one step more. -/
def derivesFrom (t : TypeTable) (base : String) (seen : List String) (c : ClassDecl) : Bool :=
  if c.fqn = base then true
  else if c.fqn ∈ seen then false
  else
    match c.base with
    | none => false
    | some next =>
      if next = base then true
      else
        match _h : t.class? next with
        | none => false
        | some b => t.derivesFrom base (c.fqn :: seen) b
termination_by unseen t.classNames seen + (if c.fqn ∈ t.classNames then 0 else 1)
decreasing_by
  rw [if_pos (mem_classNames_of_class? _h)]
  exact unseen_cons_lt_add ‹c.fqn ∉ seen›

/-- Whether `c` is `base` or derives from it. A base that is only named counts. -/
def classExtends (t : TypeTable) (c : ClassDecl) (base : String) : Bool :=
  t.derivesFrom base [] c

end ResourceLint.TypeTable
