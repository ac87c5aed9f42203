import ResourceLint.TypeTable.Basic
import ResourceLint.TypeTable.Walk

/-!
Walks along the extends links of interfaces, which may branch, meet again, dangle or run in a
circle.
-/

namespace ResourceLint.TypeTable

def interfaceNames (t : TypeTable) : List String := t.interfaces.map (·.fqn)

theorem fqn_of_interface? {t : TypeTable} {fqn : String} {i : InterfaceDecl}
    (h : t.interface? fqn = some i) : i.fqn = fqn := by simpa using List.find?_some h

theorem mem_interfaceNames_of_interface? {t : TypeTable} {fqn : String} {i : InterfaceDecl}
    (h : t.interface? fqn = some i) : i.fqn ∈ t.interfaceNames :=
  List.mem_map_of_mem (List.mem_of_find?_eq_some h)

/-- Whether `base` is among the pending names or can be reached from one of them without passing
through `seen`. -/
def reachesInterface (t : TypeTable) (base : String) (seen : List String) : List String → Bool
  | [] => false
  | fqn :: pending =>
    if fqn = base then true
    else if fqn ∈ seen then t.reachesInterface base seen pending
    else
      match _h : t.interface? fqn with
      | none => t.reachesInterface base (fqn :: seen) pending
      | some i => t.reachesInterface base (fqn :: seen) (i.interfaces ++ pending)
termination_by pending => (unseen t.interfaceNames seen, pending.length)
decreasing_by
  · exact Prod.Lex.right _ (by simp)
  · have hle : unseen t.interfaceNames (fqn :: seen) ≤ unseen t.interfaceNames seen :=
      unseen_le_of_subset fun _ => List.mem_cons_of_mem _
    rcases Nat.lt_or_eq_of_le hle with hlt | heq
    · exact Prod.Lex.left _ _ hlt
    · rw [heq]
      exact Prod.Lex.right _ (by simp)
  · refine Prod.Lex.left _ _ ?_
    have hi := mem_interfaceNames_of_interface? _h
    rw [fqn_of_interface? _h] at hi
    exact unseen_cons_lt hi ‹_›

/-- Whether `i` is `base` or extends it. A base that is only named counts. -/
def interfaceExtends (t : TypeTable) (i : InterfaceDecl) (base : String) : Bool :=
  t.reachesInterface base [] [i.fqn]

/-- The registered interfaces that can be reached from `names` without passing through `seen`,
each once and after the interfaces it extends. -/
def basesFirst (t : TypeTable) (seen : List String) : List String → List InterfaceDecl
  | [] => []
  | fqn :: names =>
    match _h : t.interface? fqn with
    | none => t.basesFirst seen names
    | some i =>
      if i.fqn ∈ seen then t.basesFirst seen names
      else
        let bases := t.basesFirst (i.fqn :: seen) i.interfaces
        bases ++ i :: t.basesFirst (bases.map (·.fqn) ++ i.fqn :: seen) names
termination_by names => (unseen t.interfaceNames seen, names.length)
decreasing_by
  · exact Prod.Lex.right _ (by simp)
  · exact Prod.Lex.right _ (by simp)
  · exact Prod.Lex.left _ _ (unseen_cons_lt (mem_interfaceNames_of_interface? _h) ‹_›)
  · refine Prod.Lex.left _ _ (Nat.lt_of_le_of_lt (unseen_le_of_subset ?_)
      (unseen_cons_lt (mem_interfaceNames_of_interface? _h) ‹_›))
    intro a ha
    exact List.mem_append_right _ ha

theorem mem_interfaceNames_of_mem_basesFirst {t : TypeTable} {seen names : List String}
    {i : InterfaceDecl} (h : i ∈ t.basesFirst seen names) : i.fqn ∈ t.interfaceNames := by
  fun_induction basesFirst t seen names with
  | case1 => simp at h
  | case2 _ _ _ _ ih => exact ih h
  | case3 _ _ _ _ _ _ ih => exact ih h
  | case4 _ _ _ j hj _ _ ih₁ ih₂ =>
    rcases List.mem_append.1 h with h | h
    · exact ih₁ h
    · rcases List.mem_cons.1 h with rfl | h
      · exact mem_interfaceNames_of_interface? hj
      · exact ih₂ h

def lineage (t : TypeTable) (i : InterfaceDecl) : List InterfaceDecl :=
  t.basesFirst [i.fqn] i.interfaces ++ [i]

end ResourceLint.TypeTable
