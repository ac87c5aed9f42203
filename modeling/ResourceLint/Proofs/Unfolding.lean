import ResourceLint.Proofs.Overlay
import ResourceLint.Proofs.Reachability
import Mathlib.Tactic.Tauto

/-!
The order of an interface and those it extends, without a record of what was visited. The links
upward from an interface unfold into a tree of ways that pass no interface twice; listing the tree
from the top and keeping the first occurrence of each interface gives the order in which their
declarations are laid over each other, also where ways meet again or run in a circle.
-/

namespace ResourceLint.TypeTable

/-- The registered names on the ways up from `names` that pass no name twice and none in `path`,
each name after those above it on its way. -/
def waysUp (t : TypeTable) (path : List String) : List String → List String
  | [] => []
  | fqn :: names =>
    match _h : t.interface? fqn with
    | none => t.waysUp path names
    | some i =>
      if fqn ∈ path then t.waysUp path names
      else t.waysUp (fqn :: path) i.interfaces ++ fqn :: t.waysUp path names
termination_by names => (unseen t.interfaceNames path, names.length)
decreasing_by
  · exact Prod.Lex.right _ (by simp)
  · exact Prod.Lex.right _ (by simp)
  · refine Prod.Lex.left _ _ ?_
    have hi := mem_interfaceNames_of_interface? _h
    rw [fqn_of_interface? _h] at hi
    exact unseen_cons_lt hi ‹_›
  · exact Prod.Lex.right _ (by simp)

theorem basesFirst_unfold (t : TypeTable) (seen : List String) (fqn : String)
    (names : List String) :
    t.basesFirst seen (fqn :: names) = match t.interface? fqn with
      | none => t.basesFirst seen names
      | some i =>
        if i.fqn ∈ seen then t.basesFirst seen names
        else
          t.basesFirst (i.fqn :: seen) i.interfaces ++ i ::
            t.basesFirst ((t.basesFirst (i.fqn :: seen) i.interfaces).map (·.fqn) ++ i.fqn :: seen)
              names := by
  rw [basesFirst]
  split
  · rename_i hnone
    rw [hnone]
  · rename_i i hi
    rw [hi]

theorem waysUp_of_none {t : TypeTable} {fqn : String} (h : t.interface? fqn = none)
    (path names : List String) : t.waysUp path (fqn :: names) = t.waysUp path names := by
  rw [waysUp]
  split
  · rfl
  · simp_all

theorem waysUp_of_some {t : TypeTable} {fqn : String} {i : InterfaceDecl}
    (h : t.interface? fqn = some i) (path names : List String) :
    t.waysUp path (fqn :: names) =
      if fqn ∈ path then t.waysUp path names
      else t.waysUp (fqn :: path) i.interfaces ++ fqn :: t.waysUp path names := by
  rw [waysUp]
  split
  · simp_all
  · rename_i j hj
    rw [h] at hj
    cases hj
    rfl

def upward (t : TypeTable) (fqn : String) : List InterfaceDecl :=
  (t.waysUp [] [fqn]).eraseDups.filterMap t.interface?

theorem interface?_fqn {t : TypeTable} {fqn : String} {i : InterfaceDecl}
    (h : t.interface? fqn = some i) : t.interface? i.fqn = some i := by
  rw [fqn_of_interface? h, h]

theorem interface?_of_mem_basesFirst {t : TypeTable} {seen names : List String}
    {j : InterfaceDecl} (h : j ∈ t.basesFirst seen names) : t.interface? j.fqn = some j := by
  fun_induction basesFirst t seen names with
  | case1 => simp at h
  | case2 _ _ _ _ ih => exact ih h
  | case3 _ _ _ _ _ _ ih => exact ih h
  | case4 _ _ _ i hi _ _ ih₁ ih₂ =>
    rcases List.mem_append.1 h with h | h
    · exact ih₁ h
    · rcases List.mem_cons.1 h with rfl | h
      · exact interface?_fqn hi
      · exact ih₂ h

theorem notMem_of_mem_waysUp {t : TypeTable} {path names : List String} {n : String}
    (h : n ∈ t.waysUp path names) : n ∉ path := by
  fun_induction waysUp t path names with
  | case1 => simp at h
  | case2 _ _ _ _ ih => exact ih h
  | case3 _ _ _ _ _ _ ih => exact ih h
  | case4 path fqn names i hi hpath ih₁ ih₂ =>
    rcases List.mem_append.1 h with h | h
    · exact fun hn => ih₁ h (List.mem_cons_of_mem fqn hn)
    · rcases List.mem_cons.1 h with rfl | h
      · exact hpath
      · exact ih₂ h

/-- Beyond the names in `path`, every registered name that a name in `seen` extends is in `seen`
too. -/
def Settled (t : TypeTable) (path seen : List String) : Prop :=
  ∀ a ∈ seen, a ∉ path → ∀ b i, t.ExtendsLink a b → t.interface? b = some i → b ∈ seen

/-- The ways up from settled names meet settled names only. -/
theorem mem_of_mem_waysUp (t : TypeTable) (seen path names : List String)
    (settled : t.Settled path seen)
    (hnames : ∀ n ∈ names, ∀ i, t.interface? n = some i → n ∈ seen) :
    ∀ n ∈ t.waysUp path names, n ∈ seen := by
  fun_induction waysUp t path names with
  | case1 => simp
  | case2 path fqn names hnone ih =>
    exact ih settled fun n hn => hnames n (List.mem_cons_of_mem fqn hn)
  | case3 path fqn names i hi hpath ih =>
    exact ih settled fun n hn => hnames n (List.mem_cons_of_mem fqn hn)
  | case4 path fqn names i hi hpath ih₁ ih₂ =>
    have hfqn : fqn ∈ seen := hnames fqn List.mem_cons_self i hi
    intro n hn
    rcases List.mem_append.1 hn with hn | hn
    · refine ih₁ ?_ ?_ n hn
      · exact fun a ha hap => settled a ha fun h => hap (List.mem_cons_of_mem fqn h)
      · exact fun m hm j hj => settled fqn hfqn hpath m j ⟨i, hi, hm⟩ hj
    · rcases List.mem_cons.1 hn with rfl | hn
      · exact hfqn
      · exact ih₂ settled (fun m hm => hnames m (List.mem_cons_of_mem fqn hm)) n hn

def seenAfter (t : TypeTable) (seen names : List String) : List String :=
  (t.basesFirst seen names).map (·.fqn) ++ seen

theorem mem_seenAfter (t : TypeTable) (seen names : List String) :
    ∀ n ∈ names, ∀ i, t.interface? n = some i → n ∈ t.seenAfter seen names := by
  unfold seenAfter
  fun_induction basesFirst t seen names with
  | case1 => simp
  | case2 seen fqn names hnone ih =>
    intro n hn j hj
    rcases List.mem_cons.1 hn with rfl | hn
    · rw [hnone] at hj
      cases hj
    · exact ih n hn j hj
  | case3 seen fqn names i hi hseen ih =>
    intro n hn j hj
    rcases List.mem_cons.1 hn with rfl | hn
    · exact List.mem_append_right _ (fqn_of_interface? hi ▸ hseen)
    · exact ih n hn j hj
  | case4 seen fqn names i hi hseen bases ih₁ ih₂ =>
    intro n hn j hj
    rcases List.mem_cons.1 hn with rfl | hn
    · simp [fqn_of_interface? hi]
    · have h := ih₂ n hn j hj
      simp only [List.map_append, List.map_cons, List.mem_append, List.mem_cons] at h ⊢
      tauto

theorem Settled.enter {t : TypeTable} {path seen : List String} (settled : t.Settled path seen)
    (fqn : String) : t.Settled (fqn :: path) (fqn :: seen) := by
  intro a ha hap b j hab hj
  simp only [List.mem_cons, not_or] at ha hap
  exact List.mem_cons_of_mem _ (settled a (ha.resolve_left hap.1) hap.2 b j hab hj)

theorem Settled.leave {t : TypeTable} {path seen : List String} {fqn : String} {i : InterfaceDecl}
    (hi : t.interface? fqn = some i)
    (settled : t.Settled (fqn :: path) (t.seenAfter seen i.interfaces)) :
    t.Settled path (t.seenAfter seen i.interfaces) := by
  intro a ha hap b j hab hj
  by_cases hai : a = fqn
  · obtain ⟨i', hi', hb⟩ := hab
    rw [hai, hi] at hi'
    cases hi'
    exact mem_seenAfter t seen i.interfaces b hb j hj
  · exact settled a ha (by simp [hai, hap]) b j hab hj

/-- What a walk has seen stays settled: it visits all that a name extends before it goes on. -/
theorem settled_seenAfter (t : TypeTable) (path seen names : List String)
    (settled : t.Settled path seen) : t.Settled path (t.seenAfter seen names) := by
  unfold seenAfter
  fun_induction basesFirst t seen names generalizing path with
  | case1 => simpa using settled
  | case2 seen fqn names hnone ih => exact ih path settled
  | case3 seen fqn names i hi hseen ih => exact ih path settled
  | case4 seen fqn names i hi hseen bases ih₁ ih₂ =>
    have hinner : t.Settled (fqn :: path) (t.seenAfter (i.fqn :: seen) i.interfaces) :=
      ih₁ _ (fqn_of_interface? hi ▸ settled.enter i.fqn)
    have hrest := ih₂ path (hinner.leave hi)
    intro a ha hap b j hab hj
    simp only [List.map_append, List.map_cons, List.mem_append, List.mem_cons] at ha ⊢
    have h := hrest a (by simp only [List.mem_append, List.mem_cons]; tauto) hap b j hab hj
    simp only [List.mem_append, List.mem_cons] at h
    tauto

/-- First occurrences around a name that is new. -/
private theorem eraseDups_around (left right seen : List String) (n : String) (hleft : n ∉ left)
    (hseen : n ∉ seen) :
    ((left ++ n :: right).filter (· ∉ seen)).eraseDups =
      (left.filter (· ∉ n :: seen)).eraseDups ++
        n :: (right.filter
          (· ∉ (left.filter (· ∉ n :: seen)).eraseDups ++ n :: seen)).eraseDups := by
  have hkept : left.filter (· ∉ seen) = left.filter (· ∉ n :: seen) := by
    apply List.filter_congr
    intro m hm
    have hne : m ≠ n := fun h => hleft (h ▸ hm)
    simp [hne]
  rw [List.filter_append, List.filter_cons_of_pos (by simpa using hseen), hkept,
    List.eraseDups_append]
  congr 1
  rw [List.removeAll, List.filter_cons_of_pos (by simp), List.eraseDups_cons,
    List.filter_filter, List.filter_filter]
  congr 2
  apply List.filter_congr
  intro m hm
  by_cases hmn : m = n
  · simp [hmn]
  · by_cases hms : m ∈ seen
    · simp [hms]
    · simp [hmn, hms]

/-- A walk that skips what it has seen lists the first occurrences on the ways up, less what it
had seen before. -/
theorem map_basesFirst (t : TypeTable) (path seen names : List String)
    (hpath : ∀ a ∈ path, a ∈ seen) (settled : t.Settled path seen) :
    (t.basesFirst seen names).map (·.fqn) =
      ((t.waysUp path names).filter (· ∉ seen)).eraseDups := by
  fun_induction basesFirst t seen names generalizing path with
  | case1 => simp [waysUp]
  | case2 seen fqn names hnone ih => rw [ih path hpath settled, waysUp_of_none hnone]
  | case3 seen fqn names i hi hseen ih =>
    rw [fqn_of_interface? hi] at hseen
    rw [ih path hpath settled, waysUp_of_some hi]
    split
    · rfl
    · rename_i hfqn
      -- The unfolding goes through a settled name again, which adds nothing new.
      have hinner : ∀ n ∈ t.waysUp (fqn :: path) i.interfaces, n ∈ seen := by
        refine mem_of_mem_waysUp t seen (fqn :: path) i.interfaces ?_ ?_
        · exact fun a ha hap => settled a ha fun h => hap (List.mem_cons_of_mem fqn h)
        · exact fun m hm j hj => settled fqn hseen hfqn m j ⟨i, hi, hm⟩ hj
      have hnone : (t.waysUp (fqn :: path) i.interfaces).filter (· ∉ seen) = [] := by
        rw [List.filter_eq_nil_iff]
        intro n hn
        simpa using hinner n hn
      rw [List.filter_append, hnone, List.nil_append,
        List.filter_cons_of_neg (by simpa using hseen)]
  | case4 seen fqn names i hi hseen bases ih₁ ih₂ =>
    have hname : i.fqn = fqn := fqn_of_interface? hi
    subst hname
    have hfqn : i.fqn ∉ path := fun h => hseen (hpath i.fqn h)
    have henter : ∀ a ∈ i.fqn :: path, a ∈ i.fqn :: seen := by
      intro a ha
      rcases List.mem_cons.1 ha with rfl | ha
      · exact List.mem_cons_self
      · exact List.mem_cons_of_mem _ (hpath a ha)
    have hbases := ih₁ (i.fqn :: path) henter (settled.enter i.fqn)
    have hleave : t.Settled path (bases.map (·.fqn) ++ i.fqn :: seen) :=
      Settled.leave hi (settled_seenAfter t _ _ i.interfaces (settled.enter i.fqn))
    have hrest := ih₂ path
      (fun a ha => List.mem_append_right _ (List.mem_cons_of_mem _ (hpath a ha))) hleave
    have hnew : i.fqn ∉ t.waysUp (i.fqn :: path) i.interfaces :=
      fun h => notMem_of_mem_waysUp h List.mem_cons_self
    rw [List.map_append, List.map_cons, hrest, waysUp_of_some hi, if_neg hfqn,
      eraseDups_around _ _ _ _ hnew hseen, ← hbases]

/-- An interface and those above it are what a walk from its name visits. -/
theorem lineage_eq_basesFirst {t : TypeTable} {i : InterfaceDecl}
    (hi : t.interface? i.fqn = some i) : t.lineage i = t.basesFirst [] [i.fqn] := by
  have hend : ∀ seen, t.basesFirst seen [] = [] := fun seen => by rw [basesFirst]
  rw [basesFirst_unfold, hi, lineage]
  simp only [if_neg List.not_mem_nil, hend]

theorem interface?_of_mem_lineage {t : TypeTable} {i j : InterfaceDecl}
    (hi : t.interface? i.fqn = some i) (hj : j ∈ t.lineage i) : t.interface? j.fqn = some j := by
  rw [lineage_eq_basesFirst hi] at hj
  exact interface?_of_mem_basesFirst hj

theorem map_lineage {t : TypeTable} {i : InterfaceDecl} (hi : t.interface? i.fqn = some i) :
    (t.lineage i).map (·.fqn) = (t.waysUp [] [i.fqn]).eraseDups := by
  have hsettled : t.Settled [] [] := fun a ha => absurd ha List.not_mem_nil
  rw [lineage_eq_basesFirst hi, map_basesFirst t [] [] [i.fqn] (by simp) hsettled,
    List.filter_eq_self.2 (by simp)]

/-- The order in which an interface's declarations are laid over those it extends. -/
theorem lineage_eq_upward {t : TypeTable} {i : InterfaceDecl} (hi : t.interface? i.fqn = some i) :
    t.lineage i = t.upward i.fqn := by
  have hlookup : ∀ js : List InterfaceDecl, (∀ j ∈ js, t.interface? j.fqn = some j) →
      (js.map (·.fqn)).filterMap t.interface? = js := by
    intro js hjs
    induction js with
    | nil => rfl
    | cons j js ih =>
      rw [List.map_cons, List.filterMap_cons_some (hjs j List.mem_cons_self),
        ih fun k hk => hjs k (List.mem_cons_of_mem j hk)]
  rw [upward, ← map_lineage hi, hlookup _ fun j hj => interface?_of_mem_lineage hi hj]

end ResourceLint.TypeTable
