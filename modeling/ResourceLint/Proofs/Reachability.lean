import ResourceLint.TypeTable.Ancestry
import ResourceLint.TypeTable.Extension
import Mathlib.Data.List.Chain
import Mathlib.Logic.Relation
import Mathlib.Tactic.ByContra
import Mathlib.Tactic.Tauto

/-!
Derivation and extension as reachability. A link goes from a registered type to a name that it
gives as its base; the walks decide whether a name can be reached along links, however the links
branch, meet, dangle or run in a circle.
-/

namespace ResourceLint.TypeTable

def BaseLink (t : TypeTable) (a b : String) : Prop :=
  ∃ c, t.class? a = some c ∧ c.base = some b

def ExtendsLink (t : TypeTable) (a b : String) : Prop :=
  ∃ i, t.interface? a = some i ∧ b ∈ i.interfaces

/-- The name `b` can be reached from `a` along named bases; it need not be registered. -/
def Derives (t : TypeTable) (a b : String) : Prop := Relation.ReflTransGen t.BaseLink a b

def Extends (t : TypeTable) (a b : String) : Prop := Relation.ReflTransGen t.ExtendsLink a b

/-- No path leaves a set of names that is closed under links. -/
private theorem not_reach_of_closed (link : String → String → Prop) (names : List String)
    (closed : ∀ a ∈ names, ∀ b, link a b → b ∈ names) (a b : String) (ha : a ∈ names)
    (hb : b ∉ names) : ¬ Relation.ReflTransGen link a b := by
  intro hpath
  have hmem : b ∈ names := by
    induction hpath with
    | refl => exact ha
    | tail _ hstep ih => exact closed _ (ih fun h => hb (closed _ h _ hstep)) _ hstep
  exact hb hmem

/-- The only link from a registered class goes to its base. -/
theorem baseLink_iff {t : TypeTable} {c : ClassDecl} (hc : t.class? c.fqn = some c) (b : String) :
    t.BaseLink c.fqn b ↔ c.base = some b := by
  constructor
  · intro hlink
    obtain ⟨d, hd, hbase⟩ := hlink
    rw [hc] at hd
    cases hd
    exact hbase
  · exact fun hbase => ⟨c, hc, hbase⟩

theorem class?_fqn {t : TypeTable} {fqn : String} {c : ClassDecl} (h : t.class? fqn = some c) :
    t.class? c.fqn = some c := by rw [fqn_of_class? h, h]

theorem class?_of_mem_ownClasses {t : TypeTable} {c : ClassDecl} (h : c ∈ t.ownClasses) :
    t.class? c.fqn = some c := by
  obtain ⟨_, _, hc⟩ := List.mem_filterMap.1 h
  exact class?_fqn hc

theorem derives_of_derivesFrom (t : TypeTable) (base : String) (seen : List String)
    (c : ClassDecl) (hc : t.class? c.fqn = some c) (h : t.derivesFrom base seen c = true) :
    t.Derives c.fqn base := by
  fun_induction derivesFrom t base seen c with
  | case1 seen c heq => exact heq ▸ .refl
  | case2 => simp at h
  | case3 => simp at h
  | case4 seen c hne hseen hnext => exact .single ((baseLink_iff hc base).2 hnext)
  | case5 => simp at h
  | case6 seen c hne hseen next hnext hnb b hb ih =>
    have hlink : t.BaseLink c.fqn b.fqn := (baseLink_iff hc _).2 (fqn_of_class? hb ▸ hnext)
    exact .head hlink (ih (class?_fqn hb) h)

/-- A walk that says no has met only names from which `base` cannot be reached. The walk knows
where every class it has seen leads: to another one it has seen, or to where it stands. -/
theorem not_derives_of_derivesFrom (t : TypeTable) (base : String) (seen : List String)
    (c : ClassDecl) (hc : t.class? c.fqn = some c)
    (inv : ∀ a ∈ seen, a ≠ base ∧ ∀ b, t.BaseLink a b → b ∈ c.fqn :: seen)
    (h : t.derivesFrom base seen c = false) : ¬ t.Derives c.fqn base := by
  intro hpath
  fun_induction derivesFrom t base seen c with
  | case1 => simp at h
  | case2 seen c hne hseen =>
    -- The walk is back at a class it has seen, so the seen classes are closed under links.
    refine not_reach_of_closed t.BaseLink seen ?_ c.fqn base hseen (fun hb => (inv base hb).1 rfl)
      hpath
    intro a ha b hab
    rcases List.mem_cons.1 ((inv a ha).2 b hab) with rfl | hb
    · exact hseen
    · exact hb
  | case3 seen c hne hseen hnone =>
    rcases Relation.ReflTransGen.cases_head hpath with heq | ⟨b, hlink, -⟩
    · exact hne heq
    · rw [baseLink_iff hc, hnone] at hlink
      cases hlink
  | case4 => simp at h
  | case5 seen c hne hseen next hnext hnb hmissing =>
    rcases Relation.ReflTransGen.cases_head hpath with heq | ⟨b, hlink, hrest⟩
    · exact hne heq
    · rw [baseLink_iff hc, hnext] at hlink
      cases hlink
      rcases Relation.ReflTransGen.cases_head hrest with heq | ⟨_, ⟨d, hd, -⟩, -⟩
      · exact hnb heq
      · rw [hmissing] at hd
        cases hd
  | case6 seen c hne hseen next hnext hnb b hb ih =>
    have hfqn : b.fqn = next := fqn_of_class? hb
    rcases Relation.ReflTransGen.cases_head hpath with heq | ⟨b', hlink, hrest⟩
    · exact hne heq
    · rw [baseLink_iff hc, hnext] at hlink
      cases hlink
      refine ih (class?_fqn hb) ?_ h (hfqn ▸ hrest)
      intro a ha
      rcases List.mem_cons.1 ha with rfl | ha
      · refine ⟨hne, fun b' hab => ?_⟩
        rw [baseLink_iff hc, hnext] at hab
        cases hab
        rw [hfqn]
        exact List.mem_cons_self
      · exact ⟨(inv a ha).1, fun b' hab => List.mem_cons_of_mem _ ((inv a ha).2 b' hab)⟩

/-- For a registered class, the walk decides reachability along named bases. -/
theorem classExtends_iff_derives {t : TypeTable} {c : ClassDecl} (hc : t.class? c.fqn = some c)
    (base : String) : t.classExtends c base = true ↔ t.Derives c.fqn base := by
  constructor
  · exact derives_of_derivesFrom t base [] c hc
  · intro hpath
    by_contra hno
    exact not_derives_of_derivesFrom t base [] c hc (by simp) (eq_false_of_ne_true hno)
      hpath

/-- From an unregistered name only itself can be reached. -/
theorem derives_iff_eq_of_class?_eq_none {t : TypeTable} {a : String} (h : t.class? a = none)
    (b : String) : t.Derives a b ↔ a = b := by
  constructor
  · intro hpath
    rcases Relation.ReflTransGen.cases_head hpath with heq | ⟨_, ⟨c, hc, -⟩, -⟩
    · exact heq
    · rw [h] at hc
      cases hc
  · intro heq
    subst heq
    exact .refl

instance (t : TypeTable) (a b : String) : Decidable (t.Derives a b) :=
  match h : t.class? a with
  | some c =>
    decidable_of_iff (t.classExtends c b = true)
      (by rw [classExtends_iff_derives (class?_fqn h), fqn_of_class? h])
  | none => decidable_of_iff (a = b) (derives_iff_eq_of_class?_eq_none h b).symm

theorem extends_of_reachesInterface (t : TypeTable) (base : String) (seen pending : List String)
    (h : t.reachesInterface base seen pending = true) : ∃ a ∈ pending, t.Extends a base := by
  fun_induction reachesInterface t base seen pending with
  | case1 => simp at h
  | case2 seen pending => exact ⟨base, List.mem_cons_self, .refl⟩
  | case3 seen fqn pending hne hseen ih =>
    obtain ⟨a, ha, hpath⟩ := ih h
    exact ⟨a, List.mem_cons_of_mem _ ha, hpath⟩
  | case4 seen fqn pending hne hseen hnone ih =>
    obtain ⟨a, ha, hpath⟩ := ih h
    exact ⟨a, List.mem_cons_of_mem _ ha, hpath⟩
  | case5 seen fqn pending hne hseen i hi ih =>
    obtain ⟨a, ha, hpath⟩ := ih h
    rcases List.mem_append.1 ha with ha | ha
    · exact ⟨fqn, List.mem_cons_self, .head ⟨i, hi, ha⟩ hpath⟩
    · exact ⟨a, List.mem_cons_of_mem _ ha, hpath⟩

/-- A walk that says no has met only names from which `base` cannot be reached: links lead from
the seen names to names that are seen or pending. -/
theorem not_extends_of_reachesInterface (t : TypeTable) (base : String)
    (seen pending : List String)
    (inv : ∀ a ∈ seen, a ≠ base ∧ ∀ b, t.ExtendsLink a b → b ∈ seen ∨ b ∈ pending)
    (h : t.reachesInterface base seen pending = false) :
    ∀ a, a ∈ seen ∨ a ∈ pending → ¬ t.Extends a base := by
  fun_induction reachesInterface t base seen pending with
  | case1 seen =>
    intro a ha
    have hseen : a ∈ seen := ha.resolve_right List.not_mem_nil
    refine not_reach_of_closed t.ExtendsLink seen ?_ a base hseen fun hb => (inv base hb).1 rfl
    intro a' ha' b hab
    exact ((inv a' ha').2 b hab).resolve_right List.not_mem_nil
  | case2 => simp at h
  | case3 seen fqn pending hne hseen ih =>
    have hmove : ∀ a, a ∈ seen ∨ a ∈ fqn :: pending → a ∈ seen ∨ a ∈ pending := by
      intro a ha
      rcases ha with ha | ha
      · exact Or.inl ha
      · rcases List.mem_cons.1 ha with rfl | ha
        · exact Or.inl hseen
        · exact Or.inr ha
    intro a ha
    refine ih ?_ h a (hmove a ha)
    intro a' ha'
    exact ⟨(inv a' ha').1, fun b hab => hmove b ((inv a' ha').2 b hab)⟩
  | case4 seen fqn pending hne hseen hnone ih =>
    have hmove : ∀ a, a ∈ seen ∨ a ∈ fqn :: pending → a ∈ fqn :: seen ∨ a ∈ pending := by
      simp only [List.mem_cons]
      tauto
    intro a ha
    refine ih ?_ h a (hmove a ha)
    intro a' ha'
    rcases List.mem_cons.1 ha' with rfl | ha'
    · refine ⟨hne, ?_⟩
      intro b hlink
      obtain ⟨i, hi, -⟩ := hlink
      rw [hnone] at hi
      cases hi
    · exact ⟨(inv a' ha').1, fun b hab => hmove b ((inv a' ha').2 b hab)⟩
  | case5 seen fqn pending hne hseen i hi ih =>
    have hmove : ∀ a, a ∈ seen ∨ a ∈ fqn :: pending →
        a ∈ fqn :: seen ∨ a ∈ i.interfaces ++ pending := by
      simp only [List.mem_cons, List.mem_append]
      tauto
    intro a ha
    refine ih ?_ h a (hmove a ha)
    intro a' ha'
    rcases List.mem_cons.1 ha' with rfl | ha'
    · refine ⟨hne, ?_⟩
      intro b hlink
      obtain ⟨j, hj, hb⟩ := hlink
      rw [hi] at hj
      cases hj
      exact Or.inr (List.mem_append_left _ hb)
    · exact ⟨(inv a' ha').1, fun b hab => hmove b ((inv a' ha').2 b hab)⟩

/-- The walk over interfaces decides reachability along extended interfaces. -/
theorem reachesInterface_iff_extends (t : TypeTable) (a base : String) :
    t.reachesInterface base [] [a] = true ↔ t.Extends a base := by
  constructor
  · intro h
    obtain ⟨a', ha', hpath⟩ := extends_of_reachesInterface t base [] [a] h
    exact List.mem_singleton.1 ha' ▸ hpath
  · intro hpath
    by_contra hno
    exact not_extends_of_reachesInterface t base [] [a] (by simp)
      (eq_false_of_ne_true hno) a (Or.inr List.mem_cons_self) hpath

theorem interfaceExtends_iff_extends (t : TypeTable) (i : InterfaceDecl) (base : String) :
    t.interfaceExtends i base = true ↔ t.Extends i.fqn base :=
  reachesInterface_iff_extends t i.fqn base

instance (t : TypeTable) (a b : String) : Decidable (t.Extends a b) :=
  decidable_of_iff _ (reachesInterface_iff_extends t a b)

/-- The names of `path` lead from `a` to `b`: each but the last is that of a registered interface,
which lists the next name among those it extends. -/
structure ExtendsPath (t : TypeTable) (a b : String) (path : List String) : Prop where
  starts : path.head? = some a
  ends : path.getLast? = some b
  linked : path.IsChain t.ExtendsLink

theorem extends_iff_exists_path (t : TypeTable) (a b : String) :
    t.Extends a b ↔ ∃ path, t.ExtendsPath a b path := by
  constructor
  · intro hreach
    obtain ⟨rest, hlinked, hlast⟩ := List.exists_isChain_cons_of_relationReflTransGen hreach
    refine ⟨a :: rest, rfl, ?_, hlinked⟩
    rw [List.getLast?_eq_some_getLast (List.cons_ne_nil a rest), hlast]
  · rintro ⟨path, hstarts, hends, hlinked⟩
    cases path with
    | nil => cases hstarts
    | cons n rest =>
      cases hstarts
      have hlast : (a :: rest).getLast (List.cons_ne_nil a rest) = b := by
        rw [List.getLast?_eq_some_getLast (List.cons_ne_nil a rest)] at hends
        exact Option.some.inj hends
      exact List.relationReflTransGen_of_exists_isChain_cons rest hlinked hlast

/-- An interface extends exactly the names to which a path leads from its own. The last name of the
path may be unregistered, and the links may branch, meet again, repeat, dangle or run in a
circle. -/
theorem interfaceExtends_iff_exists_path (t : TypeTable) (i : InterfaceDecl) (b : String) :
    t.interfaceExtends i b = true ↔ ∃ path, t.ExtendsPath i.fqn b path := by
  rw [interfaceExtends_iff_extends, extends_iff_exists_path]

end ResourceLint.TypeTable
