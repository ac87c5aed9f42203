import ResourceLint.Proofs.Reachability
import ResourceLint.TypeTable.Members
import Mathlib.Data.List.Chain

/-!
The ancestors of a class, by law: each is the registered base of the one before it, none comes
twice, and the line ends only where there is no base, an unregistered one, or one that came before.
These laws leave no choice. What a class derives from can be read off its line of ancestors.
-/

namespace ResourceLint.TypeTable

def base? (t : TypeTable) (c : ClassDecl) : Option ClassDecl := c.base.bind t.class?

theorem ancestorsFrom_unfold (t : TypeTable) (seen : List String) (c : ClassDecl) :
    t.ancestorsFrom seen c = match t.base? c with
      | none => []
      | some b => if b.fqn ∈ seen then [] else b :: t.ancestorsFrom (b.fqn :: seen) b := by
  rw [ancestorsFrom]
  split
  · rename_i hnone
    rw [base?, hnone]
  · rename_i b hb
    rw [base?, hb]

/-- The bases of `c` in order, as far as they are registered and new; the names in `seen` are not
new. -/
structure LineFrom (t : TypeTable) (seen : List String) (c : ClassDecl) (ds : List ClassDecl) :
    Prop where
  linked : List.IsChain (fun a b => t.base? a = some b) (c :: ds)
  distinct : (ds.map (·.fqn)).Nodup
  fresh : ∀ d ∈ ds, d.fqn ∉ seen
  full : ∀ b, t.base? ((c :: ds).getLast (by simp)) = some b →
    b.fqn ∈ seen ∨ b.fqn ∈ ds.map (·.fqn)

def Ancestry (t : TypeTable) (c : ClassDecl) (ds : List ClassDecl) : Prop :=
  t.LineFrom [c.fqn] c ds

theorem lineFrom_nil_iff (t : TypeTable) (seen : List String) (c : ClassDecl) :
    t.LineFrom seen c [] ↔ ∀ b, t.base? c = some b → b.fqn ∈ seen := by
  constructor
  · intro h b hb
    rcases h.full b hb with hb | hb
    · exact hb
    · exact absurd hb List.not_mem_nil
  · intro h
    exact ⟨.singleton c, by simp, by simp, fun b hb => Or.inl (h b hb)⟩

theorem lineFrom_cons_iff (t : TypeTable) (seen : List String) (c d : ClassDecl)
    (ds : List ClassDecl) :
    t.LineFrom seen c (d :: ds) ↔
      t.base? c = some d ∧ d.fqn ∉ seen ∧ t.LineFrom (d.fqn :: seen) d ds := by
  constructor
  · intro h
    obtain ⟨hbase, hlinked⟩ := List.isChain_cons_cons.1 h.linked
    obtain ⟨hd, hdistinct⟩ := List.nodup_cons.1 h.distinct
    refine ⟨hbase, h.fresh d List.mem_cons_self, hlinked, hdistinct, ?_, ?_⟩
    · intro e he hmem
      rcases List.mem_cons.1 hmem with heq | hmem
      · exact hd (List.mem_map.2 ⟨e, he, heq⟩)
      · exact h.fresh e (List.mem_cons_of_mem d he) hmem
    · intro b hb
      have hlast : t.base? ((c :: d :: ds).getLast (by simp)) = some b := by
        rw [List.getLast_cons (by simp), hb]
      rcases h.full b hlast with hb | hb
      · exact Or.inl (List.mem_cons_of_mem _ hb)
      · rcases List.mem_cons.1 hb with hb | hb
        · exact Or.inl (hb ▸ List.mem_cons_self)
        · exact Or.inr hb
  · intro hline
    obtain ⟨hbase, hd, h⟩ := hline
    refine ⟨List.isChain_cons_cons.2 ⟨hbase, h.linked⟩, ?_, ?_, ?_⟩
    · refine List.nodup_cons.2 ⟨?_, h.distinct⟩
      intro hmem
      obtain ⟨e, he, heq⟩ := List.mem_map.1 hmem
      exact h.fresh e he (heq ▸ List.mem_cons_self)
    · intro e he
      rcases List.mem_cons.1 he with rfl | he
      · exact hd
      · exact fun hmem => h.fresh e he (List.mem_cons_of_mem _ hmem)
    · intro b hb
      rw [List.getLast_cons (by simp)] at hb
      rcases h.full b hb with hb | hb
      · rcases List.mem_cons.1 hb with hb | hb
        · exact Or.inr (hb ▸ List.mem_cons_self)
        · exact Or.inl hb
      · exact Or.inr (List.mem_cons_of_mem _ hb)

/-- The walk along bases gives the one list that keeps the laws. -/
theorem lineFrom_iff (t : TypeTable) (seen : List String) (c : ClassDecl) (ds : List ClassDecl) :
    t.LineFrom seen c ds ↔ ds = t.ancestorsFrom seen c := by
  fun_induction ancestorsFrom t seen c generalizing ds with
  | case1 seen c hnone =>
    cases ds with
    | nil => simp [lineFrom_nil_iff, base?, hnone]
    | cons d ds => simp [lineFrom_cons_iff, base?, hnone]
  | case2 seen c b hb hseen =>
    cases ds with
    | nil => simp [lineFrom_nil_iff, base?, hb, hseen]
    | cons d ds =>
      simp only [lineFrom_cons_iff, base?, hb, Option.some.injEq, reduceCtorEq, iff_false]
      intro hline
      obtain ⟨rfl, hd, -⟩ := hline
      exact hd hseen
  | case3 seen c b hb hseen ih =>
    cases ds with
    | nil => simp [lineFrom_nil_iff, base?, hb, hseen]
    | cons d ds =>
      simp only [lineFrom_cons_iff, base?, hb, Option.some.injEq, List.cons.injEq]
      constructor
      · intro hline
        obtain ⟨rfl, -, h⟩ := hline
        exact ⟨rfl, (ih ds).1 h⟩
      · intro heq
        obtain ⟨rfl, h⟩ := heq
        exact ⟨rfl, hseen, (ih ds).2 h⟩

theorem ancestry_iff (t : TypeTable) (c : ClassDecl) (ds : List ClassDecl) :
    t.Ancestry c ds ↔ ds = t.ancestors c :=
  lineFrom_iff t [c.fqn] c ds

/-- Every ancestor stands in the table under its own name. -/
theorem class?_of_mem_ancestorsFrom {t : TypeTable} {seen : List String} {c d : ClassDecl}
    (h : d ∈ t.ancestorsFrom seen c) : t.class? d.fqn = some d := by
  fun_induction ancestorsFrom t seen c with
  | case1 => simp at h
  | case2 => simp at h
  | case3 seen c b hb _ ih =>
    obtain ⟨_, _, hb⟩ := Option.bind_eq_some_iff.1 hb
    rcases List.mem_cons.1 h with rfl | h
    · exact class?_fqn hb
    · exact ih h

theorem class?_of_mem_chain {t : TypeTable} {c d : ClassDecl} (hc : t.class? c.fqn = some c)
    (h : d ∈ t.chain c) : t.class? d.fqn = some d := by
  rcases List.mem_append.1 h with h | h
  · exact class?_of_mem_ancestorsFrom (List.mem_reverse.1 h)
  · exact List.mem_singleton.1 h ▸ hc

theorem class?_of_base? {t : TypeTable} {c b : ClassDecl} (h : t.base? c = some b) :
    t.class? b.fqn = some b := by
  obtain ⟨_, _, hb⟩ := Option.bind_eq_some_iff.1 h
  exact class?_fqn hb

theorem mem_classNames_of_base? {t : TypeTable} {c b : ClassDecl} (h : t.base? c = some b) :
    b.fqn ∈ t.classNames := mem_classNames_of_class? (class?_of_base? h)

theorem base_mem_of_mem_line (t : TypeTable) (seen : List String) (c : ClassDecl) :
    ∀ d ∈ c :: t.ancestorsFrom seen c, ∀ b, t.base? d = some b →
      b.fqn ∈ seen ∨ b.fqn ∈ (t.ancestorsFrom seen c).map (·.fqn) := by
  fun_induction ancestorsFrom t seen c with
  | case1 seen c hnone =>
    intro d hd b hb
    rw [List.mem_singleton.1 hd, base?, hnone] at hb
    cases hb
  | case2 seen c a ha hseen =>
    intro d hd b hb
    rw [List.mem_singleton.1 hd, base?, ha] at hb
    cases hb
    exact Or.inl hseen
  | case3 seen c a ha hseen ih =>
    intro d hd b hb
    rcases List.mem_cons.1 hd with rfl | hd
    · rw [base?, ha] at hb
      cases hb
      exact Or.inr List.mem_cons_self
    · have h := ih d hd b hb
      simp only [List.mem_cons, List.map_cons] at h ⊢
      tauto

/-- A class on the line of `c` and its ancestors is known by its name. -/
theorem mem_line_of_fqn_mem {t : TypeTable} {c d : ClassDecl} (hc : t.class? c.fqn = some c)
    (hd : t.class? d.fqn = some d) (hmem : d.fqn ∈ (c :: t.ancestors c).map (·.fqn)) :
    d ∈ c :: t.ancestors c := by
  obtain ⟨e, he, hfqn⟩ := List.mem_map.1 hmem
  have hclass : t.class? e.fqn = some e := by
    rcases List.mem_cons.1 he with rfl | he
    · exact hc
    · exact class?_of_mem_ancestorsFrom he
  rw [hfqn, hd] at hclass
  cases hclass
  exact he

/-- The line of `c` and its ancestors leads nowhere else. -/
theorem mem_line_of_base? {t : TypeTable} {c d b : ClassDecl} (hc : t.class? c.fqn = some c)
    (hd : d ∈ c :: t.ancestors c) (hb : t.base? d = some b) : b ∈ c :: t.ancestors c := by
  refine mem_line_of_fqn_mem hc (class?_of_base? hb) ?_
  rcases base_mem_of_mem_line t [c.fqn] c d hd b hb with h | h
  · exact List.mem_singleton.1 h ▸ List.mem_cons_self
  · exact List.mem_cons_of_mem _ h

theorem derives_of_mem_ancestorsFrom {t : TypeTable} {seen : List String} {c d : ClassDecl}
    (hc : t.class? c.fqn = some c) (h : d ∈ t.ancestorsFrom seen c) : t.Derives c.fqn d.fqn := by
  fun_induction ancestorsFrom t seen c with
  | case1 => simp at h
  | case2 => simp at h
  | case3 seen c b hb _ ih =>
    obtain ⟨next, hnext, hclass⟩ := Option.bind_eq_some_iff.1 hb
    have hlink : t.BaseLink c.fqn b.fqn := ⟨c, hc, fqn_of_class? hclass ▸ hnext⟩
    rcases List.mem_cons.1 h with rfl | h
    · exact .single hlink
    · exact .head hlink (ih (class?_of_base? hb) h)

/-- What can be reached from a class: its own name, and the bases that are named along its line. -/
theorem derives_iff_named_on_line {t : TypeTable} {c : ClassDecl} (hc : t.class? c.fqn = some c)
    (b : String) :
    t.Derives c.fqn b ↔ b = c.fqn ∨ ∃ d ∈ c :: t.ancestors c, d.base = some b := by
  constructor
  · intro hpath
    -- Along a path, the class that makes the next step is always on the line.
    induction hpath with
    | refl => exact Or.inl rfl
    | tail _ hlink ih =>
      obtain ⟨d, hd, hbase⟩ := hlink
      refine Or.inr ⟨d, ?_, hbase⟩
      rcases ih with rfl | ⟨e, he, hnamed⟩
      · rw [hc] at hd
        cases hd
        exact List.mem_cons_self
      · refine mem_line_of_base? hc he ?_
        rw [base?, hnamed, Option.bind_some, hd]
  · intro hnamed
    rcases hnamed with rfl | ⟨d, hd, hbase⟩
    · exact .refl
    · rcases List.mem_cons.1 hd with rfl | hd
      · exact .single ⟨d, hc, hbase⟩
      · have hlink : t.BaseLink d.fqn b := ⟨d, class?_of_mem_ancestorsFrom hd, hbase⟩
        exact (derives_of_mem_ancestorsFrom hc hd).tail hlink

/-- Both walks along bases tell the same. A registered class extends exactly the names that can be
reached from it, and these are its own and those named along the line of its ancestors; the line
keeps its laws, and extending is transitive. -/
theorem classExtends_agrees_with_ancestors (t : TypeTable) (c : ClassDecl)
    (hc : t.class? c.fqn = some c) :
    (∀ b, t.classExtends c b = true ↔ t.Derives c.fqn b) ∧
      (∀ b, t.Derives c.fqn b ↔ b = c.fqn ∨ ∃ d ∈ c :: t.ancestors c, d.base = some b) ∧
      (∀ ds, t.Ancestry c ds ↔ ds = t.ancestors c) ∧
      ∀ b d e, t.classExtends c b = true → t.class? b = some d → t.classExtends d e = true →
        t.classExtends c e = true := by
  refine ⟨classExtends_iff_derives hc, derives_iff_named_on_line hc, ancestry_iff t c, ?_⟩
  intro b d e hcb hd hde
  have hbase : t.Derives c.fqn b := (classExtends_iff_derives hc b).1 hcb
  have hrest : t.Derives b e := by
    have h := (classExtends_iff_derives (class?_fqn hd) e).1 hde
    rwa [fqn_of_class? hd] at h
  exact (classExtends_iff_derives hc e).2 (hbase.trans hrest)

end ResourceLint.TypeTable

namespace ResourceLint.Sample

def lasso : TypeTable where
  name := "n"
  classes :=
    [{ fqn := "n.A", base := some "n.B" }, { fqn := "n.B", base := some "n.C" },
      { fqn := "n.C", base := some "n.B" }, { fqn := "n.D", base := some "n.Gone" }]

/-- From below a circle of bases every class of the circle is reached, and the line of ancestors
ends where it would come back to one. -/
theorem lasso_reached :
    lasso.class? "n.A" = some { fqn := "n.A", base := some "n.B" } ∧
      lasso.classExtends { fqn := "n.A", base := some "n.B" } "n.C" = true ∧
      lasso.classExtends { fqn := "n.A", base := some "n.B" } "n.Gone" = false ∧
      lasso.ancestors { fqn := "n.A", base := some "n.B" } =
        [{ fqn := "n.B", base := some "n.C" }, { fqn := "n.C", base := some "n.B" }] := by
  have hc : lasso.class? "n.A" = some { fqn := "n.A", base := some "n.B" } := rfl
  obtain ⟨hreaches, hnamed, hline, htrans⟩ :=
    lasso.classExtends_agrees_with_ancestors { fqn := "n.A", base := some "n.B" } hc
  have hlaws : lasso.Ancestry { fqn := "n.A", base := some "n.B" }
      [{ fqn := "n.B", base := some "n.C" }, { fqn := "n.C", base := some "n.B" }] := by
    refine ⟨.cons_cons rfl (.cons_cons rfl (.singleton _)), by decide, by simp, ?_⟩
    intro b hb
    cases hb
    exact Or.inr List.mem_cons_self
  have hancestors := (hline _).1 hlaws
  have hfirst : lasso.classExtends { fqn := "n.A", base := some "n.B" } "n.B" = true :=
    (hreaches _).2 ((hnamed _).2 (Or.inr ⟨_, List.mem_cons_self, rfl⟩))
  refine ⟨hc, htrans "n.B" _ "n.C" hfirst rfl (by decide +kernel), ?_, hancestors.symm⟩
  rw [← Bool.not_eq_true, hreaches, hnamed, ← hancestors]
  decide

end ResourceLint.Sample
