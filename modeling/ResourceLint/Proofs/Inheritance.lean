import ResourceLint.Proofs.Remedy

/-!
What a class takes over from its base. The properties visible on the base are visible on the class
under the same names, and each is the same property or one that the class redeclares. Where the
redeclared ones are untagged and say that they override the base, their tags come down along the
chain of overrides, so that every attribute that is bound on the base is bound on the class.
-/

namespace ResourceLint.TypeTable

/-- A walk along bases that has not seen `b` goes on to it at most, where `b` leads back to a class
that was seen. -/
theorem exists_ancestorsFrom_eq_append {t : TypeTable} {a b : ClassDecl}
    (hb : t.class? b.fqn = some b) (hbase : t.base? b = some a) (seen seen' : List String)
    (c : ClassDecl) (ha : a.fqn ∈ seen) (hseen : ∀ n, n ∈ seen' ↔ n = b.fqn ∨ n ∈ seen) :
    ∃ back, (∀ d ∈ back, d = b) ∧
      t.ancestorsFrom seen c = t.ancestorsFrom seen' c ++ back := by
  fun_induction ancestorsFrom t seen c generalizing seen' with
  | case1 seen c hnone =>
    refine ⟨[], by simp, ?_⟩
    rw [ancestorsFrom_unfold, base?, hnone]
    rfl
  | case2 seen c d hd hmem =>
    refine ⟨[], by simp, ?_⟩
    have hmem' : d.fqn ∈ seen' := (hseen d.fqn).2 (Or.inr hmem)
    rw [ancestorsFrom_unfold, base?, hd]
    simp [hmem']
  | case3 seen c d hd hmem ih =>
    have hstep : t.ancestorsFrom seen' c =
        if d.fqn ∈ seen' then [] else d :: t.ancestorsFrom (d.fqn :: seen') d := by
      rw [ancestorsFrom_unfold, base?, hd]
    by_cases hdb : d.fqn = b.fqn
    · -- The walk has come to `b` itself, and from there it would go back.
      have heq : d = b := by
        have hclass := class?_of_base? hd
        rw [hdb, hb] at hclass
        exact (Option.some.inj hclass).symm
      subst heq
      have hend : t.ancestorsFrom (d.fqn :: seen) d = [] := by
        rw [ancestorsFrom_unfold, hbase]
        exact if_pos (List.mem_cons_of_mem _ ha)
      refine ⟨[d], by simp, ?_⟩
      rw [hstep, if_pos ((hseen d.fqn).2 (Or.inl rfl)), hend]
      rfl
    · have hmem' : d.fqn ∉ seen' := by
        rw [hseen]
        exact fun h => h.elim hdb hmem
      obtain ⟨back, hback, hrest⟩ := ih (d.fqn :: seen') (List.mem_cons_of_mem _ ha) (by
        intro n
        simp only [List.mem_cons, hseen]
        tauto)
      refine ⟨back, hback, ?_⟩
      rw [hstep, if_neg hmem', hrest, List.cons_append]

/-- A class stands after the line of its base. Only where bases run in a circle is it on that line
as well, and then it comes first. -/
theorem exists_chain_base {t : TypeTable} {a b : ClassDecl} (hb : t.class? b.fqn = some b)
    (hbase : t.base? b = some a) :
    ∃ back line, (∀ d ∈ back, d = b) ∧ t.chain a = back ++ line ∧ t.chain b = line ++ [b] := by
  by_cases hself : a.fqn = b.fqn
  · have heq : a = b := by
      have hclass := class?_of_base? hbase
      rw [hself, hb] at hclass
      exact (Option.some.inj hclass).symm
    subst heq
    have hnone : t.ancestors a = [] := by
      rw [ancestors, ancestorsFrom_unfold, hbase]
      exact if_pos List.mem_cons_self
    exact ⟨[a], [], by simp, by simp [chain, hnone], by simp [chain, hnone]⟩
  · have hancestors : t.ancestors b = a :: t.ancestorsFrom [a.fqn, b.fqn] a := by
      rw [ancestors, ancestorsFrom_unfold, hbase]
      exact if_neg (by simpa using hself)
    obtain ⟨back, hback, hline⟩ := exists_ancestorsFrom_eq_append hb hbase [a.fqn] [a.fqn, b.fqn] a
      List.mem_cons_self (by intro n; simp [or_comm])
    refine ⟨back.reverse, (t.ancestorsFrom [a.fqn, b.fqn] a).reverse ++ [a], ?_, ?_, ?_⟩
    · intro d hd
      exact hback d (List.mem_reverse.1 hd)
    · rw [chain, ancestors, hline]
      simp
    · rw [chain, hancestors]
      simp

/-- What is visible on the base is visible on the class, unless the class redeclares it. -/
theorem mem_properties_or_redeclared {t : TypeTable} {a b : ClassDecl}
    (hb : t.class? b.fqn = some b) (hbase : t.base? b = some a) {p : Member PropertyDecl}
    (hp : p ∈ t.properties a) :
    p ∈ t.properties b ∨
      ∃ d ∈ b.properties, d.name = p.decl.name ∧ ⟨b.fqn, d⟩ ∈ t.properties b := by
  obtain ⟨back, line, hback, hchain, hchain'⟩ := exists_chain_base hb hbase
  have hitems : (t.chain b).flatMap ClassDecl.propertyMembers =
      line.flatMap ClassDecl.propertyMembers ++ b.propertyMembers := by
    rw [hchain', List.flatMap_append, List.flatMap_singleton]
  have hlatest := (mem_layered_iff _ p).1 hp
  rw [hchain, List.flatMap_append, latest_append_iff] at hlatest
  by_cases hdeclared : ∃ m ∈ b.propertyMembers, m.propertyName = p.propertyName
  · obtain ⟨m, hm, hname⟩ := hdeclared
    obtain ⟨q, hq, hqname⟩ := exists_latest_of_mem Member.propertyName hm
    obtain ⟨d, hd, rfl⟩ := List.mem_map.1 hq.mem
    refine Or.inr ⟨d, hd, hqname.trans hname, (mem_layered_iff _ _).2 ?_⟩
    rw [hitems]
    exact (latest_append_iff _ _ _).2 (Or.inl hq)
  · have hfree : ∀ m ∈ b.propertyMembers, m.propertyName ≠ p.propertyName :=
      fun m hm hname => hdeclared ⟨m, hm, hname⟩
    refine Or.inl ((mem_layered_iff _ _).2 ?_)
    rw [hitems]
    rcases hlatest with hline | ⟨hfirst, -⟩
    · exact (latest_append_iff _ _ _).2 (Or.inr ⟨hline, hfree⟩)
    · obtain ⟨d, hd, hpd⟩ := List.mem_flatMap.1 hfirst.mem
      rw [hback d hd] at hpd
      exact absurd rfl (hfree p hpd)

theorem overridden?_of_visible {t : TypeTable} {a : ClassDecl} (ha : t.class? a.fqn = some a)
    {p q : Member PropertyDecl} (hp : p ∈ t.properties a) (hname : q.decl.name = p.decl.name)
    (hover : q.decl.overrides = some a.fqn) : t.overridden? q = some p := by
  have hfound : (t.properties a).find? (fun m => m.decl.name = q.decl.name) = some p :=
    (find?_layered_eq_some_iff _ q.decl.name p).2 ⟨(mem_layered_iff _ p).1 hp, hname.symm⟩
  have hprops : t.propertiesOf? a.fqn = some (t.properties a) := by rw [propertiesOf?, ha]
  unfold overridden?
  rw [hover, Option.bind_eq_bind, Option.bind_some, hprops]
  exact hfound

/-- An untagged property has the tag of the property it overrides. -/
theorem attributeTag?_eq_of_overridden? {t : TypeTable} (apart : t.NamesApart)
    {p q : Member PropertyDecl} (hp : t.Placed p) (hnone : p.decl.docs.tag? attributeTag = none)
    (hq : t.overridden? p = some q) : t.attributeTag? p = t.attributeTag? q := by
  have hover : t.Overrides p q := (overrides_iff t p q).2 hq
  apply Option.ext
  intro tag
  rw [attributeTag?_eq_some_iff apart hp, attributeTag?_eq_some_iff apart hover.placed,
    hover.inheritsTag_iff hnone]

/-- Where `b` redeclares a property that is visible on `a`, it gives it no attribute tag and says
that it overrides that of `a`. -/
def RedeclaresLinked (t : TypeTable) (a b : ClassDecl) : Prop :=
  ∀ d ∈ b.properties, (∃ p ∈ t.properties a, p.decl.name = d.name) →
    d.docs.tag? attributeTag = none ∧ d.overrides = some a.fqn

instance (t : TypeTable) (a b : ClassDecl) : Decidable (t.RedeclaresLinked a b) :=
  inferInstanceAs (Decidable (∀ d ∈ _, _ → _))

section Base

variable {t : TypeTable} (apart : t.NamesApart) {a b : ClassDecl} (hb : t.class? b.fqn = some b)
  (hbase : t.base? b = some a) (hlinked : t.RedeclaresLinked a b)

include apart hb hbase hlinked

/-- A property of the base stands on the class under its name and with the attributes that its tag
lists. -/
theorem exists_inherited {p : Member PropertyDecl} (hp : p ∈ t.properties a) :
    ∃ q ∈ t.properties b, q.decl.name = p.decl.name ∧
      t.taggedAttributes q = t.taggedAttributes p := by
  rcases mem_properties_or_redeclared hb hbase hp with hmem | ⟨d, hd, hname, hmem⟩
  · exact ⟨p, hmem, rfl, rfl⟩
  · obtain ⟨hnone, hover⟩ := hlinked d hd ⟨p, hp, hname.symm⟩
    have hplaced : t.Placed ⟨b.fqn, d⟩ := Visible.placed (Or.inl ⟨b, hb, hmem⟩)
    have hq : t.overridden? ⟨b.fqn, d⟩ = some p :=
      overridden?_of_visible (class?_of_base? hbase) hp hname hover
    refine ⟨⟨b.fqn, d⟩, hmem, hname, ?_⟩
    rw [taggedAttributes, taggedAttributes,
      attributeTag?_eq_of_overridden? apart hplaced hnone hq]

theorem exists_binding_of_base (s : SchemaEntry) {n : String}
    (hbound : ∃ x ∈ t.attributeBindings a s, x.name = n) :
    ∃ y ∈ t.attributeBindings b s, y.name = n := by
  rw [exists_binding_named_iff] at hbound ⊢
  obtain ⟨p, hp, hstands⟩ := hbound
  obtain ⟨q, hq, hname, htagged⟩ := exists_inherited apart hb hbase hlinked hp
  exact ⟨q, hq, by rwa [hname, htagged]⟩

end Base

/-- A class that redeclares properties of its base only with a link to the base, and without tags,
has every attribute that is bound on the base, by spelling or by tag, whether or not bases and
overrides run in circles. So no attribute is missing on the class that is not missing on the
base. -/
theorem attributeBindings_of_base (t : TypeTable) (apart : t.NamesApart) (a b : ClassDecl)
    (hb : t.class? b.fqn = some b) (ha : t.class? a.fqn = some a) (hbase : b.base = some a.fqn)
    (hlinked : t.RedeclaresLinked a b) (s : SchemaEntry) :
    (∀ x ∈ t.attributeBindings a s, ∃ y ∈ t.attributeBindings b s, y.name = x.name) ∧
      ∀ (f : Framework) (i j : Option InterfaceDecl), ∀ rule ∈ Conventions.all f,
        rule.code = "resource-attribute" →
          ∀ n, missingAttribute b s n ∈ rule.found (t.resourceAs f ⟨b, j⟩ s) →
            missingAttribute a s n ∈ rule.found (t.resourceAs f ⟨a, i⟩ s) := by
  have hclass : t.base? b = some a := by rw [base?, hbase, Option.bind_some, ha]
  refine ⟨?_, ?_⟩
  · intro x hx
    exact exists_binding_of_base apart hb hclass hlinked s ⟨x, hx, rfl⟩
  · intro f i j rule hrule hcode n hmissing
    obtain ⟨hn, hunbound⟩ := (missingAttribute_mem_found_iff hrule hcode n).1 hmissing
    refine (missingAttribute_mem_found_iff hrule hcode n).2 ⟨hn, ?_⟩
    exact fun hbound => hunbound (exists_binding_of_base apart hb hclass hlinked s hbound)

end ResourceLint.TypeTable

namespace ResourceLint.Sample

def trunk : ClassDecl where
  fqn := "n.Trunk"
  base := some "n.Bough"
  properties := [PropertyDecl.ofName "mark" |>.withTag "attribute" "Arn, Id", .ofName "name"]

def bough : ClassDecl where
  fqn := "n.Bough"
  base := some "n.Trunk"
  properties := [PropertyDecl.ofName "name" |>.overriding "n.Trunk",
    PropertyDecl.ofName "mark" |>.overriding "n.Trunk"]

def thicket : TypeTable where
  name := "n"
  classes := [trunk, bough]

theorem bough_covered :
    thicket.NamesApart ∧ thicket.class? "n.Bough" = some bough ∧
      thicket.class? "n.Trunk" = some trunk ∧ thicket.RedeclaresLinked trunk bough ∧
      (∃ y ∈ thicket.attributeBindings bough ⟨"Sheet", ["Name"]⟩, y.name = "Name") ∧
      ∃ y ∈ thicket.attributeBindings bough ⟨"Sheet", ["Name"]⟩, y.name = "Id" := by
  have apart : thicket.NamesApart := fun _ => Or.inr rfl
  have hlinked : thicket.RedeclaresLinked trunk bough := by decide +kernel
  have hcovered := (thicket.attributeBindings_of_base apart trunk bough rfl rfl rfl hlinked
    ⟨"Sheet", ["Name"]⟩).1
  have hbound : ∀ n ∈ ["Name", "Id"],
      ∃ x ∈ thicket.attributeBindings trunk ⟨"Sheet", ["Name"]⟩, x.name = n := by
    decide +kernel
  obtain ⟨x, hx, hname⟩ := hbound "Name" (by simp)
  obtain ⟨x', hx', hid⟩ := hbound "Id" (by simp)
  exact ⟨apart, rfl, rfl, hlinked, hname ▸ hcovered x hx, hid ▸ hcovered x' hx'⟩

end ResourceLint.Sample
