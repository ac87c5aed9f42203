import ResourceLint.Proofs.Agreement
import Mathlib.Data.List.Forall2

/-!
Tables whose classes differ at most in the properties of one name. What such tables say about the
properties of every other name is the same: which declarations are laid over each other, which
property another one overrides, and so which attribute tag reaches it.
-/

namespace ResourceLint

/-- Lists that agree beside one name agree on the item of any other name. -/
theorem find?_eq_of_filter_eq {α : Type} {name : α → String} {e n : String} (hn : n ≠ e)
    {xs ys : List α} (h : ys.filter (name · ≠ e) = xs.filter (name · ≠ e)) :
    ys.find? (name · = n) = xs.find? (name · = n) := by
  have hskip : ∀ zs : List α, zs.find? (name · = n) =
      (zs.filter (name · ≠ e)).find? (name · = n) := by
    intro zs
    rw [List.find?_filter]
    congr 1
    funext a
    by_cases ha : name a = n
    · simp [ha, hn]
    · simp [ha]
  rw [hskip ys, hskip xs, h]

structure ClassDecl.AlikeBeside (e : String) (c c' : ClassDecl) : Prop where
  fqn_eq : c'.fqn = c.fqn
  base_eq : c'.base = c.base
  properties_eq : c'.properties.filter (·.name ≠ e) = c.properties.filter (·.name ≠ e)

namespace ClassDecl.AlikeBeside

theorem refl (e : String) (c : ClassDecl) : AlikeBeside e c c := ⟨rfl, rfl, rfl⟩

theorem propertyMembers_eq {e : String} {c c' : ClassDecl} (h : AlikeBeside e c c') :
    c'.propertyMembers.filter (·.propertyName ≠ e) =
      c.propertyMembers.filter (·.propertyName ≠ e) := by
  have hmembers : ∀ d : ClassDecl, d.propertyMembers.filter (·.propertyName ≠ e) =
      (d.properties.filter (·.name ≠ e)).map (⟨d.fqn, ·⟩) := by
    intro d
    rw [propertyMembers, List.filter_map]
    rfl
  rw [hmembers c', hmembers c, h.properties_eq, h.fqn_eq]

theorem flatMap_propertyMembers_eq {e : String} {cs cs' : List ClassDecl}
    (h : List.Forall₂ (AlikeBeside e) cs cs') :
    (cs'.flatMap propertyMembers).filter (·.propertyName ≠ e) =
      (cs.flatMap propertyMembers).filter (·.propertyName ≠ e) := by
  induction h with
  | nil => rfl
  | cons hfirst _ ih =>
    rw [List.flatMap_cons, List.flatMap_cons, List.filter_append, List.filter_append, ih,
      hfirst.propertyMembers_eq]

end ClassDecl.AlikeBeside

namespace TypeTable

/-- The classes of the second table differ from those of the first at most in their properties
named `e`, and the interfaces not at all. -/
structure AlikeBeside (e : String) (t t' : TypeTable) : Prop where
  class_some : ∀ {n c}, t.class? n = some c → ∃ c', t'.class? n = some c' ∧ c.AlikeBeside e c'
  class_none : ∀ {n}, t.class? n = none → t'.class? n = none
  interface_eq : ∀ n, t'.interface? n = t.interface? n

namespace AlikeBeside

variable {e : String} {t t' : TypeTable} (h : AlikeBeside e t t')

include h

theorem base?_none {c c' : ClassDecl} (hc : c.AlikeBeside e c') (hbase : t.base? c = none) :
    t'.base? c' = none := by
  rw [base?, hc.base_eq]
  cases hb : c.base with
  | none => rfl
  | some n =>
    rw [base?, hb, Option.bind_some] at hbase
    exact h.class_none hbase

theorem base?_some {c c' b : ClassDecl} (hc : c.AlikeBeside e c') (hbase : t.base? c = some b) :
    ∃ b', t'.base? c' = some b' ∧ b.AlikeBeside e b' := by
  obtain ⟨n, hn, hclass⟩ := Option.bind_eq_some_iff.1 hbase
  obtain ⟨b', hclass', halike⟩ := h.class_some hclass
  refine ⟨b', ?_, halike⟩
  rw [base?, hc.base_eq, hn, Option.bind_some, hclass']

theorem ancestorsFrom_rel (seen : List String) {c c' : ClassDecl} (hc : c.AlikeBeside e c') :
    List.Forall₂ (ClassDecl.AlikeBeside e) (t.ancestorsFrom seen c) (t'.ancestorsFrom seen c') := by
  fun_induction ancestorsFrom t seen c generalizing c' with
  | case1 seen c hnone =>
    rw [ancestorsFrom_unfold t' seen c', h.base?_none hc hnone]
    exact .nil
  | case2 seen c b hb hseen =>
    obtain ⟨b', hb', halike⟩ := h.base?_some hc hb
    rw [ancestorsFrom_unfold t' seen c', hb']
    simp only [halike.fqn_eq, if_pos hseen]
    exact .nil
  | case3 seen c b hb hseen ih =>
    obtain ⟨b', hb', halike⟩ := h.base?_some hc hb
    rw [ancestorsFrom_unfold t' seen c', hb']
    simp only [halike.fqn_eq, if_neg hseen]
    exact .cons halike (ih halike)

theorem properties_eq {c c' : ClassDecl} (hc : c.AlikeBeside e c') :
    (t'.properties c').filter (·.propertyName ≠ e) =
      (t.properties c).filter (·.propertyName ≠ e) := by
  have hline : List.Forall₂ (ClassDecl.AlikeBeside e) (t.ancestors c) (t'.ancestors c') := by
    rw [ancestors, ancestors, hc.fqn_eq]
    exact h.ancestorsFrom_rel [c.fqn] hc
  have hchain : List.Forall₂ (ClassDecl.AlikeBeside e) (t.chain c) (t'.chain c') :=
    List.rel_append (List.forall₂_reverse_iff.2 hline) (.cons hc .nil)
  rw [properties, properties, filter_layered, filter_layered,
    ClassDecl.AlikeBeside.flatMap_propertyMembers_eq hchain]

/-- The type of a name shows the same property of any other name than `e`. -/
theorem propertyOf_eq {n : String} (hn : n ≠ e) (target : String) :
    (t'.propertiesOf? target).bind (List.find? (·.propertyName = n)) =
      (t.propertiesOf? target).bind (List.find? (·.propertyName = n)) := by
  unfold propertiesOf?
  cases hc : t.class? target with
  | some c =>
    obtain ⟨c', hc', halike⟩ := h.class_some hc
    rw [hc']
    exact find?_eq_of_filter_eq hn (h.properties_eq halike)
  | none =>
    rw [h.class_none hc, h.interface_eq target]
    cases hi : t.interface? target with
    | none => rfl
    | some i =>
      simp only [Option.map_some, interfaceProperties_congr h.interface_eq (interface?_fqn hi)]

theorem overridden?_eq {p : Member PropertyDecl} (hp : p.propertyName ≠ e) :
    t'.overridden? p = t.overridden? p := by
  unfold overridden?
  cases p.decl.overrides with
  | none => rfl
  | some target => exact h.propertyOf_eq hp target

/-- All of a chain of overrides has one name, so the same tag reaches its start. -/
theorem attributeTagFrom_eq (seen : List String) (p : Member PropertyDecl)
    (hp : p.propertyName ≠ e) : t'.attributeTagFrom seen p = t.attributeTagFrom seen p := by
  refine attributeTagFrom_congr (P := fun p => p.propertyName ≠ e) (fun _ => h.overridden?_eq)
    ?_ seen p hp
  intro p q hp hq hqe
  have hname : q.decl.name = p.decl.name := (overridden?_spec hq).2
  exact hp (hname.symm.trans hqe)

theorem taggedAttributes_eq {p : Member PropertyDecl} (hp : p.propertyName ≠ e) :
    t'.taggedAttributes p = t.taggedAttributes p := by
  rw [taggedAttributes, attributeTag?, h.attributeTagFrom_eq [] p hp]
  rfl

theorem baseLink_iff (a b : String) : t'.BaseLink a b ↔ t.BaseLink a b := by
  unfold BaseLink
  cases hc : t.class? a with
  | none => simp [h.class_none hc]
  | some c =>
    obtain ⟨c', hc', halike⟩ := h.class_some hc
    simp [hc', halike.base_eq]

theorem derives_iff (a b : String) : t'.Derives a b ↔ t.Derives a b := by
  have hlink : t'.BaseLink = t.BaseLink := by
    funext x y
    exact propext (h.baseLink_iff x y)
  rw [Derives, Derives, hlink]

theorem classExtends_eq {c c' : ClassDecl} (hc : t.class? c.fqn = some c)
    (hc' : t'.class? c'.fqn = some c') (hfqn : c'.fqn = c.fqn) (base : String) :
    t'.classExtends c' base = t.classExtends c base := by
  rw [Bool.eq_iff_iff, classExtends_iff_derives hc', classExtends_iff_derives hc, hfqn,
    h.derives_iff]

end AlikeBeside

end TypeTable

end ResourceLint
