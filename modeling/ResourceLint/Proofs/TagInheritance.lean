import ResourceLint.Proofs.Ancestry
import ResourceLint.Proofs.Unfolding
import ResourceLint.Resource.Attribute

/-!
The attribute tag of a property, by law: its own, or else that of the property it overrides, and so
on along the whole chain of overrides. A walk that stops where the chain comes back to a type misses
no tag as long as no name stands for a class and an interface both.
-/

namespace ResourceLint.TypeTable

def NamesApart (t : TypeTable) : Prop :=
  ∀ fqn, t.class? fqn = none ∨ t.interface? fqn = none

/-- The property declarations of the type named `fqn`, after those of the types above it. A name
that stands for a class is not looked up as an interface. -/
inductive Declarations (t : TypeTable) (fqn : String) : List (Member PropertyDecl) → Prop
  | ofClass {c : ClassDecl} {ds : List ClassDecl} (hc : t.class? fqn = some c)
      (hds : t.Ancestry c ds) :
      Declarations t fqn ((ds.reverse ++ [c]).flatMap ClassDecl.propertyMembers)
  | ofInterface (hnone : t.class? fqn = none) :
      Declarations t fqn ((t.upward fqn).flatMap InterfaceDecl.propertyMembers)

def Overrides (t : TypeTable) (p q : Member PropertyDecl) : Prop :=
  ∃ fqn items, p.decl.overrides = some fqn ∧ t.Declarations fqn items ∧
    Latest Member.propertyName items q ∧ q.propertyName = p.propertyName

inductive InheritsTag (t : TypeTable) : Member PropertyDecl → String → Prop
  | own {p : Member PropertyDecl} {tag : String} (h : p.decl.docs.tag? attributeTag = some tag) :
      InheritsTag t p tag
  | inherited {p q : Member PropertyDecl} {tag : String}
      (h : p.decl.docs.tag? attributeTag = none) (hq : t.Overrides p q)
      (hrest : InheritsTag t q tag) : InheritsTag t p tag

theorem upward_eq_nil {t : TypeTable} {fqn : String} (h : t.interface? fqn = none) :
    t.upward fqn = [] := by
  rw [upward, waysUp_of_none h, waysUp]
  rfl

theorem declarations_iff (t : TypeTable) (fqn : String) (items : List (Member PropertyDecl)) :
    t.Declarations fqn items ↔ items = match t.class? fqn with
      | some c => (t.chain c).flatMap ClassDecl.propertyMembers
      | none => (t.upward fqn).flatMap InterfaceDecl.propertyMembers := by
  constructor
  · intro hitems
    rcases hitems with ⟨hc, hds⟩ | ⟨hnone⟩
    · rw [(ancestry_iff t _ _).1 hds, hc]
      rfl
    · rw [hnone]
  · intro heq
    subst heq
    split
    · rename_i c hc
      exact .ofClass hc ((ancestry_iff t c _).2 rfl)
    · rename_i hnone
      exact .ofInterface hnone

/-- The visible properties of a type are its declarations laid over those above it. -/
theorem propertiesOf?_getD (t : TypeTable) (fqn : String) (items : List (Member PropertyDecl))
    (h : t.Declarations fqn items) :
    (t.propertiesOf? fqn).getD [] = layered Member.propertyName items := by
  rw [(declarations_iff t fqn items).1 h, propertiesOf?]
  cases hc : t.class? fqn with
  | some c => rfl
  | none =>
    cases hi : t.interface? fqn with
    | none => simp [upward_eq_nil hi, layered]
    | some i =>
      have hfqn : i.fqn = fqn := fqn_of_interface? hi
      rw [Option.map_some, Option.getD_some, interfaceProperties,
        lineage_eq_upward (interface?_fqn hi), hfqn]

theorem overrides_iff (t : TypeTable) (p q : Member PropertyDecl) :
    t.Overrides p q ↔ t.overridden? p = some q := by
  have hlookup : ∀ fqn items, t.Declarations fqn items →
      (((t.propertiesOf? fqn).bind fun ps => ps.find? (·.decl.name = p.decl.name)) = some q ↔
        Latest Member.propertyName items q ∧ q.propertyName = p.propertyName) := by
    intro fqn items hitems
    rw [← find?_layered_eq_some_iff, ← propertiesOf?_getD t fqn items hitems]
    cases t.propertiesOf? fqn <;> rfl
  unfold overridden?
  cases hover : p.decl.overrides with
  | none => simp [Overrides, hover]
  | some fqn =>
    obtain ⟨items, hitems⟩ : ∃ items, t.Declarations fqn items :=
      ⟨_, (declarations_iff t fqn _).2 rfl⟩
    constructor
    · intro hover'
      obtain ⟨fqn', items', heq, hitems', h⟩ := hover'
      rw [hover] at heq
      cases heq
      exact (hlookup fqn items' hitems').2 h
    · intro h
      exact ⟨fqn, items, hover, hitems, (hlookup fqn items hitems).1 h⟩

/-- The property stands in the table as the last declaration of its name on its owner. -/
def Placed (t : TypeTable) (p : Member PropertyDecl) : Prop :=
  (∃ c, t.class? p.owner = some c ∧ Latest Member.propertyName c.propertyMembers p) ∨
    ∃ i, t.interface? p.owner = some i ∧ Latest Member.propertyName i.propertyMembers p

theorem Placed.unique {t : TypeTable} (apart : t.NamesApart) {p q : Member PropertyDecl}
    (hp : t.Placed p) (hq : t.Placed q) (howner : p.owner = q.owner)
    (hname : p.propertyName = q.propertyName) : p = q := by
  rcases hp with ⟨c, hc, hp⟩ | ⟨i, hi, hp⟩
  · rcases hq with ⟨d, hd, hq⟩ | ⟨i, hi, hq⟩
    · rw [← howner, hc] at hd
      cases hd
      exact hp.unique hq hname
    · rw [howner] at hc
      rcases apart q.owner with h | h
      · rw [h] at hc
        cases hc
      · rw [h] at hi
        cases hi
  · rcases hq with ⟨c, hc, hq⟩ | ⟨j, hj, hq⟩
    · rw [howner] at hi
      rcases apart q.owner with h | h
      · rw [h] at hc
        cases hc
      · rw [h] at hi
        cases hi
    · rw [← howner, hi] at hj
      cases hj
      exact hp.unique hq hname

theorem placed_of_latest_chain {t : TypeTable} {c : ClassDecl} (hc : t.class? c.fqn = some c)
    {p : Member PropertyDecl}
    (h : Latest Member.propertyName ((t.chain c).flatMap ClassDecl.propertyMembers) p) :
    t.Placed p := by
  obtain ⟨before, d, after, hchain, hlatest, -⟩ := (latest_flatMap_iff _ _ p).1 h
  have hd : d ∈ t.chain c := by simp [hchain]
  obtain ⟨_, _, rfl⟩ := List.mem_map.1 hlatest.mem
  exact Or.inl ⟨d, class?_of_mem_chain hc hd, hlatest⟩

theorem placed_of_latest_upward {t : TypeTable} {fqn : String} {p : Member PropertyDecl}
    (h : Latest Member.propertyName ((t.upward fqn).flatMap InterfaceDecl.propertyMembers) p) :
    t.Placed p := by
  obtain ⟨before, i, after, hupward, hlatest, -⟩ := (latest_flatMap_iff _ _ p).1 h
  have hi : i ∈ t.upward fqn := by simp [hupward]
  obtain ⟨n, -, hn⟩ := List.mem_filterMap.1 hi
  obtain ⟨_, _, rfl⟩ := List.mem_map.1 hlatest.mem
  exact Or.inr ⟨i, interface?_fqn hn, hlatest⟩

theorem Overrides.placed {t : TypeTable} {p q : Member PropertyDecl} (h : t.Overrides p q) :
    t.Placed q := by
  obtain ⟨fqn, items, -, hitems, hlatest, -⟩ := h
  cases hitems with
  | ofClass hc hds =>
    rw [(ancestry_iff t _ _).1 hds] at hlatest
    exact placed_of_latest_chain (class?_fqn hc) hlatest
  | ofInterface hnone => exact placed_of_latest_upward hlatest

theorem Overrides.unique {t : TypeTable} {p q q' : Member PropertyDecl} (h : t.Overrides p q)
    (h' : t.Overrides p q') : q = q' := by
  rw [overrides_iff] at h h'
  exact Option.some.inj (h.symm.trans h')

theorem InheritsTag.unique {t : TypeTable} {p : Member PropertyDecl} {tag tag' : String}
    (h : t.InheritsTag p tag) (h' : t.InheritsTag p tag') : tag = tag' := by
  induction h with
  | own htag =>
    cases h' with
    | own htag' => exact Option.some.inj (htag.symm.trans htag')
    | inherited hnone _ _ =>
      rw [htag] at hnone
      cases hnone
  | inherited hnone hq _ ih =>
    cases h' with
    | own htag' =>
      rw [hnone] at htag'
      cases htag'
    | inherited _ hq' hrest' => exact ih (hq.unique hq' ▸ hrest')

/-- What reaches an untagged property is what reaches the one it overrides. -/
theorem Overrides.inheritsTag_iff {t : TypeTable} {p q : Member PropertyDecl}
    (hq : t.Overrides p q) (hnone : p.decl.docs.tag? attributeTag = none) (tag : String) :
    t.InheritsTag p tag ↔ t.InheritsTag q tag := by
  constructor
  · intro h
    cases h with
    | own htag =>
      rw [hnone] at htag
      cases htag
    | inherited _ hq' hrest => exact hq.unique hq' ▸ hrest
  · exact .inherited hnone hq

theorem attributeTagFrom_unfold (t : TypeTable) (seen : List String) (p : Member PropertyDecl) :
    t.attributeTagFrom seen p = match p.decl.docs.tag? attributeTag with
      | some tag => some tag
      | none =>
        if p.owner ∈ seen then none
        else (t.overridden? p).bind (t.attributeTagFrom (p.owner :: seen)) := by
  rw [attributeTagFrom]
  cases p.decl.docs.tag? attributeTag with
  | some tag => rfl
  | none =>
    dsimp only
    split
    · rfl
    · split
      · rename_i hnone
        rw [hnone, Option.bind_none]
      · rename_i q hq
        rw [hq, Option.bind_some]

theorem inheritsTag_of_attributeTagFrom (t : TypeTable) (seen : List String)
    (p : Member PropertyDecl) (tag : String) (h : t.attributeTagFrom seen p = some tag) :
    t.InheritsTag p tag := by
  fun_induction attributeTagFrom t seen p with
  | case1 seen p tag' htag =>
    cases h
    exact .own htag
  | case2 => cases h
  | case3 => cases h
  | case4 seen p htag hseen q hq ih =>
    exact .inherited htag ((overrides_iff t p q).2 hq) (ih h)

/-- No tag reaches a property whose chain of overrides stays among untagged properties. -/
private theorem not_inheritsTag_of_closed (t : TypeTable) (ms : List (Member PropertyDecl))
    (untagged : ∀ m ∈ ms, m.decl.docs.tag? attributeTag = none)
    (closed : ∀ m ∈ ms, ∀ q, t.Overrides m q → q ∈ ms) (p : Member PropertyDecl) (hp : p ∈ ms)
    (tag : String) : ¬ t.InheritsTag p tag := by
  intro h
  induction h with
  | own htag =>
    rw [untagged _ hp] at htag
    cases htag
  | inherited _ hq _ ih => exact ih (closed _ hp _ hq)

/-- A walk that finds no tag has passed only untagged properties, the `ms`, and its chain comes
back to one of them or ends. -/
theorem not_inheritsTag_of_attributeTagFrom (t : TypeTable) (apart : t.NamesApart)
    (ms : List (Member PropertyDecl)) (p : Member PropertyDecl) (hp : t.Placed p)
    (hms : ∀ m ∈ ms, t.Placed m ∧ m.propertyName = p.propertyName)
    (untagged : ∀ m ∈ ms, m.decl.docs.tag? attributeTag = none)
    (closed : ∀ m ∈ ms, ∀ q, t.Overrides m q → q ∈ p :: ms)
    (h : t.attributeTagFrom (ms.map (·.owner)) p = none) (tag : String) :
    ¬ t.InheritsTag p tag := by
  intro htag
  generalize hseen : ms.map (·.owner) = seen at h
  fun_induction attributeTagFrom t seen p generalizing ms with
  | case1 => cases h
  | case2 seen p hnone hmem =>
    subst hseen
    obtain ⟨m, hm, howner⟩ := List.mem_map.1 hmem
    have heq : m = p := (hms m hm).1.unique apart hp howner (hms m hm).2
    subst heq
    refine not_inheritsTag_of_closed t ms untagged ?_ m hm tag htag
    intro m' hm' q hq
    rcases List.mem_cons.1 (closed m' hm' q hq) with rfl | hmem
    · exact hm
    · exact hmem
  | case3 seen p hnone hmem hend =>
    cases htag with
    | own htag =>
      rw [hnone] at htag
      cases htag
    | inherited _ hq _ =>
      rw [overrides_iff, hend] at hq
      cases hq
  | case4 seen p hnone hmem q hq ih =>
    have hover : t.Overrides p q := (overrides_iff t p q).2 hq
    have hname : q.propertyName = p.propertyName := by
      obtain ⟨_, _, _, _, _, hname⟩ := hover
      exact hname
    have hrest : t.InheritsTag q tag := (hover.inheritsTag_iff hnone tag).1 htag
    refine ih (p :: ms) hover.placed ?_ ?_ ?_ hrest (by simp [hseen]) h
    · intro m hm
      rcases List.mem_cons.1 hm with rfl | hm
      · exact ⟨hp, hname.symm⟩
      · exact ⟨(hms m hm).1, (hms m hm).2.trans hname.symm⟩
    · intro m hm
      rcases List.mem_cons.1 hm with rfl | hm
      · exact hnone
      · exact untagged m hm
    · intro m hm q' hq'
      rcases List.mem_cons.1 hm with rfl | hm
      · rw [overrides_iff, hq] at hq'
        cases hq'
        exact List.mem_cons_self
      · exact List.mem_cons_of_mem _ (closed m hm q' hq')

/-- Along the whole chain of overrides, the walk finds the tag that reaches a property. -/
theorem attributeTag?_eq_some_iff {t : TypeTable} (apart : t.NamesApart) {p : Member PropertyDecl}
    (hp : t.Placed p) (tag : String) : t.attributeTag? p = some tag ↔ t.InheritsTag p tag := by
  constructor
  · exact inheritsTag_of_attributeTagFrom t [] p tag
  · intro h
    cases hwalk : t.attributeTag? p with
    | none =>
      exact absurd h (not_inheritsTag_of_attributeTagFrom t apart [] p hp (by simp) (by simp)
        (by simp) hwalk tag)
    | some tag' =>
      rw [(inheritsTag_of_attributeTagFrom t [] p tag' hwalk).unique h]

def Visible (t : TypeTable) (p : Member PropertyDecl) : Prop :=
  (∃ c, t.class? c.fqn = some c ∧ p ∈ t.properties c) ∨
    ∃ i, t.interface? i.fqn = some i ∧ p ∈ t.interfaceProperties i

def overrideAt (t : TypeTable) (p : Member PropertyDecl) : Nat → Option (Member PropertyDecl)
  | 0 => some p
  | n + 1 => (t.overrideAt p n).bind t.overridden?

/-- The first tagged property on the chain of overrides from `p` on has the tag `tag`. -/
def FirstTagged (t : TypeTable) (p : Member PropertyDecl) (tag : String) : Prop :=
  ∃ n q, t.overrideAt p n = some q ∧ q.decl.docs.tag? attributeTag = some tag ∧
    ∀ m < n, ∀ r, t.overrideAt p m = some r → r.decl.docs.tag? attributeTag = none

theorem Visible.placed {t : TypeTable} {p : Member PropertyDecl} (h : t.Visible p) :
    t.Placed p := by
  rcases h with ⟨c, hc, hp⟩ | ⟨i, hi, hp⟩
  · exact placed_of_latest_chain hc ((mem_layered_iff _ p).1 hp)
  · rw [interfaceProperties, lineage_eq_upward hi] at hp
    exact placed_of_latest_upward ((mem_layered_iff _ p).1 hp)

theorem overrideAt_succ (t : TypeTable) (p : Member PropertyDecl) (n : Nat) :
    t.overrideAt p (n + 1) = (t.overridden? p).bind fun q => t.overrideAt q n := by
  induction n with
  | zero => simp [overrideAt]
  | succ n ih =>
    rw [overrideAt, ih]
    cases t.overridden? p <;> rfl

theorem inheritsTag_iff_firstTagged (t : TypeTable) (p : Member PropertyDecl) (tag : String) :
    t.InheritsTag p tag ↔ t.FirstTagged p tag := by
  constructor
  · intro h
    induction h with
    | own htag => exact ⟨0, _, rfl, htag, by simp⟩
    | @inherited p q tag hnone hq _ ih =>
      rw [overrides_iff] at hq
      obtain ⟨n, r, hr, htag, hbefore⟩ := ih
      refine ⟨n + 1, r, by rw [overrideAt_succ, hq, Option.bind_some, hr], htag, ?_⟩
      intro m hm s hs
      cases m with
      | zero =>
        cases hs
        exact hnone
      | succ m =>
        rw [overrideAt_succ, hq] at hs
        exact hbefore m (by omega) s hs
  · intro hfirst
    obtain ⟨n, q, hq, htag, hbefore⟩ := hfirst
    induction n generalizing p with
    | zero =>
      cases hq
      exact .own htag
    | succ n ih =>
      rw [overrideAt_succ] at hq
      obtain ⟨r, hr, hq⟩ := Option.bind_eq_some_iff.1 hq
      have hrest : t.InheritsTag r tag := by
        refine ih r hq fun m hm s hs => hbefore (m + 1) (by omega) s ?_
        rw [overrideAt_succ, hr]
        exact hs
      exact .inherited (hbefore 0 (by omega) p rfl) ((overrides_iff t p r).2 hr) hrest

/-- Where a property of the chain is tagged, some tag reaches its start. -/
theorem exists_inheritsTag (t : TypeTable) (p q : Member PropertyDecl) (n : Nat) (tag : String)
    (hq : t.overrideAt p n = some q) (htag : q.decl.docs.tag? attributeTag = some tag) :
    ∃ tag', t.InheritsTag p tag' := by
  induction n generalizing p with
  | zero =>
    cases hq
    exact ⟨tag, .own htag⟩
  | succ n ih =>
    rw [overrideAt_succ] at hq
    obtain ⟨r, hr, hq⟩ := Option.bind_eq_some_iff.1 hq
    cases hown : p.decl.docs.tag? attributeTag with
    | some own => exact ⟨own, .own hown⟩
    | none =>
      obtain ⟨tag', hrest⟩ := ih r hq
      exact ⟨tag', .inherited hown ((overrides_iff t p r).2 hr) hrest⟩

/-- A tag that is found is that of the first tagged property on the chain of overrides. As long as
no name stands for a class and an interface both, none is found only where the whole chain is
untagged, however long it is and also where it runs in a circle; an untagged property then has the
tag of the property it overrides. -/
theorem attributeTag?_follows_overrides (t : TypeTable) (p : Member PropertyDecl)
    (hp : t.Visible p) :
    (∀ tag, t.attributeTag? p = some tag → t.FirstTagged p tag) ∧
      (t.NamesApart →
        (t.attributeTag? p = none ↔
          ∀ n q, t.overrideAt p n = some q → q.decl.docs.tag? attributeTag = none) ∧
        ∀ q, p.decl.docs.tag? attributeTag = none → t.overridden? p = some q →
          t.attributeTag? p = t.attributeTag? q) := by
  refine ⟨?_, fun apart => ⟨⟨?_, ?_⟩, ?_⟩⟩
  · intro tag htag
    exact (inheritsTag_iff_firstTagged t p tag).1 (inheritsTag_of_attributeTagFrom t [] p tag htag)
  · intro hnone n q hq
    cases htag : q.decl.docs.tag? attributeTag with
    | none => rfl
    | some tag =>
      obtain ⟨tag', hinherits⟩ := exists_inheritsTag t p q n tag hq htag
      rw [(attributeTag?_eq_some_iff apart hp.placed tag').2 hinherits] at hnone
      cases hnone
  · intro huntagged
    cases htag : t.attributeTag? p with
    | none => rfl
    | some tag =>
      have hinherits := (attributeTag?_eq_some_iff apart hp.placed tag).1 htag
      obtain ⟨n, q, hq, hown, -⟩ := (inheritsTag_iff_firstTagged t p tag).1 hinherits
      rw [huntagged n q hq] at hown
      cases hown
  · intro q hnone hq
    have hover : t.Overrides p q := (overrides_iff t p q).2 hq
    apply Option.ext
    intro tag
    rw [attributeTag?_eq_some_iff apart hp.placed, attributeTag?_eq_some_iff apart hover.placed,
      hover.inheritsTag_iff hnone]

end ResourceLint.TypeTable

namespace ResourceLint.Sample

def strand : ClassDecl where
  fqn := "n.B"
  properties := [PropertyDecl.ofName "url" |>.overriding "n.A"]

def cord : InterfaceDecl where
  fqn := "n.I"
  properties := [PropertyDecl.ofName "arn" |>.overriding "n.A"]

/-- The property of the interface overrides a tagged one; that of the second class is on a circle of
overrides. -/
def twist : TypeTable where
  name := "n"
  classes :=
    [{ fqn := "n.A", properties := [PropertyDecl.ofName "arn" |>.withTag "attribute" "Arn",
        PropertyDecl.ofName "url" |>.overriding "n.B"] }, strand]
  interfaces := [cord]

theorem twist_tags :
    twist.NamesApart ∧ twist.Visible ⟨"n.I", PropertyDecl.ofName "arn" |>.overriding "n.A"⟩ ∧
      twist.FirstTagged ⟨"n.I", PropertyDecl.ofName "arn" |>.overriding "n.A"⟩ "Arn" ∧
      twist.Visible ⟨"n.B", PropertyDecl.ofName "url" |>.overriding "n.A"⟩ ∧
      ∀ n q, twist.overrideAt ⟨"n.B", PropertyDecl.ofName "url" |>.overriding "n.A"⟩ n = some q →
        q.decl.docs.tag? attributeTag = none := by
  have apart : twist.NamesApart := by
    intro fqn
    by_cases h : fqn = "n.I"
    · subst h
      exact Or.inl rfl
    · exact Or.inr (by simp [TypeTable.interface?, twist, cord, Ne.symm h])
  have hcord : twist.Visible ⟨"n.I", PropertyDecl.ofName "arn" |>.overriding "n.A"⟩ := by
    refine Or.inr ⟨cord, rfl, ?_⟩
    rw [TypeTable.interfaceProperties, TypeTable.lineage, show cord.interfaces = [] from rfl,
      TypeTable.basesFirst]
    exact List.mem_cons_self
  have hstrand : twist.Visible ⟨"n.B", PropertyDecl.ofName "url" |>.overriding "n.A"⟩ := by
    refine Or.inl ⟨strand, rfl, ?_⟩
    rw [TypeTable.properties, TypeTable.chain, TypeTable.ancestors, TypeTable.ancestorsFrom]
    exact List.mem_cons_self
  refine ⟨apart, hcord, ?_, hstrand, ?_⟩
  · exact (twist.attributeTag?_follows_overrides _ hcord).1 "Arn" (by decide +kernel)
  · exact ((twist.attributeTag?_follows_overrides _ hstrand).2 apart).1.1 (by decide +kernel)

end ResourceLint.Sample
