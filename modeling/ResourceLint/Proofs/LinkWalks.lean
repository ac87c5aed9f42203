import ResourceLint.Proofs.Ancestry
import ResourceLint.Proofs.TagInheritance
import ResourceLint.Proofs.Turns
import Mathlib

/-!
The walks along links, turn by turn: up the bases of a class, over the interfaces that an interface
extends, along the overrides of a property. Each carries what it has seen, and no turn follows a
link from a type that was seen. So what is left to a walk is counted by the registered types that it
has not seen and by the names it keeps for later, and every turn that goes on leaves less.
-/

namespace ResourceLint.TypeTable

structure AncestorsState where
  seen : List String
  found : List ClassDecl
  current : ClassDecl

def ancestorsTurn (t : TypeTable) (s : AncestorsState) : Turn AncestorsState (List ClassDecl) :=
  match t.base? s.current with
  | none => .done s.found
  | some b =>
    if b.fqn ∈ s.seen then .done s.found
    else .next ⟨b.fqn :: s.seen, s.found ++ [b], b⟩

def ancestorsLeft (t : TypeTable) (s : AncestorsState) : Nat := unseen t.classNames s.seen

theorem lowers_ancestorsTurn (t : TypeTable) : Lowers t.ancestorsTurn t.ancestorsLeft := by
  intro s s'
  fun_cases ancestorsTurn t s with
  | case3 b hb hnew =>
    intro h
    cases h
    exact unseen_cons_lt (mem_classNames_of_base? hb) hnew
  | _ =>
    intro h
    cases h

theorem ancestorsFrom_eq_resume (t : TypeTable) (s : AncestorsState) :
    s.found ++ t.ancestorsFrom s.seen s.current =
      (t.ancestorsTurn s).resume fun s => s.found ++ t.ancestorsFrom s.seen s.current := by
  rw [ancestorsFrom_unfold]
  fun_cases ancestorsTurn t s with
  | case1 hnone => simp [hnone, Turn.resume]
  | case2 b hb hseen => simp [hb, hseen, Turn.resume]
  | case3 b hb hnew => simp [hb, hnew, Turn.resume]

theorem length_ancestorsFrom_le (t : TypeTable) (seen : List String) (c : ClassDecl) :
    (t.ancestorsFrom seen c).length ≤ unseen t.classNames seen := by
  fun_induction ancestorsFrom t seen c with
  | case1 => simp
  | case2 => simp
  | case3 seen c b hb hnew ih =>
    have hlt := unseen_cons_lt (mem_classNames_of_base? hb) hnew
    rw [List.length_cons]
    omega

theorem length_ancestors_le (t : TypeTable) (c : ClassDecl) :
    (t.ancestors c).length ≤ t.classes.length :=
  calc (t.ancestors c).length
    _ ≤ unseen t.classNames [c.fqn] := length_ancestorsFrom_le t [c.fqn] c
    _ ≤ t.classNames.length := unseen_le_length _ _
    _ = t.classes.length := List.length_map _

-- From outside a circle of bases the bound is reached.
example :
    (ancestors { name := "n", classes := [{ fqn := "n.A", base := some "n.B" },
      { fqn := "n.B", base := some "n.A" }] } { fqn := "n.C", base := some "n.A" }).length = 2 := by
  decide +kernel

structure DerivesState where
  seen : List String
  current : ClassDecl

def derivesTurn (t : TypeTable) (base : String) (s : DerivesState) : Turn DerivesState Bool :=
  if s.current.fqn = base then .done true
  else if s.current.fqn ∈ s.seen then .done false
  else
    match s.current.base with
    | none => .done false
    | some next =>
      if next = base then .done true
      else
        match t.class? next with
        | none => .done false
        | some c => .next ⟨s.current.fqn :: s.seen, c⟩

/-- How many registered classes the walk has not seen. It may begin at a class that is not
registered, which makes for one more. -/
def derivesLeft (t : TypeTable) (s : DerivesState) : Nat :=
  unseen t.classNames s.seen + (if s.current.fqn ∈ t.classNames then 0 else 1)

theorem lowers_derivesTurn (t : TypeTable) (base : String) :
    Lowers (t.derivesTurn base) t.derivesLeft := by
  intro s s'
  fun_cases derivesTurn t base s with
  | case6 hne hnew next hnext hother c hc =>
    intro h
    cases h
    unfold derivesLeft
    rw [if_pos (mem_classNames_of_class? hc)]
    exact unseen_cons_lt_add hnew
  | _ =>
    intro h
    cases h

theorem derivesFrom_eq_resume (t : TypeTable) (base : String) (s : DerivesState) :
    t.derivesFrom base s.seen s.current =
      (t.derivesTurn base s).resume fun s => t.derivesFrom base s.seen s.current := by
  obtain ⟨seen, c⟩ := s
  fun_cases derivesFrom t base seen c with
  | case1 heq => simp [derivesTurn, heq, Turn.resume]
  | case2 hne hseen => simp [derivesTurn, hne, hseen, Turn.resume]
  | case3 hne hnew hnone => simp [derivesTurn, hne, hnew, hnone, Turn.resume]
  | case4 hne hnew hnext => simp [derivesTurn, hne, hnew, hnext, Turn.resume]
  | case5 hne hnew next hnext hother hmissing =>
    simp [derivesTurn, hne, hnew, hnext, hother, hmissing, Turn.resume]
  | case6 hne hnew next hnext hother b hb =>
    simp [derivesTurn, hne, hnew, hnext, hother, hb, Turn.resume]

structure ExtendsState where
  seen : List String
  pending : List String

def extendsTurn (t : TypeTable) (base : String) (s : ExtendsState) : Turn ExtendsState Bool :=
  match s.pending with
  | [] => .done false
  | fqn :: pending =>
    if fqn = base then .done true
    else if fqn ∈ s.seen then .next ⟨s.seen, pending⟩
    else
      match t.interface? fqn with
      | none => .next ⟨fqn :: s.seen, pending⟩
      | some i => .next ⟨fqn :: s.seen, i.interfaces ++ pending⟩

/-- How many turns those of the interfaces that were not seen can bring: one for each and one for
each name it lists. -/
def linksUnseen (interfaces : List InterfaceDecl) (seen : List String) : Nat :=
  (interfaces.map fun i => if i.fqn ∈ seen then 0 else i.interfaces.length + 1).sum

theorem linksUnseen_cons_le (interfaces : List InterfaceDecl) (seen : List String) (fqn : String) :
    linksUnseen interfaces (fqn :: seen) ≤ linksUnseen interfaces seen := by
  refine List.sum_le_sum fun i _ => ?_
  by_cases hi : i.fqn ∈ seen
  · simp [hi]
  · rw [if_neg hi]
    split <;> omega

/-- Marking one of the interfaces gives up its share. -/
theorem linksUnseen_cons_add_le {interfaces : List InterfaceDecl} {seen : List String}
    {i : InterfaceDecl} (hi : i ∈ interfaces) (hnew : i.fqn ∉ seen) :
    linksUnseen interfaces (i.fqn :: seen) + (i.interfaces.length + 1) ≤
      linksUnseen interfaces seen := by
  obtain ⟨before, after, rfl⟩ := List.append_of_mem hi
  have hbefore := linksUnseen_cons_le before seen i.fqn
  have hafter := linksUnseen_cons_le after seen i.fqn
  unfold linksUnseen at hbefore hafter ⊢
  simp only [List.map_append, List.map_cons, List.sum_append, List.sum_cons, if_neg hnew,
    if_pos List.mem_cons_self]
  omega

def extendsLeft (t : TypeTable) (s : ExtendsState) : Nat :=
  linksUnseen t.interfaces s.seen + s.pending.length

theorem lowers_extendsTurn (t : TypeTable) (base : String) :
    Lowers (t.extendsTurn base) t.extendsLeft := by
  intro s s'
  unfold extendsLeft
  fun_cases extendsTurn t base s with
  | case3 fqn pending hp hne hseen =>
    intro h
    cases h
    simp [hp]
  | case4 fqn pending hp hne hnew hnone =>
    intro h
    cases h
    have hle := linksUnseen_cons_le t.interfaces s.seen fqn
    simp only [hp, List.length_cons]
    omega
  | case5 fqn pending hp hne hnew i hi =>
    intro h
    cases h
    obtain rfl : i.fqn = fqn := fqn_of_interface? hi
    have hle := linksUnseen_cons_add_le (List.mem_of_find?_eq_some hi) hnew
    simp only [hp, List.length_cons, List.length_append]
    omega
  | _ =>
    intro h
    cases h

theorem reachesInterface_eq_resume (t : TypeTable) (base : String) (s : ExtendsState) :
    t.reachesInterface base s.seen s.pending =
      (t.extendsTurn base s).resume fun s => t.reachesInterface base s.seen s.pending := by
  obtain ⟨seen, pending⟩ := s
  fun_cases reachesInterface t base seen pending with
  | case1 => simp [extendsTurn, Turn.resume]
  | case2 => simp [extendsTurn, Turn.resume]
  | case3 fqn pending hne hseen => simp [extendsTurn, hne, hseen, Turn.resume]
  | case4 fqn pending hne hnew hnone => simp [extendsTurn, hne, hnew, hnone, Turn.resume]
  | case5 fqn pending hne hnew i hi => simp [extendsTurn, hne, hnew, hi, Turn.resume]

/-- The walk along overrides: the types and names of the properties it has passed, how often it has
asked for an overridden property, and the property it stands at. -/
structure TagState where
  seen : List (String × String)
  lookups : Nat
  current : Member PropertyDecl

def tagTurn (t : TypeTable) (s : TagState) : Turn TagState (Option String × Nat) :=
  match s.current.decl.docs.tag? attributeTag with
  | some tag => .done (some tag, s.lookups)
  | none =>
    if (s.current.owner, s.current.decl.name) ∈ s.seen then .done (none, s.lookups)
    else
      match t.overridden? s.current with
      | none => .done (none, s.lookups + 1)
      | some q => .next ⟨(s.current.owner, s.current.decl.name) :: s.seen, s.lookups + 1, q⟩

def TagState.owners (s : TagState) : List String :=
  (s.seen.filter (·.2 = s.current.decl.name)).map (·.1)

/-- How many registered types the walk has not passed. It may begin at a property of a type that is
not registered, which makes for one more. -/
def tagLeft (t : TypeTable) (s : TagState) : Nat :=
  unseen t.typeNames s.owners + (if s.current.owner ∈ t.typeNames then 0 else 1)

theorem TagState.mem_owners_iff (s : TagState) (owner : String) :
    owner ∈ s.owners ↔ (owner, s.current.decl.name) ∈ s.seen := by
  simp [owners]

/-- The overridden property has the same name, so the walk has passed one type more. -/
theorem TagState.owners_next {t : TypeTable} {s : TagState} {q : Member PropertyDecl}
    (hq : t.overridden? s.current = some q) :
    (⟨(s.current.owner, s.current.decl.name) :: s.seen, s.lookups + 1, q⟩ : TagState).owners =
      s.current.owner :: s.owners := by
  simp [owners, (overridden?_spec hq).2]

theorem tagTurn_eq_next {t : TypeTable} {s s' : TagState} :
    t.tagTurn s = .next s' → s.current.decl.docs.tag? attributeTag = none ∧
      s.current.owner ∉ s.owners ∧ ∃ q, t.overridden? s.current = some q ∧
        s' = ⟨(s.current.owner, s.current.decl.name) :: s.seen, s.lookups + 1, q⟩ := by
  fun_cases tagTurn t s with
  | case4 htag hnew q hq =>
    intro h
    cases h
    exact ⟨htag, fun hmem => hnew ((s.mem_owners_iff _).1 hmem), q, hq, rfl⟩
  | _ =>
    intro h
    cases h

theorem lowers_tagTurn (t : TypeTable) : Lowers t.tagTurn t.tagLeft := by
  intro s s' h
  obtain ⟨-, hnew, q, hq, rfl⟩ := tagTurn_eq_next h
  unfold tagLeft
  rw [TagState.owners_next hq, if_pos (overridden?_spec hq).1]
  exact unseen_cons_lt_add hnew

theorem tagTurn_eq_done {t : TypeTable} {s : TagState} {r : Option String × Nat} :
    t.tagTurn s = .done r →
      r.1 = t.attributeTagFrom s.owners s.current ∧ r.2 ≤ s.lookups + t.tagLeft s := by
  rw [attributeTagFrom_unfold]
  fun_cases tagTurn t s with
  | case1 tag htag =>
    intro h
    cases h
    simp [htag]
  | case2 htag hseen =>
    intro h
    cases h
    rw [← s.mem_owners_iff] at hseen
    simp [htag, hseen]
  | case3 htag hnew hnone =>
    intro h
    cases h
    rw [← s.mem_owners_iff] at hnew
    have hlt : unseen t.typeNames (s.current.owner :: s.owners) < t.tagLeft s :=
      unseen_cons_lt_add hnew
    refine ⟨by simp [htag, hnew, hnone], ?_⟩
    dsimp only
    omega
  | case4 =>
    intro h
    cases h

/-- The walk along overrides finds the tag, and it does not ask more often than there are types left
to pass. -/
theorem attributeTagFrom_of_endsAfter {t : TypeTable} {n : Nat} {s : TagState}
    {r : Option String × Nat} (h : EndsAfter t.tagTurn n s r) :
    r.1 = t.attributeTagFrom s.owners s.current ∧ r.2 ≤ s.lookups + t.tagLeft s := by
  induction h with
  | done hturn => exact tagTurn_eq_done hturn
  | @next n s s' r hturn _ ih =>
    have hlt : t.tagLeft s' < t.tagLeft s := t.lowers_tagTurn s s' hturn
    obtain ⟨htag, hnew, q, hq, rfl⟩ := tagTurn_eq_next hturn
    obtain ⟨hresult, hcount⟩ := ih
    rw [TagState.owners_next hq] at hresult
    dsimp only at hcount
    refine ⟨?_, by omega⟩
    rw [hresult, attributeTagFrom_unfold t s.owners, htag, hq]
    exact (if_neg hnew).symm

theorem tagLeft_start_le (t : TypeTable) (p : Member PropertyDecl) :
    t.tagLeft ⟨[], 0, p⟩ ≤ t.classes.length + t.interfaces.length + 1 := by
  have hle : unseen t.typeNames [] ≤ t.classes.length + t.interfaces.length := by
    simpa [typeNames, classNames, interfaceNames] using unseen_le_length t.typeNames []
  change unseen t.typeNames [] + (if p.owner ∈ t.typeNames then 0 else 1) ≤ _
  split <;> omega

end ResourceLint.TypeTable
