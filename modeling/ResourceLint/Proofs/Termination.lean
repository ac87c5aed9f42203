import ResourceLint.Proofs.LinkWalks
import ResourceLint.Proofs.SchemaSearch

/-!
Every walk over the types of a table ends, however bases, extended interfaces and overrides are
knotted. Two of them are recursions whose calls share the names they have seen: the one collects the
properties of an interface, the other searches for a schema entry. Here such a recursion is a loop
over its open calls, each with what it has yet to follow.
-/

namespace ResourceLint.TypeTable

structure CollectCall where
  decl : InterfaceDecl
  names : List String

/-- The recursion over extended interfaces: the names it has seen, the properties laid over each
other so far and the open calls, the innermost first. -/
structure CollectState where
  seen : List String
  found : List (Member PropertyDecl)
  calls : List CollectCall

def collectTurn (t : TypeTable) (s : CollectState) :
    Turn CollectState (List (Member PropertyDecl)) :=
  match s.calls with
  | [] => .done s.found
  | ⟨i, []⟩ :: calls =>
    .next ⟨s.seen, i.propertyMembers.foldl (layOver Member.propertyName) s.found, calls⟩
  | ⟨i, fqn :: names⟩ :: calls =>
    match t.interface? fqn with
    | none => .next ⟨s.seen, s.found, ⟨i, names⟩ :: calls⟩
    | some j =>
      if j.fqn ∈ s.seen then .next ⟨s.seen, s.found, ⟨i, names⟩ :: calls⟩
      else .next ⟨j.fqn :: s.seen, s.found, ⟨j, j.interfaces⟩ :: ⟨i, names⟩ :: calls⟩

def collectLeft (t : TypeTable) (s : CollectState) : Nat :=
  linksUnseen t.interfaces s.seen + (s.calls.map fun call => call.names.length + 1).sum

theorem lowers_collectTurn (t : TypeTable) : Lowers t.collectTurn t.collectLeft := by
  intro s s'
  unfold collectLeft
  fun_cases collectTurn t s with
  | case1 =>
    intro h
    cases h
  | case2 i calls hcalls =>
    intro h
    cases h
    simp [hcalls]
  | case3 i fqn names calls hcalls hnone =>
    intro h
    cases h
    simp [hcalls]
  | case4 i fqn names calls hcalls j hj hseen =>
    intro h
    cases h
    simp [hcalls]
  | case5 i fqn names calls hcalls j hj hnew =>
    intro h
    cases h
    have hle := linksUnseen_cons_add_le (List.mem_of_find?_eq_some hj) hnew
    simp only [hcalls, List.map_cons, List.sum_cons, List.length_cons]
    omega

/-- A walk depends on which names were seen, not on their order. -/
theorem basesFirst_congr (t : TypeTable) (seen seen' names : List String)
    (h : ∀ n, n ∈ seen' ↔ n ∈ seen) : t.basesFirst seen' names = t.basesFirst seen names := by
  fun_induction basesFirst t seen names generalizing seen' with
  | case1 => rw [basesFirst]
  | case2 seen fqn names hnone ih => rw [basesFirst_unfold, hnone, ← ih seen' h]
  | case3 seen fqn names i hi hseen ih =>
    have hseen' : i.fqn ∈ seen' := (h i.fqn).2 hseen
    rw [basesFirst_unfold, hi, ← ih seen' h]
    exact if_pos hseen'
  | case4 seen fqn names i hi hnew bases ih₁ ih₂ =>
    have hnew' : i.fqn ∉ seen' := fun hmem => hnew ((h i.fqn).1 hmem)
    have hbases : t.basesFirst (i.fqn :: seen') i.interfaces = bases :=
      ih₁ (i.fqn :: seen') (by simp [h])
    rw [basesFirst_unfold, hi, ← ih₂ (bases.map (·.fqn) ++ i.fqn :: seen') (by simp [h])]
    simp only [if_neg hnew', hbases]

def lineLeft (t : TypeTable) (seen : List String) : List CollectCall → List InterfaceDecl
  | [] => []
  | ⟨i, names⟩ :: calls =>
    t.basesFirst seen names ++ i ::
      t.lineLeft ((t.basesFirst seen names).map (·.fqn) ++ seen) calls

theorem lineLeft_congr (t : TypeTable) (seen seen' : List String) (calls : List CollectCall)
    (h : ∀ n, n ∈ seen' ↔ n ∈ seen) : t.lineLeft seen' calls = t.lineLeft seen calls := by
  induction calls generalizing seen seen' with
  | nil => rfl
  | cons call calls ih =>
    rw [lineLeft, lineLeft, t.basesFirst_congr seen seen' call.names h]
    rw [ih ((t.basesFirst seen call.names).map (·.fqn) ++ seen) _ (by simp [h])]

def collected (t : TypeTable) (s : CollectState) : List (Member PropertyDecl) :=
  ((t.lineLeft s.seen s.calls).flatMap InterfaceDecl.propertyMembers).foldl
    (layOver Member.propertyName) s.found

theorem collected_eq_resume (t : TypeTable) (s : CollectState) :
    t.collected s = (t.collectTurn s).resume t.collected := by
  have hend : ∀ seen, t.basesFirst seen [] = [] := fun seen => by rw [basesFirst]
  fun_cases collectTurn t s with
  | case1 hcalls => simp [collected, hcalls, lineLeft, Turn.resume]
  | case2 i calls hcalls => simp [collected, hcalls, lineLeft, hend, Turn.resume]
  | case3 i fqn names calls hcalls hnone =>
    simp [collected, hcalls, lineLeft, basesFirst_unfold t s.seen, hnone, Turn.resume]
  | case4 i fqn names calls hcalls j hj hseen =>
    simp [collected, hcalls, lineLeft, basesFirst_unfold t s.seen, hj, hseen, Turn.resume]
  | case5 i fqn names calls hcalls j hj hnew =>
    -- When the call for `j` is back, the same names are marked, though in another order.
    have hmarked : ∀ bases rest : List InterfaceDecl,
        t.lineLeft (bases.map (·.fqn) ++ j.fqn :: (rest.map (·.fqn) ++ s.seen)) calls =
          t.lineLeft (rest.map (·.fqn) ++ (bases.map (·.fqn) ++ j.fqn :: s.seen)) calls := by
      intro bases rest
      refine t.lineLeft_congr _ _ calls fun n => ?_
      simp only [List.mem_append, List.mem_cons]
      tauto
    simp [collected, hcalls, lineLeft, basesFirst_unfold t s.seen, hj, hnew, Turn.resume, hmarked]

/-- The search for a schema entry: the names it has visited and, for each open call, the classes it
has yet to ask, the innermost call first. -/
structure SearchState where
  visited : List String
  calls : List (List ClassDecl)

def searchTurn (t : TypeTable) (cat : Catalog) (s : SearchState) :
    Turn SearchState (Option SchemaEntry) :=
  match s.calls with
  | [] => .done none
  | [] :: calls => .next ⟨s.visited, calls⟩
  | (c :: rest) :: calls =>
    if c.fqn ∈ s.visited then .next ⟨s.visited, rest :: calls⟩
    else
      match cat.ownEntry? c with
      | some e => .done (some e)
      | none =>
        if c.schemaClue.isTagged then .next ⟨c.fqn :: s.visited, rest :: calls⟩
        else .next ⟨c.fqn :: s.visited, t.ancestors c :: rest :: calls⟩

def askSize (t : TypeTable) (c : ClassDecl) : Nat :=
  (if c.fqn ∈ t.classNames then 0 else 1) * (t.classes.length + 1) + 1

/-- Each registered class that was not visited can open one call, to ask no more classes than are
registered; to this comes what is left of the open calls. -/
def searchLeft (t : TypeTable) (s : SearchState) : Nat :=
  unseen t.classNames s.visited * (t.classes.length + 1) +
    (s.calls.map fun call => (call.map t.askSize).sum + 1).sum

theorem sum_askSize_ancestors (t : TypeTable) (c : ClassDecl) :
    ((t.ancestors c).map t.askSize).sum = (t.ancestors c).length := by
  have hone : ∀ d ∈ t.ancestors c, t.askSize d = 1 := by
    intro d hd
    simp [askSize, mem_classNames_of_mem_ancestors hd]
  rw [List.map_congr_left hone]
  simp

/-- Visiting a class pays for a call that asks all its ancestors. -/
theorem visit_le (t : TypeTable) {visited : List String} {c : ClassDecl} (hnew : c.fqn ∉ visited) :
    unseen t.classNames (c.fqn :: visited) * (t.classes.length + 1) + t.classes.length + 2 ≤
      unseen t.classNames visited * (t.classes.length + 1) + t.askSize c := by
  have hlt : unseen t.classNames (c.fqn :: visited) < _ := unseen_cons_lt_add hnew
  have hmul := Nat.mul_le_mul_right (t.classes.length + 1) hlt
  rw [Nat.succ_mul, Nat.add_mul] at hmul
  unfold askSize
  omega

theorem lowers_searchTurn (t : TypeTable) (cat : Catalog) :
    Lowers (t.searchTurn cat) t.searchLeft := by
  intro s s'
  unfold searchLeft
  fun_cases searchTurn t cat s with
  | case1 =>
    intro h
    cases h
  | case2 calls hcalls =>
    intro h
    cases h
    simp [hcalls]
  | case3 c rest calls hcalls hseen =>
    intro h
    cases h
    simp [hcalls, askSize]
  | case4 =>
    intro h
    cases h
  | case5 c rest calls hcalls hnew hown htag =>
    intro h
    cases h
    have hvisit := t.visit_le hnew
    simp only [hcalls, List.map_cons, List.sum_cons]
    omega
  | case6 c rest calls hcalls hnew hown htag =>
    intro h
    cases h
    have hvisit := t.visit_le hnew
    have hline := t.length_ancestors_le c
    simp only [hcalls, List.map_cons, List.sum_cons, sum_askSize_ancestors]
    omega

def entryLeft? (t : TypeTable) (cat : Catalog) (s : SearchState) : Option SchemaEntry :=
  (t.consultedFrom cat s.visited (s.calls.flatten.map (·.fqn))).findSome? cat.ownEntry?

def SearchState.Registered (t : TypeTable) (s : SearchState) : Prop :=
  ∀ c ∈ s.calls.flatten, t.class? c.fqn = some c

/-- What is to be asked after a class stands in the table, even if the class itself does not. -/
theorem SearchState.registered_of_asked {t : TypeTable} {cat : Catalog} {visited : List String}
    {c : ClassDecl} {rest : List ClassDecl} {calls : List (List ClassDecl)} {s' : SearchState}
    (hrest : ∀ d ∈ (rest :: calls).flatten, t.class? d.fqn = some d)
    (h : t.searchTurn cat ⟨visited, (c :: rest) :: calls⟩ = .next s') : s'.Registered t := by
  have hline : ∀ d ∈ (t.ancestors c :: rest :: calls).flatten, t.class? d.fqn = some d := by
    intro d hd
    rcases List.mem_append.1 hd with hd | hd
    · exact class?_of_mem_ancestorsFrom hd
    · exact hrest d hd
  simp only [searchTurn] at h
  split at h
  · cases h
    exact hrest
  · split at h
    · cases h
    · split at h
      · cases h
        exact hrest
      · cases h
        exact hline

theorem SearchState.Registered.next {t : TypeTable} {cat : Catalog} {s s' : SearchState}
    (hs : s.Registered t) (h : t.searchTurn cat s = .next s') : s'.Registered t := by
  obtain ⟨visited, calls⟩ := s
  match calls with
  | [] => cases h
  | [] :: calls =>
    cases h
    exact hs
  | (c :: rest) :: calls =>
    exact registered_of_asked (fun d hd => hs d (List.mem_cons_of_mem c hd)) h

theorem entryLeft?_eq_resume (t : TypeTable) (cat : Catalog) (s : SearchState)
    (hs : s.Registered t) :
    t.entryLeft? cat s = (t.searchTurn cat s).resume (t.entryLeft? cat) := by
  have hhead : ∀ {c rest calls}, s.calls = (c :: rest) :: calls → t.class? c.fqn = some c :=
    fun {c} _ _ hcalls => hs c (by simp [hcalls])
  fun_cases searchTurn t cat s with
  | case1 hcalls => simp [entryLeft?, hcalls, consultedFrom, Turn.resume]
  | case2 calls hcalls => simp [entryLeft?, hcalls, Turn.resume]
  | case3 c rest calls hcalls hseen =>
    simp [entryLeft?, hcalls, consultedFrom_cons (hhead hcalls), hseen, Turn.resume]
  | case4 c rest calls hcalls hnew e hown =>
    simp [entryLeft?, hcalls, consultedFrom_cons (hhead hcalls), hnew, hown, Turn.resume]
  | case5 c rest calls hcalls hnew hown htag =>
    simp [entryLeft?, hcalls, consultedFrom_cons (hhead hcalls), hnew, hown, htag, Turn.resume]
  | case6 c rest calls hcalls hnew hown htag =>
    simp [entryLeft?, hcalls, consultedFrom_cons (hhead hcalls), hnew, hown, htag, Turn.resume]

theorem schemaFor?_eq_resume (t : TypeTable) (cat : Catalog) (c : ClassDecl) :
    t.schemaFor? cat c = (t.searchTurn cat ⟨[], [[c]]⟩).resume (t.entryLeft? cat) := by
  unfold schemaFor? consulted
  cases hown : cat.ownEntry? c with
  | some e => simp [searchTurn, hown, Turn.resume]
  | none =>
    by_cases htag : c.schemaClue.isTagged = true
    · simp [searchTurn, hown, htag, Turn.resume, entryLeft?, consultedFrom]
    · simp [searchTurn, hown, htag, Turn.resume, entryLeft?]

/-- The search from a class, registered or not, finds the entry that the class wraps. -/
theorem schemaFor?_of_endsAfter {t : TypeTable} {cat : Catalog} {c : ClassDecl} {n : Nat}
    {r : Option SchemaEntry} (h : EndsAfter (t.searchTurn cat) n ⟨[], [[c]]⟩ r) :
    r = t.schemaFor? cat c := by
  rw [schemaFor?_eq_resume]
  cases h with
  | done hturn => rw [hturn, Turn.resume]
  | next hturn rest =>
    rw [hturn, Turn.resume]
    exact rest.eq_value_of_inv (fun _ _ hs h => hs.next h) (t.entryLeft?_eq_resume cat)
      (SearchState.registered_of_asked (by simp) hturn)

/-- Every walk ends with what it is to find, from any type or property and however the links of the
table run: each turn leaves less of the registered types that were not seen and of the names or
calls that are kept for later. A class has no more ancestors than classes are registered. The walk
along overrides asks for an overridden property at most once for each registered class or interface,
and once more for the property it begins at. -/
theorem guardedWalks_end (t : TypeTable) :
    (∀ c, EndsBy t.ancestorsTurn t.ancestorsLeft ⟨[c.fqn], [], c⟩ (t.ancestors c) ∧
      (t.ancestors c).length ≤ t.classes.length) ∧
    (∀ c base, EndsBy (t.derivesTurn base) t.derivesLeft ⟨[], c⟩ (t.classExtends c base)) ∧
    (∀ i base,
      EndsBy (t.extendsTurn base) t.extendsLeft ⟨[], [i.fqn]⟩ (t.interfaceExtends i base)) ∧
    (∀ i, EndsBy t.collectTurn t.collectLeft ⟨[i.fqn], [], [⟨i, i.interfaces⟩]⟩
      (t.interfaceProperties i)) ∧
    (∀ p, ∃ lookups ≤ t.classes.length + t.interfaces.length + 1,
      EndsBy t.tagTurn t.tagLeft ⟨[], 0, p⟩ (t.attributeTag? p, lookups)) ∧
    ∀ cat c, EndsBy (t.searchTurn cat) t.searchLeft ⟨[], [[c]]⟩ (t.schemaFor? cat c) := by
  refine ⟨fun c => ⟨?_, t.length_ancestors_le c⟩, fun c base => ?_, fun i base => ?_, fun i => ?_,
    fun p => ?_, fun cat c => ?_⟩
  · exact t.lowers_ancestorsTurn.endsBy fun _ _ h => h.eq_value t.ancestorsFrom_eq_resume
  · exact (t.lowers_derivesTurn base).endsBy fun _ _ h => h.eq_value (t.derivesFrom_eq_resume base)
  · exact (t.lowers_extendsTurn base).endsBy
      fun _ _ h => h.eq_value (t.reachesInterface_eq_resume base)
  · exact t.lowers_collectTurn.endsBy fun _ _ h => h.eq_value t.collected_eq_resume
  · obtain ⟨n, ⟨tag, lookups⟩, hn, hends⟩ := t.lowers_tagTurn.exists_endsAfter ⟨[], 0, p⟩
    obtain ⟨htag, hlookups⟩ := attributeTagFrom_of_endsAfter hends
    have hstart := t.tagLeft_start_le p
    obtain rfl : tag = t.attributeTag? p := htag
    dsimp only at hlookups
    exact ⟨lookups, by omega, t.lowers_tagTurn, n, hn, hends⟩
  · exact (t.lowers_searchTurn cat).endsBy fun _ _ h => schemaFor?_of_endsAfter h

end ResourceLint.TypeTable
