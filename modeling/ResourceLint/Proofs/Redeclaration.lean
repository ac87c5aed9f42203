import ResourceLint.Proofs.Overlay
import ResourceLint.Proofs.Unfolding

/-!
Which declaration of a name a type shows where several types above it declare the name. For a class
it is the nearest one. Interfaces may branch and meet again; there it is never one that an interface
further down has redeclared, in whatever order the extended interfaces are listed.
-/

namespace ResourceLint

variable {α : Type}

def declaredAlong (declared : ClassDecl → List α) (line : List ClassDecl) : List (Member α) :=
  line.flatMap fun c => (declared c).map (Member.mk c.fqn)

/-- The members `out` are what a class shows of the declarations along `line`, its ancestors and
then itself: each name once, in the order in which the names first occur, and with its last
declaration, which is that of the nearest class. -/
structure NearestWins (declared : ClassDecl → List α) (name : α → String) (line : List ClassDecl)
    (out : List (Member α)) : Prop where
  distinct : out.Pairwise fun m m' => name m.decl ≠ name m'.decl
  names : out.map (name ·.decl) = ((line.flatMap declared).map name).eraseDups
  last : ∀ m ∈ out, Latest (name ·.decl) (declaredAlong declared line) m
  nearest : ∀ m ∈ out, ∃ farther d nearer, line = farther ++ d :: nearer ∧ m.owner = d.fqn ∧
    Latest name (declared d) m.decl ∧ ∀ e ∈ nearer, ∀ a ∈ declared e, name a ≠ name m.decl

theorem map_declaredAlong (declared : ClassDecl → List α) (name : α → String)
    (line : List ClassDecl) :
    (declaredAlong declared line).map (name ·.decl) = (line.flatMap declared).map name := by
  simp [declaredAlong, List.map_flatMap, Function.comp_def]

/-- The last declaration of a name along a line is the last one of the nearest class that declares
it. -/
theorem exists_nearest_of_latest (declared : ClassDecl → List α) (name : α → String)
    (line : List ClassDecl) (m : Member α)
    (h : Latest (name ·.decl) (declaredAlong declared line) m) :
    ∃ farther d nearer, line = farther ++ d :: nearer ∧ m.owner = d.fqn ∧
      Latest name (declared d) m.decl ∧ ∀ e ∈ nearer, ∀ a ∈ declared e, name a ≠ name m.decl := by
  obtain ⟨farther, d, nearer, hline, hlatest, hnearer⟩ := (latest_flatMap_iff _ _ m).1 h
  obtain ⟨a, rfl, hown⟩ := (latest_map_iff _ _ m).1 hlatest
  refine ⟨farther, d, nearer, hline, rfl, hown, ?_⟩
  intro e he b hb
  exact hnearer e he ⟨e.fqn, b⟩ (List.mem_map_of_mem hb)

theorem nearestWins_iff (declared : ClassDecl → List α) (name : α → String)
    (line : List ClassDecl) (out : List (Member α)) :
    NearestWins declared name line out ↔
      out = layered (name ·.decl) (declaredAlong declared line) := by
  rw [← overlay_iff]
  constructor
  · intro h
    exact ⟨by rw [map_declaredAlong, h.names], h.last⟩
  · intro h
    refine ⟨?_, ?_, h.latest, fun m hm => exists_nearest_of_latest _ _ _ m (h.latest m hm)⟩
    · exact List.pairwise_map.1 h.nodup
    · rw [h.names, map_declaredAlong]

namespace TypeTable

/-- Of properties and methods alike, a class shows the nearest declaration of every name, at the
place where the name first occurs from the farthest ancestor on. -/
theorem properties_methods_nearestWins (t : TypeTable) (c : ClassDecl) :
    let line := (t.ancestors c).reverse ++ [c]
    (∀ out, NearestWins ClassDecl.properties PropertyDecl.name line out ↔ out = t.properties c) ∧
      ∀ out, NearestWins ClassDecl.methods MethodDecl.name line out ↔ out = t.methods c := by
  intro line
  have hproperties : t.properties c =
      layered (·.decl.name) (declaredAlong ClassDecl.properties line) := rfl
  have hmethods : t.methods c =
      layered (·.decl.name) (declaredAlong ClassDecl.methods line) := rfl
  rw [hproperties, hmethods]
  exact ⟨nearestWins_iff _ _ line, nearestWins_iff _ _ line⟩

def AtOrAbove (t : TypeTable) (i x : InterfaceDecl) : Prop :=
  t.interface? x.fqn = some x ∧ t.Extends i.fqn x.fqn

/-- No interface that can be reached from `fqn` extends itself, directly or not. -/
def AcyclicAbove (t : TypeTable) (fqn : String) : Prop :=
  ∀ a, t.Extends fqn a → ¬ Relation.TransGen t.ExtendsLink a a

theorem extends_of_mem_basesFirst {t : TypeTable} {seen names : List String} {j : InterfaceDecl}
    (h : j ∈ t.basesFirst seen names) : ∃ n ∈ names, t.Extends n j.fqn := by
  fun_induction basesFirst t seen names with
  | case1 => simp at h
  | case2 seen fqn names hnone ih =>
    obtain ⟨n, hn, hpath⟩ := ih h
    exact ⟨n, List.mem_cons_of_mem fqn hn, hpath⟩
  | case3 seen fqn names i hi hseen ih =>
    obtain ⟨n, hn, hpath⟩ := ih h
    exact ⟨n, List.mem_cons_of_mem fqn hn, hpath⟩
  | case4 seen fqn names i hi hseen bases ih₁ ih₂ =>
    rcases List.mem_append.1 h with h | h
    · obtain ⟨n, hn, hpath⟩ := ih₁ h
      exact ⟨fqn, List.mem_cons_self, .head ⟨i, hi, hn⟩ hpath⟩
    · rcases List.mem_cons.1 h with rfl | h
      · exact ⟨fqn, List.mem_cons_self, fqn_of_interface? hi ▸ .refl⟩
      · obtain ⟨n, hn, hpath⟩ := ih₂ h
        exact ⟨n, List.mem_cons_of_mem fqn hn, hpath⟩

/-- What a walk has visited is closed under links to registered interfaces. -/
theorem fqn_mem_lineage_of_extends {t : TypeTable} {i : InterfaceDecl}
    (hi : t.interface? i.fqn = some i) {a : String} (hpath : t.Extends i.fqn a) :
    ∀ x, t.interface? a = some x → a ∈ (t.lineage i).map (·.fqn) := by
  have hstart := mem_seenAfter t [] [i.fqn] i.fqn List.mem_cons_self i hi
  have hsettled := settled_seenAfter t [] [] [i.fqn] fun a ha => absurd ha List.not_mem_nil
  rw [seenAfter, List.append_nil, ← lineage_eq_basesFirst hi] at hstart hsettled
  induction hpath with
  | refl => exact fun _ _ => hstart
  | tail _ hlink ih =>
    intro x hx
    obtain ⟨y, hy, hb⟩ := hlink
    exact hsettled _ (ih y hy) List.not_mem_nil _ x ⟨y, hy, hb⟩ hx

theorem mem_lineage_iff {t : TypeTable} {i : InterfaceDecl} (hi : t.interface? i.fqn = some i)
    (x : InterfaceDecl) : x ∈ t.lineage i ↔ t.AtOrAbove i x := by
  constructor
  · intro hx
    refine ⟨interface?_of_mem_lineage hi hx, ?_⟩
    rw [lineage_eq_basesFirst hi] at hx
    obtain ⟨n, hn, hpath⟩ := extends_of_mem_basesFirst hx
    exact List.mem_singleton.1 hn ▸ hpath
  · rintro ⟨hx, hpath⟩
    obtain ⟨y, hy, hfqn⟩ := List.mem_map.1 (fqn_mem_lineage_of_extends hi hpath x hx)
    have hclass := interface?_of_mem_lineage hi hy
    rw [hfqn, hx] at hclass
    cases hclass
    exact hy

/-- In the list, every interface stands after the registered ones it extends, but for those named in
`seen`. -/
def BasesBefore (t : TypeTable) (seen : List String) (js : List InterfaceDecl) : Prop :=
  ∀ before j after, js = before ++ j :: after → ∀ b k, t.ExtendsLink j.fqn b →
    t.interface? b = some k → b ∈ before.map (·.fqn) ∨ b ∈ seen

theorem BasesBefore.cons {t : TypeTable} {seen : List String} {j : InterfaceDecl}
    {js : List InterfaceDecl}
    (hj : ∀ b k, t.ExtendsLink j.fqn b → t.interface? b = some k → b ∈ seen)
    (hjs : t.BasesBefore (j.fqn :: seen) js) : t.BasesBefore seen (j :: js) := by
  intro before j' after hsplit b k hlink hk
  cases before with
  | nil =>
    obtain ⟨rfl, -⟩ := List.cons.inj hsplit
    exact Or.inr (hj b k hlink hk)
  | cons d before =>
    obtain ⟨rfl, hrest⟩ := List.cons.inj hsplit
    have h := hjs before j' after hrest b k hlink hk
    simp only [List.map_cons, List.mem_cons] at h ⊢
    tauto

theorem BasesBefore.append {t : TypeTable} {seen : List String} {js ks : List InterfaceDecl}
    (hjs : t.BasesBefore seen js) (hks : t.BasesBefore (js.map (·.fqn) ++ seen) ks) :
    t.BasesBefore seen (js ++ ks) := by
  intro before j after hsplit b k hlink hk
  rcases List.append_eq_append_iff.1 hsplit with ⟨mid, rfl, hmid⟩ | ⟨mid, rfl, hmid⟩
  · have h := hks mid j after hmid b k hlink hk
    simp only [List.map_append, List.mem_append] at h ⊢
    tauto
  · cases mid with
    | nil =>
      have h := hks [] j after hmid.symm b k hlink hk
      simpa using h
    | cons d mid =>
      obtain ⟨rfl, -⟩ := List.cons.inj hmid
      exact hjs before j mid rfl b k hlink hk

/-- Without circles, no interface above `fqn` leads back to it. -/
theorem BasesBefore.forget_below {t : TypeTable} {seen : List String} {js : List InterfaceDecl}
    {fqn : String} (acyclic : t.AcyclicAbove fqn)
    (habove : ∀ j ∈ js, Relation.TransGen t.ExtendsLink fqn j.fqn)
    (hjs : t.BasesBefore (fqn :: seen) js) : t.BasesBefore seen js := by
  intro before j after hsplit b k hlink hk
  rcases hjs before j after hsplit b k hlink hk with h | h
  · exact Or.inl h
  · rcases List.mem_cons.1 h with rfl | h
    · exact absurd ((habove j (by simp [hsplit])).tail hlink) (acyclic b .refl)
    · exact Or.inr h

/-- Without circles, a walk lists every interface after those it extends. -/
theorem basesBefore_basesFirst (t : TypeTable) (seen names : List String)
    (acyclic : ∀ n ∈ names, t.AcyclicAbove n) :
    t.BasesBefore seen (t.basesFirst seen names) := by
  fun_induction basesFirst t seen names with
  | case1 =>
    intro before j after hsplit
    simp at hsplit
  | case2 seen fqn names hnone ih =>
    exact ih fun n hn => acyclic n (List.mem_cons_of_mem fqn hn)
  | case3 seen fqn names i hi hseen ih =>
    exact ih fun n hn => acyclic n (List.mem_cons_of_mem fqn hn)
  | case4 seen fqn names i hi hseen bases ih₁ ih₂ =>
    have hname : i.fqn = fqn := fqn_of_interface? hi
    subst hname
    have hself : t.AcyclicAbove i.fqn := acyclic i.fqn List.mem_cons_self
    have hbases : t.BasesBefore seen bases := by
      refine .forget_below hself ?_ (ih₁ ?_)
      · intro j hj
        obtain ⟨n, hn, hpath⟩ := extends_of_mem_basesFirst hj
        exact .head' ⟨i, hi, hn⟩ hpath
      · exact fun n hn a ha => hself a (.head ⟨i, hi, hn⟩ ha)
    refine hbases.append (.cons ?_ ?_)
    · rintro b k ⟨i', hi', hb⟩ hk
      rw [hi] at hi'
      cases hi'
      have h := mem_seenAfter t (i.fqn :: seen) i.interfaces b hb k hk
      rcases List.mem_append.1 h with h | h
      · exact List.mem_append_left _ h
      · rcases List.mem_cons.1 h with rfl | h
        · exact absurd (.single ⟨i, hi, hb⟩) (hself i.fqn .refl)
        · exact List.mem_append_right _ h
    · have hrest := ih₂ fun n hn => acyclic n (List.mem_cons_of_mem i.fqn hn)
      intro before j after hsplit b k hlink hk
      have h := hrest before j after hsplit b k hlink hk
      simp only [List.mem_append, List.mem_cons] at h ⊢
      tauto

/-- In a list with bases before, all that an interface extends stands before it. -/
theorem BasesBefore.of_transGen {t : TypeTable} {js : List InterfaceDecl}
    (hjs : t.BasesBefore [] js) {a b : String} (hpath : Relation.TransGen t.ExtendsLink a b)
    {k : InterfaceDecl} (hk : t.interface? b = some k) :
    ∀ before j after, js = before ++ j :: after → j.fqn = a → b ∈ before.map (·.fqn) := by
  induction hpath using Relation.TransGen.head_induction_on with
  | single hlink =>
    rintro before j after hsplit rfl
    exact (hjs before j after hsplit b k hlink hk).resolve_right List.not_mem_nil
  | head hlink hrest ih =>
    rintro before j after hsplit rfl
    obtain ⟨_, ⟨m, hm, -⟩, -⟩ := Relation.TransGen.head'_iff.1 hrest
    have hnext := (hjs before j after hsplit _ m hlink hm).resolve_right List.not_mem_nil
    obtain ⟨m', hm', hfqn⟩ := List.mem_map.1 hnext
    obtain ⟨first, second, rfl⟩ := List.append_of_mem hm'
    have hfirst := ih first m' (second ++ j :: after) (by simp [hsplit]) hfqn
    simp only [List.map_append, List.mem_append]
    exact Or.inl hfirst

/-- An interface that extends another stands after it. -/
theorem BasesBefore.mem_after {t : TypeTable} {before after : List InterfaceDecl}
    {x y : InterfaceDecl} (hjs : t.BasesBefore [] (before ++ x :: after))
    (hnodup : ((before ++ x :: after).map (·.fqn)).Nodup) (hx : t.interface? x.fqn = some x)
    (hy : y ∈ before ++ x :: after) (hpath : Relation.TransGen t.ExtendsLink y.fqn x.fqn) :
    y ∈ after := by
  have hfresh : x.fqn ∉ before.map (·.fqn) := by
    rw [List.map_append, List.map_cons, List.nodup_append] at hnodup
    exact fun hmem => hnodup.2.2 _ hmem _ List.mem_cons_self rfl
  rcases List.mem_append.1 hy with hy | hy
  · obtain ⟨first, second, rfl⟩ := List.append_of_mem hy
    have hfirst := hjs.of_transGen hpath hx first y (second ++ x :: after) (by simp) rfl
    exact absurd (by simp [hfirst]) hfresh
  · rcases List.mem_cons.1 hy with rfl | hy
    · exact absurd (hjs.of_transGen hpath hx before y after rfl rfl) hfresh
    · exact hy

theorem mem_interfaceProperties_name_iff {t : TypeTable} {i : InterfaceDecl}
    (hi : t.interface? i.fqn = some i) (n : String) :
    n ∈ (t.interfaceProperties i).map (·.decl.name) ↔
      ∃ x, t.AtOrAbove i x ∧ ∃ a ∈ x.properties, a.name = n := by
  have hnames := (overlay_layered Member.propertyName
    ((t.lineage i).flatMap InterfaceDecl.propertyMembers)).names
  change n ∈ (t.interfaceProperties i).map Member.propertyName ↔ _
  rw [interfaceProperties, hnames, List.mem_eraseDups]
  simp only [← mem_lineage_iff hi, List.map_flatMap, List.mem_flatMap, List.map_map, List.mem_map,
    InterfaceDecl.propertyMembers]
  rfl

/-- What an interface shows is declared at or above it, and no interface that extends the declaring
one declares its name. -/
theorem exists_owner_of_mem_interfaceProperties {t : TypeTable} {i : InterfaceDecl}
    (hi : t.interface? i.fqn = some i) (acyclic : t.AcyclicAbove i.fqn)
    {p : Member PropertyDecl} (hp : p ∈ t.interfaceProperties i) :
    ∃ x, t.AtOrAbove i x ∧ p.owner = x.fqn ∧ Latest PropertyDecl.name x.properties p.decl ∧
      ∀ y, t.AtOrAbove i y → Relation.TransGen t.ExtendsLink y.fqn x.fqn →
        ∀ a ∈ y.properties, a.name ≠ p.decl.name := by
  obtain ⟨before, x, after, hlineage, hlatest, hafter⟩ :=
    (latest_flatMap_iff _ _ p).1 ((mem_layered_iff _ p).1 hp)
  obtain ⟨a, rfl, hown⟩ := (latest_map_iff _ _ p).1 hlatest
  have hx : t.AtOrAbove i x := (mem_lineage_iff hi x).1 (by simp [hlineage])
  refine ⟨x, hx, rfl, hown, ?_⟩
  intro y hy hpath b hb
  have hbefore : t.BasesBefore [] (t.lineage i) := by
    rw [lineage_eq_basesFirst hi]
    exact basesBefore_basesFirst t [] [i.fqn] (by simpa using acyclic)
  have hnodup : ((t.lineage i).map (·.fqn)).Nodup := by
    rw [map_lineage hi]
    exact nodup_eraseDups _
  have hmem : y ∈ t.lineage i := (mem_lineage_iff hi y).2 hy
  rw [hlineage] at hbefore hnodup hmem
  exact hafter y (hbefore.mem_after hnodup hx.1 hmem hpath) ⟨y.fqn, b⟩ (List.mem_map_of_mem hb)

/-- Without circles of interfaces, an interface shows every name declared by it or above it once and
no other. Of an interface that declares the name it shows the last declaration, and never that of
one which another that extends it redeclares, in whatever order the extended interfaces are
listed. -/
theorem interfaceProperties_most_derived (t : TypeTable) (i : InterfaceDecl)
    (hi : t.interface? i.fqn = some i) (acyclic : t.AcyclicAbove i.fqn) :
    ((t.interfaceProperties i).map (·.decl.name)).Nodup ∧
      (∀ n, n ∈ (t.interfaceProperties i).map (·.decl.name) ↔
        ∃ x, t.AtOrAbove i x ∧ ∃ a ∈ x.properties, a.name = n) ∧
      ∀ p ∈ t.interfaceProperties i, ∃ x, t.AtOrAbove i x ∧ p.owner = x.fqn ∧
        Latest PropertyDecl.name x.properties p.decl ∧
        ∀ y, t.AtOrAbove i y → Relation.TransGen t.ExtendsLink y.fqn x.fqn →
          ∀ a ∈ y.properties, a.name ≠ p.decl.name := by
  refine ⟨(overlay_layered Member.propertyName _).nodup, mem_interfaceProperties_name_iff hi, ?_⟩
  intro p hp
  exact exists_owner_of_mem_interfaceProperties hi acyclic hp

end TypeTable

namespace Sample

def crown : InterfaceDecl where
  fqn := "n.I"
  properties := [.ofName "arn", .ofName "url"]

def side : InterfaceDecl where
  fqn := "n.IA"
  interfaces := ["n.I"]
  properties := [.ofName "arn"]

def foot : InterfaceDecl where
  fqn := "n.IAB"
  interfaces := ["n.IB", "n.IA", "n.I"]

def diamond : TypeTable where
  name := "n"
  interfaces := [crown, side, { fqn := "n.IB", interfaces := ["n.I"] }, foot]

/-- What a side of the diamond redeclares is not shown as the crown declares it. -/
theorem diamond_redeclared :
    diamond.interface? "n.IAB" = some foot ∧ diamond.AcyclicAbove "n.IAB" ∧
      "arn" ∈ (diamond.interfaceProperties foot).map (·.decl.name) ∧
      ∀ p ∈ diamond.interfaceProperties foot, p.decl.name = "arn" → p.owner ≠ "n.I" := by
  have hshorter : ∀ i ∈ diamond.interfaces, ∀ b ∈ i.interfaces, b.length < i.fqn.length := by
    decide
  have hdown : ∀ a b, Relation.TransGen diamond.ExtendsLink a b → b.length < a.length := by
    have hlink : ∀ a b, diamond.ExtendsLink a b → b.length < a.length := by
      rintro a b ⟨i, hi, hb⟩
      exact TypeTable.fqn_of_interface? hi ▸ hshorter i (List.mem_of_find?_eq_some hi) b hb
    intro a b hpath
    induction hpath with
    | single h => exact hlink _ _ h
    | tail _ h ih => exact Nat.lt_trans (hlink _ _ h) ih
  have acyclic : diamond.AcyclicAbove "n.IAB" :=
    fun a _ hcircle => Nat.lt_irrefl _ (hdown a a hcircle)
  have hfoot : diamond.interface? "n.IAB" = some foot := rfl
  have hlow : diamond.ExtendsLink "n.IAB" "n.IA" := ⟨foot, rfl, by decide⟩
  have hhigh : diamond.ExtendsLink "n.IA" "n.I" := ⟨side, rfl, by decide⟩
  have hside : diamond.AtOrAbove foot side := ⟨rfl, .single hlow⟩
  obtain ⟨-, hnames, hshown⟩ := diamond.interfaceProperties_most_derived foot hfoot acyclic
  refine ⟨hfoot, acyclic, (hnames "arn").2 ⟨side, hside, _, List.mem_cons_self, rfl⟩, ?_⟩
  intro p hp hname howner
  obtain ⟨x, -, hx, -, hbelow⟩ := hshown p hp
  have hpath : Relation.TransGen diamond.ExtendsLink side.fqn x.fqn := by
    rw [← hx, howner]
    exact .single hhigh
  exact hbelow side hside hpath _ List.mem_cons_self hname.symm

end Sample

end ResourceLint
