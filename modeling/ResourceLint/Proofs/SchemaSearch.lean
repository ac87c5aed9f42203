import ResourceLint.Proofs.Ancestry
import ResourceLint.Resource.Schema

/-!
Finding the schema entry of a class is a plain search: a tagged class names its entry itself, and
for any other the class and its ancestors are asked in order until one names an entry. Asking each
ancestor for its own ancestors in turn adds nothing to that line.
-/

namespace ResourceLint

def Catalog.searched (cat : Catalog) : List ClassDecl → List ClassDecl
  | [] => []
  | c :: cs => if (cat.ownEntry? c).isSome then [c] else c :: cat.searched cs

theorem Catalog.findSome?_searched (cat : Catalog) (cs : List ClassDecl) :
    (cat.searched cs).findSome? cat.ownEntry? = cs.findSome? cat.ownEntry? := by
  induction cs with
  | nil => rfl
  | cons c cs ih =>
    cases h : cat.ownEntry? c with
    | none => simp [searched, h, ih]
    | some s => simp [searched, h]

namespace TypeTable

/-- The base of a class that is registered under one of the names has one of the names too. -/
def BaseClosed (t : TypeTable) (names : List String) : Prop :=
  ∀ c, t.class? c.fqn = some c → c.fqn ∈ names → ∀ b, t.base? c = some b → b.fqn ∈ names

/-- A class and its ancestors are closed under bases. -/
theorem baseClosed_line {t : TypeTable} {c : ClassDecl} (hc : t.class? c.fqn = some c) :
    t.BaseClosed (c.fqn :: (t.ancestors c).map (·.fqn)) := by
  intro d hd hmem b hb
  have hline : d ∈ c :: t.ancestors c := mem_line_of_fqn_mem hc hd hmem
  exact List.mem_map_of_mem (mem_line_of_base? hc hline hb)

theorem mem_of_mem_ancestorsFrom {t : TypeTable} {names : List String}
    (closed : t.BaseClosed names) (seen : List String) (c : ClassDecl)
    (hc : t.class? c.fqn = some c) (hmem : c.fqn ∈ names) :
    ∀ d ∈ t.ancestorsFrom seen c, d.fqn ∈ names := by
  fun_induction ancestorsFrom t seen c with
  | case1 => simp
  | case2 => simp
  | case3 seen c b hb hseen ih =>
    have hbmem : b.fqn ∈ names := closed c hc hmem b hb
    intro d hd
    rcases List.mem_cons.1 hd with rfl | hd
    · exact hbmem
    · exact ih (class?_of_base? hb) hbmem d hd

/-- Having seen less, the walk along bases goes at least as far. -/
theorem ancestorsFrom_prefix_of_subset (t : TypeTable) (seen seen' : List String) (c : ClassDecl)
    (h : ∀ a ∈ seen', a ∈ seen) : t.ancestorsFrom seen c <+: t.ancestorsFrom seen' c := by
  fun_induction ancestorsFrom t seen c generalizing seen' with
  | case1 => exact List.nil_prefix
  | case2 => exact List.nil_prefix
  | case3 seen c b hb hseen ih =>
    have hstep : t.ancestorsFrom seen' c = b :: t.ancestorsFrom (b.fqn :: seen') b := by
      rw [ancestorsFrom_unfold, base?, hb]
      exact if_neg fun hmem => hseen (h b.fqn hmem)
    rw [hstep]
    refine List.prefix_cons_inj b |>.2 (ih _ ?_)
    intro a ha
    rcases List.mem_cons.1 ha with rfl | ha
    · exact List.mem_cons_self
    · exact List.mem_cons_of_mem _ (h a ha)

theorem consultedFrom_eq_nil (t : TypeTable) (cat : Catalog) (visited pending : List String)
    (h : ∀ n ∈ pending, n ∈ visited) : t.consultedFrom cat visited pending = [] := by
  induction pending with
  | nil => rw [consultedFrom]
  | cons n pending ih =>
    have hrest := ih fun m hm => h m (List.mem_cons_of_mem n hm)
    rw [consultedFrom]
    split
    · exact hrest
    · rename_i c hc
      have hc' : c.fqn ∈ visited := fqn_of_class? hc ▸ h n List.mem_cons_self
      rw [if_pos hc']
      exact hrest

/-- A registered class that is next in line, by what it says of its entry. -/
theorem consultedFrom_cons {t : TypeTable} {c : ClassDecl} (hc : t.class? c.fqn = some c)
    (cat : Catalog) (visited pending : List String) :
    t.consultedFrom cat visited (c.fqn :: pending) =
      if c.fqn ∈ visited then t.consultedFrom cat visited pending
      else if (cat.ownEntry? c).isSome then [c]
      else if c.schemaClue.isTagged then c :: t.consultedFrom cat (c.fqn :: visited) pending
      else c :: t.consultedFrom cat (c.fqn :: visited)
        ((t.ancestors c).map (·.fqn) ++ pending) := by
  rw [consultedFrom]
  split
  · rename_i hnone
    rw [hc] at hnone
    cases hnone
  · rename_i d hd
    rw [hc] at hd
    cases hd
    rfl

/-- With the rest of a line pending, the rest of the line is searched. What else is pending lies on
the line, so it has been visited when its turn comes. -/
theorem consultedFrom_eq_searched (t : TypeTable) (cat : Catalog) (line : List String)
    (closed : t.BaseClosed line) (seen : List String) (c : ClassDecl)
    (hline : ∀ n ∈ line, n ∈ seen ∨ n ∈ (t.ancestorsFrom seen c).map (·.fqn))
    (hmem : ∀ d ∈ t.ancestorsFrom seen c, d.fqn ∈ line) (others : List String)
    (hothers : ∀ n ∈ others, n ∈ line) :
    t.consultedFrom cat seen ((t.ancestorsFrom seen c).map (·.fqn) ++ others) =
      cat.searched (t.ancestorsFrom seen c) := by
  fun_induction ancestorsFrom t seen c generalizing others with
  | case1 seen c _ =>
    apply consultedFrom_eq_nil
    intro n hn
    exact (hline n (hothers n hn)).resolve_right List.not_mem_nil
  | case2 seen c _ _ _ =>
    apply consultedFrom_eq_nil
    intro n hn
    exact (hline n (hothers n hn)).resolve_right List.not_mem_nil
  | case3 seen c b hb hseen ih =>
    have hclass : t.class? b.fqn = some b := class?_of_base? hb
    have hblen : b.fqn ∈ line := hmem b List.mem_cons_self
    have hline' : ∀ n ∈ line, n ∈ b.fqn :: seen ∨
        n ∈ (t.ancestorsFrom (b.fqn :: seen) b).map (·.fqn) := by
      intro n hn
      have h := hline n hn
      simp only [List.mem_cons, List.map_cons] at h ⊢
      tauto
    have hrest := ih hline' fun d hd => hmem d (List.mem_cons_of_mem b hd)
    rw [List.map_cons, List.cons_append, consultedFrom_cons hclass, if_neg hseen, Catalog.searched]
    split
    · rfl
    · split
      · rw [hrest others hothers]
      · -- The ancestors of `b` begin with the rest of the line and stay on it.
        obtain ⟨back, hback⟩ := ancestorsFrom_prefix_of_subset t (b.fqn :: seen) [b.fqn] b
          (by simp)
        have hon : ∀ d ∈ t.ancestors b, d.fqn ∈ line :=
          mem_of_mem_ancestorsFrom closed [b.fqn] b hclass hblen
        rw [ancestors, ← hback, List.map_append, List.append_assoc, hrest]
        intro n hn
        rcases List.mem_append.1 hn with hn | hn
        · obtain ⟨d, hd, rfl⟩ := List.mem_map.1 hn
          exact hon d (by rw [ancestors, ← hback]; exact List.mem_append_right _ hd)
        · rcases List.mem_append.1 hn with hn | hn
          · obtain ⟨d, hd, rfl⟩ := List.mem_map.1 hn
            exact hmem d (List.mem_cons_of_mem b hd)
          · exact hothers n hn

def searchLine (t : TypeTable) (c : ClassDecl) : List ClassDecl :=
  if c.schemaClue.isTagged then [c] else c :: t.ancestors c

theorem consulted_eq_searched {t : TypeTable} (cat : Catalog) {c : ClassDecl}
    (hc : t.class? c.fqn = some c) : t.consulted cat c = cat.searched (t.searchLine c) := by
  unfold consulted searchLine
  by_cases htag : c.schemaClue.isTagged = true
  · simp [htag, Catalog.searched]
  · cases hown : cat.ownEntry? c with
    | some s => simp [htag, hown, Catalog.searched]
    | none =>
      have h := consultedFrom_eq_searched t cat _ (baseClosed_line hc) [c.fqn] c
        (by simp [ancestors]) (fun d hd => List.mem_cons_of_mem _ (List.mem_map_of_mem hd)) []
        (by simp)
      rw [List.append_nil] at h
      simp [htag, hown, Catalog.searched, ancestors, h]

/-- The schema entry of a class is the first that a class of its search line names. -/
theorem schemaFor?_eq_findSome? {t : TypeTable} (cat : Catalog) {c : ClassDecl}
    (hc : t.class? c.fqn = some c) :
    t.schemaFor? cat c = (t.searchLine c).findSome? cat.ownEntry? := by
  rw [schemaFor?, consulted_eq_searched cat hc, Catalog.findSome?_searched]

/-- The schema entry that a class wraps: the first that the class or, if it has no tag of its own,
one of its ancestors names. -/
def Wraps (t : TypeTable) (cat : Catalog) (c : ClassDecl) (s : SchemaEntry) : Prop :=
  ∃ ds, t.Ancestry c ds ∧
    (if c.schemaClue.isTagged then [c] else c :: ds).findSome? cat.ownEntry? = some s

theorem wraps_iff {t : TypeTable} (cat : Catalog) {c : ClassDecl} (hc : t.class? c.fqn = some c)
    (s : SchemaEntry) : t.Wraps cat c s ↔ t.schemaFor? cat c = some s := by
  rw [schemaFor?_eq_findSome? cat hc, searchLine]
  simp only [Wraps, ancestry_iff, exists_eq_left]

end TypeTable

def ClassDecl.namedType? (c : ClassDecl) : Option String :=
  match c.tag? resourceTag with
  | some tag => some (Text.trim tag)
  | none => Naming.inferredType? c.fqn

def Catalog.named? (cat : Catalog) (c : ClassDecl) : Option SchemaEntry :=
  c.namedType?.bind cat.find?

def Catalog.askedOf (cat : Catalog) (line : List ClassDecl) : List ClassDecl :=
  line.takeWhile (fun c => (cat.named? c).isNone)
    ++ (line.dropWhile fun c => (cat.named? c).isNone).take 1

theorem ClassDecl.typeName?_schemaClue (c : ClassDecl) : c.schemaClue.typeName? = c.namedType? := by
  unfold schemaClue namedType?
  cases c.tag? resourceTag with
  | some tag => rfl
  | none => cases Naming.inferredType? c.fqn <;> rfl

theorem ClassDecl.isTagged_schemaClue (c : ClassDecl) :
    c.schemaClue.isTagged = (c.tag? resourceTag).isSome := by
  unfold schemaClue
  cases c.tag? resourceTag with
  | some tag => rfl
  | none => cases Naming.inferredType? c.fqn <;> rfl

theorem Catalog.ownEntry?_eq_named? (cat : Catalog) : cat.ownEntry? = cat.named? := by
  funext c
  unfold ownEntry? named?
  rw [c.typeName?_schemaClue]

theorem Catalog.searched_eq_askedOf (cat : Catalog) (line : List ClassDecl) :
    cat.searched line = cat.askedOf line := by
  induction line with
  | nil => rfl
  | cons c line ih =>
    rw [searched, ownEntry?_eq_named?, ih, askedOf, askedOf]
    cases h : cat.named? c <;> simp [h]

namespace TypeTable

/-- A class and its ancestors are different classes. -/
theorem nodup_searchLine (t : TypeTable) (c : ClassDecl) :
    ((t.searchLine c).map (·.fqn)).Nodup := by
  have hline : t.LineFrom [c.fqn] c (t.ancestors c) := (ancestry_iff t c _).2 rfl
  have hfresh : c.fqn ∉ (t.ancestors c).map (·.fqn) := by
    intro hmem
    obtain ⟨d, hd, hfqn⟩ := List.mem_map.1 hmem
    exact hline.fresh d hd (hfqn ▸ List.mem_cons_self)
  unfold searchLine
  split
  · simp
  · exact List.nodup_cons.2 ⟨hfresh, hline.distinct⟩

/-- The search for the schema entry of a class goes along one line of classes, the class alone if it
is tagged and otherwise the class and its ancestors, and it stops at the first that names an entry.
Each class of that part of the line is looked up once and logged once, in order, and no other. -/
theorem schemaFor?_refines_search (t : TypeTable) (cat : Catalog) (c : ClassDecl)
    (hc : t.class? c.fqn = some c) :
    let line := if (c.tag? resourceTag).isSome then [c] else c :: t.ancestors c
    ((c.tag? resourceTag).isSome → t.schemaFor? cat c = cat.named? c) ∧
      (c.tag? resourceTag = none →
        t.schemaFor? cat c = (c :: t.ancestors c).findSome? cat.named?) ∧
      t.consulted cat c = cat.askedOf line ∧
      ((cat.askedOf line).map (·.fqn)).Nodup ∧
      (t.consulted cat c).filterMap (·.schemaClue.typeName?) =
        (cat.askedOf line).filterMap ClassDecl.namedType? ∧
      t.schemaLog cat c = (cat.askedOf line).flatMap cat.clueLog := by
  intro line
  have hline : t.searchLine c = line := by rw [searchLine, c.isTagged_schemaClue]
  have hfound : t.schemaFor? cat c = line.findSome? cat.named? := by
    rw [schemaFor?_eq_findSome? cat hc, hline, cat.ownEntry?_eq_named?]
  have hasked : t.consulted cat c = cat.askedOf line := by
    rw [consulted_eq_searched cat hc, hline, cat.searched_eq_askedOf]
  have hpart : (cat.askedOf line).Sublist line := by
    have h := (List.take_sublist 1 (line.dropWhile fun c => (cat.named? c).isNone)).append_left
      (line.takeWhile fun c => (cat.named? c).isNone)
    rwa [List.takeWhile_append_dropWhile] at h
  refine ⟨?_, ?_, hasked, ?_, ?_, ?_⟩
  · intro htag
    rw [hfound, show line = [c] from if_pos htag]
    simp
  · intro htag
    rw [hfound, show line = c :: t.ancestors c from if_neg (by simp [htag])]
  · exact (hline ▸ t.nodup_searchLine c).sublist (hpart.map _)
  · rw [hasked, funext ClassDecl.typeName?_schemaClue]
  · rw [schemaLog, hasked]

end TypeTable

namespace Sample

/-- Three classes in a circle of bases. The first has no tag and a name that suggests no entry, the
second a tag that no entry has, and the third a tag with blanks around it. -/
def ring : TypeTable where
  name := "n"
  classes :=
    [{ fqn := "n.A", base := some "n.B" },
      { fqn := "n.B", base := some "n.C", docs := Docs.empty.withTag "resource" "Lost" },
      { fqn := "n.C", base := some "n.A", docs := Docs.empty.withTag "resource" " Sheet " }]

theorem ring_search :
    ring.class? "n.A" = some { fqn := "n.A", base := some "n.B" } ∧
      (ring.schemaFor? ⟨[⟨"Sheet", []⟩]⟩ { fqn := "n.A", base := some "n.B" }) =
        some ⟨"Sheet", []⟩ ∧
      (ring.consulted ⟨[⟨"Sheet", []⟩]⟩ { fqn := "n.A", base := some "n.B" }).map (·.fqn) =
        ["n.A", "n.B", "n.C"] := by
  have hc : ring.class? "n.A" = some { fqn := "n.A", base := some "n.B" } := rfl
  obtain ⟨-, hfound, hasked, -⟩ :=
    ring.schemaFor?_refines_search ⟨[⟨"Sheet", []⟩]⟩ { fqn := "n.A", base := some "n.B" } hc
  refine ⟨hc, ?_, ?_⟩
  · rw [hfound rfl]
    decide +kernel
  · rw [hasked]
    decide +kernel

end Sample

end ResourceLint
