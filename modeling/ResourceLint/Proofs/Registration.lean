import ResourceLint.Proofs.Overlay
import ResourceLint.Proofs.Reachability
import Mathlib.Data.Nat.Find
import Mathlib.Order.Bounds.Basic

/-!
A table and the history of registrations that made it. The last registration of a name decides what
it stands for and whether it belongs to the assembly, and the classes of the assembly stand in the
order in which they came to belong to it for good.
-/

namespace ResourceLint

inductive Registration where
  | ofClass (c : ClassDecl) (own : Bool)
  | ofInterface (i : InterfaceDecl) (own : Bool)

namespace Registration

def enter (t : TypeTable) : Registration → TypeTable
  | .ofClass c true => t.addOwn c
  | .ofClass c false => t.addForeign c
  | .ofInterface i _ => t.addInterface i

def class? : Registration → Option (ClassDecl × Bool)
  | .ofClass c own => some (c, own)
  | .ofInterface _ _ => none

def interface? : Registration → Option InterfaceDecl
  | .ofClass _ _ => none
  | .ofInterface i _ => some i

end Registration

def TypeTable.replay (name : String) (rs : List Registration) : TypeTable :=
  rs.foldl Registration.enter { name := name }

theorem TypeTable.replay_concat (name : String) (rs : List Registration) (r : Registration) :
    replay name (rs ++ [r]) = r.enter (replay name rs) := by
  simp [replay, List.foldl_append]

/-- The last class registration of a history for a name is `c`, by the assembly itself or not. -/
def LastClass (rs : List Registration) (fqn : String) (c : ClassDecl) (own : Bool) : Prop :=
  c.fqn = fqn ∧ Latest (fun e => e.1.fqn) (rs.filterMap Registration.class?) (c, own)

def LastInterface (rs : List Registration) (fqn : String) (i : InterfaceDecl) : Prop :=
  i.fqn = fqn ∧ Latest (·.fqn) (rs.filterMap Registration.interface?) i

def ClassAt (rs : List Registration) (fqn : String) (own : Bool) (k : ℕ) : Prop :=
  ∃ c, rs[k]? = some (.ofClass c own) ∧ c.fqn = fqn

/-- The positions of the current local run of a class: its own registrations after the last one by
a dependency. -/
def localRun (rs : List Registration) (fqn : String) : Set ℕ :=
  {k | ClassAt rs fqn true k ∧ ∀ j, ClassAt rs fqn false j → j < k}

def BeganBefore (rs : List Registration) (f g : String) : Prop :=
  ∃ k m, IsLeast (localRun rs f) k ∧ IsLeast (localRun rs g) m ∧ k < m

/-- An item in place of those of its name is the one that is found under it. -/
theorem find?_replace {α : Type} {name : α → String} (items : List α) (a : α) (n : String) :
    (items.filter (fun b => name b ≠ name a) ++ [a]).find? (fun b => name b = n) =
      if n = name a then some a else items.find? (fun b => name b = n) := by
  rw [List.find?_append, List.find?_filter]
  by_cases h : n = name a
  · have hnone : ∀ b ∈ items, ¬ (name b ≠ name a ∧ name b = n) := by
      intro b _ hb
      exact hb.1 (hb.2.trans h)
    rw [if_pos h, List.find?_eq_none.2 (by simpa using hnone)]
    simp [h]
  · have hsame : ∀ b, (name b ≠ name a ∧ name b = n) ↔ name b = n := by
      intro b
      constructor
      · exact fun hb => hb.2
      · exact fun hb => ⟨fun heq => h (hb ▸ heq), hb⟩
    have hlast : name a ≠ n := Ne.symm h
    rw [if_neg h]
    simp only [decide_eq_true_eq, hsame]
    simp [hlast]

namespace TypeTable

theorem class?_enterClass (t : TypeTable) (c : ClassDecl) (fqn : String) :
    (t.enterClass c).class? fqn = if fqn = c.fqn then some c else t.class? fqn :=
  find?_replace t.classes c fqn

theorem own_addOwn (t : TypeTable) (c : ClassDecl) :
    (t.addOwn c).own = if c.fqn ∈ t.own then t.own else t.own ++ [c.fqn] := rfl

theorem mem_own_addOwn (t : TypeTable) (c : ClassDecl) (fqn : String) :
    fqn ∈ (t.addOwn c).own ↔ fqn ∈ t.own ∨ fqn = c.fqn := by
  rw [own_addOwn]
  by_cases hmem : c.fqn ∈ t.own
  · rw [if_pos hmem]
    constructor
    · exact Or.inl
    · intro h
      rcases h with h | rfl
      · exact h
      · exact hmem
  · rw [if_neg hmem]
    simp

theorem mem_own_addForeign (t : TypeTable) (c : ClassDecl) (fqn : String) :
    fqn ∈ (t.addForeign c).own ↔ fqn ∈ t.own ∧ fqn ≠ c.fqn := by
  simp [addForeign]

theorem interface?_addInterface (t : TypeTable) (i : InterfaceDecl) (fqn : String) :
    (t.addInterface i).interface? fqn = if fqn = i.fqn then some i else t.interface? fqn :=
  find?_replace t.interfaces i fqn

end TypeTable

section History

variable (rs : List Registration) (fqn : String)

theorem lastClass_concat_class (c d : ClassDecl) (own own' : Bool) :
    LastClass (rs ++ [.ofClass c own]) fqn d own' ↔
      if fqn = c.fqn then d = c ∧ own' = own else LastClass rs fqn d own' := by
  have hstep := latest_concat_named (fun e : ClassDecl × Bool => e.1.fqn)
    (rs.filterMap Registration.class?) (c, own) (d, own') fqn
  rw [Prod.mk.injEq] at hstep
  unfold LastClass
  rw [List.filterMap_append]
  exact hstep

theorem lastClass_concat_interface (i : InterfaceDecl) (own own' : Bool) (d : ClassDecl) :
    LastClass (rs ++ [.ofInterface i own]) fqn d own' ↔ LastClass rs fqn d own' := by
  have hnone : [Registration.ofInterface i own].filterMap Registration.class? = [] := rfl
  rw [LastClass, List.filterMap_append, hnone, List.append_nil]
  rfl

theorem lastInterface_concat_interface (i j : InterfaceDecl) (own : Bool) :
    LastInterface (rs ++ [.ofInterface i own]) fqn j ↔
      if fqn = i.fqn then j = i else LastInterface rs fqn j := by
  unfold LastInterface
  rw [List.filterMap_append]
  exact latest_concat_named (·.fqn) (rs.filterMap Registration.interface?) i j fqn

theorem lastInterface_concat_class (c : ClassDecl) (own : Bool) (j : InterfaceDecl) :
    LastInterface (rs ++ [.ofClass c own]) fqn j ↔ LastInterface rs fqn j := by
  have hnone : [Registration.ofClass c own].filterMap Registration.interface? = [] := rfl
  rw [LastInterface, List.filterMap_append, hnone, List.append_nil]
  rfl

theorem ClassAt.lt_length {rs : List Registration} {fqn : String} {own : Bool} {k : ℕ}
    (h : ClassAt rs fqn own k) : k < rs.length := by
  obtain ⟨c, hc, -⟩ := h
  exact (List.getElem?_eq_some_iff.1 hc).1

theorem classAt_concat_iff (r : Registration) (own : Bool) (k : ℕ) :
    ClassAt (rs ++ [r]) fqn own k ↔
      ClassAt rs fqn own k ∨ k = rs.length ∧ ∃ c, r = .ofClass c own ∧ c.fqn = fqn := by
  unfold ClassAt
  rcases Nat.lt_trichotomy k rs.length with hk | hk | hk
  · have hne : k ≠ rs.length := by omega
    rw [List.getElem?_append_left hk]
    simp [hne]
  · subst hk
    simp
  · have hne : k ≠ rs.length := by omega
    have hnone : (rs ++ [r])[k]? = none := by
      apply List.getElem?_eq_none
      rw [List.length_append, List.length_singleton]
      omega
    have hnone' : rs[k]? = none := List.getElem?_eq_none (by omega)
    simp [hnone, hnone', hne]

theorem mem_localRun_iff (k : ℕ) :
    k ∈ localRun rs fqn ↔ ClassAt rs fqn true k ∧ ∀ j, ClassAt rs fqn false j → j < k :=
  Iff.rfl

/-- A registration of another type leaves the local run of a class as it is. -/
theorem localRun_concat_other (r : Registration) (h : ∀ c own, r = .ofClass c own → c.fqn ≠ fqn) :
    localRun (rs ++ [r]) fqn = localRun rs fqn := by
  have hsame : ∀ own k, ClassAt (rs ++ [r]) fqn own k ↔ ClassAt rs fqn own k := by
    intro own k
    rw [classAt_concat_iff]
    constructor
    · intro hk
      rcases hk with hk | ⟨-, c, hc, hfqn⟩
      · exact hk
      · exact absurd hfqn (h c own hc)
    · exact Or.inl
  simp only [localRun, hsame]

theorem localRun_concat_class_of_ne (c : ClassDecl) (own : Bool) (h : fqn ≠ c.fqn) :
    localRun (rs ++ [.ofClass c own]) fqn = localRun rs fqn := by
  apply localRun_concat_other
  intro d own' hd
  cases hd
  exact Ne.symm h

theorem localRun_concat_interface (i : InterfaceDecl) (own : Bool) :
    localRun (rs ++ [.ofInterface i own]) fqn = localRun rs fqn := by
  apply localRun_concat_other
  intro d own' hd
  cases hd

/-- One more registration by the assembly joins the run. -/
theorem localRun_concat_own (c : ClassDecl) :
    localRun (rs ++ [.ofClass c true]) c.fqn = insert rs.length (localRun rs c.fqn) := by
  ext k
  have hown : ClassAt (rs ++ [.ofClass c true]) c.fqn true k ↔
      ClassAt rs c.fqn true k ∨ k = rs.length := by
    rw [classAt_concat_iff]
    simp
  have hforeign : ∀ j, ClassAt (rs ++ [.ofClass c true]) c.fqn false j ↔
      ClassAt rs c.fqn false j := by
    intro j
    rw [classAt_concat_iff]
    simp
  simp only [mem_localRun_iff, Set.mem_insert_iff, hown, hforeign]
  constructor
  · intro hk
    rcases hk.1 with hat | heq
    · exact Or.inr ⟨hat, hk.2⟩
    · exact Or.inl heq
  · intro hk
    rcases hk with rfl | hk
    · exact ⟨Or.inr rfl, fun j hj => hj.lt_length⟩
    · exact ⟨Or.inl hk.1, hk.2⟩

/-- A registration by a dependency ends the run. -/
theorem localRun_concat_foreign (c : ClassDecl) :
    localRun (rs ++ [.ofClass c false]) c.fqn = ∅ := by
  apply Set.eq_empty_iff_forall_notMem.2
  intro k hk
  have hlast : ClassAt (rs ++ [.ofClass c false]) c.fqn false rs.length :=
    (classAt_concat_iff rs c.fqn _ false rs.length).2 (Or.inr ⟨rfl, c, rfl, rfl⟩)
  have hat : ClassAt rs c.fqn true k := by
    rcases (classAt_concat_iff rs c.fqn _ true k).1 hk.1 with hat | ⟨-, d, hd, -⟩
    · exact hat
    · simp at hd
  have hlt := hk.2 rs.length hlast
  have hlt' := hat.lt_length
  omega

theorem localRun_nonempty_iff :
    (localRun rs fqn).Nonempty ↔ ∃ c, LastClass rs fqn c true := by
  induction rs using List.reverseRecOn with
  | nil =>
    constructor
    · intro h
      obtain ⟨k, ⟨c, hc, -⟩, -⟩ := h
      simp at hc
    · intro h
      obtain ⟨c, -, hc⟩ := h
      exact absurd hc.mem List.not_mem_nil
  | append_singleton rs r ih =>
    cases r with
    | ofInterface i own => simp only [localRun_concat_interface, lastClass_concat_interface, ih]
    | ofClass c own =>
      simp only [lastClass_concat_class]
      by_cases h : fqn = c.fqn
      · subst h
        cases own with
        | true => simp [localRun_concat_own]
        | false => simp [localRun_concat_foreign]
      · simp only [localRun_concat_class_of_ne rs fqn c own h, if_neg h, ih]

end History

/-- A run that is under way goes on when the assembly registers a class. -/
theorem isLeast_localRun_concat_own {rs : List Registration} {fqn : String} {k : ℕ} (c : ClassDecl)
    (h : IsLeast (localRun rs fqn) k) : IsLeast (localRun (rs ++ [.ofClass c true]) fqn) k := by
  by_cases hfqn : fqn = c.fqn
  · subst hfqn
    rw [localRun_concat_own]
    refine ⟨Set.mem_insert_of_mem _ h.1, ?_⟩
    intro m hm
    rcases Set.mem_insert_iff.1 hm with rfl | hm
    · exact h.1.1.lt_length.le
    · exact h.2 hm
  · rw [localRun_concat_class_of_ne rs fqn c true hfqn]
    exact h

theorem BeganBefore.concat_own {rs : List Registration} {f g : String} (c : ClassDecl)
    (h : BeganBefore rs f g) : BeganBefore (rs ++ [.ofClass c true]) f g := by
  obtain ⟨k, m, hk, hm, hlt⟩ := h
  exact ⟨k, m, isLeast_localRun_concat_own c hk, isLeast_localRun_concat_own c hm, hlt⟩

theorem BeganBefore.of_localRun_eq {rs rs' : List Registration} {f g : String}
    (hf : localRun rs' f = localRun rs f) (hg : localRun rs' g = localRun rs g)
    (h : BeganBefore rs f g) : BeganBefore rs' f g := by
  unfold BeganBefore
  rw [hf, hg]
  exact h

/-- Every run has a beginning. -/
theorem exists_isLeast_localRun {rs : List Registration} {fqn : String}
    (h : (localRun rs fqn).Nonempty) : ∃ k, IsLeast (localRun rs fqn) k := by
  classical
  exact ⟨Nat.find h, Nat.find_spec h, fun _ hk => Nat.find_min' h hk⟩

structure Follows (rs : List Registration) (t : TypeTable) : Prop where
  class_iff : ∀ fqn c, t.class? fqn = some c ↔ ∃ own, LastClass rs fqn c own
  interface_iff : ∀ fqn i, t.interface? fqn = some i ↔ LastInterface rs fqn i
  own_iff : ∀ fqn, fqn ∈ t.own ↔ (localRun rs fqn).Nonempty
  ordered : t.own.Pairwise (BeganBefore rs)

namespace Follows

variable {rs : List Registration} {t : TypeTable}

theorem class_enterClass (h : Follows rs t) (c : ClassDecl) (own : Bool) (fqn : String)
    (d : ClassDecl) :
    (t.enterClass c).class? fqn = some d ↔
      ∃ own', LastClass (rs ++ [.ofClass c own]) fqn d own' := by
  simp only [TypeTable.class?_enterClass, lastClass_concat_class]
  by_cases hfqn : fqn = c.fqn
  · simp [hfqn, eq_comm]
  · simp only [if_neg hfqn, h.class_iff]

theorem addOwn (h : Follows rs t) (c : ClassDecl) :
    Follows (rs ++ [.ofClass c true]) (t.addOwn c) where
  class_iff := h.class_enterClass c true
  interface_iff fqn i := by
    rw [lastInterface_concat_class]
    exact h.interface_iff fqn i
  own_iff fqn := by
    rw [TypeTable.mem_own_addOwn, h.own_iff]
    by_cases hfqn : fqn = c.fqn
    · subst hfqn
      simp [localRun_concat_own]
    · rw [localRun_concat_class_of_ne rs fqn c true hfqn]
      simp [hfqn]
  ordered := by
    have hkept : t.own.Pairwise (BeganBefore (rs ++ [.ofClass c true])) :=
      h.ordered.imp (BeganBefore.concat_own c)
    rw [TypeTable.own_addOwn]
    by_cases hmem : c.fqn ∈ t.own
    · rw [if_pos hmem]
      exact hkept
    · -- The class begins a run here, after all that are under way.
      have hempty : localRun rs c.fqn = ∅ :=
        Set.not_nonempty_iff_eq_empty.1 fun hrun => hmem ((h.own_iff c.fqn).2 hrun)
      have hlast : IsLeast (localRun (rs ++ [.ofClass c true]) c.fqn) rs.length := by
        rw [localRun_concat_own, hempty]
        simp
      rw [if_neg hmem, List.pairwise_append]
      refine ⟨hkept, by simp, ?_⟩
      intro f hf g hg
      obtain rfl : g = c.fqn := List.mem_singleton.1 hg
      obtain ⟨k, hk⟩ := exists_isLeast_localRun ((h.own_iff f).1 hf)
      exact ⟨k, rs.length, isLeast_localRun_concat_own c hk, hlast, hk.1.1.lt_length⟩

theorem addForeign (h : Follows rs t) (c : ClassDecl) :
    Follows (rs ++ [.ofClass c false]) (t.addForeign c) where
  class_iff := h.class_enterClass c false
  interface_iff fqn i := by
    rw [lastInterface_concat_class]
    exact h.interface_iff fqn i
  own_iff fqn := by
    rw [TypeTable.mem_own_addForeign, h.own_iff]
    by_cases hfqn : fqn = c.fqn
    · subst hfqn
      simp [localRun_concat_foreign]
    · rw [localRun_concat_class_of_ne rs fqn c false hfqn]
      simp [hfqn]
  ordered := by
    have hrun : ∀ f ∈ (t.addForeign c).own,
        localRun (rs ++ [.ofClass c false]) f = localRun rs f := by
      intro f hf
      have hne : f ≠ c.fqn := ((TypeTable.mem_own_addForeign t c f).1 hf).2
      exact localRun_concat_class_of_ne rs f c false hne
    have hkept : (t.addForeign c).own.Pairwise (BeganBefore rs) := h.ordered.filter _
    exact hkept.imp_of_mem fun hf hg hbefore => hbefore.of_localRun_eq (hrun _ hf) (hrun _ hg)

theorem addInterface (h : Follows rs t) (i : InterfaceDecl) (own : Bool) :
    Follows (rs ++ [.ofInterface i own]) (t.addInterface i) where
  class_iff fqn c := by
    simp only [lastClass_concat_interface]
    exact h.class_iff fqn c
  interface_iff fqn j := by
    rw [TypeTable.interface?_addInterface, lastInterface_concat_interface]
    by_cases hfqn : fqn = i.fqn
    · simp [hfqn, eq_comm]
    · simp only [if_neg hfqn, h.interface_iff]
  own_iff fqn := by
    rw [localRun_concat_interface]
    exact h.own_iff fqn
  ordered := by
    have hrun := fun fqn => localRun_concat_interface rs fqn i own
    exact h.ordered.imp fun hbefore => hbefore.of_localRun_eq (hrun _) (hrun _)

/-- One registration keeps the agreement of table and history. -/
theorem enter (h : Follows rs t) (r : Registration) : Follows (rs ++ [r]) (r.enter t) := by
  cases r with
  | ofClass c own =>
    cases own with
    | true => exact h.addOwn c
    | false => exact h.addForeign c
  | ofInterface i own => exact h.addInterface i own

end Follows

theorem follows_replay (name : String) (rs : List Registration) :
    Follows rs (TypeTable.replay name rs) := by
  induction rs using List.reverseRecOn with
  | nil =>
    refine ⟨?_, ?_, ?_, .nil⟩
    · intro fqn c
      simp [TypeTable.replay, TypeTable.class?, LastClass, Latest]
    · intro fqn i
      simp [TypeTable.replay, TypeTable.interface?, LastInterface, Latest]
    · intro fqn
      simp [TypeTable.replay, localRun_nonempty_iff, LastClass, Latest]
  | append_singleton rs r ih =>
    rw [TypeTable.replay_concat]
    exact ih.enter r

namespace Follows

variable {rs : List Registration} {t : TypeTable}

theorem exists_class_of_mem_own (h : Follows rs t) {fqn : String} (hfqn : fqn ∈ t.own) :
    ∃ c, t.class? fqn = some c := by
  obtain ⟨c, hc⟩ := (localRun_nonempty_iff rs fqn).1 ((h.own_iff fqn).1 hfqn)
  exact ⟨c, (h.class_iff fqn c).2 ⟨true, hc⟩⟩

/-- The own classes stand under the own names, one for each. -/
theorem map_fqn_ownClasses (h : Follows rs t) : t.ownClasses.map (·.fqn) = t.own := by
  have hnames : ∀ names : List String, (∀ n ∈ names, ∃ c, t.class? n = some c) →
      (names.filterMap t.class?).map (·.fqn) = names := by
    intro names
    induction names with
    | nil => exact fun _ => rfl
    | cons n names ih =>
      intro hmem
      obtain ⟨c, hc⟩ := hmem n List.mem_cons_self
      have hrest := ih fun m hm => hmem m (List.mem_cons_of_mem n hm)
      rw [List.filterMap_cons_some hc, List.map_cons, hrest, TypeTable.fqn_of_class? hc]
  exact hnames t.own fun n hn => h.exists_class_of_mem_own hn

/-- Two names stand in the order in which their runs began. -/
theorem pair_sublist_iff (h : Follows rs t) (f g : String) :
    [f, g].Sublist t.own ↔ BeganBefore rs f g := by
  constructor
  · intro hpair
    exact h.ordered.forall_sublist hpair
  · intro hbefore
    obtain ⟨k, m, hk, hm, hlt⟩ := hbefore
    have hf : f ∈ t.own := (h.own_iff f).2 ⟨k, hk.1⟩
    have hg : g ∈ t.own := (h.own_iff g).2 ⟨m, hm.1⟩
    obtain ⟨before, after, hsplit⟩ := List.append_of_mem hf
    have hplace : g ∈ before ∨ g ∈ f :: after := List.mem_append.1 (hsplit ▸ hg)
    rcases hplace with hplace | hplace
    · -- The list would have `g` first, against the beginnings of the runs.
      have hpair : [g, f].Sublist t.own := by
        rw [hsplit]
        exact (List.singleton_sublist.2 hplace).append (List.singleton_sublist.2 List.mem_cons_self)
      obtain ⟨m', k', hm', hk', hlt'⟩ := h.ordered.forall_sublist hpair
      have hmm := hm.unique hm'
      have hkk := hk.unique hk'
      omega
    · rcases List.mem_cons.1 hplace with rfl | hplace
      · have hkm := hk.unique hm
        omega
      · rw [hsplit]
        have htail : [f, g].Sublist (f :: after) := (List.singleton_sublist.2 hplace).cons_cons f
        exact htail.trans (List.sublist_append_right before _)

theorem nodup_own (h : Follows rs t) : t.own.Nodup := by
  apply h.ordered.imp
  intro f g hbefore heq
  obtain ⟨k, m, hk, hm, hlt⟩ := hbefore
  have hkm := (heq ▸ hk).unique hm
  omega

end Follows

/-- The table after any history of registrations: look-ups give the last registration of a name,
and the assembly has the classes whose last registration is its own, each once, in the order in
which their current local runs began. -/
theorem replay_eq_history (name : String) (rs : List Registration) :
    let t := TypeTable.replay name rs
    (∀ fqn c, t.class? fqn = some c ↔ ∃ own, LastClass rs fqn c own) ∧
      (∀ fqn i, t.interface? fqn = some i ↔ LastInterface rs fqn i) ∧
      (∀ fqn, fqn ∈ t.ownClasses.map (·.fqn) ↔ ∃ c, LastClass rs fqn c true) ∧
      (t.ownClasses.map (·.fqn)).Nodup ∧
      (∀ c ∈ t.ownClasses, t.class? c.fqn = some c) ∧
      ∀ f g, [f, g].Sublist (t.ownClasses.map (·.fqn)) ↔ BeganBefore rs f g := by
  have h := follows_replay name rs
  refine ⟨h.class_iff, h.interface_iff, ?_, ?_, ?_, ?_⟩
  · intro fqn
    rw [h.map_fqn_ownClasses, h.own_iff, localRun_nonempty_iff]
  · rw [h.map_fqn_ownClasses]
    exact h.nodup_own
  · intro c hc
    exact TypeTable.class?_of_mem_ownClasses hc
  · intro f g
    rw [h.map_fqn_ownClasses]
    exact h.pair_sublist_iff f g

end ResourceLint
