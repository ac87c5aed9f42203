import ResourceLint.Proofs.Engine
import Mathlib.Data.Prod.Lex

/-!
What is recorded when a method is compared with what is expected of it. The faults of a method are
stated one by one, without the checks: each is found exactly if it is there, they are recorded in a
fixed order after what was recorded before, and the comparison holds exactly if there are none.
-/

namespace ResourceLint

inductive SignatureFault where
  | returns (expected : TypeRef) (actual : Option TypeRef)
  | count (expected actual : ℕ)
  | name (index : ℕ) (expected actual : String)
  | type (index : ℕ) (expected actual : TypeRef)
  | optional (index : ℕ) (expected actual : Bool)

namespace SignatureFault

/-- The place in the order of faults: those of the method itself come first, then those of its
parameters by position, and for each of them name, type, and whether it may be left out. -/
def rank : SignatureFault → ℕ ×ₗ ℕ
  | .returns _ _ => toLex (0, 0)
  | .count _ _ => toLex (0, 1)
  | .name index _ _ => toLex (index + 1, 0)
  | .type index _ _ => toLex (index + 1, 1)
  | .optional index _ _ => toLex (index + 1, 2)

def scope (method : String) : SignatureFault → String
  | .returns _ _ => method
  | .count _ _ => method
  | .name index _ _ => method ++ ".params[" ++ Nat.repr index ++ "]"
  | .type index _ _ => method ++ ".params[" ++ Nat.repr index ++ "]"
  | .optional index _ _ => method ++ ".params[" ++ Nat.repr index ++ "]"

def detail : SignatureFault → String
  | .returns expected actual =>
    "(expected=\"" ++ expected.text ++ "\",actual=\""
      ++ (actual.map TypeRef.text).getD "void" ++ "\")"
  | .count expected actual =>
    "(expected " ++ Nat.repr expected ++ " parameter(s), got " ++ Nat.repr actual ++ ")"
  | .name _ expected actual => "(expected name \"" ++ expected ++ "\", got \"" ++ actual ++ "\")"
  | .type _ expected actual =>
    "(expected=\"" ++ expected.text ++ "\",actual=\"" ++ actual.text ++ "\")"
  | .optional _ expected actual =>
    "(expected optional=" ++ toString expected ++ ", got " ++ toString actual ++ ")"

def check (method : String) (f : SignatureFault) : Check :=
  ⟨false, f.scope method, some f.detail⟩

end SignatureFault

def unmet {α : Type} (constraint : Option α) (met : α → Bool) (fault : α → SignatureFault) :
    List SignatureFault :=
  ((constraint.filter (!met ·)).map fault).toList

section Unmet

variable {α : Type} (constraint : Option α) (met : α → Bool) (fault : α → SignatureFault)

theorem mem_unmet_iff (f : SignatureFault) :
    f ∈ unmet constraint met fault ↔ ∃ a, constraint = some a ∧ ¬ met a ∧ fault a = f := by
  simp [unmet, Option.filter_eq_some_iff, and_assoc]

theorem pairwise_unmet (R : SignatureFault → SignatureFault → Prop) :
    (unmet constraint met fault).Pairwise R := by
  unfold unmet
  cases (constraint.filter (!met ·)).map fault <;> simp

/-- A check on what may be constrained fails exactly if there is a fault, and tells of it. -/
theorem failed_eq_unmet (method : String) (c : α → Check)
    (hc : ∀ a, c a = ⟨met a, (fault a).scope method, some (fault a).detail⟩) :
    (constraint.map c).toList.filter (!·.holds) =
      (unmet constraint met fault).map (SignatureFault.check method) := by
  unfold unmet
  cases constraint with
  | none => rfl
  | some a =>
    rw [Option.map_some, hc, Option.filter_some]
    cases met a <;> rfl

end Unmet

namespace ExpectedParameter

structure MetBy (e : ExpectedParameter) (p : ParameterDecl) : Prop where
  name : ∀ n, e.name = some n → p.name = n
  type : ∀ t, e.type = some t → p.type = t
  optional : ∀ o, e.optional = some o → p.optional = o

inductive FaultAt (e : ExpectedParameter) (index : ℕ) (p : ParameterDecl) : SignatureFault → Prop
  | name {n : String} (constrained : e.name = some n) (differs : p.name ≠ n) :
      FaultAt e index p (.name index n p.name)
  | type {t : TypeRef} (constrained : e.type = some t) (differs : p.type ≠ t) :
      FaultAt e index p (.type index t p.type)
  | optional {o : Bool} (constrained : e.optional = some o) (differs : p.optional ≠ o) :
      FaultAt e index p (.optional index o p.optional)

theorem metBy_iff (e : ExpectedParameter) (index : ℕ) (p : ParameterDecl) :
    e.MetBy p ↔ ∀ f, ¬ e.FaultAt index p f := by
  constructor
  · intro h f hf
    cases hf with
    | name constrained differs => exact differs (h.name _ constrained)
    | type constrained differs => exact differs (h.type _ constrained)
    | optional constrained differs => exact differs (h.optional _ constrained)
  · intro h
    refine ⟨?_, ?_, ?_⟩
    · intro n hn
      by_contra hne
      exact h _ (.name hn hne)
    · intro t ht
      by_contra hne
      exact h _ (.type ht hne)
    · intro o ho
      by_contra hne
      exact h _ (.optional ho hne)

def faults (e : ExpectedParameter) (index : ℕ) (p : ParameterDecl) : List SignatureFault :=
  unmet e.name (p.name = ·) (.name index · p.name)
  ++ unmet e.type (some p.type = some ·) (.type index · p.type)
  ++ unmet e.optional (p.optional = ·) (.optional index · p.optional)

def faultsFrom (index : ℕ) : List ExpectedParameter → List ParameterDecl → List SignatureFault
  | e :: es, p :: ps => e.faults index p ++ faultsFrom (index + 1) es ps
  | _, _ => []

section Parameter

variable (e : ExpectedParameter) (index : ℕ) (p : ParameterDecl)

theorem mem_faults_iff (f : SignatureFault) : f ∈ e.faults index p ↔ e.FaultAt index p f := by
  simp only [faults, List.mem_append, mem_unmet_iff, decide_eq_true_eq, Option.some.injEq]
  constructor
  · intro h
    rcases h with (⟨n, hn, hne, rfl⟩ | ⟨t, ht, hne, rfl⟩) | ⟨o, ho, hne, rfl⟩
    · exact .name hn hne
    · exact .type ht hne
    · exact .optional ho hne
  · intro h
    cases h with
    | name constrained differs => exact Or.inl (Or.inl ⟨_, constrained, differs, rfl⟩)
    | type constrained differs => exact Or.inl (Or.inr ⟨_, constrained, differs, rfl⟩)
    | optional constrained differs => exact Or.inr ⟨_, constrained, differs, rfl⟩

theorem pairwise_faults : (e.faults index p).Pairwise fun f g => f.rank < g.rank := by
  simp only [faults, List.pairwise_append, List.mem_append, mem_unmet_iff]
  refine ⟨⟨pairwise_unmet _ _ _ _, pairwise_unmet _ _ _ _, ?_⟩, pairwise_unmet _ _ _ _, ?_⟩
  · rintro _ ⟨n, -, -, rfl⟩ _ ⟨t, -, -, rfl⟩
    simp [SignatureFault.rank, Prod.Lex.toLex_lt_toLex]
  · rintro _ (⟨n, -, -, rfl⟩ | ⟨t, -, -, rfl⟩) _ ⟨o, -, -, rfl⟩
    · simp [SignatureFault.rank, Prod.Lex.toLex_lt_toLex]
    · simp [SignatureFault.rank, Prod.Lex.toLex_lt_toLex]

/-- The failed checks on a parameter tell of its faults. -/
theorem failed_checks (method : String) :
    (e.checks (method ++ ".params[" ++ Nat.repr index ++ "]") p).filter (!·.holds) =
      (e.faults index p).map (SignatureFault.check method) := by
  have hname := failed_eq_unmet e.name (p.name = ·) (.name index · p.name) method _ fun _ => rfl
  have htype := failed_eq_unmet e.type (some p.type = some ·) (.type index · p.type) method _
    fun _ => rfl
  have hoptional := failed_eq_unmet e.optional (p.optional = ·) (.optional index · p.optional)
    method _ fun _ => rfl
  rw [faults, List.map_append, List.map_append, ← hname, ← htype, ← hoptional,
    ← List.filter_append, ← List.filter_append]
  rfl

variable {e index p} in
theorem FaultAt.rank_fst {f : SignatureFault} (h : e.FaultAt index p f) :
    (ofLex f.rank).1 = index + 1 := by
  cases h <;> rfl

end Parameter

section Parameters

variable (index : ℕ) (es : List ExpectedParameter) (ps : List ParameterDecl)

theorem failed_checksFrom (method : String) :
    (checksFrom method index es ps).filter (!·.holds) =
      (faultsFrom index es ps).map (SignatureFault.check method) := by
  induction es generalizing index ps with
  | nil => rfl
  | cons e es ih =>
    cases ps with
    | nil => rfl
    | cons p ps =>
      rw [checksFrom, faultsFrom, List.filter_append, failed_checks, ih, List.map_append]

theorem mem_faultsFrom_iff (f : SignatureFault) :
    f ∈ faultsFrom index es ps ↔
      ∃ (i : ℕ) (e : ExpectedParameter) (p : ParameterDecl), es[i]? = some e ∧ ps[i]? = some p ∧
        e.FaultAt (index + i) p f := by
  induction es generalizing index ps with
  | nil => simp [faultsFrom]
  | cons e es ih =>
    cases ps with
    | nil => simp [faultsFrom]
    | cons p ps =>
      rw [faultsFrom, List.mem_append, mem_faults_iff, ih]
      constructor
      · intro h
        rcases h with h | ⟨i, e', p', he, hp, h⟩
        · exact ⟨0, e, p, rfl, rfl, h⟩
        · refine ⟨i + 1, e', p', he, hp, ?_⟩
          rwa [Nat.add_assoc, Nat.add_comm 1 i] at h
      · intro h
        obtain ⟨i, e', p', he, hp, h⟩ := h
        cases i with
        | zero =>
          obtain rfl := Option.some.inj he
          obtain rfl := Option.some.inj hp
          exact Or.inl h
        | succ i =>
          refine Or.inr ⟨i, e', p', he, hp, ?_⟩
          rwa [Nat.add_assoc, Nat.add_comm 1 i]

theorem pairwise_faultsFrom : (faultsFrom index es ps).Pairwise fun f g => f.rank < g.rank := by
  induction es generalizing index ps with
  | nil => exact .nil
  | cons e es ih =>
    cases ps with
    | nil => exact .nil
    | cons p ps =>
      rw [faultsFrom, List.pairwise_append]
      refine ⟨pairwise_faults e index p, ih (index + 1) ps, ?_⟩
      intro f hf g hg
      obtain ⟨i, e', p', -, -, hg⟩ := (mem_faultsFrom_iff _ _ _ g).1 hg
      have hf' := ((mem_faults_iff e index p f).1 hf).rank_fst
      have hg' := hg.rank_fst
      rw [Prod.Lex.lt_iff]
      omega

end Parameters

end ExpectedParameter

namespace ExpectedSignature

/-- The method is as expected: it returns the expected type, if one is, and it has as many
parameters as are expected, if they are, each as expected. -/
def MetBy (e : ExpectedSignature) (m : MethodDecl) : Prop :=
  (∀ t, e.returns = some t → m.returns = some t) ∧
    ∀ ps, e.parameters = some ps → ps.length = m.parameters.length ∧
      ∀ (i : ℕ) p q, ps[i]? = some p → m.parameters[i]? = some q → p.MetBy q

/-- The faults of a method. Where the number of parameters is not the expected one, the parameters
themselves have none. -/
inductive FaultIn (e : ExpectedSignature) (m : MethodDecl) : SignatureFault → Prop
  | returns {t : TypeRef} (constrained : e.returns = some t) (differs : m.returns ≠ some t) :
      FaultIn e m (.returns t m.returns)
  | count {ps : List ExpectedParameter} (constrained : e.parameters = some ps)
      (differs : ps.length ≠ m.parameters.length) :
      FaultIn e m (.count ps.length m.parameters.length)
  | parameter {ps : List ExpectedParameter} {i : ℕ} {p : ExpectedParameter} {q : ParameterDecl}
      {f : SignatureFault} (constrained : e.parameters = some ps)
      (same : ps.length = m.parameters.length) (expected : ps[i]? = some p)
      (actual : m.parameters[i]? = some q) (fault : p.FaultAt i q f) : FaultIn e m f

theorem metBy_iff (e : ExpectedSignature) (m : MethodDecl) :
    e.MetBy m ↔ ∀ f, ¬ e.FaultIn m f := by
  constructor
  · intro h f hf
    cases hf with
    | returns constrained differs => exact differs (h.1 _ constrained)
    | count constrained differs => exact differs (h.2 _ constrained).1
    | parameter constrained same expected actual fault =>
      have hmet := (h.2 _ constrained).2 _ _ _ expected actual
      exact (ExpectedParameter.metBy_iff _ _ _).1 hmet _ fault
  · intro h
    refine ⟨?_, ?_⟩
    · intro t ht
      by_contra hne
      exact h _ (.returns ht hne)
    · intro ps hps
      have hlength : ps.length = m.parameters.length := by
        by_contra hne
        exact h _ (.count hps hne)
      refine ⟨hlength, ?_⟩
      intro i p q hp hq
      rw [ExpectedParameter.metBy_iff _ i]
      intro f hf
      exact h f (.parameter hps hlength hp hq hf)

def parameterFaults (expected : List ExpectedParameter) (actual : List ParameterDecl) :
    List SignatureFault :=
  if expected.length = actual.length then ExpectedParameter.faultsFrom 0 expected actual
  else [.count expected.length actual.length]

def faults (e : ExpectedSignature) (m : MethodDecl) : List SignatureFault :=
  unmet e.returns (m.returns = some ·) (.returns · m.returns)
  ++ e.parameters.toList.flatMap (parameterFaults · m.parameters)

theorem failed_parameterChecks (method : String) (expected : List ExpectedParameter)
    (actual : List ParameterDecl) :
    (parameterChecks method expected actual).filter (!·.holds) =
      (parameterFaults expected actual).map (SignatureFault.check method) := by
  unfold parameterChecks parameterFaults
  by_cases h : expected.length = actual.length
  · simp [h, ExpectedParameter.failed_checksFrom]
  · rw [if_neg h, if_neg h, decide_eq_false h]
    rfl

/-- The failed checks on a method tell of its faults. -/
theorem failed_checks (e : ExpectedSignature) (m : Member MethodDecl) :
    (e.checks m).filter (!·.holds) = (e.faults m.decl).map (SignatureFault.check m.methodFqn) := by
  have hreturns := failed_eq_unmet e.returns (m.decl.returns = some ·) (.returns · m.decl.returns)
    m.methodFqn (typeCheck m.methodFqn m.decl.returns) fun _ => rfl
  rw [checks, faults, List.filter_append, List.map_append, hreturns]
  cases e.parameters with
  | none => rfl
  | some ps =>
    rw [failed_parameterChecks, Option.toList_some, List.flatMap_singleton]

theorem mem_faults_iff (e : ExpectedSignature) (m : MethodDecl) (f : SignatureFault) :
    f ∈ e.faults m ↔ e.FaultIn m f := by
  simp only [faults, List.mem_append, mem_unmet_iff, decide_eq_true_eq, List.mem_flatMap,
    Option.mem_toList]
  constructor
  · intro h
    rcases h with ⟨t, ht, hne, rfl⟩ | ⟨ps, hps, hf⟩
    · exact .returns ht hne
    · unfold parameterFaults at hf
      split at hf
      · obtain ⟨i, p, q, hp, hq, hfault⟩ := (ExpectedParameter.mem_faultsFrom_iff _ _ _ f).1 hf
        exact .parameter hps ‹_› hp hq (Nat.zero_add i ▸ hfault)
      · obtain rfl := List.mem_singleton.1 hf
        exact .count hps ‹_›
  · intro h
    cases h with
    | returns constrained differs => exact Or.inl ⟨_, constrained, differs, rfl⟩
    | count constrained differs =>
      refine Or.inr ⟨_, constrained, ?_⟩
      rw [parameterFaults, if_neg differs]
      exact List.mem_singleton_self _
    | @parameter ps i p q f constrained same expected actual fault =>
      refine Or.inr ⟨_, constrained, ?_⟩
      rw [parameterFaults, if_pos same, ExpectedParameter.mem_faultsFrom_iff]
      exact ⟨i, p, q, expected, actual, (Nat.zero_add i).symm ▸ fault⟩

theorem pairwise_parameterFaults (expected : List ExpectedParameter)
    (actual : List ParameterDecl) :
    (parameterFaults expected actual).Pairwise fun f g => f.rank < g.rank := by
  unfold parameterFaults
  split
  · exact ExpectedParameter.pairwise_faultsFrom 0 expected actual
  · exact List.pairwise_singleton _ _

theorem rank_pos_of_mem_parameterFaults {expected : List ExpectedParameter}
    {actual : List ParameterDecl} {f : SignatureFault} (h : f ∈ parameterFaults expected actual) :
    toLex (0, 0) < f.rank := by
  unfold parameterFaults at h
  split at h
  · obtain ⟨i, p, q, -, -, hfault⟩ := (ExpectedParameter.mem_faultsFrom_iff _ _ _ f).1 h
    have hrank := hfault.rank_fst
    rw [Prod.Lex.lt_iff, ofLex_toLex]
    omega
  · obtain rfl := List.mem_singleton.1 h
    simp [SignatureFault.rank, Prod.Lex.toLex_lt_toLex]

theorem pairwise_faults (e : ExpectedSignature) (m : MethodDecl) :
    (e.faults m).Pairwise fun f g => f.rank < g.rank := by
  rw [faults, List.pairwise_append]
  refine ⟨pairwise_unmet _ _ _ _, ?_, ?_⟩
  · cases e.parameters with
    | none => exact .nil
    | some ps => simpa using pairwise_parameterFaults ps m.parameters
  · intro f hf g hg
    obtain ⟨t, -, -, rfl⟩ := (mem_unmet_iff _ _ _ f).1 hf
    obtain ⟨ps, -, hg⟩ := List.mem_flatMap.1 hg
    exact rank_pos_of_mem_parameterFaults hg

end ExpectedSignature

/-- A comparison of a method with what is expected of it records the faults of the method in order,
each with the code, severity and message of the rule and the name of the subject, after what was
recorded before. It holds exactly if the method is as expected, and then it records nothing. -/
theorem recordSignature_exact (a : Assessment) (m : Member MethodDecl) (e : ExpectedSignature) :
    ∃ faults : List SignatureFault,
      (∀ f, f ∈ faults ↔ e.FaultIn m.decl f) ∧
      faults.Pairwise (fun f g => f.rank < g.rank) ∧
      (a.recordSignature m e).2 =
        { a with violations := a.violations ++ faults.map fun f =>
            ⟨a.code, a.severity, a.resource, f.scope m.methodFqn, a.message, some f.detail⟩ } ∧
      ((a.recordSignature m e).1 = true ↔ e.MetBy m.decl) ∧
      ((a.recordSignature m e).1 = true ↔
        (a.recordSignature m e).2.violations = a.violations) := by
  have hrun := a.recordAll_eq (e.checks m)
  rw [e.failed_checks, List.map_map] at hrun
  have hholds : (e.checks m).all (·.holds) = true ↔ e.faults m.decl = [] := by
    rw [← List.map_eq_nil_iff (f := SignatureFault.check m.methodFqn), ← e.failed_checks]
    simp
  have hmet : e.MetBy m.decl ↔ e.faults m.decl = [] := by
    simp only [e.metBy_iff, List.eq_nil_iff_forall_not_mem, e.mem_faults_iff]
  refine ⟨e.faults m.decl, e.mem_faults_iff m.decl, e.pairwise_faults m.decl, ?_, ?_, ?_⟩
  · exact congrArg Prod.snd hrun
  · rw [hmet, ← hholds]
    exact iff_of_eq (congrArg (·.1 = true) hrun)
  · rw [Assessment.recordSignature, hrun]
    simp [hholds]

end ResourceLint
