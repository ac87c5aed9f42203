import ResourceLint.Naming
import ResourceLint.Proofs.Cutting
import ResourceLint.Proofs.Letters

/-!
Class names of the conventional shape. A type name is inferred from exactly these names. Each of
them has its parts in one way only, although the package may hold the marks that separate the
later parts. The inferred type name keeps every part behind the slash, and no other.
-/

namespace ResourceLint.Naming

open Text

/-- A class name `@package/organisation-space.name`, by its parts. -/
@[ext]
structure ShapedName where
  /-- An at sign stands in front. -/
  marked : Bool
  package : String
  organisation : String
  space : String
  name : String
  package_someOf : SomeOf isPackageChar package.toList
  organisation_someOf : SomeOf isLower organisation.toList
  space_someOf : SomeOf (fun c => isLower c || isDigit c) space.toList
  name_someOf : SomeOf isAlphanumeric name.toList

def mark (marked : Bool) : String := if marked then "@" else ""

theorem mark_injective : Function.Injective mark := by
  intro a b h
  cases a <;> cases b <;> simp [mark] at h ⊢

namespace ShapedName

variable (n m : ShapedName)

def inner : String := n.organisation ++ "-" ++ n.space ++ "." ++ n.name

def text : String := mark n.marked ++ n.package ++ "/" ++ n.inner

def typeName : String :=
  n.organisation.map toUpper ++ "::" ++ n.space.map toUpper ++ "::" ++ n.name

theorem toList_inner :
    n.inner.toList =
      n.organisation.toList ++ '-' :: (n.space.toList ++ '.' :: n.name.toList) := by
  simp [inner]

theorem toList_text :
    n.text.toList = (mark n.marked).toList ++ (n.package.toList ++ '/' :: n.inner.toList) := by
  simp [text]

theorem toList_typeName :
    n.typeName.toList =
      n.organisation.toList.map toUpper ++ ':' :: ':' ::
        (n.space.toList.map toUpper ++ ':' :: ':' :: n.name.toList) := by
  simp [typeName]

end ShapedName

/-- An at sign in front of a package is passed over, and a package starts with none. -/
theorem getD_dropChar_eq_iff {package : List Char} (h : SomeOf isPackageChar package)
    (cs rest : List Char) :
    (dropChar '@' cs).getD cs = package ++ rest ↔
      ∃ marked, cs = (mark marked).toList ++ (package ++ rest) := by
  constructor
  · intro hcs
    cases hdrop : dropChar '@' cs with
    | none =>
      rw [hdrop] at hcs
      exact ⟨false, hcs⟩
    | some cs' =>
      rw [hdrop] at hcs
      obtain rfl : cs' = package ++ rest := hcs
      exact ⟨true, (dropChar_eq_some_iff '@' cs _).1 hdrop⟩
  · intro hmarked
    obtain ⟨marked, rfl⟩ := hmarked
    cases marked with
    | true => rfl
    | false =>
      obtain ⟨c, package, rfl⟩ := List.exists_cons_of_ne_nil h.1
      have hc : c ≠ '@' := by
        rintro rfl
        exact absurd (h.2 '@' List.mem_cons_self) (by decide)
      simp [mark, dropChar, hc]

/-- The parts are found in exactly the names of the shape. -/
theorem shape?_eq_some_iff (cs : List Char) (parts : List Char × List Char × List Char) :
    shape? cs = some parts ↔
      ∃ n : ShapedName, n.text.toList = cs ∧
        (n.organisation.toList, n.space.toList, n.name.toList) = parts := by
  unfold shape?
  simp only [Option.bind_eq_bind, Option.bind_eq_some_iff, Prod.exists, spanSome_eq_some_iff,
    dropChar_eq_some_iff]
  constructor
  · intro h
    obtain ⟨package, -, ⟨hcs, hpackage, -⟩, -, rfl, organisation, -, ⟨rfl, horganisation, -⟩, -,
      rfl, space, -, ⟨rfl, hspace, -⟩, -, rfl, name, rest, ⟨rfl, hname, -⟩, hend⟩ := h
    obtain ⟨marked, rfl⟩ := (getD_dropChar_eq_iff hpackage cs _).1 hcs
    split at hend
    · next hrest =>
      obtain rfl : rest = [] := List.isEmpty_iff.1 hrest
      refine ⟨⟨marked, String.ofList package, String.ofList organisation, String.ofList space,
        String.ofList name, by simpa, by simpa, by simpa, by simpa⟩, ?_, ?_⟩
      · simp [ShapedName.toList_text, ShapedName.toList_inner]
      · simpa using hend
    · cases hend
  · intro h
    obtain ⟨n, rfl, rfl⟩ := h
    -- Each span stops at the separator behind it, which is not of its class.
    refine ⟨n.package.toList, _, ⟨?_, n.package_someOf, ?_⟩, _, rfl, n.organisation.toList, _,
      ⟨n.toList_inner, n.organisation_someOf, ?_⟩, _, rfl, n.space.toList, _,
      ⟨rfl, n.space_someOf, ?_⟩, _, rfl, n.name.toList, [],
      ⟨(List.append_nil _).symm, n.name_someOf, ?_⟩, rfl⟩
    · exact (getD_dropChar_eq_iff n.package_someOf _ _).2 ⟨n.marked, n.toList_text⟩
    all_goals simp [isPackageChar, isAlphanumeric, isLower, isUpper, isDigit]

theorem inferredType?_eq_some_iff (fqn typeName : String) :
    inferredType? fqn = some typeName ↔
      ∃ n : ShapedName, n.text = fqn ∧ n.typeName = typeName := by
  have hsuggested : ∀ n : ShapedName, String.ofList
      (n.organisation.toList.map toUpper ++ [':', ':'] ++ n.space.toList.map toUpper ++ [':', ':']
        ++ n.name.toList) = n.typeName := by
    intro n
    rw [← String.toList_inj, n.toList_typeName]
    simp
  rw [inferredType?, Option.map_eq_some_iff]
  constructor
  · intro h
    obtain ⟨parts, hshape, rfl⟩ := h
    obtain ⟨n, htext, rfl⟩ := (shape?_eq_some_iff fqn.toList parts).1 hshape
    exact ⟨n, String.toList_inj.1 htext, (hsuggested n).symm⟩
  · intro h
    obtain ⟨n, rfl, rfl⟩ := h
    exact ⟨_, (shape?_eq_some_iff n.text.toList _).2 ⟨n, rfl, rfl⟩, hsuggested n⟩

/-- In capitals, a part of small letters and digits still holds no colon. -/
theorem colon_notMem_map_toUpper {cs : List Char}
    (h : ∀ c ∈ cs, (isLower c || isDigit c) = true) : ':' ∉ cs.map toUpper := by
  intro hcolon
  obtain ⟨c, hc, hupper⟩ := List.mem_map.1 hcolon
  have hkept : isAlphanumeric ':' = isAlphanumeric c := by rw [← hupper, isAlphanumeric_toUpper]
  have hpart : isAlphanumeric c = true := by
    rw [isAlphanumeric, Bool.or_right_comm, h c hc, Bool.true_or]
  rw [hpart] at hkept
  exact absurd hkept (by decide)

/-- A part of small letters and digits is found again in a text that starts with its capitals and a
doubled colon. -/
theorem map_toUpper_append_inj {cs ds far far' : List Char}
    (hcs : ∀ c ∈ cs, (isLower c || isDigit c) = true)
    (hds : ∀ c ∈ ds, (isLower c || isDigit c) = true)
    (h : cs.map toUpper ++ ':' :: ':' :: far = ds.map toUpper ++ ':' :: ':' :: far') :
    cs = ds ∧ far = far' := by
  obtain ⟨hupper, hfar⟩ :=
    append_cons_inj (colon_notMem_map_toUpper hcs) (colon_notMem_map_toUpper hds) h
  refine ⟨?_, (List.cons.inj hfar).2⟩
  rw [← map_toLower_map_toUpper fun c hc => isUpper_of_lower_or_digit (hcs c hc), hupper,
    map_toLower_map_toUpper fun c hc => isUpper_of_lower_or_digit (hds c hc)]

namespace ShapedName

variable (n m : ShapedName)

def SameInner : Prop := n.organisation = m.organisation ∧ n.space = m.space ∧ n.name = m.name

theorem inner_eq_iff : n.inner = m.inner ↔ SameInner n m := by
  constructor
  · intro h
    rw [← String.toList_inj, n.toList_inner, m.toList_inner] at h
    obtain ⟨horganisation, h⟩ := append_cons_inj
      (n.organisation_someOf.notMem (by decide)) (m.organisation_someOf.notMem (by decide)) h
    obtain ⟨hspace, hname⟩ := append_cons_inj
      (n.space_someOf.notMem (by decide)) (m.space_someOf.notMem (by decide)) h
    exact ⟨String.toList_inj.1 horganisation, String.toList_inj.1 hspace, String.toList_inj.1 hname⟩
  · rintro ⟨horganisation, hspace, hname⟩
    rw [inner, inner, horganisation, hspace, hname]

theorem typeName_eq_iff : n.typeName = m.typeName ↔ SameInner n m := by
  constructor
  · intro h
    rw [← String.toList_inj, n.toList_typeName, m.toList_typeName] at h
    obtain ⟨horganisation, h⟩ := map_toUpper_append_inj
      (fun c hc => by rw [n.organisation_someOf.2 c hc, Bool.true_or])
      (fun c hc => by rw [m.organisation_someOf.2 c hc, Bool.true_or]) h
    obtain ⟨hspace, hname⟩ := map_toUpper_append_inj n.space_someOf.2 m.space_someOf.2 h
    exact ⟨String.toList_inj.1 horganisation, String.toList_inj.1 hspace,
      String.toList_inj.1 hname⟩
  · rintro ⟨horganisation, hspace, hname⟩
    rw [typeName, typeName, horganisation, hspace, hname]

theorem text_injective : Function.Injective text := by
  intro n m h
  have hn := (getD_dropChar_eq_iff n.package_someOf n.text.toList _).2 ⟨n.marked, n.toList_text⟩
  have hm := (getD_dropChar_eq_iff m.package_someOf m.text.toList _).2 ⟨m.marked, m.toList_text⟩
  rw [h, hm] at hn
  obtain ⟨hpackage, hinner⟩ := append_cons_inj
    (m.package_someOf.notMem (by decide)) (n.package_someOf.notMem (by decide)) hn
  have hmark : (mark n.marked).toList = (mark m.marked).toList := by
    rw [← String.toList_inj, n.toList_text, m.toList_text, hpackage, hinner] at h
    exact List.append_cancel_right h
  have hmarked : n.marked = m.marked := mark_injective (String.toList_inj.1 hmark)
  obtain ⟨horganisation, hspace, hname⟩ := (n.inner_eq_iff m).1 (String.toList_inj.1 hinner.symm)
  exact ShapedName.ext hmarked (String.toList_inj.1 hpackage.symm) horganisation hspace hname

end ShapedName

/-- A type name is inferred from exactly the class names of the shape. Such a name has its parts in
one way only, the type name determines the parts behind the slash, and two names give the same type
name exactly if they agree behind the slash. -/
theorem inferredType?_reads_shape :
    (∀ fqn typeName : String, inferredType? fqn = some typeName ↔
      ∃ n : ShapedName, n.text = fqn ∧ n.typeName = typeName) ∧
    Function.Injective ShapedName.text ∧
    (∀ n m : ShapedName, n.typeName = m.typeName ↔
      n.organisation = m.organisation ∧ n.space = m.space ∧ n.name = m.name) ∧
    ∀ n m : ShapedName, inferredType? n.text = inferredType? m.text ↔ n.inner = m.inner := by
  refine ⟨inferredType?_eq_some_iff, ShapedName.text_injective, ShapedName.typeName_eq_iff, ?_⟩
  intro n m
  have hn := (inferredType?_eq_some_iff n.text n.typeName).2 ⟨n, rfl, rfl⟩
  have hm := (inferredType?_eq_some_iff m.text m.typeName).2 ⟨m, rfl, rfl⟩
  rw [hn, hm, Option.some_inj, n.typeName_eq_iff m, n.inner_eq_iff m]

example :
    inferredType? "@a.b-c/foo-bar2.Widget" = some "FOO::BAR2::Widget" ∧
      inferredType? "@a/foo-bar.Widget\n" = none := by
  decide +kernel

end ResourceLint.Naming
