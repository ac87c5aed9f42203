import ResourceLint.Proofs.CamelCase

/-!
The property names of an attribute: its own, that in camel case, or the camel case of the resource's
name and the attribute's joined. The joined form counts only where the attribute's name in camel
case does not itself start with the resource's.

So the name that is expected carries the name of the resource. Where the two names are joined, the
attribute may go on with the resource's last word, and capitals that meet may move the end of a
leading acronym. As long as the attribute does not start with a small letter or a digit, the end
only moves on, so that the joined name still starts with the resource's own.
-/

namespace ResourceLint

namespace Naming

open Text

/-- In camel case, the attribute's name starts with that of the resource. -/
def CarriesResource (s : SchemaEntry) (a : String) : Prop :=
  (camelCase s.basename).toList <+: (camelCase a).toList

inductive Spells (s : SchemaEntry) (a : String) : String → Prop
  | literal : Spells s a a
  | camel : Spells s a (camelCase a)
  | joined (h : ¬ CarriesResource s a) : Spells s a (camelCase (s.basename ++ a))

theorem carriesResource_iff (s : SchemaEntry) (a : String) :
    CarriesResource s a ↔
      (camelChars s.basename.toList).isPrefixOf (camelChars a.toList) = true := by
  simp [CarriesResource, camelCase, List.isPrefixOf_iff_prefix]

theorem expectedProperty_of_carriesResource {s : SchemaEntry} {a : String}
    (h : CarriesResource s a) : expectedProperty s a = camelCase a :=
  if_pos ((carriesResource_iff s a).1 h)

theorem expectedProperty_of_not_carriesResource {s : SchemaEntry} {a : String}
    (h : ¬ CarriesResource s a) : expectedProperty s a = camelCase (s.basename ++ a) :=
  if_neg fun hstarts => h ((carriesResource_iff s a).2 hstarts)

theorem spells_iff (s : SchemaEntry) (a n : String) : Spells s a n ↔ n ∈ spellings s a := by
  have hmem : n ∈ spellings s a ↔ n = a ∨ n = camelCase a ∨ n = expectedProperty s a := by
    simp [spellings]
  rw [hmem]
  constructor
  · intro h
    cases h with
    | literal => exact Or.inl rfl
    | camel => exact Or.inr (Or.inl rfl)
    | joined h => exact Or.inr (Or.inr (expectedProperty_of_not_carriesResource h).symm)
  · intro hn
    rcases hn with hn | hn | hn
    · exact hn ▸ .literal
    · exact hn ▸ .camel
    · by_cases h : CarriesResource s a
      · rw [hn, expectedProperty_of_carriesResource h]
        exact .camel
      · rw [hn, expectedProperty_of_not_carriesResource h]
        exact .joined h

instance (s : SchemaEntry) (a n : String) : Decidable (Spells s a n) :=
  decidable_of_iff _ (spells_iff s a n).symm

/-- Where the capitals end within a word, what is put behind the word does not move the cut. -/
theorem acronymLength_append_of_tail {w : List Char} (h : w.dropWhile isUpper ≠ [])
    (x : List Char) : acronymLength (w ++ x) = acronymLength w := by
  have hcapitals : ∀ c ∈ w.takeWhile isUpper, isUpper c = true :=
    List.all_eq_true.1 List.all_takeWhile
  have hstop := stop_of_dropWhile isUpper w
  have hstop' : ∀ c ∈ (w.dropWhile isUpper ++ x).head?, isUpper c = false := by
    rwa [List.head?_append_of_ne_nil _ h]
  have hshort := acronymLength_append hcapitals hstop
  have hlong := acronymLength_append hcapitals hstop'
  rw [List.takeWhile_append_dropWhile] at hshort
  rw [← List.append_assoc, List.takeWhile_append_dropWhile] at hlong
  rw [hshort, hlong]
  simp [h]

/-- Of a word of capitals, none stays with one more behind them. -/
theorem length_le_acronymLength_append {w : List Char} (h : ∀ c ∈ w, isUpper c = true) {d : Char}
    (hd : isUpper d = true) (x : List Char) : w.length ≤ acronymLength (w ++ d :: x) := by
  simp only [acronymLength, List.takeWhile_append_of_pos h, List.takeWhile_cons_of_pos hd,
    List.length_append, List.length_cons]
  split <;> omega

/-- A first word that goes on with a capital keeps the start that it has by itself. -/
theorem lowerFirst_prefix_append (w : List Char) {d : Char} (hd : isUpper d = true)
    (x : List Char) : lowerFirst w <+: lowerFirst (w ++ d :: x) := by
  by_cases htail : w.dropWhile isUpper = []
  · have hw : ∀ c ∈ w, isUpper c = true := List.dropWhile_eq_nil_iff.1 htail
    have hwhole : lowerFirst w = w.map toLower := by
      simpa using lowerFirst_of_whole hw (by simp) (Or.inl rfl)
    rw [hwhole, lowerFirst, List.take_append,
      List.take_of_length_le (length_le_acronymLength_append hw hd x), List.map_append,
      List.append_assoc]
    exact List.prefix_append _ _
  · have hlength := acronymLength_le_length w
    have hgrown : lowerFirst (w ++ d :: x) = lowerFirst w ++ d :: x := by
      rw [lowerFirst, lowerFirst, acronymLength_append_of_tail htail,
        List.take_append_of_le_length hlength, List.drop_append_of_le_length hlength,
        List.append_assoc]
    rw [hgrown]
    exact List.prefix_append _ _

theorem upperFirst_append {w : List Char} (h : w ≠ []) (x : List Char) :
    upperFirst (w ++ x) = upperFirst w ++ x := by
  obtain ⟨c, w, rfl⟩ := List.exists_cons_of_ne_nil h
  rfl

/-- A text keeps its camel case at the start of a longer one, unless it goes on with a small letter
or a digit. -/
theorem camelChars_prefix_append (cs : List Char) {ds : List Char}
    (h : ∀ c ∈ ds.head?, isLower c = false ∧ isDigit c = false) :
    camelChars cs <+: camelChars (cs ++ ds) := by
  rcases words_append cs ds with happart | ⟨before, last, after, hcs, hgoes, hboth⟩
  · cases hwords : words cs with
    | nil =>
      rw [camelChars, hwords]
      exact List.nil_prefix
    | cons w ws =>
      rw [hwords, List.cons_append] at happart
      rw [camelChars_of_words hwords, camelChars_of_words happart, List.flatMap_append,
        ← List.append_assoc]
      exact List.prefix_append _ _
  · obtain ⟨c, first, hfirst⟩ := List.exists_cons_of_ne_nil hgoes
    have hupper : isUpper c = true := by
      have halphanumeric : isAlphanumeric c = true :=
        List.all_eq_true.1 List.all_takeWhile c (hfirst ▸ List.mem_cons_self)
      have hhead : ds.head?.filter isAlphanumeric = some c := by
        rw [← List.head?_takeWhile, hfirst, List.head?_cons]
      obtain ⟨hlower, hdigit⟩ := h c (Option.filter_eq_some_iff.1 hhead).1
      simpa [isAlphanumeric, hlower, hdigit] using halphanumeric
    rw [hfirst] at hboth
    cases before with
    | nil =>
      rw [camelChars_of_words hcs, camelChars_of_words hboth, List.flatMap_nil, List.append_nil]
      exact (lowerFirst_prefix_append last hupper first).trans (List.prefix_append _ _)
    | cons w before =>
      have hmem : last ∈ words cs := by rw [hcs]; exact List.mem_concat_self
      have hlast : last ≠ [] := (someOf_of_mem_words hmem).1
      rw [List.cons_append] at hcs hboth
      rw [camelChars_of_words hcs, camelChars_of_words hboth, List.prefix_append_right_inj,
        List.flatMap_append, List.flatMap_append, List.prefix_append_right_inj,
        List.flatMap_singleton, List.flatMap_cons, upperFirst_append hlast, List.append_assoc]
      exact List.prefix_append _ _

/-- The expected name starts with the resource's name in camel case, if the attribute does not start
with a small letter or a digit. It is in camel case itself, and it holds the letters of the
attribute's name alone if that carries the resource's already, and otherwise those of both. -/
theorem expectedProperty_carries_basename (s : SchemaEntry) (a : String)
    (h : ∀ c ∈ a.toList.head?, isLower c = false ∧ isDigit c = false) :
    (camelCase s.basename).toList <+: (expectedProperty s a).toList ∧
      camelCase (expectedProperty s a) = expectedProperty s a ∧
      (CarriesResource s a → (expectedProperty s a).toList.map toLower = letters a) ∧
      (¬ CarriesResource s a →
        (expectedProperty s a).toList.map toLower = letters s.basename ++ letters a) := by
  by_cases hcarries : CarriesResource s a
  · rw [expectedProperty_of_carriesResource hcarries]
    exact ⟨hcarries, camelCase_camelCase a, fun _ => map_toLower_camelCase a,
      fun hnot => absurd hcarries hnot⟩
  · rw [expectedProperty_of_not_carriesResource hcarries]
    refine ⟨?_, camelCase_camelCase _, fun hyes => absurd hyes hcarries, ?_⟩
    · simp only [camelCase, String.toList_ofList, String.toList_append]
      exact camelChars_prefix_append s.basename.toList h
    · intro _
      rw [map_toLower_camelCase, letters_append]

end Naming

namespace Sample

open Naming Text

/-- With the attribute behind it, the resource's acronym has a capital more to end before. -/
theorem instance_named :
    (∀ c ∈ "Instance.Arn".toList.head?, isLower c = false ∧ isDigit c = false) ∧
      (camelCase "DB").toList <+: (expectedProperty ⟨"FOO::DB", []⟩ "Instance.Arn").toList ∧
      expectedProperty ⟨"FOO::DB", []⟩ "Instance.Arn" = "dbInstanceArn" := by
  have hbasename : SchemaEntry.basename ⟨"FOO::DB", []⟩ = "DB" := by decide +kernel
  have hhead : ∀ c ∈ "Instance.Arn".toList.head?, isLower c = false ∧ isDigit c = false :=
    fun _ hc => Option.some.inj hc ▸ ⟨rfl, rfl⟩
  obtain ⟨hstarts, -⟩ := expectedProperty_carries_basename ⟨"FOO::DB", []⟩ "Instance.Arn" hhead
  rw [hbasename] at hstarts
  exact ⟨hhead, hstarts, by decide +kernel⟩

end Sample

end ResourceLint
