import Mathlib.Data.List.TakeWhile
import ResourceLint.Proofs.Outcome
import ResourceLint.Text.Blank
import ResourceLint.Text.Cut
import ResourceLint.Text.Scan

/-!
Cutting at a separator, by law: the text is the two parts with the separator between them, and the
part on the near side holds no separator. There is no cut exactly where there is no separator.
Cutting at every separator leaves the pieces that the separator joins to the text, and trimming
leaves what stands between the blanks at both ends. So a comma-separated list has one list of names.
-/

namespace ResourceLint.Text

theorem cutFirstChars_eq_none_iff (sep : Char) (cs : List Char) :
    cutFirstChars sep cs = none ↔ sep ∉ cs := by
  induction cs with
  | nil => simp [cutFirstChars]
  | cons c cs ih =>
    by_cases h : c = sep
    · simp [cutFirstChars, h]
    · have h' : sep ≠ c := Ne.symm h
      simp [cutFirstChars, h, h', ih]

theorem cutFirstChars_eq_some_iff (sep : Char) (cs near far : List Char) :
    cutFirstChars sep cs = some (near, far) ↔ cs = near ++ sep :: far ∧ sep ∉ near := by
  induction cs generalizing near with
  | nil => simp [cutFirstChars]
  | cons c cs ih =>
    by_cases h : c = sep
    · subst h
      cases near with
      | nil => simp [cutFirstChars]
      | cons d near =>
        simp only [cutFirstChars, if_true, Option.some.injEq, Prod.mk.injEq, reduceCtorEq,
          false_and, List.cons_append, List.cons.injEq, false_iff]
        intro hcut
        obtain ⟨⟨hcd, -⟩, hc⟩ := hcut
        exact hc (hcd ▸ List.mem_cons_self)
    · have h' : sep ≠ c := Ne.symm h
      cases near with
      | nil => simp [cutFirstChars, h]
      | cons d near =>
        simp only [cutFirstChars, h, if_false, Option.map_eq_some_iff, Prod.exists, Prod.mk.injEq,
          List.cons.injEq, List.cons_append, List.mem_cons, not_or]
        constructor
        · intro hmap
          obtain ⟨a, b, hcut, ⟨rfl, rfl⟩, rfl⟩ := hmap
          obtain ⟨rfl, ha⟩ := (ih a).1 hcut
          exact ⟨⟨rfl, rfl⟩, h', ha⟩
        · intro hparts
          obtain ⟨⟨rfl, rfl⟩, -, hnear⟩ := hparts
          exact ⟨near, far, (ih near).2 ⟨rfl, hnear⟩, ⟨rfl, rfl⟩, rfl⟩

/-- Two texts that are cut at the same separator are equal part by part. -/
theorem append_cons_inj {sep : Char} {near near' far far' : List Char} (hnear : sep ∉ near)
    (hnear' : sep ∉ near') (h : near ++ sep :: far = near' ++ sep :: far') :
    near = near' ∧ far = far' := by
  have hcut := (cutFirstChars_eq_some_iff sep _ near far).2 ⟨rfl, hnear⟩
  rw [h, (cutFirstChars_eq_some_iff sep _ near' far').2 ⟨rfl, hnear'⟩] at hcut
  cases hcut
  exact ⟨rfl, rfl⟩

theorem cutLast_eq_none_iff (sep : Char) (s : String) :
    cutLast sep s = none ↔ sep ∉ s.toList := by
  simp [cutLast, cutLastChars, cutFirstChars_eq_none_iff]

theorem cutLast_eq_some_iff (sep : Char) (s far near : String) :
    cutLast sep s = some (far, near) ↔
      s.toList = far.toList ++ sep :: near.toList ∧ sep ∉ near.toList := by
  have hcut : cutLast sep s = some (far, near) ↔
      cutFirstChars sep s.toList.reverse = some (near.toList.reverse, far.toList.reverse) := by
    rw [cutLast, cutLastChars, Option.map_map, Option.map_eq_some_iff]
    constructor
    · intro hmap
      obtain ⟨⟨a, b⟩, hab, heq⟩ := hmap
      obtain ⟨rfl, rfl⟩ := Prod.mk.inj heq
      simpa using hab
    · intro h
      exact ⟨_, h, by simp⟩
  have hrev : s.toList.reverse = near.toList.reverse ++ sep :: far.toList.reverse ↔
      s.toList = far.toList ++ sep :: near.toList := by
    rw [← List.reverse_inj]
    simp
  rw [hcut, cutFirstChars_eq_some_iff, hrev, List.mem_reverse]

section Pieces

variable {α : Type} (p : α → Bool)

/-- The first piece goes up to the first separator. -/
theorem exists_splitWhere_eq_cons (cs : List α) :
    ∃ rest, splitWhere p cs = cs.takeWhile (!p ·) :: rest := by
  induction cs with
  | nil => exact ⟨[], rfl⟩
  | cons c cs ih =>
    obtain ⟨rest, hrest⟩ := ih
    cases hc : p c with
    | true => exact ⟨splitWhere p cs, by simp [splitWhere, hc]⟩
    | false => exact ⟨rest, by simp [splitWhere, hc, hrest]⟩

theorem splitWhere_eq_singleton {cs : List α} (h : ∀ c ∈ cs, p c = false) :
    splitWhere p cs = [cs] := by
  induction cs with
  | nil => rfl
  | cons c cs ih =>
    have hrest := ih fun d hd => h d (List.mem_cons_of_mem c hd)
    simp [splitWhere, h c List.mem_cons_self, hrest]

theorem flatten_splitWhere (cs : List α) : (splitWhere p cs).flatten = cs.filter (!p ·) := by
  induction cs with
  | nil => rfl
  | cons c cs ih =>
    obtain ⟨rest, hrest⟩ := exists_splitWhere_eq_cons p cs
    cases hc : p c with
    | true => simp [splitWhere, hc, ih]
    | false =>
      rw [hrest] at ih
      simp [splitWhere, hc, hrest, ← ih]

/-- Where two texts meet, the last piece of the one and the first of the other grow together. -/
theorem exists_splitWhere_append (as : List α) :
    ∃ before last, splitWhere p as = before ++ [last] ∧
      ∀ bs first after, splitWhere p bs = first :: after →
        splitWhere p (as ++ bs) = before ++ (last ++ first) :: after := by
  induction as with
  | nil => exact ⟨[], [], rfl, fun _ _ _ h => h⟩
  | cons a as ih =>
    obtain ⟨before, last, has, happend⟩ := ih
    cases ha : p a with
    | true =>
      refine ⟨[] :: before, last, by simp [splitWhere, ha, has], ?_⟩
      intro bs first after hbs
      simp [splitWhere, ha, happend bs first after hbs]
    | false =>
      -- The character joins the first piece, which may be the last one too.
      cases before with
      | nil =>
        refine ⟨[], a :: last, by simp [splitWhere, ha, has], ?_⟩
        intro bs first after hbs
        simp [splitWhere, ha, happend bs first after hbs]
      | cons piece before =>
        refine ⟨(a :: piece) :: before, last, by simp [splitWhere, ha, has], ?_⟩
        intro bs first after hbs
        simp [splitWhere, ha, happend bs first after hbs]

/-- A piece that holds no separator is cut off by the first one. -/
theorem splitWhere_append_cons {as : List α} (has : ∀ a ∈ as, p a = false) {sep : α}
    (hsep : p sep = true) (bs : List α) :
    splitWhere p (as ++ sep :: bs) = as :: splitWhere p bs := by
  induction as with
  | nil => simp [splitWhere, hsep]
  | cons a as ih =>
    have hrest := ih fun a' ha' => has a' (List.mem_cons_of_mem a ha')
    simp [splitWhere, has a List.mem_cons_self, hrest]

end Pieces

/-- The pieces of a text are those that the separator joins to it and does not occur in. -/
structure Pieces (sep : Char) (cs : List Char) (pieces : List (List Char)) : Prop where
  ne_nil : pieces ≠ []
  joined : List.intercalate [sep] pieces = cs
  free : ∀ piece ∈ pieces, sep ∉ piece

theorem Pieces.eq_splitWhere {sep : Char} {cs : List Char} {pieces : List (List Char)}
    (h : Pieces sep cs pieces) : pieces = splitWhere (· = sep) cs := by
  obtain ⟨hne, rfl, hfree⟩ := h
  have hplain : ∀ piece ∈ pieces, ∀ c ∈ piece, decide (c = sep) = false := by
    intro piece hpiece c hc
    exact decide_eq_false fun heq => hfree piece hpiece (heq ▸ hc)
  induction pieces with
  | nil => exact absurd rfl hne
  | cons piece pieces ih =>
    have hfirst := hplain piece List.mem_cons_self
    cases pieces with
    | nil => simp [splitWhere_eq_singleton _ hfirst]
    | cons next others =>
      rw [List.intercalate_cons_cons, List.append_assoc, List.singleton_append,
        splitWhere_append_cons _ hfirst (by simp), ← ih (List.cons_ne_nil _ _)]
      · exact fun q hq => hfree q (List.mem_cons_of_mem _ hq)
      · exact fun q hq => hplain q (List.mem_cons_of_mem _ hq)

theorem pieces_splitWhere (sep : Char) (cs : List Char) :
    Pieces sep cs (splitWhere (· = sep) cs) := by
  induction cs with
  | nil => exact ⟨List.cons_ne_nil _ _, rfl, by simp [splitWhere]⟩
  | cons c cs ih =>
    obtain ⟨rest, hrest⟩ := exists_splitWhere_eq_cons (fun d => decide (d = sep)) cs
    rw [hrest] at ih
    obtain ⟨-, hjoined, hfree⟩ := ih
    by_cases hc : c = sep
    · have hsplit : splitWhere (· = sep) (c :: cs) =
          [] :: cs.takeWhile (fun d => !decide (d = sep)) :: rest := by
        simp [splitWhere, hc, hrest]
      rw [hsplit]
      refine ⟨List.cons_ne_nil _ _, ?_, ?_⟩
      · rw [List.intercalate_cons_cons, hjoined, hc]
        rfl
      · intro piece hpiece
        rcases List.mem_cons.1 hpiece with rfl | hpiece
        · simp
        · exact hfree piece hpiece
    · -- The character joins the first piece.
      have hsplit : splitWhere (· = sep) (c :: cs) =
          (c :: cs.takeWhile fun d => !decide (d = sep)) :: rest := by
        simp [splitWhere, hc, hrest]
      rw [hsplit]
      refine ⟨List.cons_ne_nil _ _, ?_, ?_⟩
      · cases rest with
        | nil =>
          rw [List.intercalate_singleton] at hjoined ⊢
          rw [hjoined]
        | cons next others =>
          rw [List.intercalate_cons_cons] at hjoined ⊢
          rw [List.cons_append, List.cons_append, hjoined]
      · intro piece hpiece
        rcases List.mem_cons.1 hpiece with rfl | hpiece
        · have hfirst := hfree _ List.mem_cons_self
          simpa [Ne.symm hc] using hfirst
        · exact hfree piece (List.mem_cons_of_mem _ hpiece)

theorem pieces_iff (sep : Char) (cs : List Char) (pieces : List (List Char)) :
    Pieces sep cs pieces ↔ pieces = splitWhere (· = sep) cs := by
  constructor
  · exact Pieces.eq_splitWhere
  · rintro rfl
    exact pieces_splitWhere sep cs

/-- A text between blanks that neither starts nor ends with one itself. -/
structure Trimmed (cs name : List Char) : Prop where
  between : ∃ before after, cs = before ++ name ++ after ∧
    (∀ c ∈ before, isBlank c = true) ∧ ∀ c ∈ after, isBlank c = true
  first : ∀ c ∈ name.head?, isBlank c = false
  last : ∀ c ∈ name.getLast?, isBlank c = false

theorem trimmed_trimChars (cs : List Char) : Trimmed cs (trimChars cs) := by
  have hblank : ∀ ds : List Char, ∀ c ∈ ds.takeWhile isBlank, isBlank c = true :=
    fun ds => List.all_eq_true.1 List.all_takeWhile
  have hfront : cs = cs.takeWhile isBlank ++ cs.dropWhile isBlank :=
    List.takeWhile_append_dropWhile.symm
  have hback : cs.dropWhile isBlank =
      trimChars cs ++ ((cs.dropWhile isBlank).reverse.takeWhile isBlank).reverse := by
    rw [trimChars, ← List.reverse_append, List.takeWhile_append_dropWhile, List.reverse_reverse]
  refine ⟨⟨cs.takeWhile isBlank, ((cs.dropWhile isBlank).reverse.takeWhile isBlank).reverse, ?_,
    hblank cs, ?_⟩, ?_, ?_⟩
  · rw [List.append_assoc, ← hback, ← hfront]
  · intro c hc
    exact hblank _ c (List.mem_reverse.1 hc)
  · intro c hc
    apply stop_of_dropWhile isBlank cs c
    rw [hback, List.head?_append, hc]
    rfl
  · intro c hc
    rw [trimChars, List.getLast?_reverse] at hc
    exact stop_of_dropWhile isBlank _ c hc

theorem Trimmed.eq_trimChars {cs name : List Char} (h : Trimmed cs name) : name = trimChars cs := by
  obtain ⟨⟨before, after, rfl, hbefore, hafter⟩, hfirst, hlast⟩ := h
  cases name with
  | nil =>
    have hall : ∀ c ∈ before ++ [] ++ after, isBlank c = true := by
      intro c hc
      rcases List.mem_append.1 hc with hc | hc
      · exact hbefore c (by simpa using hc)
      · exact hafter c hc
    rw [trimChars, List.dropWhile_eq_nil_iff.2 hall]
    rfl
  | cons d name =>
    have hdrop : (before ++ d :: name ++ after).dropWhile isBlank = d :: name ++ after := by
      rw [List.append_assoc]
      exact dropWhile_append_of_stop hbefore fun c hc => hfirst c hc
    have hends : (d :: name ++ after).reverse.dropWhile isBlank = (d :: name).reverse := by
      rw [List.reverse_append]
      apply dropWhile_append_of_stop
      · exact fun c hc => hafter c (List.mem_reverse.1 hc)
      · rwa [List.head?_reverse]
    rw [trimChars, hdrop, hends, List.reverse_reverse]

theorem trimmed_iff (cs name : List Char) : Trimmed cs name ↔ name = trimChars cs := by
  constructor
  · exact Trimmed.eq_trimChars
  · rintro rfl
    exact trimmed_trimChars cs

/-- The names that a comma-separated list holds, in order: what is left of its pieces when they are
trimmed, unless nothing is left. -/
def Lists (s : String) (names : List String) : Prop :=
  ∃ pieces trimmed, Pieces ',' s.toList pieces ∧ List.Forall₂ Trimmed pieces trimmed ∧
    names.map String.toList = trimmed.filter (· ≠ [])

theorem map_toList_listed (s : String) :
    (listed trim s).map String.toList =
      ((splitWhere (· = ',') s.toList).map trimChars).filter (· ≠ []) := by
  have hne : (fun name : String => name != "") ∘ trim ∘ String.ofList =
      (fun cs => decide (cs ≠ [])) ∘ trimChars := by
    funext cs
    have hempty : String.ofList (trimChars cs) = "" ↔ trimChars cs = [] := by
      rw [← String.toList_inj, String.toList_ofList, String.toList_empty]
    rw [Bool.eq_iff_iff]
    simp [trim, hempty]
  rw [listed, split, List.map_map, List.filter_map, List.filter_map, hne, List.map_map]
  refine List.map_congr_left fun cs _ => ?_
  simp [trim]

theorem lists_iff (s : String) (names : List String) : Lists s names ↔ names = listed trim s := by
  have hinj : Function.Injective (List.map String.toList) :=
    List.map_injective_iff.2 fun _ _ => String.toList_inj.1
  rw [← hinj.eq_iff, map_toList_listed]
  simp only [Lists, pieces_iff, forall₂_iff_eq_map trimmed_iff]
  constructor
  · rintro ⟨pieces, trimmed, rfl, rfl, hnames⟩
    exact hnames
  · intro hnames
    exact ⟨_, _, rfl, rfl, hnames⟩

end ResourceLint.Text
