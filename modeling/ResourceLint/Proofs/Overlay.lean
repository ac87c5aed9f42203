import ResourceLint.TypeTable.Members
import Mathlib.Data.List.Induction

/-!
Declarations laid over each other, by law: every name comes once, in the order in which names first
occur, and stands for the last item of that name. These laws leave no choice.
-/

namespace ResourceLint

variable {α β : Type} {name : α → String}

def Latest (name : α → String) (items : List α) (a : α) : Prop :=
  ∃ before after, items = before ++ a :: after ∧ ∀ b ∈ after, name b ≠ name a

/-- The items of `out` are those of `items` with later ones in the place of earlier ones. -/
structure Overlay (name : α → String) (items out : List α) : Prop where
  names : out.map name = (items.map name).eraseDups
  latest : ∀ a ∈ out, Latest name items a

theorem Latest.mem {items : List α} {a : α} (h : Latest name items a) : a ∈ items := by
  obtain ⟨before, after, rfl, -⟩ := h
  simp

theorem latest_append_iff (first second : List α) (a : α) :
    Latest name (first ++ second) a ↔
      Latest name second a ∨ Latest name first a ∧ ∀ b ∈ second, name b ≠ name a := by
  constructor
  · intro hlatest
    obtain ⟨before, after, heq, hafter⟩ := hlatest
    rcases List.append_eq_append_iff.1 heq with ⟨mid, rfl, rfl⟩ | ⟨mid, rfl, hmid⟩
    · exact Or.inl ⟨mid, after, rfl, hafter⟩
    · cases mid with
      | nil => exact Or.inl ⟨[], after, hmid.symm, hafter⟩
      | cons d mid =>
        obtain ⟨rfl, rfl⟩ := List.cons.inj hmid
        refine Or.inr ⟨⟨before, mid, rfl, ?_⟩, ?_⟩
        · exact fun b hb => hafter b (List.mem_append_left _ hb)
        · exact fun b hb => hafter b (List.mem_append_right _ hb)
  · intro hor
    rcases hor with ⟨before, after, rfl, hafter⟩ | ⟨⟨before, after, rfl, hafter⟩, hsecond⟩
    · exact ⟨first ++ before, after, by simp, hafter⟩
    · refine ⟨before, after ++ second, by simp, ?_⟩
      intro b hb
      rcases List.mem_append.1 hb with hb | hb
      · exact hafter b hb
      · exact hsecond b hb

theorem latest_singleton_iff (a b : α) : Latest name [a] b ↔ b = a := by
  constructor
  · intro h
    exact List.mem_singleton.1 h.mem
  · intro heq
    subst heq
    exact ⟨[], [], rfl, by simp⟩

/-- The step from a list of items to one more. -/
theorem latest_concat_iff (items : List α) (a b : α) :
    Latest name (items ++ [a]) b ↔ b = a ∨ Latest name items b ∧ name a ≠ name b := by
  simp [latest_append_iff, latest_singleton_iff]

/-- The last item of a name after one more: the new one, if it has that name. -/
theorem latest_concat_named (name : α → String) (items : List α) (a b : α) (n : String) :
    name b = n ∧ Latest name (items ++ [a]) b ↔
      if n = name a then b = a else name b = n ∧ Latest name items b := by
  rw [latest_concat_iff]
  by_cases h : n = name a
  · rw [if_pos h]
    constructor
    · intro hb
      rcases hb.2 with hba | ⟨-, hne⟩
      · exact hba
      · exact absurd (hb.1.trans h).symm hne
    · intro hba
      exact ⟨hba ▸ h.symm, Or.inl hba⟩
  · rw [if_neg h]
    constructor
    · intro hb
      rcases hb.2 with hba | ⟨hlatest, -⟩
      · exact absurd (hba ▸ hb.1).symm h
      · exact ⟨hb.1, hlatest⟩
    · intro hb
      exact ⟨hb.1, Or.inr ⟨hb.2, fun hne => h (hne.trans hb.1).symm⟩⟩

theorem Latest.unique {items : List α} {a b : α} (ha : Latest name items a)
    (hb : Latest name items b) (h : name a = name b) : a = b := by
  induction items using List.reverseRecOn with
  | nil => exact absurd ha.mem List.not_mem_nil
  | append_singleton items d ih =>
    rcases (latest_concat_iff items d a).1 ha with rfl | ⟨ha, hda⟩
    · rcases (latest_concat_iff items a b).1 hb with rfl | ⟨-, hab⟩
      · rfl
      · exact absurd h hab
    · rcases (latest_concat_iff items d b).1 hb with rfl | ⟨hb, -⟩
      · exact absurd h.symm hda
      · exact ih ha hb

theorem layered_concat (items : List α) (a : α) :
    layered name (items ++ [a]) = layOver name (layered name items) a := by
  simp [layered, List.foldl_append]

theorem layOver_of_notMem {items : List α} {a : α} (h : ∀ b ∈ items, name b ≠ name a) :
    layOver name items a = items ++ [a] := by
  induction items with
  | nil => rfl
  | cons b rest ih =>
    have hb : name b ≠ name a := h b List.mem_cons_self
    have hrest := ih fun d hd => h d (List.mem_cons_of_mem b hd)
    rw [layOver, if_neg hb, hrest, List.cons_append]

theorem filter_layOver (e : String) (items : List α) (a : α) :
    (layOver name items a).filter (name · ≠ e) =
      if name a = e then items.filter (name · ≠ e)
      else layOver name (items.filter (name · ≠ e)) a := by
  induction items with
  | nil => by_cases ha : name a = e <;> simp [layOver, ha]
  | cons b rest ih =>
    by_cases hab : name b = name a
    · by_cases ha : name a = e
      · simp [layOver, hab, ha]
      · simp [layOver, hab, ha]
    · rw [layOver, if_neg hab]
      by_cases hb : name b = e
      · rw [List.filter_cons_of_neg (by simpa using hb),
          List.filter_cons_of_neg (by simpa using hb), ih]
      · rw [List.filter_cons_of_pos (by simpa using hb),
          List.filter_cons_of_pos (by simpa using hb), ih]
        by_cases ha : name a = e
        · rw [if_pos ha, if_pos ha]
        · rw [if_neg ha, if_neg ha, layOver, if_neg hab]

/-- Items of other names are laid over each other as if those of one name were not there. -/
theorem filter_layered (e : String) (items : List α) :
    (layered name items).filter (name · ≠ e) = layered name (items.filter (name · ≠ e)) := by
  induction items using List.reverseRecOn with
  | nil => rfl
  | append_singleton items a ih =>
    rw [layered_concat, filter_layOver, ih, List.filter_append]
    by_cases ha : name a = e
    · simp [ha]
    · simp [ha, layered_concat]

theorem map_layOver (out : List α) (a : α) :
    (layOver name out a).map name =
      if name a ∈ out.map name then out.map name else out.map name ++ [name a] := by
  induction out with
  | nil => simp [layOver]
  | cons b rest ih =>
    by_cases h : name b = name a
    · simp [layOver, h]
    · have h' : name a ≠ name b := Ne.symm h
      simp only [layOver, h, if_false, List.map_cons, ih, List.mem_cons, h', false_or]
      split <;> simp

/-- What is laid over keeps the items of other names. -/
theorem mem_layOver (out : List α) (hout : (out.map name).Nodup) (a b : α)
    (h : b ∈ layOver name out a) : b = a ∨ b ∈ out ∧ name a ≠ name b := by
  induction out with
  | nil => exact Or.inl (List.mem_singleton.1 h)
  | cons d rest ih =>
    obtain ⟨hd, hrest⟩ := List.nodup_cons.1 hout
    unfold layOver at h
    split at h
    · rename_i hda
      rcases List.mem_cons.1 h with h | h
      · exact Or.inl h
      · refine Or.inr ⟨List.mem_cons_of_mem d h, fun hab => hd ?_⟩
        exact List.mem_map.2 ⟨b, h, by rw [hda, hab]⟩
    · rename_i hda
      rcases List.mem_cons.1 h with rfl | h
      · exact Or.inr ⟨List.mem_cons_self, Ne.symm hda⟩
      · exact (ih hrest h).imp_right fun hb => ⟨List.mem_cons_of_mem d hb.1, hb.2⟩

theorem eraseDups_concat (names : List String) (n : String) :
    (names ++ [n]).eraseDups =
      if n ∈ names then names.eraseDups else names.eraseDups ++ [n] := by
  rw [List.eraseDups_append]
  by_cases h : n ∈ names
  · simp [List.removeAll, h]
  · simp [List.removeAll, h, List.eraseDups_cons]

theorem nodup_eraseDups (names : List String) : names.eraseDups.Nodup := by
  induction names using List.reverseRecOn with
  | nil => simp
  | append_singleton names n ih =>
    rw [eraseDups_concat]
    split
    · exact ih
    · rename_i h
      rw [List.nodup_append]
      refine ⟨ih, by simp, ?_⟩
      intro m hm k hk heq
      have hmem : m ∈ names := List.mem_eraseDups.1 hm
      rw [heq, List.mem_singleton.1 hk] at hmem
      exact h hmem

theorem Overlay.nodup {items out : List α} (h : Overlay name items out) :
    (out.map name).Nodup := by
  rw [h.names]
  exact nodup_eraseDups _

/-- Laying items over each other one by one keeps the laws. -/
theorem overlay_layered (name : α → String) (items : List α) :
    Overlay name items (layered name items) := by
  induction items using List.reverseRecOn with
  | nil => exact ⟨rfl, by simp [layered]⟩
  | append_singleton items a ih =>
    rw [layered_concat]
    constructor
    · rw [map_layOver, ih.names, List.map_append, List.map_singleton, eraseDups_concat]
      simp only [List.mem_eraseDups]
    · intro b hb
      rcases mem_layOver _ ih.nodup a b hb with rfl | ⟨hb, hab⟩
      · exact (latest_concat_iff items b b).2 (Or.inl rfl)
      · exact (latest_concat_iff items a b).2 (Or.inr ⟨ih.latest b hb, hab⟩)

/-- Two lists whose names agree and whose items are the last of their names are the same. -/
private theorem eq_of_latest (items : List α) :
    ∀ out out' : List α, out.map name = out'.map name → (∀ a ∈ out, Latest name items a) →
      (∀ a ∈ out', Latest name items a) → out = out' := by
  intro out
  induction out with
  | nil =>
    intro out' hnames _ _
    exact (List.map_eq_nil_iff.1 hnames.symm).symm
  | cons a out ih =>
    intro out' hnames hout hout'
    cases out' with
    | nil => simp at hnames
    | cons a' out' =>
      obtain ⟨hname, hnames⟩ := List.cons.inj hnames
      have ha := (hout a List.mem_cons_self).unique (hout' a' List.mem_cons_self) hname
      have hrest := ih out' hnames (fun b hb => hout b (List.mem_cons_of_mem a hb))
        (fun b hb => hout' b (List.mem_cons_of_mem a' hb))
      rw [ha, hrest]

theorem overlay_iff (items out : List α) : Overlay name items out ↔ out = layered name items := by
  constructor
  · intro h
    have h' := overlay_layered name items
    exact eq_of_latest items out _ (h.names.trans h'.names.symm) h.latest h'.latest
  · intro heq
    subst heq
    exact overlay_layered name items

/-- No name is lost. -/
theorem exists_mem_layered (name : α → String) {items : List α} {a : α} (h : a ∈ items) :
    ∃ b ∈ layered name items, name b = name a := by
  have hname : name a ∈ (layered name items).map name := by
    rw [(overlay_layered name items).names, List.mem_eraseDups]
    exact List.mem_map_of_mem h
  exact List.mem_map.1 hname

/-- Every name that occurs has a last item. -/
theorem exists_latest_of_mem (name : α → String) {items : List α} {a : α} (h : a ∈ items) :
    ∃ b, Latest name items b ∧ name b = name a := by
  obtain ⟨b, hb, hba⟩ := exists_mem_layered name h
  exact ⟨b, (overlay_layered name items).latest b hb, hba⟩

/-- The items laid over each other are those that are the last of their names. -/
theorem mem_layered_iff (items : List α) (a : α) :
    a ∈ layered name items ↔ Latest name items a := by
  constructor
  · exact (overlay_layered name items).latest a
  · intro h
    obtain ⟨b, hb, hba⟩ := exists_mem_layered name h.mem
    have heq := ((overlay_layered name items).latest b hb).unique h hba
    exact heq ▸ hb

/-- Looking a name up finds the last item of that name. -/
theorem find?_layered_eq_some_iff (items : List α) (n : String) (a : α) :
    (layered name items).find? (fun b => name b = n) = some a ↔
      Latest name items a ∧ name a = n := by
  constructor
  · intro h
    exact ⟨(mem_layered_iff items a).1 (List.mem_of_find?_eq_some h),
      by simpa using List.find?_some h⟩
  · intro hlatest
    obtain ⟨ha, rfl⟩ := hlatest
    cases h : (layered name items).find? (fun b => name b = name a) with
    | none =>
      have hno := List.find?_eq_none.1 h a ((mem_layered_iff items a).2 ha)
      simp at hno
    | some b =>
      have hb := (mem_layered_iff items b).1 (List.mem_of_find?_eq_some h)
      have hname : name b = name a := by simpa using List.find?_some h
      rw [hb.unique ha hname]

/-- The last items of their names, among items that are read off others. -/
theorem latest_map_iff {name : β → String} (f : α → β) (items : List α) (b : β) :
    Latest name (items.map f) b ↔ ∃ a, f a = b ∧ Latest (fun a => name (f a)) items a := by
  constructor
  · intro hlatest
    obtain ⟨before, after, heq, hafter⟩ := hlatest
    obtain ⟨before', rest, rfl, rfl, hrest⟩ := List.map_eq_append_iff.1 heq
    obtain ⟨a, after', rfl, rfl, rfl⟩ := List.map_eq_cons_iff.1 hrest
    refine ⟨a, rfl, before', after', rfl, ?_⟩
    intro a' ha'
    exact hafter (f a') (List.mem_map_of_mem ha')
  · intro hlatest
    obtain ⟨a, rfl, before, after, rfl, hafter⟩ := hlatest
    refine ⟨before.map f, after.map f, by simp, ?_⟩
    intro b' hb'
    obtain ⟨a', ha', rfl⟩ := List.mem_map.1 hb'
    exact hafter a' ha'

/-- The last item of its name in joined lists is so in one of them, and no later list has the
name. -/
theorem latest_flatMap_iff (f : β → List α) (xs : List β) (a : α) :
    Latest name (xs.flatMap f) a ↔
      ∃ before x after, xs = before ++ x :: after ∧ Latest name (f x) a ∧
        ∀ y ∈ after, ∀ b ∈ f y, name b ≠ name a := by
  induction xs with
  | nil =>
    constructor
    · exact fun h => absurd h.mem List.not_mem_nil
    · rintro ⟨before, x, after, heq, -⟩
      simp at heq
  | cons x xs ih =>
    rw [List.flatMap_cons, latest_append_iff, ih]
    constructor
    · rintro (⟨before, y, after, rfl, hlatest, hafter⟩ | ⟨hlatest, hrest⟩)
      · exact ⟨x :: before, y, after, rfl, hlatest, hafter⟩
      · refine ⟨[], x, xs, rfl, hlatest, ?_⟩
        exact fun y hy b hb => hrest b (List.mem_flatMap.2 ⟨y, hy, hb⟩)
    · rintro ⟨before, y, after, heq, hlatest, hafter⟩
      cases before with
      | nil =>
        obtain ⟨rfl, rfl⟩ := List.cons.inj heq
        refine Or.inr ⟨hlatest, fun b hb => ?_⟩
        obtain ⟨z, hz, hb⟩ := List.mem_flatMap.1 hb
        exact hafter z hz b hb
      | cons d before =>
        obtain ⟨rfl, rfl⟩ := List.cons.inj heq
        exact Or.inl ⟨before, y, after, rfl, hlatest, hafter⟩

/-- Where no two of the joined lists have a name in common, their order does not matter. -/
theorem latest_flatMap_of_apart (f : β → List α) {xs : List β}
    (h : xs.Pairwise fun x y => ∀ a ∈ f x, ∀ b ∈ f y, name a ≠ name b) (a : α) :
    Latest name (xs.flatMap f) a ↔ ∃ x ∈ xs, Latest name (f x) a := by
  rw [latest_flatMap_iff]
  constructor
  · rintro ⟨before, x, after, rfl, hlatest, -⟩
    exact ⟨x, by simp, hlatest⟩
  · rintro ⟨x, hx, hlatest⟩
    obtain ⟨before, after, rfl⟩ := List.append_of_mem hx
    obtain ⟨-, hafter, -⟩ := List.pairwise_append.1 h
    refine ⟨before, x, after, rfl, hlatest, ?_⟩
    intro y hy b hb heq
    exact (List.pairwise_cons.1 hafter).1 y hy a hlatest.mem b hb heq.symm

def SameLatest (name : α → String) (items items' : List α) : Prop :=
  ∀ a, Latest name items a ↔ Latest name items' a

namespace SameLatest

variable {items items' : List α}

theorem trans {items'' : List α} (h : SameLatest name items items')
    (h' : SameLatest name items' items'') : SameLatest name items items'' :=
  fun a => (h a).trans (h' a)

theorem forall_name_ne_iff (h : SameLatest name items items') (n : String) :
    (∀ b ∈ items, name b ≠ n) ↔ ∀ b ∈ items', name b ≠ n := by
  constructor
  · intro hfree b hb hbn
    obtain ⟨d, hd, hdb⟩ := exists_latest_of_mem name hb
    exact hfree d ((h d).2 hd).mem (hdb.trans hbn)
  · intro hfree b hb hbn
    obtain ⟨d, hd, hdb⟩ := exists_latest_of_mem name hb
    exact hfree d ((h d).1 hd).mem (hdb.trans hbn)

/-- What stands around both lists makes no difference. -/
theorem around (h : SameLatest name items items') (first second : List α) :
    SameLatest name (first ++ items ++ second) (first ++ items' ++ second) := by
  intro a
  simp only [latest_append_iff, h a, h.forall_name_ne_iff]

end SameLatest

end ResourceLint
