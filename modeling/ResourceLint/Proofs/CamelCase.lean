import ResourceLint.Naming
import ResourceLint.Proofs.Cutting
import ResourceLint.Proofs.Letters

/-!
Camel case. It keeps the letters and digits of a text in their order and changes nothing of them but
the case, and a name in camel case is left as it is. Of the capitals that lead the first word all go
to lower case if the word ends with them or if there is only one. Otherwise the last one stays, as
the start of the next word, whatever follows it: also where a digit follows.
-/

namespace ResourceLint

namespace Naming

open Text

section Words

theorem flatten_words (cs : List Char) : (words cs).flatten = cs.filter isAlphanumeric := by
  rw [words, List.flatten_filter_not_isEmpty, flatten_splitWhere]
  simp

theorem someOf_of_mem_words {cs w : List Char} (h : w ∈ words cs) : SomeOf isAlphanumeric w := by
  refine ⟨by simpa using (List.mem_filter.1 h).2, ?_⟩
  intro c hc
  have hmem : c ∈ (words cs).flatten := List.mem_flatten.2 ⟨w, h, hc⟩
  rw [flatten_words] at hmem
  exact (List.mem_filter.1 hmem).2

theorem words_of_someOf {w : List Char} (h : SomeOf isAlphanumeric w) : words w = [w] := by
  obtain ⟨hne, hw⟩ := h
  rw [words, splitWhere_eq_singleton _ fun c hc => by simp [hw c hc]]
  simp [hne]

theorem words_append_of_separators {before : List Char}
    (h : ∀ c ∈ before, isAlphanumeric c = false) (cs : List Char) :
    words (before ++ cs) = words cs := by
  induction before with
  | nil => rfl
  | cons c before ih =>
    rw [← ih fun d hd => h d (List.mem_cons_of_mem c hd)]
    simp [words, splitWhere, h c List.mem_cons_self]

/-- Where two texts meet, their words stand side by side, unless a word of the one goes on in the
other. -/
theorem words_append (cs ds : List Char) :
    words (cs ++ ds) = words cs ++ words ds ∨
      ∃ before last after, words cs = before ++ [last] ∧ ds.takeWhile isAlphanumeric ≠ [] ∧
        words (cs ++ ds) = before ++ (last ++ ds.takeWhile isAlphanumeric) :: after := by
  obtain ⟨before, last, hcs, happend⟩ := exists_splitWhere_append (!isAlphanumeric ·) cs
  obtain ⟨after, hds⟩ := exists_splitWhere_eq_cons (!isAlphanumeric ·) ds
  have hboth := happend ds _ after hds
  simp only [Bool.not_not] at hds hboth
  by_cases hlast : last = []
  · left
    simp [words, hcs, hds, hboth, hlast]
  by_cases hfirst : ds.takeWhile isAlphanumeric = []
  · left
    simp [words, hcs, hds, hboth, hfirst, hlast]
  · right
    refine ⟨before.filter (!·.isEmpty), last, after.filter (!·.isEmpty), ?_, hfirst, ?_⟩
    · simp [words, hcs, hlast]
    · simp [words, hboth, hlast]

theorem words_append_of_stop (cs : List Char) {ds : List Char}
    (h : ∀ c ∈ ds.head?, isAlphanumeric c = false) :
    words (cs ++ ds) = words cs ++ words ds := by
  rcases words_append cs ds with happart | ⟨-, -, -, -, hgoes, -⟩
  · exact happart
  · have hstops : ([] ++ ds).takeWhile isAlphanumeric = [] :=
      takeWhile_append_of_stop (by simp) h
    exact absurd hstops hgoes

end Words

section Cases

theorem acronymLength_append {capitals tail : List Char}
    (hcapitals : ∀ c ∈ capitals, isUpper c = true) (htail : ∀ c ∈ tail.head?, isUpper c = false) :
    acronymLength (capitals ++ tail) =
      if 1 < capitals.length ∧ tail ≠ [] then capitals.length - 1 else capitals.length := by
  have hlonger : capitals.length < (capitals ++ tail).length ↔ tail ≠ [] := by
    simp [List.length_pos_iff]
  simp only [acronymLength, takeWhile_append_of_stop hcapitals htail, hlonger]

theorem acronymLength_le_length (w : List Char) : acronymLength w ≤ w.length := by
  have hrun : (w.takeWhile isUpper).length ≤ w.length := (List.takeWhile_sublist _).length_le
  simp only [acronymLength]
  split <;> omega

theorem acronymLength_eq_zero_iff (w : List Char) :
    acronymLength w = 0 ↔ ∀ c ∈ w.head?, isUpper c = false := by
  cases w with
  | nil => simp [acronymLength]
  | cons c w =>
    cases hc : isUpper c with
    | false => simp [acronymLength, hc]
    | true =>
      simp only [acronymLength, List.takeWhile_cons_of_pos hc, List.length_cons, List.head?_cons,
        Option.mem_def, Option.some.injEq, forall_eq', hc, Bool.true_eq_false, iff_false]
      split <;> omega

theorem lowerFirst_eq_self {w : List Char} (h : ∀ c ∈ w.head?, isUpper c = false) :
    lowerFirst w = w := by
  rw [lowerFirst, (acronymLength_eq_zero_iff w).2 h]
  rfl

/-- A first word does not start with a capital any more. -/
theorem isUpper_head_lowerFirst (w : List Char) :
    ∀ c ∈ (lowerFirst w).head?, isUpper c = false := by
  by_cases h : ∀ c ∈ w.head?, isUpper c = false
  · rwa [lowerFirst_eq_self h]
  · have hpos : acronymLength w ≠ 0 := fun hzero => h ((acronymLength_eq_zero_iff w).1 hzero)
    cases w with
    | nil => simp at h
    | cons d w =>
      obtain ⟨n, hn⟩ := Nat.exists_eq_succ_of_ne_zero hpos
      simp [lowerFirst, hn]

theorem map_toLower_lowerFirst (w : List Char) : (lowerFirst w).map toLower = w.map toLower := by
  have htwice : toLower ∘ toLower = toLower := funext toLower_toLower
  rw [lowerFirst, List.map_append, List.map_map, htwice, ← List.map_append, List.take_append_drop]

theorem map_toLower_upperFirst (w : List Char) : (upperFirst w).map toLower = w.map toLower := by
  cases w with
  | nil => rfl
  | cons c w => simp [upperFirst]

theorem lowerFirst_ne_nil {w : List Char} (h : w ≠ []) : lowerFirst w ≠ [] := by
  intro hnil
  have hcase := map_toLower_lowerFirst w
  rw [hnil, List.map_nil] at hcase
  exact h (List.map_eq_nil_iff.1 hcase.symm)

theorem camelChars_of_words {cs w : List Char} {ws : List (List Char)} (h : words cs = w :: ws) :
    camelChars cs = lowerFirst w ++ ws.flatMap upperFirst := by
  rw [camelChars, h]

theorem map_toLower_camelChars (cs : List Char) :
    (camelChars cs).map toLower = (cs.filter isAlphanumeric).map toLower := by
  rw [← flatten_words, camelChars]
  cases words cs with
  | nil => rfl
  | cons w ws =>
    simp only [List.map_append, List.map_flatMap, map_toLower_lowerFirst, map_toLower_upperFirst,
      List.flatten_cons, List.map_flatten]
    rw [List.flatMap_def]

end Cases

/-- A text in camel case: letters and digits only, and no capital at the start. -/
structure IsCamel (cs : List Char) : Prop where
  alphanumeric : ∀ c ∈ cs, isAlphanumeric c = true
  head : ∀ c ∈ cs.head?, isUpper c = false

theorem isCamel_camelChars (cs : List Char) : IsCamel (camelChars cs) := by
  constructor
  · intro c hc
    have hmem : toLower c ∈ (camelChars cs).map toLower := List.mem_map_of_mem hc
    rw [map_toLower_camelChars] at hmem
    obtain ⟨d, hd, hcase⟩ := List.mem_map.1 hmem
    rw [← isAlphanumeric_toLower, ← hcase, isAlphanumeric_toLower]
    exact (List.mem_filter.1 hd).2
  · cases hwords : words cs with
    | nil => simp [camelChars, hwords]
    | cons w ws =>
      have hw : w ≠ [] := (someOf_of_mem_words (hwords ▸ List.mem_cons_self)).1
      rw [camelChars_of_words hwords, List.head?_append_of_ne_nil _ (lowerFirst_ne_nil hw)]
      exact isUpper_head_lowerFirst w

theorem camelChars_eq_self {cs : List Char} (h : IsCamel cs) : camelChars cs = cs := by
  by_cases hcs : cs = []
  · rw [hcs]
    rfl
  · rw [camelChars_of_words (words_of_someOf ⟨hcs, h.alphanumeric⟩), lowerFirst_eq_self h.head,
      List.flatMap_nil, List.append_nil]

theorem camelCase_camelCase (s : String) : camelCase (camelCase s) = camelCase s := by
  simp only [camelCase, String.toList_ofList, camelChars_eq_self (isCamel_camelChars s.toList)]

theorem map_toLower_camelCase (s : String) : (camelCase s).toList.map toLower = letters s := by
  rw [camelCase, String.toList_ofList, map_toLower_camelChars, letters]

/-- Camel case is a normal form that keeps the letters and digits of a text. On the way, a word is
cut within its length in bytes and between two of its characters. -/
theorem camelCase_normalizes (s : String) :
    camelCase (camelCase s) = camelCase s ∧
      (∀ c ∈ (camelCase s).toList, isAlphanumeric c = true) ∧
      (∀ c ∈ (camelCase s).toList.head?, isUpper c = false) ∧
      (camelCase s).toList.map toLower = letters s ∧
      ∀ w ∈ words s.toList, (String.ofList w).utf8ByteSize = w.length ∧
        ∃ p : (String.ofList w).Pos, p.offset.byteIdx = acronymLength w ∧
          p.Splits (String.ofList (w.take (acronymLength w)))
            (String.ofList (w.drop (acronymLength w))) := by
  have hcamel : IsCamel (camelCase s).toList := by
    rw [camelCase, String.toList_ofList]
    exact isCamel_camelChars s.toList
  refine ⟨camelCase_camelCase s, hcamel.alphanumeric, hcamel.head, map_toLower_camelCase s, ?_⟩
  intro w hw
  have hword := (someOf_of_mem_words hw).2
  exact ⟨utf8ByteSize_of_alphanumeric w hword,
    exists_pos_splits hword (acronymLength_le_length w)⟩

end Naming

namespace Sample

open Naming Text

/-- The word is cut behind two bytes of its own, after a character of two bytes. -/
theorem instance_cut :
    camelCase (camelCase "éDBInstance arn") = camelCase "éDBInstance arn" ∧
      "DBInstance".toList ∈ words "éDBInstance arn".toList ∧
      ∃ p : (String.ofList "DBInstance".toList).Pos, p.offset.byteIdx = 2 := by
  have hword : "DBInstance".toList ∈ words "éDBInstance arn".toList := by decide +kernel
  obtain ⟨hfixed, -, -, -, hcuts⟩ := camelCase_normalizes "éDBInstance arn"
  obtain ⟨-, p, hp, -⟩ := hcuts _ hword
  refine ⟨hfixed, hword, p, ?_⟩
  rw [hp]
  decide +kernel

end Sample

namespace Naming

open Text

/-- The first word of a text is `capitals ++ tail`, and it starts with these capitals and no
more. -/
structure FirstWord (s : String) (capitals tail : List Char) : Prop where
  stands : ∃ before after, s.toList = before ++ (capitals ++ tail ++ after) ∧
    (∀ c ∈ before, isAlphanumeric c = false) ∧ ∀ c ∈ after.head?, isAlphanumeric c = false
  capitals_someOf : SomeOf isUpper capitals
  tail_alphanumeric : ∀ c ∈ tail, isAlphanumeric c = true
  tail_head : ∀ c ∈ tail.head?, isUpper c = false

section Acronym

variable {s : String} {capitals tail : List Char}

theorem FirstWord.lowerFirst_isPrefix (h : FirstWord s capitals tail) :
    lowerFirst (capitals ++ tail) <+: (camelCase s).toList := by
  obtain ⟨before, after, hs, hbefore, hafter⟩ := h.stands
  have hword : SomeOf isAlphanumeric (capitals ++ tail) := by
    refine ⟨List.append_ne_nil_of_left_ne_nil h.capitals_someOf.1 tail, ?_⟩
    intro c hc
    rcases List.mem_append.1 hc with hc | hc
    · exact isAlphanumeric_of_isUpper (h.capitals_someOf.2 c hc)
    · exact h.tail_alphanumeric c hc
  have hwords : words s.toList = (capitals ++ tail) :: words after := by
    rw [hs, words_append_of_separators hbefore, words_append_of_stop _ hafter,
      words_of_someOf hword]
    rfl
  rw [camelCase, String.toList_ofList, camelChars_of_words hwords]
  exact List.prefix_append _ _

theorem lowerFirst_of_whole (hcapitals : ∀ c ∈ capitals, isUpper c = true)
    (htail : ∀ c ∈ tail.head?, isUpper c = false) (h : tail = [] ∨ capitals.length = 1) :
    lowerFirst (capitals ++ tail) = capitals.map toLower ++ tail := by
  have hlength : acronymLength (capitals ++ tail) = capitals.length := by
    rw [acronymLength_append hcapitals htail, if_neg]
    rintro ⟨hseveral, hne⟩
    rcases h with hnil | hone
    · exact hne hnil
    · omega
  rw [lowerFirst, hlength, List.take_left, List.drop_left]

theorem lowerFirst_of_several {front : List Char} {last : Char}
    (hcapitals : ∀ c ∈ front ++ [last], isUpper c = true)
    (htail : ∀ c ∈ tail.head?, isUpper c = false) (hfront : front ≠ []) (hne : tail ≠ []) :
    lowerFirst (front ++ [last] ++ tail) = front.map toLower ++ last :: tail := by
  have hlength : acronymLength (front ++ [last] ++ tail) = front.length := by
    have hpos : 0 < front.length := List.length_pos_iff.2 hfront
    rw [acronymLength_append hcapitals htail, List.length_append, List.length_singleton,
      if_pos ⟨by omega, hne⟩, Nat.add_sub_cancel]
  rw [lowerFirst, hlength, List.append_assoc, List.take_left, List.drop_left]
  rfl

end Acronym

/-- The leading capitals of the first word go to lower case if the word ends with them or if there
is one only. Of several capitals with more behind them the last one stays, so they do not go to
lower case as a whole. -/
theorem camelCase_of_firstWord (s : String) (capitals tail : List Char)
    (h : FirstWord s capitals tail) :
    (tail = [] ∨ capitals.length = 1 → capitals.map toLower ++ tail <+: (camelCase s).toList) ∧
      ∀ front last, capitals = front ++ [last] → front ≠ [] → tail ≠ [] →
        front.map toLower ++ last :: tail <+: (camelCase s).toList ∧
          ¬ capitals.map toLower ++ tail <+: (camelCase s).toList := by
  have hstarts := h.lowerFirst_isPrefix
  refine ⟨?_, ?_⟩
  · intro hwhole
    rwa [lowerFirst_of_whole h.capitals_someOf.2 h.tail_head hwhole] at hstarts
  · intro front last hcapitals hfront htail
    subst hcapitals
    rw [lowerFirst_of_several h.capitals_someOf.2 h.tail_head hfront htail] at hstarts
    refine ⟨hstarts, ?_⟩
    intro hall
    -- Two starts of one text are equal if they are equally long, but the last capital differs.
    have hlength : (front.map toLower ++ last :: tail).length =
        ((front ++ [last]).map toLower ++ tail).length := by
      simp
    have hsame := (List.prefix_of_prefix_length_le hstarts hall hlength.le).eq_of_length hlength
    have hlast : last = toLower last := by simpa using hsame
    have hupper : isUpper last = true := h.capitals_someOf.2 last (by simp)
    rw [hlast, isUpper_toLower] at hupper
    cases hupper

end Naming

namespace Sample

open Naming Text

/-- The word stands between a letter beyond ASCII and a blank. -/
theorem instance_lowered :
    FirstWord "éDBInstance arn" "DBI".toList "nstance".toList ∧
      "dbInstance".toList <+: (camelCase "éDBInstance arn").toList := by
  have h : FirstWord "éDBInstance arn" "DBI".toList "nstance".toList :=
    { stands := ⟨['é'], [' ', 'a', 'r', 'n'], by decide +kernel, List.forall_mem_singleton.2 rfl,
        fun _ hc => Option.some.inj hc ▸ rfl⟩
      capitals_someOf := ⟨by decide +kernel, List.all_eq_true.1 (by decide +kernel)⟩
      tail_alphanumeric := List.all_eq_true.1 (by decide +kernel)
      tail_head := fun _ hc => Option.some.inj hc ▸ rfl }
  obtain ⟨-, hseveral⟩ := camelCase_of_firstWord _ _ _ h
  obtain ⟨hlowered, -⟩ :=
    hseveral "DB".toList 'I' (by decide +kernel) (by decide +kernel) (by decide +kernel)
  exact ⟨h, hlowered⟩

/-- A digit follows the capitals, and the last of them stays. -/
theorem digit_behind_capitals :
    FirstWord "EC2Instance" "EC".toList "2Instance".toList ∧
      camelCase "EC2Instance" = "eC2Instance" ∧
      ¬ "ec2Instance".toList <+: (camelCase "EC2Instance").toList := by
  have h : FirstWord "EC2Instance" "EC".toList "2Instance".toList :=
    { stands := ⟨[], [], by decide +kernel, by simp, by simp⟩
      capitals_someOf := ⟨by decide +kernel, List.all_eq_true.1 (by decide +kernel)⟩
      tail_alphanumeric := List.all_eq_true.1 (by decide +kernel)
      tail_head := fun _ hc => Option.some.inj hc ▸ rfl }
  exact ⟨h, by decide +kernel, by decide +kernel⟩

end Sample

end ResourceLint
