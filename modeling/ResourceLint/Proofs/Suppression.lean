import ResourceLint.Proofs.Cutting
import ResourceLint.Proofs.Filtering

/-!
What one exclusion more does to a run. It takes from the report the violations that it suppresses
and leaves the rest as it was. An exclusion without special characters suppresses exactly the
violations with its code and its scope; one without a colon is about the code alone.
-/

namespace ResourceLint

namespace Glob

def Plain (s : String) : Prop := ∀ c ∈ s.toList, c ∉ ['*', '?', '[']

instance (s : String) : Decidable (Plain s) :=
  List.decidableBAll (fun c => c ∉ ['*', '?', '[']) s.toList

/-- A character that is not special is read as itself. -/
theorem tokenize_cons_of_not_special (total : ℕ) (previous : Option Char) (c : Char)
    (cs : List Char) (h : c ∉ ['*', '?', '[']) :
    tokenize total previous (c :: cs) =
      (tokenize total (some c) cs).map (.literal c :: ·) := by
  simp only [List.mem_cons, List.not_mem_nil, or_false, not_or] at h
  obtain ⟨hstar, hmark, hbracket⟩ := h
  rw [tokenize]
  · simp [hmark]
  · simp [hstar]
  · simp [hstar]
  · simp [hstar]
  · simp [hbracket]

theorem tokenize_of_plain (total : ℕ) (previous : Option Char) (cs : List Char)
    (h : ∀ c ∈ cs, c ∉ ['*', '?', '[']) :
    tokenize total previous cs = .ok (cs.map .literal) := by
  induction cs generalizing previous with
  | nil => rw [tokenize]; rfl
  | cons c cs ih =>
    have hrest := ih (some c) fun d hd => h d (List.mem_cons_of_mem c hd)
    rw [tokenize_cons_of_not_special total previous c cs (h c List.mem_cons_self), hrest]
    rfl

/-- Of every rest of a text, whether the tokens match it. -/
def row (ts : List Token) (cs : List Char) : List Bool := ts.foldr (tokenRow cs) (endRow cs)

theorem row_cons (ts : List Token) (c : Char) (cs : List Char) :
    ∃ b, row ts (c :: cs) = b :: row ts cs := by
  induction ts with
  | nil => exact ⟨false, rfl⟩
  | cons t ts ih =>
    obtain ⟨b, hb⟩ := ih
    change ∃ b', tokenRow (c :: cs) t (row ts (c :: cs)) = b' :: tokenRow cs t (row ts cs)
    rw [hb]
    cases t <;> exact ⟨_, rfl⟩

theorem matchesChars_literal_nil (c : Char) (ts : List Token) :
    Pattern.matchesChars ⟨.literal c :: ts⟩ [] = false := by
  rfl

/-- A literal at the head of a pattern asks for itself at the head of the text. -/
theorem matchesChars_literal_cons (c : Char) (ts : List Token) (d : Char) (ds : List Char) :
    Pattern.matchesChars ⟨.literal c :: ts⟩ (d :: ds) =
      (decide (d = c) && Pattern.matchesChars ⟨ts⟩ ds) := by
  obtain ⟨b, hb⟩ := row_cons ts d ds
  change (charRow (.literal c) (d :: ds) (row ts (d :: ds))).headD false = _
  rw [hb]
  rfl

theorem matchesChars_literals (cs ds : List Char) :
    Pattern.matchesChars ⟨cs.map .literal⟩ ds = decide (ds = cs) := by
  induction cs generalizing ds with
  | nil => cases ds <;> rfl
  | cons c cs ih =>
    rw [List.map_cons]
    cases ds with
    | nil => exact matchesChars_literal_nil c _
    | cons d ds =>
      rw [matchesChars_literal_cons, ih]
      simp

theorem headD_textRow (bs : List Bool) : (textRow bs).headD false = bs.any id := by
  induction bs with
  | nil => rfl
  | cons b bs ih => rw [textRow, List.headD_cons, ih, List.any_cons, id]

theorem any_endRow (cs : List Char) : (endRow cs).any id = true := by
  induction cs with
  | nil => rfl
  | cons c cs ih => simpa [endRow] using ih

/-- A lone star matches every text. -/
theorem matches_anyText (s : String) : Pattern.matches ⟨[.anyText]⟩ s = true :=
  (headD_textRow (endRow s.toList)).trans (any_endRow s.toList)

/-- A plain text is read as a pattern that matches this text alone. -/
theorem exists_ofString_of_plain (s : String) (h : Plain s) :
    ∃ p, Pattern.ofString s = .ok p ∧ ∀ t, p.matches t = decide (t = s) := by
  refine ⟨⟨s.toList.map .literal⟩, ?_, ?_⟩
  · rw [Pattern.ofString, tokenize_of_plain _ _ _ h]
    rfl
  · intro t
    rw [Pattern.matches, matchesChars_literals]
    simp [String.toList_inj]

theorem ofString_star : Pattern.ofString "*" = .ok ⟨[.anyText]⟩ := by
  decide +kernel

end Glob

namespace Exclusion

theorem halves_of_cut (code scope : String) (h : ':' ∉ code.toList) :
    halves (code ++ ":" ++ scope) = (code, scope) := by
  have hcut : Text.cutFirstChars ':' (code ++ ":" ++ scope).toList =
      some (code.toList, scope.toList) := by
    rw [Text.cutFirstChars_eq_some_iff]
    exact ⟨by simp, h⟩
  rw [halves, Text.cutFirst, hcut]
  simp

theorem halves_of_no_colon (w : String) (h : ':' ∉ w.toList) : halves w = (w, "*") := by
  rw [halves, Text.cutFirst, (Text.cutFirstChars_eq_none_iff _ _).2 h]
  rfl

/-- An exclusion of plain halves suppresses exactly what has that code and that scope. -/
theorem suppresses_plain {code scope : String} (hcolon : ':' ∉ code.toList)
    (hcode : Glob.Plain code) (hscope : Glob.Plain scope) :
    Readable (code ++ ":" ++ scope) ∧
      ∀ v, suppresses (code ++ ":" ++ scope) v = decide (v.code = code ∧ v.scope = scope) := by
  obtain ⟨p, hp, hpmatches⟩ := Glob.exists_ofString_of_plain code hcode
  obtain ⟨q, hq, hqmatches⟩ := Glob.exists_ofString_of_plain scope hscope
  unfold Readable suppresses
  rw [halves_of_cut code scope hcolon, hp, hq]
  refine ⟨⟨⟨p, rfl⟩, ⟨q, rfl⟩⟩, ?_⟩
  intro v
  simp only [hpmatches, hqmatches, Bool.decide_and]

/-- An exclusion without a colon suppresses exactly what has a code that it matches. -/
theorem suppresses_of_no_colon {w : String} {p : Glob.Pattern} (hcolon : ':' ∉ w.toList)
    (hp : Glob.Pattern.ofString w = .ok p) :
    Readable w ∧ ∀ v, suppresses w v = p.matches v.code := by
  unfold Readable suppresses
  rw [halves_of_no_colon w hcolon, hp, Glob.ofString_star]
  refine ⟨⟨⟨p, rfl⟩, ⟨_, rfl⟩⟩, ?_⟩
  intro v
  simp only [Glob.matches_anyText, Bool.and_true]

end Exclusion

def Config.excluding (config : Config) (w : String) : Config :=
  { config with exclude := config.exclude ++ [w] }

theorem Config.filtered_excluding (config : Config) (w : String) (selected : Option (List String))
    (report : Report) :
    (config.excluding w).filtered selected report =
      ⟨(config.filtered selected report).violations.filter fun v => !Exclusion.suppresses w v,
        (config.filtered selected report).resourcesChecked⟩ := by
  have hkeeps : (config.excluding w).keeps selected =
      fun v => !Exclusion.suppresses w v && config.keeps selected v := by
    funext v
    have hany : (config.excluding w).exclude.any (fun w' => Exclusion.suppresses w' v) =
        (config.exclude.any (fun w' => Exclusion.suppresses w' v) || Exclusion.suppresses w v) := by
      simp [excluding]
    unfold keeps
    rw [hany, Bool.not_or, ← Bool.and_assoc, Bool.and_comm]
    rfl
  unfold filtered
  rw [hkeeps, List.filter_map, ← List.filter_filter]
  rfl

/-- One exclusion more takes from the report of a run what it suppresses. -/
theorem outcome_lint_excluding {t : TypeTable} {cat : Catalog} {config : Config}
    {selected : Option (List String)} {report : Report}
    (h : (lint t cat config selected).outcome = .ok report) {w : String}
    (hw : Exclusion.Readable w) :
    (lint t cat (config.excluding w) selected).outcome =
      .ok ⟨report.violations.filter fun v => !Exclusion.suppresses w v,
        report.resourcesChecked⟩ := by
  obtain ⟨rs, es, hrs, hes, rfl⟩ := (outcome_lint_eq_ok_iff t cat config selected report).1 h
  obtain ⟨e, he⟩ := (exists_read_eq_ok_iff w).2 hw
  have hes' : (config.excluding w).exclusions = .ok (es ++ [e]) := by
    change (config.exclude ++ [w]).mapM _ = _
    rw [mapM_concat _ _ _ hes, he]
    rfl
  refine (outcome_lint_eq_ok_iff t cat (config.excluding w) selected _).2
    ⟨rs, es ++ [e], hrs, hes', ?_⟩
  rw [reportFor_eq_filtered hes' selected, reportFor_eq_filtered hes selected,
    Config.filtered_excluding]
  rfl

/-- The codes of the conventions are plain and have no colon. -/
theorem Conventions.plain_code {f : Framework} {r : Rule Resource} (hr : r ∈ all f) :
    Glob.Plain r.code ∧ ':' ∉ r.code.toList := by
  have hcodes : (all f).map (·.code) =
      ["resource-class-extends-resource", "resource-interface",
        "resource-interface-extends-resource", "resource-attribute",
        "resource-attribute-immutable", "grant-result"] := rfl
  have hplain : ∀ code ∈ ["resource-class-extends-resource", "resource-interface",
      "resource-interface-extends-resource", "resource-attribute",
      "resource-attribute-immutable", "grant-result"],
      Glob.Plain code ∧ ':' ∉ code.toList := by
    decide +kernel
  exact hplain r.code (hcodes ▸ List.mem_map_of_mem hr)

/-- What a run reports has the code of a convention. -/
theorem exists_convention_of_mem_reportFor {config : Config} {selected : Option (List String)}
    {es : List Exclusion} {rs : List Resource} {v : Violation}
    (hv : v ∈ (reportFor config selected es rs).violations) :
    ∃ r ∈ Conventions.all config.framework, v.code = r.code := by
  obtain ⟨s, -, hv⟩ := List.mem_flatMap.1 hv
  obtain ⟨r, hr, hv⟩ := List.mem_flatMap.1 hv
  obtain ⟨v', hv', rfl⟩ := List.mem_map.1 hv
  have hall := enabledRules_linterFor hr
  exact ⟨r, hall, Conventions.code_of_mem_found (v := v') hall s (List.mem_filter.1 hv').1⟩

/-- Where a run succeeds, it succeeds with an exclusion more. The code and the scope of a violation,
if the scope has no special character, exclude the violations with both and no others; a pattern
without a colon excludes the violations whose code it matches. -/
theorem outcome_excluding_eq_rest (t : TypeTable) (cat : Catalog) (config : Config)
    (selected : Option (List String)) (report : Report)
    (h : (lint t cat config selected).outcome = .ok report) :
    (∀ v ∈ report.violations, Glob.Plain v.scope →
      (lint t cat (config.excluding (v.code ++ ":" ++ v.scope)) selected).outcome =
        .ok ⟨report.violations.filter fun w => ¬ (w.code = v.code ∧ w.scope = v.scope),
          report.resourcesChecked⟩) ∧
      ∀ written p, ':' ∉ written.toList → Glob.Pattern.ofString written = .ok p →
        (lint t cat (config.excluding written) selected).outcome =
          .ok ⟨report.violations.filter fun w => !p.matches w.code, report.resourcesChecked⟩ := by
  refine ⟨?_, ?_⟩
  · intro v hv hscope
    obtain ⟨rs, es, -, -, rfl⟩ := (outcome_lint_eq_ok_iff t cat config selected report).1 h
    obtain ⟨r, hr, hcode⟩ := exists_convention_of_mem_reportFor hv
    obtain ⟨hplain, hcolon⟩ := Conventions.plain_code hr
    rw [← hcode] at hplain hcolon
    obtain ⟨hreadable, hsuppresses⟩ := Exclusion.suppresses_plain hcolon hplain hscope
    rw [outcome_lint_excluding h hreadable]
    simp only [hsuppresses, decide_not]
  · intro written p hcolon hp
    obtain ⟨hreadable, hsuppresses⟩ := Exclusion.suppresses_of_no_colon hcolon hp
    rw [outcome_lint_excluding h hreadable]
    simp only [hsuppresses]

namespace Sample

def knot : ClassDecl where
  fqn := "n:o.Knot"
  base := some "Base"
  docs := Docs.empty.withTag "resource" "Sheet"

def knots : TypeTable where
  name := "n"
  classes := [knot]
  own := ["n:o.Knot"]

/-- Two conventions are chosen, and both are broken at one scope. -/
def knotSelection : List String := ["resource-interface", "resource-class-extends-resource"]

def underived : Violation :=
  ⟨"resource-class-extends-resource", .error, "n:o.Knot", "n:o.Knot",
    "resource classes must extend Res", none⟩

def uncovered : Violation :=
  ⟨"resource-interface", .warning, "n:o.Knot", "n:o.Knot",
    "every resource must have a resource interface", none⟩

theorem knot_excluded :
    (lint knots catalog { framework := framework } (some knotSelection)).outcome =
        .ok ⟨[underived, uncovered], 1⟩ ∧
      (lint knots catalog (Config.excluding { framework := framework }
          "resource-interface:n:o.Knot") (some knotSelection)).outcome = .ok ⟨[underived], 1⟩ ∧
      (lint knots catalog (Config.excluding { framework := framework } "*-class-*")
        (some knotSelection)).outcome = .ok ⟨[uncovered], 1⟩ := by
  have hrun : (lint knots catalog { framework := framework } (some knotSelection)).outcome =
      .ok ⟨[underived, uncovered], 1⟩ := by
    decide +kernel
  have hglob : Glob.Pattern.ofString "*-class-*" =
      .ok ⟨[.anyText] ++ "-class-".toList.map .literal ++ [.anyText]⟩ := by
    decide +kernel
  obtain ⟨hliteral, hcode⟩ := outcome_excluding_eq_rest knots catalog { framework := framework }
    (some knotSelection) _ hrun
  refine ⟨hrun, ?_, ?_⟩
  · rw [show "resource-interface:n:o.Knot" = uncovered.code ++ ":" ++ uncovered.scope by decide,
      hliteral uncovered (by simp) (by decide +kernel)]
    decide +kernel
  · rw [hcode "*-class-*" _ (by decide +kernel) hglob]
    decide +kernel

end Sample

end ResourceLint
