import ResourceLint.Command.Output
import ResourceLint.Proofs.JsonText
import ResourceLint.Proofs.Outcome
import ResourceLint.Proofs.RoundTrip

/-!
What a report looks like in each of the formats. The compact one has a line for each violation, the
one for people a block for each and a summary that counts them, and the last one is a document whose
entries are the violations. The printers keep these descriptions.
-/

namespace ResourceLint

open Data

inductive SeverityWord : Severity → String → String → Prop
  | error : SeverityWord .error "error" "\x1b[31merror\x1b[0m"
  | warning : SeverityWord .warning "warning" "\x1b[33mwarning\x1b[0m"

theorem severityWord_iff (s : Severity) (word painted : String) :
    SeverityWord s word painted ↔
      word = s.name ∧ painted = (Command.severityColour s).paint s.name := by
  constructor
  · intro h
    cases h <;> decide
  · rintro ⟨rfl, rfl⟩
    cases s with
    | error => exact .error
    | warning => exact .warning

namespace Violation

inductive Tells : Violation → String → Prop
  | message (v : Violation) (h : v.extra = none) : Tells v v.message
  | extended (v : Violation) (extra : String) (h : v.extra = some extra) :
      Tells v (v.message ++ " " ++ extra)

inductive HasLine : Violation → String → Prop
  | mk (v : Violation) (word painted saying : String)
      (hword : SeverityWord v.severity word painted) (htells : v.Tells saying) :
      HasLine v (word ++ ": " ++ v.scope ++ " [" ++ v.code ++ "] " ++ saying ++ "\n")

/-- How the resource of a violation is named, unless it is the place at fault. -/
inductive NamesResource : Violation → String → Prop
  | atResource (v : Violation) (h : v.scope = v.resource) : NamesResource v ""
  | elsewhere (v : Violation) (h : v.scope ≠ v.resource) :
      NamesResource v ("  = resource: " ++ v.resource ++ "\n")

inductive HasBlock : Violation → String → Prop
  | mk (v : Violation) (word painted saying naming : String)
      (hword : SeverityWord v.severity word painted) (htells : v.Tells saying)
      (hnames : v.NamesResource naming) :
      HasBlock v ("[" ++ v.code ++ "] " ++ v.scope ++ "\n  " ++ painted ++ ": " ++ saying ++ "\n"
        ++ naming ++ "\n")

inductive HasEntry : Violation → Value → Prop
  | bare (v : Violation) (word painted : String) (hword : SeverityWord v.severity word painted)
      (h : v.extra = none) :
      HasEntry v (.record [("code", .text v.code), ("severity", .text word),
        ("resource", .text v.resource), ("scope", .text v.scope), ("message", .text v.message)])
  | extended (v : Violation) (word painted extra : String)
      (hword : SeverityWord v.severity word painted) (h : v.extra = some extra) :
      HasEntry v (.record [("code", .text v.code), ("severity", .text word),
        ("resource", .text v.resource), ("scope", .text v.scope), ("message", .text v.message),
        ("extra", .text extra)])

theorem tells_iff (v : Violation) (saying : String) : v.Tells saying ↔ saying = v.detail := by
  constructor
  · intro h
    cases h with
    | message h => rw [detail, h]
    | extended extra h => rw [detail, h]
  · rintro rfl
    cases h : v.extra with
    | none =>
      rw [detail, h]
      exact .message v h
    | some extra =>
      rw [detail, h]
      exact .extended v extra h

theorem hasLine_iff (v : Violation) (text : String) : v.HasLine text ↔ text = v.line ++ "\n" := by
  constructor
  · intro h
    obtain ⟨word, painted, saying, hword, htells⟩ := h
    rw [(tells_iff v saying).1 htells, ((severityWord_iff _ _ _).1 hword).1]
    rfl
  · rintro rfl
    exact .mk v _ _ _ ((severityWord_iff _ _ _).2 ⟨rfl, rfl⟩) ((tells_iff v _).2 rfl)

theorem namesResource_iff (v : Violation) (naming : String) :
    v.NamesResource naming ↔
      naming = if v.scope = v.resource then "" else "  = resource: " ++ v.resource ++ "\n" := by
  constructor
  · intro h
    cases h with
    | atResource h => rw [if_pos h]
    | elsewhere h => rw [if_neg h]
  · rintro rfl
    by_cases h : v.scope = v.resource
    · rw [if_pos h]
      exact .atResource v h
    · rw [if_neg h]
      exact .elsewhere v h

theorem hasBlock_iff (v : Violation) (text : String) :
    v.HasBlock text ↔
      text = v.block ((Command.severityColour v.severity).paint v.severity.name) ++ "\n" := by
  constructor
  · intro h
    obtain ⟨word, painted, saying, naming, hword, htells, hnames⟩ := h
    rw [(tells_iff v saying).1 htells, ((severityWord_iff _ _ _).1 hword).2,
      (namesResource_iff v naming).1 hnames]
    rfl
  · rintro rfl
    exact .mk v _ _ _ _ ((severityWord_iff _ _ _).2 ⟨rfl, rfl⟩) ((tells_iff v _).2 rfl)
      ((namesResource_iff v _).2 rfl)

theorem hasEntry_encode (v : Violation) : v.HasEntry v.encode := by
  have hword := (severityWord_iff v.severity _ _).2 ⟨rfl, rfl⟩
  cases h : v.extra with
  | none =>
    rw [encode, h]
    exact .bare v _ _ hword h
  | some extra =>
    rw [encode, h]
    exact .extended v _ _ extra hword h

theorem fits_encode {room : Nat} (h : 0 < room) (v : Violation) : Json.Fits room v.encode := by
  obtain ⟨code, severity, resource, scope, message, extra⟩ := v
  cases severity <;> cases extra <;>
    simp [encode, Severity.encode, Json.Fits, Json.FitsEach, h]

end Violation

namespace Report

/-- The summary of a report, in the colour of its gravest violation. -/
inductive HasSummary : Report → String → Prop
  | mk (r : Report) (colour : String) (errors warnings : Nat)
      (herrors : errors = r.violations.countP (·.severity = .error))
      (hwarnings : warnings = r.violations.countP (·.severity = .warning))
      (hcolour : colour =
        if 0 < errors then "\x1b[31m" else if 0 < warnings then "\x1b[33m" else "\x1b[32m") :
      HasSummary r (colour ++ ("Found " ++ (Nat.repr errors ++ " error(s), " ++ Nat.repr warnings
        ++ " warning(s) in " ++ Nat.repr r.resourcesChecked ++ " resource(s)"))
        ++ "\x1b[0m" ++ "\n")

theorem hasSummary_iff (r : Report) (text : String) :
    r.HasSummary text ↔
      text = (Command.summaryColour r).paint ("Found " ++ r.tally) ++ "\n" := by
  have hcolour : (Command.summaryColour r).code =
      if 0 < r.errorCount then "\x1b[31m" else if 0 < r.warningCount then "\x1b[33m"
      else "\x1b[32m" := by
    unfold Command.summaryColour
    split
    · rfl
    · split <;> rfl
  have hcount : ∀ s, r.violations.countP (·.severity = s) = (r.ofSeverity s).length :=
    fun s => List.countP_eq_length_filter
  constructor
  · rintro ⟨colour, errors, warnings, rfl, rfl, rfl⟩
    rw [hcount, hcount, Command.Colour.paint, hcolour]
    rfl
  · rintro rfl
    rw [Command.Colour.paint, hcolour]
    exact .mk r _ r.errorCount r.warningCount (hcount _).symm (hcount _).symm rfl

/-- A report nests three deep. -/
theorem fits_encode {room : Nat} (h : 3 ≤ room) (r : Report) : Json.Fits room r.encode := by
  have hall : Json.FitsAll (room - 2) (r.violations.map Violation.encode) := by
    induction r.violations with
    | nil => simp [Json.FitsAll]
    | cons v vs ih =>
      rw [List.map_cons, Json.FitsAll]
      exact ⟨v.fits_encode (by omega), ih⟩
  have hlist : Json.Fits (room - 1) (.list (r.violations.map Violation.encode)) := by
    rw [Json.Fits]
    exact ⟨by omega, by simpa [Nat.sub_sub] using hall⟩
  simp only [encode, Json.Fits, Json.FitsEach]
  exact ⟨by omega, hlist, trivial, trivial⟩

end Report

namespace Command

theorem parse_reportJson (r : Report) :
    Json.parse Json.depthLimit (reportJson r) = some r.encode :=
  Json.parse_pretty (r.fits_encode (by decide))

/-- A report is read back from what is printed of it, unless its count is too large to be read. -/
theorem decode_reportJson (r : Report) :
    Json.decode Report.decode (reportJson r) =
      if r.resourcesChecked < Nat.pow 2 64 then some r else none := by
  rw [Json.decode, parse_reportJson, Option.bind_some, r.decode_encode]

def OutputFormat.Shows : OutputFormat → Report → String → Prop
  | .text, r, printed => ∃ blocks summary, List.Forall₂ Violation.HasBlock r.violations blocks ∧
      r.HasSummary summary ∧ printed = String.join blocks ++ summary
  | .json, r, printed => ∃ entries, List.Forall₂ Violation.HasEntry r.violations entries ∧
      Json.parse Json.depthLimit printed = some (.record
        [("violations", .list entries), ("resources_checked", .natural r.resourcesChecked)])
  | .compact, r, printed => ∃ lines, List.Forall₂ Violation.HasLine r.violations lines ∧
      printed = String.join lines

theorem shows_text_iff (r : Report) (printed : String) :
    OutputFormat.text.Shows r printed ↔ printed = reportText r := by
  simp only [OutputFormat.Shows, forall₂_iff_eq_map Violation.hasBlock_iff, r.hasSummary_iff]
  constructor
  · rintro ⟨blocks, summary, rfl, rfl, rfl⟩
    exact String.append_assoc.symm
  · rintro rfl
    exact ⟨_, _, rfl, rfl, String.append_assoc⟩

theorem shows_compact_iff (r : Report) (printed : String) :
    OutputFormat.compact.Shows r printed ↔ printed = reportLines r := by
  simp only [OutputFormat.Shows, forall₂_iff_eq_map Violation.hasLine_iff, exists_eq_left]
  rfl

theorem shows_json (r : Report) : OutputFormat.json.Shows r (reportJson r) := by
  refine ⟨r.violations.map Violation.encode, ?_, parse_reportJson r⟩
  rw [List.forall₂_map_right_iff, List.forall₂_same]
  exact fun v _ => v.hasEntry_encode

theorem shows_render (format : OutputFormat) (r : Report) : format.Shows r (format.render r) := by
  cases format with
  | text => exact (shows_text_iff r _).2 rfl
  | json => exact shows_json r
  | compact => exact (shows_compact_iff r _).2 rfl

end Command

end ResourceLint
