import Quorum.AuditReply

/-! The audit's report (`feedback_audit.render_report`), and when it can be written: the file is
UTF-8, and a lone surrogate of the model's reply has no encoding. -/

namespace Quorum

open JsonScan

/-! ### Texts that can be written -/

/-- The text has no lone surrogate. -/
def Writable (text : Points) : Prop := ∀ point ∈ text, ∃ ch, point = .inl ch

theorem characters_isSome_iff (text : Points) : (characters text).isSome = true ↔
    Writable text := by
  induction text with
  | nil => exact iff_of_true rfl fun _ h => absurd h List.not_mem_nil
  | cons point text ih =>
      rw [Writable, List.forall_mem_cons]
      cases point with
      | inl ch => rw [and_iff_right ⟨ch, rfl⟩, ← Writable, ← ih, characters, Option.isSome_map]
      | inr surrogate =>
          refine iff_of_false Bool.false_ne_true fun h => ?_
          obtain ⟨ch, hch⟩ := h.1
          cases hch

@[simp]
theorem writable_ofText (text : List Char) : Writable (ofText text) := by
  intro point hpoint
  obtain ⟨ch, -, rfl⟩ := List.mem_map.mp hpoint
  exact ⟨ch, rfl⟩

@[simp]
theorem writable_append {text other : Points} : Writable (text ++ other) ↔
    Writable text ∧ Writable other :=
  List.forall_mem_append

@[simp]
theorem writable_nil : Writable [] := fun _ h => absurd h List.not_mem_nil

/-- A text is written piece by piece. -/
theorem writable_flatten (pieces : List Points) : Writable pieces.flatten ↔
    ∀ piece ∈ pieces, Writable piece := by
  induction pieces with
  | nil => exact iff_of_true writable_nil fun _ h => absurd h List.not_mem_nil
  | cons piece pieces ih => rw [List.flatten_cons, writable_append, List.forall_mem_cons, ih]

/-- A text written out in the source. -/
def written (text : String) : Points := ofText text.toList

@[simp]
theorem writable_written (text : String) : Writable (written text) := writable_ofText text.toList

/-- `"\n".join(lines)`. -/
def joined (lines : List Points) : Points := List.intercalate (written "\n") lines

theorem writable_joined (lines : List Points) : Writable (joined lines) ↔
    ∀ line ∈ lines, Writable line := by
  rw [joined]
  induction lines with
  | nil => exact iff_of_true writable_nil fun _ h => absurd h List.not_mem_nil
  | cons line lines ih =>
      rw [List.forall_mem_cons, ← ih]
      cases lines with
      | nil =>
          rw [List.intercalate_singleton]
          exact (and_iff_left writable_nil).symm
      | cons other lines =>
          rw [List.intercalate_cons_cons, writable_append, writable_append,
            and_iff_left (writable_written _)]

/-! ### The report -/

/-- `CATEGORIES`. -/
def categories : List Points :=
  ["model_slot", "safety_regex", "citation_threshold", "cost_threshold", "pipeline_timing",
    "provider_fallback",
    "prompt_quality"].map written

/-- What the report says of the window: the day, the statistics' own texts, and their JSON, which is
ASCII. -/
structure AuditStatistics where
  today : List Char
  windowHours : List Char
  runStartedAt : List Char
  runFinishedAt : List Char
  totalRuns : ℕ
  dumped : List Char

/-- A number in the report. -/
def numeral (n : ℕ) : Points := ofText (Nat.repr n).toList

/-- The findings of a category. -/
def ofCategory (findings : List Finding) (category : Points) : List Finding :=
  findings.filter fun finding => finding.category = category

/-- How many findings are of a severity. -/
def severityCount (findings : List Finding) (severity : String) : ℕ :=
  findings.countP fun finding => finding.severity = written severity

def severityBadge (severity : Points) : Points :=
  if severity = written "high" then written "🟥 **HIGH**"
  else if severity = written "medium" then written "🟧 **MEDIUM**"
  else if severity = written "low" then written "🟨 **LOW**"
  else severity

def diffBlock (proposedDiff : Points) : Points :=
  if proposedDiff ≠ [] then written "```diff\n" ++ proposedDiff ++ written "\n```"
  else written "_(no code change proposed — manual review only)_"

namespace AuditTables

variable (p : AuditTables)

/-- `Finding.to_markdown`. -/
def toMarkdown (finding : Finding) (index : ℕ) : Points :=
  [written "### Finding ", numeral index, written " — ", finding.category, written " — ",
    severityBadge finding.severity, written "\n\n**Title**: ", finding.title,
    written "\n\n**Evidence**: ",
    finding.evidence, written "\n\n**Recommendation**: ", finding.recommendation,
    written "\n\n**Confidence**: ",
    ofText (p.fixed finding.confidence), written "\n\n",
      diffBlock finding.proposedDiff, written "\n"].flatten

def headLines (statistics : AuditStatistics) (response : Option AuditResponse) : List Points :=
  [[written "# Quorum-AI Feedback Audit — ", ofText statistics.today, written "\n"].flatten,
    [written "**Window**: last ", ofText statistics.windowHours, written " hours (",
      ofText statistics.runStartedAt, written " → ",
        ofText statistics.runFinishedAt, written ")\n"].flatten,
    [written "**Total runs analyzed**: ", numeral statistics.totalRuns, written "\n"].flatten,
    written "**Generated by**: feedback_audit.py v0.1\n",
    [written "**Audit model**: ",
      response.elim (written "(no LLM — local-only mode)") AuditResponse.usedModel,
      written "\n"].flatten,
    []]

/-- A category's line of the summary, where it has findings. -/
def categoryLine (findings : List Finding) (category : Points) : Option Points :=
  let counted := ofCategory findings category
  if counted = [] then none
  else some [written "| ", category, written " | ", numeral counted.length, written " | ",
    numeral (severityCount counted "high"), written " | ", numeral (severityCount counted "medium"),
    written " | ",
    numeral (severityCount counted "low"), written " |"].flatten

def healthLines (findings : List Finding) : List Points :=
  if 0 < severityCount findings "high" then
    [written "**Overall health**: DEGRADED", written "**Action required**: YES\n"]
  else if 0 < severityCount findings "medium" then
    [written "**Overall health**: FAIR", written "**Action required**: REVIEW\n"]
  else [written "**Overall health**: GOOD", written "**Action required**: NO\n"]

def summaryLines (response : Option AuditResponse) : List Points :=
  written "## Summary\n" ::
    match response with
    | none => [written "No findings were generated. Statistics are below.\n"]
    | some answered =>
        if answered.findings = [] then
          [written "No findings were generated. The audit model reported a healthy window.\n"]
        else
          [written "| Category | Findings | High | Medium | Low |",
            written "|---|---|---|---|---|"] ++
            categories.filterMap (categoryLine answered.findings) ++ [[]] ++
              healthLines answered.findings

def findingLines (findings : List Finding) : List Points :=
  if findings = [] then []
  else written "## Findings\n" ::
    (findings.zipIdx 1).flatMap fun (finding, index) => [p.toMarkdown finding index, []]

def negativeLines (negatives : List Points) : List Points :=
  if negatives = [] then []
  else written "## Negative findings (checked, not present)\n" ::
    (negatives.map (written "- " ++ ·) ++ [[]])

def statisticsLines (statistics : AuditStatistics) : List Points :=
  [written "## Statistics\n", written "```json", ofText statistics.dumped, written "```\n"]

/-- `render_report`. -/
def renderReport (statistics : AuditStatistics) (response : Option AuditResponse) : Points :=
  joined (headLines statistics response ++ summaryLines response ++
    response.elim [] (fun answered => p.findingLines answered.findings) ++
    response.elim [] (fun answered => negativeLines answered.negativeFindings) ++
      statisticsLines statistics)

end AuditTables

/-! ### What of a response decides -/

structure Finding.Writable (finding : Finding) : Prop where
  category : Quorum.Writable finding.category
  severity : Quorum.Writable finding.severity
  title : Quorum.Writable finding.title
  evidence : Quorum.Writable finding.evidence
  recommendation : Quorum.Writable finding.recommendation
  proposedDiff : Quorum.Writable finding.proposedDiff

structure AuditResponse.Writable (response : AuditResponse) : Prop where
  usedModel : Quorum.Writable response.usedModel
  findings : ∀ finding ∈ response.findings, finding.Writable
  negatives : ∀ negative ∈ response.negativeFindings, Quorum.Writable negative

@[simp]
theorem writable_numeral (n : ℕ) : Writable (numeral n) := writable_ofText _

/-- The badge of a severity that has one, and the severity itself, have no surrogate. -/
theorem writable_severityBadge (severity : Points) : Writable (severityBadge severity) ↔
    Writable severity := by
  rw [severityBadge]
  split_ifs with hhigh hmedium hlow
  · rw [hhigh]
    exact iff_of_true (writable_written _) (writable_written _)
  · rw [hmedium]
    exact iff_of_true (writable_written _) (writable_written _)
  · rw [hlow]
    exact iff_of_true (writable_written _) (writable_written _)
  · rfl

theorem writable_diffBlock (proposedDiff : Points) : Writable (diffBlock proposedDiff) ↔
    Writable proposedDiff := by
  rw [diffBlock]
  split_ifs with hempty
  · simp
  · rw [not_not.mp hempty]
    exact iff_of_true (writable_written _) writable_nil

namespace AuditTables

variable {p : AuditTables}

theorem writable_toMarkdown (finding : Finding) (index : ℕ) :
    Quorum.Writable (p.toMarkdown finding index) ↔ finding.Writable := by
  have hparts : Quorum.Writable (p.toMarkdown finding index) ↔ Quorum.Writable finding.category ∧
      Quorum.Writable finding.severity ∧ Quorum.Writable finding.title ∧
      Quorum.Writable finding.evidence ∧
        Quorum.Writable finding.recommendation ∧ Quorum.Writable finding.proposedDiff := by
    rw [toMarkdown, writable_flatten]
    simp only [List.forall_mem_cons, writable_written, writable_numeral, writable_ofText,
      writable_severityBadge, writable_diffBlock, true_and]
    simp
  rw [hparts]
  constructor
  · rintro ⟨hcategory, hseverity, htitle, hevidence, hrecommendation, hdiff⟩
    exact ⟨hcategory, hseverity, htitle, hevidence, hrecommendation, hdiff⟩
  · exact fun h => ⟨h.category, h.severity, h.title, h.evidence, h.recommendation, h.proposedDiff⟩

theorem writable_headLines (statistics : AuditStatistics) (response : Option AuditResponse) :
    (∀ line ∈ headLines statistics response, Quorum.Writable line) ↔
      ∀ answered ∈ response, Quorum.Writable answered.usedModel := by
  cases response with
  | none => simp [headLines]
  | some answered => simp [headLines]

theorem writable_categoryLine {findings : List Finding} {category line : Points}
    (hcategory : category ∈ categories) (h : categoryLine findings category = some line) :
    Quorum.Writable line := by
  obtain ⟨name, -, rfl⟩ := List.mem_map.mp hcategory
  simp only [categoryLine] at h
  split_ifs at h
  obtain rfl := Option.some.inj h
  rw [writable_flatten]
  simp

theorem writable_summaryLines (response : Option AuditResponse) :
    ∀ line ∈ summaryLines response, Quorum.Writable line := by
  have hhealth : ∀ findings, ∀ line ∈ healthLines findings, Quorum.Writable line := by
    intro findings
    rw [healthLines]
    split_ifs <;> simp
  unfold summaryLines
  rw [List.forall_mem_cons]
  refine ⟨writable_written _, ?_⟩
  cases response with
  | none => simp
  | some answered =>
      dsimp only
      split_ifs
      · simp
      · simp only [List.forall_mem_append, List.mem_filterMap]
        refine ⟨⟨⟨by simp, ?_⟩, by simp⟩, hhealth _⟩
        rintro line ⟨category, hcategory, hline⟩
        exact writable_categoryLine hcategory hline

theorem writable_findingLines (findings : List Finding) :
    (∀ line ∈ p.findingLines findings, Quorum.Writable line) ↔
      ∀ finding ∈ findings, finding.Writable := by
  have hnumbered : (∀ numbered ∈ findings.zipIdx 1,
      ∀ line ∈ [p.toMarkdown numbered.1 numbered.2, []],
      Quorum.Writable line) ↔ ∀ numbered ∈ findings.zipIdx 1, numbered.1.Writable := by
    refine forall₂_congr fun numbered _ => ?_
    simp [writable_toMarkdown]
  have hfirst : (∀ numbered ∈ findings.zipIdx 1, numbered.1.Writable) ↔
      ∀ finding ∈ findings, finding.Writable := by
    conv_rhs => rw [← List.zipIdx_map_fst 1 findings]
    rw [List.forall_mem_map]
  rw [findingLines]
  split_ifs with hempty
  · rw [hempty]
    exact iff_of_true (fun _ h => absurd h List.not_mem_nil) fun _ h => absurd h List.not_mem_nil
  · rw [List.forall_mem_cons, and_iff_right (writable_written _), List.forall_mem_flatMap]
    exact hnumbered.trans hfirst

theorem writable_negativeLines (negatives : List Points) :
    (∀ line ∈ negativeLines negatives, Quorum.Writable line) ↔
      ∀ negative ∈ negatives, Quorum.Writable negative := by
  rw [negativeLines]
  split_ifs with hempty
  · rw [hempty]
  · rw [List.forall_mem_cons, and_iff_right (writable_written _), List.forall_mem_append,
      List.forall_mem_map, and_iff_left (by simp)]
    exact forall₂_congr fun negative _ => by
      rw [writable_append, and_iff_right (writable_written _)]

/-- The report can be written exactly when the response's texts can. -/
theorem writable_renderReport (statistics : AuditStatistics) (response : Option AuditResponse) :
    Quorum.Writable (p.renderReport statistics response) ↔
    ∀ answered ∈ response, answered.Writable := by
  have hstatistics : ∀ line ∈ statisticsLines statistics, Quorum.Writable line := by
    simp [statisticsLines]
  rw [renderReport, writable_joined, List.forall_mem_append, and_iff_left hstatistics,
    List.forall_mem_append, List.forall_mem_append, List.forall_mem_append, writable_headLines,
    and_iff_left (writable_summaryLines response)]
  cases response with
  | none => simp
  | some answered =>
      rw [Option.elim_some, Option.elim_some, writable_findingLines, writable_negativeLines]
      constructor
      · rintro ⟨⟨hmodel, hfindings⟩, hnegatives⟩ other hother
        obtain rfl := Option.some.inj hother
        exact ⟨hmodel answered rfl, hfindings, hnegatives⟩
      · intro h
        have hanswered := h answered rfl
        refine ⟨⟨fun other hother => ?_, hanswered.findings⟩, hanswered.negatives⟩
        obtain rfl := Option.some.inj hother
        exact hanswered.usedModel

/-! ### What of an envelope decides -/

/-- The texts of a finding, with their keys and defaults. -/
def findingTexts : List (String × String) :=
  [("category", ""), ("severity", "low"), ("title", ""), ("evidence", ""), ("recommendation", ""),
    ("proposed_diff", "")]

variable (p) in
/-- No lone surrogate stands in a negative finding, or in a text of a finding whose confidence is
one. -/
structure FieldsWritable (fields : List (Points × JsonValue)) : Prop where
  negatives : ∀ negative, .str negative ∈ itemsOf (fieldOf fields "negative_findings") →
    Quorum.Writable negative
  findings : ∀ item, .obj item ∈ itemsOf (fieldOf fields "findings") →
    ∀ confidence, p.confidenceOf item = .ok (some confidence) →
      ∀ text ∈ findingTexts, Quorum.Writable (p.textField item text.1 text.2)

theorem ownFinding_eq_some {item : JsonValue} {finding : Finding}
    (h : p.ownFinding item = some finding) :
    ∃ fields confidence, item = .obj fields ∧ p.confidenceOf fields = .ok (some confidence) ∧
      (finding.Writable ↔ ∀ text ∈ findingTexts,
        Quorum.Writable (p.textField fields text.1 text.2)) := by
  cases item with
  | obj fields =>
      rw [ownFinding, findingOf] at h
      cases hconfidence : p.confidenceOf fields with
      | error error =>
          rw [hconfidence] at h
          cases h
      | ok confidence? =>
          rw [hconfidence] at h
          cases confidence? with
          | none => cases h
          | some confidence =>
              refine ⟨fields, confidence, rfl, hconfidence, ?_⟩
              obtain rfl := Option.some.inj h
              simp only [findingTexts, List.forall_mem_cons]
              constructor
              · exact fun hw => ⟨hw.category, hw.severity, hw.title, hw.evidence, hw.recommendation,
                  hw.proposedDiff,
                  fun _ hmem => absurd hmem List.not_mem_nil⟩
              · rintro ⟨hcategory, hseverity, htitle, hevidence, hrecommendation, hdiff, -⟩
                exact ⟨hcategory, hseverity, htitle, hevidence, hrecommendation, hdiff⟩
  | null | bool | int | float | str | arr => cases h

theorem ownFinding_obj {fields : List (Points × JsonValue)} {confidence : List Char}
    (h : p.confidenceOf fields = .ok (some confidence)) :
    ∃ finding, p.ownFinding (.obj fields) = some finding := by
  rw [ownFinding, findingOf, h]
  exact ⟨_, rfl⟩

theorem writable_envelope_iff (modelId rawText : Points) (fields : List (Points × JsonValue)) :
    AuditResponse.Writable { p.envelope rawText fields with usedModel := modelId } ↔
      Quorum.Writable modelId ∧ p.FieldsWritable fields := by
  constructor
  · intro h
    refine ⟨h.usedModel, fun negative hmem => ?_, fun item hmem confidence hconfidence => ?_⟩
    · exact h.negatives negative (List.mem_filterMap.mpr ⟨_, hmem, rfl⟩)
    · obtain ⟨finding, hfinding⟩ := ownFinding_obj hconfidence
      obtain ⟨other, -, hother, -, htexts⟩ := ownFinding_eq_some hfinding
      rw [JsonValue.obj.inj hother]
      exact htexts.mp (h.findings finding (List.mem_filterMap.mpr ⟨_, hmem, hfinding⟩))
  · rintro ⟨hmodel, hfields⟩
    refine ⟨hmodel, fun finding hfinding => ?_, fun negative hnegative => ?_⟩
    · obtain ⟨item, hmem, hown⟩ := List.mem_filterMap.mp hfinding
      obtain ⟨inner, confidence, rfl, hconfidence, htexts⟩ := ownFinding_eq_some hown
      exact htexts.mpr (hfields.findings inner hmem confidence hconfidence)
    · obtain ⟨item, hmem, hstr⟩ := List.mem_filterMap.mp hnegative
      cases item with
      | str points =>
          obtain rfl := Option.some.inj hstr
          exact hfields.negatives points hmem
      | _ => exact nomatch hstr

end AuditTables

end Quorum
