import PatchReview.Proofs.Review.ChunkTime
import PatchReview.Proofs.Service.Placement

/-!
# What a report tells and hands on

The confirmed issues of a review are the results that are certain enough, whoever writes the report. But only when the
model has written it, or when there are none, are they open: otherwise they can neither be shown nor commented on.
The report that is written without the model tells of all issues just when all have one of the severities it reports.
-/

namespace PatchReview.Review

open Fields Json List PatchReview.Action

variable {s : State} {w : Workspace} {x : Float} {results issues : List Risk}

/-! ## Plain reports -/

/-- Sections list every issue once, and the numbers in their headings add up to the number of issues. -/
structure Complete (issues : List Risk) (sections : List (String × List Risk)) : Prop where
  once : (sections.flatMap (·.2)).Perm issues
  counted : (sections.map (·.2.length)).sum = issues.length

/-- A plain report tells of every issue once, with numbers that add up, just when it knows every severity. -/
theorem plain_report_complete_iff (issues : List Risk) :
    plainReport issues = (if issues = [] then nothingFound else plainText issues.length (plainSections issues)) ∧
      (Complete issues (plainSections issues) ↔ ∀ i ∈ issues, i.severity ∈ reportedSeverities) := by
  refine ⟨by simp [plainReport], fun h i hi => ?_, fun h => ?_⟩
  · have hmem := h.once.mem_iff.mpr hi
    rw [plainSections, flatMap_map] at hmem
    obtain ⟨s, hs, hi⟩ := mem_flatMap.mp hmem
    exact eq_of_beq (mem_filter.mp hi).2 ▸ hs
  · have honce : ((plainSections issues).flatMap (·.2)).Perm issues := by
      rw [plainSections, flatMap_map]
      refine (perm_flatMap_keys (fun _ => .refl _) (by decide)).trans (.of_eq ?_)
      exact filter_eq_self.2 fun i hi => contains_iff_mem.2 (h i hi)
    exact ⟨honce, length_flatMap.symm.trans honce.length_eq⟩

/-- An issue of a severity that is not reported. -/
def criticalIssue : Risk :=
  { kind := .robustness, path := "x", lines := (1, 1), description := "d", confidence := 0.9, severity := "critical" }

/-- The report counts the issue but does not tell of it. -/
theorem critical_issue_left_out :
    plainReport [criticalIssue] = plainText 1 [] ∧ ¬ Complete [criticalIssue] (plainSections [criticalIssue]) :=
  ⟨rfl, fun h => by cases h.counted⟩

/-! ## Looking into issues -/

/-- A step ends normally wherever it is done. -/
def Goes (a : Action Unit) : Prop := ∀ w, ∃ v, a w = (.ok (), v)

lemma goes_forM {α : Type} {f : α → Action Unit} {l : List α} (h : ∀ a ∈ l, Goes (f a)) : Goes (l.forM f) := by
  induction l with
  | nil => exact fun w => ⟨w, rfl⟩
  | cons a l ih =>
    intro w
    obtain ⟨v, hv⟩ := h a mem_cons_self w
    obtain ⟨u, hu⟩ := ih (fun b hb => h b (mem_cons_of_mem _ hb)) v
    exact ⟨u, (bind_of_ok hv).trans hu⟩

lemma exists_eitherMember (fs : Json.Object) (first second : String) (default : Json) :
    ∃ v, eitherMember (.object fs) first second default = .ok v := by
  unfold eitherMember
  simp only [memberOr, member, ok_bind, pure, Except.pure]
  split <;> exact ⟨_, rfl⟩

lemma exists_issueText (r : Risk) : ∃ ls, issueText (shownIssue r.toJson) = .ok ls := by
  obtain ⟨fs, heq, hconfidence⟩ : ∃ fs, shownIssue r.toJson = .object fs ∧
      get? fs "confidence" = some r.confidence := by
    cases r with
    | mk kind => cases kind <;> exact ⟨_, rfl, rfl⟩
  obtain ⟨file, hfile⟩ := exists_eitherMember fs "file_path" "file" "unknown"
  obtain ⟨lines, hlines⟩ := exists_eitherMember fs "line_number" "line" (.int 0)
  obtain ⟨message, hmessage⟩ := exists_eitherMember fs "description" "message" ""
  unfold issueText
  simp only [heq, hfile, hlines, hmessage, memberOr, member, hconfidence]
  exact ⟨_, rfl⟩

lemma exists_severityGroup (r : Risk) : ∃ g, severityGroup (shownIssue r.toJson) = .ok g := by
  cases r with
  | mk kind => cases kind <;> exact ⟨_, rfl⟩

lemma goes_sayAll (ls : Strings) : Goes (sayAll ls) := goes_forM fun l _ w => ⟨_, say_apply l w⟩

lemma goes_showIssues (severity icon : String) {vs : List Json} (h : ∀ v ∈ vs, ∃ ls, issueText v = .ok ls) :
    Goes (showIssues severity icon vs) := by
  intro w
  unfold showIssues
  split
  · refine goes_forM (fun v hv u => ?_) _
    obtain ⟨ls, hls⟩ := h v hv
    rw [hls]
    exact goes_sayAll ls u
  · exact ⟨w, rfl⟩

/-- Issues can be looked into: they are shown, and made comments of wherever the diff lists its files. -/
structure Accepted (issues : List Json) (isOpen : Bool) : Prop where
  shown : Goes (showAll (issues.map shownIssue) isOpen)
  commented : ∀ diff files, Diff.changedFiles diff = .ok files → ∀ most fuzz,
    ∃ built, Service.commentsOf diff issues isOpen most fuzz = .ok built

section

variable (issues : List Risk)

lemma goes_showAll : Goes (showAll ((issues.map Risk.toJson).map shownIssue) true) := by
  intro w
  choose group hgroup using exists_severityGroup
  have hmapM (u) : ((issues.map Risk.toJson).map shownIssue).mapM
      (fun v => do return (← severityGroup v, v) : Json → Action (String × Json)) u =
        (.ok (issues.map fun r => (group r, shownIssue r.toJson)), u) := by
    induction issues with
    | nil => rfl
    | cons r rs ih =>
      rw [map_cons, map_cons, mapM_cons, hgroup]
      exact (bind_of_ok ih).trans rfl
  unfold showAll
  rw [bind_of_ok (say_apply _ w)]
  split
  · exact ⟨_, rfl⟩
  rw [if_neg (by decide), bind_of_ok (hmapM _)]
  refine goes_forM (fun p _ => goes_showIssues _ _ fun v hv => ?_) _
  obtain ⟨q, hq, rfl⟩ := mem_map.1 hv
  obtain ⟨r, -, rfl⟩ := mem_map.1 (mem_filter.1 hq).1
  exact exists_issueText r

lemma wellFormed_toJsons : ∀ i ∈ issues.map Risk.toJson, Service.Issue.WellFormed i := by
  rw [forall_mem_map]
  exact fun r _ => ⟨_, rfl, fun _ hv => ⟨r.severity, (Option.some.inj hv).symm⟩⟩

/-- Only open issues can be looked into, if there are any. -/
lemma accepted_iff (isOpen) : Accepted (issues.map Risk.toJson) isOpen ↔ isOpen ∨ issues = [] := by
  constructor
  · intro h
    cases isOpen with
    | true => exact .inl rfl
    | false =>
      cases issues with
      | nil => exact .inr rfl
      | cons r rs => cases (h.shown {}).choose_spec
  · intro h
    have hopen : ∀ diff most fuzz, Service.commentsOf diff (issues.map Risk.toJson) isOpen most fuzz =
        Service.commentsFor diff (issues.map Risk.toJson) most fuzz := by
      rcases h with rfl | rfl
      · exact fun _ _ _ => rfl
      · cases isOpen <;> exact fun _ _ _ => rfl
    refine ⟨?_, fun diff files hfiles most fuzz => ?_⟩
    · rcases h with rfl | rfl
      · exact goes_showAll issues
      · exact fun w => ⟨_, rfl⟩
    · obtain ⟨built, -, -, -, hbuilt, -⟩ := Service.exists_parted files most fuzz (wellFormed_toJsons issues)
      exact ⟨built, (hopen ..).trans (except_bind_eq_ok_iff.2 ⟨files, hfiles, hbuilt⟩)⟩

end

/-! ## Handing issues on -/

/-- How certain a result must be at least when the common threshold is `x`. -/
def State.demanded (s : State) (x : Float) (r : Risk) : Float :=
  (get? ((s.settings.map (·.review.thresholdByKind)).getD []) r.kind.name).getD x

/-- The results that are certain enough. -/
def State.certain (s : State) (x : Float) (results : List Risk) : List Risk :=
  results.filter fun r => s.demanded x r ≤ r.confidence

/-- The threshold for results whose kind has none of its own. -/
def State.common (s : State) : Json := (get? s.facts "confidence_threshold").getD (.real 0.5)

lemma confirmed_eq (hcommon : s.common.toReal = .ok x) (results) :
    confirmed ((s.settings.map (·.review.thresholdByKind)).getD []) s.common results = .ok (s.certain x results) := by
  have hthreshold : threshold ((s.settings.map (·.review.thresholdByKind)).getD []) s.common =
      fun r => pure (s.demanded x r) := by
    funext r
    unfold threshold State.demanded
    cases get? ((s.settings.map (·.review.thresholdByKind)).getD []) r.kind.name with
    | some y => rfl
    | none => exact hcommon
  simp only [confirmed, hthreshold, pure_bind, mapM_pure, filterMap_map]
  exact congrArg _ (filterMap_eq_filter ▸ rfl)

/-- The model, asked next, says something that has a length. -/
def AnswersReport (w : Workspace) : Prop := ∃ m n, Chat.nextAnswer w = .ok m ∧ reportLength m.content = .ok n

lemma attempt_askReport (s issues w) :
    ∃ r v, attempt (askReport s issues) w = (.ok r, v) ∧ ((∃ text, r = .ok text) ↔ AnswersReport w) := by
  let values := [("diff_context", takeChars reportDiffLimit s.diff),
    ("confirmed_issues", "[" ++ joinWith ", " (issues.map Risk.recordText) ++ "]"),
    ("num_issues", toString issues.length), ("num_files", toString (s.items "changed_files").length)]
  obtain ⟨prompt, hprompt⟩ := Prompt.Template.exists_fill values (t := Prompt.report) (by rfl)
  have hrender := Prompt.render_of_fill (by rfl : get? Prompt.catalog "reporter" = _) hprompt
  let u : Workspace := { w with printed := w.printed ++ "  🤖 调用 LLM 生成最终报告..." ++ "\n" }
  obtain ⟨v, hask, -⟩ := Chat.ask_answer ⟨[Chat.Message.system "你是代码审查专家，请用中文输出最终审查报告。",
    Chat.Message.human prompt], []⟩ u
  have hnext : Chat.nextAnswer u = Chat.nextAnswer w := rfl
  unfold AnswersReport askReport
  rw [attempt_apply, bind_of_ok (say_apply _ w), bind_of_ok (hrender u), bind_apply, hask, hnext]
  cases hanswer : Chat.nextAnswer w with
  | error e =>
    refine ⟨.error e, v, ?_, by simp⟩
    simp [Chat.isError_of_nextAnswer hanswer]
  | ok m =>
    dsimp only
    rw [bind_apply, liftM_apply]
    cases hlength : reportLength m.content with
    | ok n =>
      dsimp only
      exact ⟨_, _, rfl, iff_of_true ⟨_, rfl⟩ ⟨m, n, rfl, hlength⟩⟩
    | error e =>
      have herror : e.isError := by
        unfold reportLength at hlength
        split at hlength <;> cases hlength
        rfl
      refine ⟨.error e, v, by simp [herror], iff_of_false nofun ?_⟩
      rintro ⟨m', n, ⟨⟩, hn⟩
      cases hlength.symm.trans hn

/-- The confirmed issues are the results that are certain enough, and they are handed on open, so that they can be
looked into, just when there are none or the model has written the report. -/
theorem confirmed_open_iff (hmodel : s.hasModel = true) (hresults : resultsOf s = .ok results)
    (hcommon : s.common.toReal = .ok x) (w : Workspace) :
    ∃ text isOpen v, report s w = (.ok ([("confirmed_issues", .list ((s.certain x results).map Risk.toJson)),
        ("final_report", text)], isOpen), v) ∧
      (isOpen = true ∧ Accepted ((s.certain x results).map Risk.toJson) isOpen ↔
        s.certain x results = [] ∨ AnswersReport w) := by
  have hconfirmed := confirmed_eq hcommon results
  unfold State.common at hconfirmed
  unfold report
  rw [bind_of_ok (tag_apply s w), bind_of_ok (sayTitle_apply _ w), hmodel, if_neg (by decide), hresults,
    bind_of_ok (liftM_apply _ _), bind_of_ok (say_apply _ _), hconfirmed, bind_of_ok (liftM_apply _ _),
    bind_of_ok (say_apply _ _), bind_of_ok (say_apply _ _), bind_of_ok (say_apply _ _)]
  simp only [accepted_iff]
  by_cases hnone : s.certain x results = []
  · rw [hnone]
    exact ⟨_, true, _, rfl, by simp⟩
  · rw [if_neg (by simpa using hnone)]
    obtain ⟨r, v, hask, hr⟩ := attempt_askReport s (s.certain x results) { w with printed := _ }
    rw [bind_of_ok hask]
    cases r with
    | ok text => exact ⟨text, true, v, rfl, iff_of_true ⟨rfl, .inl rfl⟩ (.inr (hr.mp ⟨text, rfl⟩))⟩
    | error e =>
      refine ⟨_, false, v, rfl, iff_of_false nofun ?_⟩
      rintro (h | h)
      · exact hnone h
      · obtain ⟨text, ⟨⟩⟩ := hr.mpr h

/-- A state with a result that is certain enough. -/
def certainState : State := { fields := [("expert_results", .object [("r", .list [criticalIssue.toJson])])] }

/-- The model has written a report, and the issue is open. -/
theorem written_report_leaves_open :
    resultsOf certainState = .ok [criticalIssue] ∧ certainState.common.toReal = .ok 0.5 ∧ ∃ text isOpen v,
      report certainState {} = (.ok ([("confirmed_issues", .list [criticalIssue.toJson]), ("final_report", text)],
        isOpen), v) ∧ isOpen = true ∧ Accepted [criticalIssue.toJson] isOpen := by
  have hresults : resultsOf certainState = .ok [criticalIssue] := rfl
  have hcommon : certainState.common.toReal = .ok 0.5 := rfl
  obtain ⟨text, isOpen, v, hrun, hopen⟩ := confirmed_open_iff rfl hresults hcommon {}
  exact ⟨hresults, hcommon, text, isOpen, v, hrun, hopen.mpr (.inr ⟨_, 0, rfl, rfl⟩)⟩

/-- A model that is asked for a report and fails leaves the issue closed. -/
theorem failed_report_closes_issue :
    ∃ u v, report certainState { replies := [.failure "RuntimeError" "down"] } = (.ok (u, false), v) ∧
      get? u "confirmed_issues" = some (.list [criticalIssue.toJson]) ∧
      ¬ Accepted [criticalIssue.toJson] false := by
  refine ⟨_, _, rfl, rfl, fun h => ?_⟩
  simpa using (accepted_iff [criticalIssue] false).mp h

end PatchReview.Review
