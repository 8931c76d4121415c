import PatchReview.Proofs.Action
import PatchReview.Settings.Load

/-!
# Bounds of the settings

Settings from a file are held to their bounds: one that is not within them is a problem, and a record with problems is
not read. What the environment gives instead is not, so the settings of a run are within the bounds just when the
numbers that override them are.
-/

namespace PatchReview

open Action Files Number Record

/-! ## Readers -/

namespace Record

variable {α β γ : Type} {P : α → Prop} {Q : β → Prop} {r : Reader α} {k : α → Reader β} {fs : List (String × γ)}
  {name : String} {default : α} {read : γ → Reading α}

/-- A reader that notes no problem gives a value of a kind; it may add to the problems noted before. -/
def Ensures (r : Reader α) (P : α → Prop) : Prop :=
  ∀ ps a ps', StateT.run r ps = .ok (a, ps') → ps <+: ps' ∧ (ps' = [] → P a)

namespace Ensures

lemma pure {a : α} (ha : P a) : Ensures (pure a) P := by
  rintro ps _ _ ⟨⟩
  exact ⟨List.prefix_rfl, fun _ => ha⟩

lemma bind (hr : Ensures r P) (hk : ∀ a, Ensures (k a) fun b => P a → Q b) : Ensures (r >>= k) Q := by
  intro ps b ps' h
  obtain ⟨⟨a, mid⟩, ha, hb⟩ := except_bind_eq_ok_iff.1 h
  obtain ⟨hmid, hP⟩ := hr ps a mid ha
  obtain ⟨hps', hQ⟩ := hk a mid b ps' hb
  refine ⟨hmid.trans hps', fun hnil => hQ hnil (hP ?_)⟩
  exact List.prefix_nil.1 (hnil ▸ hps')

lemma take {fallback : α} {r} (hfallback : P fallback) (h : ∀ a, r = .ok a → P a) :
    Ensures (take name fallback r) P := by
  cases r with
  | ok a => exact pure (h a rfl)
  | error e =>
    cases e with
    | problems qs =>
      rintro ps _ _ ⟨⟩
      exact ⟨List.prefix_append .., fun _ => hfallback⟩
    | fault f => exact nofun

/-- A field whose values are all of a kind, and its default too. -/
lemma optional
    (hdefault : P default) (hread : ∀ v a, read v = .ok a → P a) (hk : ∀ a, Ensures (k a) fun b => P a → Q b) :
    Ensures (optional fs name default read >>= k) Q := by
  refine bind ?_ hk
  unfold Record.optional
  split
  · exact pure hdefault
  · exact take hdefault (hread _)

/-- A field that does not matter. -/
lemma skip (hk : ∀ a, Ensures (k a) Q) : Ensures (Record.optional fs name default read >>= k) Q := by
  refine optional (P := fun _ => True) trivial (fun _ _ _ => trivial) fun a ps b ps' h => ?_
  exact (hk a ps b ps' h).imp_right fun hQ hnil _ => hQ hnil

end Ensures

lemma wholeFrom_le [Source γ] {least n} {v : γ} (h : wholeFrom least v = .ok n) : least ≤ n := by
  obtain ⟨m, -, h⟩ := except_bind_eq_ok_iff.1 h
  split at h
  · cases h
    assumption
  · cases h

lemma of_run {a : α} (hr : Ensures r P) (h : run r = .ok a) : P a := by
  unfold run at h
  split at h
  · rename_i a' hrun
    cases h
    exact (hr [] a [] hrun).2 rfl
  · cases h
  · cases h

end Record

/-! ## Steps that give values of a kind -/

namespace Action

variable {α β : Type} {P : α → Prop} {Q : β → Prop}

/-- A step leaves the variables alone, and gives a value of a kind if it ends normally. -/
def Yields (a : Action α) (P : α → Prop) : Prop := ∀ w r w', a w = (r, w') →
  (w'.environment, w'.envFile) = (w.environment, w.envFile) ∧ ∀ x, r = .ok x → P x

namespace Yields

lemma pure {x : α} (h : P x) : Yields (pure x) P := by
  rintro w _ _ ⟨⟩
  exact ⟨rfl, fun _ hx => Except.ok.inj hx ▸ h⟩

lemma throw (e) : Yields (throw e) P := by
  rintro w _ _ ⟨⟩
  exact ⟨rfl, nofun⟩

lemma ofExcept {r} (h : ∀ x, r = .ok x → P x) : Yields (ofExcept r) P := by
  cases r with
  | ok x => exact pure (h x rfl)
  | error e => exact throw e

lemma say (s : String) : Yields (say s) fun _ => True := by
  rintro w _ _ ⟨⟩
  exact ⟨rfl, fun _ _ => trivial⟩

lemma ofSteady {a : Action α} (h : Steady a) : Yields a fun _ => True := by
  intro w r w' ha
  have hw : w = w' := congrArg Prod.snd ((h.after w).symm.trans ha)
  exact ⟨congrArg (fun w : Workspace => (w.environment, w.envFile)) hw.symm, fun _ _ => trivial⟩

lemma bind {a} {k : α → Action β} (ha : Yields a P) (hk : ∀ x, P x → Yields (k x) Q) : Yields (a >>= k) Q := by
  intro w r w' h
  rw [bind_apply] at h
  rcases hrun : a w with ⟨e | x, v⟩ <;> rw [hrun] at h
  · cases h
    exact ⟨(ha w _ _ hrun).1, nofun⟩
  · obtain ⟨hv, hP⟩ := ha w _ _ hrun
    obtain ⟨hw', hQ⟩ := hk x (hP x rfl) v r w' h
    exact ⟨hw'.trans hv, hQ⟩

lemma attempt {a} (ha : Yields a P) : Yields (attempt a) fun r => ∀ x, r = .ok x → P x := by
  intro w r w' h
  rw [attempt_apply] at h
  rcases hrun : a w with ⟨e | x, v⟩ <;> rw [hrun] at h <;> obtain ⟨hv, hP⟩ := ha w _ _ hrun
  · dsimp only at h
    split at h <;> cases h
    · exact ⟨hv, fun _ hr => Except.ok.inj hr ▸ nofun⟩
    · exact ⟨hv, nofun⟩
  · cases h
    exact ⟨hv, fun _ hr => Except.ok.inj hr ▸ hP⟩

end Yields

end Action

/-! ## Settings -/

/-- The bounds of the settings of a review. -/
structure ReviewSettings.Bounded (s : ReviewSettings) : Prop where
  requests : 1 ≤ s.maxRequests
  rounds : 1 ≤ s.maxRounds
  toolCalls : 0 ≤ s.maxToolCalls

lemma ReviewSettings.bounded_standard (home : Path) : Bounded { root := home } := ⟨by simp, by simp, by simp⟩

lemma ReviewSettings.bounded_of_readFields {α} [Record.Source α] {home : Path} {fs : List (String × α)} {s}
    (h : readFields home fs = .ok s) : s.Bounded := by
  refine Record.of_run ?_ h
  refine .skip fun root => .skip fun assets => .skip fun timeout => .skip fun assetKey => ?_
  refine .optional (by decide) (fun _ _ => Record.wholeFrom_le) fun maxRequests => ?_
  refine .optional (by decide) (fun _ _ => Record.wholeFrom_le) fun maxRounds => ?_
  refine .optional (by decide) (fun _ _ => wholeFrom_le) fun maxToolCalls => ?_
  repeat refine .skip fun _ => ?_
  exact .pure fun htools hrounds hrequests => ⟨hrequests, hrounds, htools⟩

namespace Settings

variable {home : Path} {s : Settings} {w w' : Workspace}

lemma bounded_of_readFields {α} [Record.Source α] {fs : List (String × α)} (h : readFields home fs = .ok s) :
    s.review.Bounded := by
  refine Record.of_run (P := fun s : Settings => s.review.Bounded) ?_ h
  refine .skip fun model => ?_
  refine .optional (P := ReviewSettings.Bounded) (ReviewSettings.bounded_standard home) ?_ fun review => ?_
  · intro v review hreview
    obtain ⟨fs, -, hreview⟩ := except_bind_eq_ok_iff.1 hreview
    exact ReviewSettings.bounded_of_readFields hreview
  · exact .pure fun hreview => hreview

lemma bounded_of_toExcept {r} (hr : ∀ s, r = .ok s → s.review.Bounded) (h : toExcept recordName r = .ok s) :
    s.review.Bounded := by
  cases r with
  | ok s' =>
    cases h
    exact hr s rfl
  | error e => cases e <;> cases h

lemma bounded_of_ofJson {v} (h : ofJson home v = .ok s) : s.review.Bounded := by
  unfold ofJson at h
  split at h
  · exact bounded_of_toExcept (fun _ => bounded_of_readFields) h
  · cases h

lemma bounded_of_ofDocument {v} (h : ofDocument home v = .ok s) : s.review.Bounded := by
  unfold ofDocument at h
  split at h
  · split at h
    · exact bounded_of_toExcept (fun _ => bounded_of_readFields) h
    · cases h
  · cases h

lemma yields_readFile (p) : (readFile home p).Yields fun s => s.review.Bounded := by
  have htext : Action.Steady (readText p) := (steady_readBytes p).bind fun b => by
    split
    · exact .pure _
    · exact .throw _
  refine .bind (.ofSteady htext) fun text _ => ?_
  split
  · split
    · exact .ofExcept fun _ => bounded_of_ofDocument
    · exact .throw _
  split
  · split
    · exact .ofExcept fun _ => bounded_of_ofJson
    · exact .throw _
  · exact .throw _

lemma yields_load (p) : (load home p).Yields fun s => s.review.Bounded := by
  refine .bind (.ofSteady (steady_resolve p)) fun q _ => ?_
  refine .bind (.ofSteady ((steady_entry q).bind fun _ => .pure _)) fun there _ => ?_
  split
  · exact .bind (P := fun _ => False) (.throw _) fun _ h => h.elim
  · refine .bind (yields_readFile q).attempt fun r hr => ?_
    split
    · exact .pure (hr _ rfl)
    · exact .throw _
    · exact .throw _

/-- The variables after those of the file for them were loaded. -/
def withFile (w : Workspace) : Pairs := (loadVariables w).2.environment

/-- Settings that are found are bounded. The environment is as before, or that with the variables of the file. -/
lemma of_loadFirst {names : Strings} (h : loadFirst home names w = (.ok s, w')) :
    s.review.Bounded ∧ (w'.environment = w.environment ∨ w'.environment = withFile w) := by
  induction names generalizing w with
  | nil =>
    obtain ⟨hs, hw⟩ := Prod.mk.inj h
    exact ⟨Except.ok.inj hs ▸ ReviewSettings.bounded_standard home, .inr (congrArg Workspace.environment hw.symm)⟩
  | cons name names ih =>
    obtain ⟨there, v, hthere, h⟩ := bind_eq_ok h
    obtain rfl := ((steady_entry _).bind fun _ => .pure _).eq_of_ok hthere
    split at h
    · obtain ⟨r, v, hr, h⟩ := bind_eq_ok h
      obtain ⟨hv, hloaded⟩ := (yields_load _).attempt _ _ v hr
      cases r with
      | ok s =>
        cases h
        exact ⟨hloaded _ rfl s rfl, .inl (Prod.mk.inj hv).1⟩
      | error e =>
        -- a file that cannot be read leaves nothing but a warning
        obtain ⟨_, u, hsay, h⟩ := bind_eq_ok h
        cases hsay
        obtain ⟨hbounded, henv⟩ := ih h
        obtain ⟨henv₁, hfile₁⟩ := Prod.mk.inj hv
        refine ⟨hbounded, henv.imp (·.trans henv₁) fun h => h.trans ?_⟩
        change List.foldl _ v.environment v.envFile = List.foldl _ w.environment w.envFile
        rw [henv₁, hfile₁]
    · exact ih h

/-- The number of tool calls that the environment gives, by either name. -/
def toolCallsGiven? (env : Pairs) : Option Int :=
  (given env "MAX_EXPERT_TOOL_CALLS" <|> given env "MAX_EXPERT_TOOL_CALL").bind readInt?

/-- The numbers that the environment gives in place of settings are within the bounds. -/
structure BoundedOverrides (env : Pairs) : Prop where
  requests : ((given env "MAX_CONCURRENT_LLM_REQUESTS").bind readInt?).all (1 ≤ ·) = true
  rounds : ((given env "MAX_EXPERT_ROUNDS").bind readInt?).all (1 ≤ ·) = true
  toolCalls : (toolCallsGiven? env).all (0 ≤ ·) = true

lemma le_getD_iff {least d} (hd : least ≤ d) (o : Option Int) : least ≤ o.getD d ↔ o.all (least ≤ ·) := by
  cases o <;> simp [hd]

lemma bounded_withEnvironment_iff (h : s.review.Bounded) (env : Pairs) :
    (s.withEnvironment env).review.Bounded ↔ BoundedOverrides env := by
  have htools : (s.withEnvironment env).review.maxToolCalls = (toolCallsGiven? env).getD s.review.maxToolCalls := by
    unfold withEnvironment toolCallsGiven?
    cases given env "MAX_EXPERT_TOOL_CALLS" <;> rfl
  have hrequests := le_getD_iff h.requests ((given env "MAX_CONCURRENT_LLM_REQUESTS").bind readInt?)
  have hrounds := le_getD_iff h.rounds ((given env "MAX_EXPERT_ROUNDS").bind readInt?)
  have hcalls := le_getD_iff h.toolCalls (toolCallsGiven? env)
  rw [← htools] at hcalls
  exact ⟨fun h => ⟨hrequests.1 h.requests, hrounds.1 h.rounds, hcalls.1 h.toolCalls⟩,
    fun h => ⟨hrequests.2 h.requests, hrounds.2 h.rounds, hcalls.2 h.toolCalls⟩⟩

/-- The settings of a run are within their bounds just when the numbers are that the environment gives in the end. That
is the environment before, with the variables of the file for them where no settings were found. -/
theorem standard_bounded_iff (h : loadStandard home w = (.ok s, w')) :
    (s.review.Bounded ↔ BoundedOverrides w'.environment) ∧
      (w'.environment = w.environment ∨ w'.environment = withFile w) := by
  obtain ⟨loaded, v, hload, h⟩ := bind_eq_ok h
  obtain ⟨hloaded, henv⟩ := of_loadFirst hload
  cases h
  exact ⟨bounded_withEnvironment_iff hloaded _, henv⟩

/-- A run without files whose environment gives a number of rounds. -/
def withRounds (n : String) : Workspace := { environment := [("MAX_EXPERT_ROUNDS", n)] }

lemma loadStandard_withRounds (n) :
    loadStandard home (withRounds n) = (.ok ((standard home).withEnvironment (withRounds n).environment), withRounds n) := by
  rfl

/-- Three rounds are within the bounds. -/
theorem standard_bounded_three_rounds : ∃ s w',
    loadStandard ⟨"/", ["w"]⟩ (withRounds "3") = (.ok s, w') ∧ s.review.Bounded := by
  refine ⟨_, _, loadStandard_withRounds "3", (standard_bounded_iff (loadStandard_withRounds "3")).1.mpr ?_⟩
  exact ⟨by decide +kernel, by decide +kernel, by decide +kernel⟩

/-- The environment may leave an expert without rounds. -/
theorem no_rounds_given : ∃ s w',
    loadStandard ⟨"/", ["w"]⟩ (withRounds "0") = (.ok s, w') ∧ s.review.maxRounds = 0 ∧ ¬ s.review.Bounded := by
  refine ⟨_, _, loadStandard_withRounds "0", by decide +kernel, fun h => ?_⟩
  exact absurd h.rounds (by decide +kernel)

end Settings

end PatchReview
