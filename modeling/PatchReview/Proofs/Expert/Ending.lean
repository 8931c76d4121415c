import PatchReview.Expert.Analysis
import PatchReview.Proofs.Chat
import PatchReview.Proofs.Json.Candidates

/-!
# Conversations with experts end

An expert goes on as long as the model calls tools. Two counts are taken from the messages of each round, those of the
model and those of tools, and either of them stops the expert in the end. A stopped expert calls no tools, so it ends
there, provided that its last answer can be searched for a judgement.
-/

namespace PatchReview

open Action Chat Fields Json List Message Number Text

namespace Json

open Reader

/-! ## Answers that cannot be searched -/

/-- An object in braces that has the form of a document but cannot be read is an error. -/
lemma extractValue_of_isDocument (mid) {err} (hmid : ∀ c ∈ mid, isMark c = false)
    (hread : isDocument (String.ofList ('{' :: mid ++ ['}'])) = .error err) :
    extractValue (String.ofList ('{' :: mid ++ ['}'])) = .error err := by
  obtain ⟨more, hmore⟩ := exists_candidates [] [] (by simp) (balanced_of_forall hmid) not_mem_nil
  rw [nil_append, append_nil] at hmore
  unfold extractValue extract
  rw [String.toList_ofList, hmore, firstDocument?, hread]
  rfl

/-- The digits of a number, at the end of an object. -/
def ones (n : Nat) : Chars := '1' :: (List.replicate n '1' ++ ['}'])

lemma takeWhile_ones (n) : (ones n).takeWhile isDigit = List.replicate (n + 1) '1' := by
  change (List.replicate (n + 1) '1' ++ ['}']).takeWhile isDigit = _
  simp [isDigit]

lemma readNumber?_ones (n p) : ∃ v : Nat, readNumber? (ones n) p = some (.int v, ⟨['}'], p + (n + 1)⟩) := by
  refine ⟨digitsValue (List.replicate (n + 1) '1'), ?_⟩
  have htake := takeWhile_ones n
  unfold ones at htake ⊢
  simp [readNumber?, htake, exponent?]

lemma readValue_ones {n} (hn : digitLimit ≤ n) (fuel depth p) :
    ∃ reason, readValue (fuel + 1) depth (ones n) p = .error ⟨reason, p, .digits⟩ := by
  obtain ⟨v, hv⟩ := readNumber?_ones n p
  unfold ones at hv ⊢
  rw [readValue, hv]
  · have hlong : digitLimit < p + (n + 1) - p - (if (v : Int) < 0 then 1 else 0) := by
      rw [if_neg (by omega)]
      omega
    exact ⟨_, if_pos hlong⟩
  all_goals simp

lemma isDocument_ones {n} (hn : digitLimit ≤ n) :
    ∃ err, isDocument (String.ofList ('{' :: '"' :: '"' :: ':' :: ones n)) = .error err := by
  obtain ⟨fuel, hfuel⟩ : ∃ fuel, 2 * ('{' :: '"' :: '"' :: ':' :: ones n).length + 2 = fuel + 3 := ⟨_, rfl⟩
  obtain ⟨reason, hreason⟩ := readValue_ones hn fuel (depthLimit - 1) 4
  have hvalue : readValue (fuel + 3) depthLimit ('{' :: '"' :: '"' :: ':' :: ones n) 0 =
      .error ⟨reason, 4, .digits⟩ := by
    rw [readValue]
    change readValue.readMembers (fuel + 2) (depthLimit - 1) ('"' :: '"' :: ':' :: ones n) 1 [] = _
    rw [readValue.readMembers]
    change (readValue (fuel + 1) (depthLimit - 1) (ones n) 4 >>= _) = _
    rw [hreason]
    rfl
  have hread : read (String.ofList ('{' :: '"' :: '"' :: ':' :: ones n)) =
      .error ⟨reason, '{' :: '"' :: '"' :: ':' :: ones n, 4, .digits⟩ := by
    have hskip : skipSpace ('{' :: '"' :: '"' :: ':' :: ones n) 0 = ⟨'{' :: '"' :: '"' :: ':' :: ones n, 0⟩ := rfl
    unfold read
    rw [String.toList_ofList]
    dsimp only
    rw [hfuel, hskip, hvalue]
    rfl
  rw [isDocument, hread]
  exact ⟨_, rfl⟩

/-- An object with a number of more digits than are read is no answer without a judgement, but one that cannot be
searched. -/
lemma extractValue_ones {n} (hn : Number.digitLimit ≤ n) :
    ∃ err, extractValue (String.ofList ('{' :: '"' :: '"' :: ':' :: ones n)) = .error err := by
  obtain ⟨err, hread⟩ := isDocument_ones hn
  have hmem : ∀ c ∈ '"' :: '"' :: ':' :: List.replicate (n + 1) '1', c = '"' ∨ c = ':' ∨ c = '1' := by
    intro c hc
    simp only [mem_cons, mem_replicate] at hc
    rcases hc with rfl | rfl | rfl | ⟨-, rfl⟩ <;> simp
  refine ⟨err, extractValue_of_isDocument ('"' :: '"' :: ':' :: List.replicate (n + 1) '1') (fun c hc => ?_) hread⟩
  rcases hmem c hc with rfl | rfl | rfl <;> rfl

end Json

/-! ## Steps that leave the model alone -/

/-- A step that ends normally, asks the model nothing and takes none of its answers. -/
def Action.Quiet {α : Type} (a : Action α) : Prop :=
  ∀ w, ∃ x v, a w = (.ok x, v) ∧ v.replies = w.replies ∧ v.questions = w.questions

/-- The model has been asked nothing and has answered nothing. -/
abbrev Unasked (w v : Workspace) : Prop := v.replies = w.replies ∧ v.questions = w.questions

namespace Expert

open Chat (Message)

variable {e : Expert} {t : Task} {p : Patience} {st : Stop} {ms ms' added given : List Message} {m : Message}
  {w w' u v : Workspace} {s : String} {n : Nat}

lemma note_apply (s w) :
    ∃ v, Console.note s w = (.ok (), v) ∧ Unasked w v ∧ v.environment = w.environment := by
  unfold Console.note
  rw [bind_apply]
  change ∃ v, (if isYes _ then Action.say s else pure ()) w = _ ∧ _
  split
  · exact ⟨_, rfl, ⟨rfl, rfl⟩, rfl⟩
  · exact ⟨w, rfl, ⟨rfl, rfl⟩, rfl⟩

/-- There is a text for experts on every kind of risk. -/
lemma exists_introduction (k : Risk.Kind) (toolsText w) :
    ∃ s, introduction (strip k.name) toolsText w = (.ok s, w) := by
  obtain ⟨s, hs⟩ := Prompt.Template.exists_fill (t := Prompt.ofKind k)
    ([("risk_type", strip k.name), ("available_tools", toolsText)] ++ [("validation_logic_examples", "")])
    (by cases k <;> rfl)
  refine ⟨s, ?_⟩
  unfold introduction
  rw [bind_apply, attempt_apply, Prompt.render_of_fill (Prompt.get?_catalog k) hs]
  rfl

lemma exists_systemText (k : Risk.Kind) (toolsText form t w) :
    ∃ s, systemText k.name toolsText form t w = (.ok s, w) := by
  obtain ⟨s, hs⟩ := exists_introduction k toolsText w
  unfold systemText
  rw [bind_of_ok hs]
  split <;> exact ⟨_, rfl⟩

/-- The patience that an environment gives. -/
def patienceIn (environment : Pairs) : Patience :=
  let whole (name : String) (default : Int) : Int :=
    (readInt? (strip ((get? environment name).getD ""))).getD default
  ⟨max 1 (whole "EXPERT_MAX_CONSECUTIVE_NO_SIGNAL_TOOLS" 5), max 1 (whole "EXPERT_NO_SIGNAL_WINDOW" 10)⟩

lemma patience_apply (w) : Patience.ofEnvironment w = (.ok (patienceIn w.environment), w) := rfl

lemma patience_unique (h : Patience.ofEnvironment w = (.ok p, v)) : patienceIn w.environment = p := by
  rw [patience_apply, Prod.mk.injEq, Except.ok.injEq] at h
  exact h.1

/-! ## One round -/

/-- The model will say texts only, with any calls of tools, and does not fail. -/
def SaysTexts (w : Workspace) : Prop := ∀ r ∈ w.replies, ∃ s calls, r = .message (.text s) calls

/-- The model was asked once. -/
structure Asked (w v : Workspace) : Prop where
  replies : v.replies = w.replies.tail
  questions : v.questions.length = w.questions.length + 1

lemma SaysTexts.tail (hw : SaysTexts w) (h : v.replies = w.replies.tail) : SaysTexts v :=
  fun r hr => hw r (mem_of_mem_tail (h ▸ hr))

lemma SaysTexts.nextAnswer_eq (hw : SaysTexts w) : nextAnswer w = .ok (nextMessage w) := by
  unfold nextAnswer
  split
  · rename_i hr
    obtain ⟨s, calls, heq⟩ := hw _ (hr ▸ mem_cons_self)
    cases heq
  · rfl

lemma ask_apply (hw : SaysTexts w) (messages : List Message) (settings : List (String × Json)) :
    ∃ v, ask messages settings w = (.ok (nextMessage w), v) ∧ Asked w v := by
  obtain ⟨v, hask, hreplies, hquestions⟩ := ask_answer ⟨messages, settings⟩ w
  exact ⟨v, hw.nextAnswer_eq ▸ hask, hreplies, by simp [hquestions]⟩

lemma exists_limits (w) : ∃ l, Limits.ofEnvironment w = (.ok l, w) := ⟨_, rfl⟩

/-- A stopped expert judges by what the model says next. -/
lemma halt_apply (e : Expert) (st r ms w) :
    ∃ v, e.halt st r ms w = (st.judgement e.stopConfidence r (nextAnswer w), v) ∧ Asked w v := by
  obtain ⟨l, hl⟩ := exists_limits w
  obtain ⟨evidence, hevidence⟩ : ∃ evidence, digest (shrink l ms) w = (.ok evidence, w) := ⟨_, rfl⟩
  obtain ⟨v, hask, hreplies, hquestions⟩ := attempt_ask
    ⟨[system (st.text (renderReal plainReal e.stopConfidence) e.form r evidence),
      human stopRequest], []⟩ w
  refine ⟨v, ?_, hreplies, by simp [hquestions]⟩
  unfold halt
  rw [bind_of_ok hl, bind_of_ok hevidence, bind_of_ok hask]
  exact ofExcept_apply _ v

/-- What comes first in a round, whether the expert is stopped or not. -/
lemma reason_apply (e : Expert) (t ms) (w) :
    ∃ system w₁, Unasked w w₁ ∧ w₁.environment = w.environment ∧
      e.reason t ms w = (match e.stop? (patienceIn w.environment) ms with
        | some s => do return [← e.halt s t.risk ms]
        | none =>
          if ms.isEmpty then do return [firstRequest, ← ask [Message.system system, firstRequest] []]
          else do return [← ask (Message.system system :: shrink (← Limits.ofEnvironment) ms) []] :
            Action (List Message)) w₁ := by
  obtain ⟨w₁, hnote, hsame, henv⟩ := note_apply
    (s!"  🔍 [专家分析] 第 {1 + modelMessages ms} 轮 | [{t.risk.kind.name}] {t.risk.path}:" ++
      s!"{t.risk.lines.1}-{t.risk.lines.2}") w
  obtain ⟨system, hsystem⟩ := exists_systemText t.risk.kind e.toolsText e.form t w₁
  refine ⟨system, w₁, hsame, henv, ?_⟩
  have hpatience : Patience.ofEnvironment w₁ = (.ok (patienceIn w.environment), w₁) := by rw [patience_apply, henv]
  unfold reason
  rw [bind_of_ok hnote, bind_of_ok hsystem]
  exact bind_of_ok hpatience

lemma SaysTexts.congr (hw : SaysTexts w) (h : v.replies = w.replies) : SaysTexts v := fun r hr => hw r (h ▸ hr)

lemma Asked.congr (h : Asked w v) (hsame : Unasked w' w) : Asked w' v :=
  ⟨hsame.1 ▸ h.replies, hsame.2 ▸ h.questions⟩

lemma nextMessage_congr (h : v.replies = w.replies) : nextMessage v = nextMessage w := by
  unfold nextMessage
  rw [h]

/-- A round of an expert that is stopped. -/
lemma reason_of_stop (hw : SaysTexts w) (hstop : e.stop? (patienceIn w.environment) ms = some st) :
    ∃ v, e.reason t ms w = ((st.judgement e.stopConfidence t.risk (.ok (nextMessage w))).map ([·]), v) ∧ Asked w v := by
  obtain ⟨system, w₁, hsame, -, hreason⟩ := reason_apply e t ms w
  obtain ⟨v, hhalt, hasked⟩ := halt_apply e st t.risk ms w₁
  refine ⟨v, ?_, hasked.congr hsame⟩
  rw [hreason, hstop]
  dsimp only
  rw [bind_apply, hhalt, (hw.congr hsame.1).nextAnswer_eq, nextMessage_congr hsame.1]
  cases st.judgement e.stopConfidence t.risk (.ok (nextMessage w)) <;> rfl

/-- A round of an expert that goes on: what the model says comes last. -/
lemma reason_of_go (hw : SaysTexts w) (hgo : e.stop? (patienceIn w.environment) ms = none) :
    ∃ first v, e.reason t ms w = (.ok (first ++ [nextMessage w]), v) ∧ (∀ m ∈ first, m.speaker = .human) ∧
      Asked w v := by
  obtain ⟨system, w₁, hsame, -, hreason⟩ := reason_apply e t ms w
  rw [hreason, hgo]
  dsimp only
  split
  · obtain ⟨v, hask, hasked⟩ := ask_apply (hw.congr hsame.1) [Message.system system, firstRequest] []
    refine ⟨[firstRequest], v, ?_, forall_mem_singleton.2 rfl, hasked.congr hsame⟩
    rw [bind_of_ok hask, nextMessage_congr hsame.1]
    rfl
  · obtain ⟨l, hl⟩ := exists_limits w₁
    obtain ⟨v, hask, hasked⟩ := ask_apply (hw.congr hsame.1) (Message.system system :: shrink l ms) []
    refine ⟨[], v, ?_, by simp, hasked.congr hsame⟩
    rw [bind_of_ok hl, bind_of_ok hask, nextMessage_congr hsame.1]
    rfl

lemma SaysTexts.exists_content (hw : SaysTexts w) : ∃ s, (nextMessage w).content = .text s := by
  unfold nextMessage
  split
  · rename_i content calls rest hr
    obtain ⟨s, _, heq⟩ := hw (.message content calls) (hr ▸ mem_cons_self)
    cases heq
    exact ⟨s, rfl⟩
  · exact ⟨"", rfl⟩

lemma speaker_nextMessage (w) : (nextMessage w).speaker = .ai := by
  unfold nextMessage
  split <;> rfl

/-- The judgement of a stopped expert calls no tools. It is there if the answer can be searched for one. -/
lemma exists_judgement (hm : m.content = .text s) {found} (hs : extractValue s = .ok found) (st : Stop) (bound r) :
    ∃ text, st.judgement bound r (.ok m) = .ok (ai text) := by
  obtain ⟨fields, hfields⟩ : ∃ fields, fieldsIn s = .ok fields := by
    unfold fieldsIn
    rw [hs]
    rcases found with _ | v
    · exact ⟨none, rfl⟩
    · cases v <;> exact ⟨_, rfl⟩
  dsimp only [Stop.judgement, bounded]
  rw [hm, answerText, ok_bind, hfields]
  exact ⟨_, rfl⟩

lemma judgement_fails (hm : m.content = .text s) {err} (hs : extractValue s = .error err) (st : Stop) (bound r) :
    st.judgement bound r (.ok m) = .error (.malformed err) := by
  dsimp only [Stop.judgement, bounded]
  rw [hm, answerText, ok_bind, fieldsIn, hs]
  rfl

/-! ## Calling tools -/

/-- Tools that end normally and leave the model alone. -/
def ToolsQuiet (e : Expert) : Prop := ∀ tool ∈ e.tools, ∀ args, (tool.2 args).Quiet

lemma call_apply (he : e.ToolsQuiet) (c w) :
    ∃ m v, e.call c w = (.ok m, v) ∧ m.speaker = .tool ∧ Unasked w v := by
  unfold call
  cases htool : e.tools.lookup ((c.getD "name").text?.getD "") with
  | none => exact ⟨_, w, rfl, rfl, rfl, rfl⟩
  | some tool =>
    obtain ⟨x, v, hx, hsame⟩ := he (_, tool) (mem_of_get? htool) (c.getD "args").fields w
    dsimp only
    rw [bind_of_ok hx]
    cases x <;> exact ⟨_, v, rfl, rfl, hsame⟩

lemma mapM_call_apply (he : e.ToolsQuiet) (calls : List Json) (w) :
    ∃ given v, calls.mapM e.call w = (.ok given, v) ∧ given.length = calls.length ∧
      (∀ m ∈ given, m.speaker = .tool) ∧ Unasked w v := by
  induction calls generalizing w with
  | nil => exact ⟨[], w, rfl, rfl, by simp, rfl, rfl⟩
  | cons c calls ih =>
    obtain ⟨m, u, hm, htool, hsame⟩ := call_apply he c w
    obtain ⟨given, v, hgiven, hlength, htools, hsame'⟩ := ih u
    refine ⟨m :: given, v, ?_, by simp [hlength], forall_mem_cons.2 ⟨htool, htools⟩,
      hsame'.1.trans hsame.1, hsame'.2.trans hsame.2⟩
    rw [mapM_cons, bind_of_ok hm, bind_of_ok hgiven]
    rfl

/-! ## Ends of a conversation -/

/-- A round after which tools are called, and what they give. -/
def GoesOn (e : Expert) (t : Task) (ms : List Message) (w : Workspace) (ms' : List Message) (w' : Workspace) : Prop :=
  ∃ added v given, e.reason t ms w = (.ok added, v) ∧ (e.hasTools && callsTools (ms ++ added)) = true ∧
    (((ms ++ added).getLast?.map (·.calls)).getD []).mapM e.call v = (.ok given, w') ∧ ms' = ms ++ added ++ given

/-- Rounds with calls of tools, and a last one without, lead from messages to others. -/
inductive Ends (e : Expert) (t : Task) : List Message → Workspace → List Message → Workspace → Prop
  | here {ms added : List Message} {w v : Workspace} (hreason : e.reason t ms w = (.ok added, v))
      (hlast : (e.hasTools && callsTools (ms ++ added)) = false) : Ends e t ms w (ms ++ added) v
  | later {ms ms₁ ms' : List Message} {w w₁ w' : Workspace} (hgo : GoesOn e t ms w ms₁ w₁)
      (hrest : Ends e t ms₁ w₁ ms' w') : Ends e t ms w ms' w'

/-- The expert is stopped in this round or a later one, and the model then says this. -/
inductive StoppedWith (e : Expert) (t : Task) : List Message → Workspace → String → Prop
  | here {ms : List Message} {w : Workspace} {p : Patience} {st : Stop} {s : String}
      (hpatience : Patience.ofEnvironment w = (.ok p, w)) (hstop : e.stop? p ms = some st)
      (hnext : (nextMessage w).content = .text s) : StoppedWith e t ms w s
  | later {ms ms₁ : List Message} {w w₁ : Workspace} {s : String} (hgo : GoesOn e t ms w ms₁ w₁)
      (hrest : StoppedWith e t ms₁ w₁ s) : StoppedWith e t ms w s

variable {ms₁ ms₂ : List Message} {w₁ w₂ : Workspace}

lemma GoesOn.unique (h₁ : GoesOn e t ms w ms₁ w₁) (h₂ : GoesOn e t ms w ms₂ w₂) : ms₁ = ms₂ ∧ w₁ = w₂ := by
  obtain ⟨added, v, given, hreason, -, hcalls, rfl⟩ := h₁
  obtain ⟨added', v', given', hreason', -, hcalls', rfl⟩ := h₂
  cases hreason.symm.trans hreason'
  cases hcalls.symm.trans hcalls'
  exact ⟨rfl, rfl⟩

/-- A stopped expert calls no tools. -/
lemma callsTools_of_stop (hw : SaysTexts w) (hstop : e.stop? (patienceIn w.environment) ms = some st)
    (hreason : e.reason t ms w = (.ok added, v)) : callsTools (ms ++ added) = false := by
  obtain ⟨v', hstopped, -⟩ := reason_of_stop (t := t) hw hstop
  obtain ⟨s, hs⟩ := hw.exists_content
  cases hfound : extractValue s with
  | error err =>
    rw [judgement_fails hs hfound] at hstopped
    cases hreason.symm.trans hstopped
  | ok found =>
    obtain ⟨text, htext⟩ := exists_judgement hs hfound st e.stopConfidence t.risk
    rw [htext] at hstopped
    cases hreason.symm.trans hstopped
    simp [callsTools, ai, truthy]

lemma callsTools_concat (ms m) : callsTools (ms ++ [m]) = m.toolCalls.truthy := by simp [callsTools]

lemma toolCalls_nextMessage (w) : (nextMessage w).toolCalls = .list (nextMessage w).calls := by
  unfold nextMessage
  split <;> rfl

lemma modelMessages_eq_zero (h : ∀ m ∈ ms, m.speaker ≠ .ai) : modelMessages ms = 0 :=
  countP_eq_zero.2 fun m hm => by simpa using h m hm

/-- What a round with calls of tools does: the model is asked once, and more tools have spoken. -/
lemma GoesOn.spec (he : e.ToolsQuiet) (hw : SaysTexts w) (h : GoesOn e t ms w ms₁ w₁) :
    Asked w w₁ ∧ e.stop? (patienceIn w.environment) ms = none ∧ modelMessages ms₁ = modelMessages ms + 1 ∧
      toolMessages ms < toolMessages ms₁ := by
  obtain ⟨added, v, given, hreason, hgo, hcalls, rfl⟩ := h
  rw [Bool.and_eq_true] at hgo
  cases hstop : e.stop? (patienceIn w.environment) ms with
  | some st =>
    rw [callsTools_of_stop hw hstop hreason] at hgo
    cases hgo.2
  | none =>
    obtain ⟨first, v', hgoes, hfirst, hasked⟩ := reason_of_go (t := t) hw hstop
    cases hreason.symm.trans hgoes
    rw [← append_assoc, callsTools_concat, toolCalls_nextMessage] at hgo
    rw [← append_assoc, getLast?_concat] at hcalls
    obtain ⟨given', u, hgiven, hlength, htools, hsame⟩ := mapM_call_apply he (nextMessage w).calls v
    cases hcalls.symm.trans hgiven
    have hsome : 0 < given.length := by
      rw [hlength, length_pos_iff]
      intro hnil
      simp [hnil, truthy] at hgo
    have hfirst : modelMessages first = 0 := modelMessages_eq_zero fun m hm => by simp [hfirst m hm]
    have hgiven : modelMessages given = 0 := modelMessages_eq_zero fun m hm => by simp [htools m hm]
    have hspoken : toolMessages given = given.length := countP_eq_length.2 fun m hm => by simp [htools m hm]
    refine ⟨⟨hsame.1.trans hasked.replies, hsame.2 ▸ hasked.questions⟩, rfl, ?_, ?_⟩
    · unfold modelMessages at *
      simp [hfirst, hgiven, speaker_nextMessage]
    · unfold toolMessages at *
      simp only [countP_append]
      omega

/-- A conversation that comes to its end does so with an answer that can be read. -/
lemma Ends.readable (he : e.ToolsQuiet) (hw : SaysTexts w) (hend : Ends e t ms w ms' w')
    (hstop : StoppedWith e t ms w s) : (extractValue s).isOk := by
  induction hstop with
  | @here ms w p st s hpatience hstop hnext =>
    obtain rfl := patience_unique hpatience
    cases hend with
    | here hreason hlast =>
      obtain ⟨v, hstopped, -⟩ := reason_of_stop (t := t) hw hstop
      cases hfound : extractValue s with
      | ok found => rfl
      | error err =>
        rw [judgement_fails hnext hfound] at hstopped
        cases hreason.symm.trans hstopped
    | later hgo hrest =>
      rw [(hgo.spec he hw).2.1] at hstop
      cases hstop
  | @later ms ms₁ w w₁ s hgo hrest ih =>
    cases hend with
    | here hreason hlast =>
      obtain ⟨added, v, given, hreason', hgoes, -⟩ := hgo
      cases hreason.symm.trans hreason'
      rw [hlast] at hgoes
      cases hgoes
    | later hgo' hrest' =>
      obtain ⟨rfl, rfl⟩ := hgo.unique hgo'
      exact ih (hw.tail (hgo.spec he hw).1.replies) hrest'

/-! ## Every conversation ends -/

lemma lt_of_stop?_eq_none (h : e.stop? p ms = none) :
    (modelMessages ms : Int) < e.rounds ∧ (0 < e.toolCalls → (toolMessages ms : Int) < e.toolCalls) := by
  by_cases hrounds : 1 + (modelMessages ms : Int) ≤ e.rounds
  · rw [stop?, roundsStop?, if_pos hrounds] at h
    refine ⟨by omega, fun htools => Int.not_le.1 fun hmany => ?_⟩
    rw [toolsStop?, if_neg (by omega), if_pos (by omega)] at h
    cases h
  · rw [stop?, roundsStop?, if_neg hrounds] at h
    cases h

lemma converse_of_last (hreason : e.reason t ms w = (.ok added, v))
    (hlast : (e.hasTools && callsTools (ms ++ added)) = false) (n) :
    e.converse t (n + 1) ms w = (.ok (ms ++ added), v) := by
  rw [converse, bind_of_ok hreason, hlast]
  rfl

lemma converse_of_goesOn (hgo : GoesOn e t ms w ms₁ w₁) (n) : e.converse t (n + 1) ms w = e.converse t n ms₁ w₁ := by
  obtain ⟨added, v, given, hreason, hgoes, hcalls, rfl⟩ := hgo
  rw [converse, bind_of_ok hreason, if_pos hgoes, bind_of_ok hcalls]

/-- The most rounds with calls of tools. -/
def mostRounds (e : Expert) : Nat := (min e.rounds e.toolCalls).toNat

/-- From messages with as many rounds behind them as tools allow, the end is reached within the rounds that are left. -/
lemma exists_ends (he : e.ToolsQuiet) (htools : 0 < e.toolCalls) (hw : SaysTexts w)
    (hread : ∀ s, StoppedWith e t ms w s → (extractValue s).isOk) (hcount : modelMessages ms ≤ toolMessages ms)
    (hle : modelMessages ms ≤ e.mostRounds) (hfuel : e.mostRounds < n + modelMessages ms) :
    ∃ ms' v, e.converse t n ms w = (.ok ms', v) ∧ Ends e t ms w ms' v ∧
      v.questions.length + modelMessages ms ≤ w.questions.length + e.mostRounds + 1 := by
  induction n generalizing ms w with
  | zero => omega
  | succ n ih =>
    have hend : ∀ added v, e.reason t ms w = (.ok added, v) → Asked w v →
        (e.hasTools && callsTools (ms ++ added)) = false → ∃ ms' v, e.converse t (n + 1) ms w = (.ok ms', v) ∧
          Ends e t ms w ms' v ∧ v.questions.length + modelMessages ms ≤ w.questions.length + e.mostRounds + 1 := by
      intro added v hreason hasked hlast
      refine ⟨ms ++ added, v, converse_of_last hreason hlast n, .here hreason hlast, ?_⟩
      rw [hasked.questions]
      omega
    cases hstop : e.stop? (patienceIn w.environment) ms with
    | some st =>
      obtain ⟨v, hreason, hasked⟩ := reason_of_stop (t := t) hw hstop
      obtain ⟨s, hs⟩ := hw.exists_content
      have hok := hread s (.here (patience_apply w) hstop hs)
      cases hfound : extractValue s with
      | error err =>
        rw [hfound] at hok
        cases hok
      | ok found =>
        obtain ⟨text, htext⟩ := exists_judgement hs hfound st e.stopConfidence t.risk
        rw [htext] at hreason
        refine hend [ai text] v hreason hasked ?_
        rw [callsTools_of_stop hw hstop hreason, Bool.and_false]
    | none =>
      obtain ⟨first, v, hreason, -, hasked⟩ := reason_of_go (t := t) hw hstop
      cases hgoes : e.hasTools && callsTools (ms ++ (first ++ [nextMessage w])) with
      | false => exact hend _ v hreason hasked hgoes
      | true =>
        obtain ⟨given, u, hgiven, -⟩ := mapM_call_apply he
          (((ms ++ (first ++ [nextMessage w])).getLast?.map (·.calls)).getD []) v
        have hgo : GoesOn e t ms w _ u := ⟨_, v, given, hreason, hgoes, hgiven, rfl⟩
        obtain ⟨hasked', -, hmodel, htool⟩ := hgo.spec he hw
        obtain ⟨hrounds, hcalls⟩ := lt_of_stop?_eq_none hstop
        have hnext : modelMessages ms + 1 ≤ e.mostRounds := by
          unfold mostRounds
          omega
        obtain ⟨ms', v', hconverse, hends, hquestions⟩ := ih (hw.tail hasked'.replies)
          (fun s hs => hread s (.later hgo hs)) (by omega) (by omega) (by omega)
        refine ⟨ms', v', (converse_of_goesOn hgo n).trans hconverse, .later hgo hends, ?_⟩
        rw [hasked'.questions] at hquestions
        omega

section

variable (hrounds : 1 ≤ e.rounds)

include hrounds

/-- The first round is not stopped. -/
lemma stop?_nil (environment) : e.stop? (patienceIn environment) [] = none := by
  have hround : 1 + ((modelMessages [] : Nat) : Int) ≤ e.rounds := hrounds
  have hnone : toolMessages [] = 0 := rfl
  have hsilent : ¬ (patienceIn environment).silent ≤ (recentSilent (patienceIn environment).window [] : Int) := by
    have hpositive : 1 ≤ (patienceIn environment).silent := Int.le_max_left ..
    simp only [recentSilent, filter_nil, reverse_nil, take_nil, countP_nil]
    omega
  rw [stop?, roundsStop?, if_pos hround]
  change toolsStop? _ _ _ = none
  rw [toolsStop?, if_neg (by omega), if_neg (by omega), if_neg hsilent]

/-- Without tools there is one round, and it is not stopped. -/
lemma exists_ends_of_no_tools (htools : e.toolCalls = 0) (hw : SaysTexts w) (n) :
    ∃ ms' v, e.converse t (n + 1) [] w = (.ok ms', v) ∧ Ends e t [] w ms' v ∧
      v.questions.length = w.questions.length + 1 := by
  have hstop := stop?_nil hrounds w.environment
  obtain ⟨first, v, hreason, -, hasked⟩ := reason_of_go (t := t) hw hstop
  have hlast : (e.hasTools && callsTools ([] ++ (first ++ [nextMessage w]))) = false := by simp [hasTools, htools]
  exact ⟨_, v, converse_of_last hreason hlast n, .here hreason hlast, hasked.questions⟩

/-- A conversation ends, and the model is asked once when there are no tools and else at most once more than there may
be rounds with calls: just when the answer to a stop, if there is one, can be searched for a judgement. An answer that
has the form of a document but is too deep or has a number with too many digits cannot. -/
theorem conversation_ends_iff (htools : 0 ≤ e.toolCalls) (he : e.ToolsQuiet) (hw : SaysTexts w) :
    (∃ ms v, e.conversation t w = (.ok ms, v) ∧ Ends e t [] w ms v ∧
        (e.toolCalls = 0 → v.questions.length = w.questions.length + 1) ∧
        (1 ≤ e.toolCalls → (v.questions.length : Int) ≤ w.questions.length + (min e.rounds e.toolCalls + 1))) ↔
      ∀ s, StoppedWith e t [] w s → (extractValue s).isOk := by
  constructor
  · rintro ⟨ms, v, -, hend, -⟩ s hs
    exact hend.readable he hw hs
  · intro hread
    by_cases hnone : e.toolCalls = 0
    · obtain ⟨ms, v, hconverse, hend, hquestions⟩ := exists_ends_of_no_tools hrounds hnone hw e.rounds.toNat
      exact ⟨ms, v, hconverse, hend, fun _ => hquestions, by omega⟩
    · have hsome : 0 < e.toolCalls := by omega
      obtain ⟨ms, v, hconverse, hend, hquestions⟩ := exists_ends (n := e.rounds.toNat + 1) he hsome hw hread
        (Nat.le_refl 0) (Nat.zero_le _) (by unfold mostRounds; omega)
      refine ⟨ms, v, hconverse, hend, by omega, fun _ => ?_⟩
      have hempty : modelMessages [] = 0 := rfl
      unfold mostRounds at hquestions
      omega

end

/-- A stop is answered with one of the model's answers, or with nothing once they are used up. -/
lemma StoppedWith.eq_or_mem (he : e.ToolsQuiet) (hw : SaysTexts w) (h : StoppedWith e t ms w s) :
    s = "" ∨ ∃ calls, .message (.text s) calls ∈ w.replies := by
  induction h with
  | @here ms w p st s hpatience hstop hnext =>
    unfold nextMessage at hnext
    split at hnext
    · rename_i content calls rest hr
      cases hnext
      exact .inr ⟨calls, hr ▸ mem_cons_self⟩
    · cases hnext
      exact .inl rfl
  | later hgo hrest ih =>
    have hasked := (hgo.spec he hw).1
    refine (ih (hw.tail hasked.replies)).imp_right ?_
    rintro ⟨calls, hmem⟩
    exact ⟨calls, mem_of_mem_tail (hasked.replies ▸ hmem)⟩

/-- An expert that may look once. -/
def oneLook : Expert := { rounds := 2, toolCalls := 1, tools := [("look", fun _ => pure (.text "found"))] }

lemma toolsQuiet_oneLook : oneLook.ToolsQuiet := by
  rintro tool htool args w
  obtain rfl := mem_singleton.1 htool
  exact ⟨_, w, rfl, rfl, rfl⟩

def plainTask : Task := { risk := { kind := .robustness, path := "a.py", lines := (1, 1), description := "" } }

variable (answer : String)

/-- A model that looks, and then answers. -/
def looksThenSays : Workspace :=
  { replies := [.message (.text "") [.object [("id", .text "1"), ("name", .text "look")]], .message (.text answer) []] }

lemma saysTexts_looksThenSays : SaysTexts (looksThenSays answer) :=
  forall_mem_cons.2 ⟨⟨_, _, rfl⟩, forall_mem_singleton.2 ⟨_, _, rfl⟩⟩

/-- One look is all that the expert may have, so it is stopped in the next round. -/
lemma stoppedWith_looksThenSays : StoppedWith oneLook plainTask [] (looksThenSays answer) answer := by
  have hw := saysTexts_looksThenSays answer
  have hstop := stop?_nil (e := oneLook) (by decide) (looksThenSays answer).environment
  obtain ⟨first, v, hreason, -, -⟩ := reason_of_go (t := plainTask) hw hstop
  have hgoes : (oneLook.hasTools && callsTools ([] ++ (first ++ [nextMessage (looksThenSays answer)]))) := by
    rw [← append_assoc, callsTools_concat]
    rfl
  obtain ⟨given, u, hgiven, -⟩ := mapM_call_apply toolsQuiet_oneLook
    ((([] ++ (first ++ [nextMessage (looksThenSays answer)])).getLast?.map calls).getD []) v
  obtain ⟨ms₁, hgo⟩ : ∃ ms₁, GoesOn oneLook plainTask [] (looksThenSays answer) ms₁ u :=
    ⟨_, _, v, given, hreason, hgoes, hgiven, rfl⟩
  obtain ⟨hasked, -, -, htool⟩ := hgo.spec toolsQuiet_oneLook hw
  refine .later hgo ?_
  have hreplies : u.replies = [.message (.text answer) []] := hasked.replies
  cases hnext : oneLook.stop? (patienceIn u.environment) ms₁ with
  | none =>
    have hone : oneLook.toolCalls = 1 := rfl
    have := (lt_of_stop?_eq_none hnext).2 (by decide)
    omega
  | some st => exact .here (patience_apply u) hnext (by rw [nextMessage, hreplies])

/-- A stop that is answered with an object: the model is asked twice. -/
theorem conversation_ends_one_look :
    1 ≤ oneLook.rounds ∧ 0 ≤ oneLook.toolCalls ∧ oneLook.ToolsQuiet ∧ SaysTexts (looksThenSays "{}") ∧
      ∃ ms v, oneLook.conversation plainTask (looksThenSays "{}") = (.ok ms, v) ∧
        Ends oneLook plainTask [] (looksThenSays "{}") ms v ∧
        (oneLook.toolCalls = 0 → v.questions.length = (looksThenSays "{}").questions.length + 1) ∧
        (1 ≤ oneLook.toolCalls → (v.questions.length : Int) ≤
          (looksThenSays "{}").questions.length + (min oneLook.rounds oneLook.toolCalls + 1)) := by
  have hw := saysTexts_looksThenSays "{}"
  refine ⟨by decide, by decide, toolsQuiet_oneLook, hw,
    (conversation_ends_iff (by decide) (by decide) toolsQuiet_oneLook hw).mpr fun s hs => ?_⟩
  obtain rfl | ⟨calls, hmem⟩ := hs.eq_or_mem toolsQuiet_oneLook hw
  · decide +kernel
  · rcases List.mem_cons.mp hmem with h | h
    · cases h
      decide +kernel
    · cases List.mem_singleton.mp h
      decide +kernel

/-- An object with a number that has one digit more than are read. -/
def longNumber : String := String.ofList ('{' :: '"' :: '"' :: ':' :: ones digitLimit)

/-- A stop that is answered with a number of too many digits: the conversation does not end, but fails. -/
theorem conversation_fails_long_number :
    1 ≤ oneLook.rounds ∧ 0 ≤ oneLook.toolCalls ∧ oneLook.ToolsQuiet ∧ SaysTexts (looksThenSays longNumber) ∧
      ¬ ∃ ms v, Ends oneLook plainTask [] (looksThenSays longNumber) ms v := by
  have hw := saysTexts_looksThenSays longNumber
  refine ⟨by decide, by decide, toolsQuiet_oneLook, hw, ?_⟩
  rintro ⟨ms, v, hend⟩
  obtain ⟨err, herr⟩ := extractValue_ones (n := digitLimit) (Nat.le_refl _)
  have := hend.readable toolsQuiet_oneLook hw (stoppedWith_looksThenSays longNumber)
  unfold longNumber at this
  rw [herr] at this
  cases this

end Expert

end PatchReview
