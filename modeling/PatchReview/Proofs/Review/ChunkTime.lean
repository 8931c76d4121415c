import PatchReview.Proofs.Chat
import PatchReview.Proofs.RealOrder
import PatchReview.Review.Run

/-!
# The time for looking at chunks

A run over a large change that has just begun puts its selected chunks to the model only when a quarter of the time
that it may take is more than a minute; otherwise all of them are given up before the first question. Nothing else that
the run does depends on the time, and a time that no real number holds ends it.
-/

namespace PatchReview.Review

open Chunk Except Fields Json Number

open List PatchReview.Action

variable {s : State} {w : Workspace} {x : Float} {cs : List Chunk}

/-! ## Time -/

/-- The time for looking at chunks that a number of seconds leaves when nothing else is set. -/
def standardTime (x : Float) : ChunkTime := ⟨if 30.0 < x * 0.25 then x * 0.25 else 30.0, 60.0⟩

lemma budget_pos (x) : 0.0 < (standardTime x).budget := by
  unfold standardTime
  split
  · exact lt_trans (y := 30.0) (by decide +kernel) ‹_›
  · decide +kernel

lemma not_budget_le (x) : ¬ (standardTime x).budget ≤ 0.0 :=
  (not_le_iff_lt (not_isNaN_of_lt (budget_pos x)).2 (by decide +kernel)).2 (budget_pos x)

/-- At the start there is time enough just when a quarter of it is more than the margin. -/
lemma enough_standardTime_iff (x) : (standardTime x).enough 0.0 ↔ 60.0 < x * 0.25 := by
  have hleft : (standardTime x).left 0.0 = (standardTime x).budget := by
    rw [ChunkTime.left, sub_zero]
    exact if_pos (budget_pos x)
  rw [ChunkTime.enough, hleft, Bool.not_eq_true', decide_eq_false_iff_not]
  unfold standardTime
  dsimp only
  split
  · exact not_le_iff_lt (not_isNaN_of_lt ‹_›).2 (by decide +kernel)
  · rename_i h
    refine iff_of_false (not_not.2 (by decide +kernel)) fun hlong => h ?_
    exact lt_trans (y := 60.0) (by decide +kernel) hlong

/-! ## Questions -/

variable (c : Chunk)

/-- What is filled into the text of a question about a chunk. -/
def chunkValues : Pairs :=
  [("chunk_id", c.id), ("group_key", c.group), ("files_list", joinWith "\n" ((c.files.map (·.path)).map ("- " ++ ·))),
    ("chunk_diff", c.diff)]

/-- The question that a prompt about a chunk makes. -/
def chunkQuestion (prompt : String) : Chat.Question :=
  ⟨[Chat.Message.system "You are an expert code reviewer analyzing PR diffs.",
    Chat.Message.human (prompt ++ "\n\n" ++ Chat.formOf "ChunkedIntentResponse")], [("temperature", .real 0.3)]⟩

/-- A question about a chunk. -/
def AsksAbout (q : Chat.Question) : Prop :=
  ∃ prompt, Prompt.chunk.fill (chunkValues c) = .ok prompt ∧ q = chunkQuestion prompt

/-- The questions that were asked between two states are about chunks, one for each. -/
def AskedAbout (cs : List Chunk) (w v : Workspace) : Prop :=
  ∃ qs, v.questions = w.questions ++ qs ∧ Forall₂ AsksAbout cs qs

lemma askedAbout_nil (w) : AskedAbout [] w w := ⟨[], (append_nil _).symm, .nil⟩

/-- A chunk is put to the model, whatever that answers. -/
lemma analyseChunk_apply (w) :
    ∃ found v q, analyseChunk c w = (.ok found, v) ∧ v.questions = w.questions ++ [q] ∧ AsksAbout c q := by
  obtain ⟨prompt, hprompt⟩ := Prompt.Template.exists_fill (chunkValues c) (t := Prompt.chunk) (by rfl)
  have hrender := Prompt.render_of_fill (by rfl : get? Prompt.catalog "intent_analysis_chunked" = _) hprompt w
  obtain ⟨v, hask, -, hquestions⟩ := Chat.attempt_ask (chunkQuestion prompt) w
  unfold chunkValues at hrender
  unfold chunkQuestion at hask
  unfold analyseChunk
  rw [bind_of_ok hrender, bind_of_ok hask]
  cases Chat.nextAnswer w <;> exact ⟨_, v, _, rfl, hquestions, prompt, hprompt, rfl⟩

/-- All chunks are, one after the other. -/
lemma mapM_analyseChunk (cs) (w) : ∃ found v, cs.mapM analyseChunk w = (.ok found, v) ∧ AskedAbout cs w v := by
  induction cs generalizing w with
  | nil => exact ⟨[], w, rfl, askedAbout_nil w⟩
  | cons c cs ih =>
    obtain ⟨found, u, q, hc, hu, hq⟩ := analyseChunk_apply c w
    obtain ⟨more, v, hcs, qs, hv, hqs⟩ := ih u
    refine ⟨found :: more, v, ?_, q :: qs, by rw [hv, hu]; simp, .cons hq hqs⟩
    rw [mapM_cons, bind_of_ok hc, bind_of_ok hcs]
    rfl

/-- With time enough all chunks are put to the model and none is given up. -/
lemma analyseChunks_of_enough (h : cs = [] ∨ 60.0 < x * 0.25) (w) :
    ∃ found v, analyseChunks (standardTime x) 0.0 cs w = (.ok (found, 0), v) ∧ AskedAbout cs w v := by
  unfold analyseChunks
  split
  · rename_i hnone
    rw [isEmpty_iff.1 hnone]
    exact ⟨[], w, rfl, askedAbout_nil w⟩
  · rename_i hsome
    have hlong := h.resolve_left (by simpa using hsome)
    obtain ⟨found, v, hrun, hasked⟩ := mapM_analyseChunk cs w
    rw [(enough_standardTime_iff x).2 hlong, if_neg (by decide), if_neg (not_budget_le x), bind_of_ok hrun]
    exact ⟨_, v, rfl, hasked⟩

/-- Without it all are given up. -/
lemma analyseChunks_of_not_enough (hshort : ¬ 60.0 < x * 0.25) (hcs : cs ≠ []) (w) :
    ∃ found v, analyseChunks (standardTime x) 0.0 cs w = (.ok (found, cs.length), v) ∧ AskedAbout [] w v := by
  have hnot : (standardTime x).enough 0.0 = false := by rwa [← Bool.not_eq_true, enough_standardTime_iff]
  unfold analyseChunks
  rw [if_neg (by simpa using hcs), hnot]
  exact ⟨[], w, rfl, askedAbout_nil w⟩

/-! ## A run -/

/-- An environment that says nothing about chunks. -/
def Standard (w : Workspace) : Prop :=
  ∀ name : String, "INTENT_CHUNK_".toList <+: name.toList → get? w.environment name = none

section

variable (h : Standard w) {name : String} (hname : "INTENT_CHUNK_".toList <+: name.toList)
include h hname

lemma Standard.whole (n) : Environment.whole name n w = (.ok n, w) := by
  change (ok ((readInt? (strip ((get? w.environment name).getD ""))).getD n), w) = _
  rw [h name hname]
  rfl

lemma Standard.real (x) : Environment.real name x w = (.ok x, w) := by
  change (ok ((readReal? (strip ((get? w.environment name).getD ""))).getD x), w) = _
  rw [h name hname]
  rfl

end

lemma chunkLimits_apply (h : Standard w) : chunkLimits w = (.ok ⟨30000, 24000⟩, w) := by
  rw [chunkLimits, bind_of_ok (h.whole (by decide) _), bind_of_ok (h.whole (by decide) _)]
  rfl

lemma chunkTime_apply (h : Standard w) (x) : chunkTime x w = (.ok (standardTime x), w) := by
  rw [chunkTime, bind_of_ok (h.real (by decide) _), bind_of_ok (h.real (by decide) _),
    bind_of_ok (h.real (by decide) _)]
  rfl

lemma chunkQuota_apply (h : Standard w) : chunkQuota w = (.ok {}, w) := by
  rw [chunkQuota, bind_of_ok (h.whole (by decide) _), bind_of_ok (h.whole (by decide) _),
    bind_of_ok (h.real (by decide) _), bind_of_ok (h.whole (by decide) _),
    bind_of_ok (h.whole (by decide) _)]
  rfl

/-- How many seconds a run may take. -/
def timeoutOf (s : State) : Int := (s.settings.map (·.review.timeout)).getD 600

/-- How many questions may be open at once. -/
def requestsOf (s : State) : Int := (s.settings.map (·.review.maxRequests)).getD 5

lemma openQuestions_apply (h : 1 ≤ requestsOf s) (w) : openQuestions s w = (.ok (requestsOf s), w) := by
  have hnot : ¬ (s.settings.map (·.review.maxRequests)).getD 5 < 0 := Int.not_lt.2 (Int.le_trans (by decide) h)
  unfold openQuestions
  rw [if_neg hnot]
  rfl

lemma say_apply (t : String) (w) : say t w = (.ok (), { w with printed := w.printed ++ t ++ "\n" }) := rfl

lemma tag_apply (s : State) (w) : s.tag w = (.ok (Duration.tag s.facts w.monotonic), w) := rfl

lemma liftM_apply {α : Type} (a w) : (liftM a : Action α) w = (a, w) := by cases a <;> rfl

lemma sayTitle_apply (title w) : sayTitle title w =
    (.ok (), { w with printed := w.printed ++ ("\n" ++ rule) ++ "\n" ++ title ++ "\n" ++ rule ++ "\n" }) := by
  rw [sayTitle, bind_of_ok (say_apply _ w), bind_of_ok (say_apply _ _), say_apply]

/-- What comes around the questions is only told and noted. -/
lemma lookAtChunks_apply (hrequests : 1 ≤ requestsOf s) (helapsed : Duration.elapsed s.facts w.monotonic = 0.0)
    {t : ChunkTime} {given : Nat} {asked : List Chunk} (facts : Json.Object)
    (h : ∀ w, ∃ found v, analyseChunks t 0.0 cs w = (.ok (found, given), v) ∧ AskedAbout asked w v) :
    ∃ found v, lookAtChunks s t facts cs w = (.ok [("file_analyses", found), ("metadata", .object (if given = 0 then
        facts else insert facts "intent_chunk_cancelled_tasks" given))], v) ∧ AskedAbout asked w v := by
  unfold lookAtChunks
  rw [bind_of_ok (openQuestions_apply hrequests w), bind_of_ok (say_apply _ w), bind_of_ok (get_apply _), helapsed]
  obtain ⟨found, v, hv, hasked⟩ := h { w with printed := w.printed ++ _ ++ "\n" }
  rw [bind_of_ok hv]
  dsimp only
  exact ⟨_, _, rfl, hasked⟩

section

variable {es : List Chunk.Entry} {sel : Chunk.Selection}

/-- A time that is too large for a real number ends a run. -/
lemma findIntentsInChunks_of_error {e : Fault} (hmodel : s.hasModel)
    (hreal : (int (timeoutOf s)).toReal = .error e) (w) :
    ∃ v, findIntentsInChunks s w = (.error e, v) := by
  unfold timeoutOf at hreal
  unfold findIntentsInChunks
  rw [bind_of_ok (tag_apply s w), bind_of_ok (sayTitle_apply _ w), hmodel, if_neg (by decide), hreal, bind_apply]
  exact ⟨_, rfl⟩

/-- What comes before the questions is only told. -/
lemma findIntentsInChunks_apply (hmodel : s.hasModel) (hchanged : s.changed ≠ []) (hstandard : Standard w)
    (hentries : entries s.diff s.changed = .ok es)
    (hselect : select {} (pack ⟨30000, 24000⟩ es) = .ok sel)
    (hreal : (int (timeoutOf s)).toReal = .ok x) :
    ∃ p, findIntentsInChunks s w = lookAtChunks s (standardTime x) (merge s.facts
      (chunkFacts ⟨30000, 24000⟩ (pack ⟨30000, 24000⟩ es).length sel)) sel.selected { w with printed := p } := by
  have hstandard' (p : String) : Standard { w with printed := p } := hstandard
  unfold timeoutOf at hreal
  unfold findIntentsInChunks
  rw [bind_of_ok (tag_apply s w), bind_of_ok (sayTitle_apply _ w), hmodel, if_neg (by decide), hreal,
    bind_of_ok (liftM_apply _ _), if_neg (by simpa using hchanged), bind_of_ok (chunkLimits_apply (hstandard' _)),
    bind_of_ok (chunkTime_apply (hstandard' _) x), hentries, bind_of_ok (liftM_apply _ _),
    bind_of_ok (chunkQuota_apply (hstandard' _)), hselect, bind_of_ok (liftM_apply _ _)]
  split
  · exact ⟨_, rfl⟩
  · exact ⟨_, rfl⟩

/-- A run does its work: each selected chunk is put to the model, and none is noted as given up. -/
def Works (s : State) (w : Workspace) (es : List Chunk.Entry) (sel : Chunk.Selection) : Prop :=
  ∃ found v, findIntentsInChunks s w = (.ok [("file_analyses", found), ("metadata", .object (merge s.facts
    (chunkFacts ⟨30000, 24000⟩ (pack ⟨30000, 24000⟩ es).length sel)))], v) ∧ AskedAbout sel.selected w v

/-- No chunk is put to the model when a quarter of the time is not above a minute. -/
lemma not_works (hrequests : 1 ≤ requestsOf s) (helapsed : Duration.elapsed s.facts w.monotonic = 0.0)
    (hshort : ¬ 60.0 < x * 0.25) (hsome : sel.selected ≠ []) {facts p}
    (hrun : findIntentsInChunks s w = lookAtChunks s (standardTime x) facts sel.selected { w with printed := p }) :
    ¬ Works s w es sel := by
  rintro ⟨found, v, hworks, qs, hqs, hasked⟩
  obtain ⟨_, u, hlook, rs, hrs, hnone⟩ := lookAtChunks_apply (w := { w with printed := p }) hrequests helapsed facts
    (analyseChunks_of_not_enough hshort hsome)
  rw [hrun, hlook] at hworks
  obtain ⟨-, rfl⟩ := Prod.mk.inj hworks
  cases hnone
  rw [append_cancel_left (hqs.symm.trans hrs)] at hasked
  exact hsome (forall₂_nil_right_iff.1 hasked)

/-- A fresh run does its work just when a real number holds the seconds that it may take and, if there is a chunk to
look at, a quarter of them is more than a minute. -/
theorem fresh_run_works_iff (hmodel : s.hasModel = true) (hchanged : s.changed ≠ []) (hrequests : 1 ≤ requestsOf s)
    (hstandard : Standard w) (helapsed : Duration.elapsed s.facts w.monotonic = 0.0)
    (hentries : entries s.diff s.changed = .ok es)
    (hselect : select {} (pack ⟨30000, 24000⟩ es) = .ok sel) :
    Works s w es sel ↔ ∃ x, (int (timeoutOf s)).toReal = .ok x ∧ (sel.selected = [] ∨ 60.0 < x * 0.25) := by
  cases hreal : (int (timeoutOf s)).toReal with
  | error e =>
    refine iff_of_false ?_ (by simp)
    rintro ⟨found, v, hrun, -⟩
    obtain ⟨u, herror⟩ := findIntentsInChunks_of_error hmodel hreal w
    rw [herror] at hrun
    cases hrun
  | ok x =>
    obtain ⟨p, hrun⟩ := findIntentsInChunks_apply hmodel hchanged hstandard hentries hselect hreal
    constructor
    · intro hworks
      refine ⟨x, rfl, ?_⟩
      by_contra hnot
      obtain ⟨hsome, hshort⟩ := not_or.mp hnot
      exact not_works hrequests helapsed hshort hsome hrun hworks
    · rintro ⟨y, hy, henough⟩
      obtain rfl := ok.inj hy
      rw [Works, hrun]
      exact lookAtChunks_apply (w := { w with printed := p }) hrequests helapsed _ (analyseChunks_of_enough henough)

end

/-- The state of a run over one file that may take so many seconds. -/
def oneFile (timeout : Int) : State where
  fields := [("changed_files", .list ["a"])]
  settings := some ⟨{}, { root := Path.ofString ".", timeout }⟩

def oneEntry : Chunk.Entry := Chunk.Entry.ofFile "" [] "a"

lemma standard_empty : Standard {} := fun _ _ => rfl

/-- A single file makes one chunk, which is selected. -/
lemma exists_select_singleton (l e) : ∃ c, select {} (pack l [e]) = .ok ⟨[c], []⟩ := by
  have hload : (loads l [] [e]).length = 1 := by
    simp only [loads, isEmpty_nil, if_true]
    split <;> rfl
  obtain ⟨load, hload⟩ := length_eq_one_iff.1 hload
  have hpack : pack l [e] = [ofLoad e.group 1 load] := by simp [pack, grouped, addToGroup, packGroup, hload]
  rw [hpack, select, if_neg (by simp), mergeSort_singleton]
  exact ⟨_, rfl⟩

lemma toReal_int_of_finite {n} (h : (ofWhole n).isInf = false) : (int n).toReal = .ok (ofWhole n) := by
  change (if (ofWhole n).isInf then _ else ok (ofWhole n)) = _
  rw [h, if_neg Bool.false_ne_true]

/-- With ten minutes the chunk of the file is put to the model. -/
theorem fresh_run_works_ten_minutes : Standard {} ∧ ∃ c, Works (oneFile 600) {} [oneEntry] ⟨[c], []⟩ := by
  obtain ⟨c, hselect⟩ := exists_select_singleton ⟨30000, 24000⟩ oneEntry
  refine ⟨standard_empty, c, ?_⟩
  exact (fresh_run_works_iff rfl (by decide) (by decide) standard_empty rfl rfl hselect).mpr
    ⟨_, toReal_int_of_finite (by decide +kernel), .inr (by decide +kernel)⟩

/-- With four it is given up. -/
theorem four_minutes_are_too_short : 1 ≤ timeoutOf (oneFile 240) ∧ Standard {} ∧
    Duration.elapsed (oneFile 240).facts ({} : Workspace).monotonic = 0.0 ∧
    entries (oneFile 240).diff (oneFile 240).changed = .ok [oneEntry] ∧
    ∃ c, select {} (pack ⟨30000, 24000⟩ [oneEntry]) = .ok ⟨[c], []⟩ ∧
      ¬ Works (oneFile 240) {} [oneEntry] ⟨[c], []⟩ := by
  obtain ⟨c, hselect⟩ := exists_select_singleton ⟨30000, 24000⟩ oneEntry
  have hentries : entries (oneFile 240).diff (oneFile 240).changed = .ok [oneEntry] := rfl
  obtain ⟨p, hrun⟩ := findIntentsInChunks_apply (w := {}) rfl (by decide) standard_empty hentries hselect
    (toReal_int_of_finite (by decide +kernel))
  exact ⟨by decide, standard_empty, rfl, rfl, c, hselect, not_works (by decide) rfl (by decide +kernel) (by simp) hrun⟩

end PatchReview.Review
