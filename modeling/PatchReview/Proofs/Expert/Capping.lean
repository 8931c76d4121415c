import PatchReview.Proofs.Expert.Ending
import PatchReview.Proofs.RealOrder

/-!
# What a stopped expert is sure of

The judgement of a stopped expert calls no tools, and its confidence is within the bound, whatever the model says, but
for one thing: that its confidence is not a number. The lesser of that and the bound is not a number either.
-/

namespace PatchReview.Expert

open Chat Fields Number PatchReview.Action

variable {e : Expert} {st : Stop} {r : Risk} {ms : List Message} {w v : Workspace} {m : Message} {bound : Float}

/-- The confidence in an answer, when there is one in its object. -/
def confidenceIn (answer : Result Message) : Option Float :=
  match answer.bind fun m => answerText m.content >>= fieldsIn with
  | .ok (some fs) => (get? fs "confidence").bind (·.toReal.toOption)
  | _ => none

/-- A message that calls no tools, and is the text of an object with a confidence. -/
def Judges (m : Message) (x : Float) : Prop :=
  m.toolCalls = .list [] ∧ ∃ fs, m.content = .text ((Json.object fs).render Json.wide) ∧ get? fs "confidence" = some x

/-- The confidence that is bounded is within the bound unless it is not a number. -/
lemma boundedConfidence_le_iff (hbound : bound.isNaN = false) (c) :
    boundedConfidence bound c ≤ bound ↔ (c.bind (·.toReal.toOption)).all (!·.isNaN) := by
  have hzero : (0.0 : Float).isNaN = false := by decide +kernel
  have hle (x) : lesser x bound ≤ bound ↔ x.isNaN = false := by
    refine ⟨fun hle => ?_, fun hx => lesser_le hbound hx⟩
    by_contra hx
    have hnot : ¬ bound < x := fun hlt => hx (not_isNaN_of_lt hlt).2
    rw [lesser, if_neg hnot] at hle
    exact hx (not_isNaN_of_le hle).1
  cases c with
  | none => simpa [boundedConfidence] using (hle 0.0).2 hzero
  | some c =>
    rw [boundedConfidence, hle, Option.bind_some]
    cases c.toReal.toOption with
    | none => simpa using hzero
    | some x => simp

/-- What is judged by an answer. -/
lemma judges_of_judgement {answer} (hbound : 0.0 ≤ bound) (h : st.judgement bound r answer = .ok m) :
    ∃ x, Judges m x ∧ (x ≤ bound ↔ (confidenceIn answer).all (!·.isNaN)) := by
  have hnumber := (not_isNaN_of_le hbound).2
  cases answer with
  | error err =>
    cases h
    exact ⟨0.0, ⟨rfl, _, rfl, rfl⟩, iff_of_true hbound rfl⟩
  | ok said =>
    obtain ⟨text, htext, h⟩ := except_bind_eq_ok_iff.1 h
    obtain ⟨found, hfound, h⟩ := except_bind_eq_ok_iff.1 h
    obtain ⟨fields, hfields, hmap⟩ := except_bind_eq_ok_iff.1 hfound
    cases h
    cases hmap
    have hin : confidenceIn (.ok said) = match fields with
        | some fs => (get? fs "confidence").bind (·.toReal.toOption)
        | none => none := by
      have hread : (answerText said.content >>= fieldsIn) = .ok fields := by rw [htext, ok_bind, hfields]
      unfold confidenceIn
      rw [Except.bind, hread]
      cases fields <;> rfl
    rw [hin]
    cases fields with
    | none => exact ⟨bound, ⟨rfl, _, rfl, rfl⟩, iff_of_true ((le_iff_order hnumber hnumber).2 le_rfl) rfl⟩
    | some fs => exact ⟨_, ⟨rfl, _, rfl, get?_insert ..⟩, boundedConfidence_le_iff hnumber _⟩

/-- Whatever the model says or why it fails, the message of a stopped expert calls no tools and is the text of an
object. Its confidence is within a bound that is set, unless the model says that it is not a number. -/
theorem stopped_within_bound_iff (hbound : 0.0 ≤ e.stopConfidence) (hhalt : e.halt st r ms w = (.ok m, v)) :
    ∃ x, Judges m x ∧ (x ≤ e.stopConfidence ↔ (confidenceIn (nextAnswer w)).all (!·.isNaN)) := by
  obtain ⟨v', hjudged, -⟩ := halt_apply e st r ms w
  exact judges_of_judgement hbound (Prod.mk.inj (hjudged.symm.trans hhalt)).1

/-- A risk to judge. -/
def doubt : Risk := ⟨.robustness, "x.py", (1, 1), "", 0.5, "warning", none⟩

theorem stopped_within_bound_iff_failing : ∃ m v x,
    ({} : Expert).halt .toolsOff doubt [] { replies := [.failure "RuntimeError" ""] } = (.ok m, v) ∧ Judges m x ∧
      x ≤ 0.55 := by
  obtain ⟨v, hhalt, -⟩ := halt_apply {} .toolsOff doubt [] { replies := [.failure "RuntimeError" ""] }
  obtain ⟨x, hjudges, hiff⟩ := stopped_within_bound_iff (by decide +kernel) hhalt
  exact ⟨_, v, x, hhalt, hjudges, hiff.mpr rfl⟩

/-- A model that is not sure of a number. -/
def unsure : Workspace := { replies := [.message "\x7b\"confidence\": NaN\x7d" []] }

theorem unsure_beyond_bound : ∃ m v x, ({} : Expert).halt .toolsOff doubt [] unsure = (.ok m, v) ∧ Judges m x ∧
    ¬ x ≤ 0.55 := by
  obtain ⟨v, hhalt, -⟩ := halt_apply {} .toolsOff doubt [] unsure
  have hfound : Json.extractValue "\x7b\"confidence\": NaN\x7d" =
      .ok (some (.object [("confidence", .real (0.0 / 0.0))])) := by with_unfolding_all rfl
  have hanswer : nextAnswer unsure = .ok (nextMessage unsure) := rfl
  have hnot : (confidenceIn (nextAnswer unsure)).all (!·.isNaN) = false := by decide +kernel
  obtain ⟨text, htext⟩ := exists_judgement (m := nextMessage unsure) rfl hfound .toolsOff 0.55 doubt
  obtain ⟨x, hjudges, hiff⟩ := judges_of_judgement (by decide +kernel) htext
  refine ⟨_, v, x, hhalt.trans (congrArg (·, v) (by rw [hanswer]; exact htext)), hjudges, fun hle => ?_⟩
  rw [hanswer] at hnot
  exact absurd (hiff.mp hle) (by rw [hnot]; decide)

end PatchReview.Expert
