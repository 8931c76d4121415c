import PatchReview.Chat.Ask
import PatchReview.Proofs.Action
import PatchReview.Proofs.Fields
import PatchReview.Prompt

/-!
# Asking the model

A prompt can be rendered when there is a value for each of its slots. The model answers with the next of its replies, or
fails as that one says.
-/

namespace PatchReview

open Fields List Text

namespace Prompt

/-- A template can be filled that has a value for each slot. -/
lemma Template.exists_fill (values) {t : Template}
    (h : t.all fun p => match p with | .text _ => true | .slot name => (get? values name).isSome) :
    ∃ s, t.fill values = .ok s := by
  induction t with
  | nil => exact ⟨"", rfl⟩
  | cons p rest ih =>
    rw [all_cons, Bool.and_eq_true] at h
    obtain ⟨s, hs⟩ := ih h.2
    cases p with
    | text s' => exact ⟨s' ++ s, by rw [Template.fill, hs]; rfl⟩
    | slot name =>
      obtain ⟨v, hv⟩ := Option.isSome_iff_exists.1 h.1
      exact ⟨v ++ s, by rw [Template.fill, hv, hs]; rfl⟩

lemma render_of_fill {name s values t} (hget : get? catalog name = some t) (hfill : t.fill values = .ok s) (w) :
    render name values w = (.ok s, w) := by
  rw [render, hget]
  exact (Action.ofExcept_apply ..).trans (by rw [hfill])

lemma get?_catalog (k) : get? catalog ("expert_" ++ strip k.name) = some (ofKind k) := by cases k <;> rfl

end Prompt

namespace Chat

open Action Message

variable {w : Workspace}

/-- What the model says when it is asked next. -/
def nextMessage (w : Workspace) : Message :=
  match w.replies with
  | .message content calls :: _ => { speaker := .ai, content, toolCalls := .list calls }
  | _ => ai ""

/-- What the model says when it is asked next, or why it fails. -/
def nextAnswer (w : Workspace) : Result Message :=
  match w.replies with
  | .failure kind reason :: _ => .error (failure kind reason)
  | _ => .ok (nextMessage w)

lemma ask_answer (q w) : ∃ v, ask q.messages q.settings w = (nextAnswer w, v) ∧
    v.replies = w.replies.tail ∧ v.questions = w.questions ++ [q] := by
  let u : Workspace := { w with questions := w.questions ++ [q] }
  have hquestion : (modify fun w => { w with questions := w.questions ++ [q] } : Action Unit) w = (.ok (), u) := rfl
  unfold ask nextAnswer nextMessage
  rw [bind_of_ok hquestion, bind_of_ok (get_apply u)]
  cases hr : w.replies with
  | nil => exact ⟨u, rfl, hr, rfl⟩
  | cons r rest => cases r <;> exact ⟨{ u with replies := rest }, rfl, rfl, rfl⟩

lemma isError_of_nextAnswer {e} (h : nextAnswer w = .error e) : e.isError := by
  unfold nextAnswer at h
  split at h <;> cases h
  unfold Chat.failure
  split
  · rfl
  · split <;> rfl

lemma attempt_ask (q w) :
    ∃ v, attempt (ask q.messages q.settings) w = (.ok (nextAnswer w), v) ∧ v.replies = w.replies.tail ∧
      v.questions = w.questions ++ [q] := by
  obtain ⟨v, hask, hv⟩ := ask_answer q w
  refine ⟨v, ?_, hv⟩
  rw [attempt_apply, hask]
  cases hnext : nextAnswer w with
  | ok m => rfl
  | error e => exact congrArg (·, v) (if_pos (isError_of_nextAnswer hnext))

end Chat

end PatchReview
