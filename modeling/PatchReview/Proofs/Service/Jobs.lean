import Mathlib.Logic.Relation
import Mathlib.Data.List.Nodup
import PatchReview.Proofs.Action
import PatchReview.Service.Worker

/-!
# One job at a time

Whether a pull request gets a job is decided by its latest job alone. That is enough as long as no earlier job is
unfinished, which every delivery and every step of the work keeps so. A comment never gets a second job, and a
delivery that gets none leaves the jobs as they are.
-/

namespace PatchReview

open Action Cell List

namespace Job

/-- The pull request of a job. -/
def pull (j : Job) : String × Cell := (j.request.repository, j.request.number)

/-- The comment that asked for a job. -/
def asked (j : Job) : String × Cell := (j.request.repository, j.request.comment)

namespace Table

variable {j k : Job} {t t' : Table} {id : Cell} {f : Job → Job} {now cooldown : Int} {r : Request}

/-! ## Orderly tables -/

/-- Numbers grow and have been given, no comment has two jobs, and of the jobs of a pull request only the latest may be
unfinished. -/
structure Orderly (t : Table) : Prop where
  ids : (t.rows.map (·.id)).Pairwise (· < ·)
  given : ∀ j ∈ t.rows, j.id ≤ t.last
  comments : (t.rows.map asked).Nodup
  pulls : t.rows.Pairwise fun j k => j.pull = k.pull → j.status.unfinished = false

lemma orderly_empty : Orderly {} := ⟨.nil, by simp, .nil, .nil⟩

/-- The jobs of a pull request, in the order of their numbers. -/
def ofPull (t : Table) (p : String × Cell) : List Job :=
  t.rows.filter fun j => j.request.repository == p.1 && j.request.number == p.2

lemma mem_ofPull {p} : j ∈ t.ofPull p ↔ j ∈ t.rows ∧ j.pull = p := by simp [ofPull, pull, Prod.ext_iff]

section

variable (h : Orderly t)

include h

/-- An unfinished job is the latest of its pull request. -/
lemma Orderly.latest?_of_unfinished (hj : j ∈ t.rows) (hu : j.status.unfinished) :
    t.latest? j.pull.1 j.pull.2 = some j := by
  obtain ⟨before, after, hsplit⟩ := append_of_mem (mem_ofPull.2 ⟨hj, rfl⟩)
  have hsorted : (t.ofPull j.pull).Pairwise fun j k => j.pull = k.pull → j.status.unfinished = false := h.pulls.filter _
  cases after with
  | nil =>
    change (t.ofPull j.pull).getLast? = some j
    rw [hsplit, getLast?_concat]
  | cons k after =>
    -- A job after it would have to find it finished.
    have hk : k ∈ t.ofPull j.pull := by simp [hsplit]
    rw [hsplit, pairwise_append, pairwise_cons] at hsorted
    have hfinished := hsorted.2.1.1 k mem_cons_self (mem_ofPull.1 hk).2.symm
    exact absurd (hfinished.symm.trans hu) Bool.false_ne_true

lemma Orderly.id_le_latest (hj : t.latest? j.pull.1 j.pull.2 = some j) (hk : k ∈ t.rows)
    (hpull : k.pull = j.pull) : k.id ≤ j.id := by
  obtain ⟨before, hsplit⟩ := getLast?_eq_some_iff.1 hj
  have hsorted : ((t.ofPull j.pull).map (·.id)).Pairwise (· < ·) := h.ids.sublist (filter_sublist.map _)
  have hk : k ∈ t.ofPull j.pull := mem_ofPull.2 ⟨hk, hpull⟩
  change t.ofPull j.pull = before ++ [j] at hsplit
  rw [hsplit, map_append, pairwise_append] at hsorted
  rw [hsplit] at hk
  rcases mem_append.1 hk with hk | hk
  · exact Nat.le_of_lt (hsorted.2.2 k.id (mem_map_of_mem hk) j.id (by simp))
  · exact Nat.le_of_eq (congrArg (·.id) (mem_singleton.1 hk))

lemma Orderly.eq_of_id (hj : j ∈ t.rows) (hk : k ∈ t.rows) (hid : j.id = k.id) : j = k :=
  inj_on_of_nodup_map (h.ids.imp Nat.ne_of_lt) hj hk hid

/-- Every other job of the pull request of an unfinished job came before it and is finished. -/
lemma Orderly.others_finished (hj : j ∈ t.rows) (hu : j.status.unfinished) (hk : k ∈ t.rows)
    (hpull : k.pull = j.pull) : k = j ∨ k.id < j.id ∧ k.status.unfinished = false := by
  have hlatest := h.latest?_of_unfinished hj hu
  rcases Nat.lt_or_eq_of_le (h.id_le_latest hlatest hk hpull) with hlt | heq
  · refine .inr ⟨hlt, ?_⟩
    by_contra hku
    have hother := h.latest?_of_unfinished hk (by simpa using hku)
    rw [hpull, hlatest] at hother
    exact Nat.ne_of_gt hlt (congrArg (·.id) (Option.some.inj hother))
  · exact .inl (h.eq_of_id hk hj heq)

end

/-! ## Changing a job -/

/-- A change of one job that lets no finished job be unfinished again. -/
structure Forward (t : Table) (id : Cell) (f : Job → Job) : Prop where
  ids : ∀ j, (f j).id = j.id
  request : ∀ j, (f j).request = j.request
  unfinished : ∀ j ∈ t.rows, whole j.id = id → (f j).status.unfinished = true → j.status.unfinished = true

lemma map_update {β : Type} {g : Job → β} (hg : ∀ j, g (f j) = g j) : (t.update id f).rows.map g = t.rows.map g := by
  simp only [update, map_map]
  refine map_congr_left fun j _ => ?_
  rw [Function.comp_apply]
  split
  · exact hg j
  · rfl

lemma get?_update (hids : ∀ j, (f j).id = j.id) : (t.update id f).get? id = (t.get? id).map f := by
  simp only [get?, update, find?_map]
  have hsame : ((fun j => whole j.id == id) ∘ fun j => if whole j.id == id then f j else j) =
      fun j : Job => whole j.id == id := by
    funext j
    rw [Function.comp_apply]
    split
    · rw [hids]
    · rfl
  rw [hsame]
  cases hfind : t.rows.find? fun j => whole j.id == id with
  | none => rfl
  | some j => exact congrArg some (if_pos (find?_some hfind))

lemma Orderly.update (h : Orderly t) (hf : Forward t id f) : Orderly (t.update id f) where
  ids := by
    rw [map_update hf.ids]
    exact h.ids
  given := by
    intro j hj
    have hid := mem_map_of_mem (f := (·.id)) hj
    rw [map_update hf.ids] at hid
    obtain ⟨k, hk, hkj⟩ := mem_map.1 hid
    exact hkj ▸ h.given k hk
  comments := by
    rw [map_update (g := asked) fun j => by simp only [asked, hf.request]]
    exact h.comments
  pulls := by
    refine pairwise_map.2 (h.pulls.imp_of_mem fun {j k} hj _ hjk hpull => ?_)
    have hkept (j) : (if whole j.id == id then f j else j).pull = j.pull := by
      split
      · simp only [pull, hf.request]
      · rfl
    rw [hkept, hkept] at hpull
    split
    · rename_i hid
      by_contra hu
      have hu := hf.unfinished j hj (by simpa using hid) (by simpa using hu)
      exact Bool.false_ne_true ((hjk hpull).symm.trans hu)
    · exact hjk hpull

lemma Orderly.forward_of_get? (h : Orderly t) (hids : ∀ j, (f j).id = j.id) (hrequest : ∀ j, (f j).request = j.request)
    (hget : ∀ j, t.get? id = some j → j.status.unfinished) : Forward t id f where
  ids := hids
  request := hrequest
  unfinished := by
    intro j hj hid _
    cases hfind : t.get? id with
    | none => exact absurd (find?_eq_none.1 hfind j hj) (by simp [hid])
    | some k =>
      have hk : whole k.id = id := by simpa using find?_some hfind
      have heq := h.eq_of_id hj (mem_of_find?_eq_some hfind)
        (Int.ofNat.inj (whole.inj (hid.trans hk.symm)))
      exact heq ▸ hget k hfind

/-! ## Adding a job -/

/-- Adding a job either adds one with the next number to the end, or nothing. -/
lemma enqueue_cases (t : Table) (r now cooldown) :
    (t.isBlocked r.repository r.number now cooldown = false ∧ (∀ j ∈ t.rows, j.asked ≠ (r.repository, r.comment)) ∧
      t.enqueue r now cooldown = (some (t.last + 1),
        ⟨t.rows ++ [{ id := t.last + 1, request := r, created := now, updated := now }], t.last + 1⟩)) ∨
    t.enqueue r now cooldown = (none, t) := by
  unfold enqueue
  split
  · exact .inr rfl
  · rename_i hfree
    split
    · exact .inr rfl
    · rename_i hnew
      refine .inl ⟨by simpa using hfree, ?_, rfl⟩
      intro j hj hasked
      refine hnew (any_eq_true.2 ⟨j, hj, ?_⟩)
      simpa [asked] using hasked

lemma Orderly.enqueue (h : Orderly t) (hc : 0 < cooldown) (r) (now) : Orderly (t.enqueue r now cooldown).2 := by
  rcases t.enqueue_cases r now cooldown with ⟨hfree, hnew, heq⟩ | heq
  · rw [heq]
    constructor
    · rw [map_append, pairwise_append]
      refine ⟨h.ids, pairwise_singleton .., ?_⟩
      intro a ha b hb
      obtain ⟨j, hj, rfl⟩ := mem_map.1 ha
      obtain rfl : b = t.last + 1 := by simpa using hb
      exact Nat.lt_succ_of_le (h.given j hj)
    · exact forall_mem_append.2 ⟨fun j hj => Nat.le_succ_of_le (h.given j hj), forall_mem_singleton.2 (Nat.le_refl _)⟩
    · rw [map_append, List.nodup_append]
      refine ⟨h.comments, nodup_singleton _, ?_⟩
      intro a ha b hb
      obtain ⟨j, hj, rfl⟩ := mem_map.1 ha
      rw [mem_singleton.1 hb]
      exact hnew j hj
    · rw [pairwise_append]
      refine ⟨h.pulls, pairwise_singleton .., ?_⟩
      intro j hj k hk hpull
      -- An unfinished job would be the latest of the pull request, and keep the new one off.
      by_contra hu
      have hu : j.status.unfinished := by simpa using hu
      have hlatest := h.latest?_of_unfinished hj hu
      rw [hpull, mem_singleton.1 hk] at hlatest
      change t.latest? r.repository r.number = some j at hlatest
      simp [isBlocked, hc, hlatest, blocks, hu] at hfree
  · rw [heq]
    exact h

/-- Every job of a table is in another one, as far as its number and request go. -/
def Carried (t t' : Table) : Prop := ∀ j ∈ t.rows, ∃ k ∈ t'.rows, k.id = j.id ∧ k.request = j.request

lemma Carried.refl (t) : Carried t t := fun j hj => ⟨j, hj, rfl, rfl⟩

lemma Carried.trans {t''} (h : Carried t t') (h' : Carried t' t'') : Carried t t'' := by
  intro j hj
  obtain ⟨k, hk, hid, hrequest⟩ := h j hj
  obtain ⟨l, hl, hid', hrequest'⟩ := h' k hk
  exact ⟨l, hl, hid'.trans hid, hrequest'.trans hrequest⟩

lemma Forward.carried (hf : Forward t id f) : Carried t (t.update id f) := by
  intro j hj
  refine ⟨_, mem_map_of_mem hj, ?_⟩
  split
  · exact ⟨hf.ids j, hf.request j⟩
  · exact ⟨rfl, rfl⟩

lemma carried_enqueue (t) (r) (now cooldown) : Carried t (t.enqueue r now cooldown).2 := by
  rcases t.enqueue_cases r now cooldown with ⟨-, -, heq⟩ | heq
  · rw [heq]
    exact fun j hj => ⟨j, mem_append_left _ hj, rfl, rfl⟩
  · rw [heq]
    exact .refl t

end Table

end Job

namespace Service.Jobs

open Job (Table)

variable {w v : Workspace} {t : Table} {cooldown : Int}

section

variable (ht : w.jobs = some t)

include ht

lemma table_apply : table w = (.ok t, w) := by
  unfold table
  rw [bind_apply, get_apply]
  simp only [ht]
  rfl

lemma change_apply (f) : ∃ now time, change f w = (.ok (), { w with clock := time, jobs := some (f t now) }) := by
  refine ⟨(Number.truncate? w.clock).getD 0, w.clock + w.clockStep, ?_⟩
  unfold change
  change (table >>= _) { w with clock := w.clock + w.clockStep } = _
  rw [bind_apply, table_apply (t := t) (by exact ht)]
  rfl

/-- A delivery is dealt with by the table, or it gets no job and changes nothing. -/
lemma enqueue_apply (d cooldown) : (∃ r now, (enqueue d cooldown w).1 = .ok (t.enqueue r now cooldown).1 ∧
      (enqueue d cooldown w).2.jobs = some (t.enqueue r now cooldown).2) ∨
    (∀ id, (enqueue d cooldown w).1 ≠ .ok (some id)) ∧ (enqueue d cooldown w).2.jobs = some t := by
  have hseconds : seconds w = (.ok ((Number.truncate? w.clock).getD 0), { w with clock := w.clock + w.clockStep }) := rfl
  have htable : table { w with clock := w.clock + w.clockStep } = (.ok t, { w with clock := w.clock + w.clockStep }) :=
    table_apply ht
  unfold enqueue
  simp only [bind_apply, hseconds, htable, ofExcept_apply]
  cases d.pull? with
  | error e => exact .inr ⟨fun id => nofun, ht⟩
  | ok pull =>
    dsimp only
    split
    · exact .inr ⟨fun id => nofun, ht⟩
    · cases d.request? with
      | error e => exact .inr ⟨fun id => nofun, ht⟩
      | ok request =>
        cases request with
        | none => exact .inr ⟨fun id => nofun, ht⟩
        | some r => exact .inl ⟨r, _, rfl, rfl⟩

/-- A delivery adds one job and answers its number, or it gets no job and changes nothing. -/
lemma enqueue_adds (d : Job.Draft) (cooldown) : (∃ j, j.status = .queued ∧ (enqueue d cooldown w).1 = .ok (some j.id) ∧
      (enqueue d cooldown w).2.jobs = some ⟨t.rows ++ [j], j.id⟩) ∨
    (∀ id, (enqueue d cooldown w).1 ≠ .ok (some id)) ∧ (enqueue d cooldown w).2.jobs = some t := by
  rcases enqueue_apply ht d cooldown with ⟨r, now, hanswer, htable⟩ | hnone
  · rw [hanswer, htable]
    rcases t.enqueue_cases r now cooldown with ⟨-, -, heq⟩ | heq
    · rw [heq]
      exact .inl ⟨_, rfl, rfl, rfl⟩
    · rw [heq]
      exact .inr ⟨fun id => nofun, rfl⟩
  · exact .inr hnone

end

/-! ## Runs of the service -/

variable (cooldown : Int) in
/-- A step of the service on its jobs, at any time: a delivery, or a note on the work on a job. Only an unfinished job is
noted to be running. -/
inductive Step : Workspace → Workspace → Prop
  | deliver (w : Workspace) (time : Float) (d : Job.Draft) :
      Step w (enqueue d cooldown { w with clock := time }).2
  | start (w : Workspace) (time : Float) (id : Cell)
      (h : ∀ j, (get? id w).1 = .ok (some j) → j.status.unfinished = true) :
      Step w (markRunning id { w with clock := time }).2
  | describe (w : Workspace) (time : Float) (id : Cell) (head base : Option String) :
      Step w (markMeta id head base { w with clock := time }).2
  | finish (w : Workspace) (time : Float) (id : Cell) : Step w (markDone id { w with clock := time }).2
  | fail (w : Workspace) (time : Float) (id : Cell) (error : String) :
      Step w (markFailed id error { w with clock := time }).2

/-- Any number of steps. -/
abbrev Runs (cooldown : Int) : Workspace → Workspace → Prop := Relation.ReflTransGen (Step cooldown)

lemma keeps_change (hj : w.jobs = some t) (ht : t.Orderly) {id} {f : Int → Job → Job} (time)
    (hf : ∀ now, t.Forward id (f now)) :
    ∃ t', (change (fun t now => t.update id (f now)) { w with clock := time }).2.jobs = some t' ∧ t'.Orderly ∧
      t.Carried t' := by
  obtain ⟨now, time', heq⟩ := change_apply (w := { w with clock := time }) hj fun t now => t.update id (f now)
  exact ⟨_, congrArg (·.2.jobs) heq, ht.update (hf now), (hf now).carried⟩

lemma Step.keeps (hc : 0 < cooldown) (hj : w.jobs = some t) (ht : t.Orderly) (h : Step cooldown w v) :
    ∃ t', v.jobs = some t' ∧ t'.Orderly ∧ t.Carried t' := by
  cases h with
  | deliver time d =>
    rcases enqueue_apply (w := { w with clock := time }) hj d cooldown with ⟨r, now, -, heq⟩ | ⟨-, heq⟩
    · exact ⟨_, heq, ht.enqueue hc r now, t.carried_enqueue r now cooldown⟩
    · exact ⟨t, heq, ht, .refl t⟩
  | start time id h =>
    refine keeps_change hj ht time fun now => ht.forward_of_get? (fun _ => rfl) (fun _ => rfl) fun j hget => h j ?_
    unfold get?
    rw [bind_apply, table_apply hj]
    exact congrArg Except.ok hget
  | describe time id head base => exact keeps_change hj ht time fun now => ⟨fun _ => rfl, fun _ => rfl, fun _ _ _ h => h⟩
  | finish time id => exact keeps_change hj ht time fun now => ⟨fun _ => rfl, fun _ => rfl, fun _ _ _ h => nomatch h⟩
  | fail time id error => exact keeps_change hj ht time fun now => ⟨fun _ => rfl, fun _ => rfl, fun _ _ _ h => nomatch h⟩

lemma Runs.keeps (hc : 0 < cooldown) (hj : w.jobs = some t) (ht : t.Orderly) (h : Runs cooldown w v) :
    ∃ t', v.jobs = some t' ∧ t'.Orderly ∧ t.Carried t' := by
  induction h with
  | refl => exact ⟨t, hj, ht, .refl t⟩
  | tail _ hstep ih =>
    obtain ⟨t', hj', ht', hcarried⟩ := ih
    obtain ⟨t'', hj'', ht'', hmore⟩ := hstep.keeps hc hj' ht'
    exact ⟨t'', hj'', ht'', hcarried.trans hmore⟩

/-- What holds of the jobs of a workspace between two steps of the service. -/
structure NoDoubleWork (cooldown : Int) (w : Workspace) (t : Table) : Prop where
  kept : w.jobs = some t
  /-- No two jobs have one number. -/
  ids : (t.rows.map (·.id)).Nodup
  /-- Every other job of the pull request of an unfinished job has a smaller number and is finished. -/
  pulls : ∀ j ∈ t.rows, j.status.unfinished = true → ∀ k ∈ t.rows, k.pull = j.pull →
    k = j ∨ k.id < j.id ∧ k.status.unfinished = false
  /-- Now or later, a job for the comment of a job is that job. -/
  comments : ∀ w' t', Runs cooldown w w' → w'.jobs = some t' → ∀ j ∈ t.rows, ∀ k ∈ t'.rows, k.asked = j.asked →
    k.id = j.id
  /-- A delivery is answered with a number exactly when one job is added, which has this number. -/
  added : ∀ time d id, (enqueue d cooldown { w with clock := time }).1 = .ok (some id) ↔
    ∃ j : Job, j.id = id ∧ j.status = .queued ∧
      (enqueue d cooldown { w with clock := time }).2.jobs = some ⟨t.rows ++ [j], id⟩
  /-- Every other delivery leaves the jobs as they are. -/
  unchanged : ∀ time d, (∀ id, (enqueue d cooldown { w with clock := time }).1 ≠ .ok (some id)) →
    (enqueue d cooldown { w with clock := time }).2.jobs = w.jobs

/-- From no jobs on, whatever is delivered and noted and whenever, there is no double work. -/
theorem no_double_work {w₀ : Workspace} (hc : 0 < cooldown) (hstart : w₀.jobs = some {}) (hrun : Runs cooldown w₀ w) :
    ∃ t, NoDoubleWork cooldown w t := by
  obtain ⟨t, hj, ht, -⟩ := hrun.keeps hc hstart Job.Table.orderly_empty
  refine ⟨t, hj, ht.ids.imp Nat.ne_of_lt, fun j hmem hu k hk hpull => ht.others_finished hmem hu hk hpull, ?_, ?_, ?_⟩
  · intro w' t' hlater hj' j hmem k hk hasked
    obtain ⟨s, hs, hsorderly, hcarried⟩ := Runs.keeps hc hj ht hlater
    obtain rfl : s = t' := Option.some.inj (hs.symm.trans hj')
    obtain ⟨l, hl, hid, hrequest⟩ := hcarried j hmem
    have hsame : l.asked = k.asked := by rw [hasked, Job.asked, Job.asked, hrequest]
    rw [← hid, List.inj_on_of_nodup_map hsorderly.comments hl hk hsame]
  · intro time d id
    rcases enqueue_adds (w := { w with clock := time }) hj d cooldown with ⟨j, hqueued, hanswer, htable⟩ | ⟨hnone, htable⟩
    · rw [hanswer, htable]
      constructor
      · rintro ⟨⟩
        exact ⟨j, rfl, hqueued, rfl⟩
      · rintro ⟨k, rfl, -, heq⟩
        exact congrArg (fun t => Except.ok (some t.last)) (Option.some.inj heq)
    · refine ⟨fun h => absurd h (hnone id), ?_⟩
      rintro ⟨k, -, -, heq⟩
      have hrows := congrArg List.length (congrArg Table.rows (Option.some.inj (htable.symm.trans heq)))
      simp at hrows
  · intro time d hnone
    rcases enqueue_adds (w := { w with clock := time }) hj d cooldown with ⟨j, -, hanswer, -⟩ | ⟨-, htable⟩
    · exact absurd hanswer (hnone j.id)
    · exact htable.trans hj.symm

/-- A comment on a pull request. -/
def commentDraft (comment : Int) : Job.Draft := ⟨.text "o/r", .int 5, "u", comment, .text "x"⟩

/-- What a comment leaves behind. -/
def commented (comment : Int) (w : Workspace) : Workspace :=
  (enqueue (commentDraft comment) 60 { w with clock := 1000.0 }).2

/-- A second comment on a pull request whose job waits, then the same delivery again: there is one job. -/
theorem second_comment_waits : (0 : Int) < 60 ∧ ({ jobs := some {} } : Workspace).jobs = some {} ∧
      Runs 60 { jobs := some {} } (commented 2 (commented 2 (commented 1 { jobs := some {} }))) ∧
      ∃ t, NoDoubleWork 60 (commented 2 (commented 2 (commented 1 { jobs := some {} }))) t ∧
        t.rows.map (·.asked) = [("o/r", .whole 1)] := by
  have hrun : Runs 60 { jobs := some {} } (commented 2 (commented 2 (commented 1 { jobs := some {} }))) :=
    ((Relation.ReflTransGen.refl.tail (.deliver _ _ (commentDraft 1))).tail (.deliver _ _ (commentDraft 2))).tail
      (.deliver _ _ (commentDraft 2))
  obtain ⟨t, ht⟩ := no_double_work (by decide) rfl hrun
  refine ⟨by decide, rfl, hrun, t, ht, ?_⟩
  have hrows : (commented 2 (commented 2 (commented 1 { jobs := some {} }))).jobs.map
      (fun t => t.rows.map (·.asked)) = some [("o/r", .whole 1)] := by decide +kernel
  rw [ht.kept] at hrows
  exact Option.some.inj hrows

end Service.Jobs

end PatchReview
