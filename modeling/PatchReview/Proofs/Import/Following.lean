import Mathlib.Data.Set.Card
import PatchReview.Import.Closure
import PatchReview.Proofs.Action
import PatchReview.Proofs.Index.Asking

/-!
# Following imports

From some files their imports are followed breadth first, and a file is marked when it is taken from the queue. The
queue never holds more than two depths, so that a file is first taken at its least depth. What is followed is therefore
all that can be indexed within the depth, unless the number of files cuts it off.
-/

namespace PatchReview.Import

open Action List Nat

variable (w : Workspace) (o : Repository.ScanOptions) (root : Path) (seeds : List Path)

/-- The files that can be indexed over at most so many imports from some files. -/
inductive Within : Nat → Path → Prop
  | seed {k : Nat} {p q : Path} : p ∈ seeds → eligible? w o p = .ok (some q) → Within k q
  | hop {k : Nat} {m p q : Path} {found : List Path} : Within k m → dependencies w root m = .ok found →
      p ∈ found → eligible? w o p = .ok (some q) → Within (k + 1) q

/-- No look-up fails on the way over at most so many imports. -/
def Unbroken (depth : Nat) : Prop :=
  (∀ p ∈ seeds, ∃ q?, eligible? w o p = .ok q?) ∧ ∀ k < depth, ∀ m, Within w o root seeds k m →
      ∃ found, dependencies w root m = .ok found ∧ ∀ p ∈ found, ∃ q?, eligible? w o p = .ok q?

variable {w o root seeds} {p q n : Path} {seen found files : List Path}
  {queue dead rest : List (Path × Nat)} {maxDepth d j k : Nat}

lemma Within.mono (h : Within w o root seeds j n) (hle : j ≤ k) : Within w o root seeds k n := by
  induction h generalizing k with
  | seed hp hq => exact .seed hp hq
  | hop _ hfound hp hq ih =>
    obtain ⟨k, rfl⟩ := Nat.exists_eq_add_of_lt hle
    exact .hop (ih (Nat.le_add_right _ _)) hfound hp hq

/-! ## The queue

`d` is the depth that is being worked off: the queue holds files of this depth and, behind them, of the next. -/

variable (w o root seeds) in
/-- What holds while imports are followed. -/
structure Following (maxDepth d : Nat) (seen : List Path) (queue : List (Path × Nat)) : Prop where
  nodup : seen.Nodup
  le : d ≤ maxDepth
  reached : ∀ q ∈ seen, Within w o root seeds d q
  depths : ∀ e ∈ queue, e.2 = d ∨ e.2 = d + 1 ∧ d < maxDepth
  sorted : queue.Pairwise (·.2 ≤ ·.2)
  sound : ∀ e ∈ queue, ∀ q, eligible? w o e.1 = .ok (some q) → Within w o root seeds e.2 q
  ready : Unbroken w o root seeds maxDepth → ∀ e ∈ queue, ∃ q?, eligible? w o e.1 = .ok q?
  near : ∀ n, Within w o root seeds d n → n ∈ seen ∨ ∃ e ∈ queue, e.2 = d ∧ eligible? w o e.1 = .ok (some n)
  closed : d < maxDepth → ∀ m ∈ seen, ∀ found, dependencies w root m = .ok found → ∀ p ∈ found, ∀ n,
    eligible? w o p = .ok (some n) → n ∈ seen ∨ ∃ e ∈ queue, eligible? w o e.1 = .ok (some n)

namespace Following

lemma start : Following w o root seeds maxDepth 0 [] (seeds.map (·, 0)) where
  nodup := nodup_nil
  le := zero_le _
  reached := nofun
  depths := by
    rintro _ he
    obtain ⟨p, _, rfl⟩ := mem_map.1 he
    exact .inl rfl
  sorted := pairwise_map.2 (pairwise_of_forall fun _ _ => le_refl 0)
  sound := by
    rintro _ he q hq
    obtain ⟨p, hp, rfl⟩ := mem_map.1 he
    exact .seed hp hq
  ready := by
    rintro hall _ he
    obtain ⟨p, hp, rfl⟩ := mem_map.1 he
    exact hall.1 p hp
  near := by
    rintro n (⟨hp, hq⟩ | _)
    exact .inr ⟨_, mem_map_of_mem hp, rfl, hq⟩
  closed := nofun

/-- An entry that leads to no new file may be left out. -/
lemma skip {e} (h : Following w o root seeds maxDepth d seen (e :: queue))
    (hold : ∀ q, eligible? w o e.1 = .ok (some q) → q ∈ seen) : Following w o root seeds maxDepth d seen queue where
  nodup := h.nodup
  le := h.le
  reached := h.reached
  depths := (forall_mem_cons.1 h.depths).2
  sorted := (pairwise_cons.1 h.sorted).2
  sound := (forall_mem_cons.1 h.sound).2
  ready := fun hall => (forall_mem_cons.1 (h.ready hall)).2
  near n hn := by
    obtain hseen | he := h.near n hn
    · exact .inl hseen
    · simp only [mem_cons, exists_eq_or_imp] at he
      exact he.imp_left fun hq => hold n hq.2
  closed hd m hm found hfound p hp n hn := by
    obtain hseen | he := h.closed hd m hm found hfound p hp n hn
    · exact .inl hseen
    · simp only [mem_cons, exists_eq_or_imp] at he
      exact he.imp_left (hold n)

/-- When a depth has been worked off, the queue holds the next one. -/
lemma advance (h : Following w o root seeds maxDepth d seen queue) (hd : d < maxDepth)
    (hnext : ∀ e ∈ queue, e.2 = d + 1) : Following w o root seeds maxDepth (d + 1) seen queue where
  nodup := h.nodup
  le := hd
  reached := fun q hq => (h.reached q hq).mono (le_succ d)
  depths := fun e he => .inl (hnext e he)
  sorted := h.sorted
  sound := h.sound
  ready := h.ready
  near := by
    have hseen : ∀ n, Within w o root seeds d n → n ∈ seen := by
      intro n hn
      obtain hseen | ⟨e, he, hed, _⟩ := h.near n hn
      · exact hseen
      · have := hnext e he
        omega
    rintro n (⟨hp, hq⟩ | ⟨hm, hfound, hp, hq⟩)
    · exact .inl (hseen n (.seed hp hq))
    · obtain hseen | ⟨e, he, hn⟩ := h.closed hd _ (hseen _ hm) _ hfound _ hp n hq
      · exact .inl hseen
      · exact .inr ⟨e, he, hnext e he, hn⟩
  closed := fun hd' => h.closed (lt_of_succ_lt hd')

/-- The depth may be taken to be that of the first entry. -/
lemma align (h : Following w o root seeds maxDepth d seen ((p, k) :: queue)) :
    Following w o root seeds maxDepth k seen ((p, k) :: queue) := by
  obtain rfl | ⟨rfl, hd⟩ := h.depths _ mem_cons_self
  · exact h
  · refine h.advance hd fun e he => ?_
    obtain rfl | he' := mem_cons.1 he
    · rfl
    · have := (pairwise_cons.1 h.sorted).1 e he'
      obtain hed | ⟨hed, _⟩ := h.depths e he
      · omega
      · exact hed

/-- Taking up a new file of the depth, with what it imports behind the queue. -/
lemma grow (h : Following w o root seeds maxDepth d seen queue) (hq : Within w o root seeds d q) (hnew : q ∉ seen)
    (hfound : (if maxDepth ≤ d then .ok [] else dependencies w root q) = .ok found) :
    Following w o root seeds maxDepth d (seen ++ [q]) (queue ++ found.map (·, d + 1)) := by
  have hdeep : ∀ f ∈ found, d < maxDepth ∧ dependencies w root q = .ok found := by
    intro f hf
    split at hfound
    · cases hfound
      cases hf
    · exact ⟨Nat.lt_of_not_le ‹_›, hfound⟩
  have hmem {P : Path × Nat → Prop} (hold : ∀ e ∈ queue, P e) (hadd : ∀ f ∈ found, P (f, d + 1)) :
      ∀ e ∈ queue ++ found.map (·, d + 1), P e :=
    forall_mem_append.2 ⟨hold, forall_mem_map.2 hadd⟩
  exact
    { nodup := List.nodup_append.2 ⟨h.nodup, nodup_singleton q, by grind⟩
      le := h.le
      reached := forall_mem_append.2 ⟨h.reached, forall_mem_singleton.2 hq⟩
      depths := hmem h.depths fun f hf => .inr ⟨rfl, (hdeep f hf).1⟩
      sorted := by
        refine pairwise_append.2 ⟨h.sorted, pairwise_map.2 (pairwise_of_forall fun _ _ => le_refl _),
          fun e he => forall_mem_map.2 fun f _ => ?_⟩
        obtain hed | ⟨hed, _⟩ := h.depths e he <;> dsimp only <;> omega
      sound := hmem h.sound fun f hf n hn => .hop hq (hdeep f hf).2 hf hn
      ready := by
        refine fun hall => hmem (h.ready hall) fun f hf => ?_
        obtain ⟨ds, hds, hready⟩ := hall.2 d (hdeep f hf).1 q hq
        cases hds.symm.trans (hdeep f hf).2
        exact hready f hf
      near := fun n hn => (h.near n hn).imp (mem_append_left _) fun ⟨e, he, hen⟩ => ⟨e, mem_append_left _ he, hen⟩
      closed := by
        intro hd m hm ds hds f hf n hn
        obtain hm | hm := mem_append.1 hm
        · exact (h.closed hd m hm ds hds f hf n hn).imp (mem_append_left _)
            fun ⟨e, he, hen⟩ => ⟨e, mem_append_left _ he, hen⟩
        · rw [if_neg (not_le.2 hd), ← mem_singleton.1 hm, hds] at hfound
          cases hfound
          exact .inr ⟨(f, d + 1), mem_append_right _ (mem_map_of_mem hf), hn⟩ }

/-- The first entry has been dealt with once its file is taken up. -/
lemma take (h : Following w o root seeds maxDepth d seen ((p, d) :: queue)) (hq : eligible? w o p = .ok (some q))
    (hnew : q ∉ seen) (hfound : (if maxDepth ≤ d then .ok [] else dependencies w root q) = .ok found) :
    Following w o root seeds maxDepth d (seen ++ [q]) (queue ++ found.map (·, d + 1)) := by
  refine (h.grow (h.sound _ mem_cons_self q hq) hnew hfound).skip fun n hn => ?_
  cases hq.symm.trans hn
  exact mem_append_right _ (mem_singleton.2 rfl)

/-- When the queue has been worked off, all that is within the depth has been seen. -/
lemma mem_of_nil (h : Following w o root seeds maxDepth d seen []) (hn : Within w o root seeds maxDepth n) :
    n ∈ seen := by
  have hseen : ∀ n, Within w o root seeds d n → n ∈ seen := fun n hn => (h.near n hn).resolve_right nofun
  obtain hd | rfl := lt_or_eq_of_le h.le
  · -- below the depth the seen files are closed under imports, so the number of imports does not matter
    suffices ∀ k n, Within w o root seeds k n → n ∈ seen from this _ _ hn
    intro k n hn
    induction hn with
    | seed hp hq => exact hseen _ (.seed hp hq)
    | hop _ hfound hp hq ih => exact (h.closed hd _ ih _ hfound _ hp _ hq).resolve_right nofun
  · exact hseen n hn

/-- The first new file of the queue is at the depth that is being worked off. -/
lemma next {next?} (h : Following w o root seeds maxDepth d seen queue) (hnext : nextNew? w o seen queue = .ok next?) :
    (next? = none → Following w o root seeds maxDepth d seen []) ∧
      ∀ q k rest, next? = some (q, k, rest) → ∃ p, Following w o root seeds maxDepth k seen ((p, k) :: rest) ∧
        eligible? w o p = .ok (some q) ∧ q ∉ seen := by
  induction queue with
  | nil =>
    cases hnext
    exact ⟨fun _ => h, nofun⟩
  | cons e queue ih =>
    obtain ⟨p, k⟩ := e
    obtain ⟨_ | q, hq, hnext⟩ := except_bind_eq_ok_iff.1 hnext
    · exact ih (h.skip fun n hpn => nomatch hq.symm.trans hpn) hnext
    · dsimp only at hnext
      split at hnext
      · refine ih (h.skip fun n hpn => ?_) hnext
        cases hq.symm.trans hpn
        exact contains_iff_mem.1 ‹_›
      · cases hnext
        refine ⟨nofun, ?_⟩
        rintro _ _ _ ⟨⟩
        exact ⟨p, h.align, hq, mt contains_iff_mem.2 ‹_›⟩

end Following

/-! ## The run -/

lemma exists_nextNew? (hready : ∀ e ∈ queue, ∃ q?, eligible? w o e.1 = .ok q?) (seen) :
    ∃ next?, nextNew? w o seen queue = .ok next? := by
  induction queue with
  | nil => exact ⟨none, rfl⟩
  | cons e queue ih =>
    obtain ⟨⟨q?, hq⟩, hready⟩ := forall_mem_cons.1 hready
    obtain ⟨next?, hnext⟩ := ih hready
    rw [nextNew?, hq, ok_bind]
    cases q? with
    | none => exact ⟨next?, hnext⟩
    | some q =>
      dsimp only
      split
      · exact ⟨next?, hnext⟩
      · exact ⟨_, rfl⟩

/-- One turn: the first new file is taken up, with what it imports. -/
lemma follow_succ (w o root maxDepth fuel seen queue) :
    follow w o root maxDepth (fuel + 1) seen queue = nextNew? w o seen queue >>= fun next? =>
      next?.elim (.ok seen) fun (q, k, rest) => (if maxDepth ≤ k then .ok [] else dependencies w root q) >>= fun found =>
        follow w o root maxDepth fuel (seen ++ [q]) (rest ++ found.map (·, k + 1)) := by
  rw [follow]
  congr 1
  funext next?
  obtain _ | ⟨q, k, rest⟩ := next?
  · rfl
  · dsimp only [Option.elim]
    split <;> rfl

namespace Following

section

variable (h : Following w o root seeds maxDepth d seen queue)

include h

/-- The files that are followed are within the depth: as many as may be, or all. -/
lemma follow_eq_ok {fuel} (hfiles : follow w o root maxDepth fuel seen queue = .ok files) :
    files.Nodup ∧ (∀ q ∈ files, Within w o root seeds maxDepth q) ∧ files.length ≤ seen.length + fuel ∧
      (files.length < seen.length + fuel → ∀ n, Within w o root seeds maxDepth n → n ∈ files) := by
  induction fuel generalizing d seen queue with
  | zero =>
    cases hfiles
    exact ⟨h.nodup, fun q hq => (h.reached q hq).mono h.le, le_refl _, fun hlt => absurd hlt (lt_irrefl _)⟩
  | succ fuel ih =>
    rw [follow_succ] at hfiles
    obtain ⟨_ | ⟨q, k, rest⟩, hnext, hfiles⟩ := except_bind_eq_ok_iff.1 hfiles
    · cases hfiles
      have hnil := (h.next hnext).1 rfl
      exact ⟨h.nodup, fun q hq => (h.reached q hq).mono h.le, le_add_right _ _, fun _ n => hnil.mem_of_nil⟩
    · obtain ⟨p, h, hq, hnew⟩ := (h.next hnext).2 q k rest rfl
      obtain ⟨found, hfound, hfiles⟩ := except_bind_eq_ok_iff.1 hfiles
      have := ih (h.take hq hnew hfound) hfiles
      rwa [length_append, length_singleton, add_assoc, add_comm 1] at this

/-- Imports are followed to an end if no look-up fails on the way. -/
lemma exists_follow (hall : Unbroken w o root seeds maxDepth) (fuel) :
    ∃ files, follow w o root maxDepth fuel seen queue = .ok files := by
  induction fuel generalizing d seen queue with
  | zero => exact ⟨seen, rfl⟩
  | succ fuel ih =>
    obtain ⟨next?, hnext⟩ := exists_nextNew? (h.ready hall) seen
    rw [follow_succ, hnext, ok_bind]
    obtain _ | ⟨q, k, rest⟩ := next?
    · exact ⟨seen, rfl⟩
    · obtain ⟨p, h, hq, hnew⟩ := (h.next hnext).2 q k rest rfl
      have hfound : ∃ found, (if maxDepth ≤ k then .ok [] else dependencies w root q) = .ok found := by
        split
        · exact ⟨[], rfl⟩
        · obtain ⟨found, hfound, _⟩ := hall.2 k (Nat.lt_of_not_le ‹_›) q (h.sound _ mem_cons_self q hq)
          exact ⟨found, hfound⟩
      obtain ⟨found, hfound⟩ := hfound
      obtain ⟨files, hfiles⟩ := ih (h.take hq hnew hfound)
      exact ⟨files, except_bind_eq_ok_iff.2 ⟨found, hfound, hfiles⟩⟩

end

end Following

/-! ## The closure -/

variable {r : Reach}

section

variable (h : closure w o root r seeds = .ok files)

include h

lemma closure_eq_ok : ∃ found, follow w o root r.depth r.files [] (seeds.map (·, 0)) = .ok found ∧
      files = found.mergeSort fun a b => decide (a.toString ≤ b.toString) := by
  obtain ⟨found, hfound, hsort⟩ := except_bind_eq_ok_iff.1 h
  exact ⟨found, hfound, (Except.ok.inj hsort).symm⟩

lemma sorted_closure : files.Pairwise (·.toString ≤ ·.toString) := by
  obtain ⟨found, _, rfl⟩ := closure_eq_ok h
  exact (pairwise_mergeSort (Index.sortOn_trans Path.toString) (Index.sortOn_total _) found).imp of_decide_eq_true

/-- With room for all that is within the depth, the files are just those. -/
lemma mem_closure_iff (hroom : {q | Within w o root seeds r.depth q}.encard ≤ r.files) :
    q ∈ files ↔ Within w o root seeds r.depth q := by
  obtain ⟨found, hfound, rfl⟩ := closure_eq_ok h
  obtain ⟨hnodup, hwithin, hlength, hall⟩ := Following.start.follow_eq_ok hfound
  rw [mem_mergeSort]
  refine ⟨hwithin q, fun hq => ?_⟩
  rw [length_nil, zero_add] at hlength hall
  obtain hlt | heq := lt_or_eq_of_le hlength
  · exact hall hlt q hq
  · -- as many different ones as may be are all of them
    have hset : (found.toFinset : Set Path) = {q | Within w o root seeds r.depth q} := by
      refine found.toFinset.finite_toSet.eq_of_subset_of_encard_le (fun q hq => hwithin q (mem_toFinset.1 hq)) ?_
      rwa [Set.encard_coe_eq_coe_finsetCard, toFinset_card_of_nodup hnodup, heq]
    rw [← mem_toFinset, ← Finset.mem_coe, hset]
    exact hq

end

lemma exists_closure (hall : Unbroken w o root seeds r.depth) : ∃ files, closure w o root r seeds = .ok files := by
  obtain ⟨files, hfiles⟩ := Following.start.exists_follow hall r.files
  exact ⟨_, except_bind_eq_ok_iff.2 ⟨files, hfiles, rfl⟩⟩

/-- A file, and one that imports it. -/
def scripts : Workspace :=
  { files := ⟨[(["a.ts"], .file (.bytes []) 0), (["b.ts"], .file (.bytes (utf8 "import './a'")) 0)]⟩ }

def scriptA : Path := ⟨"/", ["a.ts"]⟩

def scriptB : Path := ⟨"/", ["b.ts"]⟩

def scriptSeeds : List Path := [scriptB, scriptB]

end PatchReview.Import
