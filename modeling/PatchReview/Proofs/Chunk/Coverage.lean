import PatchReview.Chunk.Pack
import PatchReview.Proofs.Action
import PatchReview.Proofs.Grouping
import PatchReview.Proofs.RealOrder

/-!
# Every file of a large change is covered

Packing puts each file into one chunk and gives every chunk a name of its own. Selecting parts the chunks into those
that are looked at and those that are skipped: all that hold a file with strong words are looked at, and without a
choice by chance none that is skipped ranks above another one that is looked at. The share of chunks must be one that
can be counted: a number of chunks beyond the largest real ends the selection with a fault.
-/

namespace PatchReview.Chunk

open Except List Number

variable {l : Limits} {q : Quota} {load : Load} {es files : List Entry} {c d : Chunk} {cs taken : List Chunk} {k : Int}

/-! ## Packing -/

lemma files_loads (l load es) : (loads l load es).flatMap (·.map (·.1)) = load.map (·.1) ++ es := by
  fun_induction loads l load es with
  | case1 load hempty => simp [List.isEmpty_iff.1 hempty]
  | case2 load hempty => simp
  | case3 load e rest text hempty hlong ih => simp [List.isEmpty_iff.1 hempty, ih]
  | case4 load e rest text hempty hlong ih => simp [List.isEmpty_iff.1 hempty, ih]
  | case5 load e rest text hempty hlong ih => simp [ih]
  | case6 load e rest text hempty hlong ih => simp [ih]

lemma perm_files_packGroup (l group es) : ((packGroup l group es).flatMap (·.files)).Perm es := by
  have hfiles := files_loads l [] (es.mergeSort Entry.precedes)
  rw [← zipIdx_map_fst 0 (loads ..), flatMap_map] at hfiles
  refine .trans (.of_eq ((flatMap_map ..).trans hfiles)) ?_
  exact mergeSort_perm ..

lemma ids_packGroup (l) (group : String) (es) : (packGroup l group es).map (·.id) =
      (List.range' 0 (loads l [] (es.mergeSort Entry.precedes)).length).map fun k => s!"{group}:{k + 1}" := by
  rw [packGroup, map_map, ← zipIdx_map_snd, map_map]
  rfl

lemma eq_of_append_cons_eq {x₁ x₂ z₁ z₂ : Chars} {a} (h₁ : a ∉ x₁) (h₂ : a ∉ x₂)
    (h : x₁ ++ a :: z₁ = x₂ ++ a :: z₂) : x₁ = x₂ ∧ z₁ = z₂ := by
  rcases append_eq_append_iff.1 h with ⟨y, rfl, hy⟩ | ⟨y, rfl, hy⟩ <;> cases y <;> simp_all

/-- The name of a chunk tells its group and its number, as a number is written without a colon. -/
lemma id_inj {g h : String} {m n : Nat} (heq : s!"{g}:{m}" = s!"{h}:{n}") : g = h ∧ m = n := by
  have hcolon : ∀ n : Nat, ':' ∉ (toString n).toList.reverse := by
    intro n hmem
    have hdigit : (':' : Char).isDigit :=
      Nat.isDigit_of_mem_toDigits (n := n) (b := 10) (by decide) (by decide) (by simpa using hmem)
    exact absurd hdigit (by decide)
  have hlist : ∀ (g : String) (m : Nat),
      (s!"{g}:{m}").toList.reverse = (toString m).toList.reverse ++ ':' :: g.toList.reverse := by
    intro g m
    change (g ++ ":" ++ toString m).toList.reverse = _
    simp
  have hparts := eq_of_append_cons_eq (hcolon m) (hcolon n) ((hlist g m).symm.trans (heq ▸ hlist h n))
  rw [reverse_inj, reverse_inj, String.toList_inj, String.toList_inj] at hparts
  refine ⟨hparts.2, ?_⟩
  simpa using congrArg (fun s : String => Nat.ofDigitChars 10 s.toList 0) hparts.1

lemma must_of_mem_pack (h : c ∈ pack l files) : c.must = c.files.any (·.strong) := by
  obtain ⟨⟨group, es⟩, -, h⟩ := mem_flatMap.1 h
  obtain ⟨⟨load, k⟩, -, rfl⟩ := mem_map.1 h
  rfl

lemma perm_files_pack (l files) : ((pack l files).flatMap (·.files)).Perm files := by
  have hgroups := groups_grouped Entry.group files
  unfold pack
  rw [flatMap_assoc]
  exact ((mergeSort_perm ..).flatMap fun g _ => perm_files_packGroup l g.1 g.2).trans hgroups.perm

lemma nodup_ids_pack (l) (files) : ((pack l files).map (·.id)).Nodup := by
  have hkeys : (((grouped Entry.group files).mergeSort fun a b => decide (a.1 ≤ b.1)).map (·.1)).Nodup :=
    ((mergeSort_perm ..).map _).nodup_iff.2 (groups_grouped Entry.group files).nodup
  unfold pack
  rw [map_flatMap, nodup_flatMap]
  constructor
  · intro g _
    rw [ids_packGroup]
    exact (nodup_range' ..).map fun m n h => Nat.succ.inj (id_inj h).2
  · refine (pairwise_map.1 hkeys).imp fun {a b} hne => ?_
    change List.Disjoint ((packGroup l a.1 a.2).map (·.id)) ((packGroup l b.1 b.2).map (·.id))
    rw [ids_packGroup, ids_packGroup]
    intro id ha hb
    obtain ⟨m, -, rfl⟩ := mem_map.1 ha
    obtain ⟨n, -, hid⟩ := mem_map.1 hb
    exact hne (id_inj hid).1.symm

/-! ## Selecting -/

/-- A chunk ranks above another one: it has the higher score, or the same and more changed lines. -/
def RanksAbove (c d : Chunk) : Prop := d.score < c.score ∨ (c.score == d.score) = true ∧ d.changed < c.changed

lemma takenBefore_iff : takenBefore c d ↔ order d.score < order c.score ∨ order c.score = order d.score ∧
      (d.changed < c.changed ∨ c.changed = d.changed ∧ c.id ≤ d.id) := by
  unfold takenBefore
  grind

lemma not_ranksAbove (h : takenBefore d c) : ¬ c.RanksAbove d := by
  rw [takenBefore_iff] at h
  rintro (hlt | ⟨heq, hlt⟩)
  · have := order_lt_of_lt hlt
    omega
  · have := order_eq_of_beq heq
    omega

lemma pairwise_takenBefore (cs : List Chunk) : (cs.mergeSort takenBefore).Pairwise (takenBefore · · = true) := by
  refine pairwise_mergeSort ?_ ?_ cs
  · intro a b c hab hbc
    rw [takenBefore_iff] at *
    grind
  · intro a b
    rw [Bool.or_eq_true, takenBefore_iff, takenBefore_iff]
    grind

lemma named_eq_false (h : ((taken ++ c :: cs).map (·.id)).Nodup) : named taken c = false := by
  rw [map_append, List.nodup_append] at h
  refine any_eq_false.2 fun d hd heq => ?_
  exact h.2.2 _ (mem_map_of_mem hd) _ (mem_map_of_mem mem_cons_self) (eq_of_beq heq)

lemma foldl_takeNew (h : ((taken ++ cs).map (·.id)).Nodup) : cs.foldl takeNew taken = taken ++ cs := by
  induction cs generalizing taken with
  | nil => simp
  | cons c cs ih =>
    rw [foldl_cons, takeNew, named_eq_false h, ih (by simpa using h)]
    simp

/-- Chunks with names of their own are taken from the front until there are enough. -/
lemma exists_foldl_takeNew (k) (h : ((taken ++ cs).map (·.id)).Nodup) : ∃ kept rest, cs = kept ++ rest ∧
      cs.foldl (fun taken c => if k ≤ (taken.length : Int) then taken else takeNew taken c) taken = taken ++ kept := by
  induction cs generalizing taken with
  | nil => exact ⟨[], [], by simp⟩
  | cons c cs ih =>
    rw [foldl_cons]
    split
    · rename_i hfull
      refine ⟨[], c :: cs, rfl, ?_⟩
      rw [append_nil]
      refine foldl_fixed' ?_ cs
      exact fun _ => if_pos hfull
    · rw [takeNew, named_eq_false h, if_neg Bool.false_ne_true]
      obtain ⟨kept, rest, rfl, heq⟩ := @ih (taken ++ [c]) (by simpa using h)
      exact ⟨c :: kept, rest, rfl, by rw [heq, append_assoc]; rfl⟩

/-- The chunks that are taken are those that must be and a first part of the others. -/
lemma exists_top (k) (hids : (cs.map (·.id)).Nodup) : ∃ rest, (top k cs ++ rest).Perm cs ∧
    (∀ d ∈ rest, d.must = false) ∧ ∀ c ∈ top k cs, c.must = false → ∀ d ∈ rest, takenBefore c d := by
  let sorted := (cs.filter (!·.must)).mergeSort takenBefore
  have hperm : (cs.filter (·.must) ++ sorted).Perm cs :=
    ((mergeSort_perm ..).append_left _).trans (filter_append_perm ..)
  have hnodup := (hperm.map (·.id)).nodup_iff.2 hids
  obtain ⟨kept, rest, hsorted, htop⟩ := exists_foldl_takeNew k hnodup
  replace htop : top k cs = cs.filter (·.must) ++ kept := by
    rw [← htop, top, foldl_takeNew]
    · rfl
    · exact (filter_sublist.map _).nodup hids
  have hordered : (kept ++ rest).Pairwise (takenBefore · · = true) := hsorted ▸ pairwise_takenBefore _
  refine ⟨rest, ?_, ?_, ?_⟩
  · rw [htop, append_assoc, ← hsorted]
    exact hperm
  · intro d hd
    have hmem : d ∈ sorted := hsorted ▸ mem_append_right _ hd
    simpa using (mem_filter.1 (mem_mergeSort.1 hmem)).2
  · intro c hc hmust d hd
    rcases mem_append.1 (htop ▸ hc) with hc | hc
    · exact absurd (mem_filter.1 hc).2 (by simp [hmust])
    · exact (pairwise_append.1 hordered).2.2 c hc d hd

/-- One more chunk leaves a part of the rest. -/
lemma exists_takeByChance (seed) (hids : (cs.map (·.id)).Nodup) {rest} (hperm : (taken ++ rest).Perm cs) :
    ∃ left, (takeByChance seed cs taken ++ left).Perm cs ∧ ∀ d ∈ left, d ∈ rest := by
  have hothers : (others cs taken).Perm rest := perm_filter_not_any hperm hids
  unfold takeByChance
  dsimp only
  split
  · rename_i c hc
    obtain ⟨before, after, heq⟩ := append_of_mem (mem_of_getElem? hc)
    have hrest : (c :: (before ++ after)).Perm rest := .trans (heq ▸ perm_middle.symm) hothers
    refine ⟨before ++ after, ?_, fun d hd => hrest.subset (mem_cons_of_mem c hd)⟩
    rw [append_assoc]
    exact (hrest.append_left _).trans hperm
  · exact ⟨rest, hperm, fun d hd => hd⟩

/-- Chunks are parted into those that are looked at and those that are skipped. -/
structure Parts (q : Quota) (cs : List Chunk) (s : Selection) : Prop where
  perm : (s.selected ++ s.skipped).Perm cs
  must : ∀ d ∈ s.skipped, d.must = false
  ranked : q.seed = none → ∀ c ∈ s.selected, c.must = false → ∀ d ∈ s.skipped, ¬ d.RanksAbove c

lemma parts_of_perm {rest} (hids : (cs.map (·.id)).Nodup) (hperm : (taken ++ rest).Perm cs)
    (hmust : ∀ d ∈ rest, d.must = false)
    (hranked : q.seed = none → ∀ c ∈ taken, c.must = false → ∀ d ∈ rest, takenBefore c d) :
    Parts q cs ⟨taken.mergeSort shownBefore, (others cs taken).mergeSort skippedBefore⟩ := by
  have hskipped : ((others cs taken).mergeSort skippedBefore).Perm rest :=
    (mergeSort_perm ..).trans (perm_filter_not_any hperm hids)
  constructor
  · exact ((mergeSort_perm ..).append hskipped).trans hperm
  · exact fun d hd => hmust d (hskipped.subset hd)
  · intro hseed c hc hc' d hd
    exact not_ranksAbove (hranked hseed c (mem_mergeSort.1 hc) hc' d (hskipped.subset hd))

lemma parts_of_select {s : Selection} (hids : (cs.map (·.id)).Nodup) (h : select q cs = .ok s) : Parts q cs s := by
  unfold select at h
  split at h
  · obtain rfl := ok.inj h
    exact ⟨by simp_all, nofun, nofun⟩
  split at h
  · obtain rfl := ok.inj h
    exact ⟨by simpa using mergeSort_perm .., nofun, nofun⟩
  obtain ⟨k, -, h⟩ := Action.except_bind_eq_ok_iff.1 h
  obtain rfl := ok.inj h
  obtain ⟨rest, hperm, hmust, hranked⟩ := exists_top k hids
  cases hseed : q.seed with
  | none => exact parts_of_perm hids hperm hmust fun _ => hranked
  | some seed =>
    obtain ⟨left, hleft, hsub⟩ := exists_takeByChance seed hids hperm
    exact parts_of_perm hids hleft (fun d hd => hmust d (hsub d hd)) fun hnone => absurd hnone (by simp [hseed])

lemma exists_count_iff (q : Quota) (n) : (∃ k, q.count n = .ok k) ↔ (Float.ofNat n * q.share).isFinite := by
  rw [← isSome_ofFloat?, ← Option.isSome_map, ← ceiling?, Quota.count]
  cases ceiling? (Float.ofNat n * q.share) <;> grind

lemma exists_select_iff (q) (cs) : (∃ s, select q cs = .ok s) ↔
    cs = [] ∨ (0 < q.allBelow ∧ cs.length < q.allBelow) ∨ (Float.ofNat cs.length * q.share).isFinite := by
  rw [← exists_count_iff, ← List.isEmpty_iff]
  unfold select
  split
  · simp_all [pure, Except.pure]
  split
  · simp_all [pure, Except.pure]
  rename_i hsome hmany
  rw [or_iff_right hsome, or_iff_right hmany]
  simp only [Action.except_bind_eq_ok_iff]
  constructor
  · rintro ⟨s, k, hk, -⟩
    exact ⟨k, hk⟩
  · rintro ⟨k, hk⟩
    exact ⟨_, k, hk, rfl⟩

/-- Every file is in one of the chunks, which all have names of their own, and each chunk is looked at or skipped:
those with strong words are looked at, and without a choice by chance no skipped one ranks above one of the others. -/
structure Covered (q : Quota) (files : List Entry) (cs : List Chunk) (s : Selection) : Prop where
  files : (cs.flatMap (·.files)).Perm files
  ids : (cs.map (·.id)).Nodup
  parted : (s.selected ++ s.skipped).Perm cs
  strong : ∀ c ∈ cs, (∃ e ∈ c.files, e.strong = true) → c ∈ s.selected
  ranked : q.seed = none → ∀ c ∈ s.selected, (∀ e ∈ c.files, e.strong = false) → ∀ d ∈ s.skipped, ¬ d.RanksAbove c

lemma covered_of_select {s} (h : select q (pack l files) = .ok s) : Covered q files (pack l files) s := by
  have hids := nodup_ids_pack l files
  obtain ⟨hperm, hmust, hranked⟩ := parts_of_select hids h
  refine ⟨perm_files_pack l files, hids, hperm, ?_, ?_⟩
  · rintro c hc ⟨e, he, hstrong⟩
    refine (mem_append.1 (hperm.mem_iff.2 hc)).resolve_right fun hskipped => ?_
    have hfiles := (must_of_mem_pack hc).symm.trans (hmust c hskipped)
    exact absurd hstrong (any_eq_false.1 hfiles e he)
  · intro hseed c hc hfiles d hd
    refine hranked hseed c hc ?_ d hd
    rw [must_of_mem_pack (hperm.subset (mem_append_left _ hc))]
    simpa using hfiles

/-- Every file is covered unless the number of chunks to look at cannot be told. -/
theorem covered_iff (l : Limits) (q : Quota) (files : List Entry) :
    (∃ s, select q (pack l files) = .ok s ∧ Covered q files (pack l files) s) ↔
      pack l files = [] ∨ (0 < q.allBelow ∧ (pack l files).length < q.allBelow) ∨
        (Float.ofNat (pack l files).length * q.share).isFinite = true := by
  rw [← exists_select_iff]
  constructor
  · rintro ⟨s, h, -⟩
    exact ⟨s, h⟩
  · rintro ⟨s, h⟩
    exact ⟨s, h, covered_of_select h⟩

/-- Two files that must be looked at, of which a finite share cannot be counted. -/
theorem not_covered_of_large_share : let e : Entry := ⟨"a", "a", "", 1, 0, 0, true, 0, 1.0⟩
    let q : Quota := { allBelow := 0, share := 1e308 }
    q.share.isFinite = true ∧ ¬ ∃ s, select q (pack ⟨6000, 3000⟩ [e, { e with path := "b", group := "b" }]) = .ok s := by
  intro e q
  have hload : ∀ e, (loads ⟨6000, 3000⟩ [] [e]).length = 1 := fun e => by
    simp only [loads, List.isEmpty_nil, if_true]
    split <;> rfl
  have hlength : (pack ⟨6000, 3000⟩ [e, { e with path := "b", group := "b" }]).length = 2 := by
    simp [e, pack, grouped, addToGroup, packGroup, List.mergeSort, hload]
  have hpack := List.ne_nil_of_length_eq_add_one hlength
  rw [exists_select_iff, hlength, or_iff_right hpack]
  decide +kernel

end PatchReview.Chunk
