import PatchReview.Proofs.Diff.Paths

/-!
# Marks of lines

The text of a changed file marks its lines. Every modified line is an added one too, and the text asks first whether a
line was added, so a modified line never has a mark of its own.
-/

namespace PatchReview.Diff

open ChangedFile Gathered List

/-! ## Modified lines are added lines -/

/-- The modified lines are among the added ones, and these among the lines that are shown. -/
structure Nested (lines : List (Int × String)) (added modified : List Int) : Prop where
  added_of_modified : ∀ n ∈ modified, n ∈ added
  shown_of_added : ∀ n ∈ added, n ∈ lines.map (·.1)

namespace Gathered

variable {g : Gathered} {l : Line} {ls : List Line}

def Nested (g : Gathered) : Prop := Diff.Nested g.lines g.added g.modified

lemma mem_added_line {n} (hn : n ∈ g.added) (l) : n ∈ (g.line l).added := by
  unfold line
  split
  · exact mem_addNumber.2 (.inl hn)
  · exact hn
  · split <;> exact hn
  · exact hn

lemma Nested.line (h : g.Nested) (l) : (g.line l).Nested := by
  unfold Gathered.line
  split
  · refine ⟨fun n hn => mem_addNumber.2 (.inl (h.1 n hn)), fun n hn => ?_⟩
    simpa using (mem_addNumber.1 hn).imp_left fun hn => by simpa using h.2 n hn
  · exact ⟨h.1, fun n hn => by simpa using .inl (by simpa using h.2 n hn)⟩
  · split <;> exact ⟨h.1, h.2⟩
  · exact h

/-- An added line that carries a number is among the added ones from there on. -/
lemma mem_added_foldl_line {m : Nat} (hl : l ∈ ls) (hkind : l.kind = .added) (htarget : l.target = some m)
    (hm : m ≠ 0) : (m : Int) ∈ (ls.foldl line g).added := by
  obtain ⟨before, after, rfl⟩ := append_of_mem hl
  rw [foldl_append]
  refine after.foldlRecOn (motive := fun g => (m : Int) ∈ g.added) line ?_ fun _ hg l _ => mem_added_line hg l
  have hnumber : (before.foldl line g).number l = m := by
    cases m with
    | zero => exact absurd rfl hm
    | succ m => simp [number, htarget]
  simp [line, hkind, mem_addNumber, hnumber]

lemma Nested.hunk (hg : g.Nested) (h) : (g.hunk h).Nested := by
  unfold Gathered.hunk
  extract_lets g₁ g₂
  have h₁ : g₁.Nested := by
    dsimp only [g₁]
    split <;> exact ⟨hg.1, hg.2⟩
  have h₂ : g₂.Nested := h.lines.foldlRecOn Gathered.line h₁ fun _ hg l _ => hg.line l
  refine ⟨fun n hn => ?_, h₂.2⟩
  rcases mem_foldl_addNumber.1 hn with hn | hn
  · exact h₂.1 n hn
  · obtain ⟨l, hl, hkind, m, hm, htarget, rfl⟩ := mem_modifiedIn hn
    exact mem_added_foldl_line hl hkind htarget hm

end Gathered

lemma nested_ofPatch (path p) : Nested (ofPatch path p).lines (ofPatch path p).added (ofPatch path p).modified := by
  have h : (p.hunks.foldl hunk {}).Nested :=
    p.hunks.foldlRecOn hunk ⟨nofun, nofun⟩ fun _ hg h _ => hg.hunk h
  refine ⟨h.1, fun n hn => ?_⟩
  obtain ⟨e, he, rfl⟩ := mem_map.1 (h.2 n hn)
  exact mem_map_of_mem (mem_mergeSort.2 he)

/-! ## Texts with other marks -/

variable {lines : List (Int × String)} {added modified added' modified' : List Int}

lemma intercalate_inj {α : Type} {sep : List α} : ∀ {xs ys : List (List α)}, xs.map length = ys.map length →
    sep.intercalate xs = sep.intercalate ys → xs = ys
  | [], [], _, _ => rfl
  | [x], [y], _, h => by simpa using h
  | [_], _ :: _ :: _, hlen, _ | _ :: _ :: _, [_], hlen, _ => by simp at hlen
  | x :: x' :: xs, y :: y' :: ys, hlen, h => by
    obtain ⟨hx, hlen⟩ := cons.inj hlen
    rw [intercalate_cons_cons, intercalate_cons_cons] at h
    obtain ⟨hfst, h⟩ := append_inj h (by simp [hx])
    rw [append_cancel_right hfst, intercalate_inj hlen h]

/-- Texts that differ in marks only are equal just when all lines have equal marks. -/
lemma listing_eq_iff (path) : listing path lines added modified = listing path lines added' modified' ↔
    ∀ l ∈ lines, marker added modified l.1 = marker added' modified' l.1 := by
  have hlength (as ms n) : (marker as ms n).toList.length = 1 := by
    unfold marker
    split
    · rfl
    · split <;> rfl
  constructor
  · intro h
    unfold listing at h
    split at h
    · simp_all
    · replace h := congrArg String.toList h
      simp only [joinWith, String.toList_intercalate] at h
      have hsame := intercalate_inj (by simp [numberedLine, toString, hlength]) h
      simpa [numberedLine, toString, ← String.toList_inj] using hsame
  · intro h
    rw [listing, map_congr_left fun l hl => by rw [numberedLine, h l hl]]
    rfl

/-- The text of a changed file that tells modified lines from other added ones. -/
def ChangedFile.fullText (f : ChangedFile) : String :=
  listing f.path f.lines (f.added.filter (· ∉ f.modified)) f.modified

lemma text_eq_fullText_iff {f : ChangedFile} (h : Nested f.lines f.added f.modified) :
    f.text = f.fullText ↔ f.modified = [] := by
  rw [text, fullText, listing_eq_iff]
  constructor
  · refine fun heq => eq_nil_iff_forall_not_mem.2 fun n hn => ?_
    have hadded := h.1 n hn
    obtain ⟨l, hl, rfl⟩ := mem_map.1 (h.2 n hadded)
    simpa [marker, hn, hadded] using heq l hl
  · intro hnil l _
    simp [hnil]

variable {diff path : String} {entries : List (String × ChangedFile)} {f : ChangedFile}

lemma nested_of_changedFiles (h : changedFiles diff = .ok entries) (hf : (path, f) ∈ entries) :
    Nested f.lines f.added f.modified := by
  unfold changedFiles changedFilesBy at h
  split at h
  · cases h; cases hf
  · obtain ⟨files, -, hlist⟩ := Action.except_bind_eq_ok_iff.1 h
    cases hlist
    obtain ⟨p, -, -, -, hp⟩ := (listedBy_listFiles files).own _ hf
    exact (show f = _ from hp) ▸ nested_ofPatch path p

/-- The text of a changed file marks added lines and no others, and so tells modified lines from other added ones just
when no line is modified. -/
theorem modified_marks_shown_iff (h : changedFiles diff = .ok entries) (hf : (path, f) ∈ entries) :
    f.text = listing f.path f.lines f.added [] ∧ (f.text = f.fullText ↔ f.modified = []) := by
  have hnested := nested_of_changedFiles h hf
  refine ⟨(listing_eq_iff f.path).mpr fun l _ => ?_, text_eq_fullText_iff hnested⟩
  have := hnested.1 l.1
  simp only [marker, contains_nil]
  grind

lemma changedFiles_twoHunks : changedFiles twoHunks = .ok [("x", ofPatch "x" twoHunksFile)] := by
  have hparse : parse twoHunks = .ok [twoHunksFile] := Action.ok_of_toOption (by decide +kernel)
  have hpath : normalPath twoHunksFile.path = "x" := by decide +kernel
  rw [changedFiles, changedFilesBy_of_parse (by decide +kernel) hparse, listFiles, foldl_cons,
    addFile_of_kept _ ⟨rfl, rfl⟩, hpath]
  rfl

theorem marks_of_twoHunks : changedFiles twoHunks = .ok [("x", ofPatch "x" twoHunksFile)] ∧
    ((ofPatch "x" twoHunksFile).text = (ofPatch "x" twoHunksFile).fullText ↔ (ofPatch "x" twoHunksFile).modified = []) :=
  ⟨changedFiles_twoHunks, (modified_marks_shown_iff changedFiles_twoHunks (mem_singleton_self _)).2⟩

/-- The second line of the new file replaces another and is marked as added. -/
theorem modified_mark_hidden : changedFiles twoHunks = .ok [("x", ofPatch "x" twoHunksFile)] ∧
    (ofPatch "x" twoHunksFile).text ≠ (ofPatch "x" twoHunksFile).fullText :=
  ⟨changedFiles_twoHunks, mt (text_eq_fullText_iff (nested_ofPatch _ _)).mp (by decide +kernel)⟩

end PatchReview.Diff
