import PatchReview.Chunk.Pack
import PatchReview.Proofs.Diff.Paths

/-!
# How long chunks are

A file that is too long for a chunk is cut when it comes first in its group, or behind files that were cut themselves.
Behind a shorter file it has a chunk of its own too but is not cut, and the line ends between the files of a chunk are
not counted. So chunks stay within the limit and the mark of a cut when those two are harmless, and only then.
-/

namespace PatchReview.Chunk

open List Number

variable {l : Limits} {run files : List Entry}

/-- How many characters the files of a chunk count. -/
@[irreducible]
def size (l : Limits) (es : List Entry) : Nat := total (es.map fun e => (fileSection l e).length)

/-- What a chunk of files shows that were not cut. -/
def shown (l : Limits) (es : List Entry) : String := strip (joinWith "\n" (es.map (fileSection l)))

/-- Whether a file is too long for a chunk. -/
def isLong (l : Limits) (e : Entry) : Bool := l.chunk < ((fileSection l e).length : Int)

lemma isLong_iff {e} : isLong l e ↔ l.chunk < (fileSection l e).length := decide_eq_true_iff

lemma size_append (l es fs) : size l (es ++ fs) = size l es + size l fs := by
  unfold size
  induction es with
  | nil => exact (Nat.zero_add _).symm
  | cons e es ih => rw [cons_append, map_cons, map_cons, total, total, ih, Nat.add_assoc]

lemma size_singleton (l e) : size l [e] = (fileSection l e).length := by
  rw [size, map_singleton, total, total, Nat.add_zero]

/-! ## Runs of files -/

/-- Files in runs from one on, which goes on as long as the next file fits. -/
def runsFrom (l : Limits) (run : List Entry) : List Entry → List (List Entry)
  | [] => [run]
  | e :: es =>
    if l.chunk < ((size l run + size l [e] : Nat) : Int) then run :: runsFrom l [e] es else runsFrom l (run ++ [e]) es

/-- The runs of the files that are not cut: those from the first on that is not too long. -/
def wholeRuns (l : Limits) (es : List Entry) : List (List Entry) :=
  match es.dropWhile (isLong l) with
  | [] => []
  | e :: es => runsFrom l [e] es

variable (es : List Entry)

lemma fits_runsFrom (h : run.length = 1 ∨ (size l run : Int) ≤ l.chunk) :
    ∀ r ∈ runsFrom l run es, r.length = 1 ∨ (size l r : Int) ≤ l.chunk := by
  induction es generalizing run with
  | nil => exact forall_mem_singleton.2 h
  | cons e es ih =>
    rw [runsFrom]
    split
    · exact forall_mem_cons.2 ⟨h, ih (.inl rfl)⟩
    · exact ih (.inr (by rw [size_append]; omega))

lemma fits_wholeRuns : ∀ r ∈ wholeRuns l es, r.length = 1 ∨ (size l r : Int) ≤ l.chunk := by
  unfold wholeRuns
  split
  · exact forall_mem_nil _
  · exact fits_runsFrom _ (.inl rfl)

/-! ## Loads -/

def whole (l : Limits) (e : Entry) : Entry × String := (e, fileSection l e)

def shortened (l : Limits) (e : Entry) : Entry × String := (e, leadingChars l.chunk (fileSection l e) ++ fileMark)

lemma chars_map_whole (l es) : Load.chars (es.map (whole l)) = size l es := by
  simp only [Load.chars, size, map_map, Function.comp_def, whole]

lemma loads_map_whole (hrun : run ≠ []) (es) :
    loads l (run.map (whole l)) es = (runsFrom l run es).map (·.map (whole l)) := by
  induction es generalizing run with
  | nil =>
    rw [loads, if_neg (by simpa using hrun)]
    rfl
  | cons e es ih =>
    rw [loads, if_neg (by simpa using hrun), chars_map_whole, runsFrom, size_singleton]
    split
    · exact congrArg (_ :: ·) (ih (cons_ne_nil e []))
    · rw [← ih (by simp), map_append]
      rfl

/-- Long files are cut until one comes that is not; the files from there on are in runs, and none of them is cut. -/
lemma loads_eq (l es) : loads l [] es =
    (es.takeWhile (isLong l)).map (fun e => [shortened l e]) ++ (wholeRuns l es).map (·.map (whole l)) := by
  induction es with
  | nil => rfl
  | cons e es ih =>
    by_cases hlong : isLong l e
    · rw [takeWhile_cons_of_pos hlong, wholeRuns, dropWhile_cons_of_pos hlong, loads, isEmpty_nil,
        if_pos (isLong_iff.1 hlong), ih]
      rfl
    · rw [takeWhile_cons_of_neg hlong, wholeRuns, dropWhile_cons_of_neg hlong, loads, isEmpty_nil,
        if_neg (mt isLong_iff.2 hlong)]
      exact loads_map_whole (cons_ne_nil e []) es

/-! ## Lengths -/

lemma length_joinWith : (joinWith "\n" (es.map (fileSection l))).length = size l es + (es.length - 1) := by
  unfold joinWith
  induction es with
  | nil => simp [size, total]
  | cons e es ih =>
    cases es with
    | nil => rw [map_singleton, String.intercalate_singleton, size_singleton, length_singleton, Nat.add_zero]
    | cons f es =>
      have hsize := size_append l [e] (f :: es)
      rw [map_cons, String.intercalate_cons_of_ne_nil (by simp), String.length_append, String.length_append, ih]
      rw [singleton_append, size_singleton] at hsize
      simp only [length_cons]
      change _ + 1 + _ = _
      omega

lemma length_strip_le (s) : (strip s).length ≤ s.length := by
  obtain heq | hlt := Diff.shortens_strip s
  · rw [heq]
  · exact hlt.le

/-- A file that is cut leaves room for the mark. -/
lemma length_shortened_le (hl : 1 ≤ l.chunk) (e) :
    (strip (joinWith "\n" [(shortened l e).2])).length ≤ l.chunk + fileMark.length := by
  have hstrip := length_strip_le (shortened l e).2
  have hlength : (shortened l e).2.length ≤ l.chunk.toNat + fileMark.length := by
    rw [shortened, leadingChars, if_pos (by omega), String.length_append, takeChars, String.length_ofList]
    exact Nat.add_le_add_right (length_take_le ..) _
  rw [joinWith, String.intercalate_singleton]
  omega

/-- Runs that can be too long: a long file alone, and files with too many line ends between them. -/
def Loose (l : Limits) (run : List Entry) : Prop := (∃ e, run = [e] ∧ isLong l e) ∨ fileMark.length + 1 < run.length

lemma length_shown_le (hfits : run.length = 1 ∨ (size l run : Int) ≤ l.chunk) (hloose : ¬ Loose l run) :
    (shown l run).length ≤ l.chunk + fileMark.length := by
  have hshown : (shown l run).length ≤ size l run + (run.length - 1) :=
    (length_strip_le _).trans_eq (length_joinWith run)
  obtain ⟨hone, hfew⟩ := not_or.1 hloose
  have hsize : (size l run : Int) ≤ l.chunk := by
    obtain hlength | hsize := hfits
    · obtain ⟨e, rfl⟩ := length_eq_one_iff.1 hlength
      rw [size_singleton]
      exact Int.not_lt.1 fun hlong => hone ⟨e, rfl, isLong_iff.2 hlong⟩
    · exact hsize
  omega

lemma forall_diff_pack {p : String → Prop} : (∀ c ∈ pack l files, p c.diff) ↔
    ∀ g ∈ grouped Entry.group files, ∀ load ∈ loads l [] (g.2.mergeSort Entry.precedes),
      p (strip (joinWith "\n" (load.map (·.2)))) := by
  constructor
  · intro h g hg load hload
    obtain ⟨k, hk⟩ := mem_iff_getElem?.mp hload
    refine h (ofLoad g.1 (k + 1) load) (mem_flatMap.2 ⟨g, mem_mergeSort.2 hg, ?_⟩)
    exact mem_map.2 ⟨(load, k), mk_mem_zipIdx_iff_getElem?.mpr hk, rfl⟩
  · intro h c hc
    obtain ⟨g, hg, hc⟩ := mem_flatMap.1 hc
    obtain ⟨⟨load, k⟩, hload, rfl⟩ := mem_map.1 hc
    exact h g (mem_mergeSort.1 hg) load (fst_mem_of_mem_zipIdx hload)

/-- Chunks are within the limit and the mark of a cut exactly when the runs are that can be too long. -/
theorem length_diff_le_iff (files : List Entry) (hl : 1 ≤ l.chunk) :
    (∀ c ∈ pack l files, (c.diff.length : Int) ≤ l.chunk + fileMark.length) ↔
      ∀ g ∈ grouped Entry.group files, ∀ run ∈ wholeRuns l (g.2.mergeSort Entry.precedes),
        Loose l run → ((shown l run).length : Int) ≤ l.chunk + fileMark.length := by
  rw [forall_diff_pack (p := fun diff => (diff.length : Int) ≤ l.chunk + fileMark.length)]
  refine forall₂_congr fun g _ => ?_
  simp only [loads_eq, mem_append, or_imp, forall_and, forall_mem_map]
  constructor
  · intro h run hrun _
    have hshown := h.2 run hrun
    rwa [map_map] at hshown
  · intro h
    refine ⟨fun e _ => length_shortened_le hl e, fun run hrun => ?_⟩
    rw [map_map]
    by_cases hloose : Loose l run
    · exact h run hrun hloose
    · exact length_shown_le (fits_wholeRuns _ run hrun) hloose

/-- A file without lines that changed. -/
def bareEntry (path diff : String) : Entry := ⟨path, "src", diff, 0, 0, 0, false, 0, 1.0⟩

/-- More than goes into a chunk of 20 characters with the mark of a cut. -/
def longDiff := "xxxxxxxxxxxxxxxxxxxxxxxxxxxxxx"

lemma mergeSort_bareEntry {p q d d'} (h : p ≤ q) :
    [bareEntry p d, bareEntry q d'].mergeSort Entry.precedes = [bareEntry p d, bareEntry q d'] := by
  refine mergeSort_of_pairwise ?_
  simp [Entry.precedes, Entry.score, bareEntry, h]

/-- A long file that comes first is cut. -/
theorem length_diff_le_long_first : 1 ≤ (20 : Int) ∧
    ∀ c ∈ pack ⟨20, 0⟩ [bareEntry "a" longDiff, bareEntry "b" ""], (c.diff.length : Int) ≤ 20 + fileMark.length := by
  refine ⟨by decide, (length_diff_le_iff (l := ⟨20, 0⟩) _ (by decide)).mpr ?_⟩
  intro g hg run hrun hloose
  obtain rfl : g = ("src", [bareEntry "a" longDiff, bareEntry "b" ""]) := mem_singleton.mp hg
  rw [mergeSort_bareEntry (by decide), wholeRuns, dropWhile_cons_of_pos (by decide +kernel),
    dropWhile_cons_of_neg (by decide +kernel)] at hrun
  obtain rfl : run = [bareEntry "b" ""] := mem_singleton.mp hrun
  decide +kernel

/-- Behind a shorter file it is not. -/
theorem long_file_behind_shorter_is_whole :
    ¬ ∀ c ∈ pack ⟨20, 0⟩ [bareEntry "a" "", bareEntry "b" longDiff], (c.diff.length : Int) ≤ 20 + fileMark.length := by
  intro h
  rw [forall_diff_pack (p := fun diff => (diff.length : Int) ≤ 20 + fileMark.length)] at h
  have hload : [whole ⟨20, 0⟩ (bareEntry "b" longDiff)] ∈ loads ⟨20, 0⟩ []
      ([bareEntry "a" "", bareEntry "b" longDiff].mergeSort Entry.precedes) := by
    rw [mergeSort_bareEntry (by decide), loads, isEmpty_nil, if_pos rfl, if_neg (by decide +kernel), loads,
      if_neg (by simp), if_pos (by decide +kernel), loads, if_neg (by simp)]
    exact mem_cons_of_mem _ mem_cons_self
  exact absurd (h ("src", _) mem_cons_self _ hload) (by decide +kernel)

end PatchReview.Chunk
