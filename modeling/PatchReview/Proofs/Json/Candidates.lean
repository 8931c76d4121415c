import Mathlib.Tactic.Lemma
import PatchReview.Json.Printer

/-!
# Documents that are found

Documents are looked for by fences and braces, without regard to strings. Where neither stands in a string, the braces
are those of objects and lists.
-/

namespace PatchReview.Json

open List Text

variable {s r u : Chars} {fuel : Nat}

/-- The first document of a list is the one before which there is none. -/
lemma firstDocument?_eq_some_iff {ts doc} : firstDocument? ts = .ok (some doc) ↔
    doc ∈ ts ∧ isDocument doc = .ok true ∧ ∀ t ∈ ts.takeWhile (· != doc), isDocument t = .ok false := by
  induction ts with
  | nil => simp [firstDocument?]
  | cons t ts ih =>
    rw [firstDocument?]
    by_cases ht : t = doc
    · subst ht
      cases hdoc : isDocument t with
      | error e => simp [bind, Except.bind]
      | ok b => cases b <;> simp [hdoc, bind, Except.bind, pure, Except.pure, ih]
    · rw [takeWhile_cons_of_pos (by simpa using ht), forall_mem_cons, mem_cons, or_iff_right (Ne.symm ht)]
      cases isDocument t with
      | error e => simp [bind, Except.bind]
      | ok b => cases b <;> simp [bind, Except.bind, pure, Except.pure, ht, ih]

/-! ## Objects in prose -/

lemma breakOn?_of_notMem {x p s} (h : x ∉ s) : breakOn? (x :: p) s = none := by
  induction s with
  | nil => rfl
  | cons c s ih =>
    rw [mem_cons, not_or] at h
    rw [breakOn?, dropLead?, if_neg h.1, ih h.2]
    rfl

lemma fencedBlocks_of_notMem (h : '`' ∉ s) : fencedBlocks fuel s = [] := by
  cases fuel with
  | zero => rfl
  | succ fuel => rw [fencedBlocks, show breakOn? fence s = none from breakOn?_of_notMem h]

/-- The characters that a document is looked for by. -/
def isMark (c : Char) : Bool := c == '{' || c == '}' || c == '`'

/-- A part of a text without backticks in which all braces are closed. -/
inductive Balanced : Chars → Prop
  | nil : Balanced []
  | single {c : Char} : isMark c = false → Balanced [c]
  | append {u t : Chars} : Balanced u → Balanced t → Balanced (u ++ t)
  | braces {u : Chars} : Balanced u → Balanced ('{' :: u ++ ['}'])

lemma Balanced.notMem (h : Balanced u) : '`' ∉ u := by
  induction h with
  | nil => exact not_mem_nil
  | single hc =>
    rintro hmem
    rw [← mem_singleton.1 hmem] at hc
    cases hc
  | append _ _ ihu iht => exact fun h => (mem_append.1 h).elim ihu iht
  | braces _ ih => simp [ih]

lemma balanced_of_forall (h : ∀ c ∈ u, isMark c = false) : Balanced u := by
  induction u with
  | nil => exact .nil
  | cons c u ih =>
    obtain ⟨hc, hu⟩ := forall_mem_cons.1 h
    exact .append (.single hc) (ih hu)

/-- Inside of braces it is gathered as a whole. -/
lemma Balanced.pieces_append (h : Balanced u) (rest acc depth) (hdepth : 1 ≤ depth) :
    pieces (u ++ rest) depth (some acc) = pieces rest depth (some (u.reverse ++ acc)) := by
  induction h generalizing rest acc depth with
  | nil => rfl
  | single hc =>
    simp only [isMark, Bool.or_eq_false_iff] at hc
    simp [pieces, hc.1]
  | append _ _ ihu iht => rw [append_assoc, ihu _ _ _ hdepth, iht _ _ _ hdepth, reverse_append, append_assoc]
  | @braces u _ ih =>
    have hscan := ih ('}' :: rest) ('{' :: acc) (depth + 1) (by omega)
    have hopen : depth ≠ 0 := by omega
    have hclose : depth + 1 ≠ 1 := by omega
    simp [pieces, hopen, hclose, hscan]

lemma pieces_prose (h : ∀ c ∈ s, isMark c = false) : pieces (s ++ r) 0 none = pieces r 0 none := by
  induction s with
  | nil => rfl
  | cons c s ih =>
    obtain ⟨hc, hs⟩ := forall_mem_cons.1 h
    simp only [isMark, Bool.or_eq_false_iff] at hc
    simpa [pieces, hc.1] using ih hs

/-- An object is what is tried first, when there are no marks before it and no backticks behind it. -/
lemma exists_candidates (pre suf) (hpre : ∀ c ∈ pre, isMark c = false) (hu : Balanced u) (hsuf : '`' ∉ suf) :
    ∃ more, candidates (pre ++ ('{' :: u ++ ['}']) ++ suf) = String.ofList ('{' :: u ++ ['}']) :: more := by
  have hfence : '`' ∉ pre ++ ('{' :: u ++ ['}']) ++ suf := by
    have hpre' : '`' ∉ pre := fun h => absurd (hpre _ h) (by decide)
    simp [hpre', hu.notMem, hsuf]
  have hscan := hu.pieces_append ('}' :: suf) ['{'] 1 (by decide)
  rw [candidates, fencedBlocks_of_notMem hfence, append_assoc, pieces_prose hpre]
  simp [pieces, hscan]

end PatchReview.Json
