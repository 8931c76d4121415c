import Mathlib.Data.List.DropRight
import Mathlib.Data.List.TakeWhile
import PatchReview.Proofs.Action
import PatchReview.Proofs.Json.Candidates
import PatchReview.Proofs.Text

/-!
# Documents in prose

A document is looked for without regard to strings. When the strings of an object have neither braces nor backticks in
them, what its reader goes through is one piece, and the object is found in any prose that has none before it.
-/

namespace PatchReview.Json

open Action List Reader
open Text hiding words

variable {c : Char} {s r t u : Chars} {text doc : String} {fuel p : Nat} {v : Json} {cur : Cursor}

/-! ## Only what stands in a text is tried -/

lemma infix_strip (s) : Text.strip s <:+: s := ( rdropWhile_prefix _ _).isInfix.trans (dropWhile_suffix _).isInfix

lemma infix_of_mem_fencedBlocks (h : doc ∈ fencedBlocks fuel s) : doc.toList <:+: s := by
  fun_induction fencedBlocks fuel s with
  | case1 | case2 | case3 => cases h
  | case4 fuel s before rest hopen body block rest' hclose ih =>
    have hbody : body <:+ rest := by
      simp only [body]
      cases hword : dropLead? "json".toList rest with
      | none => exact suffix_refl _
      | some r => exact ⟨_, (Text.dropLead?_eq_some_iff.1 hword).symm⟩
    have hrest : body <:+ s := hbody.trans ⟨before ++ fence, (breakOn?_eq_some hopen).1.symm⟩
    have hparts : body = block ++ (fence ++ rest') := by rw [(breakOn?_eq_some hclose).1, append_assoc]; rfl
    rcases mem_cons.1 h with rfl | h
    · rw [String.toList_ofList]
      exact (infix_strip block).trans ((hparts ▸ prefix_append _ _).isInfix.trans hrest.isInfix)
    · exact (ih h).trans ((hparts ▸ (suffix_append _ _).trans (suffix_append _ _)).trans hrest).isInfix

/-- A piece stands in what was read since the first brace and the rest. -/
lemma infix_of_mem_pieces {depth started} (h : doc ∈ pieces s depth started) :
    doc.toList <:+: (started.getD []).reverse ++ s := by
  have hmore (started : Option Chars) (c s) :
      ((started.map (c :: ·)).getD []).reverse ++ s <:+ (started.getD []).reverse ++ c :: s := by
    cases started <;> simp
  fun_induction pieces s depth started with
  | case1 => cases h
  | case2 c s depth started _ ih =>
    refine (ih h).trans (IsSuffix.isInfix ?_)
    split
    · exact suffix_append _ _
    · exact hmore started c s
  | case3 c s depth _ _ ih => exact (ih h).trans (hmore none c s).isInfix
  | case4 c s depth _ _ acc _ ih =>
    rcases mem_cons.1 h with rfl | h
    · rw [String.toList_ofList]
      exact ⟨[], s, by simp⟩
    · exact (ih h).trans ((suffix_cons c s).trans (suffix_append _ _)).isInfix
  | case5 c s depth _ _ acc _ ih => exact (ih h).trans (hmore (some acc) c s).isInfix
  | case6 c s depth started _ _ ih => exact (ih h).trans (hmore started c s).isInfix

/-- What is found in a text is a document that stands in it. -/
lemma infix_of_extract (h : extract text = .ok (some doc)) : doc.toList <:+: text.toList ∧ ∃ v, read doc = .ok v := by
  obtain ⟨hmem, hdoc, -⟩ := firstDocument?_eq_some_iff.1 h
  constructor
  · rw [candidates, mem_append, mem_append, wholeText?] at hmem
    rcases hmem with hmem | hmem | hmem
    · exact infix_of_mem_fencedBlocks hmem
    · exact infix_of_mem_pieces hmem
    · split at hmem
      · rw [mem_singleton.1 hmem, String.toList_ofList]
        exact infix_strip _
      · cases hmem
  · rw [isDocument] at hdoc
    split at hdoc
    · exact ⟨_, ‹_›⟩
    · split at hdoc <;> cases hdoc

/-! ## What the reader of an object goes through -/

/-- Where a character of a document stands. -/
inductive Spot where
  | outside
  | inside
  | escaped
  deriving DecidableEq

def Spot.after : Spot → Char → Spot
  | .outside, c => if c = '"' then .inside else .outside
  | .inside, c => if c = '"' then .outside else if c = '\\' then .escaped else .inside
  | .escaped, _ => .inside

/-- Whether the strings of a document, its keys among them, have no marks in them, from a place on. -/
def plainStrings : Spot → Chars → Bool
  | _, [] => true
  | a, c :: s => (a == .outside || !isMark c) && plainStrings (a.after c) s

/-- From a text with plain strings one gets to a rest of it by a balanced part. -/
def Passes (a b : Spot) (s r : Chars) : Prop :=
  plainStrings a s → ∃ u, s = u ++ r ∧ Balanced u ∧ plainStrings b r

abbrev Past := Passes .outside .outside

variable {a b d : Spot} {q : Char → Bool}

lemma Passes.refl : Passes a a s s := fun hs => ⟨[], rfl, .nil, hs⟩

lemma Passes.trans (h : Passes a b s r) (h' : Passes b d r t) : Passes a d s t := by
  intro hs
  obtain ⟨u, rfl, hu, hr⟩ := h hs
  obtain ⟨u', rfl, hu', ht⟩ := h' hr
  exact ⟨u ++ u', (append_assoc ..).symm, hu.append hu', ht⟩

lemma passes_cons (a c s) (h : a = .outside → isMark c = false) : Passes a (a.after c) (c :: s) s := by
  intro hs
  rw [plainStrings, Bool.and_eq_true, Bool.or_eq_true, beq_iff_eq, Bool.not_eq_true'] at hs
  exact ⟨[c], rfl, .single (hs.1.elim h id), hs.2⟩

lemma Past.braces (h : Past r ('}' :: t)) : Past ('{' :: r) t := by
  intro hs
  obtain ⟨u, rfl, hu, ht⟩ := h hs
  exact ⟨_, by simp, hu.braces, ht⟩

/-- The characters that tell where another one stands or how it is gathered. -/
def signs : Chars := ['{', '}', '`', '"', '\\']

/-- Other characters change nothing. -/
lemma passes_append (ha : a ≠ .escaped) (hu : ∀ c ∈ u, c ∉ signs) : Passes a a (u ++ s) s := by
  induction u with
  | nil => exact .refl
  | cons c u ih =>
    obtain ⟨hc, hu⟩ := forall_mem_cons.1 hu
    simp only [signs, mem_cons, not_mem_nil, not_or] at hc
    have hfirst := passes_cons a c (u ++ s) fun _ => by simp [isMark, hc]
    have hafter : a.after c = a := by cases a <;> simp [Spot.after, hc] at ha ⊢
    exact (hafter ▸ hfirst).trans (ih hu)

lemma Passes.past (h : Passes a .outside s (c :: r)) (hc : c ∉ signs := by decide) : Passes a .outside s r :=
  h.trans (passes_append (u := [c]) nofun (forall_mem_singleton.2 hc))

lemma notMem_signs (hq : signs.all (!q ·)) (h : q c) : c ∉ signs := fun hc => by simpa [h] using all_eq_true.1 hq c hc

lemma past_takeWhile (hq : signs.all (!q ·)) (h : s.takeWhile q ++ r = s) : Past s r := by
  have hpass := passes_append (a := .outside) (s := r) nofun fun c hc =>
    notMem_signs hq ( mem_takeWhile_imp (l := s) hc)
  rwa [h] at hpass

lemma rest_skipSpace (s p) : (skipSpace s p).rest = s.dropWhile isSpace := by
  fun_induction skipSpace s p with
  | case1 => rfl
  | case2 p c r hc ih => rw [ih, dropWhile_cons_of_pos hc]
  | case3 p c r hc => rw [dropWhile_cons_of_neg hc]

lemma Passes.skipSpace (h : Passes a .outside s r) (p) : Passes a .outside s (skipSpace r p).rest := by
  rw [rest_skipSpace]
  exact h.trans (past_takeWhile (by decide) takeWhile_append_dropWhile)

lemma passes_hex4? {n} (h : hex4? s = some (n, r)) : Passes .inside .inside s r := by
  simp only [hex4?] at h
  split at h
  · rename_i hlen
    obtain ⟨-, rfl⟩ := Prod.mk.inj (Option.some.inj h)
    have htake : (s.take 4).takeWhile isHex = s.take 4 :=
      ( takeWhile_prefix _).eq_of_length_le (by rw [eq_of_beq hlen]; exact length_take_le ..)
    have hpass := passes_append (a := .inside) (u := s.take 4) (s := s.drop 4) nofun fun c hc =>
      notMem_signs (q := isHex) (by decide) ( mem_takeWhile_imp (htake ▸ hc))
    rwa [take_append_drop] at hpass
  · cases h

lemma passes_escape (c s) : Passes .inside .inside ('\\' :: c :: s) s :=
  (passes_cons .inside _ _ nofun).trans (passes_cons .escaped _ _ nofun)

lemma passes_readUnit {n} (h : readUnit s p = .ok (c, r, n)) : Passes .inside .inside s r := by
  revert h
  fun_cases readUnit s p with
  | case1 | case2 | case3 => nofun
  | case4 _ _ _ _ _ hr₂ _ hr₁ =>
    intro h
    obtain ⟨-, rfl, -⟩ : _ ∧ _ = r ∧ _ := by simpa only [Except.ok.injEq, Prod.mk.injEq] using h
    -- A pair of units: the second stands behind its own escape.
    exact (passes_hex4? hr₁).trans ((passes_escape 'u' _).trans (passes_hex4? hr₂))
  | case5 | case6 | case7 =>
    intro h
    cases h
    exact passes_hex4? ‹_›

lemma passes_readText {start acc t} (h : readText start fuel s p acc = .ok (t, cur)) :
    Passes .inside .outside s cur.rest := by
  fun_induction readText start fuel s p acc with
  | case1 | case2 | case4 | case5 | case7 | case9 => cases h
  | case3 =>
    cases h
    exact passes_cons .inside _ _ nofun
  | case6 fuel p acc r' c' r'' q hunit ih => exact (passes_escape _ _).trans ((passes_readUnit hunit).trans (ih h))
  | case8 fuel p acc c' r' _ d _ ih => exact (passes_escape _ _).trans (ih h)
  | case10 fuel p acc c' r' hquote hslash _ ih =>
    have hfirst := passes_cons .inside c' r' nofun
    rw [Spot.after, if_neg hquote, if_neg hslash] at hfirst
    exact hfirst.trans (ih h)

lemma Passes.digits (h : Past s r) : Past s (r.drop (r.takeWhile isDigit).length) :=
  h.trans (past_takeWhile (q := isDigit) (by decide) (prefix_iff_eq_append.1 ( takeWhile_prefix _)))

lemma past_exponent? {e k} (h : exponent? s = some (e, k)) : Past s (s.drop k) := by
  cases s with
  | nil => cases h
  | cons c s =>
    simp only [exponent?] at h
    split at h
    · rename_i hc
      have hfirst : Past (c :: s) s :=
        Passes.refl.past (notMem_signs (q := fun c => c == 'e' || c == 'E') (by decide) hc)
      split at h <;> split at h <;> cases h <;> rw [Nat.add_comm]
      · exact hfirst.past.digits
      · exact hfirst.past.digits
      · exact hfirst.digits
    · cases h

lemma past_readNumber? (h : readNumber? s p = some (v, cur)) : Past s cur.rest ∧ ∀ fs, v ≠ .object fs := by
  unfold readNumber? at h
  split at h
  rename_i minus body k hbody
  extract_lets whole rest part used rest' n at h
  have hminus : Past s body := by
    split at hbody <;> cases hbody
    · exact Passes.refl.past
    · exact .refl
  have hwhole : Past s rest := by
    simp only [rest, whole]
    split
    · exact hminus.past
    · exact hminus.digits
  have hpart : Past s rest' := by
    simp only [rest', used]
    split
    · exact hwhole
    · rename_i hne
      revert hne
      simp only [part]
      clear_value rest
      split
      · exact fun _ => hwhole.past.digits
      · exact fun hne => absurd rfl hne
  split at h
  · cases h
  · split at h <;> cases h
    · exact ⟨hpart, nofun⟩
    · refine ⟨hpart.trans ?_, nofun⟩
      cases hexp : exponent? rest' with
      | none => exact .refl
      | some x => exact past_exponent? hexp

lemma past_readWord? (h : readWord? s p = some (v, cur)) : Past s cur.rest ∧ ∀ fs, v ≠ .object fs := by
  obtain ⟨⟨w, v'⟩, hmem, hw⟩ := exists_of_findSome?_eq_some h
  obtain ⟨r, hr, hc⟩ := Option.map_eq_some_iff.1 hw
  obtain ⟨rfl, rfl⟩ := Prod.mk.inj hc
  have hwords : words.all fun x => x.1.all fun c => !signs.contains c := by decide
  rw [Text.dropLead?_eq_some_iff.1 hr]
  refine ⟨passes_append nofun fun c hc => ?_, ?_⟩
  · simpa using all_eq_true.1 (all_eq_true.1 hwords _ hmem) c hc
  · rintro fs rfl
    simp [words] at hmem

variable {depth : Nat}

/-- What is read as a value, as members and as items is gone past, and only what has braces around it is read as an
object. -/
structure Reads (fuel : Nat) : Prop where
  value : ∀ {depth s p v cur}, readValue fuel depth s p = .ok (v, cur) → Past s cur.rest ∧
    ((∀ fs, v ≠ .object fs) ∨ ∃ r, s = '{' :: r ∧ Past r ('}' :: cur.rest))
  members : ∀ {depth s p acc v cur}, readValue.readMembers fuel depth s p acc = .ok (v, cur) → Past s ('}' :: cur.rest)
  items : ∀ {depth s p acc v cur}, readValue.readItems fuel depth s p acc = .ok (v, cur) → Past s cur.rest ∧
    ∀ fs, v ≠ .object fs

lemma passes_quote (h : readText p fuel r (p + 1) [] = .ok (text, cur)) : Past ('"' :: r) cur.rest :=
  (passes_cons .outside '"' r fun _ => rfl).trans (passes_readText h)

namespace Reads

variable (ih : Reads fuel)
include ih

lemma value_succ (h : readValue (fuel + 1) depth s p = .ok (v, cur)) : Past s cur.rest ∧
    ((∀ fs, v ≠ .object fs) ∨ ∃ r, s = '{' :: r ∧ Past r ('}' :: cur.rest)) := by
  unfold readValue at h
  split at h
  · obtain ⟨⟨t, c'⟩, ht, ⟨⟩⟩ := except_bind_eq_ok_iff.1 h
    exact ⟨passes_quote ht, .inl (by simp)⟩
  · rename_i r
    have hbody : Past r ('}' :: cur.rest) := by
      refine (Passes.refl.skipSpace (p + 1)).trans ?_
      dsimp only at h
      split at h
      · cases h
      · split at h
        · rename_i hr
          cases h
          exact hr ▸ .refl
        · exact ih.members h
    exact ⟨hbody.braces, .inr ⟨r, rfl, hbody⟩⟩
  · rename_i r
    have hopen : Past ('[' :: r) _ := Passes.refl.past.skipSpace (p + 1)
    dsimp only at h
    split at h
    · cases h
    · split at h
      · rename_i hr
        cases h
        exact ⟨(hr ▸ hopen).past, .inl (by simp)⟩
      · exact (ih.items h).imp hopen.trans .inl
  · split at h
    · cases h
      exact (past_readWord? ‹_›).imp_right .inl
    · split at h
      · rename_i n c' hnumber
        dsimp only at h
        generalize c'.position - p - (if n < 0 then 1 else 0) = digits at h
        split at h <;> cases h
        exact (past_readNumber? hnumber).imp_right .inl
      · cases h
        exact (past_readNumber? ‹_›).imp_right .inl
      · cases h

lemma members_succ {acc} (h : readValue.readMembers (fuel + 1) depth s p acc = .ok (v, cur)) :
    Past s ('}' :: cur.rest) := by
  unfold readValue.readMembers at h
  split at h
  · obtain ⟨⟨key, c₁⟩, hkey, h⟩ := except_bind_eq_ok_iff.1 h
    have hfirst := (passes_quote hkey).skipSpace c₁.position
    dsimp only at h
    split at h
    · rename_i r₁ hr₁
      obtain ⟨⟨v', c₂⟩, hv, h⟩ := except_bind_eq_ok_iff.1 h
      have hsecond := (((hr₁ ▸ hfirst).past.skipSpace _).trans (ih.value hv).1).skipSpace c₂.position
      dsimp only at h
      split at h
      · rename_i hr₂
        cases h
        exact hr₂ ▸ hsecond
      · rename_i r₂ hr₂
        exact ((hr₂ ▸ hsecond).past.skipSpace _).trans (ih.members h)
      · cases h
    · cases h
  · cases h

lemma items_succ {acc} (h : readValue.readItems (fuel + 1) depth s p acc = .ok (v, cur)) :
    Past s cur.rest ∧ ∀ fs, v ≠ .object fs := by
  unfold readValue.readItems at h
  obtain ⟨⟨v', c'⟩, hv, h⟩ := except_bind_eq_ok_iff.1 h
  have hfirst := (ih.value hv).1.skipSpace c'.position
  dsimp only at h
  split at h
  · rename_i r hr
    cases h
    exact ⟨(hr ▸ hfirst).past, by simp⟩
  · rename_i r hr
    exact (ih.items h).imp_left ((hr ▸ hfirst).past.skipSpace _).trans
  · cases h

end Reads

lemma reads (fuel) : Reads fuel := by
  induction fuel with
  | zero => constructor <;> simp [readValue, readValue.readMembers, readValue.readItems, failAt]
  | succ fuel ih => exact ⟨ih.value_succ, ih.members_succ, ih.items_succ⟩

/-! ## What is found -/

/-- An object and nothing around it, whose strings have no marks in them. -/
structure IsPlainObject (j : String) : Prop where
  isObject : ∃ fs, read j = .ok (.object fs)
  lead : j.toList.head?.any isSpace = false
  last : j.toList.getLast?.any isSpace = false
  strings : plainStrings .outside j.toList = true

lemma IsPlainObject.exists_braces {j} (h : IsPlainObject j) : ∃ u, j.toList = '{' :: u ++ ['}'] ∧ Balanced u := by
  obtain ⟨⟨fs, hread⟩, hlead, hlast, hstrings⟩ := h
  have hstart : (skipSpace j.toList 0).rest = j.toList := by
    rw [rest_skipSpace]
    cases hj : j.toList with
    | nil => rfl
    | cons c s => exact dropWhile_cons_of_neg (by simpa [hj] using hlead)
  rw [read] at hread
  dsimp only at hread
  split at hread
  · cases hread
  · rw [hstart] at hread
    split at hread
    · cases hread
    · rename_i v c hvalue
      split at hread
      · rename_i hempty
        cases hread
        obtain ⟨r, hr, hpasses⟩ := ((reads _).value hvalue).2.resolve_left (· _ rfl)
        obtain ⟨u, rfl, hbalanced, -⟩ := hpasses (by simpa [hr, plainStrings, Spot.after] using hstrings)
        have hrest : c.rest = [] := by
          rw [rest_skipSpace, List.isEmpty_iff, dropWhile_eq_nil_iff] at hempty
          cases hrest : c.rest.getLast? with
          | none => exact getLast?_eq_none_iff.1 hrest
          | some x => simp [hr, getLast?_cons, hrest, hempty x ( mem_of_getLast? hrest)] at hlast
        exact ⟨u, by rw [hr, hrest]; rfl, hbalanced⟩
      · cases hread

lemma IsPlainObject.extract_append {pre j suf} (hj : IsPlainObject j) (hpre : ∀ c ∈ pre.toList, isMark c = false)
    (hsuf : '`' ∉ suf.toList) : extract (pre ++ j ++ suf) = .ok (some j) := by
  obtain ⟨u, hu, hbalanced⟩ := hj.exists_braces
  obtain ⟨fs, hread⟩ := hj.isObject
  have hdoc : isDocument j = .ok true := by rw [isDocument, hread]
  have hback : String.ofList ('{' :: u ++ ['}']) = j := by rw [← hu, String.ofList_toList]
  obtain ⟨more, hmore⟩ := exists_candidates _ _ hpre hbalanced hsuf
  rw [extract, String.toList_append, String.toList_append, hu, hmore, hback, firstDocument?, hdoc]
  rfl

/-- An object in prose is found, when there are no marks before it and no backticks behind it, and whatever is found
in a text is a document that stands in it. -/
theorem extract_finds :
    (∀ pre j suf : String, IsPlainObject j → (∀ c ∈ pre.toList, isMark c = false) → '`' ∉ suf.toList →
      extract (pre ++ j ++ suf) = .ok (some j)) ∧
    ∀ text doc : String, extract text = .ok (some doc) → doc.toList <:+: text.toList ∧ ∃ v, read doc = .ok v :=
  ⟨fun _ _ _ hj => hj.extract_append, fun _ _ => infix_of_extract⟩

theorem extract_finds_behind_prose :
    IsPlainObject "\x7b\"a\": [\x7b\x7d]\x7d" ∧
      extract ("As follows: " ++ "\x7b\"a\": [\x7b\x7d]\x7d" ++ " or \x7b\x7d") =
        .ok (some "\x7b\"a\": [\x7b\x7d]\x7d") := by
  have hread : read "\x7b\"a\": [\x7b\x7d]\x7d" = .ok (.object [("a", .list [.object []])]) := by with_unfolding_all rfl
  have hplain : IsPlainObject "\x7b\"a\": [\x7b\x7d]\x7d" := ⟨⟨_, hread⟩, by decide, by decide, by decide⟩
  exact ⟨hplain, extract_finds.1 _ _ _ hplain (by simp [isMark]) (by decide)⟩

/-! ## What was written -/

lemma exists_render (fs) : ∃ u, ((object fs).render wide).toList = '{' :: u ++ ['}'] := by
  unfold render renderAt Style.enclose
  split
  · exact ⟨[], by simp⟩
  · exact ⟨_, by simp; rfl⟩

end PatchReview.Json
