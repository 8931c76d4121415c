import PatchReview.Proofs.Diff.Paths

/-!
# Excerpts of one file

What a diff says about a file that is listed is the listing of the file's own lines. For other files, such as those that
are removed, a section is cut out of the text: it begins at the first header of the diff and goes on through the line of
the last mention of the path to the next header. It is the file's own section just when the file comes first and every
mention of its path behind which a line ends stands in it, with the end of the line.
-/

namespace PatchReview.Diff

open Fields List Text

variable {diff p : String} {files : List FileDiff} {parse : String → Result (List FileDiff)}
  {name s a b r pre body tail : Chars}

/-! ## Listed files -/

/-- A file is listed, and no other is under its path. -/
structure ListedAlone (files : List FileDiff) (f : FileDiff) (path : String) : Prop where
  mem : f ∈ files
  kept : f.Kept
  own : f.path = path
  plain : PlainPath path
  alone : ∀ g ∈ files, g.Kept → normalPath g.path = path → g = f

lemma findFile?_of_listedAlone {f} (h : ListedAlone files f p) :
    findFile? (listFiles files) p = some (ChangedFile.ofPatch p f) := by
  have hlisted := listedBy_listFiles files
  have hkey := hlisted.listed f h.mem h.kept
  rw [FileDiff.key, h.own, normalPath_eq_iff.mpr h.plain] at hkey
  obtain ⟨⟨_, c⟩, hc, rfl⟩ := mem_map.mp hkey
  obtain ⟨g, hg, hkept, hnormal, hown : c = _⟩ := hlisted.own _ hc
  obtain rfl := h.alone g hg hkept hnormal
  rw [findFile?, get?_of_mem hlisted.nodup hc, hown]

/-! ## Mentions of a path -/

/-- The path is mentioned in a text before a line end that stands there too. -/
def Mentions (name s a b : Chars) : Prop := s = a ++ name ++ b ∧ '\n' ∈ b

lemma isSome_lastNamed? (h : Mentions name s a b) : (lastNamed? name s).isSome := by
  obtain ⟨rfl, hb⟩ := h
  induction a with
  | nil =>
    rw [nil_append]
    cases hs : name ++ b with
    | nil => simp_all
    | cons c s =>
      have hlead : dropLead? name (c :: s) = some b := dropLead?_eq_some_iff.2 hs.symm
      rw [lastNamed?, hlead]
      split <;> simp_all
  | cons c a ih =>
    obtain ⟨x, hx⟩ := Option.isSome_iff_exists.1 ih
    rw [cons_append, cons_append, lastNamed?, hx]
    rfl

/-- The mention that is found is the last one. -/
lemma lastNamed?_eq_some (h : lastNamed? name s = some (a, b)) :
    Mentions name s a b ∧ ∀ a' b', Mentions name s a' b' → a'.length ≤ a.length := by
  induction s generalizing a with
  | nil => cases h
  | cons c s ih =>
    rw [lastNamed?] at h
    split at h
    · rename_i before rest hlast
      cases h
      obtain ⟨⟨rfl, hb⟩, hmax⟩ := ih hlast
      refine ⟨⟨rfl, hb⟩, fun a' b' ⟨hs, hb'⟩ => ?_⟩
      cases a' with
      | nil => exact Nat.zero_le _
      | cons d a' => exact Nat.succ_le_succ (hmax a' b' ⟨(cons.inj hs).2, hb'⟩)
    · rename_i hnone
      split at h
      · rename_i rest hlead
        split at h
        · cases h
          refine ⟨⟨dropLead?_eq_some_iff.1 hlead, contains_iff_mem.1 ‹_›⟩, fun a' b' ⟨hs, hb'⟩ => ?_⟩
          cases a' with
          | nil => exact Nat.le_refl 0
          | cons d a' => cases hnone ▸ isSome_lastNamed? ⟨(cons.inj hs).2, hb'⟩
        · cases h
      · cases h

/-! ## Sections -/

/-- A section stands in a diff: it begins with a header and has no other, what is before begins with one too, and another
one follows. -/
structure SectionIn (pre body tail : Chars) : Prop where
  one : ¬ '\n' :: headerMark <:+: headerMark ++ body
  before : pre = [] ∨ headerMark <+: pre ∧ ['\n'] <:+ pre
  after : tail = [] ∨ '\n' :: headerMark <+: tail

/-- Every mention of a path from a section on stands in the section, with the end of its line. -/
def MentionedWithin (name body tail : Chars) : Prop :=
  ∀ a b, Mentions name (body ++ tail) a b → ∃ c, Mentions name body a c

lemma breakOn?_headerMark (r) : breakOn? headerMark (headerMark ++ r) = some ([], r) := by
  have hlead : dropLead? headerMark (headerMark ++ r) = some r := dropLead?_eq_some_iff.2 rfl
  rw [show headerMark ++ r = 'd' :: ("iff --git".toList ++ r) from rfl] at hlead ⊢
  rw [breakOn?, hlead]

lemma headerSection?_headerMark (r) :
    headerSection? (headerMark ++ r) name = (throughLast? name r).map (headerMark ++ ·) := by
  rw [headerSection?, breakOn?_headerMark]
  simp only [Option.bind_eq_bind, Option.bind_some]
  cases throughLast? name r <;> rfl

lemma throughLast?_eq_some (h : throughLast? name s = some r) :
    ∃ a b l u v, Mentions name s a b ∧ (∀ a' b', Mentions name s a' b' → a'.length ≤ a.length) ∧
      b = l ++ '\n' :: u ∧ v <+: u ∧ r = a ++ name ++ (l ++ ['\n']) ++ v := by
  obtain ⟨⟨a, b⟩, hlast, h⟩ := Option.bind_eq_some_iff.1 h
  obtain ⟨⟨line, u⟩, hline, h⟩ := Option.bind_eq_some_iff.1 h
  obtain ⟨⟨l, u'⟩, hbreak, hpair⟩ := Option.map_eq_some_iff.1 hline
  obtain ⟨rfl, rfl⟩ := Prod.mk.inj hpair
  obtain ⟨hmention, hmax⟩ := lastNamed?_eq_some hlast
  refine ⟨a, b, l, u', upTo ('\n' :: headerMark) u', hmention, hmax, ?_, ?_, (Option.some.inj h).symm⟩
  · simpa using (breakOn?_eq_some hbreak).1
  · unfold upTo
    split
    · rename_i before after hbreak'
      exact ⟨_, ((breakOn?_eq_some hbreak').1.trans (append_assoc ..)).symm⟩
    · exact prefix_rfl

/-- Behind a mention something is cut out. -/
lemma isSome_throughLast? (h : Mentions name s a b) : (throughLast? name s).isSome := by
  obtain ⟨⟨a', b'⟩, hlast⟩ := Option.isSome_iff_exists.1 (isSome_lastNamed? h)
  have hfeed := (lastNamed?_eq_some hlast).1.2
  obtain ⟨⟨l, u⟩, hbreak⟩ := Option.isSome_iff_exists.1 (isSome_breakOn?.2 ((singleton_infix_iff ..).2 hfeed))
  simp [throughLast?, throughLine?, hlast, hbreak]

/-- What is cut out is the section when it comes first and the path is mentioned in it only. -/
lemma throughLast?_of_mentionedWithin (h : SectionIn [] body tail) (hmention : Mentions name body a b)
    (hwithin : MentionedWithin name body tail) : throughLast? name (body ++ tail) = some body := by
  have hthere : Mentions name (body ++ tail) a (b ++ tail) := by
    refine ⟨?_, mem_append_left _ hmention.2⟩
    rw [hmention.1, append_assoc]
  obtain ⟨⟨a', b'⟩, hlast⟩ := Option.isSome_iff_exists.1 (isSome_lastNamed? hthere)
  obtain ⟨c, hbody, hfeed⟩ := hwithin a' b' (lastNamed?_eq_some hlast).1
  obtain rfl : b' = c ++ tail := by
    have hboth := (lastNamed?_eq_some hlast).1.1
    rw [hbody, append_assoc] at hboth
    exact (append_cancel_left hboth).symm
  obtain ⟨l, u, hc, hl⟩ := eq_append_cons_of_mem hfeed
  have hline : throughLine? (c ++ tail) = some (l ++ ['\n'], u ++ tail) := by
    have hbreak := breakOn?_of_not_infix (x := '\n') (p := []) not_mem_nil (a := l)
      (by rwa [singleton_infix_iff]) (u ++ tail)
    rw [nil_append] at hbreak
    rw [throughLine?, hc, append_assoc, cons_append, hbreak]
    rfl
  have hnone : ¬ '\n' :: headerMark <:+: u := by
    refine fun hu => h.one (hu.trans ?_)
    rw [hbody, hc]
    exact (suffix_append (headerMark ++ (a' ++ name) ++ (l ++ ['\n'])) u).isInfix.trans (by simp)
  have hrest : upTo ('\n' :: headerMark) (u ++ tail) = u := by
    unfold upTo
    rcases h.after with rfl | ⟨t, rfl⟩
    · rw [append_nil, Option.not_isSome_iff_eq_none.1 (mt isSome_breakOn?.1 hnone)]
    · rw [cons_append, breakOn?_of_not_infix (by decide) hnone]
  rw [throughLast?, hlast]
  simp only [Option.bind_eq_bind, Option.bind_some, hline, hrest]
  rw [hbody, hc]
  simp

/-- A diff begins with a header. -/
lemma SectionIn.exists_rest (h : SectionIn pre body tail) :
    ∃ t, pre ++ (headerMark ++ body) ++ tail = headerMark ++ (t ++ body ++ tail) := by
  rcases h.before with rfl | ⟨⟨t, rfl⟩, -⟩
  · exact ⟨[], by simp⟩
  · exact ⟨t ++ headerMark, by simp⟩

/-- The section that is cut out is a file's own just when that comes first and the path is mentioned in it only. -/
lemma headerSection?_eq_some_iff (h : SectionIn pre body tail) (hmention : Mentions name body a b) :
    headerSection? (pre ++ (headerMark ++ body) ++ tail) name = some (headerMark ++ body) ↔
      pre = [] ∧ MentionedWithin name body tail := by
  constructor
  · intro hsection
    obtain ⟨t, hrest⟩ := h.exists_rest
    generalize t ++ body ++ tail = rest at hrest
    rw [hrest, headerSection?_headerMark] at hsection
    obtain ⟨found, hfound, heq⟩ := Option.map_eq_some_iff.1 hsection
    obtain rfl := append_cancel_left heq
    obtain ⟨a', b', l, u, v, ⟨hlast, -⟩, hmax, rfl, hv, hbody⟩ := throughLast?_eq_some hfound
    have hpre : pre = [] := by
      by_contra hne
      obtain ⟨⟨t, ht⟩, z, hz⟩ := h.before.resolve_left hne
      have hrest' : rest = t ++ headerMark ++ a ++ name ++ (b ++ tail) := by
        rw [← ht, hmention.1] at hrest
        simpa using hrest.symm
      -- the mention in the section comes no later than the last one, so its header is in what was cut out
      have hlong := hmax _ _ ⟨hrest', mem_append_left _ hmention.2⟩
      have hcut : found <+: rest := by
        obtain ⟨more, rfl⟩ := hv
        exact ⟨more, by simp [hbody, hlast]⟩
      have hheader : pre ++ headerMark <+: headerMark ++ found := by
        have hpre : pre ++ headerMark <+: headerMark ++ rest := by
          rw [← hrest, append_assoc pre, append_assoc headerMark]
          exact (prefix_append_right_inj _).2 (prefix_append ..)
        refine prefix_of_prefix_length_le hpre ((prefix_append_right_inj _).2 hcut) ?_
        rw [hbody, ← ht]
        simp only [length_append] at hlong ⊢
        omega
      refine h.one (.trans ?_ hheader.isInfix)
      rw [← hz, append_assoc]
      exact (suffix_append z _).isInfix
    obtain rfl := hpre
    obtain rfl : found ++ tail = rest := by simpa using hrest
    refine ⟨rfl, fun a₁ b₁ hother => ?_⟩
    have hle := hmax a₁ b₁ hother
    obtain ⟨c, hc⟩ : a₁ ++ name <+: a' ++ name ++ l := by
      have hpart : a' ++ name ++ l <+: found ++ tail := ⟨'\n' :: u, by rw [hlast, append_assoc _ l]⟩
      refine prefix_of_prefix_length_le ⟨b₁, hother.1.symm⟩ hpart ?_
      simp only [length_append]
      omega
    refine ⟨c ++ '\n' :: v, ?_, by simp⟩
    rw [← append_assoc, hc, hbody]
    simp
  · rintro ⟨rfl, hwithin⟩
    rw [nil_append, append_assoc, headerSection?_headerMark, throughLast?_of_mentionedWithin h hmention hwithin]
    rfl

lemma SectionIn.exists_headerSection? (h : SectionIn pre body tail) (hmention : Mentions name body a b) :
    ∃ found, headerSection? (pre ++ (headerMark ++ body) ++ tail) name = some found := by
  obtain ⟨t, hrest⟩ := h.exists_rest
  have hthere : Mentions name (t ++ body ++ tail) (t ++ a) (b ++ tail) :=
    ⟨by simp [hmention.1], mem_append_left _ hmention.2⟩
  obtain ⟨found, hfound⟩ := Option.isSome_iff_exists.1 (isSome_throughLast? hthere)
  exact ⟨headerMark ++ found, by rw [hrest, headerSection?_headerMark, hfound]; rfl⟩

/-- Whatever parser reads a diff, what it says about a listed file is the listing of the file's own lines. What it says
about one that is not listed is the file's own section just when that comes first and the path is mentioned in it only. -/
theorem excerpt_own_iff (hdiff : strip diff ≠ "") (hparse : parse diff = .ok files) :
    (∀ f p, ListedAlone files f p → excerptBy parse diff p = (ChangedFile.ofPatch p f).text) ∧
      ∀ p pre body tail a b, findFile? (listFiles files) p = none →
        diff.toList = pre ++ (headerMark ++ body) ++ tail → SectionIn pre body tail → Mentions p.toList body a b →
        (excerptBy parse diff p = String.ofList (headerMark ++ body) ↔
          pre = [] ∧ MentionedWithin p.toList body tail) := by
  have hfiles := changedFilesBy_of_parse hdiff hparse
  constructor
  · intro f p h
    simp [excerptBy, hfiles, Except.toOption, findFile?_of_listedAlone h]
  · intro p pre body tail a b hnone htext hsection hmention
    have hraw : excerptBy parse diff p = rawSection diff p := by
      simp [excerptBy, hfiles, Except.toOption, hnone]
    obtain ⟨found, hfound⟩ := hsection.exists_headerSection? hmention
    rw [← headerSection?_eq_some_iff hsection hmention, hraw, rawSection, htext, hfound]
    exact String.ofList_inj.trans Option.some_inj.symm

/-- The section of a file that is removed. -/
def removedSection : String := " a/y b/y\ndeleted file mode 100644\n--- a/y\n+++ /dev/null\n@@ -1 +0,0 @@\n-r"

/-- The section of a file that is changed, behind another one. -/
def changedSection : String := "\ndiff --git a/x b/x\n--- a/x\n+++ b/x\n@@ -1 +1 @@\n-p\n+q\n"

def removedFirst : String := "diff --git" ++ removedSection ++ changedSection

def changedFile : FileDiff where
  header := "a/x"
  path := "x"
  hunks := [⟨1, 1, 1, 1, [⟨.removed, "p\n", some 1, none⟩, ⟨.added, "q\n", none, some 1⟩]⟩]

def removedAlone : FileDiff where
  header := "a/y"
  path := "y"
  removed := true
  hunks := [⟨1, 1, 0, 0, [⟨.removed, "r\n", some 1, none⟩]⟩]

/-- Of two files the first is removed and the other changed, and both have excerpts of their own. -/
theorem removed_first_excerpts :
    excerptBy Diff.parse removedFirst "x" = (ChangedFile.ofPatch "x" changedFile).text ∧
      excerptBy Diff.parse removedFirst "y" = String.ofList (headerMark ++ removedSection.toList) ∧
      MentionedWithin "y".toList removedSection.toList changedSection.toList := by
  have hparse : Diff.parse removedFirst = .ok [removedAlone, changedFile] := Action.ok_of_toOption (by decide +kernel)
  have hdiff : strip removedFirst ≠ "" := by decide +kernel
  obtain ⟨hlisted, hother⟩ := excerpt_own_iff hdiff hparse
  have hexcerpt : excerptBy Diff.parse removedFirst "y" = String.ofList (headerMark ++ removedSection.toList) := by
    decide +kernel
  have hsection : SectionIn [] removedSection.toList changedSection.toList := by
    refine ⟨?_, .inl rfl, .inr (Text.isSome_dropLead?.mp (by decide +kernel))⟩
    exact mt Text.isSome_breakOn?.mpr (by decide +kernel)
  refine ⟨hlisted changedFile "x" ⟨by decide, ⟨rfl, rfl⟩, rfl, ⟨by decide, by decide, by decide⟩, ?_⟩, hexcerpt, ?_⟩
  · intro g hg hkept _
    obtain rfl | rfl : g = removedAlone ∨ g = changedFile := by simpa using hg
    · exact Bool.noConfusion hkept.2
    · rfl
  · have hfound := hother "y" [] _ _ " a/".toList (removedSection.toList.drop 4) ?_ ?_ hsection ?_
    · exact (hfound.mp hexcerpt).2
    · decide +kernel
    · decide +kernel
    · exact ⟨by decide +kernel, by decide +kernel⟩

/-- A change of a file before one that is removed. -/
def removedBehind : String :=
  "diff --git a/x b/x\n--- a/x\n+++ b/x\n@@ -1 +1 @@\n-p\n+q\n" ++
    "diff --git a/y b/y\ndeleted file mode 100644\n--- a/y\n+++ /dev/null\n@@ -1 +0,0 @@\n-r\n"

/-- What the diff says about the removed file is all that it says. -/
theorem removed_file_shown_with_others : excerpt removedBehind "y" = removedBehind := by decide +kernel

end PatchReview.Diff
