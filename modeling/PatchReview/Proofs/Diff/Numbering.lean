import PatchReview.Diff.Excerpt
import PatchReview.Proofs.Action
import PatchReview.Proofs.Fields
import Mathlib.Data.List.TakeWhile

/-!
# Numbers of lines in a diff

A hunk says where it starts in the old file and in the new one, and each of its lines stands in one of them or in both.
The numbers that follow from this are compared with those that lines get while a diff is read, and with those that a
changed file lists in the end.
-/

namespace PatchReview.Diff

open Action ChangedFile Except Fields Line List Patch Text

/-- Whether a line stands in the new file. -/
def Line.inTarget (l : Line) : Bool := l.kind == .context || l.kind == .added

/-- Whether a line stands in the old file. -/
def Line.inSource (l : Line) : Bool := l.kind == .context || l.kind == .removed

/-- The lines of one side, numbered on from a start. -/
def numberedFrom (side : Line → Bool) (start : Nat) (ls : List Line) : List (Line × Nat) :=
  (ls.filter side).zipIdx start

/-- The lines of a hunk in the new file, with their numbers. -/
def Hunk.targets (h : Hunk) : List (Line × Nat) := numberedFrom inTarget h.targetStart h.lines

/-- The lines of a hunk in the old file, with their numbers. -/
def Hunk.sources (h : Hunk) : List (Line × Nat) := numberedFrom inSource h.sourceStart h.lines

variable {side : Line → Bool} {s t n : Nat} {l : Line} {ls ms : List Line} {q : Line × Nat}

section

variable (side : Line → Bool)

lemma numberedFrom_append (n ls ms) :
    numberedFrom side n (ls ++ ms) = numberedFrom side n ls ++ numberedFrom side (n + ls.countP side) ms := by
  simp [numberedFrom, zipIdx_append, countP_eq_length_filter]

lemma numberedFrom_singleton (n l) : numberedFrom side n [l] = if side l then [(l, n)] else [] := by
  unfold numberedFrom
  cases h : side l <;> simp [h]

lemma map_snd_numberedFrom (n ls) : (numberedFrom side n ls).map (·.2) = List.range' n (ls.countP side) := by
  rw [countP_eq_length_filter]
  exact zipIdx_map_snd ..

end

/-! ## Lines that carry their numbers -/

/-- Every line carries the numbers that follow from where the lines start. -/
structure Numbered (s t : Nat) (ls : List Line) : Prop where
  source : ∀ q ∈ numberedFrom inSource s ls, q.1.source = some q.2
  target : ∀ q ∈ numberedFrom inTarget t ls, q.1.target = some q.2

lemma numbered_append_iff : Numbered s t (ls ++ ms) ↔
    Numbered s t ls ∧ Numbered (s + ls.countP inSource) (t + ls.countP inTarget) ms := by
  constructor
  · rintro ⟨hs, ht⟩
    rw [numberedFrom_append, forall_mem_append] at hs ht
    exact ⟨⟨hs.1, ht.1⟩, hs.2, ht.2⟩
  · rintro ⟨⟨hs, ht⟩, hs', ht'⟩
    constructor
    · rw [numberedFrom_append, forall_mem_append]
      exact ⟨hs, hs'⟩
    · rw [numberedFrom_append, forall_mem_append]
      exact ⟨ht, ht'⟩

lemma forall_mem_numberedFrom_singleton {P : Line × Nat → Prop} :
    (∀ q ∈ numberedFrom side n [l], P q) ↔ (side l → P (l, n)) := by
  rw [numberedFrom_singleton]
  split <;> simp_all

lemma numbered_singleton_iff :
    Numbered s t [l] ↔ (l.inSource → l.source = some s) ∧ (l.inTarget → l.target = some t) := by
  constructor
  · rintro ⟨hs, ht⟩
    exact ⟨forall_mem_numberedFrom_singleton.1 hs, forall_mem_numberedFrom_singleton.1 ht⟩
  · rintro ⟨hs, ht⟩
    exact ⟨forall_mem_numberedFrom_singleton.2 hs, forall_mem_numberedFrom_singleton.2 ht⟩

lemma numbered_nil : Numbered s t [] := ⟨fun _ h => (nomatch h), fun _ h => (nomatch h)⟩

/-- A hunk whose lines carry their numbers, with as many lines in the new file as its header says. -/
structure Hunk.Sound (h : Hunk) : Prop where
  numbered : Numbered h.sourceStart h.targetStart h.lines
  full : h.lines.countP inTarget = h.targetLength

/-- A hunk being read whose lines carry their numbers, and whose next lines get the next ones. -/
structure OpenHunk.Sound (o : OpenHunk) : Prop where
  numbered : Numbered o.hunk.sourceStart o.hunk.targetStart o.hunk.lines
  source : o.sourceAt = o.hunk.sourceStart + o.hunk.lines.countP inSource
  target : o.targetAt = o.hunk.targetStart + o.hunk.lines.countP inTarget
  le : o.targetAt ≤ o.targetEnd

variable {o o' : OpenHunk} {h : Hunk} {f : PatchFile} {p p' : Patch} {c : Chars} {diff : String}

lemma ite_error_eq_ok_iff {ε α : Type} {b : Prop} [Decidable b] {e : ε} {x y : α} :
    (if b then error e else .ok x) = ok y ↔ ¬ b ∧ x = y := by
  by_cases hb : b <;> simp [hb]

/-- A line that is taken in gets the next numbers of its sides. -/
lemma OpenHunk.push_eq_ok {kind value} (hpush : o.push kind value = .ok o') :
    ∃ line, o'.hunk = { o.hunk with lines := o.hunk.lines ++ [line] } ∧ Numbered o.sourceAt o.targetAt [line] ∧
      o'.sourceAt = o.sourceAt + [line].countP inSource ∧
      o'.targetAt = o.targetAt + [line].countP inTarget ∧ o'.targetAt ≤ o.targetEnd := by
  cases kind <;>
    obtain ⟨hlong, rfl⟩ := ite_error_eq_ok_iff.1 hpush <;>
    refine ⟨_, rfl, numbered_singleton_iff.2 ⟨?_, ?_⟩, ?_⟩ <;>
    simp_all [inTarget, inSource]

lemma OpenHunk.Sound.push (ho : o.Sound) {kind value} (hpush : o.push kind value = .ok o') : o'.Sound := by
  obtain ⟨line, hhunk, hline, hsource, htarget, hle⟩ := OpenHunk.push_eq_ok hpush
  constructor
  · rw [hhunk]
    refine numbered_append_iff.2 ⟨ho.numbered, ?_⟩
    rwa [← ho.source, ← ho.target]
  · rw [hhunk, hsource, ho.source, countP_append, Nat.add_assoc]
  · rw [hhunk, htarget, ho.target, countP_append, Nat.add_assoc]
  · rwa [OpenHunk.targetEnd, hhunk]

/-- What is read of a hunk is sound once it is not short of lines. -/
lemma OpenHunk.Sound.close (ho : o.Sound) (hfull : o.targetEnd ≤ o.targetAt) : o.hunk.Sound := by
  refine ⟨ho.numbered, ?_⟩
  have := ho.target
  have := ho.le
  unfold OpenHunk.targetEnd at *
  omega

/-! ## Reading a diff -/

def PatchFile.Sound (f : PatchFile) : Prop := ∀ h ∈ f.hunks, h.Sound

/-- What has been read is sound. -/
structure Patch.Sound (p : Patch) : Prop where
  files : ∀ f ∈ p.files, f.Sound
  hunk : ∀ o, p.hunk = some o → o.Sound

lemma Patch.Sound.onLast {g} (hp : p.Sound) (hg : ∀ f, f.Sound → (g f).Sound) : (p.onLast g).Sound := by
  unfold Patch.onLast
  split
  · rename_i file hlast
    refine ⟨forall_mem_append.2 ⟨fun f hf => hp.files f ((dropLast_sublist _).subset hf), ?_⟩, hp.hunk⟩
    exact forall_mem_singleton.2 (hg file (hp.files file (mem_of_getLast? hlast)))
  · exact hp

lemma Patch.Sound.addFile (hp : p.Sound) (hf : f.hunks = []) : ∀ f' ∈ p.files ++ [f], f'.Sound := by
  refine forall_mem_append.2 ⟨hp.files, forall_mem_singleton.2 fun h hh => ?_⟩
  rw [hf] at hh
  cases hh

/-- What stands on neither side does not change the numbers. -/
lemma PatchFile.Sound.addToLastHunk (hf : f.Sound) (hs : l.inSource = false) (ht : l.inTarget = false) :
    (Patch.addToLastHunk f l).Sound := by
  unfold Patch.addToLastHunk
  split
  · rename_i last hlast
    have hsound := hf last (mem_of_getLast? hlast)
    refine forall_mem_append.2 ⟨fun h hh => hf h ((dropLast_sublist _).subset hh), forall_mem_singleton.2
      ⟨numbered_append_iff.2 ⟨hsound.numbered, numbered_singleton_iff.2 ?_⟩, ?_⟩⟩
    · simp [hs, ht]
    · simp [hsound.full, ht]
  · exact hf

lemma Patch.Sound.closeHunk (hp : p.Sound) (hh : h.Sound) : (p.closeHunk h).Sound := by
  have hlast : (p.onLast fun f => { f with hunks := f.hunks ++ [h] }).Sound :=
    hp.onLast fun f hf => forall_mem_append.2 ⟨hf, forall_mem_singleton.2 hh⟩
  exact ⟨hlast.files, fun o ho => nomatch ho⟩

lemma Patch.openHunk_sound {digits} (hof : hunkOf digits = .ok h) :
    (⟨h, h.sourceStart, h.targetStart⟩ : OpenHunk).Sound := by
  obtain ⟨a, -, hof⟩ := except_bind_eq_ok_iff.1 hof
  obtain ⟨b, -, hof⟩ := except_bind_eq_ok_iff.1 hof
  obtain ⟨c, -, hof⟩ := except_bind_eq_ok_iff.1 hof
  obtain ⟨d, -, hof⟩ := except_bind_eq_ok_iff.1 hof
  cases hof
  exact ⟨numbered_nil, rfl, rfl, Nat.le_add_right ..⟩

lemma Patch.Sound.readLine (hp : p.Sound) (hread : p.readLine c = .ok p') : p'.Sound := by
  unfold Patch.readLine at hread
  split at hread
  · cases hread
    exact ⟨hp.addFile rfl, hp.hunk⟩
  split at hread
  · split at hread <;> cases hread
    exact hp.onLast fun f hf => hf
  split at hread
  · split at hread <;> cases hread
    exact hp.onLast fun f hf => hf
  split at hread
  · cases hread
    exact ⟨hp.files, hp.hunk⟩
  split at hread
  · split at hread
    · split at hread <;> cases hread
      exact hp
    · split at hread <;> cases hread
      exact ⟨hp.addFile rfl, hp.hunk⟩
  split at hread
  · split at hread
    · obtain ⟨h, hof, hret⟩ := except_bind_eq_ok_iff.1 hread
      cases hret
      refine ⟨hp.files, fun o ho => ?_⟩
      cases ho
      exact openHunk_sound hof
    · cases hread
  split at hread
  · split at hread
    · split at hread <;> cases hread
      exact hp.onLast fun f hf => hf.addToLastHunk rfl rfl
    · cases hread
  split at hread
  · split at hread
    · split at hread <;> cases hread
      exact hp.onLast fun f hf => hf.addToLastHunk rfl rfl
    · cases hread
  · generalize hq : (if p.header then p else { p with current := false, header := true }) = q at hread
    have hqs : q.Sound := by
      rw [← hq]
      split
      · exact hp
      · exact ⟨hp.files, hp.hunk⟩
    split at hread <;> cases hread
    · exact hqs
    · split
      · have := hqs.onLast (g := fun f => { f with binary := true }) fun f hf => hf
        exact ⟨this.files, this.hunk⟩
      · exact ⟨hqs.addFile rfl, hqs.hunk⟩

lemma Patch.Sound.push (hp : p.Sound) (hpush : p.push c = .ok p') : p'.Sound := by
  unfold Patch.push at hpush
  split at hpush
  · exact hp.readLine hpush
  · rename_i o ho
    split at hpush
    · cases hpush
    · obtain ⟨o', hline, hret⟩ := except_bind_eq_ok_iff.1 hpush
      have ho' : o'.Sound := (hp.hunk o ho).push hline
      cases hret
      split
      · rename_i hcomplete
        refine hp.closeHunk (ho'.close ?_)
        simp only [OpenHunk.complete, Bool.and_eq_true, beq_iff_eq] at hcomplete
        exact Nat.le_of_eq hcomplete.2.symm
      · refine ⟨hp.files, fun o hsome => ?_⟩
        cases hsome
        exact ho'

lemma Patch.Sound.finish {files} (hp : p.Sound) (hfinish : p.finish = .ok files) : ∀ f ∈ files, f.Sound := by
  unfold Patch.finish at hfinish
  split at hfinish
  · cases hfinish
    exact hp.files
  · rename_i o ho
    obtain ⟨hshort, rfl⟩ := ite_error_eq_ok_iff.1 hfinish
    refine (hp.closeHunk ((hp.hunk o ho).close ?_)).files
    simp only [Bool.or_eq_true, decide_eq_true_eq, not_or, Nat.not_lt] at hshort
    exact hshort.2

/-- The lines of a diff that is read carry the numbers that the headers of its hunks say. -/
lemma Patch.sound_of_read {files} (hread : read diff = .ok files) : ∀ f ∈ files, f.Sound := by
  obtain ⟨p, hfold, hfinish⟩ := except_bind_eq_ok_iff.1 hread
  have hempty : Patch.Sound {} := ⟨fun f hf => (nomatch hf), fun o ho => (nomatch ho)⟩
  have hp : p.Sound := keeps_foldlM (P := Patch.Sound) (fun c _ p p' hp hpush => hp.push hpush) hempty hfold
  exact hp.finish hfinish

/-- Hunks of a file whose lines carry their numbers. -/
def FileDiff.Sound (f : FileDiff) : Prop := ∀ h ∈ f.hunks, h.Sound

/-- A parser numbers lines as the headers of the hunks say, and takes no hunk that is not full. -/
def Faithful (parse : String → Result (List FileDiff)) : Prop :=
  ∀ diff files, parse diff = .ok files → ∀ f ∈ files, f.Sound

lemma faithful_parse : Faithful parse := by
  intro diff files hparse f hf
  unfold parse at hparse
  split at hparse
  · cases hparse
    cases hf
  · rename_i read hread
    obtain ⟨p, hp, htoDiff⟩ := (of_mapM_ok hparse).2 f hf
    unfold PatchFile.toDiff at htoDiff
    split at htoDiff
    · cases htoDiff
      exact Patch.sound_of_read hread p hp
    · split at htoDiff <;> cases htoDiff

/-! ## Gathering the lines of the new file -/

/-- The lines of the new file that a hunk shows. -/
def Hunk.shown (h : Hunk) : List (Int × String) := h.targets.map fun q => ((q.2 : Int), q.1.value)

/-- A hunk adds a line of this number in the new file. -/
def Hunk.AddsAt (h : Hunk) (n : Int) : Prop := ∃ q ∈ h.targets, q.1.kind = .added ∧ n = q.2

/-- A hunk removes the line that had this number in the old file. -/
def Hunk.RemovesAt (h : Hunk) (n : Int) : Prop := ∃ q ∈ h.sources, q.1.kind = .removed ∧ n = q.2

lemma mem_addNumber {ns : List Int} {m n : Int} : n ∈ addNumber ns m ↔ n ∈ ns ∨ n = m := by
  unfold addNumber
  split
  · rename_i h
    exact ⟨.inl, fun hn => hn.elim id fun e => e ▸ contains_iff_mem.1 h⟩
  · simp

lemma mem_foldl_addNumber {ns ms : List Int} {n} : n ∈ ms.foldl addNumber ns ↔ n ∈ ns ∨ n ∈ ms := by
  induction ms generalizing ns with
  | nil => simp
  | cons m ms ih => rw [foldl_cons, ih, mem_addNumber, mem_cons, or_assoc]

namespace Gathered

variable {g g' g'' : Gathered}

/-- Between two states, lines were gathered that start at these numbers of the old and the new file. -/
structure Gains (s t : Nat) (ls : List Line) (g g' : Gathered) : Prop where
  lines : g'.lines = g.lines ++ (numberedFrom inTarget t ls).map fun q => ((q.2 : Int), q.1.value)
  added : ∀ n, n ∈ g'.added ↔ n ∈ g.added ∨ ∃ q ∈ numberedFrom inTarget t ls, q.1.kind = .added ∧ n = q.2
  removed : ∀ n, n ∈ g'.removed ↔ n ∈ g.removed ∨ ∃ q ∈ numberedFrom inSource s ls, q.1.kind = .removed ∧ n = q.2
  modified : g'.modified = g.modified

lemma Gains.append (h : Gains s t ls g g')
    (h' : Gains (s + ls.countP inSource) (t + ls.countP inTarget) ms g' g'') :
    Gains s t (ls ++ ms) g g'' := by
  constructor
  · rw [h'.lines, h.lines, numberedFrom_append, map_append, append_assoc]
  · intro n
    rw [h'.added, h.added, numberedFrom_append]
    simp only [mem_append, or_and_right, exists_or, or_assoc]
  · intro n
    rw [h'.removed, h.removed, numberedFrom_append]
    simp only [mem_append, or_and_right, exists_or, or_assoc]
  · rw [h'.modified, h.modified]

/-- One line is gathered under the number that it carries. -/
lemma gains_line (hl : Numbered s t [l]) (hpos : l.inTarget → 0 < t) : Gains s t [l] g (g.line l) := by
  obtain ⟨hs, ht⟩ := numbered_singleton_iff.1 hl
  have hnumber : l.inTarget → g.number l = t := by
    intro htarget
    obtain ⟨t, rfl⟩ := Nat.exists_eq_add_of_lt (hpos htarget)
    simp [number, ht htarget]
  cases hkind : l.kind <;> constructor <;>
    simp_all [line, numberedFrom_singleton, inTarget, inSource, mem_addNumber]

lemma gains_foldl_line (hls : Numbered s t ls) (hpos : 0 < ls.countP inTarget → 0 < t) :
    Gains s t ls g (ls.foldl line g) := by
  induction ls generalizing s t g with
  | nil => exact ⟨by simp [numberedFrom], by simp [numberedFrom], by simp [numberedFrom], rfl⟩
  | cons l ls ih =>
    obtain ⟨hl, hls⟩ := numbered_append_iff.1 (show Numbered s t ([l] ++ ls) from hls)
    rw [countP_cons] at hpos
    refine (gains_line (g := g) hl ?_).append (ih hls ?_)
    · intro htarget
      rw [if_pos htarget] at hpos
      omega
    · intro hrest
      omega

/-- Lines are modified only where lines are added. -/
lemma mem_modifiedIn {n} (hn : n ∈ modifiedIn ls) : ∃ l ∈ ls, l.kind = .added ∧ ∃ m ≠ 0, l.target = some m ∧ n = m := by
  induction ls with
  | nil => simp [modifiedIn] at hn
  | cons a rest ih =>
    cases rest with
    | nil => simp [modifiedIn] at hn
    | cons b rest =>
      rcases mem_append.1 hn with hn | hn
      · split at hn
        · rename_i hb _ ht
          split at hn
          · exact ⟨b, by simp, hb, _, by simp_all, ht, mem_singleton.1 hn⟩
          · cases hn
        · cases hn
      · obtain ⟨l, hl, h⟩ := ih hn
        exact ⟨l, mem_cons_of_mem _ hl, h⟩

lemma exists_mem_numberedFrom (hl : l ∈ ls) (hside : side l) : ∃ n, (l, n) ∈ numberedFrom side s ls := by
  have hmem : l ∈ (numberedFrom side s ls).map (·.1) := by
    unfold numberedFrom
    rw [zipIdx_map_fst]
    exact mem_filter.2 ⟨hl, hside⟩
  obtain ⟨⟨_, n⟩, hq, rfl⟩ := mem_map.1 hmem
  exact ⟨n, hq⟩

/-- Between two states, hunks were gathered. -/
structure Takes (hs : List Hunk) (g g' : Gathered) : Prop where
  lines : g'.lines = g.lines ++ hs.flatMap Hunk.shown
  added : ∀ n, n ∈ g'.added ↔ n ∈ g.added ∨ ∃ h ∈ hs, h.AddsAt n
  removed : ∀ n, n ∈ g'.removed ↔ n ∈ g.removed ∨ ∃ h ∈ hs, h.RemovesAt n
  modified : ∀ n ∈ g'.modified, n ∈ g.modified ∨ ∃ h ∈ hs, h.AddsAt n

lemma Takes.append {hs ks : List Hunk} (h : Takes hs g g') (h' : Takes ks g' g'') : Takes (hs ++ ks) g g'' := by
  constructor
  · rw [h'.lines, h.lines, flatMap_append, append_assoc]
  · intro n
    rw [h'.added, h.added]
    simp only [mem_append, or_and_right, exists_or, or_assoc]
  · intro n
    rw [h'.removed, h.removed]
    simp only [mem_append, or_and_right, exists_or, or_assoc]
  · intro n hn
    simp only [mem_append, or_and_right, exists_or, ← or_assoc]
    exact (h'.modified n hn).imp_left (h.modified n)

lemma takes_hunk (hh : h.Sound) (hpos : 0 < h.targetLength → 0 < h.targetStart) : Takes [h] g (g.hunk h) := by
  -- the number that the hunk starts at plays no part, since every line carries its own
  obtain ⟨g₀, hg₀, hlines, hadded, hremoved, hmodified⟩ : ∃ g₀,
      (if g.next < h.targetStart then { g with next := h.targetStart } else g) = g₀ ∧ g₀.lines = g.lines ∧
        g₀.added = g.added ∧ g₀.removed = g.removed ∧ g₀.modified = g.modified := by
    refine ⟨_, rfl, ?_⟩
    split <;> exact ⟨rfl, rfl, rfl, rfl⟩
  have hgains : Gains h.sourceStart h.targetStart h.lines g₀ (h.lines.foldl line g₀) :=
    gains_foldl_line hh.numbered (hh.full ▸ hpos)
  unfold hunk
  rw [hg₀]
  constructor
  · rw [← hlines, flatMap_singleton]
    exact hgains.lines
  · intro n
    rw [← hadded]
    simpa [Hunk.AddsAt, Hunk.targets] using hgains.added n
  · intro n
    rw [← hremoved]
    simpa [Hunk.RemovesAt, Hunk.sources] using hgains.removed n
  · intro n hn
    rw [mem_foldl_addNumber, hgains.modified, hmodified] at hn
    refine hn.imp_right fun hn => ?_
    obtain ⟨l, hl, hkind, m, -, htarget, rfl⟩ := mem_modifiedIn hn
    obtain ⟨k, hk⟩ := exists_mem_numberedFrom (s := h.targetStart) hl
      (show l.inTarget = true by simp [inTarget, hkind])
    obtain rfl : k = m := Option.some.inj ((hh.numbered.target _ hk).symm.trans htarget)
    exact ⟨h, mem_singleton_self h, (l, k), hk, hkind, rfl⟩

lemma takes_foldl_hunk {hs : List Hunk} (hsound : ∀ h ∈ hs, h.Sound)
    (hpos : ∀ h ∈ hs, 0 < h.targetLength → 0 < h.targetStart) : Takes hs g (hs.foldl hunk g) := by
  induction hs generalizing g with
  | nil => exact ⟨by simp, by simp, by simp, by simp⟩
  | cons h hs ih =>
    refine (takes_hunk (g := g) (hsound h mem_cons_self) (hpos h mem_cons_self)).append (ih ?_ ?_)
    · exact fun k hk => hsound k (mem_cons_of_mem _ hk)
    · exact fun k hk => hpos k (mem_cons_of_mem _ hk)

end Gathered

/-! ## Changed files -/

/-- The hunks of a file lie one after the other in the new file, whose lines are numbered from 1. -/
structure FileDiff.Ascending (f : FileDiff) : Prop where
  positive : ∀ h ∈ f.hunks, 0 < h.targetLength → 0 < h.targetStart
  apart : (f.hunks.filter (0 < ·.targetLength)).Pairwise fun a b => a.targetStart + a.targetLength ≤ b.targetStart

/-- A changed file shows what the hunks of a file say about the new file and the old one. -/
structure Shows (f : FileDiff) (c : ChangedFile) : Prop where
  lines : c.lines = f.hunks.flatMap Hunk.shown
  increasing : (c.lines.map (·.1)).Pairwise (· < ·)
  added : ∀ n, n ∈ c.added ↔ ∃ h ∈ f.hunks, h.AddsAt n
  removed : ∀ n, n ∈ c.removed ↔ ∃ h ∈ f.hunks, h.RemovesAt n
  modified : ∀ n ∈ c.modified, n ∈ c.added

variable {f : FileDiff}

lemma Hunk.map_fst_shown (h : Hunk) :
    h.shown.map (·.1) = (List.range' h.targetStart (h.lines.countP inTarget)).map fun (n : Nat) => (n : Int) := by
  unfold Hunk.shown Hunk.targets
  rw [← map_snd_numberedFrom, map_map, map_map]
  rfl

lemma Hunk.Sound.mem_shown (hh : h.Sound) {e} (he : e ∈ h.shown) :
    (h.targetStart : Int) ≤ e.1 ∧ e.1 < h.targetStart + h.targetLength := by
  have := mem_map_of_mem (f := (·.1)) he
  rw [h.map_fst_shown, hh.full] at this
  obtain ⟨n, hn, hne⟩ := mem_map.1 this
  rw [mem_range'_1] at hn
  omega

lemma pairwise_shown (hf : f.Sound) (hasc : f.Ascending) :
    ((f.hunks.flatMap Hunk.shown).map (·.1)).Pairwise (· < ·) := by
  rw [pairwise_map, pairwise_flatMap]
  constructor
  · intro h _
    have hnumbers : (h.shown.map (·.1)).Pairwise (· < ·) := by
      rw [h.map_fst_shown, pairwise_map]
      exact (pairwise_lt_range' 1 Nat.one_pos).imp Int.ofNat_lt.2
    exact pairwise_map.1 hnumbers
  · refine (pairwise_filter.1 hasc.apart).imp_of_mem ?_
    intro a b ha hb hapart x hx y hy
    have hxa := (hf a ha).mem_shown hx
    have hyb := (hf b hb).mem_shown hy
    have := hapart (by simp; omega) (by simp; omega)
    omega

lemma shows_ofPatch (hf : f.Sound) (hasc : f.Ascending) (path) : Shows f (ofPatch path f) := by
  have htakes : Gathered.Takes f.hunks {} (f.hunks.foldl Gathered.hunk {}) := Gathered.takes_foldl_hunk hf hasc.positive
  have hincreasing := pairwise_shown hf hasc
  have hlines : (ofPatch path f).lines = f.hunks.flatMap Hunk.shown := by
    simp only [ofPatch, htakes.lines]
    refine mergeSort_of_pairwise ((pairwise_map.1 hincreasing).imp fun hlt => ?_)
    exact decide_eq_true (Int.le_of_lt hlt)
  refine ⟨hlines, hlines ▸ hincreasing, ?_, ?_, ?_⟩
  · exact fun n => (htakes.added n).trans (by simp)
  · exact fun n => (htakes.removed n).trans (by simp)
  · exact fun n hn => (htakes.added n).2 (.inr ((htakes.modified n hn).resolve_left not_mem_nil))

/-! ## The changed files of a diff -/

variable {before after : List FileDiff} {files : List FileDiff} {entries : List (String × ChangedFile)}
  {parse : String → Result (List FileDiff)}

/-- A file that is listed: a text that is there after the change. -/
def FileDiff.Kept (f : FileDiff) : Prop := f.binary = false ∧ f.removed = false

lemma addFile_of_kept (entries) (hf : f.Kept) :
    addFile entries f = insert entries (normalPath f.path) (ofPatch (normalPath f.path) f) := by
  rw [addFile, hf.1, hf.2]
  rfl

lemma addFile_of_not_kept (entries) (hf : ¬ f.Kept) : addFile entries f = entries := by
  unfold FileDiff.Kept at hf
  grind [addFile]

lemma get?_addFile {c key} (hkey : f.Kept → normalPath f.path ≠ key) (hget : get? entries key = some c) :
    get? (addFile entries f) key = some c := by
  by_cases hf : f.Kept
  · rw [addFile_of_kept entries hf, get?_insert, if_neg (hkey hf).symm, hget]
  · rwa [addFile_of_not_kept entries hf]

lemma changedFilesBy_of_parse (hdiff : strip diff ≠ "") (hparse : parse diff = .ok files) :
    changedFilesBy parse diff = .ok (listFiles files) := by
  rw [changedFilesBy, if_neg (by simpa using hdiff), hparse]
  rfl

/-- Whatever parser reads a diff, if it is faithful then every text file of the diff that is not removed, and whose path
no later one has, is listed as it is after the change. -/
theorem lists_new_file (hparser : Faithful parse) (hdiff : strip diff ≠ "")
    (hparse : parse diff = .ok (before ++ f :: after)) (hkept : f.Kept)
    (hkey : ∀ g ∈ after, g.Kept → normalPath g.path ≠ normalPath f.path) (hasc : f.Ascending) :
    ∃ entries c, changedFilesBy parse diff = .ok entries ∧ get? entries (normalPath f.path) = some c ∧ Shows f c := by
  refine ⟨_, ofPatch (normalPath f.path) f, changedFilesBy_of_parse hdiff hparse, ?_, ?_⟩
  · rw [listFiles, List.foldl_append, List.foldl_cons, addFile_of_kept _ hkept]
    refine after.foldlRecOn (motive := fun entries => get? entries (normalPath f.path) = some _) addFile ?_ ?_
    · simp [get?_insert]
    · exact fun _ hget g hg => get?_addFile (hkey g hg) hget
  · exact shows_ofPatch (hparser diff _ hparse f (by simp)) hasc _

/-- Two hunks of a text file. -/
def twoHunks := "--- a/x\n+++ b/x\n@@ -1,2 +1,2 @@\n a\n-b\n+c\n@@ -8,1 +8,2 @@ f\n d\n+e\n"

def twoHunksFile : FileDiff where
  header := "a/x"
  path := "x"
  hunks := [
    { sourceStart := 1, sourceLength := 2, targetStart := 1, targetLength := 2
      lines := [⟨.context, "a\n", some 1, some 1⟩, ⟨.removed, "b\n", some 2, none⟩, ⟨.added, "c\n", none, some 2⟩] },
    { sourceStart := 8, sourceLength := 1, targetStart := 8, targetLength := 2
      lines := [⟨.context, "d\n", some 8, some 8⟩, ⟨.added, "e\n", none, some 9⟩] }]

lemma ascending_twoHunksFile : twoHunksFile.Ascending := ⟨by decide, by decide⟩

/-- A binary file is left out, and the text file before it is listed. -/
theorem lists_new_file_beside_binary :
    Diff.parse (twoHunks ++ "Binary files a/y and b/y differ\n") =
        .ok ([] ++ twoHunksFile :: [{ header := "a/y", path := "y", binary := true }]) ∧
      ∃ entries c, changedFilesBy Diff.parse (twoHunks ++ "Binary files a/y and b/y differ\n") = .ok entries ∧
        get? entries (normalPath twoHunksFile.path) = some c ∧ Shows twoHunksFile c := by
  have hparse : Diff.parse (twoHunks ++ "Binary files a/y and b/y differ\n") =
      .ok ([] ++ twoHunksFile :: [{ header := "a/y", path := "y", binary := true }]) := ok_of_toOption (by decide +kernel)
  have hdiff : strip (twoHunks ++ "Binary files a/y and b/y differ\n") ≠ "" := by decide +kernel
  refine ⟨hparse, lists_new_file faithful_parse hdiff hparse ⟨rfl, rfl⟩ ?_ ascending_twoHunksFile⟩
  exact List.forall_mem_singleton.mpr fun hkept => Bool.noConfusion hkept.1

end PatchReview.Diff
