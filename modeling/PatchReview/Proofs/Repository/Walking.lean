import Mathlib.Data.List.Nodup
import Mathlib.Data.List.Perm.Subperm
import PatchReview.Proofs.Diff.Paths
import PatchReview.Proofs.Expert.Ending
import PatchReview.Proofs.Files

/-!
# Walks over a repository

What a walk over the files below a directory comes to, and what of it depends on where the directory lies.
-/

namespace PatchReview

open Fields Files List Nat Path Text

/-! ## Texts of paths -/

lemma pieces_singleton (x s) : pieces [x] s = s.splitOn x := by
  suffices h : ∀ n, s.length ≤ n → piecesAux [x] n s = s.splitOn x from h _ (Nat.le_refl _)
  induction s with
  | nil => rintro (_ | n) _ <;> simp [piecesAux, breakOn?, dropLead?]
  | cons c s ih =>
    rintro (_ | n) hn
    · cases hn
    rw [splitOn_cons_eq_if_modifyHead, piecesAux, breakOn?, dropLead?]
    by_cases hc : x = c
    · rw [if_pos hc, if_pos (by simpa using hc.symm), ← ih n (le_of_succ_le_succ hn)]
      rfl
    · rw [if_neg hc, if_neg (by simpa using Ne.symm hc), ← ih (n + 1) (le_of_succ_le hn), piecesAux]
      cases breakOn? [x] s <;> rfl

lemma substitute_of_notMem {x s} (h : x ∉ s.toList) (new) : substitute (String.ofList [x]) new s = s := by
  rw [substitute, joinWith, cutAt, String.toList_ofList, pieces_singleton, splitOn_eq_singleton h, map_singleton,
    String.ofList_toList, String.intercalate_singleton]

/-- A name that is one part of a path. -/
structure FileName (s : String) : Prop where
  slash : '/' ∉ s.toList
  ne_empty : s ≠ ""
  ne_dot : s ≠ "."

namespace FileTree

/-- Names that lead somewhere. -/
def Named (p : Trail) : Prop := p ≠ [] ∧ ∀ c ∈ p, FileName c

lemma Named.splitOn_joinWith {p} (hp : Named p) : (joinWith "/" p).toList.splitOn '/' = p.map String.toList := by
  rw [joinWith, String.toList_intercalate]
  exact splitOn_intercalate '/' (forall_mem_map.2 fun c hc => (hp.2 c hc).slash) (by simpa using hp.1)

/-- A path does not start with what is none of its names, followed by a slash. -/
lemma Named.dropLead?_eq_none {p lead} (hp : Named p) (hlead : '/' ∉ lead) (hno : ¬ FileName (String.ofList lead)) (t) :
    dropLead? (lead ++ '/' :: t) (joinWith "/" p).toList = none := by
  rw [← Option.not_isSome_iff_eq_none, isSome_dropLead?]
  rintro ⟨r, hr⟩
  have hhead := congrArg head? hp.splitOn_joinWith
  have hnot : ∀ c ∈ lead, (c == '/') = false := fun c hc => beq_false_of_ne fun h => hlead (h ▸ hc)
  rw [← hr, append_assoc, cons_append, splitOn, splitOnP_append_cons_of_forall_mem hnot _ (by simp), head?_map] at hhead
  obtain ⟨d, hd, rfl⟩ := Option.map_eq_some_iff.1 hhead.symm
  exact hno (String.ofList_toList ▸ hp.2 d (mem_of_head? hd))

lemma Named.ofString {p} (hp : Named p) : ofString (joinWith "/" p) = ⟨"", p⟩ := by
  have hbegin (t) : beginsWith (String.ofList ('/' :: t)) (joinWith "/" p) = false := by
    have hnone := hp.dropLead?_eq_none not_mem_nil (fun h => h.ne_empty rfl) t
    rw [beginsWith, String.toList_ofList, show dropLead? ('/' :: t) _ = none from hnone]
    rfl
  have hcut : cutAt "/" (joinWith "/" p) = p := by
    change (pieces ['/'] (joinWith "/" p).toList).map String.ofList = p
    simp [pieces_singleton, hp.splitOn_joinWith]
  unfold Path.ofString
  rw [show beginsWith "//" _ = false from hbegin ['/'], show beginsWith "/" _ = false from hbegin [], hcut]
  have hparts : p.filter (fun c => c != "" && c != ".") = p :=
    filter_eq_self.2 fun c hc => by simp [(hp.2 c hc).ne_empty, (hp.2 c hc).ne_dot]
  rw [hparts]
  rfl

end FileTree

lemma FileName.div {s} (h : FileName s) (p : Path) : p / s = ⟨p.root, p.parts ++ [s]⟩ := by
  have hof : ofString (joinWith "/" [s]) = ⟨"", [s]⟩ := FileTree.Named.ofString ⟨cons_ne_nil _ _, by simpa using h⟩
  rw [joinWith, String.intercalate_singleton] at hof
  change p.append (ofString s) = _
  rw [hof]
  rfl

namespace FileTree

/-- The text of a path below another one goes on after it. -/
lemma toString_pathOf_append (base : Trail) {p : Trail} (hp : p ≠ []) : (pathOf (base ++ p)).toString =
      (pathOf base).toString ++ (if base = [] then "" else "/") ++ joinWith "/" p := by
  have htext (q) : (pathOf q).toString = "/" ++ joinWith "/" q := by
    have hne : ("/" ++ joinWith "/" q == "") = false := by
      rw [beq_eq_false_iff_ne, Ne, ← String.toList_inj, String.toList_append]
      exact cons_ne_nil _ _
    change (if "/" ++ joinWith "/" q == "" then "." else "/" ++ joinWith "/" q) = _
    rw [hne, if_neg Bool.false_ne_true]
  rw [htext, htext]
  split <;> rename_i hbase
  · simp [hbase, joinWith]
  · simp only [joinWith, String.intercalate_append_of_ne_nil hbase hp, String.append_assoc]

lemma joinWith_le {base p q : Trail} (hp : p ≠ []) (hq : q ≠ [])
    (h : (pathOf (base ++ p)).toString ≤ (pathOf (base ++ q)).toString) : joinWith "/" p ≤ joinWith "/" q := by
  rw [toString_pathOf_append base hp, toString_pathOf_append base hq] at h
  by_contra hlt
  refine h ?_
  simp only [String.lt_iff, String.toList_append]
  exact append_left_lt (String.lt_iff.1 (Std.not_le.1 hlt))

/-! ## Places of a tree -/

/-- A place that directories lead to from the root. -/
inductive Stands (t : FileTree) : Trail → Prop
  | root : Stands t []
  | step {q : Trail} {c : String} {e : Entry} : Stands t q → t.entry? q = some .directory → c ≠ ".." →
      c.utf8ByteSize ≤ nameLimit → t.entry? (q ++ [c]) = some e → Stands t (q ++ [c])

variable {t : FileTree} {p q base rel : Trail} {c : String} {e : Entry}

namespace Stands

lemma directory_of_append (h : Stands t (p ++ q)) (hq : q ≠ []) : t.entry? p = some .directory := by
  generalize hpq : p ++ q = r at h
  induction h generalizing q with
  | root => exact absurd (append_eq_nil_iff.1 hpq).2 hq
  | step _ hdir _ _ _ ih =>
    obtain ⟨q, d, rfl⟩ := (eq_nil_or_concat' q).resolve_left hq
    rw [← append_assoc] at hpq
    obtain ⟨rfl, _⟩ := append_inj' hpq rfl
    by_cases hnil : q = []
    · rwa [hnil, append_nil] at hdir
    · exact ih hnil rfl

lemma exists_entry (h : Stands t (p ++ q)) : ∃ e, t.entry? p = some e := by
  by_cases hq : q = []
  · rw [hq, append_nil] at h
    cases h with
    | root => exact ⟨_, rfl⟩
    | step _ _ _ _ he => exact ⟨_, he⟩
  · exact ⟨_, h.directory_of_append hq⟩

lemma followWith (h : Stands t q) (hdir : t.entry? q = some .directory) (jump rest) :
    t.followWith jump [] (q ++ rest) = t.followWith jump q rest := by
  induction h generalizing rest with
  | root => rfl
  | step _ hup hc hshort _ ih =>
    rw [append_assoc, ih hup, singleton_append, FileTree.followWith, if_neg (by simpa using hc),
      if_neg (Nat.not_lt.2 hshort)]
    dsimp only
    rw [hdir]

/-- A path without links leads where it says. -/
lemma locate (h : Stands t q) (he : t.entry? q = some e) (hlink : ∀ target, e ≠ .link target)
    (hshort : (pathOf q).toString.utf8ByteSize < pathLimit) (cwd) : t.locate cwd (pathOf q) = .ok q := by
  rw [FileTree.locate, if_neg (Nat.not_le.2 hshort)]
  change t.followWith _ [] q = _
  cases h with
  | root => rfl
  | step hq hup hc hname _ =>
    rw [hq.followWith hup, FileTree.followWith, if_neg (by simpa using hc), if_neg (Nat.not_lt.2 hname)]
    dsimp only
    rw [he]
    cases e with
    | link target => exact absurd rfl (hlink target)
    | _ => rfl

lemma resolve (h : Stands t q) (he : t.entry? q = some e) (hlink : ∀ target, e ≠ .link target)
    (hclean : holdsNull (pathOf q) = false) (cwd) : t.resolve cwd (pathOf q) = .ok (pathOf q) := by
  have hwith (jump rest) : t.resolveWith jump [] [] (q ++ rest) = t.resolveWith jump [] q rest := by
    clear hclean
    induction h generalizing rest e with
    | root => rfl
    | step _ hup hc _ _ ih =>
      rw [append_assoc, ih hup nofun, singleton_append, resolveWith, if_neg (by simpa using hc)]
      dsimp only
      rw [he]
      cases e with
      | link target => exact absurd rfl (hlink target)
      | _ => rfl
  have hparts : t.resolveParts t.entries.length [] (if (pathOf q).isAbsolute = true then [] else cwd)
      (pathOf q).parts = (q, true) := by
    have hrest := append_nil q ▸ (hwith · [])
    cases hn : t.entries.length <;> exact hrest _
  rw [FileTree.resolve, hclean, hparts]
  rfl

end Stands

lemma mem_entries (h : t.entry? p = some e) (hp : p ≠ []) : (p, e) ∈ t.entries := by
  rw [ entry?, if_neg (by simpa using hp)] at h
  obtain ⟨⟨_, _⟩, hfind, rfl⟩ := Option.map_eq_some_iff.1 h
  obtain rfl : _ = p := by simpa using find?_some hfind
  exact mem_of_find?_eq_some hfind

/-- A place has no more names than there are entries, since each of its names leads to another one. -/
lemma Stands.length_le (h : Stands t q) : q.length ≤ t.entries.length := by
  have hnodup : ((range q.length).map fun n => q.take (n + 1)).Nodup := by
    refine nodup_range.map_on fun m hm n hn hmn => ?_
    have hlength := congrArg length hmn
    rw [mem_range] at hm hn
    rw [length_take, length_take] at hlength
    omega
  have hsub : ((range q.length).map fun n => q.take (n + 1)) ⊆ t.entries.map (·.1) := by
    refine fun p hp => ?_
    obtain ⟨n, hn, rfl⟩ := mem_map.1 hp
    obtain ⟨e, he⟩ := Stands.exists_entry ((take_append_drop (n + 1) q).symm ▸ h)
    have hne : q ≠ [] := ne_nil_of_length_pos (zero_lt_of_lt (mem_range.1 hn))
    exact mem_map_of_mem (mem_entries he (by simp [hne]))
  have hlength := (hnodup.subperm hsub).length_le
  rwa [length_map, length_map, length_range] at hlength

/-- Names can be told from their path. -/
lemma Named.joinWith_inj (hp : Named p) (hq : Named q) (h : joinWith "/" p = joinWith "/" q) : p = q := by
  have hmap := hp.splitOn_joinWith.symm.trans (h ▸ hq.splitOn_joinWith)
  exact (map_injective_iff.2 fun _ _ => String.toList_inj.1) hmap

lemma Named.toString_relative (hp : Named p) : (⟨"", p⟩ : Path).toString = joinWith "/" p := by
  have hne : joinWith "/" p ≠ "" := by
    intro heq
    have hsplit := hp.splitOn_joinWith
    rw [heq] at hsplit
    obtain ⟨c, rfl, hc⟩ := map_eq_singleton_iff.1 hsplit.symm
    exact (hp.2 c (mem_singleton.2 rfl)).ne_empty (String.toList_eq_nil_iff.1 hc)
  exact if_neg (by simpa using hne)

/-- A directory tree lies at a place: its entries are reached by directories, and their paths can be looked up. -/
structure Seated (t : FileTree) (base : Trail) : Prop where
  nodup : (t.entries.map (·.1)).Nodup
  directory : t.entry? base = some .directory
  stands : ∀ rel e, t.entry? (base ++ rel) = some e → Stands t (base ++ rel)
  names : ∀ rel e, t.entry? (base ++ rel) = some e → ∀ c ∈ rel, FileName c
  short : ∀ rel e, t.entry? (base ++ rel) = some e → (pathOf (base ++ rel)).toString.utf8ByteSize < pathLimit
  clean : ∀ rel e, t.entry? (base ++ rel) = some e → holdsNull (pathOf (base ++ rel)) = false
  linked : ∀ rel target, t.entry? (base ++ rel) = some (.link target) → ∃ e, t.find? [] (pathOf (base ++ rel)) = .ok e

lemma child_eq_some_iff {f} :
    (if p.length == q.length + 1 && p.take q.length == q then p.getLast?.map ((·, f)) else none) = some (c, e) ↔
      p = q ++ [c] ∧ f = e := by
  obtain rfl | ⟨p, d, rfl⟩ := eq_nil_or_concat' p
  · simp
  · have hparent : p.length = q.length ∧ (p ++ [d]).take q.length = q ↔ p = q := by
      constructor
      · rintro ⟨hlength, htake⟩
        rwa [← hlength, take_left] at htake
      · rintro rfl
        exact ⟨rfl, take_left⟩
    simp [← and_assoc, hparent]

/-- The paths from a directory to what is at or below a place there and no directory, to a depth. -/
def leaves (t : FileTree) (base : Trail) : Nat → Trail → List Trail
  | 0, _ => []
  | n + 1, p => if isDirectory (t.entry? (base ++ p)) then
      (t.children (base ++ p)).flatMap fun x => leaves t base n (p ++ [x.1])
    else [p]

lemma leaves_of_directory (hdir : t.entry? (base ++ p) = some .directory) (n) :
    t.leaves base (n + 1) p = (t.children (base ++ p)).flatMap fun x => t.leaves base n (p ++ [x.1]) := by
  rw [leaves, hdir]
  rfl

lemma prefix_of_mem_leaves {n} (h : p ∈ t.leaves base n q) : q <+: p := by
  induction n generalizing q with
  | zero => cases h
  | succ n ih =>
    rw [leaves] at h
    split at h
    · obtain ⟨x, _, h⟩ := mem_flatMap.1 h
      exact (prefix_append q [x.1]).trans (ih h)
    · exact mem_singleton.1 h ▸ prefix_refl q

namespace Seated

variable (h : Seated t base)

include h

lemma entry_base : t.entry? (base ++ []) = some .directory := (append_nil base).symm ▸ h.directory

lemma mem_children : (c, e) ∈ t.children q ↔ t.entry? (q ++ [c]) = some e := by
  rw [children, mem_filterMap]
  constructor
  · rintro ⟨⟨p, f⟩, hp, hchild⟩
    obtain ⟨rfl, rfl⟩ := child_eq_some_iff.1 hchild
    have hsome : (t.entries.find? (·.1 == q ++ [c])).isSome := find?_isSome.2 ⟨_, hp, beq_self_eq_true _⟩
    obtain ⟨x, hx⟩ := Option.isSome_iff_exists.1 hsome
    have heq : x = (q ++ [c], f) :=
      inj_on_of_nodup_map h.nodup (mem_of_find?_eq_some hx) hp (by simpa using find?_some hx)
    rw [ entry?, if_neg (by simp), hx, heq]
    rfl
  · exact fun he => ⟨_, mem_entries he (by simp), child_eq_some_iff.2 ⟨rfl, rfl⟩⟩

lemma nodup_children (q) : ((t.children q).map (·.1)).Nodup := by
  refine pairwise_map.2 (Pairwise.filterMap _ ?_ (pairwise_map.1 h.nodup))
  rintro ⟨p, f⟩ ⟨p', f'⟩ hne ⟨c, e⟩ hc ⟨c', e'⟩ hc' heq
  obtain rfl : c = c' := heq
  exact hne ((child_eq_some_iff.1 hc).1.trans (child_eq_some_iff.1 hc').1.symm)

lemma child (hc : (c, e) ∈ t.children (base ++ rel)) : t.entry? (base ++ (rel ++ [c])) = some e ∧ FileName c := by
  rw [h.mem_children, append_assoc] at hc
  exact ⟨hc, h.names _ _ hc c (by simp)⟩

lemma mem_leaves {n} (he : t.entry? (base ++ rel) = some e) :
    p ∈ t.leaves base n rel ↔ ∃ r, p = rel ++ r ∧ r.length < n ∧
      ∃ f, t.entry? (base ++ p) = some f ∧ isDirectory (some f) = false := by
  induction n generalizing rel e with
  | zero => simp [leaves]
  | succ n ih =>
    cases hdir : isDirectory (some e) with
    | false =>
      rw [leaves, he, hdir, if_neg Bool.false_ne_true, mem_singleton]
      constructor
      · rintro rfl
        exact ⟨[], by simp, succ_pos n, e, he, hdir⟩
      · rintro ⟨r, rfl, -, f, hf, -⟩
        have hstands := h.stands _ f hf
        by_cases hr : r = []
        · rw [hr, append_nil]
        · rw [← append_assoc] at hstands
          cases he.symm.trans (hstands.directory_of_append hr)
          cases hdir
    | true =>
      rw [leaves, he, hdir, if_pos rfl, mem_flatMap]
      constructor
      · rintro ⟨⟨c, f⟩, hc, hp⟩
        obtain ⟨r, rfl, hr, hp⟩ := (ih (h.child hc).1).1 hp
        exact ⟨c :: r, by simp, succ_lt_succ hr, hp⟩
      · rintro ⟨_ | ⟨c, r⟩, rfl, hr, f, hf, hnot⟩
        · rw [append_nil, he] at hf
          cases hf
          cases hdir.symm.trans hnot
        · have hstands := h.stands _ f hf
          rw [append_cons, ← append_assoc base] at hstands
          obtain ⟨g, hg⟩ := hstands.exists_entry
          exact ⟨(c, g), h.mem_children.2 (append_assoc base rel [c] ▸ hg),
            (ih hg).2 ⟨r, by simp, lt_of_succ_lt_succ hr, f, hf, hnot⟩⟩

lemma nodup_leaves (n q) : (t.leaves base n q).Nodup := by
  induction n generalizing q with
  | zero => exact nodup_nil
  | succ n ih =>
    rw [leaves]
    split
    · refine nodup_flatMap.2 ⟨fun _ _ => ih _, (pairwise_map.1 (h.nodup_children _)).imp ?_⟩
      intro x y hne p hx hy
      have hlength : (q ++ [x.1]).length = (q ++ [y.1]).length := by simp
      have hlead := prefix_of_prefix_length_le (prefix_of_mem_leaves hx) (prefix_of_mem_leaves hy)
        (Nat.le_of_eq hlength)
      exact hne (singleton_inj.1 (append_cancel_left (hlead.eq_of_length hlength)))
    · exact nodup_singleton q

lemma named (he : t.entry? (base ++ rel) = some e) (hnot : isDirectory (some e) = false) : Named rel := by
  refine ⟨?_, h.names rel e he⟩
  rintro rfl
  cases h.entry_base.symm.trans he
  cases hnot

lemma find? (he : t.entry? (base ++ rel) = some e) (hlink : ∀ target, e ≠ .link target) (cwd) :
    t.find? cwd (pathOf (base ++ rel)) = .ok (some e) :=
  find?_eq_some_iff.2
    ⟨h.clean rel e he, _, (h.stands rel e he).locate he hlink (h.short rel e he) cwd, he⟩

end Seated

end FileTree

/-! ## Looking at files -/

namespace Files

open Action

variable {p : Path} {w : Workspace}

lemma isFile_apply {e} (h : w.files.find? w.cwd p = .ok e) : isFile p w = (.ok (FileTree.isFile e), w) := by
  rw [isFile, bind_apply, entry?_apply, h]
  rfl

lemma readBytes_apply {c m} (h : w.files.find? w.cwd p = .ok (some (.file c m))) : readBytes p w = (.ok (match c with
      | .bytes b => b
      | .index _ => []), w) := by
  rw [readBytes, bind_of_ok (content_eq_ok_iff.2 ⟨rfl, m, h⟩)]
  cases c <;> rfl

end Files

/-- Steps that each give lists, in some order, give all of them together. -/
lemma Action.exists_mapM_perm {α β γ : Type} {f : α → Action β} {k : β → List γ} {g : α → List γ} {l : List α} {w}
    (h : ∀ x ∈ l, ∃ y, f x w = (.ok y, w) ∧ k y ~ g x) :
    ∃ ys, l.mapM f w = (.ok ys, w) ∧ ys.flatMap k ~ l.flatMap g := by
  induction l with
  | nil => exact ⟨[], rfl, .nil⟩
  | cons a l ih =>
    obtain ⟨⟨y, hy, hperm⟩, hl⟩ := forall_mem_cons.1 h
    obtain ⟨ys, hys, hperms⟩ := ih hl
    refine ⟨y :: ys, ?_, hperm.append hperms⟩
    rw [mapM_cons, bind_of_ok hy, bind_of_ok hys]
    rfl

namespace Repository

open Action FileTree

variable {w w' : Workspace} {base base' rel : Trail}

section

variable (h : Seated w.files base)

include h

lemma list_apply (hdir : w.files.entry? (base ++ rel) = some .directory) :
    list (pathOf (base ++ rel)) w = (.ok (w.files.children (base ++ rel)), w) := by
  have hplace : place (pathOf (base ++ rel)) w = (.ok (base ++ rel), w) := place_eq_ok_iff.2
    ⟨rfl, h.clean rel _ hdir, (h.stands rel _ hdir).locate hdir nofun (h.short rel _ hdir) w.cwd⟩
  rw [list, bind_of_ok hplace, bind_of_ok (get_apply w), hdir]
  rfl

lemma resolve_apply : resolve (pathOf base) w = (.ok (pathOf base), w) := by
  have hstands := h.stands [] _ h.entry_base
  have hclean := h.clean [] _ h.entry_base
  rw [append_nil] at hstands hclean
  exact (ofExcept_apply _ w).trans (hstands.resolve h.directory nofun hclean w.cwd ▸ rfl)

lemma find?_base : w.files.find? w.cwd (pathOf base) = .ok (some .directory) :=
  append_nil base ▸ h.find? h.entry_base nofun w.cwd

end

lemma isDirectory_apply {p} (h : w.files.find? w.cwd p = .ok (some .directory)) : isDirectory p w = (.ok true, w) :=
  isDirectory_eq_ok_iff.2 ⟨rfl, _, h, rfl⟩

/-! ## Scans -/

/-- The directories among entries. -/
def innerNames (l : List (String × Entry)) : Strings :=
  l.filterMap fun (name, e) => match e with
    | .directory => some name
    | _ => none

lemma mem_innerNames {c l} : c ∈ innerNames l ↔ (c, .directory) ∈ l := by
  rw [innerNames, mem_filterMap]
  constructor
  · rintro ⟨⟨_, _ | _ | _⟩, hmem, hc⟩ <;> cases hc
    exact hmem
  · exact fun h => ⟨_, h, rfl⟩

lemma outer_append_inner_perm {β : Type} (f : String → β) (g l) : (l.filterMap fun (name, e) => match e with
      | .directory => none
      | _ => some (f name)) ++ (innerNames l).flatMap g ~
      l.flatMap fun x => if isDirectory (some x.2) then g x.1 else [f x.1] := by
  induction l with
  | nil => exact .nil
  | cons x l ih =>
    obtain ⟨c, _ | _ | _⟩ := x
    · exact (perm_append_comm_assoc _ _ _).trans (ih.append_left _)
    · exact ih.cons _
    · exact ih.cons _

lemma exists_filesUnder (h : Seated w.files base) (n : Nat) (hdir : w.files.entry? (base ++ rel) = some .directory) :
    ∃ ps, filesUnder n (pathOf (base ++ rel)) w = (.ok ps, w) ∧
      ps ~ (w.files.leaves base (n + 1) rel).map fun p => pathOf (base ++ p) := by
  induction n generalizing rel with
  | zero =>
    rw [leaves_of_directory hdir]
    exact ⟨[], rfl, .of_eq (by simp [leaves])⟩
  | succ n ih =>
    have hinner : ∀ c ∈ innerNames (w.files.children (base ++ rel)),
        ∃ ps, filesUnder n (pathOf (base ++ rel) / c) w = (.ok ps, w) ∧
          id ps ~ (w.files.leaves base (n + 1) (rel ++ [c])).map fun p => pathOf (base ++ p) := by
      intro c hc
      obtain ⟨he, hname⟩ := h.child (mem_innerNames.1 hc)
      rw [hname.div]
      exact append_assoc base rel [c] ▸ ih he
    obtain ⟨below, hbelow, hperm⟩ := exists_mapM_perm hinner
    rw [filesUnder, bind_of_ok (list_apply h hdir)]
    refine ⟨_, bind_of_ok hbelow, ?_⟩
    rw [flatMap_id] at hperm
    refine (hperm.append_left _).trans ((outer_append_inner_perm _ _ _).trans ?_)
    rw [leaves_of_directory hdir, map_flatMap]
    refine .of_eq (flatMap_congr fun x hx => ?_)
    obtain ⟨he, hname⟩ := h.child hx
    split
    · rfl
    · rename_i hnot
      rw [leaves, he, if_neg hnot, hname.div]
      exact congrArg (fun p => [pathOf p]) (append_assoc ..)

lemma exists_files (h : Seated w.files base) : ∃ rels : List Trail,
      filesUnder (w.files.entries.length + 1) (pathOf base) w = (.ok (rels.map fun rel => pathOf (base ++ rel)), w) ∧
      rels.Nodup ∧ ∀ rel, rel ∈ rels ↔ ∃ e, w.files.entry? (base ++ rel) = some e ∧ isDirectory (some e) = false := by
  obtain ⟨files, hfiles, hperm⟩ := exists_filesUnder h (w.files.entries.length + 1) h.entry_base
  rw [append_nil] at hfiles
  obtain ⟨rels, hrels, hleaves⟩ := perm_comp_forall₂ (r := fun p rel => p = pathOf (base ++ rel)) hperm
    (forall₂_map_left_iff.2 (forall₂_same.2 fun _ _ => rfl))
  obtain rfl : files = rels.map fun rel => pathOf (base ++ rel) := forall₂_eq_eq_eq ▸ forall₂_map_right_iff.2 hrels
  refine ⟨rels, hfiles, hleaves.nodup_iff.2 (h.nodup_leaves ..), fun rel => ?_⟩
  rw [hleaves.mem_iff, h.mem_leaves h.entry_base]
  constructor
  · rintro ⟨_, -, -, hleaf⟩
    exact hleaf
  · rintro ⟨e, he, hnot⟩
    have hlength := (h.stands rel e he).length_le
    rw [length_append] at hlength
    exact ⟨rel, rfl, by omega, e, he, hnot⟩

def contentOf : Option Entry → Option Content
  | some (.file c _) => some c
  | _ => none

/-- What the file holds that stands at a place or that a link there leads to. -/
def held (w : Workspace) (q : Trail) : Option Content :=
  match w.files.entry? q, w.files.find? w.cwd (pathOf q) with
  | some _, .ok e => contentOf e
  | _, _ => none

def sizeOf : Content → Nat
  | .bytes b => b.length
  | .index _ => 0

/-- The language under which a scan keeps a file by its content and by a path of it. -/
def verdict (o : ScanOptions) (p : Path) (c : Content) : Option String :=
  if p.allParts.any o.excludes.contains || o.maxBytes < (sizeOf c : Int) then none
  else (Syntax.Language.ofPath? p).filter fun lang => o.languages.isEmpty || o.languages.contains lang

lemma scanned?_apply {p} {e : Option Entry} (h : w.files.find? w.cwd p = .ok e) (o : ScanOptions) :
    scanned? o p w = (.ok ((contentOf e).bind (verdict o p)), w) := by
  unfold scanned?
  rw [bind_of_ok (isFile_apply h)]
  rcases e with _ | ⟨⟨⟩ | ⟨c, m⟩ | _⟩
  · rfl
  · rfl
  · rw [contentOf, Option.bind_some, verdict]
    cases hex : p.allParts.any o.excludes.contains with
    | true => rfl
    | false =>
      have hlength : size p w = (.ok (sizeOf c), w) := by
        rw [Files.size, bind_of_ok (readBytes_apply h)]
        cases c <;> rfl
      refine (bind_of_ok hlength).trans ?_
      by_cases hsize : o.maxBytes < (sizeOf c : Int)
      · rw [if_pos hsize, decide_eq_true hsize]
        rfl
      · rw [if_neg hsize, decide_eq_false hsize]
        cases Syntax.Language.ofPath? p <;> rfl
  · rfl

lemma exists_foldlM_addTo (o) {v : Path → Option String} {files : List Path}
    (hv : ∀ p ∈ files, scanned? o p w = (.ok (v p), w)) (groups) : ∃ groups', (files.foldlM (fun groups p => do
        match ← scanned? o p with
        | some lang => return addTo groups lang p
        | none => return groups) groups : Action _) w = (.ok groups', w) ∧ ∀ lang, (get? groups' lang).getD [] =
      (get? groups lang).getD [] ++ files.filter (v · == some lang) := by
  induction files generalizing groups with
  | nil => exact ⟨groups, rfl, fun _ => (append_nil _).symm⟩
  | cons p files ih =>
    obtain ⟨hp, hfiles⟩ := forall_mem_cons.1 hv
    obtain ⟨groups', hrun, hget⟩ := ih hfiles (match v p with
      | some lang => addTo groups lang p
      | none => groups)
    refine ⟨groups', ?_, fun lang => ?_⟩
    · rw [foldlM_cons]
      refine (bind_of_ok (v := w) ?_).trans hrun
      rw [bind_of_ok hp]
      cases v p <;> rfl
    · rw [hget, filter_cons]
      cases hlang : v p with
      | none => rfl
      | some l =>
        dsimp only
        rw [addTo, get?_insert]
        by_cases heq : lang = l
        · simp [heq]
        · simp [heq, Ne.symm heq]

lemma getD_get?_map (f : List Path → List Path) (hf : f [] = []) (groups lang) :
    (get? (groups.map fun x => (x.1, f x.2)) lang).getD [] = f ((get? groups lang).getD []) := by
  induction groups with
  | nil => exact hf.symm
  | cons x groups ih =>
    rw [map_cons, get?_cons, get?_cons]
    split
    · rfl
    · exact ih

/-- A directory is closed to a scan if its own path holds a name that is left out. -/
def isShut (o : ScanOptions) (base : Trail) : Bool := (pathOf base).allParts.any o.excludes.contains

/-- The language under which a scan keeps what stands at a place below a directory, by its path from there. -/
def keptAs (w : Workspace) (base : Trail) (o : ScanOptions) (rel : Trail) : Option String :=
  (held w (base ++ rel)).bind (verdict o ⟨"", rel⟩)

lemma suffix_below (base) (hrel : rel ≠ []) : (pathOf (base ++ rel)).suffix = (⟨"", rel⟩ : Path).suffix := by
  unfold suffix name pathOf
  rw [getLast?_append_of_ne_nil _ hrel]

lemma verdict_append (o base) (hrel : rel ≠ []) (c) :
    verdict o (pathOf (base ++ rel)) c = if isShut o base then none else verdict o ⟨"", rel⟩ c := by
  have hparts : (pathOf (base ++ rel)).allParts.any o.excludes.contains =
      (isShut o base || (⟨"", rel⟩ : Path).allParts.any o.excludes.contains) :=
    (any_append : ("/" :: base ++ rel).any _ = _)
  unfold verdict Syntax.Language.ofPath?
  rw [hparts, suffix_below base hrel]
  cases isShut o base <;> simp

/-- A scan finds files at these places below a directory for each language, in this order. -/
def Finds (w : Workspace) (base : Trail) (o : ScanOptions) (found : String → List Trail) : Prop :=
  ∃ groups, scan (pathOf base) o w = (.ok groups, w) ∧
    ∀ lang, (get? groups lang).getD [] = (found lang).map fun rel => pathOf (base ++ rel)

section

variable (h : Seated w.files base) (o : ScanOptions)

include h

/-- What a scan can keep is no directory. -/
lemma not_directory_of_held {c} (hheld : held w (base ++ rel) = some c) :
    ∃ e, w.files.entry? (base ++ rel) = some e ∧ isDirectory (some e) = false := by
  rw [held] at hheld
  split at hheld
  · rename_i e _ he hfind
    refine ⟨e, he, ?_⟩
    cases e with
    | directory =>
      cases (h.find? he nofun w.cwd).symm.trans hfind
      cases hheld
    | _ => rfl
  · cases hheld

lemma scanned?_below {e} (he : w.files.entry? (base ++ rel) = some e) (hrel : rel ≠ []) :
    scanned? o (pathOf (base ++ rel)) w = (.ok (if isShut o base then none else keptAs w base o rel), w) := by
  have hfind : ∃ found, w.files.find? w.cwd (pathOf (base ++ rel)) = .ok found := by
    cases e with
    | link target =>
      exact h.linked rel target he
    | _ => exact ⟨_, h.find? he nofun w.cwd⟩
  obtain ⟨found, hfound⟩ := hfind
  rw [scanned?_apply hfound, keptAs, held, he, hfound, funext (verdict_append o base hrel)]
  cases isShut o base with
  | false => rfl
  | true => exact congrArg (·, w) (congrArg _ (Option.bind_fun_none _))

/-- What a scan of a directory finds below it. -/
lemma exists_finds : ∃ found, Finds w base o found ∧ ∀ lang, (found lang).Nodup ∧
    (found lang).Pairwise (fun p q => joinWith "/" p ≤ joinWith "/" q) ∧ (∀ rel ∈ found lang, Named rel) ∧
    ∀ rel, rel ∈ found lang ↔ isShut o base = false ∧ keptAs w base o rel = some lang := by
  let place := fun rel => pathOf (base ++ rel)
  let sorted := fun ps : List Path => ps.mergeSort fun a b => decide (a.toString ≤ b.toString)
  obtain ⟨rels, hfiles, hnodup, hmem⟩ := exists_files h
  have hnamed {rel} (hrel : rel ∈ rels) : Named rel := by
    obtain ⟨e, he, hnot⟩ := (hmem rel).1 hrel
    exact h.named he hnot
  -- what each file is kept as, by its path from the directory
  let kept := fun rel => if isShut o base then none else keptAs w base o rel
  have hkept (rel) : kept ((place rel).parts.drop base.length) = kept rel := congrArg kept drop_left
  have hv : ∀ p ∈ rels.map place, scanned? o p w = (.ok (kept (p.parts.drop base.length)), w) := by
    refine forall_mem_map.2 fun rel hrel => ?_
    obtain ⟨e, he, _⟩ := (hmem rel).1 hrel
    rw [hkept]
    exact scanned?_below h o he (hnamed hrel).1
  obtain ⟨groups, hgroups, hget⟩ := exists_foldlM_addTo o hv []
  have hscan : scan (pathOf base) o w = (.ok (groups.map fun x => (x.1, sorted x.2)), w) := by
    rw [scan, bind_of_ok (resolve_apply h), bind_of_ok (isDirectory_apply (find?_base h))]
    refine (bind_of_ok (get_apply w)).trans ?_
    rw [bind_of_ok hfiles]
    exact bind_of_ok hgroups
  let found := fun lang =>
    (rels.filter (kept · == some lang)).mergeSort fun p q => decide ((place p).toString ≤ (place q).toString)
  have hfound (lang) : (get? (groups.map fun x => (x.1, sorted x.2)) lang).getD [] = (found lang).map place := by
    rw [getD_get?_map sorted mergeSort_nil, hget, filter_map]
    simp only [Function.comp_def, hkept]
    exact (map_mergeSort (f := place) fun _ _ _ _ => rfl).symm
  have hrel {lang} {rel} : rel ∈ found lang ↔ rel ∈ rels ∧ kept rel = some lang := by
    rw [mem_mergeSort, mem_filter, beq_iff_eq]
  refine ⟨found, ⟨_, hscan, hfound⟩, fun lang => ⟨?_, ?_, fun rel hin => hnamed (hrel.1 hin).1, fun rel => ?_⟩⟩
  · exact (mergeSort_perm ..).nodup_iff.2 (hnodup.filter _)
  · refine (pairwise_mergeSort ?_ ?_ _).imp_of_mem fun hp hq hle => ?_
    · simpa using fun _ _ _ => String.le_trans
    · simpa using fun _ _ => String.le_total _ _
    · exact joinWith_le (hnamed (hrel.1 hp).1).1 (hnamed (hrel.1 hq).1).1 (of_decide_eq_true hle)
  · rw [hrel, hmem]
    constructor
    · rintro ⟨_, hlang⟩
      obtain ⟨hshut, hlang⟩ := Option.ite_none_left_eq_some.1 hlang
      exact ⟨Bool.eq_false_iff.2 hshut, hlang⟩
    · rintro ⟨hshut, hlang⟩
      obtain ⟨c, hheld, _⟩ := Option.bind_eq_some_iff.1 hlang
      exact ⟨not_directory_of_held h hheld, Option.ite_none_left_eq_some.2 ⟨Bool.eq_false_iff.1 hshut, hlang⟩⟩

end

/-- Scans of one tree at two places find the same files below them, in the same order, just when both places or neither
of them lie below a name that is left out, or there is nothing to find. -/
theorem scan_elsewhere_iff (h : Seated w.files base) (h' : Seated w'.files base')
    (hsame : ∀ rel, held w (base ++ rel) = held w' (base' ++ rel)) (o : ScanOptions) :
    ∃ found found', Finds w base o found ∧ Finds w' base' o found' ∧
      (found = found' ↔ isShut o base = isShut o base' ∨ ∀ rel, keptAs w base o rel = none) := by
  obtain ⟨found, hfound, hspec⟩ := exists_finds h o
  obtain ⟨found', hfound', hspec'⟩ := exists_finds h' o
  have hkept (rel) : keptAs w' base' o rel = keptAs w base o rel := by rw [keptAs, keptAs, hsame]
  simp only [hkept] at hspec'
  refine ⟨found, found', hfound, hfound', fun heq => ?_, fun hor => funext fun lang => ?_⟩
  · refine Classical.or_iff_not_imp_left.mpr fun hshut rel => Option.eq_none_iff_forall_ne_some.mpr fun lang hlang => ?_
    have hmem := (hspec lang).2.2.2 rel
    rw [heq, (hspec' lang).2.2.2, hlang] at hmem
    grind
  · obtain ⟨hnodup, hsorted, hnamed, hmem⟩ := hspec lang
    obtain ⟨hnodup', hsorted', hnamed', hmem'⟩ := hspec' lang
    have hperm : found lang ~ found' lang := by
      refine (perm_ext_iff_of_nodup hnodup hnodup').mpr fun rel => ?_
      rw [hmem, hmem']
      obtain hshut | hnone := hor
      · rw [hshut]
      · simp [hnone]
    exact hperm.eq_of_pairwise (fun p q hp hq hpq hqp =>
      (hnamed p hp).joinWith_inj (hnamed' q hq) (String.le_antisymm hpq hqp)) hsorted hsorted'

/-- A directory at the root with a file in it. -/
def lone (d : String) : Workspace := { files := ⟨[([d], .directory), ([d, "m.py"], .file (.bytes []) 0)]⟩ }

lemma entry?_lone (d rel) : (lone d).files.entry? ([d] ++ rel) =
    if rel = [] then some .directory else if rel = ["m.py"] then some (.file (.bytes []) 0) else none := by
  rcases rel with _ | ⟨c, _ | ⟨c', rel⟩⟩
  · simp [lone, FileTree.entry?]
  · by_cases hc : c = "m.py" <;> simp [lone, FileTree.entry?, hc, Ne.symm]
  · simp [lone, FileTree.entry?]

lemma seated_lone {d} (hd : d ≠ ".." ∧ d.utf8ByteSize ≤ nameLimit)
    (hpaths : ∀ rel ∈ [[], ["m.py"]], (pathOf ([d] ++ rel)).toString.utf8ByteSize < pathLimit ∧
      holdsNull (pathOf ([d] ++ rel)) = false) : Seated (lone d).files [d] := by
  have hcases {rel : Trail} {e : Entry} (he : (lone d).files.entry? ([d] ++ rel) = some e) :
      rel ∈ [[], ["m.py"]] ∧ (rel = [] ∨ rel = ["m.py"]) ∧ ∀ target, e ≠ .link target := by
    rw [ entry?_lone] at he
    grind
  have hdir : (lone d).files.entry? ([] ++ [d]) = some .directory := entry?_lone d []
  have htop : Stands (lone d).files ([] ++ [d]) := .step .root rfl hd.1 hd.2 hdir
  refine ⟨by simp [lone], hdir, fun rel e he => ?_, fun rel e he c hc => ?_, fun _ _ he => (hpaths _ (hcases he).1).1,
    fun _ _ he => (hpaths _ (hcases he).1).2, fun _ target he => absurd rfl ((hcases he).2.2 target)⟩
  · obtain rfl | rfl := (hcases he).2.1
    · exact htop
    · exact .step htop hdir (by decide) (by decide) he
  · obtain rfl | rfl := (hcases he).2.1
    · cases hc
    · exact mem_singleton.1 hc ▸ ⟨by decide, by decide, by decide⟩

lemma seated_src : Seated (lone "src").files ["src"] := seated_lone (by decide) (by decide)

lemma seated_tmp : Seated (lone "tmp").files ["tmp"] := seated_lone (by decide) (by decide)

def withoutTmp : ScanOptions := { excludes := ["tmp"] }

lemma held_lone {d} (h : Seated (lone d).files [d]) (rel) :
    held (lone d) ([d] ++ rel) = if rel = ["m.py"] then some (.bytes []) else none := by
  have hentry := entry?_lone d rel
  unfold held
  split at hentry
  · rename_i hrel
    rw [hentry, h.find? hentry nofun, hrel]
    rfl
  · split at hentry <;> rename_i hrel
    · rw [hentry, h.find? hentry nofun, if_pos hrel]
      rfl
    · rw [hentry, if_neg hrel]

theorem scan_elsewhere_tmp : (∀ rel, held (lone "src") (["src"] ++ rel) = held (lone "tmp") (["tmp"] ++ rel)) ∧
    ∃ found found', Finds (lone "src") ["src"] withoutTmp found ∧ Finds (lone "tmp") ["tmp"] withoutTmp found' ∧
      found ≠ found' := by
  have hsame (rel) : held (lone "src") (["src"] ++ rel) = held (lone "tmp") (["tmp"] ++ rel) := by
    rw [held_lone seated_src, held_lone seated_tmp]
  obtain ⟨found, found', hfound, hfound', hiff⟩ := scan_elsewhere_iff seated_src seated_tmp hsame withoutTmp
  refine ⟨hsame, found, found', hfound, hfound', fun heq => ?_⟩
  obtain hshut | hnone := hiff.mp heq
  · exact absurd hshut (by decide)
  · exact absurd (hnone ["m.py"]) (by decide +kernel)

/-- Below a directory whose name is left out, nothing is found. -/
theorem scan_differs_below_tmp : ∃ found found', Finds (lone "src") ["src"] withoutTmp found ∧
    Finds (lone "tmp") ["tmp"] withoutTmp found' ∧ ["m.py"] ∈ found "python" ∧ found' "python" = [] := by
  obtain ⟨found, hfound, hspec⟩ := exists_finds seated_src withoutTmp
  obtain ⟨found', hfound', hspec'⟩ := exists_finds seated_tmp withoutTmp
  refine ⟨found, found', hfound, hfound', ((hspec "python").2.2.2 _).mpr ⟨by decide, ?_⟩, ?_⟩
  · decide +kernel
  · refine eq_nil_iff_forall_not_mem.mpr fun rel hrel => ?_
    cases ((( hspec' "python").2.2.2 rel).mp hrel).1

/-! ## Maps -/

/-- Whether a text that is left out is in the whole path of a place. -/
def isHidden (o : MapOptions) (p : Trail) : Bool := o.excludes.any (holds · (pathOf p).toString)

lemma isHidden_append {o p} (hp : isHidden o p) (q) : isHidden o (p ++ q) := by
  have hlonger : (pathOf p).toString.toList <+: (pathOf (p ++ q)).toString.toList := by
    by_cases hq : q = []
    · simp [hq]
    · rw [toString_pathOf_append p hq, String.append_assoc, String.toList_append]
      exact prefix_append _ _
  obtain ⟨x, hx, hholds⟩ := any_eq_true.1 hp
  exact any_eq_true.2 ⟨x, hx, isSome_breakOn?.mpr ((isSome_breakOn?.mp hholds).trans hlonger.isInfix)⟩

/-- A name that is left out hides what is below it. -/
lemma isHidden_of_mem {o c} (hc : c ∈ o.excludes) {p} (hp : c ∈ p) : isHidden o p := by
  obtain ⟨l, r, rfl⟩ := append_of_mem hp
  rw [append_cons]
  refine isHidden_append (any_eq_true.2 ⟨c, hc, isSome_breakOn?.mpr ?_⟩) r
  rw [toString_pathOf_append l (cons_ne_nil c []), joinWith, String.toList_append]
  exact (suffix_append _ _).isInfix

/-- Those of the paths from a directory that are drawn. -/
def drawnTexts (o : MapOptions) (base : Trail) (rels : List Trail) : Strings :=
  (rels.filter fun p => !isHidden o (base ++ p) && o.extensions.contains (pathOf (base ++ p)).suffix).map
    fun p => (⟨"", p⟩ : Path).toString

/-- What stands at a place below a directory belongs on its map: a file with an extension that is looked at, not too
deep, and on no way over a name that is left out. -/
structure Wanted (t : FileTree) (base : Trail) (o : MapOptions) (rel : Trail) : Prop where
  file : ∃ c m, t.entry? (base ++ rel) = some (.file c m)
  extension : (⟨"", rel⟩ : Path).suffix ∈ o.extensions
  depth : rel.length ≤ o.maxDepth
  names : ∀ c ∈ rel, c ∉ o.excludes

section

variable (h : Seated w.files base) (hlink : ∀ rel target, w.files.entry? (base ++ rel) ≠ some (.link target))
  (o : MapOptions)

include h hlink

lemma find?_below {e} (he : w.files.entry? (base ++ rel) = some e) :
    w.files.find? w.cwd (pathOf (base ++ rel)) = .ok (some e) :=
  h.find? he (fun target heq => hlink rel target (heq ▸ he)) w.cwd

lemma exists_drawnEntries (hdir : w.files.entry? (base ++ rel) = some .directory) :
    ∃ names, drawnEntries (pathOf (base ++ rel)) w = (.ok names, w) ∧
      names ~ (w.files.children (base ++ rel)).map (·.1) := by
  have hkind : ∀ x ∈ w.files.children (base ++ rel), ∃ y, (do
      return (x.1, ← isFile (pathOf (base ++ rel) / x.1)) : Action (String × Bool)) w = (.ok y, w) ∧ [y.1] ~ [x.1] := by
    intro ⟨c, e⟩ hx
    obtain ⟨he, hname⟩ := h.child hx
    have hfind := find?_below h hlink he
    rw [← append_assoc] at hfind
    rw [hname.div]
    exact ⟨_, bind_of_ok (isFile_apply hfind), .refl _⟩
  obtain ⟨kinds, hkinds, hperm⟩ := exists_mapM_perm (k := fun y : String × Bool => [y.1])
    (g := fun x : String × Entry => [x.1]) hkind
  rw [← map_eq_flatMap, ← map_eq_flatMap] at hperm
  rw [drawnEntries, bind_of_ok (list_apply h hdir), bind_of_ok hkinds]
  exact ⟨_, rfl, ((mergeSort_perm ..).map _).trans hperm⟩

lemma exists_draw (n : Nat) {e} (he : w.files.entry? (base ++ rel) = some e) (indent : String) :
    ∃ drawn, draw o (pathOf base) n ⟨"", rel⟩ indent w = (.ok drawn, w) ∧
      drawn.2 ~ drawnTexts o base (w.files.leaves base n rel) := by
  induction n generalizing rel e indent with
  | zero => exact ⟨_, rfl, .nil⟩
  | succ n ih =>
    have hfind := find?_below h hlink he
    change ∃ drawn, (if isHidden o (base ++ rel) then _ else _ : Action _) w = _ ∧ _
    cases hhidden : isHidden o (base ++ rel) with
    | true =>
      refine ⟨_, rfl, .of_eq (map_eq_nil_iff.2 (filter_eq_nil_iff.2 fun p hp => ?_)).symm⟩
      obtain ⟨q, rfl⟩ := prefix_of_mem_leaves hp
      rw [← append_assoc, isHidden_append hhidden]
      exact Bool.false_ne_true
    | false =>
      refine exists_congr (fun _ => and_congr_left' (Eq.congr_left (bind_of_ok (isFile_apply hfind)))) |>.mpr ?_
      cases e with
      | link target => exact absurd he (hlink rel target)
      | file c m =>
        have hleaf : w.files.leaves base (n + 1) rel = [rel] := by
          rw [leaves, he]
          rfl
        rw [hleaf, drawnTexts, filter_singleton, hhidden]
        change ∃ drawn, (if o.extensions.contains (pathOf (base ++ rel)).suffix then _ else _ : Action _) w = _ ∧ _
        cases o.extensions.contains (pathOf (base ++ rel)).suffix with
        | false => exact ⟨_, rfl, .nil⟩
        | true => exact ⟨_, rfl, .of_eq (by simp)⟩
      | directory =>
        obtain ⟨names, hnames, hperm⟩ := exists_drawnEntries h hlink he
        have hparts : ∀ x ∈ names.zipIdx, ∃ drawn, draw o (pathOf base) n ((⟨"", rel⟩ : Path) / x.1)
            (indent ++ if x.2 == names.length - 1 then "    " else "│   ") w = (.ok drawn, w) ∧
            drawn.2 ~ drawnTexts o base (w.files.leaves base n (rel ++ [x.1])) := by
          intro x hx
          obtain ⟨⟨c, e⟩, hmem, hc⟩ := mem_map.1 (hperm.mem_iff.1 (fst_mem_of_mem_zipIdx hx))
          obtain ⟨he, hname⟩ := h.child hmem
          rw [← hc, hname.div]
          exact ih he _
        obtain ⟨parts, hrun, hall⟩ := exists_mapM_perm hparts
        refine ⟨_, (bind_of_ok (isDirectory_apply hfind)).trans ((bind_of_ok hnames).trans (bind_of_ok hrun)),
          hall.trans ?_⟩
        let texts := fun c => drawnTexts o base (w.files.leaves base n (rel ++ [c]))
        calc names.zipIdx.flatMap (fun x => texts x.1)
          _ = names.flatMap texts := by rw [← flatMap_map Prod.fst texts, zipIdx_map_fst]
          _ ~ ((w.files.children (base ++ rel)).map (·.1)).flatMap texts := hperm.flatMap_right _
          _ = _ := by
            rw [flatMap_map, leaves_of_directory he, drawnTexts, filter_flatMap, map_flatMap]
            rfl

lemma mem_leaves_depth : rel ∈ w.files.leaves base (o.maxDepth + 1).toNat [] ↔
    rel.length ≤ o.maxDepth ∧ ∃ c m, w.files.entry? (base ++ rel) = some (.file c m) := by
  have hdepth : rel.length < (o.maxDepth + 1).toNat ↔ rel.length ≤ o.maxDepth := by omega
  simp only [h.mem_leaves h.entry_base, nil_append, exists_eq_left', hdepth]
  refine and_congr_right fun _ => ⟨?_, fun ⟨c, m, he⟩ => ⟨_, he, rfl⟩⟩
  rintro ⟨_ | ⟨c, m⟩ | target, he, hnot⟩
  · cases hnot
  · exact ⟨c, m, he⟩
  · exact absurd he (hlink rel target)

omit hlink in
lemma toString_inj {p q} (hp : ∃ c m, w.files.entry? (base ++ p) = some (.file c m))
    (hq : ∃ c m, w.files.entry? (base ++ q) = some (.file c m))
    (heq : (⟨"", p⟩ : Path).toString = (⟨"", q⟩ : Path).toString) : p = q := by
  obtain ⟨_, _, hp⟩ := hp
  obtain ⟨_, _, hq⟩ := hq
  have hp := h.named hp rfl
  have hq := h.named hq rfl
  rw [hp.toString_relative, hq.toString_relative] at heq
  exact hp.joinWith_inj hq heq

lemma mem_drawnTexts {s} : s ∈ drawnTexts o base (w.files.leaves base (o.maxDepth + 1).toNat []) ↔
      ∃ rel, Wanted w.files base o rel ∧ isHidden o (base ++ rel) = false ∧ s = (⟨"", rel⟩ : Path).toString := by
  simp only [drawnTexts, mem_map, mem_filter, mem_leaves_depth h hlink, Bool.and_eq_true, Bool.not_eq_true',
    contains_iff_mem]
  refine exists_congr fun rel => ?_
  constructor
  · rintro ⟨⟨⟨hdepth, c, m, hfile⟩, hhidden, hextension⟩, rfl⟩
    rw [suffix_below base (h.named hfile rfl).1] at hextension
    refine ⟨⟨⟨c, m, hfile⟩, hextension, hdepth, fun c hc hex => ?_⟩, hhidden, rfl⟩
    cases hhidden.symm.trans (isHidden_of_mem hex (mem_append_right base hc))
  · rintro ⟨⟨⟨c, m, hfile⟩, hextension, hdepth, _⟩, hhidden, rfl⟩
    rw [suffix_below base (h.named hfile rfl).1]
    exact ⟨⟨⟨hdepth, c, m, hfile⟩, hhidden, hextension⟩, rfl⟩

/-- The map of a directory lists each file that belongs on it once, unless its path has a text that is left out. -/
theorem map_complete_iff : ∃ m, mapOf o (pathOf base) w = (.ok m, w) ∧ (∀ key, buildMap o (pathOf base) key w = (do
        let _ ← Storage.connect
        Storage.save mapCollection key (Storage.Draft.ofJson m.toJson)
        return m : Action RepoMap) w) ∧ m.toJson.get? "file_count" = some (.nat m.files.length) ∧ m.files.Nodup ∧
      (∀ s, s ∈ m.files ↔
        ∃ rel, Wanted w.files base o rel ∧ isHidden o (base ++ rel) = false ∧ s = (⟨"", rel⟩ : Path).toString) ∧
      ((∀ s, s ∈ m.files ↔ ∃ rel, Wanted w.files base o rel ∧ s = (⟨"", rel⟩ : Path).toString) ↔
        ∀ rel, Wanted w.files base o rel → isHidden o (base ++ rel) = false) := by
  obtain ⟨⟨tree, files⟩, hdraw, hperm⟩ := exists_draw h hlink o (o.maxDepth + 1).toNat h.entry_base ""
  have hmap : mapOf o (pathOf base) w =
      (.ok ⟨s!"📁 {(pathOf base).name}/" :: tree, files, (pathOf base).toString⟩, w) := by
    rw [mapOf, bind_of_ok (resolve_apply h), bind_of_ok (present_apply (find?_base h))]
    exact (bind_of_ok (isDirectory_apply (find?_base h))).trans (bind_of_ok hdraw)
  have hnodup : files.Nodup := by
    refine hperm.nodup_iff.mpr (((h.nodup_leaves _ _).filter _).map_on fun p hp q hq => ?_)
    exact toString_inj h ((mem_leaves_depth h hlink o).mp (mem_filter.mp hp).1).2
      ((mem_leaves_depth h hlink o).mp (mem_filter.mp hq).1).2
  have hmem (s) : s ∈ files ↔ _ := hperm.mem_iff.trans (mem_drawnTexts h hlink o)
  refine ⟨_, hmap, fun key => bind_of_ok hmap, rfl, hnodup, hmem, ?_, ?_⟩
  · intro hall rel hwanted
    obtain ⟨rel', hwanted', hhidden, heq⟩ := (hmem _).mp ((hall _).mpr ⟨rel, hwanted, rfl⟩)
    rwa [toString_inj h hwanted.file hwanted'.file heq]
  · intro hall s
    rw [hmem]
    exact exists_congr fun rel => and_congr_right fun hwanted => and_iff_right (hall rel hwanted)

end

theorem map_complete_src : (∀ rel target, (lone "src").files.entry? (["src"] ++ rel) ≠ some (.link target)) ∧
    ∃ m, mapOf {} (pathOf ["src"]) (lone "src") = (.ok m, lone "src") ∧
      ∀ s, s ∈ m.files ↔ ∃ rel, Wanted (lone "src").files ["src"] {} rel ∧ s = (⟨"", rel⟩ : Path).toString := by
  have hlink (rel target) : (lone "src").files.entry? (["src"] ++ rel) ≠ some (.link target) := by
    rw [ entry?_lone]
    grind
  obtain ⟨m, hm, _, _, _, _, hiff⟩ := map_complete_iff seated_src hlink {}
  refine ⟨hlink, m, hm, hiff.mpr fun rel hwanted => ?_⟩
  obtain ⟨c, t, hfile⟩ := hwanted.file
  obtain rfl : rel = ["m.py"] := by
    rw [ entry?_lone] at hfile
    grind
  decide +kernel

/-- Nothing in a directory with the name of a bare repository is on its map. -/
theorem map_of_bare_repository_empty :
    mapOf {} (pathOf ["x.git"]) (lone "x.git") = (.ok ⟨["📁 x.git/"], [], "/x.git"⟩, lone "x.git") ∧
      Wanted (lone "x.git").files ["x.git"] {} ["m.py"] := by
  refine ⟨rfl, ⟨_, _, rfl⟩, by decide, by decide, by decide⟩

end Repository

end PatchReview
