import PatchReview.Proofs.Beside
import PatchReview.Proofs.Repository.Walking

/-!
# Stored values

A value is kept in a file that is named by its collection and its key. Slashes in them are replaced, and then two dots
are left out wherever they stand side by side. What is left is no two dots, so the file lies below the root, unless
something there is a link.

A file is opened before a value is written to it. So a value that cannot be written leaves its beginning in place of the
old one, and a file that cannot be opened may still leave a directory.
-/

namespace PatchReview

open Action Files FileTree List Repository Text

/-! ## Where values are kept -/

/-- Replacing goes on behind the first occurrence. -/
lemma substitute_induct {x p old} (hold : old.toList = x :: p) {new : String} {P : Chars → Chars → Prop}
    (base : ∀ s, ¬ x :: p <:+: s → P s s) (step : ∀ a b r, ¬ x :: p <:+: a ++ (x :: p).dropLast → P b r →
      P (a ++ x :: p ++ b) (a ++ new.toList ++ r)) (s) : P s.toList (substitute old new s).toList := by
  have htext : (substitute old new s).toList = new.toList.intercalate (pieces (x :: p) s.toList) := by
    simp [substitute, joinWith, String.toList_intercalate, cutAt, hold, Function.comp_def]
  rw [htext]
  suffices h : ∀ n s, s.length ≤ n → P s (new.toList.intercalate (piecesAux (x :: p) n s)) from h _ _ (Nat.le_refl _)
  intro n s hn
  induction n generalizing s with
  | zero =>
    obtain rfl := length_eq_zero_iff.1 (Nat.le_zero.1 hn)
    exact base [] (by simp)
  | succ n ih =>
    rw [piecesAux]
    cases hs : breakOn? (x :: p) s with
    | none =>
      refine intercalate_singleton ▸ base s fun h => ?_
      cases hs ▸ isSome_breakOn?.2 h
    | some ab =>
      obtain ⟨rfl, hnot⟩ := breakOn?_eq_some hs
      have hne : piecesAux (x :: p) n ab.2 ≠ [] := by
        cases n with
        | zero => exact cons_ne_nil _ _
        | succ n =>
          rw [piecesAux]
          split <;> exact cons_ne_nil _ _
      dsimp only
      rw [intercalate_cons_of_ne_nil hne]
      exact step _ _ _ hnot (ih _ (by simp at hn; omega))

namespace Storage

/-- A part of a path has no slash and is not two dots. -/
lemma safePart_spec (s) : '/' ∉ (safePart s).toList ∧ (safePart s).toList ≠ ['.', '.'] := by
  have hslash : '/' ∉ (substitute "/" "_" s).toList := by
    refine substitute_induct (x := '/') rfl (P := fun _ r => '/' ∉ r) (fun s h => ?_) (fun a b r h hr => ?_) s
    · rwa [singleton_infix_iff] at h
    · rw [dropLast_singleton, append_nil, singleton_infix_iff] at h
      simp [h, hr]
  refine (substitute_induct (x := '.') (p := ['.']) rfl (P := fun s r => ('/' ∉ s → '/' ∉ r) ∧ r ≠ ['.', '.'])
    (fun s h => ?_) ?_ _).imp_left (· hslash)
  · exact ⟨id, fun heq => h (heq ▸ infix_refl _)⟩
  · rintro a b r h ⟨hmem, hne⟩
    refine ⟨fun hs => by simp_all, fun heq => ?_⟩
    rcases a with _ | ⟨c, a⟩
    · exact hne heq
    · obtain ⟨rfl, har⟩ : c = '.' ∧ a ++ r = ['.'] := by simpa using heq
      obtain ⟨rfl, -⟩ | ⟨rfl, -⟩ := append_eq_singleton_iff.1 har <;> exact h (by decide)

lemma exists_fileOf (root : Path) (collection key : String) : ∃ extra,
    fileOf root collection key = ⟨root.root, root.parts ++ extra⟩ ∧ extra ≠ [] ∧ extra.length ≤ 2 ∧
      ∀ x ∈ extra, FileName x ∧ x ≠ ".." := by
  have hlong {t : String} (ht : t.length < 5) : safePart key ++ ".json" ≠ t := by
    rintro rfl
    rw [String.length_append, show ".json".length = 5 from rfl] at ht
    omega
  have hkey : FileName (safePart key ++ ".json") :=
    ⟨by simp [(safePart_spec key).1], hlong (by decide), hlong (by decide)⟩
  by_cases hname : safePart collection = "" ∨ safePart collection = "."
  · -- the collection adds nothing to the path
    have hof : Path.ofString (safePart collection) = ⟨"", []⟩ := by rcases hname with h | h <;> rw [h] <;> decide +kernel
    refine ⟨[safePart key ++ ".json"], ?_, by simp, by simp, by simpa using ⟨hkey, hlong (by decide)⟩⟩
    rw [fileOf, hkey.div, show root / safePart collection = root.append (.ofString _) from rfl, hof]
    change Path.mk root.root (root.parts ++ [] ++ _) = _
    rw [append_nil]
  · obtain ⟨hslash, hdots⟩ := safePart_spec collection
    obtain ⟨hempty, hdot⟩ := not_or.1 hname
    have hcollection : FileName (safePart collection) := ⟨hslash, hempty, hdot⟩
    refine ⟨[safePart collection, safePart key ++ ".json"], ?_, by simp, by simp, ?_⟩
    · rw [fileOf, hcollection.div, hkey.div, append_assoc]
      rfl
    · have hne : safePart collection ≠ ".." := fun heq => hdots (heq ▸ rfl)
      simpa using ⟨⟨hcollection, hne⟩, hkey, hlong (by decide)⟩

end Storage

/-! ## Paths without links -/

section

variable {t t' : FileTree} {here q r : Trail} {rest : Strings}

namespace FileTree

/-- A place depends on the entries on the way to it. -/
lemma Stands.congr (h : Stands t q) (hsame : ∀ p, p <+: q → t'.entry? p = t.entry? p) : Stands t' q := by
  induction h with
  | root => exact .root
  | @step q c e _ hdir hc hname he ih =>
    refine .step (e := e) (ih fun p hp => hsame p (hp.trans (prefix_append _ _))) ?_ hc hname ?_
    · rw [hsame _ (prefix_append _ _), hdir]
    · exact (hsame _ prefix_rfl).trans he

/-- Where nothing at or below a directory is a link, the names that lead to a place are its own. -/
lemma eq_of_followWith {jump} (hnames : ".." ∉ rest) (hlinks : ∀ p target, t.entry? (here ++ p) ≠ some (.link target))
    (h : t.followWith jump here rest = .ok r) : r = here ++ rest := by
  induction rest generalizing here with
  | nil =>
    cases h
    simp
  | cons c rest ih =>
    rw [mem_cons, not_or] at hnames
    have hbelow (p target) : t.entry? (here ++ [c] ++ p) ≠ some (.link target) := by
      rw [append_assoc]
      exact hlinks _ _
    rw [followWith, if_neg (by simpa using Ne.symm hnames.1)] at h
    split at h
    · cases h
    · dsimp only at h
      split at h
      · cases h
      · simpa using ih hnames.2 hbelow h
      · split at h
        · rename_i hrest
          cases h
          rw [isEmpty_iff.1 hrest]
        · cases h
      · exact absurd ‹_› (hlinks [c] _)

lemma entry?_removeAll (t p) (hq : q ≠ []) :
    FileTree.entry? (removeAll t p) q = if p <+: q then none else t.entry? q := by
  have htake : (q.take p.length != p) = !decide (p <+: q) := by
    rw [Bool.eq_iff_iff, bne_iff_ne, Bool.not_eq_true', decide_eq_false_iff_not, prefix_iff_eq_take, ne_comm]
  have hkeys : (fun x : Trail × Entry => decide ((x.1.take p.length != p) = true ∧ x.1 == q)) =
      fun x => !decide (p <+: q) && x.1 == q := by
    funext x
    by_cases hx : x.1 = q
    · rw [hx, htake]
      simp
    · simp [hx]
  have hentry (t : FileTree) : t.entry? q = (t.entries.find? (·.1 == q)).map (·.2) := if_neg (by simpa using hq)
  rw [hentry, hentry, removeAll, find?_filter]
  refine (congrArg (fun k => (t.entries.find? k).map (·.2)) hkeys).trans ?_
  by_cases hp : p <+: q <;> simp [hp]

end FileTree

end

namespace Storage

/-- The storage is open at a directory that stands where it says, without links below it. -/
structure RootedAt (base : Trail) (w : Workspace) : Prop where
  storage : w.storage = some (pathOf base, true)
  stands : Stands w.files base
  directory : w.files.entry? base = some .directory
  unlinked : ∀ rel target, w.files.entry? (base ++ rel) ≠ some (.link target)

/-- Whether the storage is open at a directory, and what lies outside of it. -/
def frame (base : Trail) (w : Workspace) : Prop × (Trail → Option Entry) :=
  (RootedAt base w, fun q => if base <+: q then none else w.files.entry? q)

lemma connected_of_storage {root : Path} {w : Workspace} (h : w.storage = some (root, true)) :
    connected w = (.ok root, w) := by
  cases w
  cases h
  rfl

section

variable {base rel r : Trail} {c : String} {w v : Workspace} (h : RootedAt base w)

lemma parent_pathOf (base rel) (c : String) : (pathOf (base ++ (rel ++ [c]))).parent = pathOf (base ++ rel) := by
  simp [pathOf, Path.parent, ← append_assoc]

lemma name_pathOf (base rel) (c : String) : (pathOf (base ++ (rel ++ [c]))).name = c := by
  simp [pathOf, Path.name, ← append_assoc]

lemma eq_ok_of_guarded {α} {p : Path} {x : Except SystemCause α} {a} (h : guarded p x w = (.ok a, v)) : x = .ok a := by
  cases x <;> cases h
  rfl

include h

namespace RootedAt

lemma of_frame (hv : frame base v = frame base w) : RootedAt base v :=
  (Prod.ext_iff.1 hv).1.mpr h

lemma locate_eq (rel) : w.files.locate w.cwd (pathOf (base ++ rel)) =
    if pathLimit ≤ (pathOf (base ++ rel)).toString.utf8ByteSize then .error .nameTooLong
    else w.files.followWith (w.files.follow (linkLimit - 1)) base rel := by
  rw [locate]
  exact congrArg (ite _ _) (h.stands.followWith h.directory _ rel)

lemma eq_of_locate (hrel : ".." ∉ rel) (hlocate : w.files.locate w.cwd (pathOf (base ++ rel)) = .ok r) :
    r = base ++ rel := by
  rw [h.locate_eq] at hlocate
  split at hlocate
  · cases hlocate
  · exact eq_of_followWith hrel h.unlinked hlocate

lemma eq_of_target (hrel : ".." ∉ rel ++ [c]) (htarget : w.files.target w.cwd (pathOf (base ++ (rel ++ [c]))) = .ok r) :
    r = base ++ (rel ++ [c]) := by
  rw [target] at htarget
  split at htarget
  · cases htarget
    exact h.eq_of_locate hrel ‹_›
  · obtain ⟨parent, hlocate, htarget⟩ := except_bind_eq_ok_iff.1 htarget
    rw [parent_pathOf] at hlocate
    obtain rfl := h.eq_of_locate (fun hmem => hrel (mem_append_left _ hmem)) hlocate
    rw [name_pathOf, append_assoc] at htarget
    split at htarget
    · dsimp only at htarget
      split at htarget
      · exact absurd ‹_› (h.unlinked _ _)
      · cases htarget
        rfl
    · cases htarget
  · cases htarget

/-- A change below the root that makes no link stays in the frame. -/
lemma frame_eq (rel) (c : String) {t} (hchange : ∀ q ≠ [], t.entry? q = w.files.entry? q ∨
      base ++ (rel ++ [c]) <+: q ∧ ∀ target, t.entry? q ≠ some (.link target)) :
    frame base { w with files := t } = frame base w := by
  have hsame (q) (hq : ¬ base ++ (rel ++ [c]) <+: q) : t.entry? q = w.files.entry? q := by
    by_cases hnil : q = []
    · rw [hnil]
      rfl
    · exact (hchange q hnil).resolve_right fun hbelow => hq hbelow.1
  have hbase {p} (hp : p <+: base) : t.entry? p = w.files.entry? p := by
    refine hsame p fun hlong => ?_
    have hlength := (hlong.trans hp).length_le
    simp only [length_append, length_singleton] at hlength
    omega
  refine Prod.ext (propext ⟨fun _ => h, fun _ => ⟨h.storage, h.stands.congr fun _ => hbase, ?_, fun r target => ?_⟩⟩)
    (funext fun q => ite_congr rfl (fun _ => rfl) fun hq => hsame q fun hlong => hq ((prefix_append _ _).trans hlong))
  · exact (hbase prefix_rfl).trans h.directory
  · by_cases hnil : base ++ r = []
    · rw [hnil]
      simp [FileTree.entry?]
    · obtain heq | hlink := hchange _ hnil
      · exact heq ▸ h.unlinked r target
      · exact hlink.2 target

lemma frame_put {e} (he : ∀ target, e ≠ .link target) :
    frame base { w with files := w.files.put (base ++ (rel ++ [c])) e } = frame base w := by
  refine h.frame_eq rel c fun q hq => ?_
  rw [ entry?_put _ _ _ hq]
  split
  · rename_i heq
    exact .inr ⟨by rw [heq], fun target hlink => he target (Option.some.inj hlink)⟩
  · exact .inl rfl

end RootedAt

/-- Directories are made below the root only. -/
lemma clear_makeDirectories (hrel : ".." ∉ rel) : Clear (frame base) (makeDirectories (pathOf (base ++ rel))) w := by
  have hgo (given n) : Clear (frame base) (makeDirectories.go given n (pathOf (base ++ rel))) w := by
    induction n generalizing rel with
    | zero => exact .pure () w
    | succ n ih =>
      refine .look ?_
      split
      · split
        · exact .pure () w
        · exact .throw trivial w
      · rename_i hlocate
        split
        · exact .pure () w
        · obtain rfl | ⟨rel, c, rfl⟩ := eq_nil_or_concat' rel
          · -- the root itself is there
            rw [h.locate_eq] at hlocate
            split at hlocate <;> cases hlocate
          · have hmade := ih fun hmem => hrel (mem_append_left [c] hmem)
            rw [parent_pathOf]
            refine hmade.bind fun _ u hu => .look ((Beside.ofSteady (steady_guarded _ _) u).bind fun r u' hr => ?_)
            obtain rfl := (steady_guarded _ _).eq_of_ok hr
            have hu := h.of_frame (hmade.eq_of_run hu)
            obtain rfl := hu.eq_of_target hrel (eq_ok_of_guarded hr)
            exact .set (hu.frame_put (by simp))
      · exact .throw trivial w
  unfold makeDirectories
  exact .ite ((Beside.throw trivial w).bind fun _ _ hthrow => by cases hthrow) (.look (hgo _ _))

lemma clear_writeContent (hrel : ".." ∉ rel ++ [c]) (d) :
    Clear (frame base) (writeContent (pathOf (base ++ (rel ++ [c]))) d) w := by
  have hlook : Steady (do
      let w ← get
      guarded (pathOf (base ++ (rel ++ [c]))) (w.files.target w.cwd (pathOf (base ++ (rel ++ [c]))))) :=
    .look (fun _ _ => rfl) fun w => steady_guarded _ _
  have hplace : Steady (newPlace (pathOf (base ++ (rel ++ [c])))) := .ite ((Steady.throw _).bind fun _ => hlook) hlook
  refine (Beside.ofSteady hplace w).bind fun q v hq => .look ?_
  obtain rfl := hplace.eq_of_ok hq
  split
  · exact .throw trivial w
  · unfold newPlace at hq
    split at hq
    · cases hq
    · obtain rfl := h.eq_of_target hrel (eq_ok_of_guarded hq)
      exact .set (h.frame_put (by simp))

lemma clear_remove (hrel : ".." ∉ rel ++ [c]) : Clear (frame base) (remove (pathOf (base ++ (rel ++ [c])))) w := by
  have hremoved : frame base { w with files := w.files.removeAll (base ++ (rel ++ [c])) } = frame base w := by
    refine h.frame_eq rel c fun q hq => ?_
    rw [ entry?_removeAll _ _ hq]
    split
    · exact .inr ⟨‹_›, by simp⟩
    · exact .inl rfl
  unfold remove
  refine .ite ((Beside.throw trivial w).bind fun _ _ hthrow => by cases hthrow) (.look ?_)
  refine (Beside.ofSteady (steady_guarded _ _) w).bind fun r v hr => ?_
  obtain rfl := (steady_guarded _ _).eq_of_ok hr
  have hlocate := eq_ok_of_guarded hr
  rw [parent_pathOf] at hlocate
  obtain rfl := h.eq_of_locate (fun hmem => hrel (mem_append_left _ hmem)) hlocate
  rw [name_pathOf, append_assoc]
  dsimp only
  split
  · exact .throw trivial w
  · exact .throw trivial w
  · exact .set hremoved

end

/-- The file of a value is the root of the storage and at most two more names, which are not two dots. So where nothing
below the root is a link, values are saved, erased and looked up below the root only. -/
theorem stays_in_root (root : Path) (collection key : String) : (∃ extra,
      fileOf root collection key = ⟨root.root, root.parts ++ extra⟩ ∧ extra.length ≤ 2 ∧
        ∀ x ∈ extra, FileName x ∧ x ≠ "..") ∧
    ∀ base w, RootedAt base w → (∀ d, frame base (save collection key d w).2 = frame base w) ∧
      frame base (erase collection key w).2 = frame base w ∧ (load collection key w).2 = w ∧
        ∀ q, w.files.locate w.cwd (fileOf (pathOf base) collection key) = .ok q → base <+: q := by
  obtain ⟨extra, hfile, _, hlength, hnames⟩ := exists_fileOf root collection key
  refine ⟨⟨extra, hfile, hlength, hnames⟩, fun base w h => ?_⟩
  obtain ⟨rel, hfile, hne, _, hnames⟩ := exists_fileOf (pathOf base) collection key
  obtain ⟨rel, c, rfl⟩ := (eq_nil_or_concat' rel).resolve_left hne
  replace hfile : fileOf (pathOf base) collection key = pathOf (base ++ (rel ++ [c])) := hfile
  have hrel : ".." ∉ rel ++ [c] := fun hmem => (hnames _ hmem).2 rfl
  have hconnected := connected_of_storage h.storage
  have hpresent : Steady (present (pathOf (base ++ (rel ++ [c])))) := (steady_entry _).bind fun e => .pure e.isSome
  refine ⟨fun d => ?_, ?_, ?_, fun q hq => ?_⟩
  · rw [save, bind_of_ok hconnected, hfile, parent_pathOf]
    have hmade := clear_makeDirectories h fun hmem => hrel (mem_append_left [c] hmem)
    refine (hmade.bind fun _ v hv => (clear_writeContent (h.of_frame (hmade.eq_of_run hv)) hrel _).attempt.bindAll
      fun r u => ?_).keeps
    split
    · exact .throw trivial u
    · exact .throw trivial u
    · split
      · exact .throw trivial u
      · exact .pure () u
  · rw [erase, bind_of_ok hconnected, hfile]
    refine (Beside.bind (.ofSteady hpresent w) fun found v hv => ?_).keeps
    obtain rfl := hpresent.eq_of_ok hv
    refine .ite ((clear_remove h hrel).attempt.bindAll fun r u => ?_) (.pure () w)
    split
    · exact .pure () u
    · exact .throw trivial u
  · rw [load, bind_of_ok hconnected, hfile]
    refine (Beside.ofSteady (f := id) (hpresent.bind fun found => ?_) w).keeps
    have hread : Steady (readText (pathOf (base ++ (rel ++ [c])))) := (steady_readBytes _).bind fun b => by
      split
      · exact .pure _
      · exact .throw _
    refine .ite (.pure _) (hread.attempt.bind fun text => ?_)
    split
    · exact .throw _
    · exact .throw _
    · split
      · exact .pure _
      · exact .ite (.throw _) (.throw _)
  · rw [hfile] at hq
    exact h.eq_of_locate hrel hq ▸ prefix_append _ _

/-- A storage without values. -/
def emptyStorage : Workspace := { lone "src" with storage := some (pathOf ["src"], true) }

lemma rooted_src : RootedAt ["src"] emptyStorage := by
  refine ⟨rfl, seated_src.stands [] _ seated_src.directory, seated_src.directory, fun rel target => ?_⟩
  rw [show emptyStorage.files = (lone "src").files from rfl, entry?_lone]
  grind

theorem stays_in_src : RootedAt ["src"] emptyStorage ∧
    (∀ d, frame ["src"] (save "c" "k" d emptyStorage).2 = frame ["src"] emptyStorage) ∧
      frame ["src"] (erase "c" "k" emptyStorage).2 = frame ["src"] emptyStorage :=
  have h := (stays_in_root ⟨"", []⟩ "c" "k").2 _ _ rooted_src
  ⟨rooted_src, h.1, h.2.1⟩

/-- A storage with a link to another directory. -/
def linkedStorage : Workspace where
  files := ⟨[(["src"], .directory), (["src", "c"], .link "../out"), (["out"], .directory)]⟩
  storage := some (pathOf ["src"], true)

/-- A value is saved where the link leads. -/
theorem linked_storage_left : (linkedStorage.files.entry? ["out", "k.json"]).isNone ∧
    (FileTree.entry? (save "c" "k" (.ofJson (.int 1)) linkedStorage).2.files ["out", "k.json"]).isSome := by
  decide +kernel

/-! ## Values that are not saved -/

/-- Where the directory of a collection stands, a save that fails changes nothing, or the value could not be written and
its file now holds the beginning of it. -/
theorem failed_save_cases {collection key : String} {d : Draft} {root : Path} {w : Workspace}
    (hroot : w.storage = some (root, true)) (habsolute : (fileOf root collection key).parent.isAbsolute)
    (hdir : w.files.find? w.cwd (fileOf root collection key).parent = .ok (some .directory))
    (h : (save collection key d w).1.isOk = false) :
    (∀ c k, load c k (save collection key d w).2 = load c k w) ∨ d.complaint.isSome ∧ ∀ b m,
      (save collection key d w).2.files.find? w.cwd (fileOf root collection key) = .ok (some (.file b m)) →
        b = .bytes (utf8 d.written) := by
  generalize hsave : save collection key d w = r at h ⊢
  rw [save, bind_of_ok (connected_of_storage hroot), bind_of_ok (makeDirectories_of_directory habsolute hdir),
    bind_apply, attempt_apply] at hsave
  rcases hwrite : writeText (fileOf root collection key) d.written w with ⟨cause | _, v⟩ <;> rw [hwrite] at hsave
  · obtain rfl := writeContent_of_error hwrite
    refine .inl fun c k => ?_
    cases cause <;> cases hsave <;> rfl
  · cases hd : d.complaint <;> rw [hd] at hsave <;> cases hsave
    · cases h
    · exact .inr ⟨rfl, fun b m => eq_of_writeContent hwrite⟩

/-- A list with half of a character in it: the bracket and what stands before are written. -/
def halfCharacter : Draft := .ofJson (.list [.int 1, .text (String.ofList [Text.unpaired 0xD800])])

theorem failed_save_cases_half_character : (save "" "x" halfCharacter emptyStorage).1.isOk = false ∧
    ((∀ c k, load c k (save "" "x" halfCharacter emptyStorage).2 = load c k emptyStorage) ∨
      halfCharacter.complaint.isSome ∧ ∀ b m, (save "" "x" halfCharacter emptyStorage).2.files.find? []
        (fileOf (pathOf ["src"]) "" "x") = .ok (some (.file b m)) → b = .bytes (utf8 halfCharacter.written)) := by
  have hfails : (save "" "x" halfCharacter emptyStorage).1.isOk = false := by decide +kernel
  refine ⟨hfails, failed_save_cases rfl rfl ?_ hfails⟩
  rw [show (fileOf (pathOf ["src"]) "" "x").parent = pathOf ["src"] by decide +kernel]
  exact find?_base seated_src

/-- A file that cannot be opened leaves a directory where a value is looked for. -/
theorem failed_save_leaves_directory : (save "x.json" "\x00" (.ofJson (.int 1)) emptyStorage).1.isOk = false ∧
    (load "" "x" emptyStorage).1.isOk ∧
      (load "" "x" (save "x.json" "\x00" (.ofJson (.int 1)) emptyStorage).2).1.isOk = false := by
  decide +kernel

end Storage

end PatchReview
