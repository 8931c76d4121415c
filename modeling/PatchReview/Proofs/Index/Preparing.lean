import Mathlib.Algebra.Group.Nat.Defs
import PatchReview.Proofs.Beside
import PatchReview.Proofs.Fields
import PatchReview.Proofs.Files
import PatchReview.Proofs.Index.Listing

/-!
# Preparing the index of a change again

A call for the index of a change builds it and notes in it what it was built for; a later call reads the notes to tell
whether there is anything to do. The notes never stand in the way: what they say is read back as it was written. So a
second call skips the build exactly when the index that the first one left has a node and, at both revisions, a file.
-/

namespace PatchReview

open Action Beside Bool Command Fields FileTree Files List Nat Number Path Repository Text

/-! ## Numbers written and read back -/

namespace Number

lemma toNat_of_isDigit {c : Char} (h : c.isDigit) : 48 ≤ c.toNat ∧ c.toNat ≤ 57 := by
  simp only [Char.isDigit, and_eq_true, decide_eq_true_eq] at h
  exact ⟨UInt32.le_iff_toNat_le.1 h.1, UInt32.le_iff_toNat_le.1 h.2⟩

lemma digitValue?_of_isDigit {c : Char} (h : c.isDigit) : digitValue? c = some (c.toNat - '0'.toNat) := by
  have hlt : c.toNat < 128 := Nat.lt_of_le_of_lt (toNat_of_isDigit h).2 (by decide)
  unfold digitValue?
  rw [if_pos hlt, if_pos h]
  rfl

variable {cs : Chars} {ds : List Nat}

lemma digitRun?_of_isDigit (hne : cs ≠ []) (h : ∀ c ∈ cs, c.isDigit) :
    digitRun? cs = some (cs.map fun c => c.toNat - '0'.toNat) := by
  fun_induction digitRun? cs with
  | case1 => exact absurd rfl hne
  | case2 c =>
    rw [digitValue?_of_isDigit (h c mem_cons_self)]
    rfl
  | case3 c s ih =>
    have := h '_' (by simp)
    exact absurd this (by decide)
  | case4 c d s hd ih =>
    rw [digitValue?_of_isDigit (h c mem_cons_self), ih (by simp) fun x hx => h x (mem_cons_of_mem _ hx)]
    rfl

lemma digit_lt_ten {c : Char} {d : Nat} (h : digitValue? c = some d) : d < 10 := by
  unfold digitValue? at h
  dsimp only at h
  split at h
  · split at h
    · rename_i hdigit
      cases h
      have := (toNat_of_isDigit hdigit).2
      omega
    · cases h
  · obtain ⟨z, hz, rfl⟩ := Option.map_eq_some_iff.1 h
    have := Array.find?_some hz
    simp only [and_eq_true, decide_eq_true_eq] at this
    omega

lemma digits_lt_ten (h : digitRun? cs = some ds) : ∀ d ∈ ds, d < 10 := by
  have hcons {c : Char} {rest : Option (List Nat)} {ds : List Nat} (hrest : ∀ l, rest = some l → ∀ d ∈ l, d < 10)
      (h : (do return (← digitValue? c) :: (← rest)) = some ds) : ∀ d ∈ ds, d < 10 := by
    obtain ⟨d, hd, h⟩ := Option.bind_eq_some_iff.1 h
    obtain ⟨l, hl, h⟩ := Option.bind_eq_some_iff.1 h
    cases h
    exact forall_mem_cons.2 ⟨digit_lt_ten hd, hrest l hl⟩
  fun_induction digitRun? cs generalizing ds with
  | case1 => cases h
  | case2 c =>
    obtain ⟨d, hd, rfl⟩ := Option.map_eq_some_iff.1 h
    intro x hx
    rw [mem_singleton.1 hx]
    exact digit_lt_ten hd
  | case3 c s ih => exact hcons (fun l hl => ih hl) h
  | case4 c d s hd ih => exact hcons (fun l hl => ih hl) h

lemma ofDigits_lt (h : ∀ d ∈ ds, d < 10) : ofDigits ds < 10 ^ ds.length := by
  have hfold (n) : ds.foldl (fun n d => 10 * n + d) n < (n + 1) * 10 ^ ds.length := by
    induction ds generalizing n with
    | nil => simp
    | cons d ds ih =>
      have hd := h d mem_cons_self
      calc ds.foldl (fun n d => 10 * n + d) (10 * n + d)
          < (10 * n + d + 1) * 10 ^ ds.length := ih (fun x hx => h x (mem_cons_of_mem _ hx)) _
        _ ≤ ((n + 1) * 10) * 10 ^ ds.length := mul_le_mul_right _ (by omega)
        _ = (n + 1) * 10 ^ (d :: ds).length := by rw [length_cons, pow_succ', mul_assoc]
  unfold ofDigits
  simpa using hfold 0

/-- A number that is read has no more digits than can be. -/
lemma natAbs_lt_of_readInt? {s n} (h : readInt? s = some n) : n.natAbs < 10 ^ digitLimit := by
  unfold readInt? readInt at h
  dsimp only at h
  split at h
  · cases h
  · rename_i ds hds
    split at h
    · cases h
    · rename_i hlen
      have hlt := Nat.lt_of_lt_of_le (ofDigits_lt (digits_lt_ten hds))
        (Nat.pow_le_pow_right (by decide) (Nat.not_lt.1 hlen))
      have hn := Option.some.inj h
      rw [← hn]
      split
      · rwa [Int.natAbs_neg]
      · rwa [Int.natAbs_natCast]

lemma trim_of_isDigit (h : ∀ c ∈ cs, c.isDigit) : trim cs = cs := by
  have hdrop (l : Chars) (hl : ∀ c ∈ l, c ∈ cs) : l.dropWhile isSpace = l := by
    cases l with
    | nil => rfl
    | cons c l =>
      have hc := h c (hl c mem_cons_self)
      have hspace : isSpace c = false := by
        obtain ⟨hge, hle⟩ := toNat_of_isDigit hc
        grind [isSpace, isBlank]
      exact dropWhile_cons_of_neg (by simp [hspace])
  unfold trim dropRightWhile
  rw [hdrop cs fun _ h => h, hdrop cs.reverse fun _ h => mem_reverse.1 h, reverse_reverse]

lemma readInt?_toString {n : Nat} (h : n < 10 ^ digitLimit) : readInt? (toString (n : Int)) = some n := by
  have hlist : (toString (n : Int)).toList = Nat.toDigits 10 n := Nat.toList_repr
  have hdigit : ∀ c ∈ toDigits 10 n, c.isDigit :=
    fun c hc => isDigit_of_mem_toDigits (by decide) (by decide) hc
  have hsign : takeSign (toDigits 10 n) = (false, toDigits 10 n) := by
    unfold takeSign
    split
    · rename_i heq
      exact absurd (hdigit '-' (heq ▸ mem_cons_self)) (by decide)
    · rename_i heq
      exact absurd (hdigit '+' (heq ▸ mem_cons_self)) (by decide)
    · rfl
  have hlen : (toDigits 10 n).length ≤ digitLimit := (length_toDigits_le_iff (by decide) (by decide)).2 h
  have hvalue : ofDigits ((toDigits 10 n).map fun c => c.toNat - '0'.toNat) = n := by
    rw [ofDigits, foldl_map]
    exact ofDigitChars_toDigits (by decide) (by decide)
  unfold readInt? readInt
  rw [hlist, trim_of_isDigit hdigit, hsign]
  dsimp only
  rw [digitRun?_of_isDigit toDigits_ne_nil hdigit]
  dsimp only
  rw [length_map, if_neg (Nat.not_lt.2 hlen), hvalue]
  rfl

end Number

/-! ## The index in a file -/

namespace Index

variable {p : Path} {q : Purpose} {ix : Index} {m : Float} {w w' : Workspace}

/-- The index that a path leads to, in a directory that is there. -/
def indexAt? (t : FileTree) (p : Path) : Option Index :=
  match t.find? [] p.parent, t.find? [] p with
  | .ok (some .directory), .ok (some (.file (.index ix) _)) => some ix
  | _, _ => none

lemma indexAt?_eq_some_iff {t} : indexAt? t p = some ix ↔
    t.find? [] p.parent = .ok (some .directory) ∧ ∃ m, t.find? [] p = .ok (some (.file (.index ix) m)) := by
  unfold indexAt?
  constructor
  · intro h
    split at h
    · rename_i hparent hfile
      cases h
      exact ⟨hparent, _, hfile⟩
    · cases h
  · rintro ⟨hparent, m, hfile⟩
    rw [hparent, hfile]

/-- An index has both revisions, a node, and a file at either revision. -/
def Complete (ix : Index) : Prop :=
  ix.hasRevision "base" = true ∧ ix.hasRevision "head" = true ∧ ix.nodes ≠ [] ∧
    (∃ v ∈ ix.versions, v.rev = "base") ∧ ∃ v ∈ ix.versions, v.rev = "head"

instance (ix : Index) : Decidable ix.Complete := inferInstanceAs (Decidable (_ ∧ _ ∧ _ ∧ _ ∧ _))

instance (t : FileTree) (p : Path) : Decidable (∃ ix, indexAt? t p = some ix ∧ ix.Complete) :=
  decidable_of_iff (((indexAt? t p).any fun ix => decide ix.Complete)) (by cases indexAt? t p <;> simp)

lemma tablesAt_of_find? (h : w.files.find? w.cwd p = .ok (some (.file (.index ix) m))) :
    tablesAt p w = (.ok (some ix), w) := by
  rw [tablesAt, bind_apply, present_apply h]
  change (content p >>= _ : Action (Option Index)) w = _
  rw [bind_apply, content_eq_ok_iff.2 ⟨rfl, m, h⟩]
  rfl

/-- Where no tables are found there are none afterwards either, even if a file has been made. -/
lemma tablesAt_of_not_find? (h : ∀ ix m, w.files.find? w.cwd p ≠ .ok (some (.file (.index ix) m))) :
    (∀ ix, (tablesAt p w).1 ≠ .ok (some ix)) ∧
      ∀ ix m, (tablesAt p w).2.files.find? w.cwd p ≠ .ok (some (.file (.index ix) m)) := by
  rcases hfind : w.files.find? w.cwd p with e | ⟨_ | e⟩
  · have heq : tablesAt p w = (.error e, w) := by
      rw [tablesAt, bind_apply, present, bind_apply, entry?_apply, hfind]
    rw [heq]
    exact ⟨fun _ => by rintro ⟨⟩, h⟩
  · -- a file is made
    have heq : tablesAt p w = (writeBytes p [] >>= fun _ => pure none : Action (Option Index)) w := by
      rw [tablesAt, bind_apply, present_apply hfind]
      rfl
    rw [heq, bind_apply]
    rcases hwrite : writeBytes p [] w with ⟨e | ⟨⟩, w'⟩
    · obtain rfl := writeContent_of_error hwrite
      exact ⟨fun _ => by rintro ⟨⟩, h⟩
    · refine ⟨fun _ => by rintro ⟨⟩, fun ix m hafter => ?_⟩
      cases eq_of_writeContent hwrite hafter
  · rw [tablesAt, bind_of_ok (present_apply hfind), if_neg (by simp), bind_apply, (steady_content p).after w]
    rcases hcontent : (content p w).1 with e | c
    · exact ⟨fun _ => by rintro ⟨⟩, h⟩
    · have hrun := ((steady_content p).after w).trans (by rw [hcontent])
      obtain ⟨-, m, hm⟩ := content_eq_ok_iff.1 hrun
      rcases c with ⟨_ | _⟩ | ix
      · exact ⟨fun _ => by rintro ⟨⟩, h⟩
      · exact ⟨fun _ => by rintro ⟨⟩, h⟩
      · exact absurd hm (h ix m)

lemma readyAt_eq_true_iff (hroot : p.isAbsolute) :
    readyAt p q w = (.ok true, w') ↔ w' = w ∧ ∃ ix, indexAt? w.files p = some ix ∧ ix.isReady q := by
  have hfind : w.files.find? [] p = w.files.find? w.cwd p := find?_of_isAbsolute hroot _ _
  have hparent : w.files.find? [] p.parent = w.files.find? w.cwd p.parent :=
    find?_of_isAbsolute (p := p.parent) hroot _ _
  simp only [indexAt?_eq_some_iff]
  rw [hfind, hparent]
  constructor
  · intro h
    obtain ⟨b, v, hfile, h₁⟩ := bind_eq_ok h
    obtain ⟨rfl, -⟩ := isDirectory_eq_ok_iff.1 hfile
    obtain ⟨b', v', hdirectory, h₂⟩ := bind_eq_ok h₁
    obtain ⟨rfl, e, he, hb⟩ := isDirectory_eq_ok_iff.1 hdirectory
    split at h₂
    · cases h₂
    rename_i hor
    obtain ⟨o, u, htables, h₃⟩ := bind_eq_ok h₂
    by_cases hix : ∃ ix m, v'.files.find? v'.cwd p = .ok (some (.file (.index ix) m))
    · obtain ⟨ix, m, hm⟩ := hix
      cases (tablesAt_of_find? hm).symm.trans htables
      have hready : ix.isReady q := Except.ok.inj (congrArg (·.1) h₃)
      have hb' : b' := by simp_all
      refine ⟨(congrArg (·.2) h₃).symm, ix, ⟨?_, m, hm⟩, hready⟩
      rcases e with _ | ⟨⟨⟩ | _ | _⟩
      · cases hb.trans hb'
      · exact he
      · cases hb.trans hb'
      · cases hb.trans hb'
    · have hnone := (tablesAt_of_not_find? fun ix m hm => hix ⟨ix, m, hm⟩).1
      rw [htables] at hnone
      cases o with
      | none => cases h₃
      | some ix => exact absurd rfl (hnone ix)
  · rintro ⟨rfl, ix, ⟨hdirectory, m, hm⟩, hready⟩
    refine bind_eq_ok_iff.2 ⟨false, w', isDirectory_eq_ok_iff.2 ⟨rfl, _, hm, rfl⟩, ?_⟩
    refine bind_eq_ok_iff.2 ⟨true, w', isDirectory_eq_ok_iff.2 ⟨rfl, _, hdirectory, rfl⟩, ?_⟩
    refine bind_eq_ok_iff.2 ⟨some ix, w', tablesAt_of_find? hm, ?_⟩
    rw [← hready]
    rfl

/-! ## What an index was made for -/

lemma fact?_setFact (ix : Index) (key value other) :
    (ix.setFact key value).fact? other = if other = key then some value else ix.fact? other := by
  change List.lookup other (erase ix.facts key ++ [(key, value)]) = _
  rw [lookup_append]
  change (get? (erase ix.facts key) other).or (get? [(key, value)] other) = _
  rw [get?_erase, get?_cons]
  by_cases ho : other = key
  · simp [ho]
  · rw [if_neg ho, if_neg ho, if_neg fun h => ho h.symm]
    exact Option.or_none

lemma agrees_of_fact? {key wanted x} (h : ix.fact? key = (wanted.filter (· != "")).or x) :
    ix.agrees key wanted := by
  unfold agrees
  rw [h]
  rcases hwanted : wanted.filter (· != "") with _ | v
  · split <;> simp_all
  · have hv := (Option.filter_eq_some_iff.1 hwanted).2
    have hfilter : (some v).filter (· != "") = some v := Option.filter_some_pos hv
    rw [Option.some_or, hfilter]
    exact beq_self_eq_true v

lemma agreesInt_of_fact? {key : String} {n : Nat} (hn : n < 10 ^ digitLimit)
    (h : ix.fact? key = some (toString (n : Int))) : ix.agreesInt key (some n) := by
  unfold agreesInt
  rw [h]
  split
  · rename_i heq hsome
    cases hsome
    rw [Option.filter_eq_some_iff] at heq
    rw [← Option.some.inj heq.1, readInt?_toString hn]
    exact beq_self_eq_true _
  · rfl

/-! ## What a plan says -/

namespace Plan

variable {l : Plan} {c : Change} {kb : Bool} {w₁ w₂ v : Workspace}

/-- What every plan that is made has: an absolute directory, and numbers that can be written and read back. -/
structure Fitting (l : Plan) : Prop where
  absolute : l.directory.isAbsolute = true
  depth : ∃ n : Nat, l.depth = n ∧ n < 10 ^ digitLimit
  files : ∃ n : Nat, l.files = n ∧ n < 10 ^ digitLimit

lemma natAbs_numberVariable {name default n} (hdefault : default.natAbs < 10 ^ digitLimit)
    (h : numberVariable name default w = (.ok n, w')) : n.natAbs < 10 ^ digitLimit := by
  obtain ⟨value, v, -, h⟩ := bind_eq_ok h
  cases value with
  | none =>
    cases h
    exact hdefault
  | some s =>
    cases h
    rcases hread : readInt? s with _ | n
    · exact hdefault
    · exact natAbs_lt_of_readInt? hread

lemma fitting_of_make (h : make c w = (.ok l, v)) : l.Fitting := by
  have hlarge (n) (hn : n < 10 ^ 4) : n < 10 ^ digitLimit :=
    Nat.lt_of_lt_of_le hn (Nat.pow_le_pow_right (by decide) (by decide))
  obtain ⟨home, v₁, hhome, h⟩ := bind_eq_ok h
  obtain ⟨repo, v₂, -, h⟩ := bind_eq_ok h
  obtain ⟨depth, v₃, hdepth, h⟩ := bind_eq_ok h
  obtain ⟨files, v₄, hfiles, h⟩ := bind_eq_ok h
  obtain ⟨name, v₅, -, h⟩ := bind_eq_ok h
  obtain ⟨base, v₆, -, h⟩ := bind_eq_ok h
  obtain ⟨head, v₇, -, h⟩ := bind_eq_ok h
  cases h
  have hd := natAbs_numberVariable (hlarge _ (by decide)) hdepth
  have hf := natAbs_numberVariable (hlarge _ (by decide)) hfiles
  have hone := hlarge 1 (by decide)
  refine ⟨?_, ⟨(max 0 depth).toNat, ?_, ?_⟩, (max 1 files).toNat, ?_, ?_⟩
  · have hroot := isAbsolute_of_resolve
      (congrArg (·.1) ((ofExcept_apply (w.files.resolve w.cwd c.home) w).symm.trans hhome))
    exact isAbsolute_div (isAbsolute_div (isAbsolute_div hroot _) _) _
  · change max 0 depth = _
    omega
  · omega
  · change max 1 files = _
    omega
  · omega

lemma fact?_elim (ix : Index) (key other) (value : Option String) : (value.elim ix (ix.setFact key)).fact? other =
      if other = key then value.or (ix.fact? other) else ix.fact? other := by
  cases value with
  | none => simp
  | some v =>
    rw [Option.elim_some, fact?_setFact]
    rfl

lemma fact?_noted (l : Plan) (ix) :
    (l.noted ix).fact? "diff_sha12" = some l.diff ∧ (l.noted ix).fact? "cpg_scope" = some "pr" ∧
      (l.noted ix).fact? "cpg_dep_depth" = some (toString l.depth) ∧
      (l.noted ix).fact? "cpg_dep_max_files" = some (toString l.files) ∧
      (l.noted ix).fact? "base_sha" = (l.base.filter (· != "")).or (ix.fact? "base_sha") ∧
      (l.noted ix).fact? "head_sha" = (l.head.filter (· != "")).or (ix.fact? "head_sha") := by
  simp [noted, fact?_elim, fact?_setFact]

/-- What is noted in an index does not speak against the plan that it was noted for. -/
lemma isReady_noted (hl : l.Fitting) (h : (l.noted ix).Complete) : (l.noted ix).isReady l.purpose := by
  obtain ⟨depth, hdepth, hdepth'⟩ := hl.depth
  obtain ⟨files, hfiles, hfiles'⟩ := hl.files
  obtain ⟨hbase, hhead, hnodes, ⟨v, hv, hvbase⟩, u, hu, huhead⟩ := h
  obtain ⟨hdiff, hscope, hdeep, hmany, hbaseSha, hheadSha⟩ := fact?_noted l ix
  simp only [isReady, purpose, and_eq_true, hdepth, hfiles]
  refine ⟨⟨⟨⟨⟨⟨⟨⟨⟨⟨hbase, hhead⟩, by simpa using hnodes⟩, ?_⟩, ?_⟩, ?_⟩, ?_⟩, ?_⟩, ?_⟩, ?_⟩, ?_⟩
  · exact any_eq_true.2 ⟨v, hv, by simp [hvbase]⟩
  · exact any_eq_true.2 ⟨u, hu, by simp [huhead]⟩
  · rw [hdiff]
    cases hfilter : (some l.diff).filter (· != "") with
    | none => rfl
    | some d =>
      cases (Option.filter_eq_some_iff.1 hfilter).1
      exact beq_self_eq_true _
  · exact agrees_of_fact? hbaseSha
  · exact agrees_of_fact? hheadSha
  · exact agrees_of_fact? (x := none) hscope
  · exact agreesInt_of_fact? hdepth' (hdepth ▸ hdeep)
  · exact agreesInt_of_fact? hfiles' (hfiles ▸ hmany)

/-- An index that is there once the plan has been noted has it among its facts. -/
lemma eq_noted_of_note (h : l.note w = (.ok (), w'))
    (hix : w'.files.find? w.cwd l.path = .ok (some (.file (.index ix) m))) : ∃ ix₀, ix = l.noted ix₀ := by
  rw [note, bind_apply, attempt_apply] at h
  by_cases hfind : ∃ ix₀ m, w.files.find? w.cwd l.path = .ok (some (.file (.index ix₀) m))
  · obtain ⟨ix₀, m₀, hm⟩ := hfind
    obtain ⟨u, hwrite⟩ := writeContent_of_find? hm (.index (l.noted ix₀))
    rw [tablesAt_of_find? hm] at h
    dsimp only at h
    rw [bind_apply, attempt_apply, hwrite] at h
    cases h
    cases eq_of_writeContent hwrite hix
    exact ⟨ix₀, rfl⟩
  · obtain ⟨hnone, hafter⟩ := tablesAt_of_not_find? fun ix m hm => hfind ⟨ix, m, hm⟩
    rcases htables : tablesAt l.path w with ⟨e | _ | ix₀, v⟩
    · rw [htables] at h hafter
      dsimp only at h
      cases he : e.isError with
      | true =>
        rw [he] at h
        cases h
        exact absurd hix (hafter ix m)
      | false =>
        rw [he] at h
        cases h
    · rw [htables] at h hafter
      cases h
      exact absurd hix (hafter ix m)
    · exact absurd (congrArg (·.1) htables) (hnone ix₀)

end Plan

/-! ## Building leaves the environment alone -/

section

variable {γ : Type} {f : Workspace → γ} (hf : Aside f fun _ => True)

lemma steady_addLanguage (o rev ix group) : Steady (addLanguage o rev ix group) := by
  have hfile (lang ix path) : Steady (addFile o rev lang ix path) := by
    intro w t
    rw [addFile_apply, addFile_apply, steady_reading lang path w t, (steady_reading lang path).after w]
    cases (reading lang path w).1 <;> rfl
  exact (Steady.ofExcept _).bind fun lang => (steady_requireParser lang).bind fun _ => Steady.foldlM (hfile lang) _ _

include hf

lemma beside_addRepository (ix : Index) (root rev base o w) :
    Clear f (ix.addRepository root rev base o) w := by
  have hnow : Clear f Action.now w := ⟨hf.clock w _, nofun⟩
  refine hnow.bindAll fun now v => ?_
  have hrest (groups : Action (List (String × List Path))) (hgroups : Steady groups) (v : Workspace) :
      Clear f (do
        let groups ← groups
        let ix ← groups.foldlM (addLanguage o rev) (ix.beginRevision rev base now)
        return ix.resolveCalls none) v :=
    .ofSteady (hgroups.bind fun groups => (Steady.foldlM (steady_addLanguage o rev) groups _).bind fun _ => .pure _) v
  cases hpaths : o.paths with
  | none => exact hrest _ (steady_scan root o.scan) v
  | some paths => exact hrest _ (steady_chosenFiles o.scan paths) v

lemma beside_openAt (p w) : Clear f (openAt p) w := by
  refine (ofSteady (steady_isFile p) w).bindAll fun _ v => .ite ?_ ?_
  · refine (ofSteady (steady_content p) v).bindAll fun c v => ?_
    split
    · exact .pure _ v
    · exact .pure _ v
    · exact .throw trivial v
  · exact (beside_makeDirectories hf _ v).bindAll fun _ v => (beside_writeContent hf p _ v).bindAll
      fun _ v => .pure _ v

lemma beside_addRevision (p repo : Path) (ref rev : String) (base : Option String) (reach : Import.Reach)
    (seeds : List Path) (kb) (w) :
    Clear f (addRevision p repo ref rev base reach seeds kb) w := by
  refine (beside_ensureHead hf repo ref w).bindAll fun _ v => .look ?_
  refine (ofExcept (fun _ _ => trivial) v).bindAll fun files v => (beside_openAt hf p v).bindAll fun ix v => ?_
  refine bindAll ?_ fun r v => (beside_writeContent hf p _ v).bindAll fun _ v => .pure _ v
  exact (beside_addRepository hf ix repo rev base _ v).bindAll fun ix v => .pure _ v

lemma beside_addChange (p c reach kb w) : Clear f (addChange p c reach kb) w := by
  have hlook : Clear f (changedFiles c.repo c.diff) w := .look (.pure _ w)
  refine hlook.bindAll fun seeds v => (beside_openAt hf p v).bindAll fun _ v => ?_
  refine bindAll (attempt ?_) fun result v => ?_
  · exact (beside_addRevision hf p _ _ _ _ _ _ _ v).bindAll fun _ v => beside_addRevision hf p _ _ _ _ _ _ _ v
  · refine (beside_ensureHead hf c.repo c.head v).attempt.bindAll fun r v => ?_
    have hend (v) : Clear f (Action.ofExcept result) v := .ofExcept (fun _ _ => trivial) v
    cases r with
    | ok _ => exact hend v
    | error e => exact .ite (hend v) ((throw trivial v).bindAll fun _ v => hend v)

lemma beside_tablesAt (p w) : Clear f (tablesAt p) w := by
  refine (beside_present hf p w).bindAll fun _ v => .ite ?_ ?_
  · exact (beside_writeContent hf p _ v).bindAll fun _ v => .pure _ v
  · refine (ofSteady (steady_content p) v).bindAll fun c v => ?_
    split
    · exact .pure _ v
    · exact .pure _ v
    · exact .throw trivial v

lemma beside_readyAt (p) (q) (w) : Clear f (readyAt p q) w := by
  refine (beside_isDirectory hf p w).bindAll fun _ v => (beside_isDirectory hf p.parent v).bindAll
    fun _ v => .ite (.pure _ v) ((beside_tablesAt hf p v).bindAll fun o v => ?_)
  cases o with
  | none => exact .throw trivial v
  | some ix => exact .pure _ v

lemma beside_note (l : Plan) (w) : Clear f l.note w := by
  refine (beside_tablesAt hf l.path w).attempt.bindAll fun r v => ?_
  split
  · exact (beside_writeContent hf _ _ v).attempt.bindAll fun _ v => .pure () v
  · exact .pure () v

end

/-! ## A second call -/

variable {c : Change} {kb : Bool} {l : Plan} {w₁ w₂ v : Workspace}

lemma complete_of_isReady (h : ix.isReady q) : ix.Complete := by
  simp only [isReady, and_eq_true] at h
  obtain ⟨⟨⟨⟨⟨⟨⟨⟨⟨⟨hbase, hhead⟩, hnodes⟩, hv⟩, hu⟩, -⟩, -⟩, -⟩, -⟩, -⟩, -⟩ := h
  exact ⟨hbase, hhead, by simpa using hnodes, by simpa using hv, by simpa using hu⟩

/-- Telling where the index is changes the environment only, and takes back what an earlier call said. -/
lemma Plan.announce_apply (l : Plan) (w) :
    ∃ e, l.announce w = (.ok (), { w with environment := e }) ∧ get? e "LITE_CPG_INDEX_SKIPPED" = none := by
  have hdrop (w) : ∃ e, (do
      Action.dropVariable "LITE_CPG_INDEX_ERROR"
      Action.dropVariable "LITE_CPG_INDEX_SKIPPED" : Action Unit) w = (.ok (), { w with environment := e }) ∧
        get? e "LITE_CPG_INDEX_SKIPPED" = none :=
    ⟨_, rfl, by rw [get?_erase, if_pos rfl]⟩
  have hset (name value w) : Action.setVariable name value w =
      (.ok (), { w with environment := insert w.environment name value }) := rfl
  have hlook (name w) : Action.envVar? name w = (.ok (get? w.environment name), w) := rfl
  rw [announce, bind_of_ok (hset ..), bind_of_ok (hlook ..)]
  split <;> exact hdrop _

lemma aside_environment : Action.Aside Workspace.environment fun _ => True :=
  ⟨fun _ _ _ => rfl, fun _ _ _ => rfl, fun _ _ => rfl, fun _ _ => trivial⟩

/-- A call that ends normally has found an index that is ready, or it has noted its plan in one and does not say that
it skipped anything. -/
lemma prepare_cases (hmake : Plan.make c w = (.ok l, v)) (h : prepare c kb w = (.ok p, w')) :
    (∃ ix, indexAt? w'.files l.path = some ix ∧ ix.isReady l.purpose) ∨
      (∃ u, l.note u = (.ok (), w')) ∧ get? w'.environment "LITE_CPG_INDEX_SKIPPED" = none := by
  have hroot : l.path.isAbsolute := isAbsolute_div (Plan.fitting_of_make hmake).absolute _
  rw [prepare, bind_apply, hmake] at h
  obtain ⟨⟨⟩, v₁, -, h₁⟩ := bind_eq_ok h
  obtain ⟨⟨⟩, v₂, hannounce, h₂⟩ := bind_eq_ok h₁
  obtain ⟨ready, v₃, hready, h₃⟩ := bind_eq_ok h₂
  cases ready with
  | true =>
    obtain ⟨rfl, ix, hopens, hix⟩ := (readyAt_eq_true_iff hroot).1 hready
    obtain ⟨⟨⟩, v₄, hset, hend⟩ := bind_eq_ok h₃
    cases hset
    cases hend
    exact .inl ⟨ix, hopens, hix⟩
  | false =>
    obtain ⟨⟨⟩, v₄, hadd, h₄⟩ := bind_eq_ok h₃
    obtain ⟨⟨⟩, v₅, hnote, hend⟩ := bind_eq_ok h₄
    cases hend
    refine .inr ⟨⟨v₄, hnote⟩, ?_⟩
    obtain ⟨e, he, hnone⟩ := l.announce_apply v₁
    cases hannounce.symm.trans he
    rw [(beside_note aside_environment l v₄).eq_of_run hnote,
      (beside_addChange aside_environment _ _ _ _ v₃).eq_of_run hadd,
      (beside_readyAt aside_environment _ _ _).eq_of_run hready]
    exact hnone

/-- A call for the index of a change ends normally and leaves `w₁`. A second one goes by the same plan, which is so when
its arguments and its environment are the same and the repository has not changed, and finds the files as they were
left. The commits in the name of the index are no paths. -/
structure Again (c : Change) (kb : Bool) (l : Plan) (w w₁ w₂ : Workspace) : Prop where
  plan : ∃ v, Plan.make c w = (.ok l, v)
  first : prepare c kb w = (.ok l.path, w₁)
  again : ∃ v, Plan.make c w₂ = (.ok l, v) ∧ v.files = w₁.files
  named : l.path.parent = l.directory

/-- The second call says that there was nothing to build, and leaves the files as they are. -/
def SkipsAgain (c : Change) (kb : Bool) (l : Plan) (w₁ w₂ : Workspace) : Prop :=
  ∃ w₃, prepare c kb w₂ = (.ok l.path, w₃) ∧ w₃.files = w₁.files ∧
    get? w₃.environment "LITE_CPG_INDEX_SKIPPED" = some "1"

/-- An index that the first call leaves complete is ready for the second. -/
lemma Again.isReady (h : Again c kb l w w₁ w₂) (hopens : indexAt? w₁.files l.path = some ix) (hix : ix.Complete) :
    ix.isReady l.purpose := by
  obtain ⟨v, hmake⟩ := h.plan
  have hfit := Plan.fitting_of_make hmake
  obtain ⟨ix', hopens', hready⟩ | ⟨⟨u, hnote⟩, -⟩ := prepare_cases hmake h.first
  · rwa [Option.some.inj (hopens.symm.trans hopens')]
  · obtain ⟨-, m, hm⟩ := indexAt?_eq_some_iff.1 hopens
    have hm' : w₁.files.find? u.cwd l.path = .ok (some (.file (.index ix) m)) :=
      (find?_of_isAbsolute (isAbsolute_div hfit.absolute _) _ _).trans hm
    obtain ⟨ix₀, rfl⟩ := Plan.eq_noted_of_note hnote hm'
    exact Plan.isReady_noted hfit hix

/-- A call that finds a ready index has nothing to do but to say so. -/
lemma prepare_of_isReady (hmake : Plan.make c w = (.ok l, v)) (hnamed : l.path.parent = l.directory)
    (hopens : indexAt? v.files l.path = some ix) (hready : ix.isReady l.purpose) :
    ∃ w', prepare c kb w = (.ok l.path, w') ∧ w'.files = v.files ∧
      get? w'.environment "LITE_CPG_INDEX_SKIPPED" = some "1" := by
  have hfit := Plan.fitting_of_make hmake
  have hroot : l.path.isAbsolute := isAbsolute_div hfit.absolute _
  obtain ⟨hdirectory, m, hm⟩ := indexAt?_eq_some_iff.1 hopens
  have henter : l.enter v = (.ok (), v) := by
    have hthere : v.files.find? v.cwd l.directory = .ok (some .directory) :=
      (find?_of_isAbsolute hfit.absolute _ _).trans (hnamed ▸ hdirectory)
    have hfile : v.files.find? v.cwd l.path = .ok (some (.file (.index ix) m)) :=
      (find?_of_isAbsolute hroot _ _).trans hm
    rw [Plan.enter, bind_of_ok (makeDirectories_of_directory hfit.absolute hthere), bind_of_ok (present_apply hfile)]
    rfl
  obtain ⟨e, hannounce, -⟩ := l.announce_apply v
  have hfound : readyAt l.path l.purpose { v with environment := e } = (.ok true, { v with environment := e }) :=
    (readyAt_eq_true_iff hroot).2 ⟨rfl, ix, hopens, hready⟩
  refine ⟨{ v with environment := insert e "LITE_CPG_INDEX_SKIPPED" "1" }, ?_, rfl, ?_⟩
  · rw [prepare, bind_of_ok hmake, bind_of_ok henter, bind_of_ok hannounce, bind_apply, hfound]
    rfl
  · rw [get?_insert, if_pos rfl]

/-- A second call that skips the build has found a complete index. -/
lemma SkipsAgain.complete (hmake : Plan.make c w₂ = (.ok l, v)) (h : SkipsAgain c kb l w₁ w₂) :
    ∃ ix, indexAt? w₁.files l.path = some ix ∧ ix.Complete := by
  obtain ⟨w₃, hrun, hsame, hskipped⟩ := h
  obtain ⟨ix, hopens, hready⟩ | ⟨-, hnone⟩ := prepare_cases hmake hrun
  · exact ⟨ix, hsame ▸ hopens, complete_of_isReady hready⟩
  · cases hnone.symm.trans hskipped

/-- A second call skips the build exactly when the first one left an index with both revisions, a node, and a file at
either revision: what was noted in it never stands in the way. -/
theorem skips_again_iff (h : Again c kb l w w₁ w₂) :
    SkipsAgain c kb l w₁ w₂ ↔ ∃ ix, indexAt? w₁.files l.path = some ix ∧ ix.Complete := by
  obtain ⟨v, hagain, hfiles⟩ := h.again
  constructor
  · exact SkipsAgain.complete hagain
  · rintro ⟨ix, hopens, hix⟩
    obtain ⟨w₃, hrun, hsame, hskipped⟩ := prepare_of_isReady hagain h.named (hfiles ▸ hopens) (h.isReady hopens hix)
    exact ⟨w₃, hrun, hsame.trans hfiles, hskipped⟩

/-! ## An index that is kept, and one that is built again -/

/-- No command of a workspace changes files. -/
def Tame (w : Workspace) : Prop := ∀ e ∈ w.commands, ∀ r ∈ e.2, r.changes.isEmpty = true

instance (w : Workspace) : Decidable (Tame w) := inferInstanceAs (Decidable (∀ e ∈ w.commands, _))

lemma Tame.reply (h : Tame w) (line) : (Command.reply w line).1.changes = [] ∧
    Tame (Command.reply w line).2 ∧ (Command.reply w line).2.files = w.files := by
  have htake (key : String) (replies : List CommandReply) (hmem : (key, replies) ∈ w.commands) :
      (takeReply replies).1.changes = [] ∧ Tame { w with commands := insert w.commands key (takeReply replies).2 } := by
    have hall := h _ hmem
    have htaken : (takeReply replies).1.changes = [] ∧ ∀ r ∈ (takeReply replies).2, r.changes.isEmpty := by
      unfold takeReply
      split <;> simp_all
    refine htaken.imp_right fun hrest e he => ?_
    rcases eq_or_mem_of_mem_insert he with rfl | he
    · exact hrest
    · exact h e he
  unfold Command.reply
  split
  · exact (htake _ _ (mem_of_get? ‹_›)).imp_right (⟨·, rfl⟩)
  · split
    · exact (htake _ _ (mem_of_get? ‹_›)).imp_right (⟨·, rfl⟩)
    · exact ⟨rfl, h, rfl⟩

lemma Tame.commitOf (h : Tame w) (repo ref) :
    Clear (fun w => (w.files, Tame w)) (commitOf repo ref) w := by
  obtain ⟨hchanges, htame, hfiles⟩ := h.reply (joinWith " " ["git", "rev-parse", ref])
  have hrun : Clear (fun w => (w.files, Tame w))
      (Command.run ["git", "rev-parse", ref] (some repo)) w := by
    refine .look ?_
    dsimp only
    rw [hchanges]
    refine (Beside.set ?_).bindAll fun _ v => (Beside.pure () v).bindAll fun _ v =>
      .ite ((Beside.throw trivial v).bindAll fun _ v => .pure _ v) (.pure _ v)
    exact Prod.ext hfiles (propext ⟨fun _ => h, fun _ => htame⟩)
  have hcheck : Beside _ _ (git repo ["rev-parse", ref]) w := hrun.bindAll fun r v =>
    .ite ((Beside.throw trivial v).bindAll fun _ v => .pure r v) (.pure r v)
  refine hcheck.attempt.bindAll fun r v => ?_
  cases r <;> exact .pure _ v

lemma steady_nameOf (root) : Action.Steady (nameOf root) := by
  refine (steady_resolve root).bind fun root => ?_
  have hlast : Action.Steady (if root.name == "." || root.name == "" then
      if root.parent.name != "" && root.parent.name != "." then
        pure s!"{root.parent.name}_workspace" else pure "current_workspace"
      else pure root.name : Action String) := .ite (.ite (.pure _) (.pure _)) (.pure _)
  exact .ite (.ite (.pure _) hlast) hlast

lemma Tame.make (h : Tame w) (hmake : Plan.make c w = (.ok l, v)) : v.files = w.files := by
  have hnumber {name : String} {default n : Int} {u u' : Workspace} (h : numberVariable name default u = (.ok n, u')) :
      u' = u := by
    obtain ⟨value, u₁, henv, h⟩ := bind_eq_ok h
    cases henv
    cases hvalue : get? u.environment name <;> rw [hvalue] at h <;> cases h <;> rfl
  obtain ⟨home, v₁, hhome, h₁⟩ := bind_eq_ok hmake
  obtain rfl := (steady_resolve _).eq_of_ok hhome
  obtain ⟨repo, v₂, hrepo, h₂⟩ := bind_eq_ok h₁
  obtain rfl := (steady_resolve _).eq_of_ok hrepo
  obtain ⟨depth, v₃, hdepth, h₃⟩ := bind_eq_ok h₂
  obtain rfl := hnumber hdepth
  obtain ⟨files, v₄, hfiles, h₄⟩ := bind_eq_ok h₃
  obtain rfl := hnumber hfiles
  obtain ⟨name, v₅, hname, h₅⟩ := bind_eq_ok h₄
  obtain rfl := (steady_nameOf _).eq_of_ok hname
  obtain ⟨base, v₆, hbase, h₆⟩ := bind_eq_ok h₅
  obtain ⟨head, v₇, hhead, h₇⟩ := bind_eq_ok h₆
  cases h₇
  obtain ⟨heq, htame⟩ := Prod.mk.inj ((h.commitOf _ _).eq_of_run hbase)
  obtain ⟨heq', -⟩ := Prod.mk.inj ((Tame.commitOf (htame ▸ h) _ _).eq_of_run hhead)
  exact heq'.trans heq

/-- A change with nothing in it. -/
def emptyChange : Change := ⟨⟨"/", ["home"]⟩, ⟨"/", ["repo"]⟩, "main", "feat", ""⟩

def emptyPlan : Plan where
  change := emptyChange
  directory := ⟨"/", ["home", ".storage", "lite_cpg", "repo"]⟩
  file := "a1_b2_e3b0c44298fc.sqlite"
  base := some "a1"
  head := some "b2"
  diff := "e3b0c44298fc"
  depth := 5
  files := 2000

/-- A workspace in which git knows both revisions, with further files. -/
def twoRevisions (entries : List (Trail × Entry)) : Workspace where
  files := ⟨[(["home"], .directory), (["repo"], .directory)] ++ entries⟩
  commands := [("git rev-parse main", [{ out := "a1" }]), ("git rev-parse feat", [{ out := "b2" }]), ("*", [{}])]

/-- An index with one file, the same at both revisions. -/
def pairIndex : Index where
  revisions := [⟨some "base", none, 0⟩, ⟨some "head", some "base", 0⟩]
  versions := [⟨"base", 1, "x", 1⟩, ⟨"head", 1, "x", 1⟩]
  nodes := [⟨"x:0-1", "x", 1, "python", "module", ⟨0, 1, 0, 0, 0, 1⟩, "\x7b\x7d"⟩]

/-- A workspace that has the index of the change already. -/
def keptWorkspace : Workspace := twoRevisions
  [(["home", ".storage"], .directory), (["home", ".storage", "lite_cpg"], .directory),
    (["home", ".storage", "lite_cpg", "repo"], .directory),
    (["home", ".storage", "lite_cpg", "repo", "a1_b2_e3b0c44298fc.sqlite"], .file (.index pairIndex) 0)]

/-- The state that a call for the index of the change leaves. -/
def afterCall (w : Workspace) : Workspace := (prepare emptyChange false w).2

lemma again_of_runs (h : (Plan.make emptyChange w).1.toOption = some emptyPlan ∧
    (prepare emptyChange false w).1.toOption = some emptyPlan.path ∧
    (Plan.make emptyChange (afterCall w)).1.toOption = some emptyPlan ∧ Tame (afterCall w)) :
    Again emptyChange false emptyPlan w (afterCall w) (afterCall w) := by
  have hok {α : Type} {r : Result α × Workspace} {x : α} (h : r.1.toOption = some x) : r = (.ok x, r.2) := by
    obtain ⟨e | y, u⟩ := r
    · cases h
    · cases h
      rfl
  obtain ⟨hplan, hrun, hagain, htame⟩ := h
  exact ⟨⟨_, hok hplan⟩, hok hrun, ⟨_, hok hagain, htame.make (hok hagain)⟩, by decide⟩

/-- A complete index is used again. -/
theorem kept_index_skipped :
    Again emptyChange false emptyPlan keptWorkspace (afterCall keptWorkspace) (afterCall keptWorkspace) ∧
      SkipsAgain emptyChange false emptyPlan (afterCall keptWorkspace) (afterCall keptWorkspace) := by
  have hagain := again_of_runs (w := keptWorkspace) (by decide +kernel)
  exact ⟨hagain, (skips_again_iff hagain).mpr (by decide +kernel)⟩

/-- An index without files is built again every time. -/
theorem empty_index_built_again :
    Again emptyChange false emptyPlan (twoRevisions []) (afterCall (twoRevisions [])) (afterCall (twoRevisions [])) ∧
      ¬ SkipsAgain emptyChange false emptyPlan (afterCall (twoRevisions [])) (afterCall (twoRevisions [])) := by
  have hagain := again_of_runs (w := twoRevisions []) (by decide +kernel)
  have hincomplete : ¬ ∃ ix, indexAt? (afterCall (twoRevisions [])).files emptyPlan.path = some ix ∧ ix.Complete := by
    decide +kernel
  obtain ⟨v, hmake, -⟩ := hagain.again
  exact ⟨hagain, fun h => hincomplete (h.complete hmake)⟩

end Index

end PatchReview
