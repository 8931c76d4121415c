import PatchReview.Proofs.Action

/-!
# Files that are looked up and written

What looking at a file answers in terms of the file tree, and what is found after a file has been written: wherever its
path leads, it leads to what was written, and a path that leads elsewhere led there before.
-/

namespace PatchReview

open Action FileTree List

/-! ## Paths that are absolute -/

lemma Path.isAbsolute_div {p : Path} (h : p.isAbsolute) (s : String) : (p / s).isAbsolute := by
  change (p.append (ofString s)).isAbsolute
  unfold append
  split
  · assumption
  · exact h

lemma FileTree.isAbsolute_of_resolve {t : FileTree} {cwd p q} (h : t.resolve cwd p = .ok q) : q.isAbsolute := by
  unfold resolve at h
  split at h
  · cases h
  · generalize t.resolveParts t.entries.length [] (if p.isAbsolute then [] else cwd) p.parts = r at h
    dsimp only at h
    split at h
    · cases h
      rfl
    · split at h <;> cases h
      rfl

/-! ## Files that have been written -/

namespace FileTree

variable {t : FileTree} {p : Path} {q r : Trail} {c c' : Content} {m m' : Float}

lemma entry?_put (t : FileTree) (q e) (hr : r ≠ []) : entry? (t.put q e) r = if r = q then some e else t.entry? r := by
  have hempty : r.isEmpty = false := by simpa using hr
  obtain ⟨es⟩ := t
  simp only [ entry?, hempty, Bool.false_eq_true, if_false, put]
  split <;> rename_i hany
  · have hkeys : (fun x : Trail × Entry => x.1 == r) ∘
        (fun x : Trail × Entry => if x.1 == q then (x.1, e) else (x.1, x.2)) = (·.1 == r) := by
      funext x
      dsimp only [Function.comp]
      split <;> rfl
    rw [find?_map, hkeys]
    generalize hfind : es.find? _ = found
    cases found with
    | none =>
      obtain ⟨x, hx, hxq⟩ := any_eq_true.1 hany
      rw [if_neg]
      · rfl
      · rintro rfl
        exact find?_eq_none.1 hfind x hx hxq
    | some x =>
      have hxr : x.1 = r := by simpa using find?_some hfind
      simp only [Option.map_some, hxr, beq_iff_eq]
      split <;> rfl
  · by_cases hrq : r = q
    · have hnone : es.find? (·.1 == q) = none :=
        find?_eq_none.2 fun x hx h => hany (any_eq_true.2 ⟨x, hx, h⟩)
      simp [hrq, hnone]
    · have hqr : ¬ q = r := fun h => hrq h.symm
      simp [hrq, hqr]

/-- Where a file has been put, only it is new: a path that leads elsewhere led there before. -/
lemma follow_of_put_file {n : Nat} {here : Trail} {rest : Strings}
    (h : (t.put q (.file c m)).follow n here rest = .ok r) (hr : r ≠ q) : t.follow n here rest = .ok r := by
  have hwith {jump jump' : Trail → Strings → Except SystemCause Trail}
      (hjump : ∀ here rest, jump' here rest = .ok r → jump here rest = .ok r) {here : Trail} {rest : Strings}
      (h : (t.put q (.file c m)).followWith jump' here rest = .ok r) : t.followWith jump here rest = .ok r := by
    induction rest generalizing here with
    | nil => exact h
    | cons name rest ih =>
      rw [followWith] at h ⊢
      split at h
      · rename_i hup
        rw [if_pos hup]
        exact ih h
      rename_i hup
      split at h
      · cases h
      rename_i hlong
      rw [if_neg hup, if_neg hlong]
      dsimp only at h ⊢
      rw [entry?_put _ _ _ (by simp)] at h
      by_cases hq : here ++ [name] = q
      · -- the file ends the way
        rw [if_pos hq] at h
        dsimp only at h
        split at h
        · exact absurd (Except.ok.inj h).symm (hq ▸ hr)
        · cases h
      · rw [if_neg hq] at h
        split at h
        · cases h
        · exact ih h
        · exact h
        · exact hjump _ _ h
  induction n generalizing here rest with
  | zero => exact hwith (fun _ _ h => by cases h) h
  | succ n ih => exact hwith (fun _ _ h => ih h) h

lemma locate_of_put_file {cwd} (h : (t.put q (.file c m)).locate cwd p = .ok r) (hr : r ≠ q) :
    t.locate cwd p = .ok r := by
  rw [locate] at h ⊢
  split at h
  · cases h
  · rename_i hlong
    rw [if_neg hlong]
    exact follow_of_put_file h hr

lemma find?_eq_some_iff {cwd e} :
    t.find? cwd p = .ok (some e) ↔ holdsNull p = false ∧ ∃ r, t.locate cwd p = .ok r ∧ t.entry? r = some e := by
  unfold find?
  cases hnull : holdsNull p with
  | true => simp
  | false =>
    simp only [Bool.false_eq_true, if_false]
    split
    · rename_i r hr
      simp [hr]
    · rename_i hr
      simp [hr]
    · rename_i hr
      simp [hr]

lemma find?_of_isAbsolute (h : p.isAbsolute) (cwd cwd') : t.find? cwd p = t.find? cwd' p := by
  unfold find? locate
  simp only [h, if_true]

end FileTree

namespace Files

variable {p : Path} {c c' : Content} {m : Float} {w w' : Workspace}

lemma writeContent_apply (hnull : holdsNull p = false) (c w) : writeContent p c w = match w.files.target w.cwd p with
      | .ok q => match w.files.entry? q with
        | some .directory => (.error (.system .isDirectory p.toString), w)
        | _ => (.ok (), { w with files := w.files.put q (.file c w.clock) })
      | .error cause => (.error (.system cause p.toString), w) := by
  have hplace : newPlace p = (get >>= fun w => guarded p (w.files.target w.cwd p)) := by
    unfold newPlace
    rw [hnull]
    rfl
  rw [writeContent, hplace, bind_apply, bind_apply, get_apply]
  dsimp only
  cases w.files.target w.cwd p with
  | error cause => rfl
  | ok q =>
    change (match w.files.entry? q with
      | some .directory => throw (.system .isDirectory p.toString)
      | _ => set { w with files := w.files.put q (.file c w.clock) } : Action Unit) w = _
    dsimp only
    rcases w.files.entry? q with _ | ⟨⟨⟩ | _ | _⟩ <;> rfl

/-- What a file holds after it has been written is what was written, wherever the path leads. -/
lemma eq_of_writeContent (h : writeContent p c w = (.ok (), w'))
    (hfind : w'.files.find? w.cwd p = .ok (some (.file c' m))) : c' = c := by
  obtain ⟨hnull, r, hlocate, hentry⟩ := find?_eq_some_iff.1 hfind
  rw [writeContent_apply hnull] at h
  split at h
  · rename_i q htarget
    split at h
    · cases h
    · cases h
      by_cases hr : r = q
      · have hne : r ≠ [] := by
          rintro rfl
          cases hentry
        rw [entry?_put _ _ _ hne, if_pos hr] at hentry
        cases hentry
        rfl
      · have hbefore := locate_of_put_file hlocate hr
        have : w.files.target w.cwd p = .ok r := by rw [target, hbefore]
        exact absurd (Except.ok.inj (this.symm.trans htarget)) hr
  · cases h

lemma writeContent_of_error {e} (h : writeContent p c w = (.error e, w')) : w' = w := by
  cases hnull : holdsNull p with
  | true =>
    have hplace : newPlace p w = (.error nullFault, w) := by
      unfold newPlace
      rw [hnull]
      rfl
    rw [writeContent, bind_apply, hplace] at h
    cases h
    rfl
  | false =>
    rw [writeContent_apply hnull] at h
    split at h
    · split at h
      · cases h
        rfl
      · cases h
    · cases h
      rfl

lemma place_eq_ok_iff {r} :
    place p w = (.ok r, w') ↔ w' = w ∧ holdsNull p = false ∧ w.files.locate w.cwd p = .ok r := by
  unfold place
  cases hnull : holdsNull p with
  | true =>
    constructor
    · rintro ⟨⟩
    · rintro ⟨_, ⟨⟩, _⟩
  | false =>
    change guarded p (w.files.locate w.cwd p) w = _ ↔ _
    cases w.files.locate w.cwd p with
    | error cause =>
      constructor
      · rintro ⟨⟩
      · rintro ⟨_, _, ⟨⟩⟩
    | ok q =>
      constructor
      · rintro ⟨⟩
        exact ⟨rfl, rfl, rfl⟩
      · rintro ⟨rfl, _, ⟨⟩⟩
        rfl

/-- A file that is there can be written again. -/
lemma writeContent_of_find? (h : w.files.find? w.cwd p = .ok (some (.file c' m))) (c) :
    ∃ w', writeContent p c w = (.ok (), w') := by
  obtain ⟨hnull, r, hlocate, hentry⟩ := find?_eq_some_iff.1 h
  have htarget : w.files.target w.cwd p = .ok r := by rw [target, hlocate]
  rw [writeContent_apply hnull, htarget]
  dsimp only
  rw [hentry]
  exact ⟨_, rfl⟩

lemma content_eq_ok_iff : content p w = (.ok c, w') ↔ w' = w ∧ ∃ m, w.files.find? w.cwd p = .ok (some (.file c m)) := by
  rw [content, bind_eq_ok_iff]
  constructor
  · rintro ⟨r, v, hplace, h⟩
    obtain ⟨rfl, hnull, hlocate⟩ := place_eq_ok_iff.1 hplace
    rw [bind_apply, get_apply] at h
    dsimp only at h
    rcases hentry : v.files.entry? r with _ | ⟨⟨⟩ | ⟨d, m⟩ | _⟩ <;> rw [hentry] at h <;> cases h
    exact ⟨rfl, m, find?_eq_some_iff.2 ⟨hnull, r, hlocate, hentry⟩⟩
  · rintro ⟨rfl, m, hfind⟩
    obtain ⟨hnull, r, hlocate, hentry⟩ := find?_eq_some_iff.1 hfind
    refine ⟨r, w', place_eq_ok_iff.2 ⟨rfl, hnull, hlocate⟩, ?_⟩
    rw [bind_apply, get_apply]
    dsimp only
    rw [hentry]
    rfl

lemma entry?_apply (p w) : entry? p w = (w.files.find? w.cwd p, w) := ofExcept_apply _ w

lemma present_apply {e} (h : w.files.find? w.cwd p = .ok e) : present p w = (.ok e.isSome, w) := by
  rw [present, bind_apply, entry?_apply, h]
  rfl

lemma isDirectory_eq_ok_iff {b} :
    isDirectory p w = (.ok b, w') ↔ w' = w ∧ ∃ e, w.files.find? w.cwd p = .ok e ∧ FileTree.isDirectory e = b := by
  rw [isDirectory, bind_apply, entry?_apply]
  cases w.files.find? w.cwd p with
  | error e =>
    constructor
    · rintro ⟨⟩
    · rintro ⟨_, _, ⟨⟩, _⟩
  | ok e =>
    constructor
    · rintro ⟨⟩
      exact ⟨rfl, e, rfl, rfl⟩
    · rintro ⟨rfl, _, ⟨⟩, rfl⟩
      rfl

/-- A directory that is there is left. -/
lemma makeDirectories_of_directory (hroot : p.isAbsolute)
    (h : w.files.find? w.cwd p = .ok (some .directory)) : makeDirectories p w = (.ok (), w) := by
  obtain ⟨hnull, r, hlocate, hentry⟩ := find?_eq_some_iff.1 h
  have hgo (n) : makeDirectories.go p (n + 1) p w = (.ok (), w) := by
    rw [makeDirectories.go, bind_apply, get_apply]
    dsimp only
    rw [hlocate]
    dsimp only
    rw [hentry]
    rfl
  have hfull : (if p.isAbsolute then p else pathOf w.cwd / p) = p := if_pos hroot
  rw [makeDirectories, hnull]
  change (get >>= fun w => _ : Action Unit) w = _
  rw [bind_apply, get_apply]
  dsimp only
  rw [hfull]
  exact hgo _

end Files

end PatchReview
