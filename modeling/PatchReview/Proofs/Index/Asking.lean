import PatchReview.Index.Query
import PatchReview.Proofs.Grouping

/-!
# Rows in order

Rows are sorted with ties in place, so leaving rows out and sorting can be done in either order: what a revision does
not see has no influence on the order of what it sees.

The nodes that call one of some names are read from the table of calls, up to a limit. All that are read are call
sites, and when the rows fit under the limit all call sites are read.
-/

namespace PatchReview.Index

open List

variable {α : Type} {ix : Index} {rev node : String} {dir : Direction} {kinds : List String} {limit : Int64}
  {e : EdgeRow} {l : List α} {a : α} {key : α → String}

/-- Lists that agree on what is seen agree on every part of it. -/
lemma filter_congr_of_seen {l l' : List α} {seen p : α → Bool} (h : l'.filter seen = l.filter seen)
    (hp : ∀ a, p a → seen a) : l'.filter p = l.filter p := by
  rw [← filter_filter_of_imp fun a _ => hp a, h, filter_filter_of_imp fun a _ => hp a]

/-! ## Sorting a part -/

section

variable {le : α → α → Bool} (trans : ∀ a b c, le a b = true → le b c = true → le a c = true)
  (total : ∀ a b, (le a b || le b a) = true)

include trans total

/-- An item put in front of a list stands, once all is sorted, before exactly those that do not come before it. -/
lemma mergeSort_cons_eq (a) (l) : (a :: l).mergeSort le =
        (l.mergeSort le).filter (fun b => !le a b) ++ a :: (l.mergeSort le).filter (fun b => le a b) ∧
      (l.mergeSort le).filter (fun b => !le a b) ++ (l.mergeSort le).filter (fun b => le a b) = l.mergeSort le := by
  obtain ⟨l₁, l₂, h, hl, hbefore⟩ := mergeSort_cons trans total a l
  have hsorted := pairwise_mergeSort trans total (a :: l)
  rw [h, pairwise_append, pairwise_cons] at hsorted
  have hafter : ∀ b ∈ l₂, le a b := hsorted.2.1.1
  have h₁ : l₁.filter (fun b => !le a b) = l₁ := filter_eq_self.2 hbefore
  have h₁' : l₁.filter (fun b => le a b) = [] := filter_eq_nil_iff.2 fun b hb hle => by
    have := hbefore b hb
    simp [hle] at this
  have h₂ : l₂.filter (fun b => !le a b) = [] := filter_eq_nil_iff.2 fun b hb => by simp [hafter b hb]
  have h₂' : l₂.filter (fun b => le a b) = l₂ := filter_eq_self.2 hafter
  rw [h, hl, filter_append, filter_append, h₁, h₁', h₂, h₂', append_nil]
  exact ⟨rfl, rfl⟩

/-- Sorting with ties in place and leaving items out commute. -/
lemma filter_mergeSort (p : α → Bool) (l : List α) : (l.mergeSort le).filter p = (l.filter p).mergeSort le := by
  induction l with
  | nil => simp
  | cons a l ih =>
    obtain ⟨hcons, hsplit⟩ := mergeSort_cons_eq trans total a l
    by_cases hp : p a
    · rw [hcons, filter_append, filter_cons_of_pos hp, filter_cons_of_pos hp,
        (mergeSort_cons_eq trans total a (l.filter p)).1, filter_comm, ih, filter_comm, ih]
    · rw [hcons, filter_append, filter_cons_of_neg hp, ← filter_append, hsplit, ih, filter_cons_of_neg hp]

/-- Lists that agree on some items agree on them when they are chosen from and sorted. -/
lemma filter_mergeSort_congr {l l' : List α} {seen : α → Bool} (h : l'.filter seen = l.filter seen) (p : α → Bool) :
    ((l'.filter p).mergeSort le).filter seen = ((l.filter p).mergeSort le).filter seen := by
  rw [filter_mergeSort trans total, filter_mergeSort trans total, filter_comm, h, filter_comm]

end

section

variable {β : Type} [LE β] [DecidableLE β] [Std.IsLinearPreorder β] (key : α → β)

lemma sortOn_trans (a b c) (hab : decide (key a ≤ key b) = true) (hbc : decide (key b ≤ key c) = true) :
    decide (key a ≤ key c) = true :=
  decide_eq_true (Std.le_trans (of_decide_eq_true hab) (of_decide_eq_true hbc))

lemma sortOn_total (a b) : (decide (key a ≤ key b) || decide (key b ≤ key a)) = true := by
  simpa using Std.le_total (a := key a)

end

lemma mem_of_pair_sublist_cons {a b : α} (h : [a, b].Sublist (b :: l)) : b ∈ l := by
  cases h with
  | cons _ h => exact h.subset (by simp)
  | cons_cons _ h => exact h.subset (by simp)

/-- Of items in order, the first is one of a least key, and of several such the one that was first before. -/
lemma head?_sortOn_iff (hl : l.Nodup) : (sortOn key l).head? = some a ↔
      ∃ before after, l = before ++ a :: after ∧ (∀ t ∈ before, key a < key t) ∧ ∀ t ∈ after, key a ≤ key t := by
  have hperm : (sortOn key l).Perm l := mergeSort_perm l _
  have hnodup := hperm.nodup_iff.2 hl
  have hsorted := pairwise_mergeSort (sortOn_trans key) (sortOn_total key) l
  have hpair : ∀ {x y : α}, key x ≤ key y → [x, y].Sublist l → [x, y].Sublist (sortOn key l) := fun hle hsub =>
    pair_sublist_mergeSort (sortOn_trans key) (sortOn_total key) (decide_eq_true hle) hsub
  change (sortOn key l).Pairwise _ at hsorted
  cases hs : sortOn key l with
  | nil =>
    rw [hs] at hperm
    obtain rfl := hperm.nil_eq
    simp
  | cons u rest =>
    rw [hs, pairwise_cons] at hsorted
    rw [hs, nodup_cons] at hnodup
    rw [hs] at hperm hpair
    have hleast : ∀ t ∈ l, key u ≤ key t := by
      intro t ht
      rcases mem_cons.1 (hperm.mem_iff.2 ht) with rfl | ht
      · exact String.le_refl _
      · exact of_decide_eq_true (hsorted.1 t ht)
    constructor
    · intro hu
      obtain rfl : u = a := Option.some.inj hu
      obtain ⟨before, after, rfl⟩ := append_of_mem (hperm.mem_iff.1 mem_cons_self)
      refine ⟨before, after, rfl, ?_, fun t ht => hleast t (by simp [ht])⟩
      intro t ht
      by_contra hlt
      -- An item of the same key that stood before it would still do so.
      have hsub : [t, u].Sublist (before ++ u :: after) :=
        (singleton_sublist.2 ht).append ((nil_sublist after).cons_cons u)
      exact hnodup.1 (mem_of_pair_sublist_cons (hpair (String.not_lt.1 hlt) hsub))
    · rintro ⟨before, after, rfl, hbefore, hafter⟩
      have hu : u ∈ before ++ a :: after := hperm.mem_iff.1 mem_cons_self
      rcases mem_append.1 hu with hu | hu
      · exact absurd (hleast a (by simp)) (String.not_le.2 (hbefore u hu))
      · rcases mem_cons.1 hu with rfl | hu
        · rfl
        · have hsub : [a, u].Sublist (before ++ a :: after) :=
            ((singleton_sublist.2 hu).cons_cons a).trans (sublist_append_right _ _)
          exact absurd (mem_of_pair_sublist_cons (hpair (hafter u hu) hsub)) hnodup.1

lemma sortOn_of_key {k} (h : ∀ a ∈ l, key a = k) : sortOn key l = l := by
  refine mergeSort_of_pairwise (pairwise_of_forall_mem_list fun a ha b hb => ?_)
  rw [h a ha, h b hb]
  exact decide_eq_true (String.le_refl k)

/-! ## Limits -/

lemma mem_of_mem_limited (h : a ∈ limited limit l) : a ∈ l := by
  unfold limited at h
  split at h
  · exact h
  · exact mem_of_mem_take h

lemma limited_of_le (h : l.length ≤ limit.toInt) : limited limit l = l := by
  unfold limited
  split
  · rfl
  · exact take_of_length_le (by omega)

lemma limited_one (l : List α) : limited 1 l = l.head?.toList := by cases l <;> rfl

lemma mem_limited_of_head? (hlimit : limit ≠ 0) (ha : l.head? = some a) : a ∈ limited limit l := by
  cases l with
  | nil => cases ha
  | cons b l =>
    cases ha
    have hne : limit.toInt ≠ 0 := fun h => hlimit (Int64.toInt_inj.1 h)
    unfold limited
    split
    · exact mem_cons_self
    · obtain ⟨n, hn⟩ : ∃ n, limit.toInt.toNat = n + 1 := ⟨limit.toInt.toNat - 1, by omega⟩
      rw [hn]
      exact mem_cons_self

/-! ## Edges of a revision -/

/-- The edges of some kinds that a revision sees. -/
def seenEdges (ix : Index) (rev : String) (kinds : Strings) : List EdgeRow :=
  ix.edges.filter fun e => kinds.contains e.kind && ix.visibleAt rev e.fileId e.blob

/-- A limit that the edges at a node do not exceed leaves none out. -/
lemma edgesAtRev_perm (dir) (hkinds : kinds ≠ [])
    (hfew : ((ix.seenEdges rev kinds).filter (dir.near · == node)).length ≤ limit.toInt) :
    (ix.edgesAtRev rev dir kinds limit node).Perm ((ix.seenEdges rev kinds).filter (dir.near · == node)) := by
  have hperm : ((ix.edgesAt dir node).filter fun e =>
      (kinds.isEmpty || kinds.contains e.kind) && ix.visibleAt rev e.fileId e.blob).Perm
        ((ix.seenEdges rev kinds).filter (dir.near · == node)) := by
    refine ((mergeSort_perm _ _).filter _).trans (List.Perm.of_eq ?_)
    rw [seenEdges, filter_filter, filter_filter]
    refine filter_congr fun e _ => ?_
    rw [isEmpty_eq_false_iff.2 hkinds, Bool.false_or, Bool.and_comm]
  unfold edgesAtRev
  rwa [limited_of_le (hperm.length_eq ▸ hfew)]

/-- The edges that a revision sees at a node, whatever the limit. -/
lemma mem_edgesAtRev (h : e ∈ ix.edgesAtRev rev dir kinds limit node) :
    e ∈ ix.edges ∧ dir.near e = node ∧ (kinds.isEmpty || kinds.contains e.kind) ∧
      ix.visibleAt rev e.fileId e.blob := by
  obtain ⟨he, hseen⟩ := mem_filter.1 (mem_of_mem_limited h)
  obtain ⟨he, hnear⟩ := mem_filter.1 (mem_mergeSort.1 he)
  rw [Bool.and_eq_true] at hseen
  exact ⟨he, beq_iff_eq.1 hnear, hseen⟩

/-- Without a limit no edge is left out. -/
lemma mem_edgesAtRev_of_neg (dir) (hl : limit.toInt < 0) (he : e ∈ ix.edges) (hk : kinds.contains e.kind)
    (hv : ix.visibleAt rev e.fileId e.blob) : e ∈ ix.edgesAtRev rev dir kinds limit (dir.near e) := by
  unfold edgesAtRev limited
  rw [if_pos hl]
  refine mem_filter.2 ⟨mem_mergeSort.2 (mem_filter.2 ⟨he, beq_self_eq_true _⟩), ?_⟩
  rw [hk, hv, Bool.or_true]
  rfl

section

variable {lang n : String} {names : List String} {table : Graph.NamesByLanguage}

/-! ## Names in order -/

lemma sortedOnce_spec (ws) : (sortedOnce ws).Nodup ∧ ∀ x, x ∈ sortedOnce ws ↔ x ∈ ws := by
  have hsorted : (ws.mergeSort fun a b => decide (a ≤ b)).Pairwise (· ≤ ·) :=
    (pairwise_mergeSort (sortOn_trans id) (sortOn_total id) ws).imp of_decide_eq_true
  obtain ⟨hmem, hpairwise⟩ := eraseReps_spec (fun _ _ => String.le_antisymm) hsorted
  exact ⟨hpairwise.imp And.right, fun x => (hmem x).trans mem_mergeSort⟩

/-! ## Sites -/

section

variable (ix lang table)

/-- Whether a row calls one of some names in a file of a language; the empty text stands for all languages. -/
def callsOneOf (names : Strings) (c : CallRow) : Bool :=
  names.contains c.name && (lang == "" || ix.files.any fun f => f.id == c.fileId && f.lang == lang)

/-- The rows that call a name listed for a language. -/
def siteRows : List CallRow :=
  ix.calls.filter (ix.callsOneOf lang (Graph.Policy.namesIn table lang))

/-- A node that calls a name listed for a language. -/
def IsSite (n : String) : Prop := ∃ c ∈ ix.siteRows lang table, c.src = n

end

lemma sitesOf_eq (ix : Index) (lang) (table) : ∃ rows, rows.Perm (ix.siteRows lang table) ∧
      ix.sitesOf lang table = (limited callSiteLimit rows).map (·.src) := by
  obtain ⟨hnodup, hmem⟩ := sortedOnce_spec (Graph.Policy.namesIn table lang)
  refine ⟨_, ?_, rfl⟩
  refine ((perm_flatMap_keys (fun n => mergeSort_perm (ix.calls.filter (·.name == n)) _) hnodup).filter _).trans
    (List.Perm.of_eq ?_)
  rw [filter_filter]
  refine filter_congr fun c _ => ?_
  have hnames : (sortedOnce (Graph.Policy.namesIn table lang)).contains c.name =
      (Graph.Policy.namesIn table lang).contains c.name := by
    rw [Bool.eq_iff_iff, contains_iff_mem, contains_iff_mem, hmem]
  rw [hnames, Bool.and_comm]
  rfl

lemma isSite_of_mem (h : n ∈ ix.sitesOf lang table) : ix.IsSite lang table n := by
  obtain ⟨rows, hperm, hsites⟩ := ix.sitesOf_eq lang table
  rw [hsites] at h
  obtain ⟨c, hc, hsrc⟩ := mem_map.1 h
  exact ⟨c, hperm.subset (mem_of_mem_limited hc), hsrc⟩

/-- While no more rows call the names than are read, every site is read. -/
lemma mem_of_isSite (hfew : (ix.siteRows lang table).length ≤ callSiteLimit.toInt) (h : ix.IsSite lang table n) :
    n ∈ ix.sitesOf lang table := by
  obtain ⟨rows, hperm, hsites⟩ := ix.sitesOf_eq lang table
  obtain ⟨c, hc, hsrc⟩ := h
  rw [hsites, limited_of_le (hperm.length_eq ▸ hfew)]
  exact mem_map.2 ⟨c, hperm.symm.subset hc, hsrc⟩

end

end PatchReview.Index
