import Mathlib.Data.List.Chain
import PatchReview.Proofs.Distance
import PatchReview.Proofs.Index.Asking

/-!
# Paths of taint

A search takes paths off a stack. It reports a path that has come to a sink, gives up one that is too long or has come
to a sanitizer, and extends any other by the neighbours not visited yet. So every path it reports is a walk without
repetition from its start to a sink, and no sink is reported twice from one start.
-/

namespace PatchReview.Index

open List List TaintSearch

namespace TaintSearch

variable {s : TaintSearch} {a m n : String} {q rest visited targets : Strings} {done stack found : List Strings}
  {fuel : Nat}

/-! ## Paths taken off the stack -/

section

variable (s)

/-- Whether a path has come to a sink. -/
def atSink (q : Strings) : Bool := q.head?.any s.sinks.contains

/-- Whether a search goes on from the end of a path. -/
def goesOn : Strings → Bool
  | [] => false
  | n :: rest => !s.sinks.contains n && decide (((n :: rest).length : Int) < s.maxSteps) && !s.sanitizers.contains n

/-- The stack and the visited nodes once a path has been taken off. -/
def after (q : Strings) (state : List Strings × Strings) : List Strings × Strings :=
  match q with
  | [] => state
  | n :: rest => if s.goesOn (n :: rest) then s.push n (n :: rest) state else state

/-- The paths that a search takes off its stack, whatever it reports. -/
def taken : Nat → List Strings → Strings → List Strings
  | 0, _, _ => []
  | _ + 1, [], _ => []
  | fuel + 1, q :: stack, visited => q :: taken fuel (s.after q (stack, visited)).1 (s.after q (stack, visited)).2

/-- The paths to sinks among those that a search from `a` takes off its stack. -/
def reports (fuel : Nat) (a : String) : List Strings :=
  ((s.taken fuel [[a]] [a]).filter s.atSink).map reverse

end

lemma goesOn_cons_iff : s.goesOn (n :: rest) ↔
    n ∉ s.sinks ∧ (n :: rest).length < s.maxSteps ∧ n ∉ s.sanitizers := by
  simp [goesOn, and_assoc]

lemma atSink_iff : s.atSink q ↔ ∃ z ∈ s.sinks, q.head? = some z := by cases q <;> simp [atSink]

lemma run_cons (s : TaintSearch) (fuel q stack visited found) : s.run (fuel + 1) (q :: stack) visited found =
      if s.maxPaths ≤ found.length then found
      else s.run fuel (s.after q (stack, visited)).1 (s.after q (stack, visited)).2
        (if s.atSink q then found ++ [q.reverse] else found) := by
  rw [run.eq_def]
  dsimp only
  split
  · rfl
  · cases q with
    | nil => rfl
    | cons n rest =>
      by_cases hsink : n ∈ s.sinks
      · simp [after, goesOn, atSink, hsink]
      · by_cases hlong : s.maxSteps ≤ (n :: rest).length
        · have hshort : ¬ (n :: rest).length < s.maxSteps := by omega
          simp only [after, goesOn, atSink, hlong, hshort]
          simp [hsink]
        · have hshort : (n :: rest).length < s.maxSteps := by omega
          by_cases hclean : n ∈ s.sanitizers
          · simp [after, goesOn, atSink, hsink, hclean]
          · simp only [after, goesOn, atSink, hlong, hshort]
            simp [hsink, hclean]

/-- A search reports the paths to sinks that it takes off its stack, as long as there is room. -/
lemma run_eq (fuel) (stack) (visited) (found) :
    s.run fuel stack visited found = found ++ (((s.taken fuel stack visited).filter s.atSink).map reverse).take
        (s.maxPaths - found.length).toNat := by
  induction fuel generalizing stack visited found with
  | zero => simp [run, taken]
  | succ fuel ih =>
    cases stack with
    | nil => simp [run, taken]
    | cons q stack =>
      rw [run_cons, taken, ih]
      by_cases hfull : s.maxPaths ≤ found.length
      · simp [hfull]
      · obtain ⟨k, hk⟩ : ∃ k, (s.maxPaths - found.length).toNat = k + 1 := ⟨_, (Nat.succ_pred (by omega)).symm⟩
        have hk' : (s.maxPaths - ((found.length : Int) + 1)).toNat = k := by omega
        by_cases hsink : s.atSink q
        · simp [hfull, hsink, hk, hk']
        · simp [hfull, hsink]

/-- The paths from several starts are what the searches report one after the other, up to the bound. -/
lemma paths_eq (s : TaintSearch) (fuel starts) :
    s.paths fuel starts = (starts.flatMap (s.reports fuel)).take s.maxPaths.toNat := by
  have hfold : ∀ (starts : Strings) (found : List Strings),
      starts.foldl (fun found n => if s.maxPaths ≤ found.length then found else s.run fuel [[n]] [n] found) found =
        found ++ (starts.flatMap (s.reports fuel)).take (s.maxPaths - found.length).toNat := by
    intro starts
    induction starts with
    | nil => simp
    | cons a starts ih =>
      intro found
      have hone : (if s.maxPaths ≤ found.length then found else s.run fuel [[a]] [a] found) =
          found ++ (s.reports fuel a).take (s.maxPaths - found.length).toNat := by
        rw [run_eq]
        split
        · have hnone : (s.maxPaths - found.length).toNat = 0 := by omega
          simp [hnone]
        · rfl
      have hroom : (s.maxPaths - (found ++ (s.reports fuel a).take (s.maxPaths - found.length).toNat).length).toNat =
          (s.maxPaths - found.length).toNat - (s.reports fuel a).length := by
        rw [length_append, length_take]
        omega
      rw [foldl_cons, hone, ih, hroom, flatMap_cons, take_append, append_assoc]
  unfold paths
  simpa using hfold starts []

/-! ## What taking a path changes -/

/-- Extending a path puts those of its neighbours on the stack that were not visited, each once. -/
lemma push_eq (s : TaintSearch) (n path stack visited) : s.push n path (stack, visited) =
    ((fresh visited (s.next n)).reverse.map (· :: path) ++ stack, (fresh visited (s.next n)).reverse ++ visited) := by
  unfold push
  induction s.next n generalizing stack visited with
  | nil => rfl
  | cons m ms ih =>
    rw [foldl_cons, fresh]
    dsimp only
    by_cases hm : m ∈ visited
    · rw [if_pos (contains_iff_mem.2 hm), if_pos hm, ih]
    · rw [if_neg (mt contains_iff_mem.1 hm), if_neg hm, ih]
      simp

/-- The nodes that a search goes on to from a path. -/
def onward (s : TaintSearch) : Strings → Strings
  | [] => []
  | n :: rest => if s.goesOn (n :: rest) then s.next n else []

lemma mem_onward_iff : m ∈ s.onward (n :: rest) ↔ s.goesOn (n :: rest) ∧ m ∈ s.next n := by
  rw [onward]
  split <;> simp [*]

/-- Taking a path off the stack leaves the others there, and puts only longer ones on it, to nodes not visited
before. -/
lemma after_eq (s : TaintSearch) (q stack visited) : s.after q (stack, visited) =
    ((fresh visited (s.onward q)).reverse.map (· :: q) ++ stack, (fresh visited (s.onward q)).reverse ++ visited) := by
  cases q with
  | nil => rfl
  | cons n rest =>
    rw [after, onward]
    split
    · exact s.push_eq ..
    · rfl

/-- A path that is taken off leaves as many nodes fewer to visit as it puts paths on the stack. -/
lemma length_after_lt (hnext : ∀ n, s.next n ⊆ targets)
    (hfuel : (q :: stack).length + (unvisited targets visited).length < fuel + 1) :
    (s.after q (stack, visited)).1.length + (unvisited targets (s.after q (stack, visited)).2).length < fuel := by
  have honward : s.onward q ⊆ targets := by
    intro m hm
    cases q with
    | nil => cases hm
    | cons n rest => exact hnext n (mem_onward_iff.1 hm).2
  have hle := length_fresh_add_le visited ((fresh visited (s.onward q)).reverse ++ visited) honward
    fun m => by simp [or_comm]
  rw [after_eq]
  simp only [length_append, length_map, length_reverse, length_cons] at hfuel ⊢
  omega

/-! ## Trails -/

/-- A path on the stack, its last node first: it leads from `a` along neighbours without repetition, and before its last
node it has met neither a sink nor a sanitizer. -/
structure Trail (s : TaintSearch) (a : String) (q : Strings) : Prop where
  start : q.getLast? = some a
  nodup : q.Nodup
  length : (q.length : Int) ≤ s.maxSteps
  chain : q.IsChain fun later earlier => later ∈ s.next earlier
  clear : ∀ n ∈ q.tail, n ∉ s.sinks ∧ n ∉ s.sanitizers

lemma trail_singleton (hsteps : 1 ≤ s.maxSteps) (a) : s.Trail a [a] where
  start := rfl
  nodup := nodup_singleton a
  length := by simpa using hsteps
  chain := .singleton a
  clear := by simp

lemma Trail.extend (h : s.Trail a q) (hm : m ∈ s.onward q) (hnew : m ∉ q) : s.Trail a (m :: q) := by
  cases q with
  | nil => cases hm
  | cons n rest =>
    obtain ⟨hgo, hm⟩ := mem_onward_iff.1 hm
    obtain ⟨hsink, hshort, hclean⟩ := goesOn_cons_iff.1 hgo
    refine ⟨?_, nodup_cons.2 ⟨hnew, h.nodup⟩, ?_, .cons_cons hm h.chain, forall_mem_cons.2 ⟨⟨hsink, hclean⟩, h.clear⟩⟩
    · rw [getLast?_cons_cons]
      exact h.start
    · rw [length_cons]
      omega

/-! ## What a search keeps -/

/-- A search from `a` on its way, with the paths that it has taken off its stack: all paths are trails, each visited
node is the end of one, and what a path extends was taken off before it. -/
structure Searching (s : TaintSearch) (a : String) (done stack : List Strings) (visited : Strings) : Prop where
  trail : ∀ q ∈ done ++ stack, s.Trail a q ∧ q ⊆ visited
  ends : ((done ++ stack).map head?).Perm (visited.map some)
  nodup : visited.Nodup
  start : a ∈ visited
  parent : ∀ q ∈ done ++ stack, q.tail ≠ [] → q.tail ∈ done
  closed : ∀ q ∈ done, s.onward q ⊆ visited

lemma searching_start (hsteps : 1 ≤ s.maxSteps) (a) : s.Searching a [] [[a]] [a] where
  trail := by
    intro q hq
    cases mem_singleton.1 hq
    exact ⟨trail_singleton hsteps a, List.Subset.refl _⟩
  ends := .refl _
  nodup := nodup_singleton a
  start := mem_cons_self
  parent := by simp
  closed := by simp

lemma Searching.after (h : s.Searching a done (q :: stack) visited) :
    s.Searching a (done ++ [q]) (s.after q (stack, visited)).1 (s.after q (stack, visited)).2 := by
  rw [after_eq]
  have hnew (m) : m ∈ (fresh visited (s.onward q)).reverse ↔ m ∈ s.onward q ∧ m ∉ visited := by
    rw [mem_reverse, mem_fresh_iff]
  have hnodup := nodup_reverse.2 (nodup_fresh visited (s.onward q))
  generalize (fresh visited (s.onward q)).reverse = new at hnew hnodup
  have hperm : (done ++ [q] ++ (new.map (· :: q) ++ stack)).Perm (new.map (· :: q) ++ (done ++ q :: stack)) := by
    refine perm_iff_count.2 fun p => ?_
    simp only [count_append, count_cons, count_nil]
    omega
  constructor
  · intro p hp
    rcases mem_append.1 (hperm.mem_iff.1 hp) with hp | hp
    · obtain ⟨m, hm, rfl⟩ := mem_map.1 hp
      obtain ⟨htrail, hsub⟩ := h.trail q (by simp)
      exact ⟨htrail.extend ((hnew m).1 hm).1 fun hmem => ((hnew m).1 hm).2 (hsub hmem),
        cons_subset.2 ⟨mem_append_left _ hm, subset_append_of_subset_right _ hsub⟩⟩
    · exact (h.trail p hp).imp_right (subset_append_of_subset_right _)
  · refine (hperm.map head?).trans ?_
    simpa [Function.comp_def] using h.ends.append_left (new.map some)
  · exact nodup_append'.2 ⟨hnodup, h.nodup, fun m hm => ((hnew m).1 hm).2⟩
  · exact mem_append_right _ h.start
  · intro p hp hne
    rcases mem_append.1 (hperm.mem_iff.1 hp) with hp | hp
    · obtain ⟨m, -, rfl⟩ := mem_map.1 hp
      simp
    · exact mem_append_left _ (h.parent p hp hne)
  · intro p hp m hm
    rcases mem_append.1 hp with hp | hp
    · exact mem_append_right _ (h.closed p hp hm)
    · rw [mem_singleton.1 hp] at hm
      rw [mem_append, hnew]
      tauto

/-- With enough fuel a search ends with an empty stack. -/
lemma Searching.run (h : s.Searching a done stack visited) (fuel) :
    ∃ stack' visited', s.Searching a (done ++ s.taken fuel stack visited) stack' visited' ∧
      ∀ targets, (∀ n, s.next n ⊆ targets) → stack.length + (unvisited targets visited).length < fuel → stack' = [] := by
  fun_induction taken s fuel stack visited generalizing done with
  | case1 => exact ⟨_, _, by simpa using h, by omega⟩
  | case2 => exact ⟨[], _, by simpa using h, fun _ _ _ => rfl⟩
  | case3 fuel q stack visited ih =>
    obtain ⟨stack', visited', hrest, hend⟩ := ih h.after
    refine ⟨stack', visited', by simpa using hrest, fun targets hnext hfuel => ?_⟩
    exact hend targets hnext (length_after_lt hnext hfuel)

section

variable (hsteps : 1 ≤ s.maxSteps)

include hsteps

lemma exists_searching (fuel a) : ∃ stack visited, s.Searching a (s.taken fuel [[a]] [a]) stack visited ∧
    ∀ targets, (∀ n, s.next n ⊆ targets) → 1 + (unvisited targets [a]).length < fuel → stack = [] :=
  (searching_start hsteps a).run fuel

/-- Every path that a search takes off its stack is a trail from its start. -/
lemma trail_of_mem_taken (hq : q ∈ s.taken fuel [[a]] [a]) : s.Trail a q := by
  obtain ⟨_, _, h, -⟩ := exists_searching hsteps fuel a
  exact (h.trail q (mem_append_left _ hq)).1

/-- A search takes at most one path to a node off its stack. -/
lemma nodup_heads_taken (fuel a) : ((s.taken fuel [[a]] [a]).map head?).Nodup := by
  obtain ⟨_, _, h, -⟩ := exists_searching hsteps fuel a
  have hall := h.ends.nodup_iff.2 (h.nodup.map (Option.some_injective _))
  rw [map_append] at hall
  exact hall.of_append_left

/-- All that a path extends, down to its start, was taken off. -/
lemma suffix_mem_taken (hq : q ∈ s.taken fuel [[a]] [a]) {q'} (hsuffix : q' <:+ q) (hne : q' ≠ []) :
    q' ∈ s.taken fuel [[a]] [a] := by
  obtain ⟨_, _, h, -⟩ := exists_searching hsteps fuel a
  induction q with
  | nil => exact absurd (suffix_nil.1 hsuffix) hne
  | cons x rest ih =>
    rcases suffix_cons_iff.1 hsuffix with rfl | hrest
    · exact hq
    · have htail : rest ≠ [] := fun h => hne (suffix_nil.1 (h ▸ hrest))
      exact ih (h.parent _ (mem_append_left _ hq) htail) hrest

/-! ## Whole searches -/

/-- What a search from `a` may report: trails to sinks, each sink once. -/
structure Reports (s : TaintSearch) (a : String) (paths : List Strings) : Prop where
  trail : ∀ p ∈ paths, s.Trail a p.reverse ∧ ∃ z ∈ s.sinks, p.getLast? = some z
  once : (paths.map getLast?).Nodup

lemma reports_reports (fuel a) : s.Reports a (s.reports fuel a) where
  trail := by
    intro p hp
    obtain ⟨q, hq, rfl⟩ := mem_map.1 hp
    obtain ⟨hq, hsink⟩ := mem_filter.1 hq
    rw [reverse_reverse, getLast?_reverse]
    exact ⟨trail_of_mem_taken hsteps hq, atSink_iff.1 hsink⟩
  once := by
    rw [reports, map_map, show getLast? ∘ reverse = head? from funext fun _ => getLast?_reverse]
    exact (nodup_heads_taken hsteps fuel a).sublist (filter_sublist.map _)

/-- The paths of a search from several starts are what the searches from each of them may report, one after the
other. -/
lemma paths_reports (fuel starts) : ∃ groups : List (List Strings), s.paths fuel starts = groups.flatten ∧
      List.Forall₂ s.Reports starts groups := by
  rw [paths_eq]
  generalize s.maxPaths.toNat = k
  induction starts generalizing k with
  | nil => exact ⟨[], by simp, .nil⟩
  | cons a starts ih =>
    obtain ⟨groups, hflat, hall⟩ := ih (k - (s.reports fuel a).length)
    have h := reports_reports hsteps fuel a
    refine ⟨(s.reports fuel a).take k :: groups, ?_, .cons ⟨fun p hp => h.trail p (mem_of_mem_take hp), ?_⟩ hall⟩
    · rw [flatMap_cons, take_append, hflat, flatten_cons]
    · exact h.once.sublist ((take_sublist _ _).map _)

end

lemma length_paths_le (s : TaintSearch) (fuel starts) : (s.paths fuel starts).length ≤ s.maxPaths.toNat := by
  rw [paths_eq]
  exact length_take_le _ _

end TaintSearch

/-! ## Paths of an index -/

/-- The names whose call sites paths start at: sources, or sinks when edges are followed backwards. -/
def Direction.starts : Direction → Graph.Policy → Graph.NamesByLanguage
  | .out, p => p.sources
  | .into, p => p.sinks

/-- The names whose call sites paths end at. -/
def Direction.ends : Direction → Graph.Policy → Graph.NamesByLanguage
  | .out, p => p.sinks
  | .into, p => p.sources

section

variable {ix : Index} {dir : Direction} {lang m n : String} {table : Graph.NamesByLanguage} {p : Graph.Policy}
  {o : TaintOptions} {kinds : List String} {limit : Int64}

variable (ix dir lang p o) in
/-- The search behind the taint paths of an index. -/
def taintSearch : TaintSearch where
  next := ix.neighborsAlong dir o.kinds o.perNode
  sinks := ix.sitesOf lang (dir.ends p)
  sanitizers := ix.sitesOf lang p.sanitizers
  maxSteps := o.maxSteps
  maxPaths := o.maxPaths

lemma taint_eq (ix : Index) (dir lang p o) : ix.taint dir lang p o =
      (ix.taintSearch dir lang p o).paths (ix.edges.length + 2) (ix.sitesOf lang (dir.starts p)) := by
  cases dir <;> rfl

lemma mem_neighborsAlong (h : m ∈ ix.neighborsAlong dir kinds limit n) :
    ∃ e ∈ ix.edges, e.kind ∈ kinds ∧ dir.near e = n ∧ dir.far e = m := by
  obtain ⟨e, he, hfar⟩ := mem_map.1 h
  obtain ⟨he, hkind⟩ := mem_filter.1 (mem_of_mem_limited he)
  obtain ⟨he, hnear⟩ := mem_filter.1 (mem_mergeSort.1 he)
  exact ⟨e, he, contains_iff_mem.1 hkind, beq_iff_eq.1 hnear, hfar⟩

/-- No node of a list is a call site of the names among those that are read, and none is one at all when no more rows
call the names than are read. -/
structure Avoids (ix : Index) (lang : String) (table : Graph.NamesByLanguage) (nodes : Strings) : Prop where
  read : ∀ n ∈ nodes, n ∉ ix.sitesOf lang table
  any : ((ix.siteRows lang table).length : Int) ≤ callSiteLimit.toInt → ∀ n ∈ nodes, ¬ ix.IsSite lang table n

lemma avoids_of_read {nodes} (h : ∀ n ∈ nodes, n ∉ ix.sitesOf lang table) : ix.Avoids lang table nodes :=
  ⟨h, fun hfew n hn hsite => h n hn (mem_of_isSite hfew hsite)⟩

variable (ix dir lang p o) in
/-- A path of taint from `a`: it starts and ends at call sites of the right names, repeats no node, is not too long,
follows stored edges, and avoids the sites it could end at and the sanitizers before its last node. -/
structure TaintPath (a : String) (path : Strings) : Prop where
  start : path.head? = some a ∧ ix.IsSite lang (dir.starts p) a
  finish : ∃ z, path.getLast? = some z ∧ ix.IsSite lang (dir.ends p) z
  nodup : path.Nodup
  length : (path.length : Int) ≤ o.maxSteps
  joined : path.IsChain fun m n => ∃ e ∈ ix.edges, e.kind ∈ o.kinds ∧ dir.near e = m ∧ dir.far e = n
  avoidsEnds : ix.Avoids lang (dir.ends p) path.dropLast
  avoidsSanitizers : ix.Avoids lang p.sanitizers path.dropLast

lemma TaintPath.of_trail {a path} (ha : a ∈ ix.sitesOf lang (dir.starts p))
    (h : (ix.taintSearch dir lang p o).Trail a path.reverse)
    (hz : ∃ z ∈ (ix.taintSearch dir lang p o).sinks, path.getLast? = some z) : TaintPath ix dir lang p o a path := by
  have hclear : ∀ n ∈ path.dropLast, n ∉ ix.sitesOf lang (dir.ends p) ∧ n ∉ ix.sitesOf lang p.sanitizers := by
    intro n hn
    refine h.clear n ?_
    rw [tail_reverse]
    exact mem_reverse.2 hn
  obtain ⟨z, hsink, hlast⟩ := hz
  refine ⟨⟨?_, isSite_of_mem ha⟩, ⟨z, hlast, isSite_of_mem hsink⟩, nodup_reverse.1 h.nodup, ?_, ?_,
    avoids_of_read fun n hn => (hclear n hn).1, avoids_of_read fun n hn => (hclear n hn).2⟩
  · rw [← getLast?_reverse]
    exact h.start
  · rw [← length_reverse]
    exact h.length
  · exact (isChain_reverse.1 h.chain).imp fun _ _ hnext => mem_neighborsAlong hnext

/-- The paths of taint are, for each start in turn, paths from it to different ends, and no more than asked for. -/
theorem taint_paths_sound (ix : Index) (dir : Direction) (lang : String) (p : Graph.Policy) (o : TaintOptions)
    (hsteps : 1 ≤ o.maxSteps) :
    (∃ groups : List (List (List String)), ix.taint dir lang p o = groups.flatten ∧
      List.Forall₂ (fun a paths => (∀ path ∈ paths, TaintPath ix dir lang p o a path) ∧
        (paths.map List.getLast?).Nodup) (ix.sitesOf lang (dir.starts p)) groups) ∧
      (ix.taint dir lang p o).length ≤ o.maxPaths.toNat := by
  rw [taint_eq]
  refine ⟨?_, length_paths_le _ _ _⟩
  obtain ⟨groups, hflat, hall⟩ :=
    paths_reports (s := ix.taintSearch dir lang p o) hsteps (ix.edges.length + 2)
      (ix.sitesOf lang (dir.starts p))
  have hmem := (List.forall₂_and_left (p := (· ∈ ix.sitesOf lang (dir.starts p))) _ _).mpr ⟨fun _ ha => ha, hall⟩
  refine ⟨groups, hflat, hmem.imp fun a paths h => ⟨fun path hpath => ?_, h.2.once⟩⟩
  obtain ⟨htrail, hz⟩ := h.2.trail path hpath
  exact .of_trail h.1 htrail hz

end

/-! ## Two stores -/

/-- A policy with one source, one sink and one sanitizer. -/
def plainPolicy : Graph.Policy where
  sources := [("python", ["src"])]
  sinks := [("python", ["snk"])]
  sanitizers := [("python", ["san"])]

/-- An open call in the file with id 1. -/
def plainCall (node name : String) : CallRow := ⟨"x", 1, node, name, none, 0, "\x7b\x7d"⟩

/-- A data flow edge in that file. -/
def plainEdge (src dst : String) : EdgeRow := ⟨"x", 1, src, dst, "DDG", "\x7b\x7d"⟩

/-- A store of one file with open calls and data flow only; its rows are read in the order they were added. -/
structure Plain (ix : Index) : Prop where
  files : ix.files = [⟨1, "/p.py", "python"⟩]
  call : ∀ c ∈ ix.calls, c.resolved = 0 ∧ c.fileId = 1
  edge : ∀ e ∈ ix.edges, e.kind = "DDG"

section

variable {ix : Index} (h : Plain ix)

include h

lemma Plain.sitesOf_eq (table name) (hnames : Graph.Policy.namesIn table "python" = [name]) :
    ix.sitesOf "python" table = ((ix.calls.filter (·.name == name)).take callSiteLimit.toInt.toNat).map (·.src) := by
  have honce : sortedOnce [name] = [name] := by
    simp [sortedOnce, eraseReps, eraseRepsBy, eraseRepsBy.loop]
  have hopen : ∀ c ∈ ix.calls.filter (·.name == name), c.resolved = 0 ∧ c.fileId = 1 :=
    fun c hc => h.call c (mem_filter.1 hc).1
  have hsorted : (ix.calls.filter (·.name == name)).mergeSort (fun a b => decide (a.resolved ≤ b.resolved)) =
      ix.calls.filter (·.name == name) := by
    refine mergeSort_of_pairwise (pairwise_of_forall_mem_list fun a ha b hb => ?_)
    rw [(hopen a ha).1, (hopen b hb).1]
    rfl
  unfold sitesOf callSites
  dsimp only
  rw [hnames, honce, flatMap_singleton, hsorted, filter_eq_self.2]
  · rfl
  · intro c hc
    simp [h.files, (hopen c hc).2]

lemma Plain.neighborsAlong_eq (dir kinds) (hk : "DDG" ∈ kinds) (limit) :
    ix.neighborsAlong dir kinds limit = fun n => (limited limit (ix.edges.filter (dir.near · == n))).map dir.far := by
  funext n
  have hkind : ∀ e ∈ ix.edges.filter (dir.near · == n), e.kind = "DDG" := fun e he => h.edge e (mem_filter.1 he).1
  unfold neighborsAlong edgesAt
  rw [sortOn_of_key hkind, filter_eq_self.2]
  intro e he
  rw [hkind e he]
  exact contains_iff_mem.2 hk

end

/-- A store with a round trip between `s` and `m`, a way on to the sink `k`, and one that ends at a sanitizer. -/
def roundStore : Index where
  files := [⟨1, "/p.py", "python"⟩]
  edges := [plainEdge "s" "m", plainEdge "m" "s", plainEdge "m" "k", plainEdge "m" "c", plainEdge "c" "k"]
  calls := [plainCall "s" "src", plainCall "c" "san", plainCall "k" "snk"]

lemma plain_roundStore : Plain roundStore := ⟨rfl, by decide, by decide⟩

/-- The search of the store goes round once, finds the sink and stops at the sanitizer. -/
theorem round_store_paths_sound :
    roundStore.taint .out "python" plainPolicy {} = [["s", "m", "k"]] ∧ 1 ≤ ({} : TaintOptions).maxSteps ∧
      (∃ groups : List (List (List String)), roundStore.taint .out "python" plainPolicy {} = groups.flatten ∧
        List.Forall₂ (fun a paths => (∀ path ∈ paths, TaintPath roundStore .out "python" plainPolicy {} a path) ∧
          (paths.map List.getLast?).Nodup) (roundStore.sitesOf "python" (Direction.out.starts plainPolicy)) groups) ∧
      (roundStore.taint .out "python" plainPolicy {}).length ≤ ({} : TaintOptions).maxPaths.toNat := by
  refine ⟨?_, by decide, taint_paths_sound roundStore .out "python" plainPolicy {} (by decide)⟩
  have h := plain_roundStore
  rw [taint_eq, taintSearch, h.neighborsAlong_eq _ _ (by decide),
    h.sitesOf_eq (Direction.out.starts plainPolicy) "src" rfl, h.sitesOf_eq (Direction.out.ends plainPolicy) "snk" rfl,
    h.sitesOf_eq plainPolicy.sanitizers "san" rfl]
  decide +kernel

variable (count : Nat)

/-- A store in which `count` calls of the sanitizer stand before the one at `m`, on the way from `s` to `k`. -/
def crowdedStore : Index where
  files := [⟨1, "/p.py", "python"⟩]
  edges := [plainEdge "s" "m", plainEdge "m" "k"]
  calls := replicate count (plainCall "z" "san") ++ [plainCall "m" "san", plainCall "s" "src", plainCall "k" "snk"]

lemma plain_crowdedStore : Plain (crowdedStore count) where
  files := rfl
  call := by
    have hrest : ∀ c ∈ [plainCall "m" "san", plainCall "s" "src", plainCall "k" "snk"],
        c.resolved = 0 ∧ c.fileId = 1 := by decide
    intro c hc
    rcases mem_append.1 hc with hc | hc
    · rw [eq_of_mem_replicate hc]
      exact ⟨rfl, rfl⟩
    · exact hrest c hc
  edge := by
    change ∀ e ∈ [plainEdge "s" "m", plainEdge "m" "k"], e.kind = "DDG"
    decide

/-- When as many calls as are read stand before it, the sanitizer at `m` is not read. -/
lemma sites_crowdedStore (hcount : callSiteLimit.toInt.toNat ≤ count) :
    (crowdedStore count).sitesOf "python" plainPolicy.sources = ["s"] ∧
      (crowdedStore count).sitesOf "python" plainPolicy.sinks = ["k"] ∧
      (crowdedStore count).sitesOf "python" plainPolicy.sanitizers = replicate callSiteLimit.toInt.toNat "z" := by
  have h := plain_crowdedStore count
  have hnone : ∀ name, "san" ≠ name → (replicate count (plainCall "z" "san")).filter (·.name == name) = [] := by
    intro name hname
    refine filter_eq_nil_iff.2 fun c hc => ?_
    rw [eq_of_mem_replicate hc]
    simpa [plainCall] using hname
  have hall : (replicate count (plainCall "z" "san")).filter (·.name == "san") =
      replicate count (plainCall "z" "san") := by
    refine filter_eq_self.2 fun c hc => ?_
    rw [eq_of_mem_replicate hc]
    rfl
  refine ⟨?_, ?_, ?_⟩
  · rw [h.sitesOf_eq plainPolicy.sources "src" rfl, crowdedStore, filter_append, hnone "src" (by decide)]
    decide +kernel
  · rw [h.sitesOf_eq plainPolicy.sinks "snk" rfl, crowdedStore, filter_append, hnone "snk" (by decide)]
    decide +kernel
  · rw [h.sitesOf_eq plainPolicy.sanitizers "san" rfl, crowdedStore, filter_append, hall,
      take_append_of_le_length (by rwa [length_replicate]), take_replicate, Nat.min_eq_left hcount,
      map_replicate]
    rfl

lemma TaintSearch.paths_of_line {s : TaintSearch} (hs : s.next "s" = ["m"]) (hm : s.next "m" = ["k"])
    (hsinks : s.sinks = ["k"]) (hclean : "s" ∉ s.sanitizers ∧ "m" ∉ s.sanitizers) (hsteps : 3 ≤ s.maxSteps)
    (hpaths : 1 ≤ s.maxPaths) : s.paths 4 ["s"] = [["s", "m", "k"]] := by
  have hroom : ¬ s.maxPaths ≤ 0 := by omega
  have hone : ¬ s.maxSteps ≤ 1 := by omega
  have htwo : ¬ s.maxSteps ≤ 2 := by omega
  simp [paths, run, push, hs, hm, hsinks, hclean, hroom, hone, htwo]

/-- With ten thousand calls of the sanitizer before it, a path is reported that passes a call site of the sanitizer. -/
theorem crowded_path_passes_sanitizer :
    (crowdedStore 10000).taint .out "python" plainPolicy {} = [["s", "m", "k"]] ∧ "m" ∈ ["s", "m", "k"].dropLast ∧
      (crowdedStore 10000).IsSite "python" plainPolicy.sanitizers "m" := by
  obtain ⟨hsources, hsinks, hsanitizers⟩ := sites_crowdedStore 10000 (by decide)
  have hnext := (plain_crowdedStore 10000).neighborsAlong_eq .out ({} : TaintOptions).kinds (by decide)
    ({} : TaintOptions).perNode
  refine ⟨?_, by decide, plainCall "m" "san", ?_, rfl⟩
  · rw [taint_eq]
    change paths _ 4 ((crowdedStore 10000).sitesOf "python" plainPolicy.sources) = _
    rw [hsources]
    refine paths_of_line ?_ ?_ hsinks ?_ (by decide) (by decide)
    · exact congrFun hnext "s"
    · exact congrFun hnext "m"
    · change "s" ∉ (crowdedStore 10000).sitesOf "python" plainPolicy.sanitizers ∧
        "m" ∉ (crowdedStore 10000).sitesOf "python" plainPolicy.sanitizers
      rw [hsanitizers]
      exact ⟨fun h => absurd (List.eq_of_mem_replicate h) (by decide),
        fun h => absurd (List.eq_of_mem_replicate h) (by decide)⟩
  · exact List.mem_filter.mpr ⟨List.mem_append_right _ List.mem_cons_self, by decide +kernel⟩

end PatchReview.Index
