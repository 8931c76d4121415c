import Mathlib.Data.List.Perm.Subperm
import PatchReview.Proofs.Index.Taint

/-!
# What a search for taint cannot miss

A search for taint goes depth first and visits a node once, when it first meets it. A node that it first meets at the
end of a path of as many nodes as are allowed is *late*: the search goes no further there, although a shorter way may
lead through it. Late nodes are all that a search misses. It finds an end exactly when some way to one has no late node,
and where no node is late the paths forward and the paths backward find something or nothing together.
-/

namespace PatchReview.Index

open Direction List List TaintSearch

namespace TaintSearch

variable {s : TaintSearch} {a m n : String} {q rest visited targets : List String} {stack found : List (List String)}
  {fuel : Nat}

/-! ## Late nodes -/

/-- A node that the search from `a` meets at the end of a path of as many nodes as are allowed. -/
def Late (s : TaintSearch) (fuel : Nat) (a n : String) : Prop :=
  ∃ q ∈ s.taken fuel [[a]] [a], q.head? = some n ∧ s.maxSteps ≤ q.length

/-- A way over neighbours that passes neither sinks nor sanitizers nor late nodes leads only to nodes that are met. -/
lemma meets_of_way (hsteps : 1 ≤ s.maxSteps) (hnext : ∀ n, s.next n ⊆ targets)
    (hfuel : 1 + (unvisited targets [a]).length < fuel) {way : Strings} (hchain : way.IsChain fun m n => n ∈ s.next m)
    (hclear : ∀ n ∈ way.dropLast, n ∉ s.sinks ∧ n ∉ s.sanitizers ∧ ¬ s.Late fuel a n) (hstart : way.head? = some a) :
    ∃ q ∈ s.taken fuel [[a]] [a], q.head? = way.getLast? := by
  obtain ⟨_, visited, h, hend⟩ := exists_searching hsteps fuel a
  cases hend targets hnext hfuel
  have hmet (n) (hn : n ∈ visited) : ∃ q ∈ s.taken fuel [[a]] [a], q.head? = some n := by
    simpa using h.ends.mem_iff.2 (mem_map_of_mem (f := some) hn)
  have hway : ∃ q ∈ s.taken fuel [[a]] [a], q.head? = way.head? := hstart ▸ hmet a h.start
  clear hstart
  induction way with
  | nil => exact hway
  | cons x way ih =>
    cases way with
    | nil => exact hway
    | cons y way =>
      rw [isChain_cons_cons] at hchain
      rw [dropLast_cons_cons, forall_mem_cons] at hclear
      refine ih hchain.2 hclear.2 (hmet y ?_)
      obtain ⟨q, hq, hhead⟩ := hway
      obtain ⟨rest, rfl⟩ := head?_eq_some_iff.1 hhead
      obtain ⟨hsink, hclean, hlate⟩ := hclear.1
      have hshort : (x :: rest).length < s.maxSteps := by
        by_contra hlong
        exact hlate ⟨x :: rest, hq, rfl, by omega⟩
      exact h.closed _ hq (mem_onward_iff.2 ⟨goesOn_cons_iff.2 ⟨hsink, hshort, hclean⟩, hchain.1⟩)

/-- The nodes of a path before its last one are not late. -/
lemma not_late_of_mem_tail (hsteps : 1 ≤ s.maxSteps) (hq : q ∈ s.taken fuel [[a]] [a]) (hn : n ∈ q.tail) :
    ¬ s.Late fuel a n := by
  rintro ⟨q', hq', hhead, hlong⟩
  obtain ⟨before, rest, hsplit⟩ := append_of_mem hn
  have hsuffix : n :: rest <:+ q := (hsplit ▸ suffix_append before (n :: rest)).trans (tail_suffix q)
  have hshort : (n :: rest).length < s.maxSteps := by
    have hle := (trail_of_mem_taken hsteps hq).length
    have htail := (hsplit ▸ suffix_append before (n :: rest) : n :: rest <:+ q.tail).length_le
    rw [length_tail] at htail
    omega
  have hsame := inj_on_of_nodup_map (nodup_heads_taken hsteps fuel a) (suffix_mem_taken hsteps hq hsuffix (by simp)) hq'
    hhead.symm
  rw [← hsame] at hlong
  omega

/-- A trail has no more nodes than there are neighbours, its start apart. -/
lemma Trail.length_le (h : s.Trail a q) (hnext : ∀ n, s.next n ⊆ targets) : q.length ≤ targets.length + 1 := by
  have hsub : q ⊆ a :: targets := by
    have hmem : ∀ q, q.IsChain (fun later earlier => later ∈ s.next earlier) → q.getLast? = some a →
        q ⊆ a :: targets := by
      intro q hchain hlast
      induction q with
      | nil => simp
      | cons x q ih =>
        cases q with
        | nil =>
          cases hlast
          simp
        | cons y q =>
          rw [isChain_cons_cons] at hchain
          exact cons_subset.2 ⟨mem_cons_of_mem _ (hnext y hchain.1), ih hchain.2 hlast⟩
    exact hmem q h.chain h.start
  simpa using (subperm_of_subset h.nodup hsub).length_le

/-- Where more steps are allowed than there are neighbours, no node is late. -/
lemma not_late_of_many_steps (hnext : ∀ n, s.next n ⊆ targets) (hsteps : (targets.length : Int) + 2 ≤ s.maxSteps)
    (fuel a n) : ¬ s.Late fuel a n := by
  rintro ⟨q, hq, -, hlong⟩
  have hle := (trail_of_mem_taken (by omega) hq).length_le hnext
  omega

/-- Once more steps are allowed than there are neighbours, allowing still more changes nothing. -/
lemma taken_eq_of_many_steps (hnext : ∀ n, s.next n ⊆ targets) (hsteps : (targets.length : Int) + 2 ≤ s.maxSteps) {k}
    (hk : s.maxSteps ≤ k) {done} (h : s.Searching a done stack visited) :
    { s with maxSteps := k }.taken fuel stack visited = s.taken fuel stack visited := by
  fun_induction taken s fuel stack visited generalizing done with
  | case1 | case2 => rfl
  | case3 fuel q stack visited ih =>
    have hafter : { s with maxSteps := k }.after q (stack, visited) = s.after q (stack, visited) := by
      cases q with
      | nil => rfl
      | cons n rest =>
        have hle := (h.trail (n :: rest) (by simp)).1.length_le hnext
        have hshort : (n :: rest).length < s.maxSteps := by omega
        have hshort' : (n :: rest).length < k := by omega
        simp only [after, goesOn, hshort, hshort']
        rfl
    rw [taken, hafter, ih h.after]

end TaintSearch

/-! ## Clean walks -/

section

variable {ix : Index} {dir : Direction} {lang : String} {p : Graph.Policy} {o : TaintOptions}
  {kinds way walk : List String} {a m n : String}

section

variable (ix dir lang p o)

/-- The edges of some kinds at a node. -/
def edgesAlong (kinds : Strings) (node : String) : List EdgeRow :=
  ix.edges.filter fun e => dir.near e == node && kinds.contains e.kind

/-- The limits on what is read leave nothing out: no more rows call the names, and no more edges stand at a node, than
are read. -/
structure ReadsAll : Prop where
  starts : ((ix.siteRows lang (dir.starts p)).length : Int) ≤ callSiteLimit.toInt
  ends : ((ix.siteRows lang (dir.ends p)).length : Int) ≤ callSiteLimit.toInt
  sanitizers : ((ix.siteRows lang p.sanitizers).length : Int) ≤ callSiteLimit.toInt
  edges : o.perNode.toInt < 0 ∨ ∀ n, ((ix.edgesAlong dir o.kinds n).length : Int) ≤ o.perNode.toInt

/-- One node leads to another along a stored edge of some kinds. -/
def Leads (kinds : Strings) (m n : String) : Prop :=
  ∃ e ∈ ix.edges, e.kind ∈ kinds ∧ dir.near e = m ∧ dir.far e = n

/-- A way from `a` along stored edges, before whose last node there is neither an end nor a sanitizer. -/
structure CleanWay (kinds : Strings) (a : String) (way : Strings) : Prop where
  start : way.head? = some a
  joined : way.IsChain (ix.Leads dir kinds)
  clear : ∀ n ∈ way.dropLast, ¬ ix.IsSite lang (dir.ends p) n ∧ ¬ ix.IsSite lang p.sanitizers n

/-- A clean way from a site where paths start to one where they end. -/
structure CleanWalk (kinds : Strings) (a : String) (walk : Strings) : Prop
    extends CleanWay ix dir lang p kinds a walk where
  source : ix.IsSite lang (dir.starts p) a
  finish : ∃ z, walk.getLast? = some z ∧ ix.IsSite lang (dir.ends p) z

end

/-- Where the limit leaves no edge out, the neighbours of a node are those it leads to. -/
lemma mem_neighborsAlong_iff {limit : Int64} (h : limit.toInt < 0 ∨ (ix.edgesAlong dir kinds m).length ≤ limit.toInt) :
    n ∈ ix.neighborsAlong dir kinds limit m ↔ ix.Leads dir kinds m n := by
  refine ⟨mem_neighborsAlong, ?_⟩
  rintro ⟨e, he, hkind, rfl, rfl⟩
  have hmem : e ∈ (ix.edgesAt dir (dir.near e)).filter fun e => kinds.contains e.kind := by
    simp [edgesAt, sortOn, he, hkind]
  refine mem_map_of_mem ?_
  rcases h with hneg | hfew
  · rwa [limited, if_pos hneg]
  · rw [limited_of_le]
    · exact hmem
    · have hperm : ((ix.edgesAt dir (dir.near e)).filter fun e => kinds.contains e.kind).Perm
          (ix.edgesAlong dir kinds (dir.near e)) := by
        refine ((mergeSort_perm _ _).filter _).trans (List.Perm.of_eq ?_)
        rw [filter_filter]
        exact filter_congr fun e _ => Bool.and_comm _ _
      rwa [hperm.length_eq]

namespace ReadsAll

variable (h : ix.ReadsAll dir lang p o)

include h

lemma mem_sinks_iff : n ∈ (ix.taintSearch dir lang p o).sinks ↔ ix.IsSite lang (dir.ends p) n :=
  ⟨isSite_of_mem, mem_of_isSite h.ends⟩

lemma mem_sanitizers_iff : n ∈ (ix.taintSearch dir lang p o).sanitizers ↔ ix.IsSite lang p.sanitizers n :=
  ⟨isSite_of_mem, mem_of_isSite h.sanitizers⟩

lemma mem_next_iff : n ∈ (ix.taintSearch dir lang p o).next m ↔ ix.Leads dir o.kinds m n :=
  mem_neighborsAlong_iff (h.edges.imp_right fun hfew => hfew m)

/-- A trail of the search is a clean way. -/
lemma cleanWay_of_trail {q} (hq : (ix.taintSearch dir lang p o).Trail a q) :
    CleanWay ix dir lang p o.kinds a q.reverse where
  start := by rw [head?_reverse]; exact hq.start
  joined := by
    rw [isChain_reverse]
    exact hq.chain.imp fun _ _ hnext => h.mem_next_iff.1 hnext
  clear := by
    intro n hn
    rw [dropLast_reverse, mem_reverse] at hn
    obtain ⟨hsink, hclean⟩ := hq.clear n hn
    exact ⟨fun hsite => hsink (h.mem_sinks_iff.2 hsite), fun hsite => hclean (h.mem_sanitizers_iff.2 hsite)⟩

end ReadsAll

lemma next_taintSearch_subset (ix : Index) (dir lang p o n) :
    (ix.taintSearch dir lang p o).next n ⊆ ix.edges.map dir.far := by
  intro m hm
  obtain ⟨e, he, -, -, rfl⟩ := mem_neighborsAlong hm
  exact mem_map_of_mem he

variable (ix dir lang p o) in
/-- A node that the search from `a` first meets at the end of a path of as many nodes as are allowed. -/
def MetLate (a n : String) : Prop :=
  (ix.taintSearch dir lang p o).Late (ix.edges.length + 2) a n

/-- A search reports something exactly when some clean walk from its start meets no late node before its end. -/
lemma reports_ne_nil_iff (h : ix.ReadsAll dir lang p o) (hsteps : 1 ≤ o.maxSteps)
    (ha : ix.IsSite lang (dir.starts p) a) :
    (ix.taintSearch dir lang p o).reports (ix.edges.length + 2) a ≠ [] ↔
      ∃ walk, CleanWalk ix dir lang p o.kinds a walk ∧ ∀ n ∈ walk.dropLast, ¬ ix.MetLate dir lang p o a n := by
  constructor
  · intro hne
    obtain ⟨path, hpath⟩ := exists_mem_of_ne_nil _ hne
    obtain ⟨q, hq, rfl⟩ := mem_map.1 hpath
    obtain ⟨hq, hsink⟩ := mem_filter.1 hq
    have htrail := trail_of_mem_taken hsteps hq
    refine ⟨q.reverse, ⟨h.cleanWay_of_trail htrail, ha, ?_⟩, ?_⟩
    · obtain ⟨z, hz, hhead⟩ := atSink_iff.1 hsink
      exact ⟨z, by rw [getLast?_reverse]; exact hhead, h.mem_sinks_iff.1 hz⟩
    · intro n hn
      rw [dropLast_reverse, mem_reverse] at hn
      exact not_late_of_mem_tail hsteps hq hn
  · rintro ⟨walk, hwalk, hlate⟩
    obtain ⟨z, hlast, hz⟩ := hwalk.finish
    have hfew : 1 + (unvisited (ix.edges.map dir.far) [a]).length < ix.edges.length + 2 := by
      have := length_unvisited_le (ix.edges.map dir.far) [a]
      rw [length_map] at this
      omega
    have hnext := ix.next_taintSearch_subset dir lang p o
    obtain ⟨q, hq, hhead⟩ := meets_of_way hsteps hnext hfew
      (hwalk.joined.imp fun _ _ hleads => h.mem_next_iff.2 hleads)
      (fun n hn => ⟨fun hmem => (hwalk.clear n hn).1 (h.mem_sinks_iff.1 hmem),
        fun hmem => (hwalk.clear n hn).2 (h.mem_sanitizers_iff.1 hmem), hlate n hn⟩)
      hwalk.start
    have hsink : (ix.taintSearch dir lang p o).atSink q :=
      atSink_iff.2 ⟨z, h.mem_sinks_iff.2 hz, hhead.trans hlast⟩
    exact ne_nil_of_mem (mem_map_of_mem (mem_filter.2 ⟨hq, hsink⟩))

/-! ## Short walks -/

variable (ix dir lang p o) in
/-- If a clean walk of no more nodes than allowed starts at `a`, a path from `a` is reported. -/
def FindsShort (a : String) : Prop :=
  (∃ walk, CleanWalk ix dir lang p o.kinds a walk ∧ (walk.length : Int) ≤ o.maxSteps) →
    ∃ path ∈ ix.taint dir lang p o, path.head? = some a

/-- As long as there is room for more paths, a path from `a` is reported exactly when the search from `a` comes to an
end. -/
lemma exists_path_iff (hsteps : 1 ≤ o.maxSteps) (hroom : (ix.taint dir lang p o).length < o.maxPaths)
    (ha : a ∈ ix.sitesOf lang (dir.starts p)) :
    (∃ path ∈ ix.taint dir lang p o, path.head? = some a) ↔
      (ix.taintSearch dir lang p o).reports (ix.edges.length + 2) a ≠ [] := by
  have hall : ix.taint dir lang p o =
      (ix.sitesOf lang (dir.starts p)).flatMap ((ix.taintSearch dir lang p o).reports (ix.edges.length + 2)) := by
    rw [taint_eq, paths_eq] at hroom ⊢
    refine take_of_length_le ?_
    rw [length_take] at hroom
    change ((min o.maxPaths.toNat _ : Nat) : Int) < o.maxPaths at hroom
    change _ ≤ o.maxPaths.toNat
    omega
  have hhead {b path} (hpath : path ∈ (ix.taintSearch dir lang p o).reports (ix.edges.length + 2) b) :
      path.head? = some b := by
    rw [← getLast?_reverse]
    exact ((reports_reports hsteps _ b).trail path hpath).1.start
  rw [hall]
  constructor
  · rintro ⟨path, hpath, hstart⟩
    obtain ⟨b, -, hpath⟩ := mem_flatMap.1 hpath
    cases (hhead hpath).symm.trans hstart
    exact ne_nil_of_mem hpath
  · intro hne
    obtain ⟨path, hpath⟩ := exists_mem_of_ne_nil _ hne
    exact ⟨path, mem_flatMap.2 ⟨a, ha, hpath⟩, hhead hpath⟩

/-- A search finds what short walks promise exactly when, if there is a short clean walk, some clean walk meets no late
node before its end. This is so when the nodes of a short clean walk before its end cannot be reached by clean ways
without repetition of just as many nodes as are allowed. -/
theorem findsShort_iff (h : ix.ReadsAll dir lang p o) (hroom : ((ix.taint dir lang p o).length : Int) < o.maxPaths) :
    (ix.FindsShort dir lang p o a ↔
      ((∃ walk, CleanWalk ix dir lang p o.kinds a walk ∧ (walk.length : Int) ≤ o.maxSteps) →
        ∃ walk, CleanWalk ix dir lang p o.kinds a walk ∧ ∀ n ∈ walk.dropLast, ¬ ix.MetLate dir lang p o a n)) ∧
    ((∃ walk, CleanWalk ix dir lang p o.kinds a walk ∧ (walk.length : Int) ≤ o.maxSteps ∧
      ∀ n ∈ walk.dropLast, ∀ way, CleanWay ix dir lang p o.kinds a way → way.Nodup → way.getLast? = some n →
        (way.length : Int) ≠ o.maxSteps) →
      ix.FindsShort dir lang p o a) := by
  have hshort : ∀ {walk : List String}, CleanWalk ix dir lang p o.kinds a walk → (walk.length : Int) ≤ o.maxSteps →
      1 ≤ o.maxSteps ∧ a ∈ ix.sitesOf lang (dir.starts p) := by
    intro walk hwalk hlen
    refine ⟨?_, mem_of_isSite h.starts hwalk.source⟩
    obtain ⟨rest, rfl⟩ := List.head?_eq_some_iff.mp hwalk.start
    rw [List.length_cons] at hlen
    omega
  have hiff : ix.FindsShort dir lang p o a ↔
      ((∃ walk, CleanWalk ix dir lang p o.kinds a walk ∧ (walk.length : Int) ≤ o.maxSteps) →
        ∃ walk, CleanWalk ix dir lang p o.kinds a walk ∧ ∀ n ∈ walk.dropLast, ¬ ix.MetLate dir lang p o a n) := by
    refine imp_congr_right ?_
    rintro ⟨walk, hwalk, hlen⟩
    obtain ⟨hsteps, ha⟩ := hshort hwalk hlen
    rw [exists_path_iff hsteps hroom ha, reports_ne_nil_iff h hsteps hwalk.source]
  refine ⟨hiff, ?_⟩
  rintro ⟨walk, hwalk, hlen, hways⟩
  obtain ⟨hsteps, -⟩ := hshort hwalk hlen
  refine hiff.mpr fun _ => ⟨walk, hwalk, ?_⟩
  rintro n hn ⟨q, hq, hhead, hlong⟩
  have htrail := trail_of_mem_taken hsteps hq
  refine hways n hn q.reverse (h.cleanWay_of_trail htrail) (List.nodup_reverse.mpr htrail.nodup) ?_ ?_
  · rw [List.getLast?_reverse]
    exact hhead
  · rw [List.length_reverse]
    exact Int.le_antisymm htrail.length hlong

/-! ## Both directions -/

/-- The other direction. -/
def Direction.turned : Direction → Direction
  | .out => .into
  | .into => .out

lemma Direction.starts_turned (dir : Direction) (p) : dir.turned.starts p = dir.ends p := by cases dir <;> rfl

lemma Direction.ends_turned (dir : Direction) (p) : dir.turned.ends p = dir.starts p := by cases dir <;> rfl

lemma leads_turned : ix.Leads dir.turned kinds m n ↔ ix.Leads dir kinds n m := by
  cases dir <;> exact exists_congr fun e => and_congr_right fun _ => and_congr_right fun _ => and_comm

/-- A clean walk read backwards, up to the first site where it could have started, is a clean walk in the other
direction. -/
lemma CleanWalk.turn (h : CleanWalk ix dir lang p kinds a walk)
    (hends : ∀ n, ix.IsSite lang (dir.ends p) n → ¬ ix.IsSite lang p.sanitizers n) :
    ∃ b back, CleanWalk ix dir.turned lang p kinds b back := by
  classical
  obtain ⟨z, hlast, hz⟩ := h.finish
  obtain ⟨before, hbefore⟩ := getLast?_eq_some_iff.1 hlast
  have hfirst : (walk.reverse.find? fun n => decide (ix.IsSite lang (dir.starts p) n)).isSome := by
    rw [find?_isSome]
    exact ⟨a, mem_reverse.2 (mem_of_head? h.start), decide_eq_true h.source⟩
  obtain ⟨y, hy⟩ := Option.isSome_iff_exists.1 hfirst
  obtain ⟨hsite, passed, rest, hsplit, hpassed⟩ := find?_eq_some_iff_append.1 hy
  have hcut : passed ++ [y] <+: walk.reverse := ⟨rest, by rw [hsplit]; simp⟩
  refine ⟨z, passed ++ [y], ⟨⟨?_, ?_, ?_⟩, ?_, y, ?_, ?_⟩⟩
  · rw [← head?_reverse, hsplit] at hlast
    cases passed <;> exact hlast
  · refine List.IsChain.prefix ?_ hcut
    rw [isChain_reverse]
    exact h.joined.imp fun m n hleads => leads_turned.2 hleads
  · intro n hn
    rw [dropLast_concat] at hn
    rw [Direction.ends_turned]
    refine ⟨by simpa using hpassed n hn, ?_⟩
    have hmem : n ∈ walk := mem_reverse.1 (hcut.subset (mem_append_left _ hn))
    rw [hbefore] at hmem
    rcases mem_append.1 hmem with hmem | hmem
    · refine (h.clear n ?_).2
      rw [hbefore, dropLast_concat]
      exact hmem
    · rw [mem_singleton.1 hmem]
      exact hends z hz
  · rw [Direction.starts_turned]
    exact hz
  · simp
  · rw [Direction.ends_turned]
    exact of_decide_eq_true hsite

/-- With room for one path and more steps than there are edges, something is reported exactly when there is a clean
walk. -/
lemma taint_ne_nil_iff (h : ix.ReadsAll dir lang p o) (hpaths : 1 ≤ o.maxPaths)
    (hsteps : (ix.edges.length : Int) + 2 ≤ o.maxSteps) :
    ix.taint dir lang p o ≠ [] ↔ ∃ a walk, CleanWalk ix dir lang p o.kinds a walk := by
  have hone : 1 ≤ o.maxSteps := by omega
  have hlate : ∀ a n, ¬ ix.MetLate dir lang p o a n := by
    intro a n
    refine not_late_of_many_steps (ix.next_taintSearch_subset dir lang p o) ?_ _ a n
    rw [length_map]
    exact hsteps
  have hroom : (ix.taintSearch dir lang p o).maxPaths.toNat ≠ 0 := by
    change o.maxPaths.toNat ≠ 0
    omega
  rw [taint_eq, paths_eq, ne_eq, take_eq_nil_iff, flatMap_eq_nil_iff]
  simp only [hroom, false_or, not_forall]
  constructor
  · rintro ⟨a, ha, hne⟩
    obtain ⟨walk, hwalk, -⟩ := (reports_ne_nil_iff h hone (isSite_of_mem ha)).1 hne
    exact ⟨a, walk, hwalk⟩
  · rintro ⟨a, walk, hwalk⟩
    exact ⟨a, mem_of_isSite h.starts hwalk.source,
      (reports_ne_nil_iff h hone hwalk.source).2 ⟨walk, hwalk, fun n _ => hlate a n⟩⟩

/-- None of the limits of the searches in both directions binds: all rows are read, there is room for a path, and more
steps would not change what is reported. -/
structure Unlimited (ix : Index) (lang : String) (p : Graph.Policy) (o : TaintOptions) : Prop where
  reads : ∀ dir, ix.ReadsAll dir lang p o
  paths : 1 ≤ o.maxPaths
  steps : ∀ dir k, o.maxSteps ≤ k → ix.taint dir lang p { o with maxSteps := k } = ix.taint dir lang p o

/-- Where no limit binds, what is reported in one direction is reported, in part, in the other. -/
lemma taint_turned_ne_nil (h : ix.Unlimited lang p o)
    (hclean : ∀ n, ix.IsSite lang p.sanitizers n → ¬ ix.IsSite lang p.sources n ∧ ¬ ix.IsSite lang p.sinks n)
    (hne : ix.taint dir lang p o ≠ []) : ix.taint dir.turned lang p o ≠ [] := by
  have hends : ∀ n, ix.IsSite lang (dir.ends p) n → ¬ ix.IsSite lang p.sanitizers n := by
    intro n hn hsanitizer
    cases dir with
    | out => exact (hclean n hsanitizer).2 hn
    | into => exact (hclean n hsanitizer).1 hn
  -- both searches are taken with so many steps that no node is late
  have hmany := fun d => h.steps d (max o.maxSteps (ix.edges.length + 2)) (by omega)
  have hreads : ∀ d, ix.ReadsAll d lang p { o with maxSteps := max o.maxSteps (ix.edges.length + 2) } :=
    fun d => ⟨(h.reads d).starts, (h.reads d).ends, (h.reads d).sanitizers, (h.reads d).edges⟩
  rw [← hmany, taint_ne_nil_iff (hreads _) h.paths (by dsimp only; omega)] at hne ⊢
  obtain ⟨a, walk, hwalk⟩ := hne
  exact hwalk.turn hends

/-- Where no limit binds and no source or sink is a sanitizer, paths forward are reported exactly when paths backward
are. -/
theorem forward_iff_backward (h : ix.Unlimited lang p o)
    (hclean : ∀ n, ix.IsSite lang p.sanitizers n → ¬ ix.IsSite lang p.sources n ∧ ¬ ix.IsSite lang p.sinks n) :
    ix.taint .out lang p o ≠ [] ↔ ix.taint .into lang p o ≠ [] :=
  ⟨taint_turned_ne_nil h hclean, taint_turned_ne_nil h hclean⟩

/-! ## Limits that do not bind -/

lemma readsAll_of_few (hcalls : ix.calls.length ≤ callSiteLimit.toInt)
    (hedges : ix.edges.length ≤ o.perNode.toInt) (dir lang p) : ix.ReadsAll dir lang p o := by
  have hrows : ∀ table, (ix.siteRows lang table).length ≤ callSiteLimit.toInt := by
    intro table
    have := length_filter_le (ix.callsOneOf lang (Graph.Policy.namesIn table lang)) ix.calls
    unfold siteRows
    omega
  refine ⟨hrows _, hrows _, hrows _, .inr fun n => ?_⟩
  have := length_filter_le (fun e => dir.near e == n && o.kinds.contains e.kind) ix.edges
  unfold edgesAlong
  omega

/-- A bound on the steps above the number of edges does not bind. -/
lemma taint_eq_of_many_steps (hsteps : (ix.edges.length : Int) + 2 ≤ o.maxSteps) {k : Int} (hk : o.maxSteps ≤ k) :
    ix.taint dir lang p { o with maxSteps := k } = ix.taint dir lang p o := by
  have hreports : ∀ a, (ix.taintSearch dir lang p { o with maxSteps := k }).reports (ix.edges.length + 2) a =
      (ix.taintSearch dir lang p o).reports (ix.edges.length + 2) a := by
    intro a
    have hone : 1 ≤ (ix.taintSearch dir lang p o).maxSteps := by
      change 1 ≤ o.maxSteps
      omega
    have htaken : { ix.taintSearch dir lang p o with maxSteps := k }.taken (ix.edges.length + 2) [[a]] [a] =
        (ix.taintSearch dir lang p o).taken (ix.edges.length + 2) [[a]] [a] :=
      taken_eq_of_many_steps (ix.next_taintSearch_subset dir lang p o)
        (by rw [length_map]; exact hsteps) hk (searching_start hone a)
    exact congrArg (fun l => (l.filter (ix.taintSearch dir lang p o).atSink).map reverse) htaken
  rw [taint_eq, taint_eq, paths_eq, paths_eq]
  exact congrArg (take _) (flatMap_congr fun a _ => hreports a)

end

/-! ## Two stores -/

instance (ix : Index) (lang : String) (table : Graph.NamesByLanguage) (n : String) :
    Decidable (ix.IsSite lang table n) :=
  inferInstanceAs (Decidable (∃ c ∈ ix.siteRows lang table, _))

instance (ix : Index) (dir : Direction) (kinds : Strings) (m n : String) : Decidable (ix.Leads dir kinds m n) :=
  inferInstanceAs (Decidable (∃ e ∈ ix.edges, _))

/-- In a store with a round trip and a sanitizer on one of two ways to the sink, both directions find something. -/
theorem round_store_found_both_ways : roundStore.Unlimited "python" plainPolicy {} ∧
      (∀ n, roundStore.IsSite "python" plainPolicy.sanitizers n →
        ¬ roundStore.IsSite "python" plainPolicy.sources n ∧ ¬ roundStore.IsSite "python" plainPolicy.sinks n) ∧
      (roundStore.taint .out "python" plainPolicy {} ≠ [] ↔ roundStore.taint .into "python" plainPolicy {} ≠ []) := by
  have hlimits : roundStore.Unlimited "python" plainPolicy {} :=
    ⟨fun dir => readsAll_of_few (by decide) (by decide) dir _ _, by decide,
      fun dir k => taint_eq_of_many_steps (by decide)⟩
  have hclean : ∀ n, roundStore.IsSite "python" plainPolicy.sanitizers n →
      ¬ roundStore.IsSite "python" plainPolicy.sources n ∧ ¬ roundStore.IsSite "python" plainPolicy.sinks n := by
    rintro n ⟨c, hc, rfl⟩
    revert c
    decide +kernel
  exact ⟨hlimits, hclean, forward_iff_backward hlimits hclean⟩

/-- A store in which two ways lead from `s` to `m`, the longer one found first, and on to the sink `k`. -/
def detourStore : Index where
  files := [⟨1, "/p.py", "python"⟩]
  edges := [plainEdge "s" "a", plainEdge "s" "b", plainEdge "a" "m", plainEdge "b" "c", plainEdge "c" "m",
    plainEdge "m" "k"]
  calls := [plainCall "s" "src", plainCall "k" "snk"]

lemma plain_detourStore : Plain detourStore := ⟨rfl, by decide, by decide⟩

/-- The search of the store, its rows read in the order they were added. -/
lemma taintSearch_detourStore (o) (hkinds : "DDG" ∈ o.kinds) : detourStore.taintSearch .out "python" plainPolicy o =
      { next := fun n => (limited o.perNode (detourStore.edges.filter (out.near · == n))).map out.far
        sinks := ["k"]
        sanitizers := []
        maxSteps := o.maxSteps
        maxPaths := o.maxPaths } := by
  have h := plain_detourStore
  rw [taintSearch, h.neighborsAlong_eq _ _ hkinds, h.sitesOf_eq (out.ends plainPolicy) "snk" rfl,
    h.sitesOf_eq plainPolicy.sanitizers "san" rfl]
  rfl

lemma taint_detourStore (o) : detourStore.taint .out "python" plainPolicy o =
      (detourStore.taintSearch .out "python" plainPolicy o).paths 8 ["s"] := by
  rw [taint_eq, plain_detourStore.sitesOf_eq (out.starts plainPolicy) "src" rfl]
  rfl

lemma cleanWalk_detourStore :
    CleanWalk detourStore .out "python" plainPolicy ({} : TaintOptions).kinds "s" ["s", "a", "m", "k"] where
  start := rfl
  joined := by
    decide
  clear := by decide +kernel
  source := by decide +kernel
  finish := ⟨"k", rfl, by decide +kernel⟩

/-- With five steps the search comes to the sink, on the longer way. -/
theorem detour_found_in_five_steps : detourStore.ReadsAll .out "python" plainPolicy { maxSteps := 5 } ∧
      ((detourStore.taint .out "python" plainPolicy { maxSteps := 5 }).length : Int) < 50 ∧
      ∃ path ∈ detourStore.taint .out "python" plainPolicy { maxSteps := 5 }, path.head? = some "s" := by
  have hreads : detourStore.ReadsAll .out "python" plainPolicy { maxSteps := 5 } :=
    readsAll_of_few (by decide) (by decide) .out _ _
  have hroom : ((detourStore.taint .out "python" plainPolicy { maxSteps := 5 }).length : Int) < 50 := by
    rw [taint_detourStore, taintSearch_detourStore _ (by decide)]
    decide +kernel
  have hfinds : detourStore.FindsShort .out "python" plainPolicy { maxSteps := 5 } "s" := by
    refine (findsShort_iff hreads hroom).1.mpr fun _ => ⟨["s", "a", "m", "k"], cleanWalk_detourStore, ?_⟩
    unfold MetLate TaintSearch.Late
    rw [taintSearch_detourStore _ (by decide)]
    decide +kernel
  exact ⟨hreads, hroom, hfinds ⟨_, cleanWalk_detourStore, by decide⟩⟩

/-- With four steps it does not, although the shorter way has four nodes: it has met `m` on the longer one. -/
theorem detour_hides_short_walk : detourStore.ReadsAll .out "python" plainPolicy { maxSteps := 4 } ∧
      detourStore.taint .out "python" plainPolicy { maxSteps := 4 } = [] ∧
      CleanWalk detourStore .out "python" plainPolicy ({} : TaintOptions).kinds "s" ["s", "a", "m", "k"] ∧
      ¬ detourStore.FindsShort .out "python" plainPolicy { maxSteps := 4 } "s" := by
  have hnone : detourStore.taint .out "python" plainPolicy { maxSteps := 4 } = [] := by
    rw [taint_detourStore, taintSearch_detourStore _ (by decide)]
    decide +kernel
  refine ⟨readsAll_of_few (by decide) (by decide) .out _ _, hnone, cleanWalk_detourStore, fun hfinds => ?_⟩
  obtain ⟨path, hpath, -⟩ := hfinds ⟨_, cleanWalk_detourStore, by decide⟩
  rw [hnone] at hpath
  cases hpath

end PatchReview.Index
