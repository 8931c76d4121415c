import PatchReview.Graph.Build
import PatchReview.Proofs.Fields

/-!
# Matching calls while a graph is built

A draft keeps each symbol twice, in the graph and in the index by name. The two agree at every point of a build, so
that a call is matched exactly when the graph has a symbol of its name and language.
-/

/-!
## Walks over syntax trees

The loop with a stack and the recursion over the tree meet the same nodes in the same order. What stands below a node
comes right after it.
-/

namespace PatchReview.Syntax.Tree

open List

@[simp] lemma preorders_append (as bs) : preorders (as ++ bs) = preorders as ++ preorders bs := by
  induction as with
  | nil => simp [preorders]
  | cons t ts ih => simp [preorders, ih]

variable (t : Tree)

lemma preorder_eq : preorder t = t :: preorders t.children := by
  cases t
  rfl

lemma mem_preorder_self : t ∈ preorder t := by
  rw [preorder_eq]
  exact mem_cons_self

/-- Taking trees off a stack in turn is reading them one after the other, each from its root down. -/
lemma walk_eq_preorders (stack) : walk stack = preorders stack := by
  induction stack using walk.induct with
  | case1 => simp [walk, preorders]
  | case2 t stack ih =>
    rw [walk, ih, preorders_append, preorders, preorder_eq]
    rfl

lemma walk_singleton : walk [t] = preorder t := by rw [walk_eq_preorders, preorders, preorders, append_nil]

/-! ## Below a node -/

mutual

/-- What stands below a node of a tree stands below the root. -/
lemma mem_preorder_trans {t u} : ∀ root : Tree, t ∈ root.preorder → u ∈ t.preorder → u ∈ root.preorder
  | .node k s e cs, ht, hu => by
    rcases mem_cons.1 ht with rfl | ht
    · exact hu
    · exact mem_cons_of_mem _ (mem_preorders_trans cs ht hu)

lemma mem_preorders_trans {t u} : ∀ ts : List Tree, t ∈ preorders ts → u ∈ t.preorder → u ∈ preorders ts
  | [], ht, _ => by cases ht
  | r :: rs, ht, hu => by
    rcases mem_append.1 ht with ht | ht
    · exact mem_append_left _ (mem_preorder_trans r ht hu)
    · exact mem_append_right _ (mem_preorders_trans rs ht hu)

end

lemma mem_preorders_of_mem {t} {ts : List Tree} (h : t ∈ ts) : t ∈ preorders ts := by
  induction ts with
  | nil => cases h
  | cons r rs ih =>
    rcases mem_cons.1 h with rfl | h
    · exact mem_append_left _ (mem_preorder_self t)
    · exact mem_append_right _ (ih h)

lemma mem_preorder_of_child {root t c : Tree} (ht : t ∈ root.preorder) (hc : c ∈ t.children) : c ∈ root.preorder := by
  refine mem_preorder_trans root ht ?_
  rw [preorder_eq]
  exact mem_cons_of_mem _ (mem_preorders_of_mem hc)

mutual

/-- What stands below a node comes right after it. -/
lemma prefix_of_preorder_eq {t} : ∀ (root : Tree) {before rest : List Tree},
    root.preorder = before ++ t :: rest → preorders t.children <+: rest
  | .node k s e cs, before, rest, h => by
    rw [preorder] at h
    cases before with
    | nil =>
      obtain ⟨rfl, rfl⟩ := List.cons.inj h
      exact prefix_refl _
    | cons b before => exact prefix_of_preorders_eq cs (List.cons.inj h).2

lemma prefix_of_preorders_eq {t} : ∀ (ts : List Tree) {before rest : List Tree},
    preorders ts = before ++ t :: rest → preorders t.children <+: rest
  | [], before, rest, h => by
    rw [preorders] at h
    cases before <;> cases h
  | r :: rs, before, rest, h => by
    rw [preorders] at h
    rcases append_eq_append_iff.1 h with ⟨between, rfl, hrest⟩ | ⟨between, hr, hrest⟩
    · exact prefix_of_preorders_eq rs hrest
    · cases between with
      | nil =>
        have hnext : preorders rs = [] ++ t :: rest := hrest.symm
        exact prefix_of_preorders_eq rs hnext
      | cons b between =>
        obtain ⟨rfl, rfl⟩ := List.cons.inj hrest
        exact (prefix_of_preorder_eq r hr).trans (prefix_append _ _)

end

end PatchReview.Syntax.Tree

namespace PatchReview.Graph

open List

namespace Draft

/-- The ids listed under a name. -/
def idsOf (d : Draft) (name : String) : Strings := (Fields.get? d.index.byName name).getD []

/-- The graph and the index of a draft know the same symbols. -/
structure Coherent (d : Draft) : Prop where
  keyed : ∀ p ∈ d.graph.symbols, p.1 = p.2.id
  nodup : (d.graph.symbols.map (·.1)).Nodup
  indexed : ∀ id, (Fields.get? d.index.symbols id).map (·.lang) = (Fields.get? d.graph.symbols id).map (·.lang)
  listed : ∀ p ∈ d.graph.symbols, p.1 ∈ d.idsOf p.2.name
  known : ∀ name, ∀ id ∈ d.idsOf name, id ∈ d.graph.symbols.map (·.1)

variable {d d' : Draft} {f : ParsedFile} {lang : String}

lemma coherent_empty : Coherent {} where
  keyed := by simp
  nodup := nodup_nil
  indexed := fun _ => rfl
  listed := by simp
  known := by simp [idsOf, Fields.get?]

/-- Only the symbols matter. -/
lemma Coherent.congr (h : Coherent d) (hs : d'.graph.symbols = d.graph.symbols) (hi : d'.index = d.index) :
    Coherent d' := by
  obtain ⟨h₁, h₂, h₃, h₄, h₅⟩ := h
  constructor <;> simp only [idsOf, hs, hi] <;> assumption

lemma idsOf_addSymbol (d : Draft) (s name) :
    (d.addSymbol s).idsOf name = if name = s.name then d.idsOf name ++ [s.id] else d.idsOf name := by
  change (Fields.get? (Fields.insert d.index.byName s.name _) name).getD [] = _
  rw [Fields.get?_insert]
  split
  · rename_i h
    rw [h]
    rfl
  · rfl

lemma mem_idsOf_addSymbol {s : Symbol} {name id : String} (h : id ∈ d.idsOf name) :
    id ∈ (d.addSymbol s).idsOf name := by
  rw [idsOf_addSymbol]
  split
  · exact mem_append_left _ h
  · exact h

lemma Coherent.addSymbol (h : Coherent d) (s : Symbol) : Coherent (d.addSymbol s) where
  keyed := by
    intro p hp
    rcases (Fields.mem_insert_iff h.nodup).1 hp with rfl | ⟨hp, -⟩
    · rfl
    · exact h.keyed p hp
  nodup := Fields.nodup_insert h.nodup s.id s
  indexed := by
    intro id
    change (Fields.get? (Fields.insert d.index.symbols s.id s) id).map _ =
      (Fields.get? (Fields.insert d.graph.symbols s.id s) id).map _
    rw [Fields.get?_insert, Fields.get?_insert]
    split
    · rfl
    · exact h.indexed id
  listed := by
    intro p hp
    rcases (Fields.mem_insert_iff h.nodup).1 hp with rfl | ⟨hp, -⟩
    · rw [idsOf_addSymbol, if_pos rfl]
      exact mem_append_right _ (mem_singleton_self _)
    · exact mem_idsOf_addSymbol (h.listed p hp)
  known := by
    intro name id hid
    rw [idsOf_addSymbol] at hid
    refine Fields.mem_keys_insert.2 ?_
    split at hid
    · rcases mem_append.1 hid with hid | hid
      · exact .inr (h.known name id hid)
      · exact .inl (mem_singleton.1 hid)
    · exact .inr (h.known name id hid)

/-! ## The steps of a build -/

section

variable (interprocedural : Bool) (lang : String) (es : List Edge)

/-- Calls are added as they are matched to the symbols known before the first of them; all symbols stay. -/
lemma foldl_addCall (d) : (es.foldl (addCall interprocedural lang) d).index = d.index ∧
      (es.foldl (addCall interprocedural lang) d).graph.symbols = d.graph.symbols ∧
      (es.foldl (addCall interprocedural lang) d).graph.nodes = d.graph.nodes ∧
      (es.foldl (addCall interprocedural lang) d).graph.calls = d.graph.calls ++ es.map (d.resolveCall lang) := by
  induction es generalizing d with
  | nil => simp
  | cons e es ih =>
    have hg : (addCall interprocedural lang d e).graph.symbols = d.graph.symbols ∧
        (addCall interprocedural lang d e).graph.nodes = d.graph.nodes ∧
        (addCall interprocedural lang d e).graph.calls = d.graph.calls ++ [d.resolveCall lang e] := by
      unfold addCall
      dsimp only
      split <;> exact ⟨rfl, rfl, rfl⟩
    obtain ⟨h₁, h₂, h₃, h₄⟩ := ih (addCall interprocedural lang d e)
    rw [foldl_cons, h₁, h₂, h₃, h₄, hg.1, hg.2.1, hg.2.2, append_assoc]
    exact ⟨rfl, rfl, rfl, rfl⟩

end

/-- The ids a name is matched to in a language are those listed under it that the graph has in that language. -/
lemma Coherent.mem_resolve_iff (h : Coherent d) {name lang id} : id ∈ d.index.resolve name (some lang) ↔
      id ∈ d.idsOf name ∧ ∃ s, Fields.get? d.graph.symbols id = some s ∧ s.lang = lang := by
  have hl : (Fields.get? d.index.symbols id).any (·.lang == lang) ↔
      ∃ s, Fields.get? d.graph.symbols id = some s ∧ s.lang = lang := by
    have hi := h.indexed id
    cases hg : Fields.get? d.graph.symbols id with
    | none =>
      rw [hg, Option.map_none, Option.map_eq_none_iff] at hi
      simp [hi]
    | some s =>
      rw [hg, Option.map_some, Option.map_eq_some_iff] at hi
      obtain ⟨t, ht, hts⟩ := hi
      simp [ht, hts]
  rw [← hl]
  exact mem_filter

/-- A call stays as it is when the graph has no symbol of its name in its language, else it leads to a symbol of
that language and loses its mark. -/
lemma Coherent.resolveCall_cases (h : Coherent d) (lang e) :
    (d.resolveCall lang e = e ∧ ∀ p ∈ d.graph.symbols, p.2.lang = lang → p.2.name ≠ e.dst) ∨
      ∃ p ∈ d.graph.symbols, p.2.lang = lang ∧
        d.resolveCall lang e = { e with dst := p.1, attrs := Fields.erase e.attrs "unresolved" } := by
  unfold Draft.resolveCall
  cases hr : d.index.resolve e.dst (some lang) with
  | nil =>
    refine .inl ⟨rfl, ?_⟩
    rintro ⟨id, s⟩ hp hs hn
    have hid : id ∈ d.index.resolve e.dst (some lang) :=
      h.mem_resolve_iff.2 ⟨hn ▸ h.listed _ hp, s, Fields.get?_of_mem h.nodup hp, hs⟩
    rw [hr] at hid
    cases hid
  | cons id rest =>
    obtain ⟨-, s, hget, hs⟩ := h.mem_resolve_iff.1 (hr ▸ mem_cons_self)
    exact .inr ⟨(id, s), Fields.mem_of_get? hget, hs, rfl⟩

end Draft

/-! ## Tags -/

/-- Tags change the kinds of symbols and nothing else. -/
lemma tag_symbols (policy lang g) : ∃ kind : Symbol → String,
      (tag policy lang g).symbols = g.symbols.map fun p => (p.1, { p.2 with kind := kind p.2 }) := by
  refine ⟨fun s => if s.lang != lang then s.kind else if policy.isSink lang s.name then "sink"
    else if policy.isSource lang s.name then "source" else s.kind, map_congr_left ?_⟩
  rintro ⟨id, s⟩ -
  dsimp only
  split
  · rfl
  · split
    · rfl
    · split <;> rfl

end PatchReview.Graph
