import Mathlib.Data.List.Perm.Subperm
import PatchReview.Proofs.Import.Collecting
import PatchReview.Proofs.Inquiry.Telling

/-!
# Imports and exports

An import of a name from a module is resolved just when no module below it stumbles and the module is read to have the
name; so it follows the module's exports just when these two agree.
-/

namespace PatchReview.Import

open Action Inquiry List Relation

/-! ## Searches of a bounded depth -/

section

variable {α : Type} {star named : α → α → Prop} {hit : α → Prop} {fails : Nat → α → Prop}

/-- What a search of a depth leaves behind when it fails. The nodes that were seen lie at the ends of ways of stars
without repetition. A node at the end of a way that is short enough is no hit, its stars are seen, and the searches from
the nodes that it names fail with what is left of the depth. -/
structure Leaves (star named : α → α → Prop) (hit : α → Prop) (fails : Nat → α → Prop) (depth : Nat) (a : α)
    (seen : α → Prop) : Prop where
  start : seen a
  way : ∀ x, seen x → ∃ way : List α, way.head? = some a ∧ way.getLast? = some x ∧ way.IsChain star ∧ way.Nodup ∧
    (way.length ≤ depth → ¬ hit x ∧ (∀ y, star x y → seen y) ∧ ∀ y, named x y → fails (depth - way.length) y)

/-- A path that leaves the nodes seen does so for good at some point. -/
lemma exists_exit {r : α → α → Prop} {avoided seen : α → Prop} {a z : α}
    (h : ReflTransGen (fun x y => r x y ∧ ¬ avoided y) a z) (ha : ¬ avoided a) (hz : ¬ seen z) :
    (¬ seen a ∧ ReflTransGen (fun x y => r x y ∧ ¬ (avoided y ∨ seen y)) a z) ∨
      ∃ x y, seen x ∧ ¬ avoided x ∧ r x y ∧ ¬ avoided y ∧ ¬ seen y ∧
        ReflTransGen (fun x y => r x y ∧ ¬ (avoided y ∨ seen y)) y z := by
  induction h using ReflTransGen.head_induction_on with
  | refl => exact .inl ⟨hz, .refl⟩
  | @head b c hbc _ ih =>
    rcases ih hbc.2 with ⟨hc, hpath⟩ | hexit
    · by_cases hb : seen b
      · exact .inr ⟨b, c, hb, ha, hbc.1, hbc.2, hc, hpath⟩
      · exact .inl ⟨hb, .head ⟨hbc.1, not_or.2 ⟨hbc.2, hc⟩⟩ hpath⟩
    · exact .inr hexit

variable {good : α → Prop} (hgood : ∀ x y, good x → star x y ∨ named x y → good y)
  (hleaves : ∀ depth a, good a → fails depth a → ∃ seen, Leaves star named hit fails depth a seen)

include hgood hleaves

/-- A search that fails and is deep enough for all ways without repetition passes no hit: by induction on the depth, the
nodes seen being kept off in the searches that start below them. -/
lemma not_hit_of_fails (depth) {a : α} (avoided : α → Prop) (ha : good a) (hfails : fails depth a)
    (hstart : ¬ avoided a) (hclosed : ∀ x y, avoided x → star x y → avoided y)
    (hdepth : ∀ chain : List α, chain.head? = some a → chain.IsChain (fun x y => star x y ∨ named x y) →
      chain.Nodup → (∀ x ∈ chain, ¬ avoided x) → chain.length ≤ depth)
    {z : α} (hpath : ReflTransGen (fun x y => (star x y ∨ named x y) ∧ ¬ avoided y) a z) : ¬ hit z := by
  induction depth using Nat.strong_induction_on generalizing a avoided with
  | _ depth ih =>
    obtain ⟨seen, hseen⟩ := hleaves depth a ha hfails
    -- The way to a node that is not kept off is itself not kept off, hence short enough.
    have hway (x : α) (hx : seen x) (hax : ¬ avoided x) : ∃ way : List α, way.head? = some a ∧ way.getLast? = some x ∧
        way.IsChain star ∧ way.Nodup ∧ (∀ y ∈ way, ¬ avoided y) ∧ way.length ≤ depth ∧ ¬ hit x ∧
        (∀ y, star x y → seen y) ∧ ∀ y, named x y → fails (depth - way.length) y := by
      obtain ⟨way, hhead, hlast, hchain, hnodup, hdone⟩ := hseen.way x hx
      have hoff : ∀ y ∈ way, ¬ avoided y := by
        refine hchain.backwards_induction _ way (fun y z hyz hz hy => hz (hclosed y z hy hyz)) fun hne => ?_
        rwa [(getLast_eq_iff_getLast?_eq_some hne).2 hlast]
      have hlen := hdepth way hhead (hchain.imp fun _ _ => .inl) hnodup hoff
      exact ⟨way, hhead, hlast, hchain, hnodup, hoff, hlen, hdone hlen⟩
    intro hz
    have haz : ¬ avoided z := by
      cases hpath with
      | refl => exact hstart
      | tail _ hlast => exact hlast.2
    have hzs : ¬ seen z := fun hs => by
      obtain ⟨_, _, _, _, _, _, _, hno, _⟩ := hway z hs haz
      exact hno hz
    obtain ⟨x, y, hx, hax, hxy, hay, hys, hrest⟩ := (exists_exit hpath hstart hzs).resolve_left fun h => h.1 hseen.start
    obtain ⟨way, hhead, hlast, hchain, hnodup, hoff, hlen, -, hstars, hnamed⟩ := hway x hx hax
    have hname : named x y := hxy.resolve_left fun hs => hys (hstars y hs)
    -- All nodes of the way are seen, so a chain that keeps off the nodes seen prolongs it.
    have hin : ∀ u ∈ way, ¬ avoided u → seen u := by
      refine hchain.induction (fun u => ¬ avoided u → seen u) way (fun u v huv hu hv => ?_) fun hne _ => ?_
      · have hau : ¬ avoided u := fun h => hv (hclosed u v h huv)
        obtain ⟨_, _, _, _, _, _, _, _, hs, _⟩ := hway u (hu hau) hau
        exact hs v huv
      · rw [(head_eq_iff_head?_eq_some hne).2 hhead]
        exact hseen.start
    have hxgood : good x := by
      refine hchain.induction good way (fun u v huv hu => hgood u v hu (.inl huv)) (fun hne => ?_) x
        (mem_of_getLast? hlast)
      rw [(head_eq_iff_head?_eq_some hne).2 hhead]
      exact ha
    have hpos : 0 < way.length := length_pos_of_mem (mem_of_getLast? hlast)
    refine ih (depth - way.length) (by omega) _ (hgood x y hxgood hxy) (hnamed y hname) (not_or.2 ⟨hay, hys⟩)
      ?_ ?_ hrest hz
    · rintro u v (hu | hu) huv
      · exact .inl (hclosed u v hu huv)
      · by_cases hau : avoided u
        · exact .inl (hclosed u v hau huv)
        · obtain ⟨_, _, _, _, _, _, _, _, hs, _⟩ := hway u hu hau
          exact .inr (hs v huv)
    · intro chain hcstart hcchain hcnodup hcoff
      have hwhole := hdepth (way ++ chain) (by rw [head?_append, hhead]; rfl) ?_ ?_ ?_
      · rw [length_append] at hwhole
        omega
      · refine (hchain.imp fun _ _ => .inl).append hcchain fun u hu v hv => ?_
        rw [hlast] at hu
        rw [hcstart] at hv
        cases hu
        cases hv
        exact hxy
      · refine List.nodup_append.2 ⟨hnodup, hcnodup, fun u hu v hv huv => ?_⟩
        subst huv
        exact hcoff u hv (.inr (hin u hu (hoff u hu)))
      · exact forall_mem_append.2 ⟨hoff, fun u hu h => hcoff u hu (.inl h)⟩

end

/-! ## What a collection finds -/

section

variable {ix : Index} {rev path name : String} {w : Workspace}

section

variable (ix rev w)

/-- A module takes names from another one by a list that satisfies a condition. -/
def TakesFrom (p : List ExportName → Prop) (path target : String) : Prop :=
  ∃ names module, p names ∧ .namedFrom names module ∈ readExports ix rev w path ∧ Leads ix rev w path module target

/-- A list of names exports a name. -/
def HasName (name : String) (names : List ExportName) : Prop := ∃ n ∈ names, n.outer = name

/-- A module has a name of its own. -/
def Owns (name path : String) : Prop :=
  .declaration name ∈ readExports ix rev w path ∨ ∃ names, HasName name names ∧ .names names ∈ readExports ix rev w path

/-- A module whose exports can be collected. -/
structure Collectable (path : String) : Prop where
  source : ∃ source, sourceOf ix rev path = some source
  definite : Definite ix rev w path

/-- A collection that ends normally and satisfies a condition. -/
def CollectsTo (p : Collected → Prop) (depth : Nat) (path : String) : Prop :=
  ∃ source c, sourceOf ix rev path = some source ∧ collect ix rev depth path source [] w = (.ok c, w) ∧ p c

end

lemma Starred.linked {target} (h : Starred ix rev w path target) : Linked ix rev w path target := by
  obtain ⟨module, he, ht, -⟩ := h
  exact ⟨_, he, module, rfl, ht⟩

lemma TakesFrom.linked {p : List ExportName → Prop} (hp : ∀ names, p names → names ≠ []) {target}
    (h : TakesFrom ix rev w p path target) : Linked ix rev w path target := by
  obtain ⟨names, module, hn, he, ht⟩ := h
  obtain ⟨n, hn⟩ := exists_mem_of_ne_nil names (hp names hn)
  exact ⟨_, he, module, Export.module?_namedFrom hn module, ht⟩

lemma Collectable.of_linked (h : Collectable ix rev w path) (hb : KeepsBytes ix rev) {target}
    (hlink : Linked ix rev w path target) : Collectable ix rev w target := by
  obtain ⟨e, he, module, hm, ht⟩ := hlink
  exact ⟨hb.source ht, fun x hx => h.definite x (.head ⟨e, he, module, hm, ht⟩ hx)⟩

lemma Provides.exports_ne_nil {exports} {leads : String → String → String → Prop} {sought}
    (h : Provides exports leads sought path name) : exports path ≠ [] := by
  cases h with
  | declared h => exact ne_nil_of_mem h
  | listed h => exact ne_nil_of_mem h
  | named h => exact ne_nil_of_mem h
  | all h => exact ne_nil_of_mem h

/-- A name that a module is read to have is the own name of a module that it is taken from. -/
lemma exists_owner (h : Listed ix rev w path name) :
    ∃ z, ReflTransGen (fun x y => Starred ix rev w x y ∨ TakesFrom ix rev w (HasName name) x y) path z ∧
      Owns ix rev w name z := by
  induction h with
  | declared h => exact ⟨_, .refl, .inl h⟩
  | listed h hn => exact ⟨_, .refl, .inr ⟨_, ⟨_, hn, rfl⟩, h⟩⟩
  | named h hn ht _ ih =>
    obtain ⟨z, hpath, hz⟩ := ih
    exact ⟨z, .head (.inr ⟨_, _, ⟨_, hn, rfl⟩, h, ht⟩) hpath, hz⟩
  | all h ht hp ih =>
    obtain ⟨z, hpath, hz⟩ := ih
    exact ⟨z, .head (.inl ⟨_, h, ht, fun he => hp.exports_ne_nil (readExports_of_empty he)⟩) hpath, hz⟩

/-- All modules on the way to one that exports something are gone through. -/
lemma follows_of_linked {z} (h : ReflTransGen (Linked ix rev w) path z) (hz : readExports ix rev w z ≠ []) :
    ReflTransGen (fun x y => Starred ix rev w x y ∨ TakesFrom ix rev w (· ≠ []) x y) path z := by
  induction h using ReflTransGen.head_induction_on with
  | refl => exact .refl
  | @head x y hxy hyz ih =>
    have hy : readExports ix rev w y ≠ [] := by
      rcases hyz.cases_head with rfl | ⟨_, ⟨e, he, -⟩, -⟩
      · exact hz
      · exact ne_nil_of_mem he
    refine .head ?_ ih
    obtain ⟨e, he, module, hm, ht⟩ := hxy
    cases e with
    | declaration | names => cases hm
    | namedFrom names module =>
      cases names with
      | nil => cases hm
      | cons n names =>
        cases hm
        exact .inr ⟨_, _, cons_ne_nil n names, he, ht⟩
    | allFrom module =>
      cases hm
      exact .inl ⟨_, he, ht, fun h => hy (readExports_of_empty h)⟩

section

variable (hb : KeepsBytes ix rev) {depth : Nat} (ha : Collectable ix rev w path)
  (hdepth : ∀ chain : List String, chain.head? = some path → chain.IsChain (Linked ix rev w) → chain.Nodup →
    chain.length ≤ depth)

include hb ha hdepth

section

variable (p : Collected → Prop) {q : List ExportName → Prop} (hit : String → Prop)
  (hhit : ∀ depth x c, p c → (∀ e ∈ readExports ix rev w x, Handled ix rev w depth x c e) → ¬ hit x)
  (hnamed : ∀ depth x c names module target, p c → q names → .namedFrom names module ∈ readExports ix rev w x →
    Leads ix rev w x module target → Handled ix rev w depth x c (.namedFrom names module) →
    CollectsTo ix rev w p depth target)

include hhit hnamed

omit ha hdepth in
/-- A collection that ends normally leaves the modules that it visited; what it takes from the lists depends on what the
collections of the modules that are named find. -/
lemma leaves_of_collectsTo (depth) {a} (ha : Collectable ix rev w a) (h : CollectsTo ix rev w p depth a) :
    ∃ seen, Leaves (Starred ix rev w) (TakesFrom ix rev w q) hit (CollectsTo ix rev w p) depth a seen := by
  obtain ⟨source, c, hs, hc, hp⟩ := h
  have hex : Explored ix rev w depth a [] c := by
    rcases collect_collects (w := w) hb depth [] hs ha.definite with ⟨d, hd, hex⟩ | ⟨e, hd, -⟩
    · rw [hc] at hd
      cases hd
      exact hex
    · rw [hc] at hd
      cases hd
  refine ⟨(· ∈ c.visited), hex.self, fun x hx => ?_⟩
  obtain ⟨way, hway, hall⟩ := hex.reached x hx not_mem_nil
  refine ⟨way, hway.start, hway.stop, hway.chain, hway.nodup, fun hl => ⟨hhit _ x c hp (hall hl), ?_, ?_⟩⟩
  · rintro y ⟨module, he, ht, hne⟩
    obtain ⟨source, hs⟩ := hb.source ht
    exact (hall hl _ he).2 y source ht hs fun h => hne (h ▸ hs)
  · rintro y ⟨names, module, hq, he, ht⟩
    exact hnamed _ x c names module y hp hq he ht (hall hl _ he)

/-- A collection that ends normally and is deep enough passes no hit. -/
lemma not_hit_of_collectsTo (hq : ∀ names, q names → names ≠ []) (h : CollectsTo ix rev w p depth path) {z}
    (hpath : ReflTransGen (fun x y => Starred ix rev w x y ∨ TakesFrom ix rev w q x y) path z) : ¬ hit z := by
  have hlinked (x y) (h : Starred ix rev w x y ∨ TakesFrom ix rev w q x y) : Linked ix rev w x y :=
    h.elim Starred.linked (TakesFrom.linked hq)
  exact not_hit_of_fails (fun x y (hx : Collectable ix rev w x) h => hx.of_linked hb (hlinked x y h))
    (leaves_of_collectsTo hb p hit hhit hnamed) depth (fun _ => False) ha h not_false (fun _ _ h _ => h)
    (fun chain hhead hchain hnodup _ => hdepth chain hhead (hchain.imp hlinked) hnodup)
    (hpath.lift id fun x y h => ⟨h, not_false⟩)

end

variable {source : Bytes} {c : Collected}

section

variable (hs : sourceOf ix rev path = some source)

include hs

section

variable (hc : collect ix rev depth path source [] w = (.ok c, w))

include hc

/-- A collection that is deep enough and ends normally meets no module that stumbles. -/
lemma not_stumbles_of_collect : ¬ Stumbles ix rev w path := by
  rintro ⟨z, hpath, hz⟩
  have hne : readExports ix rev w z ≠ [] := by
    obtain ⟨e, he, -⟩ := hz
    exact ne_nil_of_mem he
  refine not_hit_of_collectsTo hb ha hdepth (fun _ => True) (fun x => ∃ e ∈ readExports ix rev w x, Trips ix rev w x e)
    (fun depth x c _ hall hx => ?_) (fun depth x c names module target _ hne he ht hh => ?_) (fun _ h => h)
    ⟨source, c, hs, hc, trivial⟩ (follows_of_linked hpath hne) hz
  · obtain ⟨e, he, htrip⟩ := hx
    have hh := hall e he
    cases e with
    | declaration | names => exact htrip
    | namedFrom names module =>
      obtain ⟨n, hn⟩ := exists_mem_of_ne_nil names htrip.1
      exact htrip.2.elim (fun h => h (hh n hn).1) (hh n hn).2.1
    | allFrom module => exact hh.1 htrip
  · obtain ⟨n, hn⟩ := exists_mem_of_ne_nil names hne
    obtain ⟨source, hs⟩ := hb.source ht
    obtain ⟨d, hd, -⟩ := (hh n hn).2.2 target source ht hs
    exact ⟨source, d, hs, hd, trivial⟩

/-- A collection that is deep enough and ends normally has every name that the module is read to have. -/
lemma mem_keys_of_listed (hn : Listed ix rev w path name) : name ∈ c.keys := by
  by_contra hmiss
  obtain ⟨z, hpath, hz⟩ := exists_owner hn
  refine not_hit_of_collectsTo hb ha hdepth (name ∉ ·.keys) (Owns ix rev w name)
    (fun depth x c hmiss hall hx => ?_) (fun depth x c names module target hmiss hname he ht hh => ?_)
    (fun names ⟨n, hmem, _⟩ => ne_nil_of_mem hmem)
    ⟨source, c, hs, hc, hmiss⟩ hpath hz
  · rcases hx with he | ⟨names, ⟨n, hmem, rfl⟩, he⟩
    · exact hmiss (hall _ he)
    · exact hmiss (hall _ he n hmem)
  · obtain ⟨n, hmem, rfl⟩ := hname
    obtain ⟨source, hs⟩ := hb.source ht
    obtain ⟨d, hd, hk⟩ := (hh n hmem).2.2 target source ht hs
    exact ⟨source, d, hs, hd, fun h => hmiss (hk h)⟩

end

/-- A collection that is deep enough finds a name just when no module below stumbles and the module is read to have
it. -/
lemma mem_collect_iff : (∃ c, collect ix rev depth path source [] w = (.ok c, w) ∧ name ∈ c.keys) ↔
      ¬ Stumbles ix rev w path ∧ Listed ix rev w path name := by
  constructor
  · rintro ⟨c, hc, hn⟩
    refine ⟨not_stumbles_of_collect hb ha hdepth hs hc, ?_⟩
    rcases collect_collects (w := w) hb depth [] hs ha.definite with ⟨d, hd, hex⟩ | ⟨e, hd, -⟩
    · rw [hc] at hd
      cases hd
      exact hex.sound name hn
    · rw [hc] at hd
      cases hd
  · rintro ⟨hstumble, hn⟩
    rcases collect_collects (w := w) hb depth [] hs ha.definite with ⟨c, hc, -⟩ | ⟨e, -, hd⟩
    · exact ⟨c, hc, mem_keys_of_listed hb ha hdepth hs hc hn⟩
    · exact absurd hd hstumble

end

end

end

/-! ## Imports against exports -/

/-- The exports that the export statements of a module state. -/
def statedExports (ix : Index) (rev : String) (w : Workspace) (path : String) : List Export :=
  match sourceOf ix rev path, (Repository.treeOf ((sourceOf ix rev path).getD []) w).1 with
  | some source, .ok root =>
    (root.preorder.filter (·.kind == "export_statement")).filterMap (Export.ofText? <| ·.text source)
  | _, _ => []

/-- The names that a module exports: those it declares, those it lists, those it takes from another module that exports
what stands there for them, and all that another module exports. -/
def Exports (ix : Index) (rev : String) (w : Workspace) : String → String → Prop :=
  Provides (statedExports ix rev w) (Leads ix rev w) ExportName.inner

section

variable (ix : Index) (w : Workspace) (q : Request) (asked : Option String) (depth : Int) (file : String)

/-- A question for a name of a module. The revision has the bytes of its files, the module is one file, below it every
specifier stands for one file at most, and no chain of modules that take names from each other, without repetition, is
longer than the depth. -/
structure Answerable : Prop where
  rev : ix.requireRevision asked = .ok q.rev
  bytes : KeepsBytes ix q.rev
  root : ∃ p, Files.resolve (Path.ofString (q.root?.getD "/")) w = (.ok p, w)
  stands : typescriptModuleFiles ix q w = (.ok [file], w)
  definite : Definite ix q.rev w file
  deep : ∀ chain : Strings, chain.head? = some file → chain.IsChain (Linked ix q.rev w) → chain.Nodup →
    (chain.length : Int) ≤ depth

/-- An import of a name from a module is resolved just when the module exports the name. -/
def ResolvesExactly : Prop :=
  (∃ data w', resolve ix "typescript" q.module q.name asked q.root q.importer (.ok depth) w =
    (.ok (.found data), w')) ↔ Exports ix q.rev w file q.name

variable {ix w q asked depth file}

/-- An import is resolved just when the collection of the module's exports finds the name. -/
lemma found_iff (h : Answerable ix w q asked depth file) :
    (∃ data w', resolve ix "typescript" q.module q.name asked q.root q.importer (.ok depth) w =
      (.ok (.found data), w')) ↔ ¬ Stumbles ix q.rev w file ∧ Listed ix q.rev w file q.name := by
  obtain ⟨p, hroot⟩ := h.root
  obtain ⟨blob, source, hbytes⟩ := h.bytes file (present_of_moduleFiles h.stands mem_cons_self)
  have hs := sourceOf_of_bytesAt hbytes
  have hresolve : resolve ix "typescript" q.module q.name asked q.root q.importer (.ok depth) =
      guarded "resolve_import failed" (typescript ix q (.ok depth)) := by
    unfold resolve
    rw [h.rev, ofExcept_ok_bind]
    rw [if_neg (by decide), if_pos (by decide)]
  have hrun : typescript ix q (.ok depth) w = _ := typescriptWith_of_singleton _ hroot h.stands hbytes
  have hdeep : ∀ chain : Strings, chain.head? = some file → chain.IsChain (Linked ix q.rev w) → chain.Nodup →
      chain.length ≤ depth.toNat := fun chain hhead hchain hnodup => by
    have := h.deep chain hhead hchain hnodup
    omega
  rw [hresolve, ← mem_collect_iff h.bytes ⟨⟨source, hs⟩, h.definite⟩ hdeep hs]
  rw [ofExcept_ok_bind] at hrun
  constructor
  · rintro ⟨data, w', hfound⟩
    have hfound := eq_found_of_guarded hfound
    rw [hrun] at hfound
    rcases collect_collects (w := w) h.bytes depth.toNat [] hs h.definite with ⟨c, hc, -⟩ | ⟨e, hc, -⟩
    · refine ⟨c, hc, ?_⟩
      rw [hc] at hfound
      cases hd : Fields.get? c.names q.name with
      | some place => exact Collected.get?_names.1 ⟨place, hd⟩
      | none =>
        dsimp only at hfound
        rw [hd] at hfound
        cases hfound
    · rw [hc] at hfound
      cases hfound
  · rintro ⟨c, hc, hn⟩
    obtain ⟨place, hd⟩ := Collected.get?_names.2 hn
    rw [hc] at hrun
    dsimp only at hrun
    rw [hd] at hrun
    exact ⟨_, w, guarded_of_ok hrun⟩

/-- Imports follow the exports of a module just when the two sides agree on the name: what the module exports, and what
it is read to have while nothing below it stumbles. -/
theorem resolves_exactly_iff (h : Answerable ix w q asked depth file) : ResolvesExactly ix w q asked depth file ↔
      (¬ Stumbles ix q.rev w file ∧ Listed ix q.rev w file q.name ↔ Exports ix q.rev w file q.name) := by
  rw [ResolvesExactly, found_iff h]

end

/-! ## Plain modules -/

section

variable {ix : Index} {rev : String} {w : Workspace} {path name : String}

lemma mem_files_of_present (h : present ix rev path) : path ∈ ix.files.map (·.path) := by
  unfold present Index.versionOf? at h
  cases hf : ix.fileAt? path with
  | none =>
    rw [hf] at h
    cases h
  | some f =>
    have hpath : f.path = path := by simpa using find?_some hf
    exact hpath ▸ mem_map_of_mem (mem_of_find?_eq_some hf)

/-- What holds of all files of an index holds of all modules below one of them. -/
lemma mem_files_of_linked {x : String} (h : ReflTransGen (Linked ix rev w) path x)
    (hp : path ∈ ix.files.map (·.path)) : x ∈ ix.files.map (·.path) := by
  induction h with
  | refl => exact hp
  | tail _ hlink _ =>
    obtain ⟨e, -, module, -, ht⟩ := hlink
    exact mem_files_of_present (present_of_moduleFiles (moduleFiles_of_filesOf ht "") mem_cons_self)

lemma length_le_of_isChain_linked {chain : Strings} (hhead : chain.head? = some path)
    (hchain : chain.IsChain (Linked ix rev w)) (hnodup : chain.Nodup) (hp : path ∈ ix.files.map (·.path)) :
    chain.length ≤ ix.files.length := by
  have hsub : ∀ x ∈ chain, x ∈ ix.files.map (·.path) := by
    refine hchain.induction (· ∈ ix.files.map (·.path)) chain (fun x y hxy hx => mem_files_of_linked (.single hxy) hx)
      fun hne => ?_
    rwa [(head_eq_iff_head?_eq_some hne).2 hhead]
  exact (subperm_of_subset hnodup hsub).length_le.trans_eq (length_map _)

variable (ix rev w path) in
/-- A module is plain when its exports are statements that can be followed, each to one file at most, and take no name
under another one. -/
structure PlainModule : Prop where
  stated : readExports ix rev w path = statedExports ix rev w path
  kept : ∀ names module, .namedFrom names module ∈ readExports ix rev w path → ∀ n ∈ names, n.inner = n.outer
  definite : ∀ e ∈ readExports ix rev w path, ∀ module, e.module? = some module →
    ∃ files, filesOf ix rev w path module = some files ∧ files.length ≤ 1
  room : HasRoom w path

lemma PlainModule.not_trips (h : PlainModule ix rev w path) {e} (he : e ∈ readExports ix rev w path) :
    ¬ Trips ix rev w path e := by
  intro htrip
  have hfiles {module : String} (hm : e.module? = some module) : filesOf ix rev w path module ≠ none := by
    obtain ⟨files, hfiles, -⟩ := h.definite e he module hm
    rw [hfiles]
    exact Option.some_ne_none _
  cases e with
  | declaration | names => exact htrip
  | namedFrom names module =>
    obtain ⟨n, hn⟩ := exists_mem_of_ne_nil names htrip.1
    exact htrip.2.elim (fun hr => hr h.room) (hfiles (Export.module?_namedFrom hn module))
  | allFrom module => exact hfiles rfl htrip

/-- Modules that export the same, and look for the same names in other modules, have the same names. -/
lemma Provides.congr {exports exports'} {leads : String → String → String → Prop} {sought sought'}
    {below : String → Prop}
    (hnext : ∀ x e module y, below x → e ∈ exports x → e.module? = some module → leads x module y → below y)
    (hsame : ∀ x, below x → exports x = exports' x)
    (hsought : ∀ x names module, below x → .namedFrom names module ∈ exports x → ∀ n ∈ names, sought n = sought' n)
    (h : Provides exports leads sought path name) (hp : below path) : Provides exports' leads sought' path name := by
  induction h with
  | declared he => exact .declared (hsame _ hp ▸ he)
  | listed he hn => exact .listed (hsame _ hp ▸ he) hn
  | named he hn ht _ ih =>
    refine .named (hsame _ hp ▸ he) hn ht ?_
    rw [← hsought _ _ _ hp he _ hn]
    exact ih (hnext _ _ _ _ hp he (Export.module?_namedFrom hn _) ht)
  | all he ht _ ih => exact .all (hsame _ hp ▸ he) ht (ih (hnext _ _ _ _ hp he rfl ht))

/-- Where all modules below are plain, a module is read to have the names that it exports. -/
lemma listed_iff_exports (h : ∀ x, ReflTransGen (Linked ix rev w) path x → PlainModule ix rev w x) :
    Listed ix rev w path name ↔ Exports ix rev w path name := by
  constructor
  · intro hn
    exact Provides.congr (fun x e module y hx he hm ht => hx.tail ⟨e, he, module, hm, ht⟩) (fun x hx => (h x hx).stated)
      (fun x names module hx he n hn => ((h x hx).kept names module he n hn).symm) hn .refl
  · intro hn
    refine Provides.congr (fun x e module y hx he hm ht => ?_) (fun x hx => (h x hx).stated.symm)
      (fun x names module hx he n hn => ?_) hn .refl
    · exact hx.tail ⟨e, (h x hx).stated ▸ he, module, hm, ht⟩
    · exact (h x hx).kept names module ((h x hx).stated ▸ he) n hn

variable (ix rev w path) in
/-- Whether a module is plain. -/
def plainAt : Bool :=
  let exports := readExports ix rev w path
  exports == statedExports ix rev w path
    && exports.all (fun
      | .namedFrom names _ => names.all fun n => n.inner == n.outer
      | _ => true)
    && exports.all (fun e => e.module?.all fun module => (filesOf ix rev w path module).any (·.length ≤ 1))
    && (requireGrandparent path w).1.toOption.isSome

lemma PlainModule.of_plainAt (h : plainAt ix rev w path) : PlainModule ix rev w path := by
  simp only [plainAt, Bool.and_eq_true, beq_iff_eq, all_eq_true] at h
  obtain ⟨⟨⟨hstated, hkept⟩, hdefinite⟩, hroom⟩ := h
  refine ⟨hstated, fun names module he n hn => ?_, fun e he module hm => ?_, ?_⟩
  · simpa using all_eq_true.1 (hkept _ he) n hn
  · have hany := hdefinite e he
    rw [hm, Option.all_some] at hany
    obtain ⟨files, hf, hlen⟩ := (Option.any_eq_true _ _).1 hany
    exact ⟨files, hf, of_decide_eq_true hlen⟩
  · obtain ⟨u, hu⟩ := Option.isSome_iff_exists.1 hroom
    have hsteady := (steady_requireGrandparent path).after w
    cases hr : (requireGrandparent path w).1 with
    | error e =>
      rw [hr] at hu
      cases hu
    | ok u =>
      rw [hr] at hsteady
      exact hsteady

lemma keepsBytes_of_files (h : ∀ f ∈ ix.files, (sourceOf ix rev f.path).isSome) : KeepsBytes ix rev := by
  intro path hp
  obtain ⟨f, hf, rfl⟩ := mem_map.1 (mem_files_of_present hp)
  obtain ⟨source, hs⟩ := Option.isSome_iff_exists.1 (h f hf)
  obtain ⟨blob, hb⟩ := bytesAt_of_sourceOf hs
  exact ⟨blob, source, hb⟩

section

variable {q : Request} {asked : Option String} {depth : Int} {file : String}
  (hplain : ∀ p ∈ ix.files.map (·.path), plainAt ix q.rev w p = true) (hfile : file ∈ ix.files.map (·.path))

include hplain hfile

lemma plain_below {x} (h : ReflTransGen (Linked ix q.rev w) file x) : PlainModule ix q.rev w x :=
  .of_plainAt (hplain x (mem_files_of_linked h hfile))

/-- In a store of plain modules, a depth of as many modules as there are files is enough. -/
lemma answerable_of_plain (hrev : ix.requireRevision asked = .ok q.rev) (hbytes : KeepsBytes ix q.rev)
    (hroot : q.root? = none) (hstands : typescriptModuleFiles ix q w = (.ok [file], w))
    (hdepth : ix.files.length ≤ depth) : Answerable ix w q asked depth file where
  rev := hrev
  bytes := hbytes
  root := resolve_root hroot w
  stands := hstands
  definite := by
    intro x hx e he module hm files hfiles
    obtain ⟨files', hfiles', hlen⟩ := (plain_below hplain hfile hx).definite e he module hm
    rw [hfiles] at hfiles'
    cases hfiles'
    exact hlen
  deep := by
    intro chain hhead hchain hnodup
    have hlen := length_le_of_isChain_linked hhead hchain hnodup hfile
    omega

/-- In a store of plain modules, nothing stumbles and modules are read to have what they export. -/
lemma agrees_of_plain : ¬ Stumbles ix q.rev w file ∧ Listed ix q.rev w file name ↔ Exports ix q.rev w file name := by
  rw [← listed_iff_exports fun x hx => plain_below hplain hfile hx]
  refine and_iff_right ?_
  rintro ⟨x, hx, e, he, htrip⟩
  exact (plain_below hplain hfile hx).not_trips he htrip

end

end

/-! ## Two stores -/

/-- A script at a path, with the byte ranges of its export statements. -/
structure Script where
  path : String
  text : String
  statements : List (Nat × Nat)

variable (scripts : List Script)

/-- Scripts, indexed at one revision with their bytes. -/
def scriptIndex : Index :=
  { revisions := [⟨some "r", none, 0⟩]
    files := scripts.zipIdx.map fun s => ⟨s.2, s.1.path, "typescript"⟩
    versions := scripts.zipIdx.map fun s => ⟨"r", s.2, s.1.path, s.1.text.length⟩
    blobs := scripts.map fun s => ⟨s.path, false, .bytes (utf8 s.text)⟩ }

/-- A workspace that knows the syntax of scripts. -/
def scriptWorkspace : Workspace :=
  { trees := scripts.map fun s => (utf8 s.text, .node "program" 0 s.text.length
      (s.statements.map fun r => .node "export_statement" r.1 r.2 [])) }

/-- Two scripts that take names from each other, one of them also from a third. -/
def ring : List Script :=
  [⟨"/src/a.ts", "export * from './b'", [(0, 19)]⟩, ⟨"/src/b.ts", "export \x7b x \x7d from './c'\nexport * from './a'",
    [(0, 23), (24, 43)]⟩, ⟨"/src/c.ts", "export const x = 1", [(0, 18)]⟩]

/-- A script that takes a name from another one under a new name. -/
def renamed : List Script :=
  [⟨"/src/a.ts", "export \x7b x as y \x7d from './m'", [(0, 28)]⟩, ⟨"/src/m.ts", "export const x = 1", [(0, 18)]⟩]

/-- An import beside the scripts. -/
def importOf (module name : String) : Request := { module, name, rev := "r", importer := some "/src/main.ts" }

lemma plain_ring : ∀ p ∈ (scriptIndex ring).files.map (·.path),
    plainAt (scriptIndex ring) (importOf "./a" "x").rev (scriptWorkspace ring) p := by
  decide +kernel

/-- A name that goes through a ring of modules is found. -/
theorem ring_resolved : ResolvesExactly (scriptIndex ring) (scriptWorkspace ring) (importOf "./a" "x") (some "r") 3
    "/src/a.ts" := by
  refine (resolves_exactly_iff ?_).mpr (agrees_of_plain plain_ring (by decide))
  exact answerable_of_plain plain_ring (by decide) rfl (keepsBytes_of_files (by decide +kernel)) rfl
    (moduleFiles_of_filesOf (by decide +kernel) "x") (by decide)

lemma exports_renamed : Exports (scriptIndex renamed) "r" (scriptWorkspace renamed) "/src/a.ts" "y" := by
  have ha : .namedFrom [⟨"x", "y"⟩] "./m" ∈ statedExports (scriptIndex renamed) "r" (scriptWorkspace renamed)
      "/src/a.ts" := by decide +kernel
  have hm : .declaration "x" ∈ statedExports (scriptIndex renamed) "r" (scriptWorkspace renamed) "/src/m.ts" := by
    decide +kernel
  have ht : Leads (scriptIndex renamed) "r" (scriptWorkspace renamed) "/src/a.ts" "./m" "/src/m.ts" := by
    unfold Leads
    decide +kernel
  exact .named ha mem_cons_self ht (.declared hm)

/-- Whether an inquiry ends with something found. -/
def finds : Result Inquiry.Outcome → Bool
  | .ok (.found _) => true
  | _ => false

/-- A name that is taken from another module under a new name is exported but not found. -/
theorem renamed_name_missed : ¬ ResolvesExactly (scriptIndex renamed) (scriptWorkspace renamed) (importOf "./a" "y")
    (some "r") 2 "/src/a.ts" := by
  intro h
  obtain ⟨data, w', hfound⟩ := h.mpr exports_renamed
  have hmissed : finds (resolve (scriptIndex renamed) "typescript" "./a" "y" (some "r") none (some "/src/main.ts")
      (.ok 2) (scriptWorkspace renamed)).1 = false := by decide +kernel
  change resolve (scriptIndex renamed) "typescript" "./a" "y" (some "r") none (some "/src/main.ts") (.ok 2)
    (scriptWorkspace renamed) = _ at hfound
  rw [hfound] at hmissed
  cases hmissed

end PatchReview.Import
