import PatchReview.Proofs.Index.Listing
import PatchReview.Proofs.Graph.OneFile

/-!
# What a content holds

The rows that a file's content brings: nodes, symbols and calls of its own tree. A call is resolved from the start
exactly when the content has a symbol of its name.
-/

/-!
## Ids under digests

A digest is a text of hexadecimal digits, so the id of a node under a digest tells the digest: contents do not share
ids.
-/

namespace PatchReview

open Action Graph List String

lemma Text.forall_mem_hexDigits {P : Char → Prop} (h : ∀ k < 16, P (hexDigit k)) (width n) :
    ∀ c ∈ hexDigits width n, P c := by
  induction width generalizing n with
  | zero => exact nofun
  | succ width ih => exact forall_mem_append.2 ⟨ih _, forall_mem_singleton.2 (h _ (Nat.mod_lt n (by decide)))⟩

lemma Digest.forall_mem_hex {P : Char → Prop} (h : ∀ k < 16, P (Text.hexDigit k)) (b) : ∀ c ∈ (hex b).toList, P c := by
  intro c hc
  rw [hex, toList_ofList] at hc
  obtain ⟨x, -, hx⟩ := mem_flatMap.1 hc
  exact Text.forall_mem_hexDigits h _ _ c hx

namespace Sha256

lemma colon_notMem_hexDigest (b) : ':' ∉ (hexDigest b).toList :=
  fun h => Digest.forall_mem_hex (P := (· ≠ ':')) (by decide) _ _ h rfl

lemma hexDigest_ne_empty (b) : hexDigest b ≠ "" := by
  intro h
  simp [hexDigest, Digest.hex, digest, Words.bytes, Digest.bigEndian, Text.hexDigits] at h

end Sha256

namespace Graph

lemma toList_blockId (leading t) : ∃ range, (blockId leading t).toList = leading.toList ++ ':' :: range := by
  refine ⟨(toString t.start ++ "-" ++ toString t.stop).toList, ?_⟩
  change (leading ++ ":" ++ toString t.start ++ "-" ++ toString t.stop).toList = _
  simp

/-- Two prefixes without a colon that give the same id are the same. -/
lemma blockId_inj_left {a b t u} (ha : ':' ∉ a.toList) (hb : ':' ∉ b.toList) (h : blockId a t = blockId b u) :
    a = b := by
  obtain ⟨r, hr⟩ := toList_blockId a t
  obtain ⟨s, hs⟩ := toList_blockId b u
  have before : ∀ l r, ':' ∉ l → (l ++ ':' :: r).takeWhile (· != ':') = l := by
    intro l r hl
    rw [takeWhile_append_of_pos]
    · simp
    · intro c hc
      simpa using fun e : c = ':' => hl (e ▸ hc)
  rw [← toList_inj, ← before _ r ha, ← before _ s hb, ← hr, ← hs, h]

end Graph

namespace ParsedFile

/-- A file's content goes by its digest. -/
def Digested (f : ParsedFile) : Prop := f.blob = Sha256.hexDigest f.source

variable {f g : ParsedFile}

lemma Digested.colon_notMem (h : f.Digested) : ':' ∉ f.blob.toList := by
  rw [h]
  exact Sha256.colon_notMem_hexDigest _

lemma Digested.blob_ne_empty (h : f.Digested) : f.blob ≠ "" := by
  rw [h]
  exact Sha256.hexDigest_ne_empty _

/-- Contents that share an id are one. -/
lemma Digested.blob_eq (hf : f.Digested) (hg : g.Digested) {id} (h₁ : id ∈ treeIds f)
    (h₂ : id ∈ treeIds g) : f.blob = g.blob := by
  obtain ⟨t, -, rfl⟩ := mem_map.1 h₁
  obtain ⟨u, -, h⟩ := mem_map.1 h₂
  exact (blockId_inj_left hg.colon_notMem hf.colon_notMem h).symm

end ParsedFile

end PatchReview

namespace PatchReview.Index

open Graph (treeIds)
open Action List

variable {policy : Graph.Policy} {f : ParsedFile}

lemma nodeIds_artifactsOf (hf : f.Digested) :
    (artifactsOf policy f).nodes.map (·.id) = (Graph.build policy false [f]).nodes.map (·.1) := by
  obtain ⟨hk, -, -⟩ := Graph.nodes_singleton policy false hf.blob_ne_empty
  change ((Graph.build policy false [f]).nodes.map (·.2)).map (·.id) = _
  rw [map_map]
  exact map_congr_left fun p hp => (hk.key p hp).symm

lemma nodup_nodeIds_artifactsOf (hf : f.Digested) : ((artifactsOf policy f).nodes.map (·.id)).Nodup := by
  rw [nodeIds_artifactsOf hf]
  exact (Graph.nodes_singleton policy false hf.blob_ne_empty).1.nodup

lemma mem_nodeIds_artifactsOf (hf : f.Digested) {id} :
    id ∈ (artifactsOf policy f).nodes.map (·.id) ↔ id ∈ treeIds f := by
  rw [nodeIds_artifactsOf hf]
  exact (Graph.nodes_singleton policy false hf.blob_ne_empty).2.2 id

lemma nodup_symbolIds_artifactsOf : ((artifactsOf policy f).symbols.map (·.id)).Nodup := by
  obtain ⟨hnd, hs⟩ := Graph.symbols_singleton policy false f
  have hids : ((Graph.build policy false [f]).symbols.map (·.2)).map (·.id) =
      (Graph.build policy false [f]).symbols.map (·.1) := by
    rw [map_map]
    exact map_congr_left fun p hp => (hs p hp).1.symm
  exact (congrArg List.Nodup hids).mpr hnd

lemma id_mem_treeIds_of_mem_symbols {s} (hs : s ∈ (artifactsOf policy f).symbols) : s.id ∈ treeIds f := by
  obtain ⟨-, h⟩ := Graph.symbols_singleton policy false f
  obtain ⟨p, hp, rfl⟩ := mem_map.1 hs
  rw [← (h p hp).1]
  exact (h p hp).2.2

/-- A call of a file is resolved to a symbol of the file under its name, or is open and the file has no symbol of its
name. -/
lemma calls_artifactsOf {c} (hc : c ∈ (artifactsOf policy f).calls) : c.src ∈ treeIds f ∧
      (c.resolved = 0 ∧ c.symbol = none ∧ (∀ s ∈ (artifactsOf policy f).symbols, s.name ≠ c.name) ∨
        c.resolved = 1 ∧ ∃ s ∈ (artifactsOf policy f).symbols, c.symbol = some s.id ∧ s.name = c.name) := by
  obtain ⟨hnd, hs⟩ := Graph.symbols_singleton policy false f
  obtain ⟨e, he, rfl⟩ := mem_map.1 hc
  obtain ⟨hsrc, ⟨hu, hno⟩ | ⟨hu, hdst⟩⟩ := Graph.calls_singleton he
  · rw [if_pos hu]
    refine ⟨hsrc, .inl ⟨rfl, rfl, ?_⟩⟩
    intro s hs
    obtain ⟨p, hp, rfl⟩ := mem_map.1 hs
    exact hno p hp
  · rw [if_neg (by simp [hu])]
    refine ⟨hsrc, .inr ⟨rfl, ?_⟩⟩
    obtain ⟨p, hp, hid⟩ := mem_map.1 hdst
    refine ⟨p.2, mem_map_of_mem hp, ?_, ?_⟩
    · rw [← (hs p hp).1, hid]
    · change p.2.name = ((Fields.get? (Graph.build policy false [f]).symbols e.dst).map (·.name)).getD ""
      rw [← hid, Fields.get?_of_mem hnd hp]
      rfl

/-! ## Rows -/

/-- The row of a call. -/
def CallSite.row (blob : String) (fileId : Int) (c : CallSite) : CallRow :=
  ⟨blob, fileId, c.src, c.name, c.symbol, c.resolved, attrsText c.attrs⟩

/-- Rows are those of what a content holds, under the content and its file. -/
structure ContentRows.Of (a : Artifacts) (fileId : Int) (blob : String) (rows : ContentRows) : Prop where
  nodeIds : rows.nodes.map (·.id) = a.nodes.map (·.id)
  node : ∀ r ∈ rows.nodes, r.blob = blob ∧ r.fileId = fileId
  symbols : rows.symbols = a.symbols.map (symbolRow blob fileId)
  calls : rows.calls = a.calls.map (CallSite.row blob fileId)

variable {a : Artifacts} {fileId : Int} {blob lang : String} {rows : ContentRows}

lemma nodeRow_eq_ok {n : Graph.Node} {r : NodeRow} (h : nodeRow blob fileId lang n = .ok r) :
    r.id = n.id ∧ r.blob = blob ∧ r.fileId = fileId := by
  obtain ⟨x, -, h⟩ := except_bind_eq_ok_iff.1 h
  obtain ⟨y, -, h⟩ := except_bind_eq_ok_iff.1 h
  cases h
  exact ⟨rfl, rfl, rfl⟩

lemma mapM_nodeRow_eq_ok {ns : List Graph.Node} {rs} (h : ns.mapM (nodeRow blob fileId lang) = .ok rs) :
    rs.map (·.id) = ns.map (·.id) ∧ ∀ r ∈ rs, r.blob = blob ∧ r.fileId = fileId := by
  induction ns generalizing rs with
  | nil =>
    cases h
    simp
  | cons n ns ih =>
    rw [mapM_cons] at h
    obtain ⟨r, hr, h⟩ := except_bind_eq_ok_iff.1 h
    obtain ⟨rest, hrest, h⟩ := except_bind_eq_ok_iff.1 h
    cases h
    obtain ⟨hid, hb⟩ := nodeRow_eq_ok hr
    obtain ⟨hids, hbs⟩ := ih hrest
    constructor
    · rw [map_cons, map_cons, hid, hids]
    · exact forall_mem_cons.2 ⟨hb, hbs⟩

lemma rows_eq_ok (h : a.rows fileId blob lang = .ok rows) : rows.Of a fileId blob := by
  obtain ⟨ns, hns, h⟩ := except_bind_eq_ok_iff.1 h
  cases h
  obtain ⟨hids, hbs⟩ := mapM_nodeRow_eq_ok hns
  exact ⟨hids, hbs, rfl, rfl⟩

section

variable (hrows : rows.Of (artifactsOf policy f) fileId f.blob) (hf : f.Digested)

include hrows hf

lemma ContentRows.Of.mem_nodeIds {id} : id ∈ rows.nodes.map (·.id) ↔ id ∈ treeIds f := by
  rw [hrows.nodeIds]
  exact mem_nodeIds_artifactsOf hf

/-- There is a node row at every id of the tree. -/
lemma ContentRows.Of.exists_node {id} (hid : id ∈ treeIds f) :
    ∃ r ∈ rows.nodes, r.id = id ∧ r.blob = f.blob ∧ r.fileId = fileId := by
  obtain ⟨r, hr, rfl⟩ := mem_map.1 ((hrows.mem_nodeIds hf).2 hid)
  exact ⟨r, hr, rfl, hrows.node r hr⟩

lemma ContentRows.Of.exists_symbol_node {s} (hs : s ∈ rows.symbols) :
    ∃ r ∈ rows.nodes, r.id = s.id ∧ r.blob = s.blob ∧ r.fileId = s.fileId := by
  rw [hrows.symbols] at hs
  obtain ⟨q, hq, rfl⟩ := mem_map.1 hs
  exact hrows.exists_node hf (id_mem_treeIds_of_mem_symbols hq)

lemma ContentRows.Of.exists_call_node {c} (hc : c ∈ rows.calls) :
    ∃ r ∈ rows.nodes, r.id = c.src ∧ r.blob = c.blob ∧ r.fileId = c.fileId := by
  rw [hrows.calls] at hc
  obtain ⟨q, hq, rfl⟩ := mem_map.1 hc
  exact hrows.exists_node hf (calls_artifactsOf hq).1

end

lemma ContentRows.Of.symbol_blob (hrows : rows.Of a fileId blob) {s} (hs : s ∈ rows.symbols) :
    s.blob = blob ∧ s.fileId = fileId := by
  rw [hrows.symbols] at hs
  obtain ⟨q, -, rfl⟩ := mem_map.1 hs
  exact ⟨rfl, rfl⟩

lemma ContentRows.Of.call_blob (hrows : rows.Of a fileId blob) {c} (hc : c ∈ rows.calls) :
    c.blob = blob ∧ c.fileId = fileId := by
  rw [hrows.calls] at hc
  obtain ⟨q, -, rfl⟩ := mem_map.1 hc
  exact ⟨rfl, rfl⟩

/-- A call row of a file is open and the file has no symbol row of its name, or it leads to one of its name. -/
lemma ContentRows.Of.call_cases (hrows : rows.Of (artifactsOf policy f) fileId f.blob) {c} (hc : c ∈ rows.calls) :
    c.resolved = 0 ∧ c.symbol = none ∧ (∀ s ∈ rows.symbols, s.name ≠ c.name) ∨
      c.resolved = 1 ∧ ∃ s ∈ rows.symbols, c.symbol = some s.id ∧ s.name = c.name := by
  rw [hrows.calls] at hc
  rw [hrows.symbols]
  obtain ⟨q, hq, rfl⟩ := mem_map.1 hc
  rcases (calls_artifactsOf hq).2 with ⟨h₀, h₁, h₂⟩ | ⟨h₀, s, hs, h₁, h₂⟩
  · refine .inl ⟨h₀, h₁, ?_⟩
    intro s hs
    obtain ⟨t, ht, rfl⟩ := mem_map.1 hs
    exact h₂ t ht
  · exact .inr ⟨h₀, symbolRow f.blob fileId s, mem_map_of_mem hs, h₁, h₂⟩

end PatchReview.Index
