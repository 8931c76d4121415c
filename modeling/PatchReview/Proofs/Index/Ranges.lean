import PatchReview.Proofs.Graph.Draft
import PatchReview.Proofs.Index.Preparing

/-!
# From ids back to syntax

The id of a node is made of its byte range, which can be read back from it. In a tree whose ranges are nested, a node is
found again by its range, though the search leaves out all subtrees that cannot hold it.
-/

namespace PatchReview.Syntax.Tree

open List

/-- The range of every node lies within the range of its parent. -/
def Nested (root : Tree) : Prop := ∀ t ∈ root.preorder, ∀ c ∈ t.children, t.start ≤ c.start ∧ c.stop ≤ t.stop

lemma Nested.child {t c : Tree} (h : t.Nested) (hc : c ∈ t.children) : c.Nested :=
  fun u hu => h u (mem_preorder_trans t (mem_preorder_of_child t.mem_preorder_self hc) hu)

mutual

lemma Nested.within : ∀ {t : Tree}, t.Nested → ∀ n ∈ t.preorder, t.start ≤ n.start ∧ n.stop ≤ t.stop
  | .node k s e cs, h, n, hn => by
    rcases mem_cons.1 hn with rfl | hn
    · exact ⟨Nat.le_refl _, Nat.le_refl _⟩
    · exact within_preorders cs (fun c hc => ⟨h _ mem_cons_self c hc, h.child hc⟩) n hn

lemma within_preorders {start stop} : ∀ ts : List Tree,
    (∀ t ∈ ts, (start ≤ t.start ∧ t.stop ≤ stop) ∧ t.Nested) → ∀ n ∈ preorders ts, start ≤ n.start ∧ n.stop ≤ stop
  | [], _, _, hn => by cases hn
  | t :: ts, h, n, hn => by
    rcases mem_append.1 hn with hn | hn
    · obtain ⟨⟨hstart, hstop⟩, ht⟩ := h t mem_cons_self
      obtain ⟨hstart', hstop'⟩ := ht.within n hn
      exact ⟨Nat.le_trans hstart hstart', Nat.le_trans hstop' hstop⟩
    · exact within_preorders ts (fun u hu => h u (mem_cons_of_mem _ hu)) n hn

end

/-- In nested trees nothing is left out that has the range. -/
lemma firstAt?_eq (start stop : Int) (stack) (h : ∀ t ∈ stack, t.Nested) : firstAt? start stop stack =
    (preorders stack).find? fun n => n.start = start ∧ n.stop = stop := by
  induction stack using firstAt?.induct start stop with
  | case1 => simp [firstAt?, preorders]
  | case2 t stack hat => simp [firstAt?, preorders, preorder_eq, hat]
  | case3 t stack hat hin ih =>
    rw [firstAt?, if_neg hat, if_pos hin, ih, preorders_append, preorders, preorder_eq, cons_append,
      find?_cons_of_neg (by simpa using hat)]
    intro u hu
    rcases mem_append.1 hu with hu | hu
    · exact (h t mem_cons_self).child hu
    · exact h u (mem_cons_of_mem _ hu)
  | case4 t stack hat hout ih =>
    have hnone : t.preorder.find? (fun n => n.start = start ∧ n.stop = stop) = none := by
      refine find?_eq_none.2 fun n hn hrange => hout ?_
      obtain ⟨hstart, hstop⟩ := (h t mem_cons_self).within n hn
      obtain ⟨rfl, rfl⟩ : (n.start : Int) = start ∧ (n.stop : Int) = stop := by simpa using hrange
      exact ⟨Int.ofNat_le.2 hstart, Int.ofNat_le.2 hstop⟩
    rw [firstAt?, if_neg hat, if_neg hout, ih fun u hu => h u (mem_cons_of_mem _ hu), preorders, find?_append, hnone,
      Option.none_or]

end PatchReview.Syntax.Tree

namespace PatchReview.Index

open Graph List Number Syntax Text

lemma breakOn?_append {c a b} (h : c ∉ a) : breakOn? [c] (a ++ c :: b) = some (a, b) := by
  induction a with
  | nil => simp [breakOn?, dropLead?]
  | cons d a ih =>
    simp only [mem_cons, not_or] at h
    rw [cons_append, breakOn?, dropLead?, if_neg h.1, ih h.2]
    rfl

lemma cutOnce?_of_toList {sep s : String} {c a b} (hsep : sep.toList = [c]) (hs : s.toList = a ++ c :: b) (h : c ∉ a) :
    cutOnce? sep s = some (.ofList a, .ofList b) := by
  rw [cutOnce?, hsep, hs, breakOn?_append h]
  rfl

/-- The range of a node is read back from its id, if the prefix has no colon. -/
lemma rangeOfId_blockId {leading} {t : Tree} (hlead : ':' ∉ leading.toList) (hstart : t.start < 10 ^ digitLimit)
    (hstop : t.stop < 10 ^ digitLimit) : rangeOfId (blockId leading t) = ((t.start : Int), (t.stop : Int)) := by
  have hdash : '-' ∉ (toString (t.start : Int)).toList := fun h =>
    absurd (Nat.isDigit_of_mem_toDigits (by decide) (by decide) (Nat.toList_repr ▸ h)) (by decide)
  have hlist : (blockId leading t).toList =
      leading.toList ++ ':' :: ((toString (t.start : Int)).toList ++ '-' :: (toString (t.stop : Int)).toList) := by
    simp [blockId, toString, Int.repr]
  rw [rangeOfId, cutOnce?_of_toList rfl hlist hlead]
  dsimp only
  rw [cutOnce?_of_toList rfl String.toList_ofList hdash]
  dsimp only
  rw [String.ofList_toList, String.ofList_toList, readInt?_toString hstart, readInt?_toString hstop]
  rfl

/-- Ids lead back to their syntax. The id of a node under a hexadecimal digest tells the range of the node, as far as
offsets can be written, which are numbers of up to 4300 digits. In a nested tree the search by a range finds the first
node in the order of the tree that has it, and nothing only if no node has it. -/
theorem ids_lead_back (blob : String) {root : Tree} (hblob : blob.toList.all isHex = true) (hnested : root.Nested) :
    (∀ t ∈ root.preorder, t.start < 10 ^ digitLimit → t.stop < 10 ^ digitLimit →
        rangeOfId (blockId blob t) = ((t.start : Int), (t.stop : Int))) ∧
      ∀ start stop : Int, (root.atRange? start stop =
          root.preorder.find? fun n => n.start = start ∧ n.stop = stop) ∧
        (root.atRange? start stop = none ↔ ¬ ∃ t ∈ root.preorder, t.start = start ∧ t.stop = stop) := by
  have hcolon : ':' ∉ blob.toList := fun h => absurd (all_eq_true.1 hblob _ h) (by decide)
  refine ⟨fun t _ hstart hstop => rangeOfId_blockId hcolon hstart hstop, fun start stop => ?_⟩
  have hfirst : root.atRange? start stop = root.preorder.find? fun n => n.start = start ∧ n.stop = stop := by
    rw [Tree.atRange?, Tree.firstAt?_eq start stop [root] (by simpa using hnested), Tree.preorders, Tree.preorders,
      append_nil]
  refine ⟨hfirst, ?_⟩
  rw [hfirst, find?_eq_none]
  simp

/-- A statement that is a name and has its range, with a node that takes up nothing. -/
def nameAlone : Tree := .node "expression_statement" 0 1 [.node "identifier" 0 1 [], .node ";" 1 1 []]

/-- The id of the name leads to the range that it shares with the statement, and the range to the statement. -/
theorem statement_found_by_range : nameAlone.Nested ∧ rangeOfId (blockId "0a" (.node "identifier" 0 1 [])) = (0, 1) ∧
    nameAlone.atRange? 0 1 = some nameAlone ∧ nameAlone.atRange? 1 1 = some (.node ";" 1 1 []) ∧
    nameAlone.atRange? 0 0 = none := by
  have hnested : nameAlone.Nested := by
    unfold Tree.Nested
    decide
  obtain ⟨hid, hsearch⟩ := ids_lead_back "0a" (by decide) hnested
  have hnone : ¬ ∃ t ∈ nameAlone.preorder, (t.start : Int) = 0 ∧ (t.stop : Int) = 0 := by decide
  have hone : 1 < 10 ^ digitLimit := Nat.one_lt_pow (by decide) (by decide)
  have hname := hid _ (mem_cons_of_mem _ mem_cons_self) (Nat.lt_of_succ_lt hone) hone
  exact ⟨hnested, hname, (hsearch 0 1).1, (hsearch 1 1).1, (hsearch 0 0).2.2 hnone⟩

end PatchReview.Index
