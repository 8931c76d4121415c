import PatchReview.Proofs.Expert.Pairing

/-!
# Histories that are cut

A history is cut in four steps: its last messages are taken, what tools gave goes from their front, what the model and
the tools said is shortened, and messages go from the front on until the rest is short enough. Whatever the limits are,
what is left is a last part of the history with shortened contents, before which one earlier message of a person may
stand, and what a tool gave stands behind the same message as in the history.
-/

namespace PatchReview.Expert

open Chat List Message Nat

variable {l : Limits} {m n : Message} {ms cut front last before after : List Message}

/-! ## Contents -/

/-- A text within a number of characters, or cut behind that many. -/
inductive Cut (limit : Nat) (s : String) : String → Prop
  | whole : s.length ≤ limit → Cut limit s s
  | short : limit < s.length → Cut limit s (takeChars limit s ++ cutMark)

lemma Cut.length_le {limit s t} (h : Cut limit s t) : t.length ≤ limit + cutMark.length := by
  cases h with
  | whole hle => exact le_add_right_of_le hle
  | short =>
    rw [String.length_append]
    refine Nat.add_le_add_right ?_ _
    rw [takeChars, String.length_ofList]
    exact length_take_le ..

lemma cut_truncated {limit} (hpos : 0 < limit) (s) : Cut limit s (truncated limit s) := by
  unfold truncated
  rw [if_neg (by omega)]
  split
  · exact .whole (by omega)
  · exact .short (by omega)

/-- What a tool or the model said as a text within its limit; all else of a message, and every other one, as it is. -/
structure Shortened (l : Limits) (m n : Message) : Prop where
  same : ∃ c, n = { m with content := c }
  tool : m.isTool → ∃ t, n.content = .text t ∧ Cut l.tool (contentText m.content) t
  model : m.isModel → ∃ t, n.content = .text t ∧ Cut l.model (contentText m.content) t
  other : ¬ m.isTool → ¬ m.isModel → n = m

lemma shortened_clipped (htool : 0 < l.tool) (hmodel : 0 < l.model) (m) : Shortened l m (clipped l m) where
  same := clipped_eq l m
  tool h := by
    rw [clipped, if_pos h]
    exact ⟨_, rfl, cut_truncated htool _⟩
  model h := by
    have hnot : ¬ m.isTool := by simp_all [isTool, isModel]
    rw [clipped, if_neg hnot, if_pos h]
    exact ⟨_, rfl, cut_truncated hmodel _⟩
  other h h' := by rw [clipped, if_neg h, if_neg h']

lemma isTool_clipped (l m) : (clipped l m).isTool = m.isTool := by
  obtain ⟨c, hc⟩ := clipped_eq l m
  rw [hc]
  rfl

lemma isModel_clipped (l) (m) : (clipped l m).isModel = m.isModel := by
  obtain ⟨c, hc⟩ := clipped_eq l m
  rw [hc]
  rfl

lemma head?_map_clipped (l) (ms : List Message) :
    (∀ m ∈ (ms.map (clipped l)).head?, ¬ m.isTool) ↔ ∀ m ∈ ms.head?, ¬ m.isTool := by
  cases ms with
  | nil => rfl
  | cons m rest => simp [isTool_clipped]

/-! ## Which messages are left -/

/-- A last part of a history, without what is cut before it, and a person's message of that in front of it. -/
structure Parts (ms cut front last : List Message) : Prop where
  append : ms = cut ++ last
  person : front = [] ∨ ∃ m ∈ cut, m.isHuman ∧ front = [m]
  head : ∀ m ∈ last.head?, ¬ m.isTool

variable (limit : Nat) (dropping : Bool)

lemma exists_parts_kept (ms) : ∃ cut front last, Parts ms cut front last ∧ kept limit ms = front ++ last := by
  unfold kept
  rcases hsplit : lastMessages limit 0 false ms.reverse with ⟨taken, left⟩
  have happend : left.reverse ++ taken.reverse = ms := by
    simpa [hsplit] using congrArg reverse (lastMessages_append limit 0 false ms.reverse)
  have hparts : ms = (left.reverse ++ taken.reverse.takeWhile (·.isTool)) ++ taken.reverse.dropWhile (·.isTool) := by
    rw [append_assoc, takeWhile_append_dropWhile, happend]
  have hhead := head?_dropWhile (·.isTool) taken.reverse
  dsimp only
  split
  · exact ⟨_, [], _, ⟨hparts, .inl rfl, hhead⟩, rfl⟩
  · split
    · rename_i person hfind
      have hmem : person ∈ left.reverse := mem_reverse.2 (mem_of_find?_eq_some hfind)
      exact ⟨_, [person], _, ⟨hparts, .inr ⟨person, mem_append_left _ hmem, find?_some hfind, rfl⟩, hhead⟩, rfl⟩
    · exact ⟨_, [], _, ⟨hparts, .inl rfl, hhead⟩, rfl⟩

lemma Parts.head_front (h : Parts ms cut front last) : ∀ m ∈ (front ++ last).head?, ¬ m.isTool := by
  obtain rfl | ⟨person, -, hhuman, rfl⟩ := h.person
  · exact h.head
  · simp_all [isTool, isHuman]

/-- Leaving out messages from the front leaves such a part again. -/
lemma Parts.suffix (h : Parts ms cut front last) {rest} (hs : rest <:+ front ++ last)
    (hhead : ∀ m ∈ rest.head?, ¬ m.isTool) :
    ∃ cut' front' last', Parts ms cut' front' last' ∧ rest = front' ++ last' := by
  have hlast (hs : rest <:+ last) : ∃ cut' front' last', Parts ms cut' front' last' ∧ rest = front' ++ last' := by
    obtain ⟨dropped, rfl⟩ := hs
    exact ⟨cut ++ dropped, [], rest, ⟨by rw [append_assoc, h.append], .inl rfl, hhead⟩, rfl⟩
  obtain rfl | ⟨person, -, -, rfl⟩ := h.person
  · exact hlast hs
  · obtain rfl | hs := suffix_cons_iff.1 hs
    · exact ⟨cut, _, last, h, rfl⟩
    · exact hlast hs

lemma exists_parts_shrink (l) (ms) :
    ∃ cut front last, Parts ms cut front last ∧ shrink l ms = (front ++ last).map (clipped l) := by
  obtain ⟨cut, front, last, hparts, hkept⟩ := exists_parts_kept l.messages ms
  have hhead := head?_fitting l.total false ((front ++ last).map (clipped l))
    fun _ => (head?_map_clipped l _).2 hparts.head_front
  obtain ⟨dropped, hdropped⟩ := fitting_suffix l.total false ((front ++ last).map (clipped l))
  obtain ⟨first, rest, hrest, -, hmap⟩ := map_eq_append_iff.1 hdropped.symm
  rw [← hmap, head?_map_clipped] at hhead
  obtain ⟨cut', front', last', hparts', rfl⟩ := hparts.suffix ⟨first, hrest.symm⟩ hhead
  exact ⟨cut', front', last', hparts', by rw [shrink, hkept, ← hmap]⟩

/-! ## What a tool's message stands behind -/

/-- The last message that is no tool's. -/
def leader? (ms : List Message) : Option Message := ms.reverse.find? (!·.isTool)

lemma leader?_append (ms ns) : leader? (ms ++ ns) = (leader? ns).or (leader? ms) := by
  rw [leader?, reverse_append, find?_append]
  rfl

lemma leader?_map_clipped (l ms) : leader? (ms.map (clipped l)) = (leader? ms).map (clipped l) := by
  have hcomp : (fun m : Message => !m.isTool) ∘ clipped l = fun m => !m.isTool := by
    funext m
    exact congrArg (!·) (isTool_clipped l m)
  rw [leader?, ← map_reverse, find?_map, hcomp]
  rfl

/-- What a tool gave stands behind a message of the part itself. -/
lemma Parts.exists_leader (h : Parts ms cut front (before ++ m :: after)) (htool : m.isTool) :
    ∃ n, leader? before = some n := by
  rcases before with _ | ⟨first, rest⟩
  · exact absurd htool (h.head m rfl)
  · rw [← Option.isSome_iff_exists, leader?, find?_isSome]
    exact ⟨first, by simp, by simpa using h.head first rfl⟩

/-! ## Lengths -/

lemma totalChars_fitting (ms) :
    (fitting limit dropping ms).length ≤ 1 ∨ totalChars (fitting limit dropping ms) ≤ limit := by
  fun_induction fitting limit dropping ms with
  | case1 => simp
  | case2 dropping m rest hdrop ih => exact ih
  | case3 dropping m rest hdrop hshort => simpa using hshort
  | case4 dropping m rest hdrop hlong ih => exact ih

lemma lastMessages_of_length_le (limit count afterTool ms) (h : count + ms.length ≤ limit) :
    lastMessages limit count afterTool ms = (ms, []) := by
  induction ms generalizing count afterTool with
  | nil => rfl
  | cons m rest ih =>
    simp only [length_cons] at h
    rw [lastMessages, if_pos (by simp; omega), ih _ _ (by omega)]

/-- A history within the limits is whole. -/
lemma shrink_eq_map (hlength : ms.length ≤ l.messages) (hhead : ∀ m ∈ ms.head?, ¬ m.isTool)
    (htotal : totalChars (ms.map (clipped l)) ≤ l.total) : shrink l ms = ms.map (clipped l) := by
  have hdrop : ms.dropWhile (·.isTool) = ms := by
    cases ms with
    | nil => rfl
    | cons m rest => exact dropWhile_cons_of_neg (hhead m rfl)
  have hkept : kept l.messages ms = ms := by
    rw [kept, lastMessages_of_length_le _ _ _ _ (by simpa using hlength)]
    simp [hdrop]
  rw [shrink, hkept]
  cases ms with
  | nil => rfl
  | cons m rest =>
    rw [map_cons] at htotal ⊢
    rw [fitting, if_neg (by simp), if_pos (by simp [htotal])]

/-! ## A cut history -/

/-- What a cut leaves of a history. -/
structure Trimmed (l : Limits) (shorten : Message → Message) (ms out : List Message) : Prop where
  shortened : ∀ m, Shortened l m (shorten m)
  /-- A last part, and at most one earlier message in front of it, which is a person's. What a tool gave stands behind
  the same message as before. -/
  parts : ∃ cut front last, ms = cut ++ last ∧ out = (front ++ last).map shorten ∧
    (front = [] ∨ ∃ m ∈ cut, m.isHuman ∧ front = [m]) ∧
    ∀ before m after, last = before ++ m :: after → m.isTool →
      ∃ n, leader? (cut ++ before) = some n ∧ leader? ((front ++ before).map shorten) = some (shorten n)
  head : ∀ m ∈ out.head?, ¬ m.isTool
  tool : ∀ m ∈ out, m.isTool → ∃ t, m.content = .text t ∧ t.length ≤ l.tool + cutMark.length
  model : ∀ m ∈ out, m.isModel → ∃ t, m.content = .text t ∧ t.length ≤ l.model + cutMark.length
  total : out.length ≤ 1 ∨ totalChars out ≤ l.total
  /-- Nothing is left out of a history within the limits. -/
  whole : ms.length ≤ l.messages → (∀ m ∈ ms.head?, ¬ m.isTool) → totalChars (ms.map shorten) ≤ l.total →
    out = ms.map shorten

lemma trimmed_shrink (htool : 0 < l.tool) (hmodel : 0 < l.model) (ms) : Trimmed l (clipped l) ms (shrink l ms) := by
  have hshort := shortened_clipped htool hmodel
  obtain ⟨cut, front, last, hparts, hshrink⟩ := exists_parts_shrink l ms
  refine ⟨hshort, ⟨cut, front, last, hparts.append, hshrink, hparts.person, ?_⟩, ?_, ?_, ?_,
    totalChars_fitting .., shrink_eq_map⟩
  · rintro before m after rfl hm
    obtain ⟨n, hn⟩ := hparts.exists_leader hm
    exact ⟨n, by rw [leader?_append, hn]; rfl, by rw [leader?_map_clipped, leader?_append, hn]; rfl⟩
  · rw [hshrink, head?_map_clipped]
    exact hparts.head_front
  · rw [hshrink, forall_mem_map]
    intro m _ hm
    obtain ⟨t, ht, hcut⟩ := (hshort m).tool (isTool_clipped l m ▸ hm)
    exact ⟨t, ht, hcut.length_le⟩
  · rw [hshrink, forall_mem_map]
    intro m _ hm
    obtain ⟨t, ht, hcut⟩ := (hshort m).model (isModel_clipped l m ▸ hm)
    exact ⟨t, ht, hcut.length_le⟩

/-- The number that a variable of the environment gives, and at least another one. -/
def limitIn (w : Workspace) (name : String) (default : Int) (least : Nat) : Nat :=
  max least ((Number.readInt? (strip ((Fields.get? w.environment name).getD ""))).getD default).toNat

/-- Whatever limits the environment sets, a history is cut to a last part of it. -/
theorem history_stays_well_formed (w : Workspace) (ms : List Message) :
    ∃ l, Limits.ofEnvironment w = (.ok l, w) ∧ Trimmed l (clipped l) ms (shrink l ms) ∧
      l = { messages := limitIn w "EXPERT_MAX_HISTORY_MESSAGES" 16 1
            total := limitIn w "EXPERT_MAX_TOTAL_CHARS" 80000 10000
            tool := limitIn w "EXPERT_MAX_TOOL_CHARS" 6000 500
            model := limitIn w "EXPERT_MAX_AI_CHARS" 12000 500 } := by
  refine ⟨_, rfl, trimmed_shrink ?_ ?_ ms, rfl⟩
  · exact lt_of_lt_of_le (by decide) (le_max_left 500 _)
  · exact lt_of_lt_of_le (by decide) (le_max_left 500 _)

/-! ## The last round -/

/-- The last message that is no tool's, with what tools gave behind it. -/
def lastRound : List Message → List Message
  | [] => []
  | m :: rest => if rest.any (!·.isTool) then lastRound rest else m :: rest

/-- Messages that are not left out to make a history short enough. -/
def Fits (ms : List Message) : Prop := ms.length = 1 ∨ totalChars ms ≤ limit

lemma any_not_isTool : ms.any (!·.isTool) = true ↔ ∃ m ∈ ms, ¬ m.isTool := by simp

lemma lastRound_append (ns) (h : ∃ m ∈ ms, ¬ m.isTool) : lastRound (ns ++ ms) = lastRound ms := by
  induction ns with
  | nil => rfl
  | cons n ns ih =>
    obtain ⟨m, hm, hnot⟩ := h
    rw [cons_append, lastRound, if_pos (any_not_isTool.2 ⟨m, mem_append_right _ hm, hnot⟩), ih]

lemma lastRound_ne_nil (m rest) : lastRound (m :: rest) ≠ [] := by
  induction rest generalizing m with
  | nil => exact cons_ne_nil m []
  | cons n rest ih =>
    rw [lastRound]
    split
    · exact ih n
    · exact cons_ne_nil m _

lemma lastRound_suffix (ms) : lastRound ms <:+ ms := by
  fun_induction lastRound ms with
  | case1 => exact suffix_refl _
  | case2 m rest _ ih => exact ih.trans (suffix_cons ..)
  | case3 => exact suffix_refl _

lemma lastRound_map_clipped (l ms) : lastRound (ms.map (clipped l)) = (lastRound ms).map (clipped l) := by
  have hany (ms : List Message) : (ms.map (clipped l)).any (!·.isTool) = ms.any (!·.isTool) := by
    simp [isTool_clipped, Function.comp_def]
  fun_induction lastRound ms with
  | case1 => rfl
  | case2 m rest h ih => rw [map_cons, lastRound, hany, if_pos h, ih]
  | case3 m rest h => rw [map_cons, lastRound, hany, if_neg h]

lemma totalChars_le_of_suffix (h : ms <:+ cut) : totalChars ms ≤ totalChars cut := by
  obtain ⟨front, rfl⟩ := h
  induction front with
  | nil => exact le_rfl
  | cons m front ih => exact le_add_left_of_le ih

/-- What tools gave alone is left out. -/
lemma fitting_of_isTool (h : ∀ m ∈ ms, m.isTool) : fitting limit true ms = [] := by
  induction ms with
  | nil => rfl
  | cons m ms ih => rw [fitting, if_pos (by simpa using h m mem_cons_self), ih fun n hn => h n (mem_cons_of_mem _ hn)]

/-- Leaving out messages ends before the last round if it fits, and else leaves nothing. -/
lemma fitting_lastRound (h : ∃ m ∈ ms, ¬ m.isTool) (hhead : dropping = false → ∀ m ∈ ms.head?, ¬ m.isTool) :
    (Fits limit (lastRound ms) → lastRound ms <:+ fitting limit dropping ms) ∧
      (¬ Fits limit (lastRound ms) → fitting limit dropping ms = []) := by
  induction ms generalizing dropping with
  | nil => simp at h
  | cons m rest ih =>
    rw [fitting]
    by_cases hrest : ∃ n ∈ rest, ¬ n.isTool
    · have hround : lastRound (m :: rest) = lastRound rest := lastRound_append [m] hrest
      have hfits (hshort : rest.isEmpty ∨ totalChars (m :: rest) ≤ limit) : Fits limit (lastRound rest) := by
        obtain hnil | hle := hshort
        · simp [isEmpty_iff.1 hnil] at hrest
        · exact .inr ((totalChars_le_of_suffix ((lastRound_suffix rest).trans (suffix_cons m rest))).trans hle)
      rw [hround]
      split
      · exact ih true hrest nofun
      · split
        · rename_i hshort
          exact ⟨fun _ => (lastRound_suffix rest).trans (suffix_cons ..),
            fun hlong => absurd (hfits (by simpa using hshort)) hlong⟩
        · exact ih true hrest nofun
    · have hround : lastRound (m :: rest) = m :: rest := by
        rw [lastRound, if_neg (mt any_not_isTool.1 hrest)]
      have htools : ∀ n ∈ rest, n.isTool := by simpa using hrest
      have hm : ¬ m.isTool := by
        obtain ⟨n, hn, hnot⟩ := h
        obtain rfl | hn := mem_cons.1 hn
        · exact hnot
        · exact absurd (htools n hn) hnot
      rw [hround, if_neg (by simp [hm])]
      split
      · rename_i hshort
        refine ⟨fun _ => suffix_refl _, fun hnot => absurd ?_ hnot⟩
        rw [Fits]
        simpa using hshort
      · rename_i hlong
        rw [Bool.or_eq_true, not_or] at hlong
        have hnot : ¬ Fits limit (m :: rest) := not_or.2 ⟨by simpa using hlong.1, by simpa using hlong.2⟩
        exact ⟨fun hfits => absurd hfits hnot, fun _ => fitting_of_isTool limit htools⟩

/-- Taking the last messages goes on as long as only tools' messages were taken. -/
lemma lastMessages_left (limit count) (afterTool : Bool) (ms) (hmore : count < limit ∨ afterTool)
    (h : ∀ m ∈ (lastMessages limit count afterTool ms).1, m.isTool) :
    (lastMessages limit count afterTool ms).2 = [] := by
  induction ms generalizing count afterTool with
  | nil => rfl
  | cons m rest ih =>
    rw [lastMessages, if_pos (by simpa using hmore)] at h ⊢
    obtain ⟨hm, h⟩ := forall_mem_cons.1 h
    exact ih (count + 1) m.isTool (.inr hm) h

/-- The last round is in the part of a history that is kept. -/
lemma lastRound_kept {limit} (hlimit : 0 < limit) (h : ∃ m ∈ ms, ¬ m.isTool) :
    (∃ m ∈ kept limit ms, ¬ m.isTool) ∧ lastRound (kept limit ms) = lastRound ms := by
  have happend := lastMessages_append limit 0 false ms.reverse
  have hleft := lastMessages_left limit 0 false ms.reverse (.inl hlimit)
  unfold kept
  generalize lastMessages limit 0 false ms.reverse = parts at happend hleft ⊢
  obtain ⟨taken, left⟩ := parts
  dsimp only at happend hleft ⊢
  have hms : ms = (left.reverse ++ taken.reverse.takeWhile (·.isTool)) ++ taken.reverse.dropWhile (·.isTool) := by
    rw [append_assoc, takeWhile_append_dropWhile, ← reverse_append, happend, reverse_reverse]
  have hbody : ∃ m ∈ taken.reverse.dropWhile (·.isTool), ¬ m.isTool := by
    by_contra hnone
    have hnil : taken.reverse.dropWhile (·.isTool) = [] := by
      cases hd : taken.reverse.dropWhile (·.isTool) with
      | nil => rfl
      | cons m rest => exact absurd ⟨m, hd ▸ mem_cons_self, head?_dropWhile _ _ m (by rw [hd]; rfl)⟩ hnone
    have htools : ∀ m ∈ taken, m.isTool := by simpa using dropWhile_eq_nil_iff.1 hnil
    obtain ⟨m, hm, hnot⟩ := h
    rw [hms, hleft htools, hnil] at hm
    simp only [append_nil] at hm
    exact hnot (htools m (mem_reverse.1 ((takeWhile_sublist _).subset hm)))
  have hround : lastRound (taken.reverse.dropWhile (·.isTool)) = lastRound ms := by
    conv_rhs => rw [hms]
    exact (lastRound_append _ hbody).symm
  obtain ⟨m, hm, hnot⟩ := hbody
  split
  · exact ⟨⟨m, hm, hnot⟩, hround⟩
  · split
    · rename_i person _
      exact ⟨⟨m, mem_cons_of_mem _ hm, hnot⟩, (lastRound_append [person] ⟨m, hm, hnot⟩).trans hround⟩
    · exact ⟨⟨m, hm, hnot⟩, hround⟩

/-- The last round is all that has to fit. -/
lemma shrink_lastRound (hlimit : 0 < l.messages) (hhead : ¬ m.isTool) (rest : List Message) :
    (Fits l.total ((lastRound (m :: rest)).map (clipped l)) →
      (lastRound (m :: rest)).map (clipped l) <:+ shrink l (m :: rest)) ∧
    (¬ Fits l.total ((lastRound (m :: rest)).map (clipped l)) → shrink l (m :: rest) = []) := by
  obtain ⟨⟨n, hn, hnot⟩, hround⟩ := lastRound_kept hlimit (show ∃ n ∈ m :: rest, _ from ⟨m, mem_cons_self, hhead⟩)
  obtain ⟨cut, front, last, hparts, hkept⟩ := exists_parts_kept l.messages (m :: rest)
  rw [← hround, ← lastRound_map_clipped]
  exact fitting_lastRound l.total false ⟨clipped l n, mem_map_of_mem hn, by rwa [isTool_clipped]⟩
    fun _ => (head?_map_clipped l _).2 (hkept ▸ hparts.head_front)

/-- Whatever limits the environment sets, a history that starts with no tool's message is cut to nothing just when its
last round is longer than all of it may be; otherwise its last round is left. -/
theorem remembers_iff (w : Workspace) (hhead : ¬ m.isTool) (rest : List Message) :
    ∃ l, Limits.ofEnvironment w = (.ok l, w) ∧
      (shrink l (m :: rest) ≠ [] ↔ Fits l.total ((lastRound (m :: rest)).map (clipped l))) ∧
      (shrink l (m :: rest) ≠ [] → (lastRound (m :: rest)).map (clipped l) <:+ shrink l (m :: rest)) := by
  refine ⟨_, rfl, ?_⟩
  generalize hl : Limits.mk _ _ _ _ = l
  have hlimit : 0 < l.messages := hl ▸ lt_of_lt_of_le (by decide) (le_max_left 1 _)
  obtain ⟨hleft, hnothing⟩ := shrink_lastRound hlimit hhead rest
  have hfits (hne : shrink l (m :: rest) ≠ []) : Fits l.total ((lastRound (m :: rest)).map (clipped l)) :=
    by_contra fun hlong => hne (hnothing hlong)
  have hsome : (lastRound (m :: rest)).map (clipped l) ≠ [] := mt map_eq_nil_iff.mp (lastRound_ne_nil m rest)
  exact ⟨⟨hfits, fun h hnil => hsome (suffix_nil.mp (hnil ▸ hleft h))⟩, fun hne => hleft (hfits hne)⟩

/-- What a tool gave. -/
def resultOf (s : String) : Message := { speaker := .tool, content := .text s }

theorem remembers_iff_one_round : ¬ (human "?").isTool ∧ ∃ l, Limits.ofEnvironment {} = (.ok l, {}) ∧
    [ai "", resultOf "1"].map (clipped l) <:+ shrink l [human "?", ai "", resultOf "1"] := by
  have hhead : ¬ (human "?").isTool := by decide
  obtain ⟨l, hl, hiff, hlast⟩ := remembers_iff {} hhead [ai "", resultOf "1"]
  have hfits : Fits l.total ([ai "", resultOf "1"].map (clipped l)) := by
    cases hl
    exact .inr (by decide +kernel)
  exact ⟨hhead, l, hl, hlast (hiff.mpr hfits)⟩

/-- Fourteen results of six thousand characters in a round are more than the standard limits let stand. -/
lemma shrink_fourteen_results {s} (hlength : s.length = 6000) :
    shrink {} (human "?" :: ai "" :: replicate 14 (resultOf s)) = [] := by
  have hround : lastRound (human "?" :: ai "" :: replicate 14 (resultOf s)) = ai "" :: replicate 14 (resultOf s) := rfl
  have hchars : (clipped {} (resultOf s)).chars = 6000 := by
    change (truncated (6000 : Nat) s).length = 6000
    rw [truncated, if_neg (by decide), if_pos (by omega), hlength]
  refine (shrink_lastRound (by decide) (by decide) _).2 ?_
  rw [hround, Fits, not_or, map_cons, map_replicate, totalChars, map_cons, map_replicate, hchars]
  exact ⟨by simp, by decide +kernel⟩

/-- A question and such a round are forgotten. -/
theorem long_round_forgotten : Limits.ofEnvironment {} = (.ok {}, {}) ∧ shrink {} (human "?" :: ai "" ::
    replicate 14 (resultOf (String.ofList (replicate 6000 'x')))) = [] :=
  ⟨rfl, shrink_fourteen_results (by rw [String.length_ofList, length_replicate])⟩

end PatchReview.Expert
