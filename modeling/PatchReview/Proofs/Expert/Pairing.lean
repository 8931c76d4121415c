import Mathlib.Data.List.Nodup
import PatchReview.Expert.History
import PatchReview.Proofs.Action
import PatchReview.Proofs.Fields
import Mathlib.Data.List.TakeWhile

/-!
# Replies of tools stay behind their calls

A provider refuses a request in which a tool speaks that was not called. A history is cut from its front to fit the
limits, so the message with the calls may go and leave replies of tools behind. Here it is shown that this does not
happen: `Led` says that each reply has its call before it, and it is kept by every step from the history to the
request.
-/

namespace PatchReview.Chat

open Expert Fields Json List Message Option

section

variable {α β : Type} {p : α → Prop} {leads : α → α → Prop} {xs ys : List α} {x : α}

/-- Every item of a kind comes behind one that leads it, with only items of the kind between. -/
def Led (p : α → Prop) (leads : α → α → Prop) (xs : List α) : Prop :=
  ∀ before x after, xs = before ++ x :: after → p x →
    ∃ early y between, before = early ++ y :: between ∧ (∀ z ∈ between, p z) ∧ leads y x

lemma Led.append (hxs : Led p leads xs) (hys : Led p leads ys) : Led p leads (xs ++ ys) := by
  intro before x after h hx
  rcases append_eq_append_iff.1 h with ⟨mid, rfl, hy⟩ | ⟨mid, hb, hy⟩
  · obtain ⟨early, y, between, rfl, hbetween, hlead⟩ := hys mid x after hy hx
    exact ⟨xs ++ early, y, between, by rw [append_assoc], hbetween, hlead⟩
  · cases mid with
    | nil =>
      obtain ⟨early, y, between, hnil, -⟩ := hys [] x after hy.symm hx
      simp at hnil
    | cons z mid =>
      rw [cons_append, List.cons.injEq] at hy
      exact hxs before x mid (by rw [hb, hy.1]) hx

lemma led_nil : Led p leads [] := fun before x after h => by simp at h

lemma Led.cons (h : Led p leads xs) (hx : ¬ p x) : Led p leads (x :: xs) := by
  have hone : Led p leads [x] := by
    intro before y after hy hp
    obtain ⟨-, rfl, -⟩ | ⟨-, hnil⟩ := singleton_eq_append_iff.1 hy
    all_goals simp_all
  exact hone.append h

/-- One item may lead all that follow it. -/
lemma led_cons_of_forall (hx : ¬ p x) (hall : ∀ y ∈ ys, p y ∧ leads x y) : Led p leads (x :: ys) := by
  intro before y after h hy
  cases before with
  | nil =>
    cases h
    exact absurd hy hx
  | cons z before =>
    obtain ⟨rfl, rfl⟩ := h
    exact ⟨[], x, before, rfl, fun z hz => (hall z (mem_append_left _ hz)).1, (hall y (by simp)).2⟩

lemma Led.head? (h : Led p leads xs) : ∀ x ∈ xs.head?, ¬ p x := by
  intro x hx hp
  obtain ⟨rest, rfl⟩ := head?_eq_some_iff.1 hx
  obtain ⟨early, y, between, hnil, -⟩ := h [] x rest rfl hp
  simp at hnil

/-- What is cut off at the front does not matter, as long as the rest starts with an item of another kind. -/
lemma Led.suffix (h : Led p leads xs) (hs : ys <:+ xs) (hhead : ∀ y ∈ ys.head?, ¬ p y) : Led p leads ys := by
  obtain ⟨cut, rfl⟩ := hs
  rintro before x after rfl hx
  obtain ⟨early, y, between, heq, hbetween, hlead⟩ := h (cut ++ before) x after (append_assoc ..).symm hx
  -- the leading item is in the part that stays: between it and `x` all are of the kind, the first one left is not
  rcases append_eq_append_iff.1 heq with ⟨mid, rfl, hmid⟩ | ⟨mid, rfl, hmid⟩
  · exact ⟨mid, y, between, hmid, hbetween, hlead⟩
  · cases mid with
    | nil => exact ⟨[], y, between, hmid.symm, hbetween, hlead⟩
    | cons z mid =>
      rw [cons_append, List.cons.injEq] at hmid
      cases before with
      | nil => exact absurd hx (hhead x rfl)
      | cons b before => exact absurd (hbetween b (by simp [hmid.2])) (hhead b rfl)

lemma Led.map {q : β → Prop} {leads' : β → β → Prop} {f : α → β} (h : Led p leads xs) (hkind : ∀ x ∈ xs, q (f x) ↔ p x)
    (hleads : ∀ y ∈ xs, ∀ x ∈ xs, leads y x → leads' (f y) (f x)) : Led q leads' (xs.map f) := by
  intro before x after hmap hx
  obtain ⟨before, rest, rfl, rfl, hrest⟩ := map_eq_append_iff.1 hmap
  obtain ⟨x, after, rfl, rfl, rfl⟩ := map_eq_cons_iff.1 hrest
  obtain ⟨early, y, between, rfl, hbetween, hlead⟩ := h before x after rfl ((hkind x (by simp)).1 hx)
  refine ⟨early.map f, f y, between.map f, by simp, ?_, hleads y (by simp) x (by simp) hlead⟩
  rw [List.forall_mem_map]
  intro z hz
  exact (hkind z (by simp [hz])).2 (hbetween z hz)

end

/-! ## Calls and what answers them -/

/-- A call has an id and names a tool, in its own members or in those of its function. -/
inductive Names : Json → String → String → Prop
  | plain {fs : List (String × Json)} {id name : String} (hid : get? fs "id" = some (.text id))
      (hname : get? fs "name" = some (.text name))
      (hfun : ∀ gs, get? fs "function" ≠ some (.object gs)) : Names (.object fs) id name
  | function {fs gs : List (String × Json)} {id name : String} (hid : get? fs "id" = some (.text id))
      (hfun : get? fs "function" = some (.object gs))
      (hname : get? gs "name" = some (.text name)) : Names (.object fs) id name

variable {call : Json} {id name : String} {m : Message} {ms ns : List Message} {l : Expert.Limits}

section

variable (h : Names call id name)

include h

lemma Names.getD_id : call.getD "id" = .text id := by cases h <;> simp_all [Json.getD, Json.get?]

lemma Names.unique {id' name'} (h' : Names call id' name') : id = id' ∧ name = name' := by
  cases h <;> cases h' <;> simp_all

/-- The provider is told of the same call. -/
lemma Names.exists_wireCall? : ∃ wire, wireCall? call = some wire ∧ Names wire id name := by
  cases h with
  | @plain fs id name hid hname hfun =>
    refine ⟨.object [("id", id), ("type", "function"), ("function", .object [("name", name),
      ("arguments", argumentText ((get? fs "args").getD .null))])], ?_, ?_⟩
    · unfold wireCall?
      cases hf : get? fs "function" with
      | none => simp [hid, hname]
      | some v => cases v <;> simp_all
    · exact .function rfl rfl rfl
  | function hid hfun hname => exact ⟨_, by simp [wireCall?, hfun, has_of_get? hid], .function hid hfun hname⟩

lemma Names.callName? (hid : id ≠ "") (hname : name ≠ "") : callName? call = some (id, name) := by
  cases h with
  | @plain fs _ _ hid hname hfun =>
    unfold Chat.callName?
    cases hf : get? fs "function" with
    | none => simp_all [truthy]
    | some v => cases v <;> simp_all [truthy]
  | function hid hfun hname => simp_all [Chat.callName?, truthy]

end

/-- The name that a message of a tool comes with. -/
def Message.statedName (m : Message) : Json := if m.name.truthy then m.name else m.extra.getD "name"

/-- A tool answers a call: with the id of the call, and under no other name. -/
def Answers (call : Json) (m : Message) : Prop :=
  m.isTool ∧ ∃ id name, Names call id name ∧ m.toolCallId = .text id ∧ (m.statedName.truthy → m.statedName = .text name)

/-- The model calls a tool, and this is what the tool gives. -/
def Leads (said given : Message) : Prop := said.isModel ∧ ∃ call ∈ said.calls, Answers call given

/-- The calls that the model makes. -/
def asked (ms : List Message) : List Json := (ms.filter (·.isModel)).flatMap (·.calls)

/-- A message that can be told to the provider, with calls that have ids and names. -/
structure Message.Proper (m : Message) : Prop where
  known : m.isHuman ∨ m.speaker = .system ∨ m.isModel ∨ m.isTool
  plain : m.isModel → (m.extra.getD "tool_calls").truthy = false
  named : m.isModel → ∀ call ∈ m.calls, ∃ id name, id ≠ "" ∧ name ≠ "" ∧ Names call id name

/-- Messages in which every tool that speaks was called, and each id is that of one tool. -/
structure Sound (ms : List Message) : Prop where
  led : Led (fun m => m.isTool = true) Leads ms
  proper : ∀ m ∈ ms, m.Proper
  agree : ∀ call ∈ asked ms, ∀ call' ∈ asked ms, ∀ id name name',
    Names call id name → Names call' id name' → name = name'

lemma mem_asked : call ∈ asked ms ↔ ∃ m ∈ ms, m.isModel ∧ call ∈ m.calls := by simp [asked, and_assoc]

/-! ## From a history to its last part -/

lemma Sound.agree_of_subset (h : Sound ms) (hsub : ∀ call ∈ asked ns, call ∈ asked ms) :
    ∀ call ∈ asked ns, ∀ call' ∈ asked ns, ∀ id name name', Names call id name → Names call' id name' → name = name' :=
  fun call hcall call' hcall' => h.agree call (hsub call hcall) call' (hsub call' hcall')

lemma Sound.suffix (h : Sound ms) (hs : ns <:+ ms) (hhead : ∀ m ∈ ns.head?, ¬ m.isTool) : Sound ns := by
  refine ⟨h.led.suffix hs hhead, fun m hm => h.proper m (hs.subset hm), h.agree_of_subset ?_⟩
  intro call hcall
  obtain ⟨m, hm, hcall⟩ := mem_asked.1 hcall
  exact mem_asked.2 ⟨m, hs.subset hm, hcall⟩

/-- A turn of a person or of the system may come first. -/
lemma Sound.cons (h : Sound ms) (hm : m.isHuman ∨ m.speaker = .system) : Sound (m :: ms) := by
  have htool : ¬ m.isTool := by rcases hm with hm | hm <;> simp_all [isTool, isHuman]
  have hmodel : m.isModel = false := by rcases hm with hm | hm <;> simp_all [isModel, isHuman]
  have hasked : asked (m :: ms) = asked ms := by simp [asked, hmodel]
  refine ⟨h.led.cons htool, ?_, hasked ▸ h.agree⟩
  rintro n (_ | ⟨_, hn⟩)
  · exact ⟨hm.imp_right .inl, by simp [hmodel], by simp [hmodel]⟩
  · exact h.proper n hn

lemma clipped_eq (l m) : ∃ c, clipped l m = { m with content := c } := by
  unfold clipped
  split
  · exact ⟨_, rfl⟩
  · split <;> exact ⟨_, rfl⟩

/-- Only what is said is cut, not who says it and which calls it makes or answers. -/
lemma Sound.clipped (h : Sound ms) : Sound (ms.map (clipped l)) := by
  choose c hc using clipped_eq l
  rw [funext hc]
  refine ⟨h.led.map (fun _ _ => .rfl) fun _ _ _ _ hlead => hlead, ?_, h.agree_of_subset ?_⟩
  · rw [List.forall_mem_map]
    intro m hm
    exact ⟨(h.proper m hm).known, (h.proper m hm).plain, (h.proper m hm).named⟩
  · intro call hcall
    obtain ⟨_, hn, hcall⟩ := mem_asked.1 hcall
    obtain ⟨m, hm, rfl⟩ := mem_map.1 hn
    exact mem_asked.2 ⟨m, hm, hcall⟩

lemma lastMessages_append (limit count afterTool) (ms) :
    (lastMessages limit count afterTool ms).1 ++ (lastMessages limit count afterTool ms).2 = ms := by
  induction ms generalizing count afterTool with
  | nil => rfl
  | cons m rest ih =>
    unfold lastMessages
    split
    · exact congrArg (m :: ·) (ih _ _)
    · rfl

lemma head?_dropWhile (q) (ms : List Message) : ∀ m ∈ (ms.dropWhile q).head?, ¬ q m := by
  intro m hm
  have := head?_dropWhile_not q ms
  rw [mem_def.1 hm] at this
  simpa using this

lemma Sound.kept (h : Sound ms) (limit : Nat) : Sound (Expert.kept limit ms) := by
  have hsuffix : (lastMessages limit 0 false ms.reverse).1.reverse <:+ ms := by
    refine ⟨(lastMessages limit 0 false ms.reverse).2.reverse, ?_⟩
    rw [← reverse_append, lastMessages_append, reverse_reverse]
  have hlast := h.suffix ((dropWhile_suffix _).trans hsuffix) (head?_dropWhile (·.isTool) _)
  unfold Expert.kept
  dsimp only
  split
  · exact hlast
  · split
    · rename_i person hfind
      exact hlast.cons (.inl (find?_some hfind))
    · exact hlast

variable (names : List (String × String)) (limit : Nat) (dropping : Bool)

lemma fitting_suffix (ms) : fitting limit dropping ms <:+ ms := by
  fun_induction fitting limit dropping ms with
  | case1 => exact suffix_rfl
  | case2 dropping m rest hdrop ih => exact ih.trans (suffix_cons m rest)
  | case3 => exact suffix_rfl
  | case4 dropping m rest hdrop hlong ih => exact ih.trans (suffix_cons m rest)

lemma head?_fitting (ms) (hhead : dropping = false → ∀ m ∈ ms.head?, ¬ m.isTool) :
    ∀ m ∈ (fitting limit dropping ms).head?, ¬ m.isTool := by
  fun_induction fitting limit dropping ms with
  | case1 => simp
  | case2 dropping m rest hdrop ih => exact ih (by simp)
  | case3 dropping m rest hdrop hshort =>
    cases dropping with
    | false => exact hhead rfl
    | true => simpa using hdrop
  | case4 dropping m rest hdrop hlong ih => exact ih (by simp)

lemma Sound.shrink (h : Sound ms) : Sound (shrink l ms) := by
  have hclipped := (h.kept l.messages).clipped (l := l)
  exact hclipped.suffix (fitting_suffix ..) (head?_fitting _ _ _ fun _ => hclipped.led.head?)

/-- A turn of the user is put after the system's, where no tool speaks next: the system calls none. -/
lemma Sound.withUser (h : Sound ms) : Sound (withUser ms) := by
  unfold Chat.withUser
  split
  · exact h
  · rename_i hno
    have hsplit : ms.takeWhile (·.speaker == .system) ++ ms.drop (ms.takeWhile (·.speaker == .system)).length = ms :=
      prefix_iff_eq_append.1 ( takeWhile_prefix _)
    have hlead : ∀ m ∈ ms.takeWhile (·.speaker == .system), m.speaker = .system := by
      intro m hm
      simpa using mem_takeWhile_imp hm
    generalize ms.takeWhile (·.speaker == .system) = lead at hsplit hlead ⊢
    generalize ms.drop lead.length = rest at hsplit ⊢
    subst hsplit
    have hrest : Sound rest := by
      refine h.suffix (suffix_append ..) ?_
      intro t ht htool
      obtain ⟨after, rfl⟩ := head?_eq_some_iff.1 ht
      obtain ⟨early, said, between, rfl, -, hmodel, -⟩ := h.led lead t after rfl htool
      have := hlead said (by simp)
      simp [isModel, this] at hmodel
    have huser : Sound (human "继续。" :: rest) := hrest.cons (.inl rfl)
    clear h hno hrest
    induction lead with
    | nil => exact huser
    | cons m lead ih => exact (ih fun n hn => hlead n (mem_cons_of_mem _ hn)).cons (.inr (hlead m mem_cons_self))

lemma exists_human_mem_withUser (ms) : ∃ m ∈ withUser ms, m.isHuman := by
  unfold withUser
  split
  · rename_i h
    exact any_eq_true.1 h
  · exact ⟨human "继续。", by simp, rfl⟩

/-! ## What the provider is told -/

/-- A message as the provider is told it. -/
def wired (m : Message) : Json := (wireMessage names m).toOption.getD .null

lemma Message.Proper.wireMessage_eq (h : m.Proper) (names) : wireMessage names m = .ok (wired names m) := by
  rcases h.known with h | h | h | h <;>
    simp_all [wired, wireMessage, isHuman, isModel, isTool, Except.toOption]

lemma Sound.wireMessages_eq (h : Sound ms) :
    wireMessages ms = .ok ((Chat.withUser ms).map (wired (toolNames (Chat.withUser ms)))) := by
  exact (Action.mapM_congr fun m hm => (h.withUser.proper m hm).wireMessage_eq _).trans mapM_pure

lemma Message.Proper.role_eq_tool_iff (h : m.Proper) (names) :
    (wired names m).get? "role" = some "tool" ↔ m.isTool := by
  rcases h.known with h | h | h | h <;>
    simp_all [wired, wireMessage, isHuman, isModel, isTool, Except.toOption, Json.get?, get?_cons]

lemma role_of_isModel (h : m.isModel) : (wired names m).get? "role" = some "assistant" := by
  simp_all [wired, wireMessage, isModel, Except.toOption, Json.get?, get?_cons]

lemma role_of_isHuman (h : m.isHuman) : (wired names m).get? "role" = some "user" := by
  simp_all [wired, wireMessage, isHuman, Except.toOption, Json.get?, get?_cons]

lemma Message.Proper.wireCalls_items (h : m.Proper) (hmodel : m.isModel) :
    m.wireCalls.items = m.calls.filterMap wireCall? := by
  unfold wireCalls calls wireCalls?
  rw [if_neg (by simp [h.plain hmodel])]
  cases m.toolCalls with
  | list cs => cases h : cs.filterMap wireCall? <;> simp [items, h]
  | _ => rfl

lemma items_toolCalls_wired (hmodel : m.isModel) : ((wired names m).getD "tool_calls").items = m.wireCalls.items := by
  have hspeaker : m.speaker = .ai := by simpa [isModel] using hmodel
  cases hcalls : m.wireCalls.truthy with
  | true => simp [wired, wireMessage, hspeaker, hcalls, Except.toOption, Json.getD, Json.get?, get?_cons]
  | false =>
    have hnone : m.wireCalls.items = [] := by cases h : m.wireCalls <;> simp_all [Json.items, Json.truthy]
    simp [wired, wireMessage, hspeaker, hcalls, hnone]
    rfl

/-- The provider is told of just the calls that were made. -/
lemma Sound.mem_callNames_iff (h : Sound ms) :
    (id, name) ∈ (ms.filter (·.isModel)).flatMap (fun m => m.wireCalls.items.filterMap callName?) ↔
      ∃ call ∈ asked ms, Names call id name := by
  simp only [mem_flatMap, mem_filter, mem_filterMap]
  constructor
  · rintro ⟨m, ⟨hm, hmodel⟩, wire, hwire, hname⟩
    rw [(h.proper m hm).wireCalls_items hmodel, mem_filterMap] at hwire
    obtain ⟨call, hcall, hwire⟩ := hwire
    obtain ⟨id', name', hid, hname', hnames⟩ := (h.proper m hm).named hmodel call hcall
    obtain ⟨wire', hwire', hnames'⟩ := hnames.exists_wireCall?
    obtain rfl : wire' = wire := some.inj (hwire'.symm.trans hwire)
    rw [hnames'.callName? hid hname', some.injEq] at hname
    obtain ⟨rfl, rfl⟩ := hname
    exact ⟨call, mem_asked.2 ⟨m, hm, hmodel, hcall⟩, hnames⟩
  · rintro ⟨call, hcall, hnames⟩
    obtain ⟨m, hm, hmodel, hcall⟩ := mem_asked.1 hcall
    obtain ⟨id', name', hid, hname, hnames'⟩ := (h.proper m hm).named hmodel call hcall
    obtain ⟨rfl, rfl⟩ := hnames.unique hnames'
    obtain ⟨wire, hwire, hnames⟩ := hnames.exists_wireCall?
    refine ⟨m, ⟨hm, hmodel⟩, wire, ?_, hnames.callName? hid hname⟩
    rw [(h.proper m hm).wireCalls_items hmodel]
    exact mem_filterMap.2 ⟨call, hcall, hwire⟩

lemma Sound.get?_toolNames (h : Sound ms) (hcall : call ∈ asked ms) (hnames : Names call id name) :
    get? (toolNames ms) id = some name := by
  refine get?_merge_of_mem (.inl (h.mem_callNames_iff.2 ⟨call, hcall, hnames⟩)) ?_
  intro name' hname'
  obtain ⟨call', hcall', hnames'⟩ := h.mem_callNames_iff.1 hname'
  exact h.agree call' hcall' call hcall id name' name hnames' hnames

/-- What the provider is told of a call, and of what a tool gave for it. -/
def Asks (said given : Json) : Prop :=
  said.get? "role" = some "assistant" ∧ ∃ call ∈ (said.getD "tool_calls").items, ∃ id name, Names call id name ∧
      given.get? "tool_call_id" = some id ∧ given.get? "name" = some name

lemma Sound.asks_wired (h : Sound ms) {said given} (hsaid : said ∈ ms) (hlead : Leads said given) :
    Asks (wired (toolNames ms) said) (wired (toolNames ms) given) := by
  obtain ⟨hmodel, call, hcall, htool, id, name, hnames, hid, hstated⟩ := hlead
  obtain ⟨id', name', -, hname, hnames'⟩ := (h.proper said hsaid).named hmodel call hcall
  obtain ⟨rfl, rfl⟩ := hnames.unique hnames'
  obtain ⟨wire, hwire, hwireNames⟩ := hnames.exists_wireCall?
  refine ⟨role_of_isModel _ hmodel, wire, ?_, id, name, hwireNames, ?_, ?_⟩
  · rw [items_toolCalls_wired _ hmodel, (h.proper said hsaid).wireCalls_items hmodel]
    exact mem_filterMap.2 ⟨call, hcall, hwire⟩
  · simp_all [wired, wireMessage, isTool, Except.toOption, Json.get?, get?_cons]
  · have hfound := h.get?_toolNames (mem_asked.2 ⟨said, hsaid, hmodel, hcall⟩) hnames
    have htruthy : (text name).truthy := by simp [truthy, hname]
    have hspeaker : given.speaker = .tool := by simpa [isTool] using htool
    unfold statedName at hstated
    simp only [wired, wireMessage, hspeaker, hid, hfound, ofText?, Except.toOption]
    generalize (if given.name.truthy then given.name else given.extra.getD "name") = stated at hstated
    by_cases htold : stated.truthy
    · simp [hstated htold, htruthy, Json.get?, get?_cons]
    · simp [htold, htruthy, Json.get?, get?_cons]

/-! ## Conversations with tools -/

/-- One turn of the model, and what the tools gave that it called: one message for each call. -/
structure Round where
  said : Message
  given : List Message
  model : said.isModel
  plain : (said.extra.getD "tool_calls").truthy = false
  named : ∀ call ∈ said.calls, ∃ id name, id ≠ "" ∧ name ≠ "" ∧ Names call id name
  answered : ∃ order, order.Perm said.calls ∧ List.Forall₂ Answers order given

/-- A question of a person and the rounds that follow it, all calls with ids of their own. -/
structure Conversation where
  question : Message
  rounds : List Round
  human : question.isHuman
  distinct : ((rounds.flatMap (·.said.calls)).map (·.getD "id")).Nodup

def Round.messages (r : Round) : List Message := r.said :: r.given

def Conversation.messages (c : Conversation) : List Message := c.question :: c.rounds.flatMap Round.messages

lemma exists_of_forall₂ {α β} {R : α → β → Prop} {xs} {ys : List β} (h : List.Forall₂ R xs ys) :
    ∀ y ∈ ys, ∃ x ∈ xs, R x y := by
  induction h with
  | nil => simp
  | cons hxy _ ih =>
    rintro y (_ | ⟨_, hy⟩)
    · exact ⟨_, mem_cons_self, hxy⟩
    · obtain ⟨x, hx, hxy⟩ := ih y hy
      exact ⟨x, mem_cons_of_mem _ hx, hxy⟩

lemma Round.leads (r : Round) : ∀ m ∈ r.given, m.isTool ∧ Leads r.said m := by
  intro m hm
  obtain ⟨order, hperm, hall⟩ := r.answered
  obtain ⟨call, hcall, hanswers⟩ := exists_of_forall₂ hall m hm
  exact ⟨hanswers.1, r.model, call, hperm.subset hcall, hanswers⟩

lemma Round.asked_messages (r : Round) : asked r.messages = r.said.calls := by
  have hgiven : r.given.filter (·.isModel) = [] := by
    refine filter_eq_nil_iff.2 fun m hm => ?_
    have htool : m.speaker = .tool := by simpa [isTool] using (r.leads m hm).1
    simp [isModel, htool]
  simp [asked, Round.messages, r.model, hgiven]

lemma asked_flatMap_messages (rounds : List Round) :
    asked (rounds.flatMap Round.messages) = rounds.flatMap (·.said.calls) := by
  induction rounds with
  | nil => rfl
  | cons r rest ih =>
    rw [flatMap_cons, flatMap_cons, ← ih, ← r.asked_messages]
    simp [asked]

lemma Round.proper (r : Round) : ∀ m ∈ r.messages, m.Proper := by
  rintro m (_ | ⟨_, hm⟩)
  · exact ⟨.inr (.inr (.inl r.model)), fun _ => r.plain, fun _ => r.named⟩
  · have htool := (r.leads m hm).1
    have hmodel : m.isModel = false := by simp_all [isTool, isModel]
    exact ⟨.inr (.inr (.inr htool)), by simp [hmodel], by simp [hmodel]⟩

lemma Conversation.sound (c : Conversation) : Sound c.messages := by
  refine Sound.cons ⟨?_, ?_, ?_⟩ (.inl c.human)
  · induction c.rounds with
    | nil => exact led_nil
    | cons r rest ih =>
      have hsaid : ¬ r.said.isTool := by
        have := r.model
        simp_all [isTool, isModel]
      exact (led_cons_of_forall (p := fun m : Message => m.isTool) hsaid r.leads).append ih
  · intro m hm
    obtain ⟨r, -, hm⟩ := mem_flatMap.1 hm
    exact r.proper m hm
  · rw [asked_flatMap_messages]
    intro call hcall call' hcall' id name name' h h'
    obtain rfl := inj_on_of_nodup_map c.distinct hcall hcall' (h.getD_id.trans h'.getD_id.symm)
    exact (h.unique h').2

/-- However a history is cut, each reply of a tool that the provider is told of comes behind the turn of the model with
its call, with only such replies between, under the name of that call; and a turn of the user is told too. -/
theorem replies_stay_paired (c : Conversation) (system : Message) (hsystem : system.speaker = .system)
    (l : Expert.Limits) :
    ∃ told, wireMessages (system :: shrink l c.messages) = .ok told ∧
      Led (fun v => v.get? "role" = some (.text "tool")) Asks told ∧
      ∃ v ∈ told, v.get? "role" = some (.text "user") := by
  have hsound : Sound (system :: shrink l c.messages) := c.sound.shrink.cons (.inr hsystem)
  refine ⟨_, hsound.wireMessages_eq, ?_, ?_⟩
  · exact hsound.withUser.led.map (fun m hm => (hsound.withUser.proper m hm).role_eq_tool_iff _)
      fun said hsaid given _ hlead => hsound.withUser.asks_wired hsaid hlead
  · obtain ⟨m, hm, hhuman⟩ := exists_human_mem_withUser (system :: shrink l c.messages)
    exact ⟨_, List.mem_map_of_mem hm, role_of_isHuman _ hhuman⟩

/-- A call of a tool with no arguments. -/
def bareCall (id name : String) : Json := .object [("id", id), ("name", name)]

/-- What a tool gives that does not say its name. -/
def namelessReply (id : String) : Message := { speaker := .tool, content := .text "found", toolCallId := .text id }

lemma names_bareCall (id name) : Names (bareCall id name) id name :=
  .plain rfl rfl fun gs h => nomatch (h : none = some (object gs))

lemma answers_namelessReply (id name) : Answers (bareCall id name) (namelessReply id) :=
  ⟨rfl, id, name, names_bareCall .., rfl, fun h => absurd h Bool.false_ne_true⟩

/-- A round of calls with no arguments; the last tool called is the first to reply. -/
def bareRound (calls : Pairs) (h : ∀ c ∈ calls, c.1 ≠ "" ∧ c.2 ≠ "") : Round where
  said := { speaker := .ai, content := .text "", toolCalls := .list (calls.map fun c => bareCall c.1 c.2) }
  given := calls.reverse.map fun c => namelessReply c.1
  model := rfl
  plain := rfl
  named := by
    intro call hcall
    obtain ⟨c, hc, rfl⟩ := mem_map.mp hcall
    exact ⟨c.1, c.2, (h c hc).1, (h c hc).2, names_bareCall ..⟩
  answered := by
    refine ⟨calls.reverse.map fun c => bareCall c.1 c.2, (reverse_perm calls).map _, ?_⟩
    rw [List.forall₂_map_left_iff, List.forall₂_map_right_iff, List.forall₂_same]
    exact fun c _ => answers_namelessReply c.1 c.2

/-- A conversation in two rounds, three calls in all. -/
def twoRounds : Conversation where
  question := human "look"
  rounds := [bareRound [("1", "read"), ("2", "grep")] (by decide), bareRound [("3", "read")] (by decide)]
  human := rfl
  distinct := by simp [bareRound, bareCall, calls, Json.items, Json.getD, Json.get?, get?_cons]

/-- One message and no length at all are left to the history. -/
theorem replies_stay_paired_two_rounds : (system "be brief").speaker = .system ∧
      ∃ told, wireMessages (system "be brief" ::
          shrink { messages := 1, total := 0, tool := 0, model := 0 } twoRounds.messages) = .ok told ∧
        Led (fun v => v.get? "role" = some (.text "tool")) Asks told ∧
        ∃ v ∈ told, v.get? "role" = some (.text "user") :=
  ⟨rfl, replies_stay_paired twoRounds (system "be brief") rfl _⟩

end PatchReview.Chat
