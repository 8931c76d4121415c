import PatchReview.Proofs.Index.AtRoot
import PatchReview.Proofs.Index.Filling

/-!
# Where the calls of a revision lead

An index takes a base revision and then a head revision. Calls are matched over the symbols of both, once: a call of
a content that the base has already keeps the symbol it was given then. So a call that head sees may lead to a
definition that head does not see, though it sees another one of that name. `leads_into_head_iff` says exactly when
no call does.
-/

namespace PatchReview.Index

open List

variable {ix ix' : Index} {o : BuildOptions} {root : Path} {rev : String} {base : Option String} {w w' : Workspace}
  {c : CallRow} {limit : Int64} {node name : String}

/-! ## Calls after a run -/

/-- A call after a run was resolved before it, or leads to a symbol of its own new content, or takes the least id of
its name because its content has no symbol of that name and no symbol had it before. -/
lemma Sound.call_cases (h : Sound ix) (hset : Settled ix)
    (hrun : ix.addRepository root rev base o w = (.ok ix', w')) (hc : c ∈ ix'.calls) :
    c ∈ ix.calls ∧ c.resolved = 1 ∨ OwnCall ix'.symbols c ∨
      c.symbol = ix'.symbolNamed? none c.name ∧ (∀ s ∈ ix'.symbols, s.blob = c.blob → s.name ≠ c.name) ∧
        (ix.hasArtifacts c.blob → ∀ s ∈ ix.symbols, s.name ≠ c.name) := by
  obtain ⟨fs, mid, rows, -, -, hmid, hgrow, rfl⟩ := h.addRepository hrun
  obtain ⟨c, hc₀, rfl⟩ := mem_map.1 hc
  by_cases hzero : c.resolved = 0
  · right
    right
    obtain ⟨-, -, hown⟩ | ⟨hone, -⟩ := hmid.contents.grounded c hc₀
    · rw [resolveCall_of_zero hzero]
      refine ⟨rfl, hown, ?_⟩
      intro hheld
      rw [hgrow.calls] at hc₀
      rcases mem_append.1 hc₀ with hc₀ | hc₀
      · exact hset.calls c hc₀ hzero
      · rw [hgrow.call_new c hc₀] at hheld
        cases hheld
    · rw [hzero] at hone
      cases hone
  · rw [resolveCall_of_ne_zero hzero]
    rw [hgrow.calls] at hc₀
    rcases mem_append.1 hc₀ with hc₀ | hc₀
    · obtain ⟨h₀, -, -⟩ | ⟨hone, -⟩ := h.contents.grounded c hc₀
      · exact absurd h₀ hzero
      · exact .inl ⟨hc₀, hone⟩
    · obtain h₀ | hown := hgrow.call_own c hc₀
      · exact absurd h₀ hzero
      · exact .inr (.inl (hown.mono fun s hs => by
          change s ∈ mid.symbols
          rw [hgrow.symbols]
          exact mem_append_right _ hs))

/-! ## What a revision sees -/

section

variable (ix rev c)

/-- A revision sees a symbol of a name. -/
def DefinedAt (name : String) : Prop :=
  ∃ s ∈ ix.symbols, s.name = name ∧ ix.visibleAt rev s.fileId s.blob = true

/-- A call leads to a symbol that a revision sees. -/
def LeadsInto : Prop :=
  ∃ s ∈ ix.symbols, c.symbol = some s.id ∧ ix.visibleAt rev s.fileId s.blob = true

/-- The content of a call has a symbol of the name that is called. -/
def DefinesOwn : Prop := ∃ s ∈ ix.symbols, s.blob = c.blob ∧ s.name = c.name

/-- The symbols among which a call is matched: those of an earlier index when it holds the call's content and a
symbol of the name, else those of the index. -/
def knownTo (before ix : Index) (c : CallRow) : List SymbolRow :=
  if before.hasArtifacts c.blob && before.symbols.any (·.name == c.name) then before.symbols else ix.symbols

/-- Of the symbols of some list that have the name of a call, a revision sees the one with the least id. -/
def SeesLeast (known : List SymbolRow) : Prop :=
  ∃ s ∈ known, s.name = c.name ∧ ix.visibleAt rev s.fileId s.blob = true ∧ ∀ t ∈ known, t.name = c.name → s.id ≤ t.id

instance (name) : Decidable (DefinedAt ix rev name) :=
  inferInstanceAs (Decidable (∃ s ∈ ix.symbols, _))

instance : Decidable (LeadsInto ix rev c) :=
  inferInstanceAs (Decidable (∃ s ∈ ix.symbols, _))

instance : Decidable (DefinesOwn ix c) := inferInstanceAs (Decidable (∃ s ∈ ix.symbols, _))

instance (known) : Decidable (SeesLeast ix rev c known) :=
  inferInstanceAs (Decidable (∃ s ∈ known, _))

end

/-- A call that was matched to the least of some symbols leads into a revision when the revision sees that one. -/
lemma leadsInto_iff_seesLeast {known} (hids : (ix.symbols.map (·.id)).Nodup) (hsub : known ⊆ ix.symbols) {s}
    (hs : s ∈ known) (hname : s.name = c.name) (hmin : ∀ t ∈ known, t.name = c.name → s.id ≤ t.id)
    (hc : c.symbol = some s.id) : LeadsInto ix rev c ↔ SeesLeast ix rev c known := by
  constructor
  · rintro ⟨t, ht, hid, hvis⟩
    obtain rfl : s = t := inj_on_of_nodup_map hids (hsub hs) ht (Option.some.inj (hc.symm.trans hid))
    exact ⟨s, hs, hname, hvis, hmin⟩
  · rintro ⟨t, ht, htn, hvis, htmin⟩
    have hid : s.id = t.id := String.le_antisymm (hmin t ht htn) (htmin s hs hname)
    exact ⟨t, hsub ht, hid ▸ hc, hvis⟩

lemma OwnCall.leadsInto (h : OwnCall ix.symbols c) (hvis : ix.visibleAt rev c.fileId c.blob) :
    LeadsInto ix rev c := by
  obtain ⟨-, s, hs, hb, hf, -, hid⟩ := h
  exact ⟨s, hs, hid, by rw [hf, hb]; exact hvis⟩

lemma OwnCall.definesOwn (h : OwnCall ix.symbols c) : DefinesOwn ix c := by
  obtain ⟨-, s, hs, hb, -, hn, -⟩ := h
  exact ⟨s, hs, hb, hn⟩

/-- Every call that a revision sees leads into it when the revision defines what it names. -/
def CallsLeadIn (ix : Index) (rev : String) : Prop :=
  ∀ c ∈ ix.calls, ix.visibleAt rev c.fileId c.blob = true → DefinedAt ix rev c.name → LeadsInto ix rev c

/-- The call edges answered for a revision lead to no symbol that it does not see while it sees another one of that
name. -/
def EdgesLeadIn (ix : Index) (rev : String) : Prop :=
  ∀ node limit, ∀ e ∈ ix.edgesAtRev rev .out ["CALL", "CFG_IP_CALL"] limit node,
    ∀ s ∈ ix.symbols, s.id = e.dst → DefinedAt ix rev s.name → ix.visibleAt rev s.fileId s.blob = true

/-- The edges say what the calls say. -/
lemma Sound.edgesLeadIn_iff (h : Sound ix) (hset : Settled ix) : EdgesLeadIn ix rev ↔ CallsLeadIn ix rev := by
  constructor
  · intro hedges c hc hvis hdef
    obtain ⟨d, hd, hdn, hdv⟩ := hdef
    rcases h.contents.grounded c hc with ⟨h₀, -, -⟩ | ⟨hone, s, hs, hid, hname⟩
    · exact absurd hdn (hset.calls c hc h₀ d hd)
    · obtain ⟨e, he, hdst, hkind, hfile, hblob⟩ : ∃ e ∈ ix.edges, e.dst = s.id ∧
          e.kind = "CALL" ∧ e.fileId = c.fileId ∧ e.blob = c.blob := by
        have hmem := mem_derivedEdges_iff.2 ⟨c, hc, s.id, hone, hid, .inr (.inr rfl)⟩
        rw [← hset.edges] at hmem
        exact ⟨_, (mem_filter.1 hmem).1, rfl, rfl, rfl, rfl⟩
      have hanswer : e ∈ ix.edgesAtRev rev .out ["CALL", "CFG_IP_CALL"] (-1) e.src :=
        mem_edgesAtRev_of_neg .out (by decide) he (by simp [hkind]) (hfile ▸ hblob ▸ hvis)
      exact ⟨s, hs, hid, hedges e.src (-1) e hanswer s hs hdst.symm ⟨d, hd, hdn.trans hname.symm, hdv⟩⟩
  · intro hcalls node limit e he s hs hid hdef
    obtain ⟨hmem, -, hkind, hvis⟩ := mem_edgesAtRev he
    have hkind : e.kind = "CALL" ∨ e.kind = "CFG_IP_CALL" := by simpa using hkind
    have hderived : e ∈ derivedEdges ix.calls := by
      rw [← hset.edges]
      refine mem_filter.2 ⟨hmem, ?_⟩
      rcases hkind with hkind | hkind <;> simp [hkind, derivedKinds]
    obtain ⟨c, hc, id, hone, hcid, hshape⟩ := mem_derivedEdges_iff.1 hderived
    have hfrom : e.dst = id ∧ e.fileId = c.fileId ∧ e.blob = c.blob := by
      rcases hshape with rfl | rfl | rfl
      · exact ⟨rfl, rfl, rfl⟩
      · simp at hkind
      · exact ⟨rfl, rfl, rfl⟩
    obtain ⟨hdst, hfile, hblob⟩ := hfrom
    rw [hfile, hblob] at hvis
    rcases h.contents.grounded c hc with ⟨h₀, -, -⟩ | ⟨-, t, ht, htid, hname⟩
    · rw [hone] at h₀
      cases h₀
    · have hst : s = t := inj_on_of_nodup_map h.contents.symbolIds hs ht
        ((hid.trans hdst).trans (Option.some.inj (hcid.symm.trans htid)))
      obtain ⟨u, hu, huid, huv⟩ := hcalls c hc hvis (hname ▸ hst ▸ hdef)
      have hsu : s = u := inj_on_of_nodup_map h.contents.symbolIds hs hu
        ((hid.trans hdst).trans (Option.some.inj (hcid.symm.trans huid)))
      rw [hsu]
      exact huv

/-! ## Base and head -/

section

variable {ix₁ ix₂ : Index} {root₁ root₂ : Path} {rev₁ rev₂ : String} {base₁ base₂ : Option String}
  {o₁ o₂ : BuildOptions} {w₁ w₁' w₂ w₂' : Workspace}

/-- A run keeps the symbols there are. -/
lemma Sound.symbols_subset (h : Sound ix) (hrun : ix.addRepository root rev base o w = (.ok ix', w')) :
    ix.symbols ⊆ ix'.symbols := by
  obtain ⟨-, mid, rows, -, -, -, hgrow, rfl⟩ := h.addRepository hrun
  change ix.symbols ⊆ mid.symbols
  rw [hgrow.symbols]
  exact subset_append_left _ _

lemma knownTo_of_known {before} (hheld : before.hasArtifacts c.blob)
    (hname : ∃ s ∈ before.symbols, s.name = c.name) : knownTo before ix c = before.symbols := by
  obtain ⟨s, hs, hn⟩ := hname
  have hany : before.symbols.any (·.name == c.name) := any_eq_true.2 ⟨s, hs, beq_iff_eq.2 hn⟩
  rw [knownTo, hheld, hany]
  rfl

lemma knownTo_of_unknown {before} (h : before.hasArtifacts c.blob → ∀ s ∈ before.symbols, s.name ≠ c.name) :
    knownTo before ix c = ix.symbols := by
  rw [knownTo, if_neg]
  intro hknown
  rw [Bool.and_eq_true, any_eq_true] at hknown
  obtain ⟨hheld, s, hs, hn⟩ := hknown
  exact h hheld s hs (beq_iff_eq.1 hn)

variable (h₁ : ({} : Index).addRepository root₁ rev₁ base₁ o₁ w₁ = (.ok ix₁, w₁'))
  (h₂ : ix₁.addRepository root₂ rev₂ base₂ o₂ w₂ = (.ok ix₂, w₂'))

include h₁ h₂

/-- A call of head that names something head defines leads into head when its own content has a symbol of the name,
or when head sees the least symbol of the name that was known when the call was matched. -/
lemma leadsInto_head_iff (hc : c ∈ ix₂.calls) (hvis : ix₂.visibleAt rev₂ c.fileId c.blob)
    (hdef : DefinedAt ix₂ rev₂ c.name) :
    LeadsInto ix₂ rev₂ c ↔ DefinesOwn ix₂ c ∨ SeesLeast ix₂ rev₂ c (knownTo ix₁ ix₂ c) := by
  have hempty : Filled {} := .empty
  have hfilled₁ : Filled ix₁ := .run hempty h₁
  have hsub := hfilled₁.sound.symbols_subset h₂
  have hids := (Filled.run hfilled₁ h₂).sound.contents.symbolIds
  rcases hfilled₁.sound.call_cases hfilled₁.settled h₂ hc with ⟨hc₁, hone⟩ | hown | ⟨hsym, hno, hnew⟩
  · -- The call was matched by the first run, which started without any calls.
    rcases hempty.sound.call_cases hempty.settled h₁ hc₁ with ⟨hc₀, -⟩ | hown | ⟨hsym, hno, -⟩
    · cases hc₀
    · have hown : OwnCall ix₂.symbols c := hown.mono hsub
      exact iff_of_true (hown.leadsInto hvis) (.inl hown.definesOwn)
    · have hheld := hfilled₁.sound.contents.call_held hc₁
      obtain ⟨h₀, -, -⟩ | ⟨-, t, -, htid, -⟩ := hfilled₁.sound.contents.grounded c hc₁
      · rw [hone] at h₀
        cases h₀
      · obtain ⟨s, hs, hsn, hsid, hmin⟩ := symbolNamed?_eq_some_iff.1 (hsym.symm.trans htid)
        rw [knownTo_of_known hheld ⟨s, hs, hsn⟩, leadsInto_iff_seesLeast hids hsub hs hsn (hsid ▸ hmin) (hsid ▸ htid)]
        refine (or_iff_right ?_).symm
        rintro ⟨u, hu, hub, hun⟩
        obtain ⟨-, mid, rows, -, -, -, hgrow, rfl⟩ := hfilled₁.sound.addRepository h₂
        change u ∈ mid.symbols at hu
        rw [hgrow.symbols] at hu
        rcases mem_append.1 hu with hu | hu
        · exact hno u hu hub hun
        · have := hgrow.symbol_new u hu
          rw [hub, hheld] at this
          cases this
  · exact iff_of_true (hown.leadsInto hvis) (.inl hown.definesOwn)
  · obtain ⟨d, hd, hdn, -⟩ := hdef
    cases hleast : ix₂.symbolNamed? none c.name with
    | none => exact absurd hdn (symbolNamed?_eq_none_iff.1 hleast d hd)
    | some id =>
      obtain ⟨s, hs, hsn, hsid, hmin⟩ := symbolNamed?_eq_some_iff.1 hleast
      rw [knownTo_of_unknown hnew, leadsInto_iff_seesLeast hids (List.Subset.refl _) hs hsn (hsid ▸ hmin)
        (hsid ▸ hsym.trans hleast)]
      refine (or_iff_right ?_).symm
      rintro ⟨u, hu, hub, hun⟩
      exact hno u hu hub hun

/-- Every call of head that names something head defines leads into head, and so does every edge of such a call,
exactly when each of these calls has a symbol of its name in its own content, or head sees the least symbol of the
name that was known when the call was matched. -/
theorem leads_into_head_iff :
    (CallsLeadIn ix₂ rev₂ ↔ ∀ c ∈ ix₂.calls, ix₂.visibleAt rev₂ c.fileId c.blob = true → DefinedAt ix₂ rev₂ c.name →
      DefinesOwn ix₂ c ∨ SeesLeast ix₂ rev₂ c (knownTo ix₁ ix₂ c)) ∧
    (EdgesLeadIn ix₂ rev₂ ↔ ∀ c ∈ ix₂.calls, ix₂.visibleAt rev₂ c.fileId c.blob = true → DefinedAt ix₂ rev₂ c.name →
      DefinesOwn ix₂ c ∨ SeesLeast ix₂ rev₂ c (knownTo ix₁ ix₂ c)) := by
  have hfilled : Filled ix₂ := .run (.run .empty h₁) h₂
  have hcalls : CallsLeadIn ix₂ rev₂ ↔ ∀ c ∈ ix₂.calls, ix₂.visibleAt rev₂ c.fileId c.blob = true →
      DefinedAt ix₂ rev₂ c.name → DefinesOwn ix₂ c ∨ SeesLeast ix₂ rev₂ c (knownTo ix₁ ix₂ c) := by
    constructor
    · intro h c hc hvis hdef
      exact (leadsInto_head_iff h₁ h₂ hc hvis hdef).mp (h c hc hvis hdef)
    · intro h c hc hvis hdef
      exact (leadsInto_head_iff h₁ h₂ hc hvis hdef).mpr (h c hc hvis hdef)
  exact ⟨hcalls, (hfilled.sound.edgesLeadIn_iff hfilled.settled).trans hcalls⟩

end

/-! ## Two histories -/

/-- A base with a file that defines `f`. -/
def laterBase : Index := ({} : Index).takeRoot "base" none [definingFile "lib.py" 0]

/-- A head with a file that calls `f` beside it. -/
def laterHead : Index := laterBase.takeRoot "head" (some "base") [definingFile "lib.py" 0, callingFile]

/-- A call that comes with head leads into head: head sees the least symbol of its name. -/
theorem later_call_leads_into_head : ∃ (o₁ o₂ : BuildOptions) (w₁ w₁' w₂ w₂' : Workspace) (ix₁ ix₂ : Index),
      ({} : Index).addRepository ⟨"/", []⟩ "base" none o₁ w₁ = (.ok ix₁, w₁') ∧
      ix₁.addRepository ⟨"/", []⟩ "head" (some "base") o₂ w₂ = (.ok ix₂, w₂') ∧
      (∃ c ∈ ix₂.calls, ix₂.visibleAt "head" c.fileId c.blob = true ∧ DefinedAt ix₂ "head" c.name) ∧
      CallsLeadIn ix₂ "head" ∧ EdgesLeadIn ix₂ "head" := by
  have hfacts : canTake {} "base" none [definingFile "lib.py" 0] = true ∧
      canTake laterBase "head" (some "base") [definingFile "lib.py" 0, callingFile] = true ∧
      (∃ c ∈ laterHead.calls, laterHead.visibleAt "head" c.fileId c.blob = true ∧ DefinedAt laterHead "head" c.name) ∧
      ∀ c ∈ laterHead.calls, laterHead.visibleAt "head" c.fileId c.blob = true → DefinedAt laterHead "head" c.name →
        DefinesOwn laterHead c ∨ SeesLeast laterHead "head" c (knownTo laterBase laterHead c) := by
    decide +kernel
  obtain ⟨hbase, hhead, hcall, hcond⟩ := hfacts
  obtain ⟨w₁, h₁⟩ := takeRoot_run (by decide +kernel) hbase
  obtain ⟨w₂, h₂⟩ := takeRoot_run (by decide +kernel) hhead
  have hiff := leads_into_head_iff h₁ h₂
  exact ⟨_, _, _, w₁, _, w₂, laterBase, laterHead, h₁, h₂, hcall, hiff.1.mpr hcond, hiff.2.mpr hcond⟩

/-- A base with a call of `f` and its definition. -/
def movedBase : Index := ({} : Index).takeRoot "base" none [definingFile "lib.py" 0, callingFile]

/-- A head whose definition of `f` has a blank after it. -/
def movedHead : Index := movedBase.takeRoot "head" (some "base") [definingFile "lib.py" 1, callingFile]

/-- After two runs, head has a call that leads to the old definition of `f`, which head does not see, though it sees
the new one. -/
theorem call_leads_out_of_head : ∃ (o₁ o₂ : BuildOptions) (w₁ w₁' w₂ w₂' : Workspace) (ix₁ ix₂ : Index),
      ({} : Index).addRepository ⟨"/", []⟩ "base" none o₁ w₁ = (.ok ix₁, w₁') ∧
      ix₁.addRepository ⟨"/", []⟩ "head" (some "base") o₂ w₂ = (.ok ix₂, w₂') ∧
      ∃ c ∈ ix₂.calls, ix₂.visibleAt "head" c.fileId c.blob = true ∧ DefinedAt ix₂ "head" c.name ∧
        ¬ LeadsInto ix₂ "head" c := by
  have hfacts : canTake {} "base" none [definingFile "lib.py" 0, callingFile] = true ∧
      canTake movedBase "head" (some "base") [definingFile "lib.py" 1, callingFile] = true ∧
      ∃ c ∈ movedHead.calls, movedHead.visibleAt "head" c.fileId c.blob = true ∧ DefinedAt movedHead "head" c.name ∧
        ¬ LeadsInto movedHead "head" c := by
    decide +kernel
  obtain ⟨hbase, hhead, hout⟩ := hfacts
  obtain ⟨w₁, h₁⟩ := takeRoot_run (by decide +kernel) hbase
  obtain ⟨w₂, h₂⟩ := takeRoot_run (by decide +kernel) hhead
  exact ⟨_, _, _, w₁, _, w₂, movedBase, movedHead, h₁, h₂, hout⟩

end PatchReview.Index
