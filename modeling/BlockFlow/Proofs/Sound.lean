import BlockFlow.Proofs.Steps

/-!
Sound flows. Whatever is asked of a flow that starts empty, in any order and also where it is refused, leaves it sound:
every identifier names one block, edges run between blocks that are there, no pair is connected twice, and there is no
circle.

* `Flow.Sound`: the four conditions, and that identifiers are texts.
* `Flow.Sound.addBlock`, `Flow.Sound.dropBlock`, `Flow.Sound.link`, `Flow.Sound.removeEdge`: each way to change a flow keeps
  it sound.
* `Flow.Sound.change`: so does an edit whose mark is new; `Flow.Sound.stages`, `Flow.Sound.performAll`: and so do many.
-/

namespace BlockFlow

namespace Flow

/-- A sound flow. -/
structure Sound (f : Flow) : Prop where
  /-- Identifiers of blocks are texts. -/
  texts : ∀ v ∈ f.ids, v.IsText
  /-- No two blocks share an identifier. -/
  distinct : f.ids.Nodup
  /-- Every edge starts and ends at a block of the flow. -/
  ends : ∀ e ∈ f.edges, e.source ∈ f.ids ∧ e.target ∈ f.ids
  /-- No ordered pair is connected twice. -/
  single : f.pairs.Nodup
  /-- No identifier reaches itself along edges. -/
  acyclic : f.Acyclic

variable {f g : Flow} {e : Edge} {id : Value}

/-! ## Looking things up -/

theorem mem_ids {v : Value} : v ∈ f.ids ↔ ∃ b ∈ f.blocks, b.id = v := by
  simp [ids]

theorem block?_isSome (h : ∀ v ∈ f.ids, v.IsText) {v : Value} : (f.block? v).isSome ↔ v ∈ f.ids := by
  rw [block?, List.find?_isSome, mem_ids]
  constructor
  · rintro ⟨b, hb, heq⟩
    exact ⟨b, hb, ((h b.id (List.mem_map_of_mem hb)).equal_iff.1 heq).symm⟩
  · rintro ⟨b, hb, rfl⟩
    exact ⟨b, hb, (h b.id (List.mem_map_of_mem hb)).equal_iff.2 rfl⟩

/-- A pair of texts without an edge is not among the pairs. -/
theorem not_mem_pairs {s t : Value} (hs : s.IsText) (ht : t.IsText) (h : f.between? s t = none) :
    (s, t) ∉ f.pairs := by
  intro hmem
  obtain ⟨x, hx, heq⟩ := List.mem_map.1 hmem
  obtain ⟨rfl, rfl⟩ := Prod.mk.inj heq
  have := List.find?_eq_none.1 h x hx
  simp [hs.equal_iff.2 rfl, ht.equal_iff.2 rfl] at this

/-! ## Identifiers and edges after a change -/

theorem ids_addBlock (f : Flow) (id type position : Value) : (f.addBlock id type position).ids = f.ids ++ [id] := by
  simp [addBlock, ids, Block.fresh]

theorem ids_dropBlock (f : Flow) (id : Value) : (f.dropBlock id).ids = f.ids.filter fun v => !v.equal id := by
  simp [dropBlock, ids, List.filter_map, Function.comp_def]

theorem edges_link (f : Flow) (e : Edge) : (f.link e).edges = f.edges ++ [e] := rfl

theorem ids_link (f : Flow) (e : Edge) : (f.link e).ids = f.ids := by
  unfold link
  rw [ids_updateBlock (by intro _; rfl), ids_updateBlock (by intro _; rfl)]
  rfl

theorem ids_removeEdge (f : Flow) (id : Value) : (f.removeEdge id).1.ids = f.ids := by
  unfold removeEdge
  split
  · rfl
  · rw [ids_updateBlock (by intro _; rfl), ids_updateBlock (by intro _; rfl)]
    rfl

theorem edges_removeEdge (f : Flow) (id : Value) : (f.removeEdge id).1.edges.Sublist f.edges := by
  unfold removeEdge
  split
  · exact List.Sublist.refl _
  · exact List.filter_sublist

/-! ## The empty flow, and what keeps a flow sound -/

theorem sound_of_empty (hb : f.blocks = []) (he : f.edges = []) : f.Sound := by
  refine ⟨by simp [ids, hb], by simp [ids, hb], by simp [he], by simp [pairs, he], ?_⟩
  intro v hv
  obtain ⟨w, ⟨e, hmem, -⟩, -⟩ := Relation.TransGen.head'_iff.1 hv
  simp [he] at hmem

namespace Sound

theorem textEnds (h : f.Sound) : f.TextEnds := fun e he =>
  ⟨h.texts _ (h.ends e he).1, h.texts _ (h.ends e he).2⟩

/-- Soundness is a matter of identifiers and edges. -/
theorem congr (h : f.Sound) (hids : g.ids = f.ids) (hedges : g.edges = f.edges) : g.Sound := by
  refine ⟨?_, ?_, ?_, ?_, ?_⟩
  · rw [hids]; exact h.texts
  · rw [hids]; exact h.distinct
  · rw [hids, hedges]; exact h.ends
  · rw [pairs, hedges]; exact h.single
  · exact h.acyclic.mono fun e he => by rwa [hedges] at he

/-- A flow stays sound when blocks and edges leave it, as long as every edge keeps its ends. -/
theorem shrink (h : f.Sound) (hids : g.ids.Sublist f.ids) (hedges : g.edges.Sublist f.edges)
    (hends : ∀ e ∈ g.edges, e.source ∈ g.ids ∧ e.target ∈ g.ids) : g.Sound :=
  ⟨fun v hv => h.texts v (hids.subset hv), h.distinct.sublist hids, hends, h.single.sublist (hedges.map _),
    h.acyclic.mono fun _ he => hedges.subset he⟩

theorem addBlock (h : f.Sound) {mark : String} (hnew : drawnId "block" mark ∉ f.ids) (type position : Value) :
    (f.addBlock (drawnId "block" mark) type position).Sound := by
  have hids := ids_addBlock f (drawnId "block" mark) type position
  refine ⟨?_, ?_, ?_, h.single, h.acyclic⟩
  · rw [hids]
    intro v hv
    rcases List.mem_append.1 hv with hv | hv
    · exact h.texts v hv
    · obtain rfl := List.mem_singleton.1 hv
      exact ⟨_, rfl⟩
  · rw [hids]
    refine List.nodup_append.2 ⟨h.distinct, by simp, ?_⟩
    rintro a ha b hb rfl
    obtain rfl := List.mem_singleton.1 hb
    exact hnew ha
  · rw [hids]
    intro e he
    obtain ⟨hs, ht⟩ := h.ends e he
    exact ⟨List.mem_append_left _ hs, List.mem_append_left _ ht⟩

theorem dropBlock (h : f.Sound) (id : Value) : (f.dropBlock id).Sound := by
  refine h.shrink ?_ List.filter_sublist ?_
  · rw [ids_dropBlock]
    exact List.filter_sublist
  · rw [ids_dropBlock]
    intro e he
    obtain ⟨he, hkeep⟩ := List.mem_filter.1 he
    rw [Bool.and_eq_true] at hkeep
    obtain ⟨hs, ht⟩ := h.ends e he
    exact ⟨List.mem_filter.2 ⟨hs, hkeep.1⟩, List.mem_filter.2 ⟨ht, hkeep.2⟩⟩

theorem clear (f : Flow) : f.clear.Sound := sound_of_empty rfl rfl

theorem removeEdge (h : f.Sound) (id : Value) : (f.removeEdge id).1.Sound := by
  have hsub := edges_removeEdge f id
  refine h.shrink ?_ hsub ?_
  · rw [ids_removeEdge]
  · rw [ids_removeEdge]
    exact fun e he => h.ends e (hsub.subset he)

theorem rebuild (h : f.Sound) : f.rebuild.1.Sound := h.congr (ids_rebuild f) (edges_rebuild f)

end Sound

/-- An edge that is let in keeps a flow sound. -/
theorem Sound.link (h : f.Sound) (ha : f.Admits e) : (f.link e).Sound := by
  have hs : e.source ∈ f.ids := (block?_isSome h.texts).1 ha.source
  have ht : e.target ∈ f.ids := (block?_isSome h.texts).1 ha.target
  have hends : ∀ x ∈ (f.pushEdge e).edges, x.source ∈ f.ids ∧ x.target ∈ f.ids := by
    intro x hx
    rcases List.mem_append.1 hx with hx | hx
    · exact h.ends x hx
    · obtain rfl := List.mem_singleton.1 hx
      exact ⟨hs, ht⟩
  have hpush : (f.pushEdge e).Sound := by
    refine ⟨h.texts, h.distinct, hends, ?_, ?_⟩
    · have hpairs : (f.pushEdge e).pairs = f.pairs ++ [(e.source, e.target)] := by simp [pairs, pushEdge]
      rw [hpairs]
      refine List.nodup_append.2 ⟨h.single, by simp, ?_⟩
      rintro a ha' b hb rfl
      obtain rfl := List.mem_singleton.1 hb
      exact not_mem_pairs (h.texts _ hs) (h.texts _ ht) ha.unconnected ha'
    · refine h.acyclic.pushEdge fun hc => ?_
      obtain ⟨found, hfound, hiff⟩ := wouldCycle_spec (f := f) (e := e) fun x hx =>
        ⟨h.texts _ (hends x hx).1, h.texts _ (hends x hx).2⟩
      rw [ha.uncircled] at hfound
      obtain rfl : false = found := Except.ok.inj hfound
      simpa using hiff.2 hc
  exact hpush.congr (ids_link f e) (edges_link f e)

/-! ## Edits -/

theorem drawnId_inj {sort m n : String} : drawnId sort m = drawnId sort n ↔ m = n := by
  simp [drawnId]

/-- What an edit with a new mark makes of a sound flow is sound. -/
theorem Sound.change (h : f.Sound) {edit : Edit} (hc : f.Change edit g)
    (hnew : ∀ m, edit.mark? = some m → drawnId "block" m ∉ f.ids) : g.Sound := by
  cases hc with
  | alike ha => exact h.congr (by rw [ids_eq_joints, ids_eq_joints, ha.1]) ha.2
  | caches => exact h.rebuild
  | block type position hm => exact h.addBlock (hnew _ hm) type position
  | dropped id => exact h.dropBlock id
  | cleared => exact Sound.clear f
  | linked _ ha => exact h.link ha
  | unlinked id => exact h.removeEdge id

/-- The blocks after an edit are old ones, and the one that was drawn for it. -/
theorem Change.ids {edit : Edit} (hc : f.Change edit g) {v : Value} (hv : v ∈ g.ids) :
    v ∈ f.ids ∨ ∃ m, edit.mark? = some m ∧ v = drawnId "block" m := by
  cases hc with
  | alike ha =>
    rw [ids_eq_joints, ha.1, ← ids_eq_joints] at hv
    exact Or.inl hv
  | caches =>
    rw [ids_rebuild] at hv
    exact Or.inl hv
  | block type position hm =>
    rw [ids_addBlock] at hv
    rcases List.mem_append.1 hv with hv | hv
    · exact Or.inl hv
    · exact Or.inr ⟨_, hm, List.mem_singleton.1 hv⟩
  | dropped id =>
    rw [ids_dropBlock] at hv
    exact Or.inl (List.mem_filter.1 hv).1
  | cleared => simp [Flow.ids, clear] at hv
  | linked _ _ =>
    rw [ids_link] at hv
    exact Or.inl hv
  | unlinked id =>
    rw [ids_removeEdge] at hv
    exact Or.inl hv

/-- A mark that names no block names none until it is drawn. -/
theorem Change.notMem_ids {edit : Edit} (hc : f.Change edit g) {m : String} (hm : drawnId "block" m ∉ f.ids)
    (hne : edit.mark? ≠ some m) : drawnId "block" m ∉ g.ids := by
  intro hmem
  rcases hc.ids hmem with hold | ⟨n, hn, heq⟩
  · exact hm hold
  · rw [drawnId_inj.1 heq] at hne
    exact hne hn

/-- **Edits keep a flow sound** all the way if their marks are distinct and name none of its blocks. -/
theorem Sound.stages (h : f.Sound) {edits : List Edit} (hmarks : (marks edits).Nodup)
    (hnew : ∀ m ∈ marks edits, drawnId "block" m ∉ f.ids) : ∀ g ∈ f.stages edits, g.Sound :=
  stages_induction Sound (fun _ => True) (fun _ => True) (fun f m => drawnId "block" m ∉ f.ids)
    (fun hf _ _ hc hm => hf.change hc hm) (fun _ hc hm hne => hc.notMem_ids hm hne) (fun _ _ => trivial) hmarks hnew
    (fun _ _ => trivial) h

theorem Sound.performAll (h : f.Sound) {edits : List Edit} (hmarks : (marks edits).Nodup)
    (hnew : ∀ m ∈ marks edits, drawnId "block" m ∉ f.ids) : (f.performAll edits).Sound :=
  h.stages hmarks hnew _ (performAll_mem_stages f edits)

/-- Edits of an empty flow make a sound one. -/
theorem sound_performAll (hb : f.blocks = []) (he : f.edges = []) {edits : List Edit} (hfresh : (marks edits).Nodup) :
    (f.performAll edits).Sound :=
  (sound_of_empty hb he).performAll hfresh (by simp [ids, hb])

/-- **Every run of edits of an empty flow ends in a sound flow**, if the marks drawn in it are fresh, as those are that are
drawn in a workspace. -/
theorem sound_after_edits (id : Value) (edits : List Edit) :
    ((marks edits).Nodup → (performAll { id } edits).Sound) ∧
      ∀ w : Workspace, w.flow = { id } → (w.stepAll edits).flow.Sound := by
  refine ⟨sound_performAll rfl rfl, fun w hw => ?_⟩
  rw [Workspace.stepAll_flow, hw]
  exact sound_performAll rfl rfl (marks_numbered w.serial edits)

/-- Edits of all sorts, some of which are refused: a connection back, a pair again under an identifier of its own, a key
that is a list, a position that is none. Two blocks and a connection between them are left. -/
def tour : List Edit :=
  [.addBlock "0" (.text "return") .null, .clear, .addBlock "1" (.text "variable") .null,
    .addBlock "2" (.text "return") (.tuple []), .connect "3" (.text "block-1") (.text "block-2"),
    .connect "4" (.text "block-2") (.text "block-1"),
    .addEdge { id := .int 7, source := .text "block-1", target := .text "block-2" },
    .setParam (.text "block-1") (.list []) .null, .move (.text "block-2") (.text "a"), .rebuild,
    .amend (.text "block-1") none (some (.dict [(.text "name", .text "x")])), .removeEdge (.text "edge-3"),
    .addBlock "5" (.text "return") .null, .connect "6" (.text "block-1") (.text "block-5"),
    .removeBlock (.text "block-2")]

theorem sound_after_tour : (marks tour).Nodup ∧ (performAll { id := .text "flow-1" } tour).Sound :=
  ⟨by decide, (sound_after_edits _ _).1 (by decide)⟩

end Flow

end BlockFlow
