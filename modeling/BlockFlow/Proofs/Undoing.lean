import BlockFlow.Proofs.Removal

/-!
Edits that cancel out. Where caches tell the edges, a flow is known by what it is without them. So two ways to edit it lead
to the same flow as soon as they agree on the edges and on the blocks, whatever each of them does to the caches.

* `Flow.bare`, `Flow.Mirrored.ext`: a flow without its caches, which tells the flow.
* `Flow.Exact.removeEdge_link`: **an edge that comes and goes leaves no trace.**
* `Flow.removeEdges`, `Flow.Exact.dropBlock_removeEdges`: **a block leaves as if its edges had left before it.**
* `Workspace.Tidy`: caches are exact and the coming marks are unused; every step of an edit keeps it so.
* `Canvas.edits_undone`: both laws in every workspace that edits lead to.
-/

namespace BlockFlow

/-- A block that remembers nothing. -/
def Block.bare (b : Block) : Block := { b with cache := {} }

namespace Flow

variable {f g : Flow} {e : Edge} {q : Value}

/-! ## Flows without their caches -/

/-- A flow whose blocks remember nothing. -/
def bare (f : Flow) : Flow := { f with blocks := f.blocks.map Block.bare }

/-- Where caches tell the edges, they can be filled in again. -/
theorem Mirrored.eq_filled (h : f.Mirrored) :
    f = { f.bare with blocks := f.bare.blocks.map fun b => { b with cache := cacheFrom f.bare.edges b.id } } := by
  have hblocks : (f.blocks.map Block.bare).map (fun b => { b with cache := cacheFrom f.edges b.id }) = f.blocks := by
    rw [List.map_map]
    refine (List.map_congr_left fun b hb => ?_).trans (List.map_id _)
    rw [Function.comp, Block.bare, ← h.caches b hb]
    rfl
  show f = { f with blocks := (f.blocks.map Block.bare).map fun b => { b with cache := cacheFrom f.edges b.id } }
  rw [hblocks]

/-- **A flow whose caches tell its edges is known by what it is without them.** -/
theorem Mirrored.ext (hf : f.Mirrored) (hg : g.Mirrored) (h : f.bare = g.bare) : f = g := by
  rw [hf.eq_filled, hg.eq_filled, h]

theorem bare_updateBlock {change : Block → Block} (h : ∀ b, (change b).bare = b.bare) (q : Value) :
    (f.updateBlock q change).bare = f.bare := by
  unfold bare updateBlock
  rw [map_modifyFirst Block.bare h]

theorem bare_link (f : Flow) (e : Edge) : (f.link e).bare = { f.bare with edges := f.edges ++ [e] } := by
  unfold link
  rw [bare_updateBlock (by intro _; rfl), bare_updateBlock (by intro _; rfl)]
  rfl

theorem bare_removeEdge (he : f.edge? q = some e) :
    (f.removeEdge q).1.bare = { f.bare with edges := f.edges.filter fun x => !x.id.equal q } := by
  unfold removeEdge
  rw [he]
  simp only
  rw [bare_updateBlock (by intro _; rfl), bare_updateBlock (by intro _; rfl)]
  rfl

theorem bare_dropBlock (f : Flow) (q : Value) :
    (f.dropBlock q).bare =
      { f.bare with
        edges := f.edges.filter fun e => !e.source.equal q && !e.target.equal q
        blocks := f.bare.blocks.filter fun b => !b.id.equal q } := by
  unfold bare dropBlock
  simp only [List.map_map, List.filter_map]
  rfl

/-! ## An edge that comes and goes -/

theorem Exact.edge?_id (h : f.Exact) (he : e ∈ f.edges) : f.edge? e.id = some e := by
  have hself : e.id.equal e.id = true := (h.edgeTexts e he).equal_iff.2 rfl
  cases hfound : f.edge? e.id with
  | none => exact absurd hself (List.find?_eq_none.1 hfound e he)
  | some x => rw [← h.eq_of_edge? hfound he hself]

theorem Exact.removeEdge (h : f.Exact) (q : Value) : (f.removeEdge q).1.Exact :=
  h.of_sublist (h.mirrored.removeEdge q fun _ he _ hx hid => h.eq_of_edge? he hx hid) (edges_removeEdge f q)

/-- **An edge that comes and goes leaves no trace**, if no other has its identifier. -/
theorem Exact.removeEdge_link (h : f.Exact) (ha : f.Admits e) (ht : e.id.IsText) (hnew : e.id ∉ f.edges.map (·.id)) :
    (f.link e).removeEdge e.id = (f, some e) := by
  have hlink : (f.link e).Exact := h.link ha ht hnew
  have hfound : (f.link e).edge? e.id = some e := hlink.edge?_id (by simp [edges_link])
  -- of the edges with the new one, all but the new one have another identifier
  have hkept : (f.link e).edges.filter (fun x => !x.id.equal e.id) = f.edges := by
    have hold : ∀ x ∈ f.edges, (!x.id.equal e.id) = true := by
      intro x hx
      rw [Bool.not_eq_true', Bool.eq_false_iff]
      intro heq
      rw [(h.edgeTexts x hx).equal_iff] at heq
      exact hnew (heq ▸ List.mem_map_of_mem hx)
    rw [edges_link, List.filter_append, List.filter_eq_self.2 hold]
    simp [ht.equal_iff.2 rfl]
  refine Prod.ext ((hlink.removeEdge e.id).mirrored.ext h.mirrored ?_) (by rw [removeEdge_snd, hfound])
  rw [bare_removeEdge hfound, hkept, bare_link]
  rfl

/-! ## A block that leaves with its edges -/

/-- The flow without edges that are taken out one after the other, by their identifiers. -/
def removeEdges (f : Flow) (edges : List Edge) : Flow := edges.foldl (fun g e => (g.removeEdge e.id).1) f

/-- Other edges of a flow stay when one is taken out. -/
theorem Exact.mem_removeEdge (h : f.Exact) {x : Edge} (he : e ∈ f.edges) (hx : x ∈ f.edges) (hne : x ≠ e) :
    x ∈ (f.removeEdge e.id).1.edges := by
  rw [edges_removeEdge_eq (h.edge?_id he)]
  refine List.mem_filter.2 ⟨hx, ?_⟩
  rw [Bool.not_eq_true', Bool.eq_false_iff]
  intro heq
  rw [(h.edgeTexts x hx).equal_iff] at heq
  exact hne (h.eq_of_id hx he heq.symm)

/-- What edges that are taken out leave: exact caches, and all but the edges of their identifiers. -/
theorem Exact.removeEdges (h : f.Exact) {edges : List Edge} (hin : ∀ e ∈ edges, e ∈ f.edges) (hd : edges.Nodup) :
    (f.removeEdges edges).Exact ∧
      (f.removeEdges edges).bare =
        { f.bare with edges := f.edges.filter fun x => edges.all fun e => !x.id.equal e.id } := by
  induction edges generalizing f with
  | nil =>
    refine ⟨h, ?_⟩
    simp [Flow.removeEdges, bare]
  | cons e rest ih =>
    obtain ⟨he, hrest⟩ := List.forall_mem_cons.1 hin
    obtain ⟨hnew, hd⟩ := List.nodup_cons.1 hd
    have hstay : ∀ x ∈ rest, x ∈ (f.removeEdge e.id).1.edges := fun x hx =>
      h.mem_removeEdge he (hrest x hx) fun heq => hnew (heq ▸ hx)
    obtain ⟨hexact, hbare⟩ := ih (h.removeEdge e.id) hstay hd
    refine ⟨hexact, ?_⟩
    change ((f.removeEdge e.id).1.removeEdges rest).bare = _
    rw [hbare, bare_removeEdge (h.edge?_id he), edges_removeEdge_eq (h.edge?_id he), List.filter_filter]
    simp only [List.all_cons, Bool.and_comm]

/-- A list of just the edges that start or end at an identifier. -/
structure Touches (f : Flow) (q : Value) (edges : List Edge) : Prop where
  distinct : edges.Nodup
  all : ∀ e, e ∈ edges ↔ e ∈ f.edges ∧ (e.source = q ∨ e.target = q)

/-- Such a list has the edges that are counted when the block is removed, in some order. -/
theorem Touches.perm (h : f.Sound) {edges : List Edge} (ht : f.Touches q edges) : edges.Perm (f.touching q) := by
  refine (List.perm_ext_iff_of_nodup ht.distinct ((List.Nodup.of_map _ h.single).filter _)).2 fun e => ?_
  rw [ht.all, List.mem_filter]
  refine and_congr_right fun he => ?_
  obtain ⟨hs, ht⟩ := h.textEnds e he
  rw [Bool.or_eq_true, hs.equal_iff, ht.equal_iff, eq_comm, @eq_comm _ e.target]

/-- With the edges that touch a block taken out, the others are left. -/
theorem Exact.edges_removeEdges (h : f.Exact) {edges : List Edge} (ht : f.Touches q edges) :
    (f.removeEdges edges).edges = f.edges.filter fun x => !x.source.equal q && !x.target.equal q := by
  obtain ⟨-, hbare⟩ := h.removeEdges (fun e he => ((ht.all e).1 he).1) ht.distinct
  have hedges : (f.removeEdges edges).edges = f.edges.filter fun x => edges.all fun e => !x.id.equal e.id :=
    congrArg Flow.edges hbare
  rw [hedges]
  refine List.filter_congr fun x hx => ?_
  obtain ⟨hs, htarget⟩ := h.sound.textEnds x hx
  -- the identifier of an edge is among those of the list just when the edge is
  have hout : (edges.all fun e => !x.id.equal e.id) = true ↔ x ∉ edges := by
    rw [List.all_eq_true]
    constructor
    · intro hnone hmem
      have hself := hnone x hmem
      rw [(h.edgeTexts x hx).equal_iff.2 rfl] at hself
      cases hself
    · intro hmem e he
      rw [Bool.not_eq_true', Bool.eq_false_iff]
      intro heq
      rw [(h.edgeTexts x hx).equal_iff] at heq
      exact hmem (h.eq_of_id ((ht.all e).1 he).1 hx heq ▸ he)
  rw [Bool.eq_iff_iff, hout, ht.all, Bool.and_eq_true, Bool.not_eq_true', Bool.not_eq_true', Bool.eq_false_iff,
    Bool.eq_false_iff, ne_eq, ne_eq, hs.equal_iff, htarget.equal_iff, and_iff_right hx, not_or, eq_comm,
    @eq_comm _ x.target]

/-- **A block leaves as if its edges had left before it**, in any order. -/
theorem Exact.dropBlock_removeEdges (h : f.Exact) {edges : List Edge} (ht : f.Touches q edges) :
    (f.removeEdges edges).dropBlock q = f.dropBlock q := by
  obtain ⟨hexact, hbare⟩ := h.removeEdges (fun e he => ((ht.all e).1 he).1) ht.distinct
  refine (hexact.mirrored.dropBlock q).ext (h.mirrored.dropBlock q) ?_
  rw [bare_dropBlock, bare_dropBlock, h.edges_removeEdges ht, List.filter_filter, hbare]
  simp only [Bool.and_self]

/-- No edge is left to be counted then. -/
theorem Exact.touching_removeEdges (h : f.Exact) {edges : List Edge} (ht : f.Touches q edges) :
    (f.removeEdges edges).touching q = [] := by
  rw [touching, h.edges_removeEdges ht, List.filter_filter]
  refine List.filter_eq_nil_iff.2 fun x _ => ?_
  cases x.source.equal q <;> cases x.target.equal q <;> simp

theorem Exact.ids_removeEdges (h : f.Exact) {edges : List Edge} (ht : f.Touches q edges) :
    (f.removeEdges edges).ids = f.ids := by
  obtain ⟨-, hbare⟩ := h.removeEdges (fun e he => ((ht.all e).1 he).1) ht.distinct
  have hblocks : (f.removeEdges edges).blocks.map Block.bare = f.blocks.map Block.bare := congrArg Flow.blocks hbare
  have hids := congrArg (List.map Block.id) hblocks
  rwa [List.map_map, List.map_map] at hids

end Flow

/-! ## Workspaces in which nothing is named twice -/

/-- The caches of the flow are exact, and none of the marks that are still to be drawn is used. -/
structure Workspace.Tidy (w : Workspace) : Prop where
  exact : w.flow.Exact
  unused : ∀ k, w.serial ≤ k → w.flow.Unused (intText k)

namespace Workspace

variable {w : Workspace}

theorem tidy_of_empty (hb : w.flow.blocks = []) (he : w.flow.edges = []) : w.Tidy :=
  ⟨Flow.exact_of_empty hb he, fun k _ => by simp [Flow.Unused, Flow.ids, hb, he]⟩

/-- The step of an edit that brings no edge of its own keeps a workspace tidy. -/
theorem Tidy.step (h : w.Tidy) {edit : Edit} (hdrawn : edit.Drawn) : (edit.step w).2.Tidy := by
  obtain ⟨hflow, hserial⟩ := Prod.mk.inj (edit.step_apply w)
  have hmarked : (edit.withMark (intText w.serial)).Drawn := by
    cases edit <;> exact hdrawn
  have hchange := Flow.perform_change w.flow (edit.withMark (intText w.serial))
  refine ⟨?_, fun k hk => ?_⟩
  · rw [hflow]
    refine h.exact.change hmarked hchange fun m hm => ?_
    rw [mark?_withMark] at hm
    split at hm
    · obtain rfl := Option.some.inj hm
      exact h.unused _ (Nat.le_refl _)
    · cases hm
  · rw [hserial] at hk
    rw [hflow]
    refine (h.unused k (by split at hk <;> omega)).change hmarked hchange ?_
    rw [mark?_withMark]
    split
    · rename_i hmark
      rw [if_pos hmark] at hk
      intro heq
      have := intText_inj (Option.some.inj heq)
      omega
    · exact nofun

/-- **Edits keep a workspace tidy.** -/
theorem Tidy.stepAll (h : w.Tidy) {edits : List Edit} (hdrawn : ∀ edit ∈ edits, edit.Drawn) : (w.stepAll edits).Tidy := by
  induction edits generalizing w with
  | nil => exact h
  | cons edit edits ih =>
    obtain ⟨hedit, hrest⟩ := List.forall_mem_cons.1 hdrawn
    exact ih (h.step hedit) hrest

/-- The edge that a connection made next would add. -/
def nextEdge (w : Workspace) (source target : Value) : Edge :=
  { id := drawnId "edge" (intText w.serial), source, target }

end Workspace

namespace Canvas

open Workspace (nextEdge)

variable {w : Workspace} {q : Value}

/-! ## Steps and what they give -/

theorem connect_fst (source target : Value) (w : Workspace) :
    (connect source target w).1 =
      (w.flow.addEdge (w.nextEdge source target)).map fun _ => w.nextEdge source target := by
  have hnew : newEdge source target w = (.ok (w.nextEdge source target), { w with serial := w.serial + 1 }) := by
    simp [newEdge, Act.map_apply, nextEdge]
  have hadd := addEdge_fst (w.nextEdge source target) { w with serial := w.serial + 1 }
  rw [connect, Act.bind_apply, hnew]
  simp only [Act.bind_apply]
  cases hstep : addEdge (w.nextEdge source target) { w with serial := w.serial + 1 } with
  | mk outcome w' =>
    rw [hstep] at hadd
    simp only at hadd
    subst hadd
    cases w.flow.addEdge (w.nextEdge source target) <;> rfl

theorem connect_snd (source target : Value) (w : Workspace) :
    ((connect source target w).2.flow, (connect source target w).2.serial) =
      (w.flow.settle (w.flow.addEdge (w.nextEdge source target)), w.serial + 1) := by
  rw [connect_apply, addEdge_apply]
  rfl

theorem removeEdge_apply (q : Value) (w : Workspace) :
    ∃ w', removeEdge q w = (.ok (w.flow.removeEdge q).2, w') ∧ w'.flow = (w.flow.removeEdge q).1 ∧ w'.serial = w.serial := by
  rw [removeEdge, Act.bind_apply, Work.flow_apply]
  dsimp only
  rcases hremoved : w.flow.removeEdge q with ⟨f, _ | e⟩
  · refine ⟨w, rfl, ?_, rfl⟩
    have hfound : w.flow.edge? q = none := by rw [← Flow.removeEdge_snd, hremoved]
    rw [← hremoved, Flow.removeEdge_none hfound]
  · exact ⟨_, rfl, rfl, rfl⟩

theorem removeBlock_apply {b : Block} (h : w.flow.block? q = some b) :
    ∃ w', removeBlock q w = (.ok (w.flow.touching q).length, w') ∧ w'.flow = w.flow.dropBlock q := by
  have hremoved : w.flow.removeBlock q = (w.flow.dropBlock q, some (w.flow.touching q).length) := by
    rw [Flow.removeBlock, h]
  rw [removeBlock, Act.bind_apply, Work.flow_apply]
  dsimp only
  rw [hremoved]
  exact ⟨_, rfl, rfl⟩

/-- Removes edges one after the other by their identifiers, and then a block. -/
def unwire (edges : List Edge) (q : Value) : Work (List (Option Edge) × Nat) := do
  let gone ← edges.mapM fun e => removeEdge e.id
  return (gone, ← removeBlock q)

theorem mapM_removeEdge (h : w.flow.Exact) {edges : List Edge} (hin : ∀ e ∈ edges, e ∈ w.flow.edges) (hd : edges.Nodup) :
    ∃ w', (edges.mapM fun e => removeEdge e.id) w = (.ok (edges.map some), w') ∧ w'.flow = w.flow.removeEdges edges := by
  induction edges generalizing w with
  | nil => exact ⟨w, rfl, rfl⟩
  | cons e rest ih =>
    obtain ⟨he, hrest⟩ := List.forall_mem_cons.1 hin
    obtain ⟨hnew, hd⟩ := List.nodup_cons.1 hd
    obtain ⟨w₁, hstep, hflow, -⟩ := removeEdge_apply e.id w
    rw [Flow.removeEdge_snd, h.edge?_id he] at hstep
    obtain ⟨w₂, hmore, hflow₂⟩ := ih (w := w₁) (by rw [hflow]; exact h.removeEdge e.id)
      (fun x hx => by rw [hflow]; exact h.mem_removeEdge he (hrest x hx) fun heq => hnew (heq ▸ hx)) hd
    refine ⟨w₂, ?_, ?_⟩
    · simp only [List.mapM_cons, Act.bind_apply, hstep, hmore]
      rfl
    · rw [hflow₂, hflow]
      rfl

/-! ## Both laws in a tidy workspace -/

/-- A connection that is taken out again leaves the flow as it was. -/
theorem removeEdge_connect (h : w.Tidy) {source target : Value} {e : Edge} {v : Workspace}
    (hconnect : connect source target w = (.ok e, v)) :
    ∃ v', removeEdge e.id v = (.ok (some e), v') ∧ v'.flow = w.flow := by
  have houtcome := connect_fst source target w
  obtain ⟨hflow, -⟩ := Prod.mk.inj (connect_snd source target w)
  rw [hconnect] at houtcome hflow
  cases hadded : w.flow.addEdge (w.nextEdge source target) with
  | error fault =>
    rw [hadded] at houtcome
    cases houtcome
  | ok f =>
    rw [hadded] at houtcome hflow
    obtain rfl : e = w.nextEdge source target := Except.ok.inj houtcome
    obtain ⟨hadmits, rfl⟩ := Flow.addEdge_eq_ok.1 hadded
    have hundone := h.exact.removeEdge_link hadmits ⟨_, rfl⟩ (h.unused _ (Nat.le_refl _)).2
    obtain ⟨v', hstep, hback, -⟩ := removeEdge_apply (w.nextEdge source target).id v
    have hv : v.flow = w.flow.link (w.nextEdge source target) := hflow
    rw [hv, hundone] at hstep hback
    exact ⟨v', hstep, hback⟩

/-- A block that is removed takes its edges with it as if they had been removed before. -/
theorem removeBlock_unwire (h : w.Tidy) (hq : q ∈ w.flow.ids) {edges : List Edge} (ht : w.flow.Touches q edges) :
    ∃ v v', removeBlock q w = (.ok edges.length, v) ∧ unwire edges q w = (.ok (edges.map some, 0), v') ∧
      v'.flow = v.flow := by
  obtain ⟨b, hb⟩ := Option.isSome_iff_exists.1 ((Flow.block?_isSome h.exact.sound.texts).2 hq)
  obtain ⟨v, hremoved, hv⟩ := removeBlock_apply hb
  obtain ⟨w₁, hgone, hw₁⟩ := mapM_removeEdge h.exact (fun e he => ((ht.all e).1 he).1) ht.distinct
  -- the block is still there when its edges are gone
  have hids : w₁.flow.ids = w.flow.ids := by rw [hw₁, h.exact.ids_removeEdges ht]
  obtain ⟨b', hb'⟩ : ∃ b', w₁.flow.block? q = some b' :=
    Option.isSome_iff_exists.1 ((Flow.block?_isSome (by rw [hids]; exact h.exact.sound.texts)).2 (by rwa [hids]))
  obtain ⟨v', hlast, hv'⟩ := removeBlock_apply hb'
  rw [hw₁, h.exact.touching_removeEdges ht] at hlast
  refine ⟨v, v', ?_, ?_, ?_⟩
  · rw [hremoved, (ht.perm h.exact.sound).length_eq]
  · simp only [unwire, Act.bind_apply, hgone, hlast]
    rfl
  · rw [hv', hv, hw₁, h.exact.dropBlock_removeEdges ht]

/-- **Edits that cancel out.** Whatever edits an empty flow has come through, whether they were carried out or refused, as
long as edges only come through connections: a connection that is made and taken out again by its identifier leaves the
flow just as it was; and a block that is removed tells the number of the edges at it, and leaves the same flow as if these
edges had been removed before it, in any order. -/
theorem edits_undone {id : Value} {edits : List Edit} (hdrawn : ∀ edit ∈ edits, edit.Drawn) {w : Workspace}
    (hw : w.flow = { id }) :
    (∀ source target e v, connect source target (w.stepAll edits) = (.ok e, v) →
      ∃ v', removeEdge e.id v = (.ok (some e), v') ∧ v'.flow = (w.stepAll edits).flow) ∧
      ∀ q ∈ (w.stepAll edits).flow.ids, ∀ order, (w.stepAll edits).flow.Touches q order →
        ∃ v v', removeBlock q (w.stepAll edits) = (.ok order.length, v) ∧
          unwire order q (w.stepAll edits) = (.ok (order.map some, 0), v') ∧ v'.flow = v.flow := by
  have hempty : w.Tidy := Workspace.tidy_of_empty (by rw [hw]) (by rw [hw])
  have htidy : (w.stepAll edits).Tidy := hempty.stepAll hdrawn
  refine ⟨?_, ?_⟩
  · intro source target e v hconnect
    exact removeEdge_connect htidy hconnect
  · intro q hq order htouches
    exact removeBlock_unwire htidy hq htouches

/-- A block with edges to two others. -/
def fan : List Edit :=
  [.addBlock "" (.text "variable") .null, .addBlock "" (.text "return") .null, .addBlock "" (.text "return") .null,
    .connect "" (.text "block-1") (.text "block-2"), .connect "" (.text "block-1") (.text "block-3")]

/-- An edge of the fan, by its mark and the block that it leads to. -/
def rib (mark target : String) : Edge :=
  { id := drawnId "edge" mark, source := .text "block-1", target := .text target }

/-- The workspace in which the fan was drawn. -/
def fanned : Workspace := Workspace.stepAll { flow := { id := .text "flow-1" } } fan

theorem drawn_fan : ∀ edit ∈ fan, edit.Drawn := by simp [fan, Edit.Drawn]

theorem fanned_flow :
    fanned.flow.ids = [.text "block-1", .text "block-2", .text "block-3"] ∧
      fanned.flow.edges = [rib "4" "block-2", rib "5" "block-3"] := by
  have hblocks : (Flow.performAll { id := .text "flow-1" } ((numbered 1 fan).take 3)).Sound :=
    Flow.sound_performAll rfl rfl (by decide)
  generalize hf : Flow.performAll { id := .text "flow-1" } ((numbered 1 fan).take 3) = f at hblocks
  have hids : f.ids = [.text "block-1", .text "block-2", .text "block-3"] := by rw [← hf]; rfl
  have hedges : f.edges = [] := by rw [← hf]; rfl
  have hfirst : f.addEdge (rib "4" "block-2") = .ok (f.link (rib "4" "block-2")) :=
    hblocks.addEdge_of_end (by simp [hids, rib]) (by simp [hids, rib]) (by simp [Flow.pairs, hedges]) (by simp [rib])
      (by simp [hedges])
  have hlinked := hblocks.link (Flow.addEdge_eq_ok.1 hfirst).1
  have hsecond := hlinked.addEdge_of_end (e := rib "5" "block-3") (by simp [Flow.ids_link, hids, rib])
    (by simp [Flow.ids_link, hids, rib]) (by simp [Flow.pairs, Flow.edges_link, hedges, rib]) (by simp [rib])
    (by simp [Flow.edges_link, hedges, rib])
  have hrun : fanned.flow = (f.settle (f.addEdge (rib "4" "block-2"))).settle
      ((f.settle (f.addEdge (rib "4" "block-2"))).addEdge (rib "5" "block-3")) := by
    rw [fanned, Workspace.stepAll_flow, ← hf]
    rfl
  rw [hrun, hfirst, Flow.settle, hsecond, Flow.settle, Flow.ids_link, Flow.ids_link, hids, Flow.edges_link,
    Flow.edges_link, hedges]
  exact ⟨rfl, rfl⟩

/-- The block in the middle of the fan takes two edges with it; an edge between the others comes and goes. -/
theorem edits_undone_fan :
    (∀ edit ∈ fan, edit.Drawn) ∧
      (∃ e v v', connect (.text "block-2") (.text "block-3") fanned = (.ok e, v) ∧
        removeEdge e.id v = (.ok (some e), v') ∧ v'.flow = fanned.flow) ∧
      ∃ v v', removeBlock (.text "block-1") fanned = (.ok 2, v) ∧
        unwire [rib "5" "block-3", rib "4" "block-2"] (.text "block-1") fanned =
          (.ok ([some (rib "5" "block-3"), some (rib "4" "block-2")], 0), v') ∧ v'.flow = v.flow := by
  obtain ⟨hids, hedges⟩ := fanned_flow
  have hundone := edits_undone drawn_fan (w := { flow := { id := .text "flow-1" } }) rfl
  refine ⟨drawn_fan, ?_, hundone.2 (.text "block-1") ?_ [rib "5" "block-3", rib "4" "block-2"] ⟨?_, ?_⟩⟩
  · have hsound : fanned.flow.Sound := (Workspace.Tidy.stepAll (Workspace.tidy_of_empty rfl rfl) drawn_fan).exact.sound
    have hadded := hsound.addEdge_of_end (e := fanned.nextEdge (.text "block-2") (.text "block-3"))
      (by simp [hids, nextEdge]) (by simp [hids, nextEdge]) (by simp [Flow.pairs, hedges, nextEdge, rib])
      (by simp [nextEdge]) (by simp [hedges, nextEdge, rib])
    have hok := connect_fst (.text "block-2") (.text "block-3") fanned
    rw [hadded] at hok
    obtain ⟨v', hgone, hback⟩ := hundone.1 (.text "block-2") (.text "block-3") _ _ (Prod.ext hok rfl)
    exact ⟨_, _, v', Prod.ext hok rfl, hgone, hback⟩
  · change _ ∈ fanned.flow.ids
    simp [hids]
  · simp [rib]
  · intro e
    change _ ↔ e ∈ fanned.flow.edges ∧ _
    rw [hedges]
    constructor
    · intro he
      rcases List.mem_cons.1 he with rfl | he
      · exact ⟨by simp, Or.inl rfl⟩
      · obtain rfl := List.mem_singleton.1 he
        exact ⟨by simp, Or.inl rfl⟩
    · rintro ⟨he, -⟩
      exact List.mem_reverse.2 he

end Canvas

end BlockFlow
