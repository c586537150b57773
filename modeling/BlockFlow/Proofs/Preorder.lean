import BlockFlow.Proofs.Forest
import BlockFlow.Proofs.Recursion

/-!
Scripts of forests. Emission writes the trees of a forest one after the other, each block before its children, and goes one
level deeper below a block with a body. What has been visited never gets in the way, since no block is in the trees twice.

* `Script.Node.depths`: the blocks whose code nodes are, each with the depth of its node.
* `Flow.Renders`: a run of emission that has written blocks in an order, each as deep as it belongs.
* `Flow.renders_emit`, `Flow.depths_emitBody`: trees that follow one another, and trees in a body.
* `Flow.Forest.renders_tree`: **emission writes a tree in preorder**, by induction over the tree.
* `Work.build_forest`: the script of a forest holds the trees of its roots in preorder.
-/

namespace BlockFlow

open Script

namespace Script

/-! ## Blocks with their depth -/

namespace Node

/-- The blocks whose code the nodes are, each with the depth of its node. -/
def depths (depth : Int) (nodes : List Node) : List (Value × Int) :=
  (walkAll depth nodes).filterMap fun place => place.1.blockId?.map (·, place.2)

theorem walkAll_append (depth : Int) (xs ys : List Node) :
    walkAll depth (xs ++ ys) = walkAll depth xs ++ walkAll depth ys := by
  induction xs with
  | nil => rfl
  | cons x xs ih => simp [walkAll, ih]

@[simp] theorem depths_nil (depth : Int) : depths depth [] = [] := rfl

theorem depths_append (depth : Int) (xs ys : List Node) : depths depth (xs ++ ys) = depths depth xs ++ depths depth ys := by
  simp [depths, walkAll_append]

theorem map_depths (depth : Int) (nodes : List Node) : (depths depth nodes).map (·.1) = idsOf nodes := by
  rw [idsOf, ← map_walkAll depth, List.filterMap_map, depths, List.map_filterMap]
  simp [Function.comp_def]

theorem mem_depths {depth d : Int} {nodes : List Node} {node : Node} {v : Value} (h : (node, d) ∈ walkAll depth nodes)
    (hv : node.blockId? = some v) : (v, d) ∈ depths depth nodes :=
  List.mem_filterMap.2 ⟨_, h, by simp [hv]⟩

end Node

namespace Plan

variable {b : Block} {rest : List Node}

theorem depths_statementNode (h : b.id.IsText) (depth : Int) :
    Node.depths depth (statementNode b :: rest) = (b.id, depth) :: Node.depths depth rest := by
  have hid := blockId?_statementNode h
  have hwalk : Node.walk depth (statementNode b) = [(statementNode b, depth)] := by
    unfold statementNode
    split <;> rfl
  simp [Node.depths, Node.walkAll, hwalk, hid]

theorem depths_structureNode (h : b.id.IsText) (depth : Int) (body : List Node) :
    Node.depths depth (structureNode b body :: rest) =
      (b.id, depth) :: (Node.depths (depth + 1) body ++ Node.depths depth rest) := by
  have hid := blockId?_structureNode h body
  have hwalk : Node.walk depth (structureNode b body) =
      (structureNode b body, depth) :: Node.walkAll (depth + 1) body := rfl
  simp [Node.depths, Node.walkAll, hwalk, hid]

end Plan

end Script

namespace Flow

variable {f : Flow} {depth : Int} {visited : List Key} {trees : List Tree} {places : List f.plan.Place}

/-! ## The plan of a forest -/

theorem Forest.keyedEnds (h : f.Forest) : f.KeyedEnds := fun e he =>
  ⟨(h.textEnds e he).1.hasKey, (h.textEnds e he).2.hasKey⟩

/-- The plan of a forest points from a block at the targets of its edges, in their order. -/
theorem Forest.map_targets (h : f.Forest) (s : f.plan.Place) :
    (f.plan.targets s.1.key).map (·.1.block.id) = (f.outgoing s.1.block.id).map (·.target) := by
  have hnamed := plan_named h.texts
  obtain ⟨htext, hkey⟩ := hnamed s.1 s.2
  have hlinks : f.plan.links = f.edges.map fun e => (e.source.theKey, e.target.theKey) := rfl
  have hsource : f.edges.filter ((fun l => l.1 == s.1.key) ∘ fun e => (e.source.theKey, e.target.theKey)) =
      f.outgoing s.1.block.id := by
    refine List.filter_congr fun e he => ?_
    rw [Function.comp, Bool.eq_iff_iff, beq_iff_eq, ← hkey, htext.theKey_inj, (h.textEnds e he).1.equal_iff, eq_comm]
  have hfind : ∀ e ∈ f.outgoing s.1.block.id,
      ((f.plan.find? e.target.theKey).map fun t => t.1.block.id) = some e.target := by
    intro e he
    have hmem := (h.ends e (List.mem_filter.1 he).1).2
    obtain ⟨site, hsite, hid⟩ := exists_site.2 hmem
    obtain ⟨t, ht⟩ := Plan.exists_find? hsite
    have htkey := Plan.find?_key ht
    rw [← (hnamed site hsite).2, hid] at ht htkey
    rw [← (hnamed t.1 t.2).2, (h.texts _ hmem).theKey_inj] at htkey
    rw [ht, Option.map_some, htkey]
  rw [Plan.targets, hlinks, List.filter_map, hsource, List.filterMap_map, List.map_filterMap,
    ← List.filterMap_eq_map]
  exact List.filterMap_congr hfind

theorem map_val_filter_attach {α : Type} (xs : List α) (test : α → Bool) :
    (xs.attach.filter fun x => test x.1).map Subtype.val = xs.filter test := by
  rw [← Function.comp_def test, ← List.filter_map, List.attach_map_subtype_val]

theorem Forest.map_entries (h : f.Forest) : f.plan.entries.map (·.1.block.id) = f.roots := by
  have hsites : f.plan.entries.map Subtype.val =
      f.plan.sites.filter fun s => !f.plan.links.any fun l => l.2 == s.key :=
    map_val_filter_attach f.plan.sites fun s => !f.plan.links.any fun l => l.2 == s.key
  have hfree : ∀ b ∈ f.blocks, (!f.plan.links.any fun l => l.2 == b.id.theKey) = (f.incoming b.id).isEmpty := by
    intro b hb
    have htext := h.texts _ (List.mem_map_of_mem hb)
    rw [Bool.eq_iff_iff, Bool.not_eq_true', List.any_eq_false, List.isEmpty_iff, incoming, List.filter_eq_nil_iff]
    simp only [plan, List.forall_mem_map, beq_iff_eq, htext.theKey_inj]
    refine forall₂_congr fun e he => ?_
    rw [(h.textEnds e he).2.equal_iff, eq_comm]
  calc f.plan.entries.map (·.1.block.id)
      = (f.plan.entries.map Subtype.val).map (·.block.id) := by rw [List.map_map]; rfl
    _ = (f.blocks.filter fun b => !f.plan.links.any fun l => l.2 == b.id.theKey).map (·.id) := by
      rw [hsites]
      simp only [plan, List.filter_map, List.map_map, Function.comp_def]
    _ = f.roots := by rw [List.filter_congr hfree, roots]

/-- The plan of a forest starts at its roots, in order. -/
theorem Forest.map_starts (h : f.Forest) : f.plan.starts.map (·.1.block.id) = f.roots := by
  rw [Plan.starts]
  split
  · next hempty =>
    -- without roots there are no blocks at all
    have hroots : f.roots = [] := by rw [← h.map_entries, List.isEmpty_iff.1 hempty, List.map_nil]
    have hblocks : f.plan.sites = [] := by
      refine List.eq_nil_iff_forall_not_mem.2 fun s hs => ?_
      obtain ⟨u, hu⟩ := h.exists_root (exists_site.1 ⟨s, hs, rfl⟩)
      rw [hroots] at hu
      cases hu
    rw [hroots, List.map_eq_nil_iff, List.take_eq_nil_iff, List.attach_eq_nil_iff]
    exact Or.inr hblocks
  · exact h.map_entries

/-! ## Runs that write trees -/

/-- The run has written the blocks in this order, each as deep as there are blocks with a body above it, and has visited no
others. -/
structure Renders (f : Flow) (depth : Int) (visited : List Key) (run : Plan.Emission) (order : List Value) : Prop where
  depths : Node.depths depth run.nodes = order.map fun v => (v, (f.controlDepth v : Int))
  visited : ∀ k ∈ run.visited, k ∈ visited ∨ ∃ v ∈ order, v.theKey = k

/-- A run for a root of the tree writes the tree in preorder, if nothing of it has been visited. -/
def RendersTree (f : Flow) (t : Tree) : Prop :=
  ∀ (visited emitted : List Key) (s : f.plan.Place), s.1.block.id = t.root → (∀ v ∈ t.preorder, v.theKey ∉ visited) →
    f.Renders (f.controlDepth t.root) visited (f.plan.emit visited emitted [s]) t.preorder

/-- **Trees that follow one another.** What the first has visited is nothing of the others. -/
theorem renders_emit (emitted : List Key) (htrees : ∀ t ∈ trees, f.RendersTree t)
    (hdepth : ∀ t ∈ trees, (f.controlDepth t.root : Int) = depth)
    (htexts : ∀ v ∈ Tree.preorderAll trees, v.IsText) (hnodup : (Tree.preorderAll trees).Nodup)
    (hplaces : places.map (·.1.block.id) = trees.map Tree.root)
    (hfresh : ∀ v ∈ Tree.preorderAll trees, v.theKey ∉ visited) :
    f.Renders depth visited (f.plan.emit visited emitted places) (Tree.preorderAll trees) := by
  induction trees generalizing places visited emitted with
  | nil =>
    obtain rfl : places = [] := List.map_eq_nil_iff.1 hplaces
    rw [Plan.emit_nil]
    exact ⟨rfl, fun k hk => Or.inl hk⟩
  | cons t trees ih =>
    obtain ⟨s, places, rfl, hs, hplaces⟩ := List.map_eq_cons_iff.1 hplaces
    rw [Tree.preorderAll] at htexts hnodup hfresh ⊢
    obtain ⟨-, hrest, hdisjoint⟩ := List.nodup_append.1 hnodup
    have hfirst := htrees t List.mem_cons_self visited emitted s hs fun v hv => hfresh v (List.mem_append_left _ hv)
    rw [hdepth t List.mem_cons_self] at hfirst
    have hfreshRest : ∀ v ∈ Tree.preorderAll trees, v.theKey ∉ (f.plan.emit visited emitted [s]).visited := by
      intro v hv hmem
      rcases hfirst.visited _ hmem with hold | ⟨u, hu, hkey⟩
      · exact hfresh v (List.mem_append_right _ hv) hold
      · rw [(htexts v (List.mem_append_right _ hv)).theKey_inj] at hkey
        exact hdisjoint u hu v hv hkey
    have hothers := ih (f.plan.emit visited emitted [s]).emitted (fun u hu => htrees u (List.mem_cons_of_mem _ hu))
      (fun u hu => hdepth u (List.mem_cons_of_mem _ hu)) (fun v hv => htexts v (List.mem_append_right _ hv)) hrest
      hplaces hfreshRest
    rw [← List.singleton_append, Plan.emit_append]
    refine ⟨?_, fun k hk => ?_⟩
    · rw [Plan.Emission.andThen, Node.depths_append, hfirst.depths, hothers.depths, List.map_append]
    · rcases hothers.visited k hk with hk | ⟨v, hv, hkey⟩
      · refine (hfirst.visited k hk).imp_right ?_
        rintro ⟨v, hv, hkey⟩
        exact ⟨v, List.mem_append_left _ hv, hkey⟩
      · exact Or.inr ⟨v, List.mem_append_right _ hv, hkey⟩

/-- **Trees in a body.** Each of them has its own copy of what was visited. -/
theorem depths_emitBody (emitted : List Key) (htrees : ∀ t ∈ trees, f.RendersTree t)
    (hdepth : ∀ t ∈ trees, (f.controlDepth t.root : Int) = depth)
    (hplaces : places.map (·.1.block.id) = trees.map Tree.root)
    (hfresh : ∀ v ∈ Tree.preorderAll trees, v.theKey ∉ visited) :
    Node.depths depth (f.plan.emitBody visited emitted places).1 =
      (Tree.preorderAll trees).map fun v => (v, (f.controlDepth v : Int)) := by
  induction trees generalizing places emitted with
  | nil =>
    obtain rfl : places = [] := List.map_eq_nil_iff.1 hplaces
    rw [Plan.emitBody]
    rfl
  | cons t trees ih =>
    obtain ⟨s, places, rfl, hs, hplaces⟩ := List.map_eq_cons_iff.1 hplaces
    rw [Tree.preorderAll] at hfresh ⊢
    have hfirst := htrees t List.mem_cons_self visited emitted s hs fun v hv => hfresh v (List.mem_append_left _ hv)
    rw [hdepth t List.mem_cons_self] at hfirst
    rw [Plan.emitBody_cons, Node.depths_append, hfirst.depths, List.map_append,
      ih _ (fun u hu => htrees u (List.mem_cons_of_mem _ hu)) (fun u hu => hdepth u (List.mem_cons_of_mem _ hu)) hplaces
        fun v hv => hfresh v (List.mem_append_right _ hv)]

/-- **Emission writes a tree in preorder.** -/
theorem Forest.renders_tree (h : f.Forest) {t : Tree} (ht : f.Unfolds t) : f.RendersTree t := by
  have hnamed := plan_named h.texts
  induction ht with
  | @node v children htargets hbelow ih =>
    rintro visited emitted s (rfl : s.1.block.id = v) hfresh
    obtain ⟨htext, hkey⟩ := hnamed s.1 s.2
    obtain ⟨hroot, hnodup⟩ := List.nodup_cons.1 (h.nodup_preorder (.node htargets hbelow))
    have hplaces := (h.map_targets s).trans htargets.symm
    have hpoints : ∀ t ∈ children, f.Points s.1.block.id t.root := fun t ht => by
      rw [← mem_targets h.textEnds, ← htargets]
      exact List.mem_map_of_mem ht
    have hdepth : ∀ t ∈ children, (f.controlDepth t.root : Int) =
        f.controlDepth s.1.block.id + if Plan.isControl s.1.block then 1 else 0 := fun t ht => by
      rw [h.controlDepth_child (mem_blocks s) (hpoints t ht)]
      split <;> rfl
    have htexts : ∀ u ∈ Tree.preorderAll children, u.IsText := fun u hu => by
      obtain ⟨t, ht, hu⟩ := Tree.mem_preorderAll.1 hu
      exact h.texts u (h.mem_ids_of_mem_preorder (hbelow t ht) (h.mem_ids_of_points (hpoints t ht)).2 hu)
    have hunvisited : s.1.key ∉ visited := hkey ▸ hfresh _ List.mem_cons_self
    have hfreshBelow : ∀ u ∈ Tree.preorderAll children, u.theKey ∉ s.1.key :: visited := by
      intro u hu hmem
      rcases List.mem_cons.1 hmem with heq | hmem
      · rw [← hkey, htext.theKey_inj] at heq
        exact hroot (heq ▸ hu)
      · exact hfresh u (List.mem_cons_of_mem _ hu) hmem
    rw [Tree.preorder, Tree.root]
    cases hc : Plan.isControl s.1.block with
    | true =>
      rw [hc, if_pos rfl] at hdepth
      have hbody := depths_emitBody (s.1.key :: emitted) ih hdepth hplaces hfreshBelow
      rw [Plan.emit_enclose hunvisited hc]
      simp only [Plan.emit_nil]
      refine ⟨?_, fun k hk => ?_⟩
      · rw [Plan.depths_structureNode htext, hbody, Node.depths_nil, List.append_nil, List.map_cons]
      · exact (List.mem_cons.1 hk).symm.imp_right fun heq => ⟨_, List.mem_cons_self, hkey.trans heq.symm⟩
    | false =>
      rw [hc, if_neg (by simp), Int.add_zero] at hdepth
      have hrest := renders_emit (s.1.key :: emitted) ih hdepth htexts hnodup hplaces hfreshBelow
      rw [Plan.emit_follow hunvisited hc, List.append_nil]
      refine ⟨?_, fun k hk => ?_⟩
      · rw [Plan.depths_statementNode htext, hrest.depths, List.map_cons]
      · rcases hrest.visited k hk with hk | ⟨u, hu, hukey⟩
        · exact (List.mem_cons.1 hk).symm.imp_right fun heq => ⟨_, List.mem_cons_self, hkey.trans heq.symm⟩
        · exact Or.inr ⟨u, List.mem_cons_of_mem _ hu, hukey⟩

/-- The script of a forest has nothing that is disconnected. -/
theorem Forest.fragments_eq_nil (h : f.Forest) : f.plan.body.fragments = [] := by
  rcases f.plan.fragments_cases with ⟨-, hnil⟩ | ⟨hmissing, -⟩
  · exact hnil
  · obtain ⟨v, hv, hnot⟩ := (exists_unreached h.texts h.keyedEnds).1 hmissing
    exact absurd (reached_of_acyclic h.acyclic h.ends hv) hnot

/-- The body of the script of a forest holds the trees of its roots in preorder, each block as deep as it belongs. -/
theorem Forest.depths_body (h : f.Forest) (htrees : ∀ t ∈ trees, f.Unfolds t) (hroots : trees.map Tree.root = f.roots) :
    Node.depths 0 (f.plan.body.reached ++ f.plan.body.fragments) =
      (Tree.preorderAll trees).map fun v => (v, (f.controlDepth v : Int)) := by
  have hroot : ∀ t ∈ trees, t.root ∈ f.ids ∧ f.Free t.root := fun t ht => by
    rw [← h.mem_roots, ← hroots]
    exact List.mem_map_of_mem ht
  have hdepth : ∀ t ∈ trees, (f.controlDepth t.root : Int) = 0 := fun t ht => by
    rw [controlDepth_free (hroot t ht).2]
    rfl
  have htexts : ∀ v ∈ Tree.preorderAll trees, v.IsText := fun v hv => by
    obtain ⟨t, ht, hv⟩ := Tree.mem_preorderAll.1 hv
    exact h.texts v (h.mem_ids_of_mem_preorder (htrees t ht) (hroot t ht).1 hv)
  rw [h.fragments_eq_nil, List.append_nil]
  exact (renders_emit [] (fun t ht => h.renders_tree (htrees t ht)) hdepth htexts (h.nodup_roots htrees hroots)
    (h.map_starts.trans hroots.symm) (by simp)).depths

end Flow

namespace Work

variable {f : Flow} {w : Workspace} {given : Option Moment} {stamp : String}

/-- **The script of a forest.** It holds every block exactly once: the trees of the roots in the order of the blocks, each in
preorder with children in the order of the edges. The depth of a block is the number of blocks with a body above it. -/
theorem build_forest (h : f.Forest) (hstamp : w.scriptStamp given = .ok stamp) :
    ∃ program w', Work.build f given w = (.ok program, w') ∧ program.blockIds.Perm f.ids ∧
      (∃ trees : List Tree, trees.map Tree.root = f.roots ∧ (∀ t ∈ trees, f.Unfolds t) ∧
        program.blockIds = trees.flatMap Tree.preorder) ∧
      ∀ node depth v, (node, depth) ∈ Node.walkAll 0 program.body → node.blockId? = some v →
        depth = f.controlDepth v := by
  have hplan := Flow.ofFlow_eq_plan (fun v hv => (h.texts v hv).hasKey) h.keyedEnds
  obtain ⟨w', hbuild⟩ := build_eq_ok hplan hstamp
  obtain ⟨trees, hroots, htrees⟩ := Flow.Forest.exists_trees_of fun v hv => h.exists_tree (h.mem_roots.1 hv).1
  have hdepths := h.depths_body htrees hroots
  have hids : (assemble f f.plan.body stamp).blockIds = Tree.preorderAll trees := by
    rw [Program.blockIds_eq, assemble, ← Node.map_depths 0, hdepths, List.map_map]
    exact List.map_id _
  refine ⟨_, w', hbuild, ?_, ⟨trees, hroots, htrees, hids.trans (Tree.preorderAll_eq trees)⟩, ?_⟩
  · rw [List.perm_ext_iff_of_nodup (hids ▸ h.nodup_roots htrees hroots) h.distinct]
    intro v
    rw [Program.blockIds_eq]
    exact Flow.mem_idsOf_body h.texts
  · intro node depth v hnode hv
    have hmem := Node.mem_depths hnode hv
    rw [assemble, hdepths] at hmem
    obtain ⟨u, -, heq⟩ := List.mem_map.1 hmem
    obtain ⟨rfl, rfl⟩ := Prod.mk.inj heq
    rfl

/-- A loop with a branch and a statement in its body, each of which leads on, and a second tree beside it. The edges are not
in the order of the blocks. -/
def grove : Flow :=
  { id := .text "flow-1"
    blocks := [("a", "for-loop"), ("b", "variable"), ("c", "if-else"), ("d", "while-loop"), ("e", "return"),
        ("g", "console.log"), ("h", "forEach")].map fun (id, type) => .fresh (.text id) (.text type) .null
    edges := [("g", "h"), ("a", "c"), ("c", "d"), ("a", "b"), ("b", "e")].map
      fun (source, target) => { id := .null, source := .text source, target := .text target } }

theorem build_forest_grove :
    grove.Forest ∧ Workspace.scriptStamp { flow := grove } none = .ok "1970-01-01T00:00:00.000Z" ∧
      ∃ program w', Work.build grove none { flow := grove } = (.ok program, w') ∧ program.blockIds.Perm grove.ids ∧
        (∃ trees : List Tree, trees.map Tree.root = grove.roots ∧ (∀ t ∈ trees, grove.Unfolds t) ∧
          program.blockIds = trees.flatMap Tree.preorder) ∧
        ∀ node depth v, (node, depth) ∈ Node.walkAll 0 program.body → node.blockId? = some v →
          depth = grove.controlDepth v := by
  have hforest : grove.Forest := by
    refine ⟨?_, ?_, ?_, ?_, ?_⟩
    · simp [grove, Flow.ids, Block.fresh, Value.IsText]
    · simp [grove, Flow.ids, Block.fresh]
    · refine Flow.acyclic_of_rank
        (fun v => if v.isText "a" || v.isText "g" then 0 else if v.isText "b" || v.isText "c" then 1 else 2) ?_
      simp [grove, Value.isText]
    · simp [grove, Flow.ids, Block.fresh]
    · simp [grove]
  have hstamp : Workspace.scriptStamp { flow := grove } none = .ok "1970-01-01T00:00:00.000Z" := by rfl
  exact ⟨hforest, hstamp, build_forest hforest hstamp⟩

end Work

end BlockFlow
