import BlockFlow.Proofs.Reached

/-!
Flows that are forests. Where no block is pointed at twice and there is no circle, the edges make trees, one for each block
that no edge points at. A block is in one of them only, and the way to it from the root is the only way.

* `Tree`, `Tree.preorder`: trees of identifiers, and the order that has a root before its children.
* `Flow.Forest`: the conditions; `Flow.roots`: the blocks that no edge points at.
* `Flow.Unfolds`: a tree that shows what can be reached, with children in the order of the edges; `Flow.mem_preorder`: it
  holds what can be reached from its root.
* `Flow.Forest.exists_tree`: every block has such a tree; `Flow.Forest.nodup_roots`: **the trees of the roots hold no block
  twice.**
* `Flow.controlDepth`: how many blocks with a body are above a block; `Flow.Forest.controlDepth_child`: how it grows.
-/

namespace BlockFlow

open Relation Script

/-! ## Trees -/

/-- A tree of identifiers. -/
inductive Tree where
  | node (id : Value) (children : List Tree)

namespace Tree

def root : Tree → Value
  | .node id _ => id

mutual

/-- The identifiers of a tree: the root, and then those of the children, one after the other. -/
def preorder : Tree → List Value
  | .node id children => id :: preorderAll children

/-- The identifiers of trees, one after the other. -/
def preorderAll : List Tree → List Value
  | [] => []
  | t :: rest => preorder t ++ preorderAll rest

end

theorem preorderAll_eq (trees : List Tree) : preorderAll trees = trees.flatMap preorder := by
  induction trees with
  | nil => rfl
  | cons t rest ih => rw [preorderAll, List.flatMap_cons, ih]

theorem mem_preorderAll {trees : List Tree} {v : Value} : v ∈ preorderAll trees ↔ ∃ t ∈ trees, v ∈ t.preorder := by
  rw [preorderAll_eq, List.mem_flatMap]

end Tree

namespace Flow

variable {f : Flow}

/-! ## Forests -/

/-- The edges of the flow make a forest. -/
structure Forest (f : Flow) : Prop where
  /-- Identifiers of blocks are texts. -/
  texts : ∀ v ∈ f.ids, v.IsText
  /-- No two blocks share an identifier. -/
  distinct : f.ids.Nodup
  /-- No identifier reaches itself along edges. -/
  acyclic : f.Acyclic
  /-- Every edge starts and ends at a block of the flow. -/
  ends : ∀ e ∈ f.edges, e.source ∈ f.ids ∧ e.target ∈ f.ids
  /-- No block is pointed at twice. -/
  single : (f.edges.map (·.target)).Nodup

/-- The blocks that no edge points at, in order. -/
def roots (f : Flow) : List Value := (f.blocks.filter fun b => (f.incoming b.id).isEmpty).map (·.id)

/-- The tree shows what can be reached: below each identifier are the targets of its edges, in the order of the edges. -/
inductive Unfolds (f : Flow) : Tree → Prop
  | node {v : Value} {children : List Tree} (targets : children.map Tree.root = (f.outgoing v).map (·.target))
      (below : ∀ t ∈ children, Unfolds f t) : Unfolds f (.node v children)

theorem mem_outgoing (hends : f.TextEnds) {v : Value} {e : Edge} : e ∈ f.outgoing v ↔ e ∈ f.edges ∧ e.source = v := by
  rw [outgoing, List.mem_filter]
  refine and_congr_right fun he => ?_
  rw [(hends e he).1.equal_iff, eq_comm]

theorem mem_targets (hends : f.TextEnds) {v u : Value} : u ∈ (f.outgoing v).map (·.target) ↔ f.Points v u := by
  simp only [List.mem_map, mem_outgoing hends, and_assoc]
  rfl

/-- **A tree holds what can be reached from its root.** -/
theorem mem_preorder (hends : f.TextEnds) {t : Tree} (h : f.Unfolds t) {u : Value} :
    u ∈ t.preorder ↔ ReflTransGen f.Points t.root u := by
  induction h with
  | @node v children htargets _ ih =>
    have hchild : ∀ c, f.Points v c ↔ ∃ t ∈ children, t.root = c := fun c => by
      rw [← mem_targets hends, ← htargets, List.mem_map]
    rw [Tree.preorder, List.mem_cons, Tree.mem_preorderAll, Tree.root]
    constructor
    · rintro (rfl | ⟨t, ht, hu⟩)
      · exact .refl
      · exact .head ((hchild _).2 ⟨t, ht, rfl⟩) ((ih t ht).1 hu)
    · intro hway
      rcases hway.cases_head with rfl | ⟨c, hc, hway⟩
      · exact Or.inl rfl
      · obtain ⟨t, ht, rfl⟩ := (hchild c).1 hc
        exact Or.inr ⟨t, ht, (ih t ht).2 hway⟩

namespace Forest

variable {a b v : Value} {trees : List Tree}

theorem textEnds (h : f.Forest) : f.TextEnds := fun e he =>
  ⟨h.texts _ (h.ends e he).1, h.texts _ (h.ends e he).2⟩

theorem mem_ids_of_points (h : f.Forest) (hab : f.Points a b) : a ∈ f.ids ∧ b ∈ f.ids := by
  obtain ⟨e, he, rfl, rfl⟩ := hab
  exact h.ends e he

/-- A block has at most one parent. -/
theorem parent_unique (h : f.Forest) (ha : f.Points a v) (hb : f.Points b v) : a = b := by
  obtain ⟨d, hd, rfl, hdv⟩ := ha
  obtain ⟨e, he, rfl, hev⟩ := hb
  rw [List.inj_on_of_nodup_map h.single hd he (hdv.trans hev.symm)]

/-- Of two blocks from which a third is reached, one is reached from the other. -/
theorem comparable (h : f.Forest) (ha : ReflTransGen f.Points a v) (hb : ReflTransGen f.Points b v) :
    ReflTransGen f.Points a b ∨ ReflTransGen f.Points b a := by
  have hunique : Relator.RightUnique (Function.swap f.Points) := fun _ _ _ hx hy => h.parent_unique hx hy
  have hswap := ReflTransGen.total_of_right_unique hunique (reflTransGen_swap.2 ha) (reflTransGen_swap.2 hb)
  exact (hswap.imp reflTransGen_swap.1 reflTransGen_swap.1).symm

/-! ## Every block has a tree -/

theorem exists_trees_of {vs : List Value} (h : ∀ v ∈ vs, ∃ t, f.Unfolds t ∧ t.root = v) :
    ∃ trees : List Tree, trees.map Tree.root = vs ∧ ∀ t ∈ trees, f.Unfolds t := by
  induction vs with
  | nil => exact ⟨[], rfl, by simp⟩
  | cons v vs ih =>
    obtain ⟨t, ht, hroot⟩ := h v List.mem_cons_self
    obtain ⟨trees, hroots, htrees⟩ := ih fun u hu => h u (List.mem_cons_of_mem _ hu)
    exact ⟨t :: trees, by rw [List.map_cons, hroot, hroots], List.forall_mem_cons.2 ⟨ht, htrees⟩⟩

/-- Following the edges comes to an end, so that every block has a tree. -/
theorem exists_tree (h : f.Forest) (hv : v ∈ f.ids) : ∃ t, f.Unfolds t ∧ t.root = v := by
  have hfinite : Finite { v // v ∈ f.ids } := f.ids.finite_toSet
  have hwf : WellFounded fun a b : { v // v ∈ f.ids } => f.Points b.1 a.1 := by
    refine wellFounded_of_not_circle fun a ha => h.acyclic a.1 ?_
    exact (transGen_swap.1 ha).lift Subtype.val fun _ _ hab => hab
  suffices htree : ∀ u : { v // v ∈ f.ids }, ∃ t, f.Unfolds t ∧ t.root = u.1 from htree ⟨v, hv⟩
  intro u
  induction u using hwf.induction with
  | _ u ih =>
    obtain ⟨children, htargets, hbelow⟩ : ∃ trees : List Tree,
        trees.map Tree.root = (f.outgoing u.1).map (·.target) ∧ ∀ t ∈ trees, f.Unfolds t := by
      refine exists_trees_of fun c hc => ?_
      have hpoints := (mem_targets h.textEnds).1 hc
      exact ih ⟨c, (h.mem_ids_of_points hpoints).2⟩ hpoints
    exact ⟨.node u.1 children, .node htargets hbelow, rfl⟩

/-- A tree of a block holds blocks only. -/
theorem mem_ids_of_mem_preorder (h : f.Forest) {t : Tree} (ht : f.Unfolds t) (hroot : t.root ∈ f.ids)
    (hv : v ∈ t.preorder) : v ∈ f.ids := by
  rcases ((mem_preorder h.textEnds ht).1 hv).cases_tail with rfl | ⟨u, -, hstep⟩
  · exact hroot
  · exact (h.mem_ids_of_points hstep).2

/-! ## No block is twice in the trees -/

/-- Neither of two identifiers is reached from the other. -/
def Apart (f : Flow) (a b : Value) : Prop := ¬ ReflTransGen f.Points a b ∧ ¬ ReflTransGen f.Points b a

/-- Trees whose roots are apart have nothing in common. -/
theorem nodup_preorderAll (h : f.Forest) (htrees : ∀ t ∈ trees, f.Unfolds t)
    (hnodup : ∀ t ∈ trees, t.preorder.Nodup) (hapart : (trees.map Tree.root).Pairwise (Apart f)) :
    (Tree.preorderAll trees).Nodup := by
  rw [Tree.preorderAll_eq, List.nodup_flatMap]
  refine ⟨hnodup, (List.pairwise_map.1 hapart).imp_of_mem fun {s t} hs ht hst => ?_⟩
  intro u hu hu'
  have hsu := (mem_preorder h.textEnds (htrees s hs)).1 hu
  have htu := (mem_preorder h.textEnds (htrees t ht)).1 hu'
  exact (h.comparable hsu htu).elim hst.1 hst.2

/-- Two children of one block are apart. -/
theorem not_reach_sibling (h : f.Forest) (ha : f.Points v a) (hb : f.Points v b) (hne : a ≠ b) :
    ¬ ReflTransGen f.Points a b := by
  intro hway
  rcases hway.cases_tail with rfl | ⟨u, hau, hub⟩
  · exact hne rfl
  · -- the only parent of `b` is `v`, so `a` would lead back to its own parent
    obtain rfl := h.parent_unique hb hub
    exact h.acyclic v (TransGen.head' ha hau)

theorem nodup_preorder (h : f.Forest) {t : Tree} (ht : f.Unfolds t) : t.preorder.Nodup := by
  induction ht with
  | @node v children htargets hbelow ih =>
    have hpoints : ∀ c ∈ children.map Tree.root, f.Points v c := fun c hc => by
      rw [htargets] at hc
      exact (mem_targets h.textEnds).1 hc
    rw [Tree.preorder, List.nodup_cons]
    constructor
    · intro hv
      obtain ⟨t, ht, hvt⟩ := Tree.mem_preorderAll.1 hv
      have hway := (mem_preorder h.textEnds (hbelow t ht)).1 hvt
      exact h.acyclic v (TransGen.head' (hpoints _ (List.mem_map_of_mem ht)) hway)
    · have hdistinct : (children.map Tree.root).Nodup := by
        rw [htargets]
        exact h.single.sublist (List.filter_sublist.map _)
      refine h.nodup_preorderAll hbelow ih (hdistinct.imp_of_mem fun {a b} ha hb hne => ?_)
      exact ⟨h.not_reach_sibling (hpoints a ha) (hpoints b hb) hne,
        h.not_reach_sibling (hpoints b hb) (hpoints a ha) (Ne.symm hne)⟩

theorem mem_roots (h : f.Forest) : v ∈ f.roots ↔ v ∈ f.ids ∧ f.Free v := by
  have hfree : ∀ b : Block, (f.incoming b.id).isEmpty = true ↔ f.Free b.id := fun b => by
    rw [List.isEmpty_iff, incoming, List.filter_eq_nil_iff]
    refine forall₂_congr fun e he => ?_
    rw [(h.textEnds e he).2.equal_iff, eq_comm]
  simp only [roots, ids, List.mem_map, List.mem_filter, hfree]
  constructor
  · rintro ⟨b, ⟨hb, hb'⟩, rfl⟩
    exact ⟨⟨b, hb, rfl⟩, hb'⟩
  · rintro ⟨⟨b, hb, rfl⟩, hv⟩
    exact ⟨b, ⟨hb, hv⟩, rfl⟩

theorem eq_of_reach_free (hb : f.Free b) (hway : ReflTransGen f.Points a b) : a = b := by
  rcases hway.cases_tail with rfl | ⟨u, -, e, he, -, htarget⟩
  · rfl
  · exact absurd htarget (hb e he)

/-- **The trees of the roots hold no block twice.** -/
theorem nodup_roots (h : f.Forest) (htrees : ∀ t ∈ trees, f.Unfolds t) (hroots : trees.map Tree.root = f.roots) :
    (Tree.preorderAll trees).Nodup := by
  refine h.nodup_preorderAll htrees (fun t ht => h.nodup_preorder (htrees t ht)) ?_
  have hdistinct : f.roots.Nodup := h.distinct.sublist (List.filter_sublist.map _)
  rw [hroots]
  refine hdistinct.imp_of_mem fun {a b} ha hb hne => ?_
  exact ⟨fun hway => hne (eq_of_reach_free (h.mem_roots.1 hb).2 hway),
    fun hway => hne (eq_of_reach_free (h.mem_roots.1 ha).2 hway).symm⟩

/-- A forest with a block has a root. -/
theorem exists_root (h : f.Forest) (hv : v ∈ f.ids) : ∃ u, u ∈ f.roots := by
  suffices hroot : ∀ u : { v // v ∈ f.ids }, ∃ u, u ∈ f.roots from hroot ⟨v, hv⟩
  intro u
  induction u using h.acyclic.wellFounded.induction with
  | _ u ih =>
    by_cases hfree : f.Free u.1
    · exact ⟨u.1, h.mem_roots.2 ⟨u.2, hfree⟩⟩
    · obtain ⟨e, he, htarget⟩ : ∃ e ∈ f.edges, e.target = u.1 := by simpa [Free] using hfree
      exact ih ⟨e.source, (h.ends e he).1⟩ ⟨e, he, rfl, htarget⟩

end Forest

/-! ## Blocks with a body above a block -/

open Classical in
/-- How many blocks with a body an identifier is reached from. -/
noncomputable def controlDepth (f : Flow) (v : Value) : Nat :=
  f.blocks.countP fun b => Plan.isControl b && decide (TransGen f.Points b.id v)

/-- Nothing is above a block that no edge points at. -/
theorem controlDepth_free {v : Value} (hv : f.Free v) : f.controlDepth v = 0 := by
  refine List.countP_eq_zero.2 fun b _ hb => ?_
  simp only [Bool.and_eq_true, decide_eq_true_eq] at hb
  obtain ⟨u, -, e, he, -, htarget⟩ := TransGen.tail'_iff.1 hb.2
  exact hv e he htarget

/-- A child is below its parent and what is above that. -/
theorem Forest.above_child (h : f.Forest) {u v c : Value} (hc : f.Points v c) :
    TransGen f.Points u c ↔ u = v ∨ TransGen f.Points u v := by
  rw [TransGen.tail'_iff, eq_comm, ← reflTransGen_iff_eq_or_transGen]
  constructor
  · rintro ⟨w, hw, hwc⟩
    rwa [h.parent_unique hwc hc] at hw
  · exact fun hv => ⟨v, hv, hc⟩

/-- Below a block with a body, one more is above. -/
theorem Forest.controlDepth_child (h : f.Forest) {b : Block} (hb : b ∈ f.blocks) {c : Value} (hc : f.Points b.id c) :
    f.controlDepth c = f.controlDepth b.id + if Plan.isControl b then 1 else 0 := by
  obtain ⟨front, back, hblocks⟩ := List.append_of_mem hb
  have hperm : f.blocks.Perm (b :: (front ++ back)) := hblocks ▸ List.perm_middle
  have hother : ∀ x ∈ front ++ back, x.id ≠ b.id := by
    have hnodup : ((b :: (front ++ back)).map (·.id)).Nodup := (hperm.map Block.id).nodup_iff.1 h.distinct
    intro x hx heq
    exact (List.nodup_cons.1 hnodup).1 (List.mem_map.2 ⟨x, hx, heq⟩)
  -- for the other blocks, being above the child is being above its parent
  have hsame : ∀ x ∈ front ++ back, TransGen f.Points x.id c ↔ TransGen f.Points x.id b.id := fun x hx => by
    rw [h.above_child hc]
    exact or_iff_right (hother x hx)
  classical
  have hcount : (front ++ back).countP (fun x => Plan.isControl x && decide (TransGen f.Points x.id c)) =
      (front ++ back).countP fun x => Plan.isControl x && decide (TransGen f.Points x.id b.id) :=
    List.countP_congr fun x hx => by simp [hsame x hx]
  rw [controlDepth, controlDepth, hperm.countP_eq, hperm.countP_eq, List.countP_cons, List.countP_cons, hcount]
  simp [TransGen.single hc, h.acyclic b.id]

end Flow

end BlockFlow
