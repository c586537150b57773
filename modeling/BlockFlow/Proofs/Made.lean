import BlockFlow.Proofs.Chains

/-!
Whose code the nodes of a script are. Every node is the code of a block, or stands before a block that no chain has
reached; that holds of flows of all sorts, also where identifiers are no texts or come twice.

* `Node.MadeFor`, `Node.Holds`: a node is the code of a block, and nodes hold code of it.
* `Plan.Made`: nodes are code of blocks or announce one whose code they hold, and they hold all that was emitted.
* `Plan.body_made`: **the body of a script is made for the blocks of its plan.**
* `Flow.madeFor_of_mem_body`, `Flow.holds_block`: all code in the body of a flow is that of its blocks, and blocks of
  different keys all have code in it.
-/

namespace BlockFlow.Script

/-- The node is the code of the block. -/
def Node.MadeFor (node : Node) (b : Block) : Prop :=
  if Plan.isControl b then ∃ body, node = Plan.structureNode b body else node = Plan.statementNode b

/-- The nodes hold code of the block, at any depth. -/
def Node.Holds (nodes : List Node) (b : Block) : Prop := ∃ node ∈ Node.flatAll nodes, node.MadeFor b

theorem Node.holds_append {xs ys : List Node} {b : Block} :
    Node.Holds (xs ++ ys) b ↔ Node.Holds xs b ∨ Node.Holds ys b := by
  simp [Node.Holds, or_and_right, exists_or]

namespace Plan

variable {p : Plan} {emitted mid seen : List Key} {nodes body : List Node}

theorem madeFor_statementNode {b : Block} (hc : isControl b = false) : (statementNode b).MadeFor b := by
  simp [Node.MadeFor, hc]

theorem madeFor_structureNode {b : Block} (hc : isControl b = true) (body : List Node) :
    (structureNode b body).MadeFor b := by
  simp [Node.MadeFor, hc]

theorem flat_structureNode (b : Block) (body : List Node) :
    (structureNode b body).flat = structureNode b body :: Node.flatAll body := rfl

/-- Each node is the code of a block of the plan or announces one, the nodes hold code of that block, and they hold code
for all keys that were added to the emitted ones. -/
structure Made (p : Plan) (emitted : List Key) (nodes : List Node) (seen : List Key) : Prop where
  own : ∀ node ∈ Node.flatAll nodes, ∃ s ∈ p.sites,
    Node.Holds nodes s.block ∧ (node.MadeFor s.block ∨ node ∈ opening (typeName s.block))
  held : ∀ k ∈ seen, k ∈ emitted ∨ ∃ s ∈ p.sites, s.key = k ∧ Node.Holds nodes s.block

namespace Made

theorem nil (p : Plan) (emitted : List Key) : p.Made emitted [] emitted :=
  ⟨by simp, fun _ h => Or.inl h⟩

theorem append (h : p.Made emitted body mid) (h' : p.Made mid nodes seen) : p.Made emitted (body ++ nodes) seen := by
  refine ⟨fun node hnode => ?_, fun k hk => ?_⟩
  · rw [Node.flatAll_append] at hnode
    simp only [Node.holds_append]
    rcases List.mem_append.1 hnode with hnode | hnode
    · obtain ⟨s, hs, hheld, hown⟩ := h.own node hnode
      exact ⟨s, hs, Or.inl hheld, hown⟩
    · obtain ⟨s, hs, hheld, hown⟩ := h'.own node hnode
      exact ⟨s, hs, Or.inr hheld, hown⟩
  · simp only [Node.holds_append]
    rcases h'.held k hk with hmid | ⟨s, hs, hkey, hheld⟩
    · exact (h.held k hmid).imp_right fun ⟨s, hs, hkey, hheld⟩ => ⟨s, hs, hkey, Or.inl hheld⟩
    · exact Or.inr ⟨s, hs, hkey, Or.inr hheld⟩

/-- The code of a block with its body, of which the key counted already. -/
theorem code (s : p.Place) {node : Node} (hnode : node.MadeFor s.1.block) (hflat : node.flat = node :: Node.flatAll body)
    (h : p.Made (s.1.key :: emitted) body seen) : p.Made emitted [node] seen := by
  have hflat : Node.flatAll [node] = node :: Node.flatAll body := by simp [hflat]
  have hheld {b : Block} (hb : Node.Holds body b) : Node.Holds [node] b := by
    obtain ⟨inner, hinner, hmade⟩ := hb
    exact ⟨inner, hflat ▸ List.mem_cons_of_mem _ hinner, hmade⟩
  have hself : Node.Holds [node] s.1.block := ⟨node, hflat ▸ List.mem_cons_self, hnode⟩
  refine ⟨?_, fun k hk => ?_⟩
  · rw [hflat]
    refine List.forall_mem_cons.2 ⟨⟨s.1, s.2, hself, Or.inl hnode⟩, fun inner hinner => ?_⟩
    obtain ⟨t, ht, hb, hown⟩ := h.own inner hinner
    exact ⟨t, ht, hheld hb, hown⟩
  · rcases h.held k hk with hold | ⟨t, ht, hkey, hb⟩
    · rcases List.mem_cons.1 hold with rfl | hold
      · exact Or.inr ⟨s.1, s.2, rfl, hself⟩
      · exact Or.inl hold
    · exact Or.inr ⟨t, ht, hkey, hheld hb⟩

theorem statement (s : p.Place) (hc : isControl s.1.block = false) (emitted : List Key) :
    p.Made emitted [statementNode s.1.block] (s.1.key :: emitted) :=
  (Made.nil p _).code s (madeFor_statementNode hc) (by simp [flat_statementNode])

theorem enclose (s : p.Place) (hc : isControl s.1.block = true) (h : p.Made (s.1.key :: emitted) body seen) :
    p.Made emitted [structureNode s.1.block body] seen :=
  h.code s (madeFor_structureNode hc body) (flat_structureNode _ _)

/-- Nodes that hold code of a block may be announced. -/
theorem announce {s : Site} (hs : s ∈ p.sites) (hheld : Node.Holds nodes s.block) (h : p.Made emitted nodes seen) :
    p.Made emitted (opening (typeName s.block) ++ nodes) seen := by
  have hflat : Node.flatAll (opening (typeName s.block)) = opening (typeName s.block) := rfl
  refine ⟨?_, fun k hk => ?_⟩
  · rw [Node.flatAll_append, hflat]
    simp only [Node.holds_append]
    refine List.forall_mem_append.2 ⟨fun node hnode => ⟨s, hs, Or.inr hheld, Or.inr hnode⟩, fun node hnode => ?_⟩
    obtain ⟨t, ht, hb, hown⟩ := h.own node hnode
    exact ⟨t, ht, Or.inr hb, hown⟩
  · simp only [Node.holds_append]
    exact (h.held k hk).imp_right fun ⟨t, ht, hkey, hb⟩ => ⟨t, ht, hkey, Or.inr hb⟩

end Made

theorem emit_made (visited emitted : List Key) (pending : List p.Place) :
    p.Made emitted (p.emit visited emitted pending).nodes (p.emit visited emitted pending).emitted := by
  refine (emission_induction (fun _ e _ r => p.Made e r.nodes r.emitted) (fun _ e _ r => p.Made e r.1 r.2)
    ?_ ?_ ?_ ?_ ?_ ?_).1 visited emitted pending
  · exact fun _ emitted => Made.nil p emitted
  · exact fun _ h => h
  · exact fun _ hc hbody h => (Made.enclose _ hc hbody).append h
  · exact fun _ hc h => (Made.statement _ hc _).append h
  · exact fun _ emitted => Made.nil p emitted
  · exact fun hfirst hrest => hfirst.append hrest

/-- A run from a block that its path has not visited holds its code. -/
theorem holds_emit {visited : List Key} {s : p.Place} (hs : s.1.key ∉ visited) (emitted : List Key)
    (pending : List p.Place) : Node.Holds (p.emit visited emitted (s :: pending)).nodes s.1.block := by
  cases hc : isControl s.1.block with
  | true =>
    rw [emit_enclose hs hc]
    exact ⟨_, Node.mem_flatAll List.mem_cons_self, madeFor_structureNode hc _⟩
  | false =>
    rw [emit_follow hs hc]
    exact ⟨_, Node.mem_flatAll List.mem_cons_self, madeFor_statementNode hc⟩

theorem emitRest_made (emitted : List Key) (places : List p.Place) :
    ∃ seen, p.Made emitted (p.emitRest emitted places).1 seen ∧ emitted ⊆ seen ∧ ∀ s ∈ places, s.1.key ∈ seen := by
  induction places generalizing emitted with
  | nil => exact ⟨emitted, Made.nil p emitted, List.Subset.refl _, by simp⟩
  | cons s rest ih =>
    by_cases hs : s.1.key ∈ emitted
    · obtain ⟨seen, hmade, hsub, hall⟩ := ih emitted
      rw [emitRest, if_pos hs]
      exact ⟨seen, hmade, hsub, List.forall_mem_cons.2 ⟨hsub hs, hall⟩⟩
    · have hcovers : p.Covers emitted [s] (p.emit emitted emitted [s]).emitted := emit_covers (List.Subset.refl _) [s]
      -- the comment names the block that its fragment starts with
      have hfragment := (emit_made emitted emitted [s]).announce s.2 (holds_emit hs emitted [])
      obtain ⟨seen, hmade, hsub, hall⟩ := ih (p.emit emitted emitted [s]).emitted
      rw [emitRest_cons hs, ← List.append_assoc]
      refine ⟨seen, hfragment.append hmade, fun k hk => hsub (hcovers.grows hk), List.forall_mem_cons.2 ⟨?_, hall⟩⟩
      exact hsub (hcovers.pending_seen s List.mem_cons_self)

/-- **A body is made for the blocks of its plan**, and it holds code for every key. -/
theorem body_made (p : Plan) :
    ∃ seen, p.Made [] (p.body.reached ++ p.body.fragments) seen ∧ ∀ s ∈ p.sites, s.key ∈ seen := by
  obtain ⟨seen, hrest, -, hall⟩ := emitRest_made (p.emit [] [] p.starts).emitted p.sites.attach
  exact ⟨seen, (emit_made [] [] p.starts).append hrest, fun s hs => hall ⟨s, hs⟩ (List.mem_attach _ _)⟩

theorem holds_body (hkeys : (p.sites.map Site.key).Nodup) {s : Site} (hs : s ∈ p.sites) :
    Node.Holds (p.body.reached ++ p.body.fragments) s.block := by
  obtain ⟨seen, hmade, hall⟩ := body_made p
  obtain ⟨t, ht, hkey, hheld⟩ := (hmade.held s.key (hall s hs)).resolve_left (by simp)
  exact List.inj_on_of_nodup_map hkeys ht hs hkey ▸ hheld

end Plan

end BlockFlow.Script

/-! ## The body of a flow -/

namespace BlockFlow.Flow

open Script

variable {f : Flow}

/-- All code in the body of a flow is that of its blocks. -/
theorem madeFor_of_mem_body {node : Node} (h : node ∈ Node.flatAll (f.plan.body.reached ++ f.plan.body.fragments))
    (hid : node.blockId? ≠ none) : ∃ b ∈ f.blocks, node.MadeFor b := by
  obtain ⟨seen, hmade, -⟩ := Plan.body_made f.plan
  obtain ⟨s, hs, -, hown | hopening⟩ := hmade.own node h
  · exact ⟨s.block, mem_blocks ⟨s, hs⟩, hown⟩
  · obtain ⟨v, hv⟩ := Option.ne_none_iff_exists'.1 hid
    exact absurd hopening (Plan.not_mem_opening hv _)

/-- Blocks of different keys all have code in the body. -/
theorem holds_block (hkeys : (f.ids.map Value.theKey).Nodup) {b : Block} (hb : b ∈ f.blocks) :
    Node.Holds (f.plan.body.reached ++ f.plan.body.fragments) b := by
  have hsites : (f.plan.sites.map Site.key).Nodup := by
    simpa [plan, ids, Function.comp_def] using hkeys
  exact Plan.holds_body hsites (List.mem_map_of_mem hb)

end BlockFlow.Flow
