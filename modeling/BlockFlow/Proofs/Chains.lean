import BlockFlow.Proofs.Reached

/-!
What stands in one list of a script. A run of emission writes one list from left to right, and the lists of a script are
made of such runs: a body has one for each child, the outermost list one for the starts and one for each fragment.

* `Node.levelIds`, `Plan.keysOf`: the blocks whose code stands in a list, without what is below.
* `Plan.chain_induction`: induction along one list.
* `Plan.Placed`: what led to a node of a list, and what comes of it; `Plan.Chain`: that holds at every node.
* `Plan.emit_chain`: **every run of emission writes such a chain.**
* `Plan.Run`: the run of emission around a place of a list; `Plan.emitBody_run` and `Plan.body_run` find it.
-/

namespace BlockFlow.Script

/-! ## The blocks of one list -/

/-- The identifiers of the blocks whose code stands in a list, without the code below. -/
def Node.levelIds (nodes : List Node) : List Value := nodes.filterMap Node.blockId?

theorem Node.mem_flatAll {node : Node} {nodes : List Node} (h : node ∈ nodes) : node ∈ Node.flatAll nodes := by
  obtain ⟨front, back, rfl⟩ := List.append_of_mem h
  have hself : node ∈ node.flat := by cases node <;> simp [Node.flat]
  simp [hself]

namespace Plan

variable {p : Plan} {visited emitted : List Key} {pending children : List p.Place} {before after nodes : List Node}
  {node : Node}

/-- The keys of the blocks whose code stands in a list. -/
def keysOf (nodes : List Node) : List Key := (Node.levelIds nodes).map Value.theKey

@[simp] theorem keysOf_nil : keysOf [] = [] := rfl

@[simp] theorem keysOf_append (xs ys : List Node) : keysOf (xs ++ ys) = keysOf xs ++ keysOf ys := by
  simp [keysOf, Node.levelIds]

theorem keysOf_cons {v : Value} (h : node.blockId? = some v) : keysOf (node :: nodes) = v.theKey :: keysOf nodes := by
  simp [keysOf, Node.levelIds, h]

theorem blockId?_statementNode {b : Block} (h : b.id.IsText) : (statementNode b).blockId? = some b.id := by
  obtain ⟨t, ht⟩ := h
  unfold statementNode
  split <;> simp [Node.blockId?, Node.isBlank, Node.origin, ht]

theorem blockId?_structureNode {b : Block} (h : b.id.IsText) (body : List Node) :
    (structureNode b body).blockId? = some b.id := by
  obtain ⟨t, ht⟩ := h
  simp [structureNode, Node.blockId?, Node.isBlank, Node.origin, ht]

theorem Named.id_eq (hp : p.Named) {s t : p.Place} (h : s.1.key = t.1.key) : s.1.block.id = t.1.block.id := by
  rw [← (hp s.1 s.2).2, ← (hp t.1 t.2).2, (hp t.1 t.2).1.theKey_inj] at h
  exact h

theorem mem_keysOf (hp : p.Named) {s : p.Place} : s.1.key ∈ keysOf nodes ↔ s.1.block.id ∈ Node.levelIds nodes := by
  obtain ⟨htext, hkey⟩ := hp s.1 s.2
  rw [keysOf, ← hkey, List.mem_map]
  simp only [htext.theKey_inj, exists_eq_right]

theorem levelIds_subset (nodes : List Node) : Node.levelIds nodes ⊆ Node.idsOf nodes := by
  intro v hv
  obtain ⟨node, hnode, hid⟩ := List.mem_filterMap.1 hv
  exact List.mem_filterMap.2 ⟨node, Node.mem_flatAll hnode, hid⟩

/-- What is visited or written is so too when one more block changes from the one to the other. -/
theorem mem_written {u k : Key} {keys : List Key} (h : k ∈ u :: visited ∨ k ∈ keys) : k ∈ visited ∨ k ∈ u :: keys := by
  rcases h with h | h
  · exact (List.mem_cons.1 h).elim (fun heq => Or.inr (heq ▸ List.mem_cons_self)) Or.inl
  · exact Or.inr (List.mem_cons_of_mem _ h)

/-! ## Along one list -/

theorem emit_pass {s : p.Place} (hs : s.1.key ∈ visited) :
    p.emit visited emitted (s :: pending) = p.emit visited emitted pending := by
  rw [emit, dif_pos hs]

theorem emit_enclose {s : p.Place} (hs : s.1.key ∉ visited) (hc : isControl s.1.block = true) :
    p.emit visited emitted (s :: pending) =
      let body := p.emitBody (s.1.key :: visited) (s.1.key :: emitted) (p.targets s.1.key)
      let rest := p.emit (s.1.key :: visited) body.2 pending
      { rest with nodes := structureNode s.1.block body.1 :: rest.nodes } := by
  rw [emit, dif_neg hs, if_pos hc]

theorem emit_follow {s : p.Place} (hs : s.1.key ∉ visited) (hc : isControl s.1.block = false) :
    p.emit visited emitted (s :: pending) =
      let rest := p.emit (s.1.key :: visited) (s.1.key :: emitted) (p.targets s.1.key ++ pending)
      { rest with nodes := statementNode s.1.block :: rest.nodes } := by
  rw [emit, dif_neg hs, if_neg (by simp [hc])]

/-- **Induction along one list.** `done` ends it, `pass` skips a block that has been visited, `enclose` writes one with
its body, and `follow` one that its targets come after. -/
theorem chain_induction (P : List Key → List Key → List p.Place → Emission → Prop)
    (done : ∀ visited emitted, P visited emitted [] ⟨[], visited, emitted⟩)
    (pass : ∀ {visited emitted s pending r}, s.1.key ∈ visited → P visited emitted pending r →
      P visited emitted (s :: pending) r)
    (enclose : ∀ {visited emitted s pending seen r}, s.1.key ∉ visited → isControl s.1.block = true →
      P (s.1.key :: visited) seen pending r →
      P visited emitted (s :: pending) { r with
        nodes := structureNode s.1.block
          (p.emitBody (s.1.key :: visited) (s.1.key :: emitted) (p.targets s.1.key)).1 :: r.nodes })
    (follow : ∀ {visited emitted s pending r}, s.1.key ∉ visited → isControl s.1.block = false →
      P (s.1.key :: visited) (s.1.key :: emitted) (p.targets s.1.key ++ pending) r →
      P visited emitted (s :: pending) { r with nodes := statementNode s.1.block :: r.nodes })
    (visited emitted : List Key) (pending : List p.Place) :
    P visited emitted pending (p.emit visited emitted pending) := by
  refine emit.induct p (fun v e pending => P v e pending (p.emit v e pending)) (fun _ _ _ => True)
    ?_ ?_ ?_ ?_ (fun _ _ => trivial) (fun _ _ _ _ _ _ _ _ _ => trivial) visited emitted pending
  · intro visited emitted
    rw [emit]
    exact done visited emitted
  · intro visited emitted s pending hs ih
    rw [emit_pass hs]
    exact pass hs ih
  · intro visited emitted s pending hs hc body seen hbody _ ih
    obtain rfl := congrArg Prod.snd hbody
    rw [emit_enclose hs hc]
    exact enclose hs hc ih
  · intro visited emitted s pending hs hc ih
    rw [Bool.not_eq_true] at hc
    rw [emit_follow hs hc]
    exact follow hs hc ih

/-! ## At a node of a run -/

/-- What a run from `pending` says at a node, of which `s` is the block. -/
structure Placed (p : Plan) (visited : List Key) (pending : List p.Place) (before : List Node) (node : Node)
    (after : List Node) (s : p.Place) : Prop where
  /-- The block was pending, or a block without body that points at it stands before. -/
  source : s ∈ pending ∨
    ∃ u : p.Place, isControl u.1.block = false ∧ u.1.block.id ∈ Node.levelIds before ∧ s ∈ p.targets u.1.key
  /-- What a block without body points at stands in the same list, unless it had been visited before the run. -/
  follows : isControl s.1.block = false → node = statementNode s.1.block ∧
    ∀ t ∈ p.targets s.1.key, t.1.key ∈ visited ∨ t.1.key ∈ keysOf (before ++ node :: after)
  /-- A body is written for what its block points at, with all that stands before as visited. -/
  encloses : isControl s.1.block = true → ∃ emitted, node = structureNode s.1.block
    (p.emitBody (s.1.key :: ((keysOf before).reverse ++ visited)) emitted (p.targets s.1.key)).1

namespace Placed

variable {s u : p.Place}

theorem blockId? (hp : p.Named) (h : p.Placed visited pending before node after s) :
    node.blockId? = some s.1.block.id := by
  cases hc : isControl s.1.block with
  | true =>
    obtain ⟨_, rfl⟩ := h.encloses hc
    exact blockId?_structureNode (hp s.1 s.2).1 _
  | false =>
    rw [(h.follows hc).1]
    exact blockId?_statementNode (hp s.1 s.2).1

/-- A node with a body is that of a block with a body, written for what the block points at. -/
theorem of_block {header closer : String} {body : List Node} {origin : Value}
    (h : p.Placed visited pending before (.block header body closer origin) after s) : origin = s.1.block.id ∧
      ∃ emitted, body = (p.emitBody (s.1.key :: ((keysOf before).reverse ++ visited)) emitted (p.targets s.1.key)).1 := by
  cases hc : isControl s.1.block with
  | false =>
    have hnode := (h.follows hc).1
    unfold statementNode at hnode
    split at hnode <;> cases hnode
  | true =>
    obtain ⟨emitted, hnode⟩ := h.encloses hc
    obtain ⟨-, hbody, -, horigin⟩ := Node.block.inj hnode
    exact ⟨horigin, emitted, hbody⟩

/-- The node of a block that has not been visited comes in front. Only a block without body adds to what is pending. -/
theorem cons (hp : p.Named) {first : Node} (hfirst : first.blockId? = some u.1.block.id) {next : List p.Place}
    (hnext : ∀ t ∈ next, t ∈ pending ∨ isControl u.1.block = false ∧ t ∈ p.targets u.1.key)
    (h : p.Placed (u.1.key :: visited) next before node after s) :
    p.Placed visited (u :: pending) (first :: before) node after s := by
  have hkeys (xs : List Node) : keysOf (first :: xs) = u.1.key :: keysOf xs := by
    rw [keysOf_cons hfirst, (hp u.1 u.2).2]
  have hids : Node.levelIds (first :: before) = u.1.block.id :: Node.levelIds before := by
    simp [Node.levelIds, hfirst]
  refine ⟨?_, fun hc => ⟨(h.follows hc).1, fun t ht => ?_⟩, fun hc => ?_⟩
  · rw [hids]
    rcases h.source with hs | ⟨t, ht, hbefore, hs⟩
    · rcases hnext s hs with hs | ⟨hu, hs⟩
      · exact Or.inl (List.mem_cons_of_mem _ hs)
      · exact Or.inr ⟨u, hu, List.mem_cons_self, hs⟩
    · exact Or.inr ⟨t, ht, List.mem_cons_of_mem _ hbefore, hs⟩
  · rw [List.cons_append, hkeys]
    exact mem_written ((h.follows hc).2 t ht)
  · obtain ⟨emitted, hnode⟩ := h.encloses hc
    refine ⟨emitted, ?_⟩
    rw [hkeys, List.reverse_cons, List.append_assoc, List.singleton_append]
    exact hnode

end Placed

/-- The nodes that a run writes for what is pending, in one list. -/
structure Chain (p : Plan) (visited : List Key) (pending : List p.Place) (nodes : List Node) : Prop where
  /-- All that is pending is written, unless it has been visited. -/
  covers : ∀ s ∈ pending, s.1.key ∈ visited ∨ s.1.key ∈ keysOf nodes
  /-- Nothing is written that has been visited. -/
  fresh : ∀ k ∈ keysOf nodes, k ∉ visited
  /-- Nothing is written twice. -/
  nodup : (keysOf nodes).Nodup
  /-- Every node has its place. -/
  placed : ∀ before node after, nodes = before ++ node :: after → ∃ s, p.Placed visited pending before node after s

namespace Chain

variable {s u : p.Place}

theorem nil (p : Plan) (visited : List Key) : p.Chain visited [] [] :=
  ⟨by simp, by simp, by simp, by simp⟩

theorem pass (hs : s.1.key ∈ visited) (h : p.Chain visited pending nodes) : p.Chain visited (s :: pending) nodes := by
  refine ⟨List.forall_mem_cons.2 ⟨Or.inl hs, h.covers⟩, h.fresh, h.nodup, fun before node after hnodes => ?_⟩
  obtain ⟨t, ht⟩ := h.placed before node after hnodes
  exact ⟨t, ht.source.imp_left (List.mem_cons_of_mem _), ht.follows, ht.encloses⟩

/-- A block that has not been visited is written in front of what is pending then. -/
theorem cons (hp : p.Named) (hu : u.1.key ∉ visited) {first : Node} {next : List p.Place}
    (hfirst : p.Placed visited (u :: pending) [] first nodes u) (hsub : pending ⊆ next)
    (hnext : ∀ t ∈ next, t ∈ pending ∨ isControl u.1.block = false ∧ t ∈ p.targets u.1.key)
    (h : p.Chain (u.1.key :: visited) next nodes) : p.Chain visited (u :: pending) (first :: nodes) := by
  have hid := hfirst.blockId? hp
  have hkeys : keysOf (first :: nodes) = u.1.key :: keysOf nodes := by
    rw [keysOf_cons hid, (hp u.1 u.2).2]
  refine ⟨?_, ?_, ?_, ?_⟩
  · rw [hkeys]
    exact List.forall_mem_cons.2 ⟨Or.inr List.mem_cons_self, fun t ht => mem_written (h.covers t (hsub ht))⟩
  · rw [hkeys]
    exact List.forall_mem_cons.2 ⟨hu, fun k hk hvisited => h.fresh k hk (List.mem_cons_of_mem _ hvisited)⟩
  · rw [hkeys]
    exact List.nodup_cons.2 ⟨fun hmem => h.fresh _ hmem List.mem_cons_self, h.nodup⟩
  · intro before node after hnodes
    rcases List.cons_eq_append_iff.1 hnodes with ⟨rfl, heq⟩ | ⟨front, rfl, heq⟩
    · obtain ⟨rfl, rfl⟩ := List.cons.inj heq
      exact ⟨u, hfirst⟩
    · obtain ⟨s, hs⟩ := h.placed front node after heq
      exact ⟨s, hs.cons hp hid hnext⟩

end Chain

/-- **A run writes a chain.** -/
theorem emit_chain (hp : p.Named) (visited emitted : List Key) (pending : List p.Place) :
    p.Chain visited pending (p.emit visited emitted pending).nodes := by
  refine chain_induction (fun v _ pending r => p.Chain v pending r.nodes) ?_ ?_ ?_ ?_ visited emitted pending
  · exact fun visited _ => Chain.nil p visited
  · exact fun hs h => h.pass hs
  · intro visited emitted s pending seen r hs hc h
    refine h.cons hp hs ⟨Or.inl List.mem_cons_self, by simp [hc], fun _ => ⟨_, rfl⟩⟩ (List.Subset.refl _) ?_
    exact fun t ht => Or.inl ht
  · intro visited emitted s pending r hs hc h
    refine h.cons hp hs ⟨Or.inl List.mem_cons_self, fun _ => ⟨rfl, fun t ht => ?_⟩, by simp [hc]⟩
      (List.subset_append_right _ _) fun t ht => ?_
    · rw [List.nil_append, keysOf_cons (blockId?_statementNode (hp s.1 s.2).1), (hp s.1 s.2).2]
      exact mem_written (h.covers t (List.mem_append_left _ ht))
    · exact (List.mem_append.1 ht).symm.imp_right fun h => ⟨hc, h⟩

/-! ## The runs of a list -/

/-- The blank line and the comment before a disconnected block of a type. -/
def opening (type : String) : List Node := [.blank .null, .comment ("Disconnected block: " ++ type) .null]

@[simp] theorem idsOf_opening (type : String) : Node.idsOf (opening type) = [] := rfl

@[simp] theorem keysOf_opening (type : String) : keysOf (opening type) = [] := rfl

theorem not_mem_opening {v : Value} (h : node.blockId? = some v) (type : String) : node ∉ opening type := by
  intro hmem
  rcases List.mem_cons.1 hmem with rfl | hmem
  · cases h
  · obtain rfl := List.mem_singleton.1 hmem
    cases h

/-- A node of a run of emission, with the nodes that the run has written before and after it. -/
structure Run (p : Plan) (node : Node) where
  visited : List Key
  emitted : List Key
  pending : List p.Place
  front : List Node
  back : List Node
  nodes_eq : (p.emit visited emitted pending).nodes = front ++ node :: back

namespace Run

/-- The run has written the nodes around a place of a list. -/
structure At (r : p.Run node) (before after : List Node) : Prop where
  front : r.front <:+ before
  back : r.back <+: after

theorem At.widen {r : p.Run node} (h : r.At before after) (xs ys : List Node) : r.At (xs ++ before) (after ++ ys) :=
  ⟨h.front.trans (List.suffix_append _ _), h.back.trans (List.prefix_append _ _)⟩

theorem At.levelIds_subset {r : p.Run node} (h : r.At before after) :
    Node.levelIds (r.front ++ node :: r.back) ⊆ Node.levelIds (before ++ node :: after) := by
  obtain ⟨ahead, hfront⟩ := h.front
  obtain ⟨behind, hback⟩ := h.back
  have hinside : r.front ++ node :: r.back <:+: before ++ node :: after := ⟨ahead, behind, by simp [← hfront, ← hback]⟩
  exact (hinside.filterMap _).subset

theorem chain (hp : p.Named) (r : p.Run node) : p.Chain r.visited r.pending (r.front ++ node :: r.back) :=
  r.nodes_eq ▸ emit_chain hp r.visited r.emitted r.pending

/-- The run writes a fragment: a block that has not been emitted, after a blank line and a mark, with all that was emitted
as visited. That is `emitted` and what stands in `start`. -/
structure Fragment (r : p.Run node) (emitted : List Key) (before : List Node) (s : p.Place) (start : List Node) :
    Prop where
  pending : r.pending = [s]
  before_eq : ∃ type, before = start ++ opening type ++ r.front
  visited : ∀ k, k ∈ r.visited ↔ k ∈ emitted ∨ ∃ v ∈ Node.idsOf start, v.theKey = k

/-- A run for one block has nothing before the node of that block. -/
theorem front_eq_nil (hp : p.Named) (r : p.Run node) {s : p.Place} (hpending : r.pending = [s])
    (hid : node.blockId? = some s.1.block.id) : r.front = [] := by
  have hchain := r.chain hp
  rw [hpending] at hchain
  rcases hfront : r.front with _ | ⟨first, rest⟩
  · rfl
  rw [hfront] at hchain
  -- the first node is of the block as well, since nothing stands before it that could lead elsewhere
  obtain ⟨t, ht⟩ := hchain.placed [] first (rest ++ node :: r.back) rfl
  have hts : t = s := by
    rcases ht.source with hmem | ⟨u, -, hmem, -⟩
    · exact List.mem_singleton.1 hmem
    · cases hmem
  subst hts
  have hnodup := hchain.nodup
  rw [List.cons_append, keysOf_cons (ht.blockId? hp), keysOf_append, keysOf_cons hid] at hnodup
  exact absurd (List.mem_append_right _ List.mem_cons_self) (List.nodup_cons.1 hnodup).1

end Run

theorem append_eq_split {α : Type} {xs ys before after : List α} {x : α} (h : xs ++ ys = before ++ x :: after) :
    (∃ back, xs = before ++ x :: back ∧ after = back ++ ys) ∨ ∃ front, before = xs ++ front ∧ ys = front ++ x :: after := by
  rcases List.append_eq_append_iff.1 h with ⟨front, hbefore, hys⟩ | ⟨back, hxs, hafter⟩
  · exact Or.inr ⟨front, hbefore, hys⟩
  · rcases List.cons_eq_append_iff.1 hafter with ⟨rfl, rfl⟩ | ⟨back, rfl, hafter⟩
    · exact Or.inr ⟨[], by simpa using hxs.symm, rfl⟩
    · exact Or.inl ⟨back, hxs, by simpa using hafter⟩

theorem emitBody_cons (p : Plan) (visited emitted : List Key) (c : p.Place) (rest : List p.Place) :
    (p.emitBody visited emitted (c :: rest)).1 =
      (p.emit visited emitted [c]).nodes ++ (p.emitBody visited (p.emit visited emitted [c]).emitted rest).1 := by
  rw [emitBody]

/-- A node of a body is in the run of one of the children. -/
theorem emitBody_run (h : (p.emitBody visited emitted children).1 = before ++ node :: after) :
    ∃ c ∈ children, ∃ r : p.Run node, r.visited = visited ∧ r.pending = [c] ∧ r.At before after := by
  induction children generalizing emitted before after with
  | nil => simp [emitBody] at h
  | cons c rest ih =>
    rw [emitBody_cons] at h
    rcases append_eq_split h with ⟨back, hfirst, rfl⟩ | ⟨front, rfl, hrest⟩
    · exact ⟨c, List.mem_cons_self, ⟨visited, emitted, [c], before, back, hfirst⟩, rfl, rfl,
        List.suffix_refl _, List.prefix_append _ _⟩
    · obtain ⟨d, hd, r, hvisited, hpending, hat⟩ := ih hrest
      exact ⟨d, List.mem_cons_of_mem _ hd, r, hvisited, hpending, by simpa using hat.widen _ []⟩

theorem emitBody_covers (hp : p.Named) (visited emitted : List Key) {c : p.Place} (hc : c ∈ children) :
    c.1.key ∈ visited ∨ c.1.key ∈ keysOf (p.emitBody visited emitted children).1 := by
  induction children generalizing emitted with
  | nil => simp at hc
  | cons d rest ih =>
    rw [emitBody_cons, keysOf_append]
    rcases List.mem_cons.1 hc with rfl | hc
    · exact ((emit_chain hp visited emitted [c]).covers c List.mem_cons_self).imp_right (List.mem_append_left _)
    · exact (ih _ hc).imp_right (List.mem_append_right _)

theorem emitRest_cons {s : p.Place} (hs : s.1.key ∉ emitted) (rest : List p.Place) :
    (p.emitRest emitted (s :: rest)).1 = opening (typeName s.1.block) ++
      ((p.emit emitted emitted [s]).nodes ++ (p.emitRest (p.emit emitted emitted [s]).emitted rest).1) := by
  rw [emitRest, if_neg hs]
  rfl

/-- A node of what is left is in the run of a fragment, unless it comes before one. -/
theorem emitRest_run (hp : p.Named) {places : List p.Place} (hnode : ∀ type, node ∉ opening type)
    (h : (p.emitRest emitted places).1 = before ++ node :: after) :
    ∃ r : p.Run node, r.At before after ∧ ∃ s start, r.Fragment emitted before s start := by
  induction places generalizing emitted before after with
  | nil => simp [emitRest] at h
  | cons s rest ih =>
    by_cases hs : s.1.key ∈ emitted
    · rw [emitRest, if_pos hs] at h
      exact ih h
    rw [emitRest_cons hs] at h
    rcases append_eq_split h with ⟨back, hopening, -⟩ | ⟨front, rfl, hnodes⟩
    · exact absurd (by simp [hopening]) (hnode (typeName s.1.block))
    rcases append_eq_split hnodes with ⟨back, hfragment, rfl⟩ | ⟨front, rfl, hrest⟩
    · exact ⟨⟨emitted, emitted, [s], front, back, hfragment⟩, ⟨List.suffix_append _ _, List.prefix_append _ _⟩, s, [],
        rfl, ⟨_, rfl⟩, by simp⟩
    · obtain ⟨r, hat, t, start, hfragment⟩ := ih hrest
      obtain ⟨type, rfl⟩ := hfragment.before_eq
      refine ⟨r, by simpa using hat.widen (opening (typeName s.1.block) ++ (p.emit emitted emitted [s]).nodes) [], t,
        opening (typeName s.1.block) ++ (p.emit emitted emitted [s]).nodes ++ start, hfragment.pending,
        ⟨type, by simp⟩, fun k => ?_⟩
      rw [hfragment.visited, (emit_wrote hp emitted emitted [s]).mem_seen, or_assoc, Node.idsOf_append, Node.idsOf_append,
        idsOf_opening, List.nil_append]
      simp only [List.mem_append, or_and_right, exists_or]

/-- **The outermost list of a script.** A node is in the run of the starts or in that of a fragment, unless it comes
before one. -/
theorem body_run (hp : p.Named) (hnode : ∀ type, node ∉ opening type)
    (h : p.body.reached ++ p.body.fragments = before ++ node :: after) :
    ∃ r : p.Run node, r.At before after ∧
      (r.visited = [] ∧ r.pending = p.starts ∧ before = r.front ∨ ∃ s start, r.Fragment [] before s start) := by
  rcases append_eq_split h with ⟨back, hreached, rfl⟩ | ⟨front, rfl, hrest⟩
  · exact ⟨⟨[], [], p.starts, before, back, hreached⟩, ⟨List.suffix_refl _, List.prefix_append _ _⟩,
      Or.inl ⟨rfl, rfl, rfl⟩⟩
  · obtain ⟨r, hat, s, start, hfragment⟩ := emitRest_run hp hnode hrest
    obtain ⟨type, rfl⟩ := hfragment.before_eq
    refine ⟨r, by simpa using hat.widen p.body.reached [], Or.inr ⟨s, p.body.reached ++ start, hfragment.pending,
      ⟨type, by simp⟩, fun k => ?_⟩⟩
    rw [hfragment.visited, (emit_wrote hp [] [] p.starts).mem_seen, or_assoc, Node.idsOf_append]
    simp only [List.mem_append, or_and_right, exists_or]
    rfl

end Plan

end BlockFlow.Script
