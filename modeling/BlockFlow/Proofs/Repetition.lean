import BlockFlow.Proofs.Chains

/-!
No code is repeated in scope. A block may be written many times in branches that do not see each other, but never where its
code is already in force: a path writes nothing that it has visited, a body has visited all that stands before it in its
run, and a fragment all that was written before.

* `Plan.Unvisited`: code at any depth that a path has not visited, and none of it inside of itself.
* `Plan.keysOf_body_nodup`: **the outermost list holds no block twice.**
* `Plan.before_disjoint_inner`: nothing in a body of the outermost list stands before that body in the list.
* `Plan.flatAll_body`: without blocks that have bodies, a script is one list.
* `Work.build_unrepeated`: **no script repeats code in scope.**
-/

namespace BlockFlow

namespace Script

namespace Plan

variable {p : Plan} {visited emitted : List Key} {before after nodes body : List Node}

/-! ## What a path has visited -/

/-- The code of nodes, at any depth, has not been visited, and no block is inside of its own body. -/
structure Unvisited (visited : List Key) (nodes : List Node) : Prop where
  fresh : ∀ v ∈ Node.idsOf nodes, v.theKey ∉ visited
  own : ∀ {header body closer origin}, .block header body closer origin ∈ Node.flatAll nodes → origin ∉ Node.idsOf body

namespace Unvisited

theorem nil (visited : List Key) : Unvisited visited [] :=
  ⟨by simp, by simp⟩

theorem append (h : Unvisited visited body) (h' : Unvisited visited nodes) : Unvisited visited (body ++ nodes) := by
  refine ⟨?_, fun hmem => ?_⟩
  · rw [Node.idsOf_append]
    exact List.forall_mem_append.2 ⟨h.fresh, h'.fresh⟩
  · rw [Node.flatAll_append] at hmem
    exact (List.mem_append.1 hmem).elim h.own h'.own

theorem mono {seen : List Key} (hsub : seen ⊆ visited) (h : Unvisited visited nodes) : Unvisited seen nodes :=
  ⟨fun v hv hmem => h.fresh v hv (hsub hmem), h.own⟩

theorem drop {k : Key} (h : Unvisited (k :: visited) nodes) : Unvisited visited nodes :=
  h.mono (List.subset_cons_self _ _)

theorem opening (visited : List Key) (type : String) : Unvisited visited (opening type) :=
  ⟨by simp, by simp [Plan.opening, Node.flat]⟩

theorem statement (hp : p.Named) {s : p.Place} (hs : s.1.key ∉ visited) : Unvisited visited [statementNode s.1.block] := by
  obtain ⟨htext, hkey⟩ := hp s.1 s.2
  refine ⟨?_, fun hmem => ?_⟩
  · rw [idsOf_statementNode htext]
    simpa [hkey] using hs
  · rw [Node.flatAll_cons, flat_statementNode] at hmem
    unfold statementNode at hmem
    split at hmem <;> simp at hmem

/-- A block with a body that was written with its key as visited. -/
theorem enclose (hp : p.Named) {s : p.Place} (hs : s.1.key ∉ visited) (h : Unvisited (s.1.key :: visited) body) :
    Unvisited visited [structureNode s.1.block body] := by
  obtain ⟨htext, hkey⟩ := hp s.1 s.2
  refine ⟨?_, fun hmem => ?_⟩
  · rw [idsOf_structureNode htext]
    simpa [hkey] using ⟨hs, h.drop.fresh⟩
  · rcases List.mem_cons.1 hmem with heq | hmem
    · obtain ⟨-, rfl, -, rfl⟩ := Node.block.inj heq
      exact fun hid => h.fresh _ hid (hkey ▸ List.mem_cons_self)
    · exact h.own (by simpa using hmem)

end Unvisited

/-- **A run writes nothing that its path has visited**, at any depth. -/
theorem emission_unvisited (hp : p.Named) :
    (∀ visited emitted pending, Unvisited visited (p.emit visited emitted pending).nodes) ∧
      ∀ visited emitted children, Unvisited visited (p.emitBody visited emitted children).1 := by
  refine emission_induction (fun v _ _ r => Unvisited v r.nodes) (fun v _ _ r => Unvisited v r.1) ?_ ?_ ?_ ?_ ?_ ?_
  · exact fun visited _ => .nil visited
  · exact fun _ h => h
  · exact fun hs _ hbody hrest => (Unvisited.enclose hp hs hbody).append hrest.drop
  · exact fun hs _ hrest => (Unvisited.statement hp hs).append hrest.drop
  · exact fun visited _ => .nil visited
  · exact fun hfirst hrest => hfirst.append hrest

/-- No block of a script is inside of its own body. -/
theorem body_unvisited (hp : p.Named) : Unvisited [] (p.body.reached ++ p.body.fragments) := by
  have hrest (emitted : List Key) (places : List p.Place) : Unvisited [] (p.emitRest emitted places).1 := by
    induction places generalizing emitted with
    | nil => exact .nil []
    | cons s rest ih =>
      by_cases hs : s.1.key ∈ emitted
      · rw [emitRest, if_pos hs]
        exact ih emitted
      · rw [emitRest_cons hs]
        have hfragment := (emission_unvisited hp).1 emitted emitted [s]
        exact (Unvisited.opening [] _).append ((hfragment.mono (by simp)).append (ih _))
  exact ((emission_unvisited hp).1 [] [] p.starts).append (hrest _ _)

/-! ## The outermost list -/

theorem Wrote.mem_of_mem_keysOf {seen : List Key} {k : Key} (h : p.Wrote emitted nodes seen) (hk : k ∈ keysOf nodes) :
    k ∈ seen := by
  obtain ⟨v, hv, rfl⟩ := List.mem_map.1 hk
  exact (h.mem_seen _).2 (Or.inr ⟨v, levelIds_subset nodes hv, rfl⟩)

/-- What comes after a run holds nothing of it, if it holds nothing that was emitted by then. -/
theorem Wrote.nodup_append {seen : List Key} (h : p.Wrote emitted body seen) (hbody : (keysOf body).Nodup)
    (hnodes : (keysOf nodes).Nodup) (hfresh : ∀ k ∈ keysOf nodes, k ∉ seen) : (keysOf (body ++ nodes)).Nodup := by
  rw [keysOf_append]
  exact List.nodup_append.2 ⟨hbody, hnodes, fun k hk l hl heq => hfresh l hl (heq ▸ h.mem_of_mem_keysOf hk)⟩

theorem keysOf_emitRest (hp : p.Named) (emitted : List Key) (places : List p.Place) :
    (keysOf (p.emitRest emitted places).1).Nodup ∧ ∀ k ∈ keysOf (p.emitRest emitted places).1, k ∉ emitted := by
  induction places generalizing emitted with
  | nil => simp [emitRest]
  | cons s rest ih =>
    by_cases hs : s.1.key ∈ emitted
    · rw [emitRest, if_pos hs]
      exact ih emitted
    · obtain ⟨hnodup, hfresh⟩ := ih (p.emit emitted emitted [s]).emitted
      -- the fragment visits all that is emitted, so it repeats nothing; what comes after it repeats nothing of it
      have hchain := emit_chain hp emitted emitted [s]
      have hwrote := emit_wrote hp emitted emitted [s]
      rw [emitRest_cons hs, keysOf_append, keysOf_opening, List.nil_append]
      refine ⟨hwrote.nodup_append hchain.nodup hnodup hfresh, ?_⟩
      rw [keysOf_append]
      exact List.forall_mem_append.2
        ⟨hchain.fresh, fun k hk hold => hfresh k hk ((hwrote.mem_seen k).2 (Or.inl hold))⟩

/-- **The outermost list holds no block twice.** -/
theorem keysOf_body_nodup (hp : p.Named) : (keysOf (p.body.reached ++ p.body.fragments)).Nodup := by
  obtain ⟨hnodup, hfresh⟩ := keysOf_emitRest hp (p.emit [] [] p.starts).emitted p.sites.attach
  exact (emit_wrote hp [] [] p.starts).nodup_append (emit_chain hp [] [] p.starts).nodup hnodup hfresh

/-- **A body in the outermost list holds nothing that stands before it.** Its run has visited what it wrote there, and what
was written before the run began. -/
theorem before_disjoint_inner (hp : p.Named) {header closer : String} {origin v : Value}
    (h : p.body.reached ++ p.body.fragments = before ++ .block header body closer origin :: after)
    (hv : v ∈ Node.levelIds before) : v ∉ Node.idsOf body := by
  obtain ⟨r, -, hcases⟩ := body_run hp (by simp [opening]) h
  obtain ⟨s, hs⟩ := (r.chain hp).placed _ _ _ rfl
  obtain ⟨-, emitted, hbody⟩ := hs.of_block
  have hvisited : v.theKey ∈ (keysOf r.front).reverse ++ r.visited := by
    rw [List.mem_append, List.mem_reverse]
    rcases hcases with ⟨-, -, rfl⟩ | ⟨t, start, hfragment⟩
    · exact Or.inl (List.mem_map_of_mem hv)
    · -- before the node stand what came before the fragment, its opening, and what the fragment has written
      obtain ⟨type, rfl⟩ := hfragment.before_eq
      rw [Node.levelIds, List.filterMap_append, List.filterMap_append] at hv
      rcases List.mem_append.1 hv with hv | hv
      · refine Or.inr ((hfragment.visited _).2 (Or.inr ⟨v, levelIds_subset start ?_, rfl⟩))
        exact (List.mem_append.1 hv).resolve_right (by simp [opening, Node.blockId?, Node.isBlank, Node.origin])
      · exact Or.inl (List.mem_map_of_mem hv)
  rw [hbody]
  exact fun hid => ((emission_unvisited hp).2 _ emitted _).fresh v hid (List.mem_cons_of_mem _ hvisited)

/-! ## Scripts without bodies -/

section Flat

variable (hflat : ∀ s ∈ p.sites, isControl s.block = false)

include hflat

theorem flatAll_emit (visited emitted : List Key) (pending : List p.Place) :
    Node.flatAll (p.emit visited emitted pending).nodes = (p.emit visited emitted pending).nodes := by
  refine chain_induction (fun _ _ _ r => Node.flatAll r.nodes = r.nodes) ?_ ?_ ?_ ?_ visited emitted pending
  · exact fun _ _ => rfl
  · exact fun _ h => h
  · intro _ _ s _ _ _ _ hc _
    rw [hflat s.1 s.2] at hc
    cases hc
  · intro _ _ s _ r _ _ h
    rw [Node.flatAll_cons, flat_statementNode, h]
    rfl

theorem flatAll_emitRest (emitted : List Key) (places : List p.Place) :
    Node.flatAll (p.emitRest emitted places).1 = (p.emitRest emitted places).1 := by
  induction places generalizing emitted with
  | nil => rfl
  | cons s rest ih =>
    by_cases hs : s.1.key ∈ emitted
    · rw [emitRest, if_pos hs]
      exact ih emitted
    · rw [emitRest_cons hs, Node.flatAll_append, Node.flatAll_append, flatAll_emit hflat, ih]
      rfl

/-- **Without blocks that have bodies, a script is one list.** -/
theorem flatAll_body : Node.flatAll (p.body.reached ++ p.body.fragments) = p.body.reached ++ p.body.fragments := by
  rw [Node.flatAll_append]
  exact congrArg₂ _ (flatAll_emit hflat [] [] p.starts) (flatAll_emitRest hflat _ _)

end Flat

end Plan

/-- Nodes that repeat no code in scope. -/
structure Unrepeated (top : List Node) : Prop where
  /-- No block is twice in the outermost list. -/
  outermost : (Node.levelIds top).Nodup
  /-- No block is at any depth inside of its own body. -/
  own : ∀ {header body closer origin}, .block header body closer origin ∈ Node.flatAll top → origin ∉ Node.idsOf body
  /-- No block in the outermost list is at any depth inside of a body after it there. -/
  earlier : ∀ {before header body closer origin after v}, top = before ++ .block header body closer origin :: after →
    v ∈ Node.levelIds before → v ∉ Node.idsOf body

end Script

open Script

namespace Work

variable {f : Flow} {w : Workspace} {given : Option Moment} {stamp : String}

/-- **No script repeats code in scope.** Whatever the blocks and the edges are, also two blocks of one identifier, the
script holds no block twice in its outermost list, none inside of its own body, and none inside of a body that comes after
it in that list. Without blocks that have bodies, it holds each identifier exactly once. -/
theorem build_unrepeated (hids : ∀ v ∈ f.ids, v.IsText) (hends : f.KeyedEnds)
    (hstamp : w.scriptStamp given = .ok stamp) :
    ∃ program w', Work.build f given w = (.ok program, w') ∧ Unrepeated program.body ∧
      ((∀ b ∈ f.blocks, Plan.isControl b = false) →
        program.blockIds.Nodup ∧ ∀ v, v ∈ program.blockIds ↔ v ∈ f.ids) := by
  have hplan := Flow.ofFlow_eq_plan (fun v hv => (hids v hv).hasKey) hends
  have hnamed := Flow.plan_named hids
  obtain ⟨w', hbuild⟩ := build_eq_ok hplan hstamp
  have houtermost : (Node.levelIds (assemble f f.plan.body stamp).body).Nodup :=
    (Plan.keysOf_body_nodup hnamed).of_map _
  refine ⟨_, w', hbuild, ⟨houtermost, ?_, ?_⟩, fun hflat => ?_⟩
  · exact fun hmem => (Plan.body_unvisited hnamed).own hmem
  · exact fun h hv => Plan.before_disjoint_inner hnamed h hv
  · rw [Program.blockIds_eq]
    refine ⟨?_, fun v => Flow.mem_idsOf_body hids⟩
    have hsites : ∀ s ∈ f.plan.sites, Plan.isControl s.block = false := fun s hs => hflat _ (Flow.mem_blocks ⟨s, hs⟩)
    rw [Node.idsOf, assemble, Plan.flatAll_body hsites]
    exact houtermost

/-- Two blocks of one identifier, a loop that holds itself and another loop, and a circle apart from them that leads into
the loop. -/
def loops : Flow :=
  { id := .text "flow-1"
    blocks := [("a", "variable"), ("a", "return"), ("b", "while-loop"), ("c", "forEach"), ("d", "for-loop"),
        ("e", "console.log")].map fun (id, type) => .fresh (.text id) (.text type) .null
    edges := [("a", "b"), ("b", "b"), ("b", "c"), ("c", "a"), ("d", "e"), ("e", "d"), ("e", "c")].map
      fun (source, target) => { id := .null, source := .text source, target := .text target } }

/-- Two blocks without bodies in a circle. -/
def ring : Flow :=
  { id := .text "flow-1"
    blocks := ["a", "b"].map fun id => .fresh (.text id) (.text "console.log") .null
    edges := [("a", "b"), ("b", "a")].map fun (source, target) =>
      { id := .null, source := .text source, target := .text target } }

theorem build_unrepeated_loops :
    ((∀ v ∈ loops.ids, v.IsText) ∧ loops.KeyedEnds ∧
      Workspace.scriptStamp { flow := loops } none = .ok "1970-01-01T00:00:00.000Z" ∧
      ∃ program w', Work.build loops none { flow := loops } = (.ok program, w') ∧ Unrepeated program.body) ∧
    (∀ b ∈ ring.blocks, Plan.isControl b = false) ∧
      ∃ program w', Work.build ring none { flow := ring } = (.ok program, w') ∧ program.blockIds.Nodup := by
  have hids : ∀ v ∈ loops.ids, v.IsText := by simp [loops, Flow.ids, Block.fresh, Value.IsText]
  have hends : loops.KeyedEnds := by simp [loops, Flow.KeyedEnds, Value.HasKey]
  have hstamp : Workspace.scriptStamp { flow := loops } none = .ok "1970-01-01T00:00:00.000Z" := by rfl
  have hring : ∀ v ∈ ring.ids, v.IsText := by simp [ring, Flow.ids, Block.fresh, Value.IsText]
  have hringEnds : ring.KeyedEnds := by simp [ring, Flow.KeyedEnds, Value.HasKey]
  have hringStamp : Workspace.scriptStamp { flow := ring } none = .ok "1970-01-01T00:00:00.000Z" := by rfl
  have hflat : ∀ b ∈ ring.blocks, Plan.isControl b = false := by decide
  obtain ⟨program, w', hbuild, hunrepeated, -⟩ := build_unrepeated hids hends hstamp
  obtain ⟨flat, w'', hbuildRing, -, hnodup⟩ := build_unrepeated hring hringEnds hringStamp
  exact ⟨⟨hids, hends, hstamp, program, w', hbuild, hunrepeated⟩, hflat, flat, w'', hbuildRing, (hnodup hflat).1⟩

end Work

end BlockFlow
