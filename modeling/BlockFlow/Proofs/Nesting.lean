import BlockFlow.Proofs.Chains

/-!
The tree of a script reflects the edges of its flow. A place in the tree lies in some list, which is the outermost one or
a body; what its path has visited stands on the way to it, or was written before the fragment that it is in.

* `Enclosure`, `Inside`: the lists of a tree, with what encloses them.
* `OnWay`, `BeforeFragment`: what stands on the way to a list, and what was written before a fragment began.
* `Flow.Reflected`: **whatever stands in a list was led to by an edge, and every edge leads to something in a list**, but for
  what its path has met before.
* `Flow.Located`, `Flow.inside_located`: the run of emission around a place of the tree, by induction on what encloses it.
* `Work.build_reflects`: the tree of every script reflects its flow.
-/

namespace BlockFlow

open Script

namespace Script

/-! ## The lists of a tree -/

/-- What encloses a body: the block that holds it, and the nodes before the one of that block. -/
structure Enclosure where
  before : List Node
  holder : Value

/-- The lists of a tree: the outermost one, and the bodies with all that encloses them, the innermost first. -/
inductive Inside (top : List Node) : List Enclosure → List Node → Prop
  | top : Inside top [] top
  | body {around : List Enclosure} {before after body : List Node} {header closer : String} {origin : Value} :
      Inside top around (before ++ .block header body closer origin :: after) →
      Inside top (⟨before, origin⟩ :: around) body

/-- The nodes of the body of a node. -/
def Node.inner : Node → List Node
  | .block _ body _ _ => body
  | _ => []

/-- The block holds one of the enclosures, or its code stands before the holder of one. -/
def OnWay (around : List Enclosure) (v : Value) : Prop :=
  ∃ outer ∈ around, v = outer.holder ∨ v ∈ Node.levelIds outer.before

/-- The nodes of the outermost list that come before a place. In an enclosure, these are the ones before its holder. -/
def ahead : List Enclosure → List Node → List Node
  | [], before => before
  | outer :: around, _ => ahead around outer.before

/-- Of the nodes of the outermost list before a place, those before the last mark hold code of the block. -/
def BeforeFragment (nodes : List Node) (v : Value) : Prop :=
  ∃ front mark rest, nodes = front ++ mark :: rest ∧ mark.isMark = true ∧ (∀ node ∈ rest, node.isMark = false) ∧
    v ∈ Node.idsOf front

end Script

namespace Flow

variable {f : Flow} {around : List Enclosure} {before after : List Node} {node : Node}

/-- The code of a block without body that points at the given one is among the nodes. -/
def Follows (f : Flow) (before : List Node) (v : Value) : Prop :=
  ∃ b ∈ f.blocks, Plan.isControl b = false ∧ b.id ∈ Node.levelIds before ∧ f.Points b.id v

/-- A tree reflects the edges of a flow. -/
structure Reflected (f : Flow) (top : List Node) : Prop where
  /-- In a body stands what its holder points at, and what follows on a block before. -/
  nested : ∀ {outer around before node after v}, Inside top (outer :: around) (before ++ node :: after) →
    node.blockId? = some v → f.Points outer.holder v ∨ f.Follows before v
  /-- In the outermost list stands what the script starts at, what comes right after a mark, and what follows on a block
  before. -/
  outermost : ∀ {before node after v}, top = before ++ node :: after → node.blockId? = some v →
    f.IsStart v ∨ (∃ front mark, before = front ++ [mark] ∧ mark.isMark = true) ∨ f.Follows before v
  /-- What a block points at stands in its body if it has one, and else in the same list, unless it is the block itself,
  stands before it or on the way to it, or was written before the fragment began. -/
  complete : ∀ {around before node after b t}, Inside top around (before ++ node :: after) → b ∈ f.blocks →
    node.blockId? = some b.id → t ∈ f.ids → f.Points b.id t →
    t ∈ Node.levelIds (if Plan.isControl b then node.inner else before ++ node :: after) ∨ t = b.id ∨
      t ∈ Node.levelIds before ∨ OnWay around t ∨ BeforeFragment (ahead around before) t

/-! ## The run around a place -/

/-- Where the run around a place comes from: in the outermost list from the starts or from a block that is left, in a body
from a target of its holder. -/
def Stems (f : Flow) (r : f.plan.Run node) (before : List Node) : List Enclosure → Prop
  | [] => r.visited = [] ∧ r.pending = f.plan.starts ∧ before = r.front ∨ ∃ s start, r.Fragment [] before s start
  | outer :: _ => ∃ s c : f.plan.Place, s.1.block.id = outer.holder ∧ c ∈ f.plan.targets s.1.key ∧ r.pending = [c]

/-- The run of emission around a place of the tree. -/
structure Located (f : Flow) (around : List Enclosure) (before after : List Node) (r : f.plan.Run node) : Prop where
  at_place : r.At before after
  stems : f.Stems r before around
  /-- What the run had visited stands on the way to its list, or was written before its fragment. -/
  visited : ∀ t : f.plan.Place, t.1.key ∈ r.visited →
    OnWay around t.1.block.id ∨ BeforeFragment (ahead around before) t.1.block.id

theorem beforeFragment_of_fragment (hids : ∀ v ∈ f.ids, v.IsText) {r : f.plan.Run node} {s t : f.plan.Place}
    {start : List Node} (h : r.Fragment [] before s start) (ht : t.1.key ∈ r.visited) :
    BeforeFragment before t.1.block.id := by
  obtain ⟨type, rfl⟩ := h.before_eq
  obtain ⟨v, hv, hkey⟩ := ((h.visited _).1 ht).resolve_left (by simp)
  obtain ⟨htext, htkey⟩ := plan_named hids t.1 t.2
  rw [← htkey, htext.theKey_inj] at hkey
  subst hkey
  refine ⟨start ++ [.blank .null], _, r.front, by simp [Plan.opening], Plan.isMark_disconnected type .null, ?_, ?_⟩
  · intro m hm
    refine Plan.emit_unmarked r.visited r.emitted r.pending m (Node.mem_flatAll ?_)
    rw [r.nodes_eq]
    exact List.mem_append_left _ hm
  · rw [Node.idsOf_append]
    exact List.mem_append_left _ hv

/-- In the body of a block of a run, what is visited stands on the way there, or was written before the fragment. -/
theorem Located.visited_inner (hids : ∀ v ∈ f.ids, v.IsText) {r : f.plan.Run node} (h : f.Located around before after r)
    (s : f.plan.Place) {inside : List Node} (t : f.plan.Place)
    (ht : t.1.key ∈ s.1.key :: ((Plan.keysOf r.front).reverse ++ r.visited)) :
    OnWay (⟨before, s.1.block.id⟩ :: around) t.1.block.id ∨
      BeforeFragment (ahead (⟨before, s.1.block.id⟩ :: around) inside) t.1.block.id := by
  have hnamed := plan_named hids
  rcases List.mem_cons.1 ht with heq | ht
  · exact Or.inl ⟨_, List.mem_cons_self, Or.inl (hnamed.id_eq heq)⟩
  rcases List.mem_append.1 ht with hfront | hvisited
  · rw [List.mem_reverse, Plan.mem_keysOf hnamed] at hfront
    exact Or.inl ⟨_, List.mem_cons_self, Or.inr ((h.at_place.front.filterMap _).subset hfront)⟩
  · refine (h.visited t hvisited).imp_left ?_
    rintro ⟨outer, houter, hmem⟩
    exact ⟨outer, List.mem_cons_of_mem _ houter, hmem⟩

/-- **Every place of the tree of a script is in a run of emission.** -/
theorem inside_located (hids : ∀ v ∈ f.ids, v.IsText) {list : List Node}
    (h : Inside (f.plan.body.reached ++ f.plan.body.fragments) around list) (hlist : list = before ++ node :: after)
    (hnode : ∀ type, node ∉ Plan.opening type) : ∃ r : f.plan.Run node, f.Located around before after r := by
  have hnamed := plan_named hids
  induction h generalizing before node after with
  | top =>
    obtain ⟨r, hat, hstems⟩ := Plan.body_run hnamed hnode hlist
    refine ⟨r, hat, hstems, fun t ht => ?_⟩
    rcases hstems with ⟨hvisited, -⟩ | ⟨s, start, hfragment⟩
    · rw [hvisited] at ht
      cases ht
    · exact Or.inr (beforeFragment_of_fragment hids hfragment ht)
  | @body around front _ body header closer origin _ ih =>
    -- the holder is in a run, which has written its body with all before it as visited
    obtain ⟨r, hr⟩ := ih rfl (by simp [Plan.opening])
    obtain ⟨s, hs⟩ := (r.chain hnamed).placed _ _ _ rfl
    obtain ⟨rfl, emitted, hbody⟩ := hs.of_block
    obtain ⟨c, hchild, q, hq, hpending, hat⟩ := Plan.emitBody_run (hbody.symm.trans hlist)
    exact ⟨q, hat, ⟨s, c, rfl, hchild, hpending⟩, fun t ht => hr.visited_inner hids s t (hq ▸ ht)⟩

/-! ## The tree reflects the edges -/

theorem points_of_mem_targets (hids : ∀ v ∈ f.ids, v.IsText) (hends : f.KeyedEnds) {s t : f.plan.Place}
    (h : t ∈ f.plan.targets s.1.key) : f.Points s.1.block.id t.1.block.id := by
  have hnamed := plan_named hids
  have hleads : f.plan.Leads s.1.block.id.theKey t.1.key := ⟨t, (hnamed s.1 s.2).2.symm ▸ h, rfl⟩
  obtain ⟨v, hv, hkey⟩ := (plan_leads hids hends (exists_site.1 ⟨s.1, s.2, rfl⟩)).1 hleads
  rw [← (hnamed t.1 t.2).2, (hnamed t.1 t.2).1.theKey_inj] at hkey
  exact hkey ▸ hv.1

theorem exists_target (hids : ∀ v ∈ f.ids, v.IsText) (hends : f.KeyedEnds) {s : f.plan.Place} {v : Value}
    (hv : v ∈ f.ids) (h : f.Points s.1.block.id v) : ∃ t ∈ f.plan.targets s.1.key, t.1.block.id = v := by
  have hnamed := plan_named hids
  have hs : s.1.block.id ∈ f.ids := exists_site.1 ⟨s.1, s.2, rfl⟩
  obtain ⟨t, ht, hkey⟩ := (plan_leads hids hends hs).2 ⟨v, ⟨h, hs, hv⟩, rfl⟩
  rw [(hnamed s.1 s.2).2] at ht
  rw [← (hnamed t.1 t.2).2, (hids v hv).theKey_inj] at hkey
  exact ⟨t, ht, hkey⟩

variable (hids : ∀ v ∈ f.ids, v.IsText) (hends : f.KeyedEnds)

include hids hends

/-- What led to a node of a run: it was pending, or it follows on a block before. -/
theorem follows_of_placed {r : f.plan.Run node} (hat : r.At before after) {s : f.plan.Place}
    (hs : f.plan.Placed r.visited r.pending r.front node r.back s) :
    s ∈ r.pending ∨ f.Follows before s.1.block.id := by
  refine hs.source.imp_right ?_
  rintro ⟨u, hu, hmem, htarget⟩
  exact ⟨u.1.block, mem_blocks u, hu, (hat.front.filterMap _).subset hmem, points_of_mem_targets hids hends htarget⟩

theorem reflected_nested {outer : Enclosure} {v : Value}
    (h : Inside (f.plan.body.reached ++ f.plan.body.fragments) (outer :: around) (before ++ node :: after))
    (hv : node.blockId? = some v) : f.Points outer.holder v ∨ f.Follows before v := by
  have hnamed := plan_named hids
  obtain ⟨r, hr⟩ := inside_located hids h rfl (Plan.not_mem_opening hv)
  obtain ⟨s, hs⟩ := (r.chain hnamed).placed _ _ _ rfl
  obtain rfl : s.1.block.id = v := by simpa [hs.blockId? hnamed] using hv
  obtain ⟨u, c, hholder, hchild, hpending⟩ := hr.stems
  refine (follows_of_placed hids hends hr.at_place hs).imp_left fun hmem => ?_
  rw [hpending] at hmem
  obtain rfl := List.mem_singleton.1 hmem
  exact hholder ▸ points_of_mem_targets hids hends hchild

theorem reflected_outermost {v : Value}
    (h : f.plan.body.reached ++ f.plan.body.fragments = before ++ node :: after) (hv : node.blockId? = some v) :
    f.IsStart v ∨ (∃ front mark, before = front ++ [mark] ∧ mark.isMark = true) ∨ f.Follows before v := by
  have hnamed := plan_named hids
  obtain ⟨r, hr⟩ := inside_located hids .top h (Plan.not_mem_opening hv)
  obtain ⟨s, hs⟩ := (r.chain hnamed).placed _ _ _ rfl
  obtain rfl : s.1.block.id = v := by simpa [hs.blockId? hnamed] using hv
  rcases follows_of_placed hids hends hr.at_place hs with hmem | hfollows
  · rcases hr.stems with ⟨-, hpending, -⟩ | ⟨t, start, hfragment⟩
    · rw [hpending] at hmem
      exact Or.inl ((exists_start hids hends).1 ⟨s, hmem, rfl⟩)
    · have hpending := hfragment.pending
      rw [hpending] at hmem
      obtain rfl := List.mem_singleton.1 hmem
      obtain ⟨type, hbefore⟩ := hfragment.before_eq
      rw [r.front_eq_nil hnamed hpending hv, List.append_nil] at hbefore
      exact Or.inr (Or.inl ⟨start ++ [.blank .null], _, by simp [hbefore, Plan.opening],
        Plan.isMark_disconnected type .null⟩)
  · exact Or.inr (Or.inr hfollows)

theorem reflected_complete (hdistinct : f.ids.Nodup) {b : Block} {t : Value}
    (h : Inside (f.plan.body.reached ++ f.plan.body.fragments) around (before ++ node :: after)) (hb : b ∈ f.blocks)
    (hid : node.blockId? = some b.id) (ht : t ∈ f.ids) (hpoints : f.Points b.id t) :
    t ∈ Node.levelIds (if Plan.isControl b then node.inner else before ++ node :: after) ∨ t = b.id ∨
      t ∈ Node.levelIds before ∨ OnWay around t ∨ BeforeFragment (ahead around before) t := by
  have hnamed := plan_named hids
  obtain ⟨r, hr⟩ := inside_located hids h rfl (Plan.not_mem_opening hid)
  obtain ⟨s, hs⟩ := (r.chain hnamed).placed _ _ _ rfl
  have hsid : s.1.block.id = b.id := by simpa [hs.blockId? hnamed] using hid
  obtain rfl : s.1.block = b := List.inj_on_of_nodup_map hdistinct (mem_blocks s) hb hsid
  obtain ⟨u, htarget, rfl⟩ := exists_target hids hends ht hpoints
  cases hc : Plan.isControl s.1.block with
  | false =>
    -- the run goes on with what the block points at
    rw [if_neg (by simp)]
    rcases (hs.follows hc).2 u htarget with hu | hu
    · exact Or.inr (Or.inr (Or.inr (hr.visited u hu)))
    · rw [Plan.mem_keysOf hnamed] at hu
      exact Or.inl (hr.at_place.levelIds_subset hu)
  | true =>
    obtain ⟨emitted, hnode⟩ := hs.encloses hc
    have hinner := congrArg Node.inner hnode
    rw [if_pos rfl, hinner]
    rcases Plan.emitBody_covers hnamed _ emitted htarget with hu | hu
    · -- the body leaves out the block itself, what stands before it, and what the run had visited
      rcases List.mem_cons.1 hu with heq | hu
      · exact Or.inr (Or.inl (hnamed.id_eq heq))
      rcases List.mem_append.1 hu with hu | hu
      · rw [List.mem_reverse, Plan.mem_keysOf hnamed] at hu
        exact Or.inr (Or.inr (Or.inl ((hr.at_place.front.filterMap _).subset hu)))
      · exact Or.inr (Or.inr (Or.inr (hr.visited u hu)))
    · rw [Plan.mem_keysOf hnamed] at hu
      exact Or.inl hu

end Flow

namespace Work

variable {f : Flow} {w : Workspace} {given : Option Moment} {stamp : String}

/-- **The tree of a script reflects the edges of its flow.** Whatever the edges are, also in circles, twice or to no block
of the flow, the script holds code of exactly the blocks of the flow. What stands in a list was led to by an edge, from the
holder of the list or from a block before, or else is where the script or a fragment starts; and what a block points at
stands where it belongs, but for what has come before on the way there. -/
theorem build_reflects (hids : ∀ v ∈ f.ids, v.IsText) (hdistinct : f.ids.Nodup) (hends : f.KeyedEnds)
    (hstamp : w.scriptStamp given = .ok stamp) :
    ∃ program w', Work.build f given w = (.ok program, w') ∧ (∀ v, v ∈ program.blockIds ↔ v ∈ f.ids) ∧
      f.Reflected program.body := by
  have hplan := Flow.ofFlow_eq_plan (fun v hv => (hids v hv).hasKey) hends
  obtain ⟨w', hbuild⟩ := build_eq_ok hplan hstamp
  refine ⟨_, w', hbuild, fun v => ?_, ?_, ?_, ?_⟩
  · rw [Program.blockIds_eq]
    exact Flow.mem_idsOf_body hids
  · exact fun h hv => Flow.reflected_nested hids hends h hv
  · exact fun h hv => Flow.reflected_outermost hids hends h hv
  · exact fun h hb hid ht hpoints => Flow.reflected_complete hids hends hdistinct h hb hid ht hpoints

/-- Two branches that go on to the same block and from there back to where they part, and two blocks apart from them that
point at each other, one of them into a branch as well. -/
def branches : Flow :=
  { id := .text "flow-1"
    blocks := [("a", "if-else"), ("b", "variable"), ("c", "for-loop"), ("d", "return"), ("e", "while-loop"),
        ("g", "console.log")].map fun (id, type) => .fresh (.text id) (.text type) .null
    edges := [("a", "b"), ("a", "c"), ("b", "d"), ("c", "d"), ("d", "a"), ("e", "g"), ("g", "e"), ("g", "d")].map
      fun (source, target) => { id := .null, source := .text source, target := .text target } }

theorem build_reflects_branches :
    (∀ v ∈ branches.ids, v.IsText) ∧ branches.ids.Nodup ∧ branches.KeyedEnds ∧
      Workspace.scriptStamp { flow := branches } none = .ok "1970-01-01T00:00:00.000Z" ∧
      ∃ program w', Work.build branches none { flow := branches } = (.ok program, w') ∧
        (∀ v, v ∈ program.blockIds ↔ v ∈ branches.ids) ∧ branches.Reflected program.body := by
  have hids : ∀ v ∈ branches.ids, v.IsText := by simp [branches, Flow.ids, Block.fresh, Value.IsText]
  have hdistinct : branches.ids.Nodup := by simp [branches, Flow.ids, Block.fresh]
  have hends : branches.KeyedEnds := by simp [branches, Flow.KeyedEnds, Value.HasKey]
  have hstamp : Workspace.scriptStamp { flow := branches } none = .ok "1970-01-01T00:00:00.000Z" := by rfl
  exact ⟨hids, hdistinct, hends, hstamp, build_reflects hids hdistinct hends hstamp⟩

end Work

end BlockFlow
