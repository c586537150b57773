import BlockFlow.Proofs.Chains
import Mathlib.Logic.Equiv.Basic

/-!
Scripts tell nothing of how a flow is represented. A flow can be drawn again with other identifiers, at other positions and
with its edges in another order, as long as the blocks keep their order and so do the edges of each source; then emission
takes the same steps on both, and the scripts are the same text.

* `Value.Renamed`, `Flow.Redrawn`: identifiers under other names, and a flow that is drawn again.
* `Node.anonymous`, `linesOf_anonymous`: nodes without their origins are written in the same way.
* `Plan.Redrawn`: the same of plans; `Plan.targets_redrawn`, `Plan.starts_redrawn`: what is looked up is the same.
* `Plan.emission_redrawn`: **emission on two such plans, step by step.**
* `Work.generate_redrawn`: **a flow that is drawn again has the same script.**
-/

namespace BlockFlow

open Script

/-! ## Drawing a flow again -/

/-- The second value has the new name of the first as its key. -/
def Value.Renamed (ρ : Key → Key) (v u : Value) : Prop := ∃ k, v.key = .ok k ∧ u.key = .ok (ρ k)

/-- The second block is the first under a new name. Its position and its cache do not matter. -/
structure Block.Renamed (ρ : Key → Key) (b c : Block) : Prop where
  id : b.id.Renamed ρ c.id
  type : c.type = b.type
  params : c.params = b.params

/-- The second edge joins the new names of the ends of the first. Its identifier and its handles do not matter. -/
structure Edge.Renamed (ρ : Key → Key) (e d : Edge) : Prop where
  source : e.source.Renamed ρ d.source
  target : e.target.Renamed ρ d.target

/-- The second flow is the first under new names, with the edges of each source in the same order. The identifier and the
times of the flow do not matter. -/
structure Flow.Redrawn (ρ : Key → Key) (f g : Flow) : Prop where
  name : g.name = f.name
  blocks : List.Forall₂ (Block.Renamed ρ) f.blocks g.blocks
  edges : ∃ renamed, List.Forall₂ (Edge.Renamed ρ) f.edges renamed ∧ g.edges.Perm renamed ∧
    ∀ k, g.edges.filter (fun e => e.source.theKey == k) = renamed.filter fun e => e.source.theKey == k

namespace Value.Renamed

variable {ρ : Key → Key} {v u : Value}

theorem hasKey (h : v.Renamed ρ u) : v.HasKey := h.imp fun _ hk => hk.1

theorem hasKey_right (h : v.Renamed ρ u) : u.HasKey := h.elim fun k hk => ⟨ρ k, hk.2⟩

theorem theKey_eq (h : v.Renamed ρ u) : u.theKey = ρ v.theKey := by
  obtain ⟨k, hv, hu⟩ := h
  simp [theKey, hv, hu, Except.toOption]

end Value.Renamed

namespace Script

/-! ## Nodes without origins -/

namespace Node

mutual

/-- A node without the blocks that it and the nodes below it are made for. -/
def anonymous : Node → Node
  | .statement text _ => .statement text .null
  | .comment text _ => .comment text .null
  | .blank _ => .blank .null
  | .block header body closer _ => .block header (anonymousAll body) closer .null

def anonymousAll : List Node → List Node
  | [] => []
  | node :: rest => anonymous node :: anonymousAll rest

end

@[simp] theorem anonymousAll_append (xs ys : List Node) : anonymousAll (xs ++ ys) = anonymousAll xs ++ anonymousAll ys := by
  induction xs with
  | nil => rfl
  | cons x xs ih => simp [anonymousAll, ih]

end Node

mutual

theorem Writer.writeNode_anonymous (w : Writer) : ∀ node : Node, w.writeNode node.anonymous = w.writeNode node
  | .statement .. => rfl
  | .comment .. => rfl
  | .blank .. => rfl
  | .block header body closer _ => by
    rw [Node.anonymous, writeNode, writeNode, Writer.write_anonymous _ body]

theorem Writer.write_anonymous (w : Writer) : ∀ nodes : List Node, w.write (Node.anonymousAll nodes) = w.write nodes
  | [] => rfl
  | node :: rest => by
    rw [Node.anonymousAll, write, write, Writer.writeNode_anonymous w node, Writer.write_anonymous _ rest]

end

/-- **The lines of nodes do not tell which blocks they were made for.** -/
theorem linesOf_anonymous (indent : Int) (nodes : List Node) :
    linesOf indent (Node.anonymousAll nodes) = linesOf indent nodes := by
  rw [linesOf, linesOf, Writer.write_anonymous]

/-! ## Blocks under new names -/

section Blocks

variable {ρ : Key → Key} {b c : Block}

theorem typeName_renamed (h : b.Renamed ρ c) : typeName c = typeName b := by
  rw [typeName, typeName, h.type]

theorem isControl_renamed (h : b.Renamed ρ c) : Plan.isControl c = Plan.isControl b := by
  rw [Plan.isControl, Plan.isControl, typeName_renamed h]

/-- The code of a block is made of its type and its parameters. -/
theorem code_renamed (h : b.Renamed ρ c) : statement? c = statement? b ∧ structure? c = structure? b := by
  obtain ⟨id, type, position, params, cache⟩ := b
  obtain ⟨id', type', position', params', cache'⟩ := c
  obtain rfl : type' = type := h.type
  obtain rfl : params' = params := h.params
  exact ⟨rfl, rfl⟩

theorem anonymous_statementNode (h : b.Renamed ρ c) :
    (Plan.statementNode c).anonymous = (Plan.statementNode b).anonymous := by
  unfold Plan.statementNode
  rw [(code_renamed h).1, typeName_renamed h]
  cases statement? b <;> rfl

theorem anonymous_structureNode (h : b.Renamed ρ c) {body body' : List Node}
    (hbody : Node.anonymousAll body' = Node.anonymousAll body) :
    (Plan.structureNode c body').anonymous = (Plan.structureNode b body).anonymous := by
  unfold Plan.structureNode
  rw [(code_renamed h).2]
  simp only [Node.anonymous, hbody]

end Blocks

/-! ## Plans under new names -/

/-- The second block with its key is the first under a new name. -/
structure Site.Renamed (ρ : Key → Key) (s t : Site) : Prop where
  key : t.key = ρ s.key
  block : s.block.Renamed ρ t.block

namespace Plan

variable {ρ : Key → Key} {p q : Plan}

/-- The second plan is the first under new names, with the links of each source in the same order. -/
structure Redrawn (ρ : Key → Key) (p q : Plan) : Prop where
  sites : List.Forall₂ (Site.Renamed ρ) p.sites q.sites
  links : q.links.Perm (p.links.map (Prod.map ρ ρ))
  order : ∀ k, q.links.filter (fun l => l.1 == k) = (p.links.map (Prod.map ρ ρ)).filter fun l => l.1 == k

/-- The blocks of two plans under new names. -/
def Same (ρ : Key → Key) (s : p.Place) (t : q.Place) : Prop := s.1.Renamed ρ t.1

theorem find?_rel {α β : Type} {R : α → β → Prop} {xs : List α} {ys : List β} {test : α → Bool} {test' : β → Bool}
    (h : List.Forall₂ R xs ys) (htest : ∀ a b, R a b → test' b = test a) :
    Option.Rel R (xs.find? test) (ys.find? test') := by
  induction h with
  | nil => exact .none
  | @cons a b xs ys hab _ ih =>
    rw [List.find?_cons, List.find?_cons, htest a b hab]
    cases test a with
    | true => exact .some hab
    | false => exact ih

theorem find?_val (p : Plan) (k : Key) : (p.find? k).map (·.1) = p.sites.reverse.find? fun s => s.key == k := by
  unfold find?
  split <;> simp [*]

theorem Redrawn.attach (h : p.Redrawn ρ q) : List.Forall₂ (Same ρ) p.sites.attach q.sites.attach := by
  have hsites : List.Forall₂ (Site.Renamed ρ) (p.sites.attach.map Subtype.val) (q.sites.attach.map Subtype.val) := by
    rw [List.attach_map_subtype_val, List.attach_map_subtype_val]
    exact h.sites
  rwa [List.forall₂_map_left_iff, List.forall₂_map_right_iff] at hsites

/-- Nodes that differ in their origins only, with emitted keys under new names. -/
structure Mirrors (ρ : Key → Key) (nodes : List Node) (emitted : List Key) (nodes' : List Node) (emitted' : List Key) :
    Prop where
  nodes : Node.anonymousAll nodes' = Node.anonymousAll nodes
  emitted : emitted' = emitted.map ρ

namespace Mirrors

variable {nodes nodes' body body' : List Node} {emitted emitted' seen seen' : List Key} {node node' : Node}

theorem cons (hnode : node'.anonymous = node.anonymous) (h : Mirrors ρ nodes emitted nodes' emitted') :
    Mirrors ρ (node :: nodes) emitted (node' :: nodes') emitted' :=
  ⟨by rw [Node.anonymousAll, Node.anonymousAll, hnode, h.nodes], h.emitted⟩

theorem append (hbody : Mirrors ρ body seen body' seen') (h : Mirrors ρ nodes emitted nodes' emitted') :
    Mirrors ρ (body ++ nodes) emitted (body' ++ nodes') emitted' :=
  ⟨by rw [Node.anonymousAll_append, Node.anonymousAll_append, hbody.nodes, h.nodes], h.emitted⟩

end Mirrors

theorem Same.key_mem_map (hρ : Function.Injective ρ) {s : p.Place} {t : q.Place} (hst : Same ρ s t) {keys : List Key} :
    t.1.key ∈ keys.map ρ ↔ s.1.key ∈ keys := by
  rw [hst.key, List.mem_map_of_injective hρ]

section Lookups

variable (hρ : Function.Injective ρ) (h : p.Redrawn ρ q)

include hρ h

theorem find?_redrawn (k : Key) : Option.Rel (Same ρ) (p.find? k) (q.find? (ρ k)) := by
  have hrel : Option.Rel (Site.Renamed ρ) ((p.find? k).map (·.1)) ((q.find? (ρ k)).map (·.1)) := by
    rw [find?_val, find?_val]
    refine find?_rel (List.rel_reverse h.sites) fun s t hst => ?_
    rw [hst.key, hρ.beq_eq]
  cases hp : p.find? k <;> cases hq : q.find? (ρ k) <;> rw [hp, hq] at hrel <;> cases hrel
  · exact .none
  · exact .some ‹_›

/-- What a block points at is the same under new names: the order of the links enters only by their source. -/
theorem targets_redrawn (k : Key) : List.Forall₂ (Same ρ) (p.targets k) (q.targets (ρ k)) := by
  have hlinks : q.links.filter (fun l => l.1 == ρ k) = (p.links.filter fun l => l.1 == k).map (Prod.map ρ ρ) := by
    rw [h.order, List.filter_map]
    congr 2
    funext l
    exact hρ.beq_eq
  rw [targets, targets, hlinks, List.filterMap_map]
  refine List.rel_filterMap (R := Eq) ?_ (List.forall₂_refl _)
  rintro l _ rfl
  exact find?_redrawn hρ h l.2

theorem entries_redrawn : List.Forall₂ (Same ρ) p.entries q.entries := by
  have hpointed (k : Key) : (q.links.any fun l => l.2 == ρ k) = p.links.any fun l => l.2 == k := by
    rw [h.links.any_eq, List.any_map]
    congr 1
    funext l
    exact hρ.beq_eq
  refine List.rel_filter (fun s t hst => ?_) h.attach
  show (!p.links.any fun l => l.2 == s.1.key) = true ↔ (!q.links.any fun l => l.2 == t.1.key) = true
  rw [hst.key, hpointed]

theorem starts_redrawn : List.Forall₂ (Same ρ) p.starts q.starts := by
  have hentries := entries_redrawn hρ h
  unfold starts
  cases hp : p.entries with
  | nil =>
    rw [hp, List.forall₂_nil_left_iff] at hentries
    rw [hentries]
    exact List.forall₂_take 1 h.attach
  | cons s rest =>
    rw [hp] at hentries
    obtain ⟨t, others, -, -, hq⟩ := List.forall₂_cons_left_iff.1 hentries
    rw [hq] at hentries ⊢
    exact hentries

/-! ## Emission on two plans -/

/-- **Emission takes the same steps under new names.** Membership in what is visited goes over since the renaming is
injective, and the targets go over in their order. -/
theorem emission_redrawn :
    (∀ visited emitted pending pending', List.Forall₂ (Same ρ) pending pending' →
      Mirrors ρ (p.emit visited emitted pending).nodes (p.emit visited emitted pending).emitted
        (q.emit (visited.map ρ) (emitted.map ρ) pending').nodes
        (q.emit (visited.map ρ) (emitted.map ρ) pending').emitted) ∧
    ∀ visited emitted children children', List.Forall₂ (Same ρ) children children' →
      Mirrors ρ (p.emitBody visited emitted children).1 (p.emitBody visited emitted children).2
        (q.emitBody (visited.map ρ) (emitted.map ρ) children').1
        (q.emitBody (visited.map ρ) (emitted.map ρ) children').2 := by
  refine emission_induction
    (fun v e pending r => ∀ pending', List.Forall₂ (Same ρ) pending pending' → Mirrors ρ r.nodes r.emitted
      (q.emit (v.map ρ) (e.map ρ) pending').nodes (q.emit (v.map ρ) (e.map ρ) pending').emitted)
    (fun v e children r => ∀ children', List.Forall₂ (Same ρ) children children' → Mirrors ρ r.1 r.2
      (q.emitBody (v.map ρ) (e.map ρ) children').1 (q.emitBody (v.map ρ) (e.map ρ) children').2) ?_ ?_ ?_ ?_ ?_ ?_
  · rintro visited emitted _ ⟨⟩
    rw [emit]
    exact ⟨rfl, rfl⟩
  · rintro visited emitted s pending r hs ih _ (_ | @⟨_, t, _, rest, hst, hrest⟩)
    rw [emit_pass ((hst.key_mem_map hρ).2 hs)]
    exact ih _ hrest
  · rintro visited emitted s pending body seen r hs hc ihBody ihRest _ (_ | @⟨_, t, _, rest, hst, hrest⟩)
    have ht : t.1.key ∉ visited.map ρ := mt (hst.key_mem_map hρ).1 hs
    -- the body first, since the rest goes on with what the body has emitted
    have hbody := ihBody _ (targets_redrawn hρ h s.1.key)
    have hrest := ihRest _ hrest
    rw [List.map_cons, List.map_cons, ← hst.key] at hbody
    rw [List.map_cons, ← hst.key, ← hbody.emitted] at hrest
    rw [emit_enclose ht ((isControl_renamed hst.block).trans hc)]
    exact hrest.cons (anonymous_structureNode hst.block hbody.nodes)
  · rintro visited emitted s pending r hs hc ih _ (_ | @⟨_, t, _, rest, hst, hrest⟩)
    have ht : t.1.key ∉ visited.map ρ := mt (hst.key_mem_map hρ).1 hs
    have hnext := ih _ (List.rel_append (targets_redrawn hρ h s.1.key) hrest)
    rw [List.map_cons, List.map_cons, ← hst.key] at hnext
    rw [emit_follow ht ((isControl_renamed hst.block).trans hc)]
    exact hnext.cons (anonymous_statementNode hst.block)
  · rintro visited emitted _ ⟨⟩
    rw [emitBody]
    exact ⟨rfl, rfl⟩
  · rintro visited emitted c rest first body seen ihFirst ihRest _ (_ | @⟨_, d, _, others, hcd, hothers⟩)
    have hfirst := ihFirst [d] (.cons hcd .nil)
    have hrest := ihRest _ hothers
    rw [← hfirst.emitted] at hrest
    rw [emitBody]
    exact hfirst.append hrest

theorem emitRest_redrawn {places : List p.Place} {places' : List q.Place} (hplaces : List.Forall₂ (Same ρ) places places')
    (emitted : List Key) : Node.anonymousAll (q.emitRest (emitted.map ρ) places').1 =
      Node.anonymousAll (p.emitRest emitted places).1 := by
  induction hplaces generalizing emitted with
  | nil => rfl
  | @cons s t rest rest' hst _ ih =>
    by_cases hs : s.1.key ∈ emitted
    · rw [emitRest, emitRest, if_pos hs, if_pos ((hst.key_mem_map hρ).2 hs)]
      exact ih emitted
    · have ht : t.1.key ∉ emitted.map ρ := mt (hst.key_mem_map hρ).1 hs
      have hfragment := (emission_redrawn hρ h).1 emitted emitted [s] [t] (.cons hst .nil)
      rw [emitRest_cons hs, emitRest_cons ht, hfragment.emitted, typeName_renamed hst.block]
      simp only [Node.anonymousAll_append, hfragment.nodes, ih]

/-- **The bodies of two such plans differ in the origins of their nodes only.** -/
theorem anonymous_body : Node.anonymousAll (q.body.reached ++ q.body.fragments) =
    Node.anonymousAll (p.body.reached ++ p.body.fragments) := by
  have hmain := (emission_redrawn hρ h).1 [] [] _ _ (starts_redrawn hρ h)
  have hrest := emitRest_redrawn hρ h h.attach (p.emit [] [] p.starts).emitted
  rw [← hmain.emitted] at hrest
  rw [Node.anonymousAll_append, Node.anonymousAll_append]
  exact congrArg₂ _ hmain.nodes hrest

end Lookups

end Plan

end Script

/-! ## Scripts of flows -/

theorem forall_of_forall₂ {α β : Type} {R : α → β → Prop} {P : α → Prop} {Q : β → Prop} {xs : List α} {ys : List β}
    (h : List.Forall₂ R xs ys) (hR : ∀ a b, R a b → P a ∧ Q b) : (∀ a ∈ xs, P a) ∧ ∀ b ∈ ys, Q b := by
  induction h with
  | nil => simp
  | cons hab _ ih =>
    exact ⟨List.forall_mem_cons.2 ⟨(hR _ _ hab).1, ih.1⟩, List.forall_mem_cons.2 ⟨(hR _ _ hab).2, ih.2⟩⟩

namespace Flow.Redrawn

variable {ρ : Key → Key} {f g : Flow}

theorem ofFlow_eq (h : f.Redrawn ρ g) : Plan.ofFlow f = .ok f.plan ∧ Plan.ofFlow g = .ok g.plan := by
  obtain ⟨renamed, hrenamed, hperm, -⟩ := h.edges
  obtain ⟨hf, hg⟩ := forall_of_forall₂ h.blocks (P := fun b => b.id.HasKey) (Q := fun c => c.id.HasKey)
    fun b c hbc => ⟨hbc.id.hasKey, hbc.id.hasKey_right⟩
  obtain ⟨hef, heg⟩ := forall_of_forall₂ hrenamed (P := fun e => e.source.HasKey ∧ e.target.HasKey)
    (Q := fun d => d.source.HasKey ∧ d.target.HasKey) fun e d hed =>
      ⟨⟨hed.source.hasKey, hed.target.hasKey⟩, hed.source.hasKey_right, hed.target.hasKey_right⟩
  refine ⟨ofFlow_eq_plan ?_ hef, ofFlow_eq_plan ?_ fun e he => heg e (hperm.mem_iff.1 he)⟩
  · exact List.forall_mem_map.2 hf
  · exact List.forall_mem_map.2 hg

theorem plan (h : f.Redrawn ρ g) : f.plan.Redrawn ρ g.plan := by
  obtain ⟨renamed, hrenamed, hperm, horder⟩ := h.edges
  have hlinks : f.plan.links.map (Prod.map ρ ρ) = renamed.map fun e => (e.source.theKey, e.target.theKey) := by
    rw [Flow.plan, List.map_map, ← List.forall₂_eq_eq_eq, List.forall₂_map_left_iff, List.forall₂_map_right_iff]
    exact hrenamed.imp fun e d hed => Prod.ext hed.source.theKey_eq.symm hed.target.theKey_eq.symm
  refine ⟨?_, ?_, fun k => ?_⟩
  · rw [Flow.plan, Flow.plan, List.forall₂_map_left_iff, List.forall₂_map_right_iff]
    exact h.blocks.imp fun b c hbc => ⟨hbc.id.theKey_eq, hbc⟩
  · rw [hlinks]
    exact hperm.map _
  · rw [hlinks, Flow.plan, List.filter_map, List.filter_map]
    exact congrArg (List.map _) (horder k)

theorem heading_eq (h : f.Redrawn ρ g) (stamp : String) : heading g stamp = heading f stamp := by
  obtain ⟨renamed, hrenamed, hperm, -⟩ := h.edges
  rw [heading, heading, h.name, h.blocks.length_eq, hrenamed.length_eq, hperm.length_eq]

theorem render_eq (hρ : Function.Injective ρ) (h : f.Redrawn ρ g) (stamp : String) (indent : Int) :
    (assemble g g.plan.body stamp).render indent = (assemble f f.plan.body stamp).render indent := by
  have hlines : linesOf indent (g.plan.body.reached ++ g.plan.body.fragments) =
      linesOf indent (f.plan.body.reached ++ f.plan.body.fragments) := by
    rw [← linesOf_anonymous, Plan.anonymous_body hρ h.plan, linesOf_anonymous]
  rw [Program.render, Program.render, assemble, assemble, h.heading_eq, hlines]

end Flow.Redrawn

namespace Work

variable {ρ : Key → Key} {f g : Flow} {w w' : Workspace}

theorem generate_fst {p : Plan} (hp : Plan.ofFlow f = .ok p) (indent : Int) (given : Option Moment) :
    (Work.generate f indent given w).1 =
      (w.scriptStamp given).map fun stamp => (assemble f p.body stamp).render indent := by
  have hbuild : (Work.build f given w).1 = _ := build_fst hp
  rw [Work.generate, Act.bind_apply]
  rcases hrun : Work.build f given w with ⟨outcome, after⟩
  rw [hrun] at hbuild
  obtain rfl : outcome = _ := hbuild
  cases w.scriptStamp given <;> rfl

/-- **A flow that is drawn again has the same script.** It does not matter which keys are the identifiers, as long as two
of them are equal where they were; where the blocks are and what they remember; what the flow, its edges and its handles are
called, and when it was made; and in which order edges of different sources come. Whatever the time and the indentation,
the outcome is the same, and it is a text if the time can be written. -/
theorem generate_redrawn (hρ : Function.Injective ρ) (h : f.Redrawn ρ g) (hnow : w'.now = w.now) (indent : Int)
    (given : Option Moment) :
    (Work.generate g indent given w').1 = (Work.generate f indent given w).1 ∧
      ∀ stamp, w.scriptStamp given = .ok stamp → ∃ text, (Work.generate f indent given w).1 = .ok text := by
  have hstamp : w'.scriptStamp given = w.scriptStamp given := by
    cases given with
    | some m => rfl
    | none => rw [Workspace.scriptStamp, Workspace.scriptStamp, hnow]
  rw [generate_fst h.ofFlow_eq.1, generate_fst h.ofFlow_eq.2, hstamp]
  refine ⟨?_, fun stamp hok => ⟨(assemble f f.plan.body stamp).render indent, ?_⟩⟩
  · simp only [h.render_eq hρ]
  · rw [hok]
    rfl

/-- A branch that leads back to itself, and an edge to a block that is not there. -/
def fork : Flow :=
  { id := .text "flow-1"
    blocks := [("a", "variable"), ("b", "if-else"), ("c", "return")].map fun (id, type) =>
      .fresh (.text id) (.text type) .null
    edges := [("a", "b"), ("b", "c"), ("c", "b"), ("b", "e"), ("a", "c")].map fun (source, target) =>
      { id := .null, source := .text source, target := .text target } }

/-- The same with the names of two blocks exchanged, at another position, and with the edges of one source together. -/
def forkAgain : Flow :=
  { id := .text "flow-2"
    blocks := [("b", "variable"), ("a", "if-else"), ("c", "return")].map fun (id, type) =>
      .fresh (.text id) (.text type) defaultPosition
    edges := [("c", "a"), ("b", "a"), ("b", "c"), ("a", "c"), ("a", "e")].map fun (source, target) =>
      { id := .text source, source := .text source, target := .text target }
    updatedAt := .int 1 }

theorem fork_redrawn : fork.Redrawn (Equiv.swap (.text "a") (.text "b")) forkAgain := by
  have hkey (s t : String) (h : Equiv.swap (Key.text "a") (.text "b") (.text s) = .text t) :
      (Value.text s).Renamed (Equiv.swap (.text "a") (.text "b")) (.text t) :=
    ⟨.text s, Value.key_text s, by rw [h, Value.key_text]⟩
  have hab := hkey "a" "b" (by decide)
  have hba := hkey "b" "a" (by decide)
  have hcc := hkey "c" "c" (by decide)
  have hee := hkey "e" "e" (by decide)
  refine ⟨rfl, ?_, [("b", "a"), ("a", "c"), ("c", "a"), ("a", "e"), ("b", "c")].map fun (source, target) =>
    { id := .text source, source := .text source, target := .text target }, ?_, ?_, fun k => ?_⟩
  · exact .cons ⟨hab, rfl, rfl⟩ (.cons ⟨hba, rfl, rfl⟩ (.cons ⟨hcc, rfl, rfl⟩ .nil))
  · exact .cons ⟨hab, hba⟩ (.cons ⟨hba, hcc⟩ (.cons ⟨hcc, hba⟩ (.cons ⟨hba, hee⟩ (.cons ⟨hab, hcc⟩ .nil))))
  · exact List.Perm.map _ (by decide)
  · rw [forkAgain, List.filter_map, List.filter_map]
    congr 1
    by_cases ha : Key.text "a" = k
    · subst ha
      rfl
    by_cases hb : Key.text "b" = k
    · subst hb
      rfl
    by_cases hc : Key.text "c" = k
    · subst hc
      rfl
    simp [ha, hb, hc]

theorem generate_redrawn_fork :
    Function.Injective (Equiv.swap (Key.text "a") (.text "b")) ∧
      fork.Redrawn (Equiv.swap (.text "a") (.text "b")) forkAgain ∧
      (Work.generate forkAgain 2 none { flow := forkAgain }).1 = (Work.generate fork 2 none { flow := fork }).1 ∧
      ∃ text, (Work.generate fork 2 none { flow := fork }).1 = .ok text := by
  have hinjective : Function.Injective (Equiv.swap (Key.text "a") (.text "b")) := Equiv.injective _
  have hnow : Workspace.now { flow := forkAgain } = Workspace.now { flow := fork } := rfl
  obtain ⟨hsame, htext⟩ := generate_redrawn hinjective fork_redrawn hnow 2 none
  exact ⟨hinjective, fork_redrawn, hsame, htext "1970-01-01T00:00:00.000Z" rfl⟩

end Work

end BlockFlow
