import BlockFlow.Proofs.Identifier
import BlockFlow.Script.Emission
import Mathlib.Logic.Relation

/-!
What emission writes. The blocks of a plan are emitted by two functions that call each other, with one set of keys that
follows a path and one that is shared by all paths. The rules of such a run are stated once; all else is read off them.

* `Node.flatAll`, `Node.idsOf`: the nodes of a script without their depth, and the blocks whose code they are.
* `Plan.emission_induction`: induction over a run of emission.
* `Plan.Wrote`: the keys counted as emitted are those of the nodes that were written.
* `Plan.Covers`: nothing pending is left out, and what is emitted is closed under following edges.
* `Plan.mem_emit_starts`: **the first part of a body holds exactly what can be reached from the starts.**
-/

namespace BlockFlow.Script

/-! ## Nodes without their depth -/

namespace Node

mutual

/-- A node and the nodes below it, in the order in which they are written. -/
def flat : Node → List Node
  | .block header body closer origin => .block header body closer origin :: flatAll body
  | node => [node]

/-- The nodes of a list and those below them, in the order in which they are written. -/
def flatAll : List Node → List Node
  | [] => []
  | node :: rest => flat node ++ flatAll rest

end

mutual

theorem map_walk (depth : Int) : ∀ node : Node, (walk depth node).map (·.1) = flat node
  | .block header body closer origin => by simp [walk, flat, map_walkAll (depth + 1) body]
  | .statement .. => rfl
  | .comment .. => rfl
  | .blank .. => rfl

theorem map_walkAll (depth : Int) : ∀ nodes : List Node, (walkAll depth nodes).map (·.1) = flatAll nodes
  | [] => rfl
  | node :: rest => by simp [walkAll, flatAll, map_walk depth node, map_walkAll depth rest]

end

@[simp] theorem flatAll_nil : flatAll [] = [] := rfl

@[simp] theorem flatAll_cons (node : Node) (rest : List Node) : flatAll (node :: rest) = flat node ++ flatAll rest := rfl

@[simp] theorem flatAll_append (xs ys : List Node) : flatAll (xs ++ ys) = flatAll xs ++ flatAll ys := by
  induction xs with
  | nil => rfl
  | cons x xs ih => simp [ih]

/-- The identifiers of the blocks whose code the nodes are. -/
def idsOf (nodes : List Node) : List Value := (flatAll nodes).filterMap blockId?

@[simp] theorem idsOf_nil : idsOf [] = [] := rfl

@[simp] theorem idsOf_append (xs ys : List Node) : idsOf (xs ++ ys) = idsOf xs ++ idsOf ys := by
  simp [idsOf]

end Node

theorem Program.blockIds_eq (p : Program) : p.blockIds = Node.idsOf p.body := by
  rw [Node.idsOf, ← Node.map_walkAll 0, List.filterMap_map]
  rfl

namespace Plan

variable {p : Plan}

/-! ## Runs of emission -/

/-- **Induction over a run of emission.** `P` is about the nodes of pending blocks and `Q` about those of a body: `done`
and `childless` end a list, `pass` skips a block that its path has visited, `enclose` writes one with its body, `follow`
writes one that its targets come after, and `child` puts the nodes of one child before those of the others. -/
theorem emission_induction (P : List Key → List Key → List p.Place → Emission → Prop)
    (Q : List Key → List Key → List p.Place → List Node × List Key → Prop)
    (done : ∀ visited emitted, P visited emitted [] ⟨[], visited, emitted⟩)
    (pass : ∀ {visited emitted s pending r}, s.1.key ∈ visited → P visited emitted pending r →
      P visited emitted (s :: pending) r)
    (enclose : ∀ {visited emitted s pending body seen r}, s.1.key ∉ visited → isControl s.1.block = true →
      Q (s.1.key :: visited) (s.1.key :: emitted) (p.targets s.1.key) (body, seen) →
      P (s.1.key :: visited) seen pending r →
      P visited emitted (s :: pending) { r with nodes := structureNode s.1.block body :: r.nodes })
    (follow : ∀ {visited emitted s pending r}, s.1.key ∉ visited → isControl s.1.block = false →
      P (s.1.key :: visited) (s.1.key :: emitted) (p.targets s.1.key ++ pending) r →
      P visited emitted (s :: pending) { r with nodes := statementNode s.1.block :: r.nodes })
    (childless : ∀ visited emitted, Q visited emitted [] ([], emitted))
    (child : ∀ {visited emitted c rest first body seen}, P visited emitted [c] first →
      Q visited first.emitted rest (body, seen) → Q visited emitted (c :: rest) (first.nodes ++ body, seen)) :
    (∀ visited emitted pending, P visited emitted pending (p.emit visited emitted pending)) ∧
      ∀ visited emitted children, Q visited emitted children (p.emitBody visited emitted children) := by
  refine emit.mutual_induct p (fun v e pending => P v e pending (p.emit v e pending))
    (fun v e children => Q v e children (p.emitBody v e children)) ?_ ?_ ?_ ?_ ?_ ?_
  · intro visited emitted
    rw [emit]
    exact done visited emitted
  · intro visited emitted s pending hs ih
    rw [emit, dif_pos hs]
    exact pass hs ih
  · intro visited emitted s pending hs hc body seen hbody ihBody ihRest
    rw [emit, dif_neg hs, if_pos hc, hbody]
    exact enclose hs hc (hbody ▸ ihBody) ihRest
  · intro visited emitted s pending hs hc ih
    rw [emit, dif_neg hs, if_neg hc]
    exact follow hs (by simpa using hc) ih
  · intro visited emitted
    rw [emitBody]
    exact childless visited emitted
  · intro visited emitted c rest first body seen hbody ihFirst ihRest
    rw [emitBody, hbody]
    exact child ihFirst (hbody ▸ ihRest)

/-! ## What is written is what counts as emitted -/

/-- The identifiers of the blocks are texts, and the keys are theirs. -/
def Named (p : Plan) : Prop := ∀ s ∈ p.sites, s.block.id.IsText ∧ s.block.id.theKey = s.key

theorem idsOf_statementNode {b : Block} (h : b.id.IsText) (rest : List Node) :
    Node.idsOf (statementNode b :: rest) = b.id :: Node.idsOf rest := by
  obtain ⟨t, ht⟩ := h
  unfold statementNode
  split <;> simp [Node.idsOf, Node.flat, Node.blockId?, Node.isBlank, Node.origin, ht]

theorem idsOf_structureNode {b : Block} (h : b.id.IsText) (body rest : List Node) :
    Node.idsOf (structureNode b body :: rest) = b.id :: Node.idsOf body ++ Node.idsOf rest := by
  obtain ⟨t, ht⟩ := h
  simp [structureNode, Node.idsOf, Node.flat, Node.blockId?, Node.isBlank, Node.origin, ht]

/-- The nodes are code of blocks of the plan, and the keys of those blocks are what was added to the emitted ones. -/
structure Wrote (p : Plan) (emitted : List Key) (nodes : List Node) (seen : List Key) : Prop where
  own : ∀ v ∈ Node.idsOf nodes, ∃ s ∈ p.sites, s.block.id = v
  mem_seen : ∀ k, k ∈ seen ↔ k ∈ emitted ∨ ∃ v ∈ Node.idsOf nodes, v.theKey = k

namespace Wrote

variable {emitted mid seen : List Key} {nodes body : List Node}

theorem nil (p : Plan) (emitted : List Key) : p.Wrote emitted [] emitted :=
  ⟨by simp, by simp⟩

theorem append (h : p.Wrote emitted body mid) (h' : p.Wrote mid nodes seen) :
    p.Wrote emitted (body ++ nodes) seen := by
  refine ⟨fun v hv => ?_, fun k => ?_⟩
  · rw [Node.idsOf_append] at hv
    exact (List.mem_append.1 hv).elim (h.own v) (h'.own v)
  · rw [h'.mem_seen, h.mem_seen, Node.idsOf_append, or_assoc]
    simp only [List.mem_append, or_and_right, exists_or]

/-- A block of the plan in front of what its key counted for already. -/
theorem head (hp : p.Named) (s : p.Place) {front : List Node}
    (hids : Node.idsOf front = s.1.block.id :: Node.idsOf nodes) (h : p.Wrote (s.1.key :: emitted) nodes seen) :
    p.Wrote emitted front seen := by
  refine ⟨fun v hv => ?_, fun k => ?_⟩
  · rw [hids] at hv
    rcases List.mem_cons.1 hv with rfl | hv
    · exact ⟨s.1, s.2, rfl⟩
    · exact h.own v hv
  · rw [h.mem_seen, hids]
    simp only [List.mem_cons, exists_eq_or_imp, (hp s.1 s.2).2, eq_comm (a := s.1.key)]
    tauto

theorem statement (hp : p.Named) (s : p.Place) (h : p.Wrote (s.1.key :: emitted) nodes seen) :
    p.Wrote emitted (statementNode s.1.block :: nodes) seen :=
  h.head hp s (idsOf_statementNode (hp s.1 s.2).1 nodes)

theorem enclose (hp : p.Named) (s : p.Place) (hbody : p.Wrote (s.1.key :: emitted) body mid)
    (h : p.Wrote mid nodes seen) : p.Wrote emitted (structureNode s.1.block body :: nodes) seen := by
  refine (hbody.append h).head hp s ?_
  rw [idsOf_structureNode (hp s.1 s.2).1, Node.idsOf_append, List.cons_append]

/-- The code of a block is there if its key was added. -/
theorem mem_idsOf (hp : p.Named) (h : p.Wrote [] nodes seen) {s : Site} (hs : s ∈ p.sites) :
    s.block.id ∈ Node.idsOf nodes ↔ s.key ∈ seen := by
  rw [h.mem_seen, or_iff_right (by simp)]
  constructor
  · intro hmem
    exact ⟨_, hmem, (hp s hs).2⟩
  · rintro ⟨v, hv, hkey⟩
    obtain ⟨t, ht, rfl⟩ := h.own v hv
    rw [← (hp s hs).2, (hp t ht).1.hasKey.theKey_inj (hp s hs).1] at hkey
    rwa [hkey] at hv

end Wrote

theorem emit_wrote (hp : p.Named) (visited emitted : List Key) (pending : List p.Place) :
    p.Wrote emitted (p.emit visited emitted pending).nodes (p.emit visited emitted pending).emitted := by
  refine (emission_induction (fun _ e _ r => p.Wrote e r.nodes r.emitted) (fun _ e _ r => p.Wrote e r.1 r.2)
    ?_ ?_ ?_ ?_ ?_ ?_).1 visited emitted pending
  · exact fun _ emitted => Wrote.nil p emitted
  · exact fun _ h => h
  · exact fun _ _ hbody h => Wrote.enclose hp _ hbody h
  · exact fun _ _ h => h.statement hp _
  · exact fun _ emitted => Wrote.nil p emitted
  · exact fun hfirst hrest => hfirst.append hrest

/-! ## Nothing is left out -/

/-- All that was pending is seen, and what is seen and not older points only at what is seen. -/
structure Covers (p : Plan) (emitted : List Key) (pending : List p.Place) (seen : List Key) : Prop where
  grows : emitted ⊆ seen
  pending_seen : ∀ s ∈ pending, s.1.key ∈ seen
  closed : ∀ k ∈ seen, k ∈ emitted ∨ ∀ t ∈ p.targets k, t.1.key ∈ seen

namespace Covers

variable {emitted mid seen : List Key} {pending rest : List p.Place}

theorem nil (p : Plan) (emitted : List Key) : p.Covers emitted [] emitted :=
  ⟨fun _ h => h, by simp, fun _ h => Or.inl h⟩

theorem append (h : p.Covers emitted pending mid) (h' : p.Covers mid rest seen) :
    p.Covers emitted (pending ++ rest) seen := by
  refine ⟨fun k hk => h'.grows (h.grows hk), fun s hs => ?_, fun k hk => ?_⟩
  · rcases List.mem_append.1 hs with hs | hs
    · exact h'.grows (h.pending_seen s hs)
    · exact h'.pending_seen s hs
  · rcases h'.closed k hk with hmid | htargets
    · exact (h.closed k hmid).imp_right fun htargets t ht => h'.grows (htargets t ht)
    · exact Or.inr htargets

/-- A block is seen to by seeing to its targets. -/
theorem visit (s : p.Place) (h : p.Covers (s.1.key :: emitted) (p.targets s.1.key ++ pending) seen) :
    p.Covers emitted (s :: pending) seen := by
  refine ⟨fun k hk => h.grows (List.mem_cons_of_mem _ hk), fun t ht => ?_, fun k hk => ?_⟩
  · rcases List.mem_cons.1 ht with rfl | ht
    · exact h.grows List.mem_cons_self
    · exact h.pending_seen t (List.mem_append_right _ ht)
  · rcases h.closed k hk with hold | htargets
    · rcases List.mem_cons.1 hold with rfl | hold
      · exact Or.inr fun t ht => h.pending_seen t (List.mem_append_left _ ht)
      · exact Or.inl hold
    · exact Or.inr htargets

theorem pass {s : p.Place} (hs : s.1.key ∈ emitted) (h : p.Covers emitted pending seen) :
    p.Covers emitted (s :: pending) seen :=
  ⟨h.grows, List.forall_mem_cons.2 ⟨h.grows hs, h.pending_seen⟩, h.closed⟩

end Covers

/-- A run of which the path has only been where something was emitted leaves nothing out. A target that a path skips is
an older block of that path, so it counts as emitted, whichever branch it was written in. -/
theorem emit_covers {visited emitted : List Key} (h : visited ⊆ emitted) (pending : List p.Place) :
    p.Covers emitted pending (p.emit visited emitted pending).emitted := by
  refine (emission_induction (fun v e pending r => v ⊆ e → p.Covers e pending r.emitted)
    (fun v e children r => v ⊆ e → p.Covers e children r.2) ?_ ?_ ?_ ?_ ?_ ?_).1 visited emitted pending h
  · exact fun _ emitted _ => Covers.nil p emitted
  · exact fun hs ih hsub => (ih hsub).pass (hsub hs)
  · intro visited emitted s pending body seen r _ _ ihBody ihRest hsub
    have hbody := ihBody (List.cons_subset_cons _ hsub)
    have hrest := ihRest fun k hk => hbody.grows (List.cons_subset_cons _ hsub hk)
    exact (hbody.append hrest).visit s
  · exact fun _ _ ih hsub => (ih (List.cons_subset_cons _ hsub)).visit _
  · exact fun _ emitted _ => Covers.nil p emitted
  · intro visited emitted c rest first body seen ihFirst ihRest hsub
    have hfirst := ihFirst hsub
    exact hfirst.append (ihRest fun k hk => hfirst.grows (hsub hk))

/-! ## Only what can be reached -/

/-- The plan points from a key to the key of one of its blocks. -/
def Leads (p : Plan) (a b : Key) : Prop := ∃ t ∈ p.targets a, t.1.key = b

/-- A key can be reached from the starts. -/
def Reached (p : Plan) (k : Key) : Prop := ∃ s ∈ p.starts, Relation.ReflTransGen p.Leads s.1.key k

/-- A run stays in every set of keys that its pending blocks are in and that no edge leaves. -/
theorem emit_within {S : Key → Prop} (hS : ∀ k, S k → ∀ t ∈ p.targets k, S t.1.key) (visited emitted : List Key)
    {pending : List p.Place} (h : ∀ s ∈ pending, S s.1.key) {k : Key}
    (hk : k ∈ (p.emit visited emitted pending).emitted) : k ∈ emitted ∨ S k := by
  refine (emission_induction (fun _ e pending r => (∀ s ∈ pending, S s.1.key) → ∀ k ∈ r.emitted, k ∈ e ∨ S k)
    (fun _ e children r => (∀ c ∈ children, S c.1.key) → ∀ k ∈ r.2, k ∈ e ∨ S k)
    ?_ ?_ ?_ ?_ ?_ ?_).1 visited emitted pending h k hk
  · exact fun _ _ _ _ hk => Or.inl hk
  · exact fun _ ih h => ih fun s hs => h s (List.mem_cons_of_mem _ hs)
  · intro visited emitted s pending body seen r _ _ ihBody ihRest h k hk
    have hs : S s.1.key := h s List.mem_cons_self
    rcases ihRest (fun t ht => h t (List.mem_cons_of_mem _ ht)) k hk with hseen | hk
    · rcases ihBody (hS _ hs) k hseen with hold | hk
      · exact (List.mem_cons.1 hold).elim (fun heq => Or.inr (heq ▸ hs)) Or.inl
      · exact Or.inr hk
    · exact Or.inr hk
  · intro visited emitted s pending r _ _ ih h k hk
    have hs : S s.1.key := h s List.mem_cons_self
    have hnext : ∀ t ∈ p.targets s.1.key ++ pending, S t.1.key :=
      List.forall_mem_append.2 ⟨hS _ hs, fun t ht => h t (List.mem_cons_of_mem _ ht)⟩
    rcases ih hnext k hk with hold | hk
    · exact (List.mem_cons.1 hold).elim (fun heq => Or.inr (heq ▸ hs)) Or.inl
    · exact Or.inr hk
  · exact fun _ _ _ _ hk => Or.inl hk
  · intro visited emitted c rest first body seen ihFirst ihRest h k hk
    rcases ihRest (fun t ht => h t (List.mem_cons_of_mem _ ht)) k hk with hold | hk
    · exact ihFirst (fun t ht => h t (by simp [List.mem_singleton.1 ht])) k hold
    · exact Or.inr hk

/-- **What comes from the starts is what can be reached from them.** -/
theorem mem_emit_starts {k : Key} : k ∈ (p.emit [] [] p.starts).emitted ↔ p.Reached k := by
  constructor
  · intro hk
    have hclosed : ∀ k, p.Reached k → ∀ t ∈ p.targets k, p.Reached t.1.key := by
      rintro k ⟨s, hs, hpath⟩ t ht
      exact ⟨s, hs, hpath.tail ⟨t, ht, rfl⟩⟩
    have hstarts : ∀ s ∈ p.starts, p.Reached s.1.key := fun s hs => ⟨s, hs, .refl⟩
    exact (emit_within hclosed [] [] hstarts hk).resolve_left (by simp)
  · rintro ⟨s, hs, hpath⟩
    have hcovers := emit_covers (List.Subset.refl []) p.starts
    induction hpath with
    | refl => exact hcovers.pending_seen s hs
    | tail _ hstep ih =>
      obtain ⟨t, ht, rfl⟩ := hstep
      exact (hcovers.closed _ ih).resolve_left (by simp) t ht

/-! ## What is left at the end -/

/-- The nodes of what is left see to all blocks that are looked at. -/
theorem emitRest_wrote (hp : p.Named) (emitted : List Key) (places : List p.Place) :
    ∃ seen, p.Wrote emitted (p.emitRest emitted places).1 seen ∧ ∀ s ∈ places, s.1.key ∈ seen := by
  fun_induction emitRest p emitted places with
  | case1 emitted => exact ⟨emitted, Wrote.nil p emitted, by simp⟩
  | case2 emitted s rest hs ih =>
    obtain ⟨seen, hw, hall⟩ := ih
    refine ⟨seen, hw, List.forall_mem_cons.2 ⟨(hw.mem_seen _).2 (Or.inl hs), hall⟩⟩
  | case3 emitted s rest hs fragment nodes count heq ih =>
    obtain ⟨seen, hw, hall⟩ := ih
    rw [heq] at hw
    have hfragment : p.Wrote emitted fragment.nodes fragment.emitted := emit_wrote hp emitted emitted [s]
    have hcovers : p.Covers emitted [s] fragment.emitted := emit_covers (List.Subset.refl emitted) [s]
    refine ⟨seen, ?_, List.forall_mem_cons.2 ⟨?_, hall⟩⟩
    · exact ⟨(hfragment.append hw).own, (hfragment.append hw).mem_seen⟩
    · exact (hw.mem_seen _).2 (Or.inl (hcovers.pending_seen s List.mem_cons_self))

/-- **A body sees to every block** of its plan. -/
theorem body_wrote (hp : p.Named) :
    ∃ seen, p.Wrote [] (p.body.reached ++ p.body.fragments) seen ∧ ∀ s ∈ p.sites, s.key ∈ seen := by
  obtain ⟨seen, hrest, hall⟩ := emitRest_wrote hp (p.emit [] [] p.starts).emitted p.sites.attach
  exact ⟨seen, (emit_wrote hp [] [] p.starts).append hrest, fun s hs => hall ⟨s, hs⟩ (List.mem_attach _ _)⟩

end Plan

end BlockFlow.Script
