import BlockFlow.Proofs.Acyclic

/-!
Edits of a flow, one after the other, and all that one edit can do.

* `Edit`, `Flow.perform`, `Flow.performAll`: an edit, and the flow that it leaves; `Flow.stages`: all flows on the way.
* `marks`: the marks drawn for new identifiers.
* `Flow.Alike`: flows that differ in nothing that edges have to do with.
* `Flow.Admits`, `Flow.addEdge_eq_ok`: when an edge is let in.
* `Flow.Change`, `Flow.perform_change`: what an edit can make of a flow.
* `Flow.stages_induction`: what one edit keeps, many keep.
-/

namespace BlockFlow

/-- An edit of a flow. A new block and a new connection come with the mark that is drawn for them. -/
inductive Edit where
  | addBlock (mark : String) (type position : Value)
  | setParam (id key value : Value)
  | amend (id : Value) (position params : Option Value)
  | move (id position : Value)
  | removeBlock (id : Value)
  | clear
  | connect (mark : String) (source target : Value)
  | addEdge (e : Edge)
  | removeEdge (id : Value)
  | rebuild

/-- The mark that is drawn for an edit. -/
def Edit.mark? : Edit → Option String
  | .addBlock mark _ _ => some mark
  | .connect mark _ _ => some mark
  | _ => none

/-- The edge that an edit wants to add. -/
def Edit.edge? : Edit → Option Edge
  | .connect mark source target => some { id := drawnId "edge" mark, source, target }
  | .addEdge e => some e
  | _ => none

/-- The marks that are drawn for edits, in order. -/
def marks (edits : List Edit) : List String := edits.filterMap Edit.mark?

namespace Flow

/-- The flow after a step that leaves it alone when it fails. -/
def settle (f : Flow) : Except Fault Flow → Flow
  | .ok g => g
  | .error _ => f

/-- The flow that an edit leaves, whether it is carried out or refused. -/
def perform (f : Flow) : Edit → Flow
  | .addBlock mark type position => f.addBlock (drawnId "block" mark) type position
  | .setParam id key value => f.settle (f.setParam id key value)
  | .amend id position params => (f.amend id position params).1
  | .move id position => f.settle ((f.move id position).map (·.1))
  | .removeBlock id => (f.removeBlock id).1
  | .clear => f.clear
  | .connect mark source target => f.settle (f.addEdge { id := drawnId "edge" mark, source, target })
  | .addEdge e => f.settle (f.addEdge e)
  | .removeEdge id => (f.removeEdge id).1
  | .rebuild => f.rebuild.1

/-- The flow that edits leave, one after the other. -/
def performAll (f : Flow) (edits : List Edit) : Flow := edits.foldl perform f

/-- The flows that edits pass through, from the one that they start with to the one that they leave. -/
def stages (f : Flow) : List Edit → List Flow
  | [] => [f]
  | edit :: rest => f :: stages (f.perform edit) rest

variable {f g : Flow} {e : Edge} {id : Value}

/-! ## Blocks that are changed in place -/

theorem map_modifyFirst {α β : Type} {test : α → Bool} {change : α → α} (view : α → β)
    (h : ∀ x, view (change x) = view x) (xs : List α) : (modifyFirst test change xs).map view = xs.map view := by
  induction xs with
  | nil => rfl
  | cons x xs ih =>
    rw [modifyFirst]
    split
    · simp [h]
    · simp [ih]

/-- Identifier and cache of each block: all of the blocks that edges have to do with. -/
def joints (f : Flow) : List (Value × Cache) := f.blocks.map fun b => (b.id, b.cache)

theorem ids_eq_joints (f : Flow) : f.ids = f.joints.map (·.1) := by
  simp [ids, joints]

theorem ids_updateBlock {change : Block → Block} (h : ∀ b, (change b).id = b.id) :
    (f.updateBlock id change).ids = f.ids := map_modifyFirst _ h f.blocks

theorem joints_updateBlock {change : Block → Block} (h : ∀ b, ((change b).id, (change b).cache) = (b.id, b.cache)) :
    (f.updateBlock id change).joints = f.joints :=
  map_modifyFirst (fun b : Block => (b.id, b.cache)) h f.blocks

/-- Two flows are wired alike: the same joints, and the same edges. -/
def Alike (f g : Flow) : Prop := g.joints = f.joints ∧ g.edges = f.edges

theorem Alike.refl (f : Flow) : Alike f f := ⟨rfl, rfl⟩

theorem Alike.trans {f g h : Flow} (hfg : Alike f g) (hgh : Alike g h) : Alike f h :=
  ⟨hgh.1.trans hfg.1, hgh.2.trans hfg.2⟩

theorem alike_updateBlock {change : Block → Block} (h : ∀ b, ((change b).id, (change b).cache) = (b.id, b.cache)) :
    Alike f (f.updateBlock id change) := ⟨joints_updateBlock h, rfl⟩

theorem alike_setParam (f : Flow) (id key value : Value) : Alike f (f.settle (f.setParam id key value)) := by
  unfold setParam
  split
  · exact Alike.refl f
  · split
    · exact Alike.refl f
    · exact alike_updateBlock fun _ => rfl

theorem alike_move (f : Flow) (id position : Value) : Alike f (f.settle ((f.move id position).map (·.1))) := by
  unfold move
  split
  · exact Alike.refl f
  · split
    · exact Alike.refl f
    · exact alike_updateBlock fun _ => rfl

theorem alike_mergeParams (f : Flow) (id : Value) (b : Block) (params : Value) :
    Alike f (f.mergeParams id b params).1 := by
  unfold mergeParams
  split
  · exact alike_updateBlock fun _ => rfl
  · exact Alike.refl f

theorem alike_amend (f : Flow) (id : Value) (position params : Option Value) :
    Alike f (f.amend id position params).1 := by
  unfold amend
  split
  · exact Alike.refl f
  · rename_i b _
    split
    · exact Alike.refl f
    · rename_i place _
      cases place with
      | none =>
        cases params with
        | none => exact Alike.refl f
        | some ps => exact alike_mergeParams f id b ps
      | some p =>
        have hmoved : Alike f (f.updateBlock id fun b => { b with position := p }) := alike_updateBlock fun _ => rfl
        cases params with
        | none => exact hmoved
        | some ps => exact hmoved.trans (alike_mergeParams _ id b ps)

/-! ## Caches made anew -/

theorem map_updateLast {β : Type} {k : Key} {change : Block → Block} (view : Key × Block → β)
    (h : ∀ p, view (p.1, change p.2) = view p) (blocks : List (Key × Block)) :
    (updateLast k change blocks).map view = blocks.map view := by
  unfold updateLast
  rw [List.map_reverse, map_modifyFirst view h, List.map_reverse, List.reverse_reverse]

theorem ids_rememberAll (blocks : List (Key × Block)) (edges : List Edge) :
    (rememberAll blocks edges).1.map (fun p => p.2.id) = blocks.map fun p => p.2.id := by
  fun_induction rememberAll blocks edges with
  | case1 => rfl
  | case2 => rfl
  | case3 blocks e rest source hs out fault ht =>
    show out.map (fun p => p.2.id) = _
    exact map_updateLast (fun p => p.2.id) (by intro _; rfl) blocks
  | case4 blocks e rest source hs out target ht ih =>
    rw [ih, map_updateLast (fun p => p.2.id) (by intro _; rfl)]
    exact map_updateLast (fun p => p.2.id) (by intro _; rfl) blocks

/-- Blocks with their keys are the blocks. -/
theorem map_snd_of_mapM_key {blocks : List Block} {keyed : List (Key × Block)}
    (h : (blocks.mapM fun b => b.id.key.map fun k => (k, b)) = .ok keyed) : keyed.map (·.2) = blocks := by
  have hall := forall₂_of_mapM_ok h
  clear h
  induction hall with
  | nil => rfl
  | @cons b p _ _ hp _ ih =>
    cases hk : b.id.key with
    | error fault =>
      rw [hk] at hp
      cases hp
    | ok k =>
      rw [hk] at hp
      obtain rfl : (k, b) = p := Except.ok.inj hp
      rw [List.map_cons, ih]

theorem edges_rebuild (f : Flow) : f.rebuild.1.edges = f.edges := by
  unfold rebuild
  split <;> rfl

theorem ids_rebuild (f : Flow) : f.rebuild.1.ids = f.ids := by
  unfold rebuild
  split
  · rfl
  · rename_i keyed hkeyed
    have hids := ids_rememberAll (keyed.map fun p => (p.1, { p.2 with cache := {} })) f.edges
    rw [List.map_map] at hids
    simp only [ids, List.map_map]
    rw [← map_snd_of_mapM_key hkeyed, List.map_map]
    exact hids

/-! ## When an edge is let in -/

/-- The edge is let in: its ends are there, its pair is not yet connected, and no circle would be reached from it. -/
structure Admits (f : Flow) (e : Edge) : Prop where
  source : (f.block? e.source).isSome
  target : (f.block? e.target).isSome
  unconnected : f.between? e.source e.target = none
  uncircled : f.wouldCycle e = .ok false

theorem addEdge_eq_ok : f.addEdge e = .ok g ↔ f.Admits e ∧ g = f.link e := by
  constructor
  · intro h
    unfold addEdge at h
    split at h
    · cases h
    · cases h
    · rename_i b c hb hc
      split at h
      · cases h
      · rename_i hbetween
        split at h
        · cases h
        · cases h
        · rename_i hcycle
          refine ⟨⟨by simp [hb], by simp [hc], by simpa using hbetween, hcycle⟩, ?_⟩
          exact (Except.ok.inj h).symm
  · rintro ⟨⟨hs, ht, hp, hc⟩, rfl⟩
    obtain ⟨b, hb⟩ := Option.isSome_iff_exists.1 hs
    obtain ⟨c, hc'⟩ := Option.isSome_iff_exists.1 ht
    simp [addEdge, hb, hc', hp, hc]

/-- An edge that is not let in changes nothing. -/
theorem settle_addEdge (f : Flow) (e : Edge) :
    f.settle (f.addEdge e) = f ∨ f.Admits e ∧ f.settle (f.addEdge e) = f.link e := by
  cases h : f.addEdge e with
  | error fault => exact Or.inl rfl
  | ok g => exact Or.inr (addEdge_eq_ok.1 h)

/-! ## What an edit can do -/

/-- What an edit can make of a flow. -/
inductive Change (f : Flow) (edit : Edit) : Flow → Prop
  | alike {g : Flow} (h : Alike f g) : Change f edit g
  | caches : Change f edit f.rebuild.1
  | block {mark : String} (type position : Value) (h : edit.mark? = some mark) :
    Change f edit (f.addBlock (drawnId "block" mark) type position)
  | dropped (id : Value) : Change f edit (f.dropBlock id)
  | cleared : Change f edit f.clear
  | linked {e : Edge} (he : edit.edge? = some e) (h : f.Admits e) : Change f edit (f.link e)
  | unlinked (id : Value) : Change f edit (f.removeEdge id).1

/-- An edit that wants to add an edge links it, or leaves the flow alone. -/
theorem Change.of_addEdge {edit : Edit} (he : edit.edge? = some e) : f.Change edit (f.settle (f.addEdge e)) := by
  rcases settle_addEdge f e with h | ⟨ha, h⟩
  · rw [h]
    exact .alike (Alike.refl f)
  · rw [h]
    exact .linked he ha

/-- An edit does one of these things. -/
theorem perform_change (f : Flow) (edit : Edit) : f.Change edit (f.perform edit) := by
  cases edit with
  | addBlock mark type position => exact .block type position rfl
  | setParam id key value => exact .alike (alike_setParam f id key value)
  | amend id position params => exact .alike (alike_amend f id position params)
  | move id position => exact .alike (alike_move f id position)
  | removeBlock id =>
    show f.Change _ (f.removeBlock id).1
    unfold removeBlock
    split
    · exact .alike (Alike.refl f)
    · exact .dropped id
  | clear => exact .cleared
  | connect mark source target => exact .of_addEdge rfl
  | addEdge e => exact .of_addEdge rfl
  | removeEdge id => exact .unlinked id
  | rebuild => exact .caches

/-! ## Many edits -/

theorem marks_cons (edit : Edit) (edits : List Edit) : marks (edit :: edits) = edit.mark?.toList ++ marks edits := by
  unfold marks
  cases h : edit.mark? <;> simp [h]

theorem performAll_mem_stages (f : Flow) (edits : List Edit) : f.performAll edits ∈ f.stages edits := by
  induction edits generalizing f with
  | nil => exact List.mem_singleton.2 rfl
  | cons edit edits ih => exact List.mem_cons_of_mem _ (ih (f.perform edit))

/-- What every allowed edit with an unused mark keeps at a flow that many edits pass through, holds all the way, if their
marks are distinct and unused at the start. A mark has to stay unused until it is drawn. -/
theorem stages_induction (P Q : Flow → Prop) (allowed : Edit → Prop) (unused : Flow → String → Prop)
    (hstep : ∀ {f g : Flow} {edit : Edit}, P f → Q f → allowed edit → f.Change edit g →
      (∀ m, edit.mark? = some m → unused f m) → P g)
    (hunused : ∀ {f g : Flow} {edit : Edit} {m : String}, allowed edit → f.Change edit g → unused f m →
      edit.mark? ≠ some m → unused g m)
    {edits : List Edit} (hallowed : ∀ edit ∈ edits, allowed edit) (hmarks : (marks edits).Nodup)
    (hnew : ∀ m ∈ marks edits, unused f m) (hway : ∀ g ∈ f.stages edits, Q g) (h : P f) :
    ∀ g ∈ f.stages edits, P g := by
  induction edits generalizing f with
  | nil =>
    intro g hg
    obtain rfl := List.mem_singleton.1 hg
    exact h
  | cons edit edits ih =>
    rw [marks_cons] at hmarks hnew
    obtain ⟨-, hrest, hapart⟩ := List.nodup_append.1 hmarks
    obtain ⟨hhere, hway⟩ := List.forall_mem_cons.1 hway
    have hedit := hallowed edit (by simp)
    have hc := perform_change f edit
    have hnext : P (f.perform edit) := hstep h hhere hedit hc fun m hm => hnew m (by simp [hm])
    refine List.forall_mem_cons.2
      ⟨h, ih (fun x hx => hallowed x (List.mem_cons_of_mem _ hx)) hrest (fun m hm => ?_) hway hnext⟩
    refine hunused hedit hc (hnew m (List.mem_append_right _ hm)) fun heq => ?_
    exact hapart m (by simp [heq]) m hm rfl

end Flow

end BlockFlow
