import BlockFlow.Proofs.Undoing

/-!
Connections in any order. Each connection is looked at in the flow that those before it have left. Still the order does not
matter: pairs that close no circle all together close none one by one, and what a flow refuses because of a circle, it goes
on refusing while it grows.

* `Flow.Joinable`: pairs that can all be connected; `Flow.Joinable.addEdge`, `Flow.Joinable.link`: the first of them is let
  in, and then the others can still be connected.
* `Flow.Reordered`: flows that differ in nothing but the order and the identifiers of edges.
* `Canvas.connectAll_apply`: **pairs that can all be connected are, in every order.**
* `Flow.Grows`, `Flow.Circular.grows`: **a circle stays a reason to refuse while the flow grows.**
* `Canvas.connect_orders`: both in every workspace that edits lead to.
-/

namespace BlockFlow

open Relation

/-- The ends of an edge as a pair. -/
def Edge.pair (e : Edge) : Value × Value := (e.source, e.target)

/-- The fault tells of a circle. -/
def Fault.IsCircular : Fault → Prop
  | .complaint ⟨.circular _, _, _⟩ => True
  | _ => False

namespace Flow

variable {f g : Flow} {e : Edge} {p : Value × Value} {pairs order rest : List (Value × Value)}

/-! ## Pairs that can all be connected -/

/-- An edge, or one of the pairs, leads from one identifier to another. -/
def PointsWith (f : Flow) (pairs : List (Value × Value)) (a b : Value) : Prop := f.Points a b ∨ (a, b) ∈ pairs

/-- The pairs can all be connected: they are distinct pairs of blocks that are not connected yet, and together with the
edges they close no circle. -/
structure Joinable (f : Flow) (pairs : List (Value × Value)) : Prop where
  distinct : pairs.Nodup
  ends : ∀ p ∈ pairs, p.1 ∈ f.ids ∧ p.2 ∈ f.ids
  unconnected : ∀ p ∈ pairs, p ∉ f.pairs
  acyclic : ∀ v, ¬ TransGen (f.PointsWith pairs) v v

/-- Whether pairs can all be connected does not depend on their order. -/
theorem Joinable.perm (h : f.Joinable pairs) (hp : order.Perm pairs) : f.Joinable order := by
  have hmem : ∀ p, p ∈ order ↔ p ∈ pairs := fun p => hp.mem_iff
  have hpoints : f.PointsWith order = f.PointsWith pairs := by
    funext a b
    exact propext (or_congr_right (hmem (a, b)))
  refine ⟨hp.nodup_iff.2 h.distinct, fun p hp => h.ends p ((hmem p).1 hp),
    fun p hp => h.unconnected p ((hmem p).1 hp), ?_⟩
  rw [hpoints]
  exact h.acyclic

/-- The first of such pairs is let in. -/
theorem Joinable.addEdge (hf : f.Sound) (h : f.Joinable (e.pair :: rest)) : f.addEdge e = .ok (f.link e) := by
  obtain ⟨hs, ht⟩ := h.ends e.pair List.mem_cons_self
  have hstep : f.PointsWith (e.pair :: rest) e.source e.target := Or.inr List.mem_cons_self
  refine hf.addEdge_eq_link hs ht (h.unconnected e.pair List.mem_cons_self) ?_ ?_
  · intro heq
    rw [← heq] at hstep
    exact h.acyclic e.source (.single hstep)
  · intro hback
    have hway : TransGen (f.PointsWith (e.pair :: rest)) e.target e.source :=
      TransGen.mono (fun _ _ hab => Or.inl hab) _ _ hback
    exact h.acyclic e.source (TransGen.head hstep hway)

theorem pairs_link (f : Flow) (e : Edge) : (f.link e).pairs = f.pairs ++ [e.pair] := by
  simp [Flow.pairs, edges_link, Edge.pair]

theorem points_link {a b : Value} : (f.link e).Points a b ↔ f.Points a b ∨ a = e.source ∧ b = e.target :=
  points_pushEdge

/-- With the first of such pairs connected, the others can still be. -/
theorem Joinable.link (h : f.Joinable (e.pair :: rest)) : (f.link e).Joinable rest := by
  obtain ⟨hnew, hdistinct⟩ := List.nodup_cons.1 h.distinct
  refine ⟨hdistinct, fun p hp => ?_, fun p hp hmem => ?_, ?_⟩
  · rw [ids_link]
    exact h.ends p (List.mem_cons_of_mem _ hp)
  · rw [pairs_link] at hmem
    rcases List.mem_append.1 hmem with hold | hhead
    · exact h.unconnected p (List.mem_cons_of_mem _ hp) hold
    · rw [List.mem_singleton.1 hhead] at hp
      exact hnew hp
  · -- a pair that has become an edge leads where it led before
    have hpoints : (f.link e).PointsWith rest = f.PointsWith (e.pair :: rest) := by
      funext a b
      refine propext ?_
      unfold PointsWith
      rw [points_link, List.mem_cons, Edge.pair, Prod.mk.injEq, or_assoc]
    rw [hpoints]
    exact h.acyclic

/-! ## Flows that differ in the order of their edges -/

/-- One flow has become another by a change in the order and the identifiers of its edges: all else is the same but for
the caches, and these hold the same in another order. -/
structure Reordered (f g : Flow) : Prop where
  rest : g.bare = { f.bare with edges := g.edges }
  pairs : g.pairs.Perm f.pairs
  caches : List.Forall₂ (fun b c => c.cache.inputs.Perm b.cache.inputs ∧ c.cache.outputs.Perm b.cache.outputs)
    f.blocks g.blocks

/-- Caches are made of the pairs of edges, in their order. -/
theorem cacheFrom_eq (edges : List Edge) (id : Value) :
    cacheFrom edges id = ⟨((edges.map Edge.pair).filter fun p => p.2.equal id).map (·.1),
      ((edges.map Edge.pair).filter fun p => p.1.equal id).map (·.2)⟩ := by
  simp only [cacheFrom, List.filter_map, List.map_map]
  rfl

/-- **Where caches tell the edges, flows with the same pairs hold the same in their caches.** -/
theorem Mirrored.reordered (hf : f.Mirrored) (hg : g.Mirrored) (hrest : g.bare = { f.bare with edges := g.edges })
    (hpairs : g.pairs.Perm f.pairs) : Reordered f g := by
  refine ⟨hrest, hpairs, ?_⟩
  have hsame : g.bare.blocks = f.bare.blocks := by rw [hrest]
  have hfilled : f.blocks = f.bare.blocks.map fun b => { b with cache := cacheFrom f.edges b.id } :=
    congrArg Flow.blocks hf.eq_filled
  have hfilled' : g.blocks = f.bare.blocks.map fun b => { b with cache := cacheFrom g.edges b.id } := by
    rw [← hsame]
    exact congrArg Flow.blocks hg.eq_filled
  generalize f.bare.blocks = blocks at hfilled hfilled'
  rw [hfilled, hfilled', List.forall₂_map_left_iff, List.forall₂_map_right_iff, List.forall₂_same]
  intro b _
  simp only [cacheFrom_eq]
  exact ⟨(hpairs.filter _).map _, (hpairs.filter _).map _⟩

/-! ## Circles while a flow grows -/

/-- No block and no edge of a flow is missing in another. -/
structure Grows (f g : Flow) : Prop where
  ids : ∀ v ∈ f.ids, v ∈ g.ids
  edges : ∀ e ∈ f.edges, e ∈ g.edges

theorem Grows.refl (f : Flow) : Grows f f := ⟨fun _ hv => hv, fun _ he => he⟩

theorem Grows.trans {f g h : Flow} (hfg : Grows f g) (hgh : Grows g h) : Grows f h :=
  ⟨fun v hv => hgh.ids v (hfg.ids v hv), fun e he => hgh.edges e (hfg.edges e he)⟩

/-- An edge that is let in or refused takes nothing away. -/
theorem grows_settle_addEdge (f : Flow) (e : Edge) : Grows f (f.settle (f.addEdge e)) := by
  rcases settle_addEdge f e with h | ⟨-, h⟩
  · rw [h]
    exact Grows.refl f
  · rw [h]
    refine ⟨fun v hv => ?_, fun x hx => ?_⟩
    · rwa [ids_link]
    · rw [edges_link]
      exact List.mem_append_left _ hx

/-- The pair is refused because of a circle: its blocks are there and not connected yet, and the target is the source or
leads to it. -/
def Circular (f : Flow) (source target : Value) : Prop :=
  source ∈ f.ids ∧ target ∈ f.ids ∧ (source, target) ∉ f.pairs ∧ (source = target ∨ TransGen f.Points target source)

theorem Verdict.circular_iff {outcome : Except Fault Unit} (h : f.Verdict e outcome g) :
    (∃ fault, outcome = .error fault ∧ fault.IsCircular) ↔ f.Circular e.source e.target := by
  unfold Circular
  cases h with
  | noSource h => simp [h, Complaint.missingSource, Complaint.make, Fault.IsCircular]
  | noTarget hs h => simp [h, Complaint.missingTarget, Complaint.make, Fault.IsCircular]
  | connected hs ht h => simp [h, Complaint.alreadyConnected, Complaint.make, Fault.IsCircular]
  | circular hs ht hp h => simp [hs, ht, hp, h, Complaint.wouldCircle, Complaint.make, Fault.IsCircular]
  | joined hs ht hp hne hback h => simp [hne, hback]

/-- **A circle stays a reason to refuse** while the flow grows. The pair has not been connected meanwhile, as that would
have closed the circle. -/
theorem Circular.grows {source target : Value} (h : f.Circular source target) (hgrows : Grows f g) (hg : g.Acyclic) :
    g.Circular source target := by
  obtain ⟨hs, ht, -, hcircle⟩ := h
  have hback : source = target ∨ TransGen g.Points target source := by
    refine hcircle.imp_right fun hway => TransGen.mono ?_ _ _ hway
    rintro a b ⟨x, hx, hab⟩
    exact ⟨x, hgrows.edges x hx, hab⟩
  refine ⟨hgrows.ids _ hs, hgrows.ids _ ht, fun hmem => ?_, hback⟩
  obtain ⟨x, hx, hends⟩ := List.mem_map.1 hmem
  obtain ⟨hsource, htarget⟩ := Prod.mk.inj hends
  have hstep : g.Points source target := ⟨x, hx, hsource, htarget⟩
  rcases hback with rfl | hway
  · exact hg _ (.single hstep)
  · exact hg _ (TransGen.head hstep hway)

end Flow

namespace Canvas

open Workspace (nextEdge)

variable {w : Workspace} {pairs order : List (Value × Value)} {source target : Value}

/-! ## Connecting pairs one after the other -/

/-- Connects pairs one after the other, up to the first that is refused. -/
def connectAll (pairs : List (Value × Value)) : Work (List Edge) := pairs.mapM fun p => connect p.1 p.2

/-- What the edges of pairs make of a flow: they come behind its edges, and its caches tell them all. -/
structure Extended (w : Workspace) (edges : List Edge) (v : Workspace) : Prop where
  mirrored : v.flow.Mirrored
  bare : v.flow.bare = { w.flow.bare with edges := w.flow.edges ++ edges }

theorem Extended.edges_eq {edges : List Edge} {v : Workspace} (h : Extended w edges v) :
    v.flow.edges = w.flow.edges ++ edges := congrArg Flow.edges h.bare

/-- **Pairs that can all be connected are**, in the order in which they come. -/
theorem connectAll_apply (hw : w.flow.Mirrored) (h : w.flow.Joinable order) :
    ∃ edges v, connectAll order w = (.ok edges, v) ∧ edges.map Edge.pair = order ∧ Extended w edges v := by
  induction order generalizing w with
  | nil => exact ⟨[], w, rfl, rfl, hw, by simp [Flow.bare]⟩
  | cons p rest ih =>
    have hadd : w.flow.addEdge (w.nextEdge p.1 p.2) = .ok (w.flow.link (w.nextEdge p.1 p.2)) :=
      Flow.Joinable.addEdge (e := w.nextEdge p.1 p.2) hw.sound h
    have hconnect := connect_fst p.1 p.2 w
    obtain ⟨hflow, -⟩ := Prod.mk.inj (connect_snd p.1 p.2 w)
    rw [hadd] at hconnect hflow
    cases hstep : connect p.1 p.2 w with
    | mk outcome w₁ =>
      rw [hstep] at hconnect hflow
      obtain rfl : outcome = .ok (w.nextEdge p.1 p.2) := hconnect
      have hw₁ : w₁.flow = w.flow.link (w.nextEdge p.1 p.2) := hflow
      obtain ⟨edges, v, hrest, hpairs, hextended⟩ := ih (w := w₁)
        (by rw [hw₁]; exact hw.link (Flow.addEdge_eq_ok.1 hadd).1)
        (by rw [hw₁]; exact Flow.Joinable.link (e := w.nextEdge p.1 p.2) h)
      refine ⟨w.nextEdge p.1 p.2 :: edges, v, ?_, ?_, hextended.mirrored, ?_⟩
      · unfold connectAll at hrest ⊢
        simp only [List.mapM_cons, Act.bind_apply, hstep, hrest]
        rfl
      · rw [List.map_cons, hpairs]
        rfl
      · rw [hextended.bare, hw₁, Flow.bare_link, Flow.edges_link, List.append_assoc]
        rfl

/-- Two orders of pairs end in flows that differ in the order of their edges only. -/
theorem connectAll_reordered {order' : List (Value × Value)} (hw : w.flow.Mirrored) (h : w.flow.Joinable pairs)
    (hp : order.Perm pairs) (hp' : order'.Perm pairs) :
    Flow.Reordered (connectAll order w).2.flow (connectAll order' w).2.flow := by
  obtain ⟨edges, v, hrun, hpairs, hextended⟩ := connectAll_apply hw (h.perm hp)
  obtain ⟨edges', v', hrun', hpairs', hextended'⟩ := connectAll_apply hw (h.perm hp')
  rw [hrun, hrun']
  refine hextended.mirrored.reordered hextended'.mirrored ?_ ?_
  · rw [hextended'.bare, hextended.bare, hextended'.edges_eq]
  · have hends : (edges'.map Edge.pair).Perm (edges.map Edge.pair) := by
      rw [hpairs, hpairs']
      exact hp'.trans hp.symm
    show (v'.flow.edges.map Edge.pair).Perm (v.flow.edges.map Edge.pair)
    rw [hextended.edges_eq, hextended'.edges_eq, List.map_append, List.map_append]
    exact hends.append_left _

/-! ## Pairs that are refused -/

/-- The pair is refused as circular when it is to be connected next. -/
def RefusesCircle (w : Workspace) (source target : Value) : Prop :=
  ∃ fault, (connect source target w).1 = .error fault ∧ fault.IsCircular

theorem refusesCircle_iff (h : w.flow.Sound) : RefusesCircle w source target ↔ w.flow.Circular source target := by
  have hverdict := Flow.addEdge_verdict h.texts h.textEnds h.acyclic (w.nextEdge source target)
  refine Iff.trans ?_ hverdict.circular_iff
  unfold RefusesCircle
  rw [connect_fst]
  cases w.flow.addEdge (w.nextEdge source target) <;> simp [Except.map]

/-- Connections that are wanted, as edits. -/
def connections (pairs : List (Value × Value)) : List Edit := pairs.map fun p => .connect "" p.1 p.2

theorem drawn_connections (pairs : List (Value × Value)) : ∀ edit ∈ connections pairs, edit.Drawn := by
  intro edit hedit
  obtain ⟨p, -, rfl⟩ := List.mem_map.1 hedit
  trivial

/-- Connections take nothing away, whether they are made or refused. -/
theorem grows_connections (w : Workspace) (pairs : List (Value × Value)) :
    Flow.Grows w.flow (w.stepAll (connections pairs)).flow := by
  induction pairs generalizing w with
  | nil => exact Flow.Grows.refl _
  | cons p rest ih =>
    obtain ⟨hflow, -⟩ := Prod.mk.inj ((Edit.connect "" p.1 p.2).step_apply w)
    refine Flow.Grows.trans ?_ (ih ((Edit.connect "" p.1 p.2).step w).2)
    rw [hflow]
    exact Flow.grows_settle_addEdge _ _

/-- **The order of connections does not matter.** Whatever edits an empty flow has come through, as long as edges only come
through connections: distinct pairs of its blocks that are not connected yet and close no circle together with its edges are
all let in, in whatever order they are connected, each as an edge of its own behind those that are there; and any two orders
end in flows with the same blocks, whose edges have the same pairs and whose caches hold the same, up to order. What is
refused as circular is so after any further connections as well. -/
theorem connect_orders {id : Value} {edits : List Edit} (hdrawn : ∀ edit ∈ edits, edit.Drawn) {w : Workspace}
    (hw : w.flow = { id }) :
    (∀ pairs, (w.stepAll edits).flow.Joinable pairs →
      (∀ order, order.Perm pairs → ∃ edges v, connectAll order (w.stepAll edits) = (.ok edges, v) ∧
        edges.map Edge.pair = order ∧ v.flow.edges = (w.stepAll edits).flow.edges ++ edges) ∧
      ∀ order order', order.Perm pairs → order'.Perm pairs →
        Flow.Reordered (connectAll order (w.stepAll edits)).2.flow (connectAll order' (w.stepAll edits)).2.flow) ∧
      ∀ source target, RefusesCircle (w.stepAll edits) source target →
        ∀ more, RefusesCircle ((w.stepAll edits).stepAll (connections more)) source target := by
  have hempty : w.Tidy := Workspace.tidy_of_empty (by rw [hw]) (by rw [hw])
  have htidy : (w.stepAll edits).Tidy := hempty.stepAll hdrawn
  refine ⟨fun pairs hjoinable => ⟨fun order hp => ?_, fun order order' hp hp' => ?_⟩, fun source target h more => ?_⟩
  · obtain ⟨edges, v, hrun, hpairs, hextended⟩ := connectAll_apply htidy.exact.mirrored (hjoinable.perm hp)
    exact ⟨edges, v, hrun, hpairs, hextended.edges_eq⟩
  · exact connectAll_reordered htidy.exact.mirrored hjoinable hp hp'
  · have hlater := (htidy.stepAll (drawn_connections more)).exact.sound
    rw [refusesCircle_iff htidy.exact.sound] at h
    rw [refusesCircle_iff hlater]
    exact h.grows (grows_connections _ more) hlater.acyclic

/-- Three blocks, of which two are connected. -/
def spur : List Edit :=
  [.addBlock "" (.text "variable") .null, .addBlock "" (.text "if-else") .null, .addBlock "" (.text "return") .null,
    .connect "" (.text "block-1") (.text "block-2")]

/-- The workspace in which they were drawn. -/
def spurred : Workspace := Workspace.stepAll { flow := { id := .text "flow-1" } } spur

/-- Pairs that lead on to the third block. -/
def onward : List (Value × Value) := [(.text "block-2", .text "block-3"), (.text "block-1", .text "block-3")]

theorem drawn_spur : ∀ edit ∈ spur, edit.Drawn := by simp [spur, Edit.Drawn]

theorem spurred_flow :
    spurred.flow.ids = [.text "block-1", .text "block-2", .text "block-3"] ∧
      spurred.flow.edges = [rib "4" "block-2"] := by
  have hblocks : (Flow.performAll { id := .text "flow-1" } ((numbered 1 spur).take 3)).Sound :=
    Flow.sound_performAll rfl rfl (by decide)
  generalize hf : Flow.performAll { id := .text "flow-1" } ((numbered 1 spur).take 3) = f at hblocks
  have hids : f.ids = [.text "block-1", .text "block-2", .text "block-3"] := by rw [← hf]; rfl
  have hedges : f.edges = [] := by rw [← hf]; rfl
  have hadded : f.addEdge (rib "4" "block-2") = .ok (f.link (rib "4" "block-2")) :=
    hblocks.addEdge_of_end (by simp [hids, rib]) (by simp [hids, rib]) (by simp [Flow.pairs, hedges]) (by simp [rib])
      (by simp [hedges])
  have hrun : spurred.flow = f.settle (f.addEdge (rib "4" "block-2")) := by
    rw [spurred, Workspace.stepAll_flow, ← hf]
    rfl
  rw [hrun, hadded, Flow.settle, Flow.ids_link, hids, Flow.edges_link, hedges]
  exact ⟨rfl, rfl⟩

theorem joinable_onward : spurred.flow.Joinable onward := by
  obtain ⟨hids, hedges⟩ := spurred_flow
  refine ⟨by simp [onward], by simp [onward, hids], by simp [onward, Flow.pairs, hedges, rib], fun v hv => ?_⟩
  -- all pairs and edges lead to a block with a higher number
  let rank : Value → Nat := fun v => if v.isText "block-1" then 0 else if v.isText "block-2" then 1 else 2
  have hup : ∀ a b, spurred.flow.PointsWith onward a b → rank a < rank b := by
    rintro a b (⟨x, hx, rfl, rfl⟩ | hmem)
    · rw [hedges] at hx
      obtain rfl := List.mem_singleton.1 hx
      decide
    · rcases List.mem_cons.1 hmem with heq | hmem
      · obtain ⟨rfl, rfl⟩ := Prod.mk.inj heq
        decide
      · obtain ⟨rfl, rfl⟩ := Prod.mk.inj (List.mem_singleton.1 hmem)
        decide
  have hlt : rank v < rank v := by
    refine TransGen.trans_induction_on (motive := fun {a b} _ => rank a < rank b) hv ?_ ?_
    · exact fun hab => hup _ _ hab
    · exact fun _ _ hab hbc => Nat.lt_trans hab hbc
  exact Nat.lt_irrefl _ hlt

/-- The third block is reached from the other two in either order; the connection back is refused before and after. -/
theorem connect_orders_spur :
    (∀ edit ∈ spur, edit.Drawn) ∧ spurred.flow.Joinable onward ∧
      (∃ edges v, connectAll onward.reverse spurred = (.ok edges, v) ∧ edges.map Edge.pair = onward.reverse ∧
        v.flow.edges = spurred.flow.edges ++ edges) ∧
      Flow.Reordered (connectAll onward spurred).2.flow (connectAll onward.reverse spurred).2.flow ∧
      RefusesCircle spurred (.text "block-2") (.text "block-1") ∧
      RefusesCircle (spurred.stepAll (connections onward)) (.text "block-2") (.text "block-1") := by
  obtain ⟨hids, hedges⟩ := spurred_flow
  have horders := connect_orders drawn_spur (w := { flow := { id := .text "flow-1" } }) rfl
  obtain ⟨hall, hsame⟩ := horders.1 onward joinable_onward
  have hsound : spurred.flow.Sound := (Workspace.Tidy.stepAll (Workspace.tidy_of_empty rfl rfl) drawn_spur).exact.sound
  have hrefused : RefusesCircle spurred (.text "block-2") (.text "block-1") := by
    rw [refusesCircle_iff hsound]
    refine ⟨by simp [hids], by simp [hids], by simp [Flow.pairs, hedges, rib], Or.inr (.single ?_)⟩
    exact ⟨rib "4" "block-2", by simp [hedges], rfl, rfl⟩
  exact ⟨drawn_spur, joinable_onward, hall onward.reverse (List.reverse_perm _),
    hsame onward onward.reverse (.refl _) (List.reverse_perm _), hrefused, horders.2 _ _ hrefused onward⟩

end Canvas

end BlockFlow
