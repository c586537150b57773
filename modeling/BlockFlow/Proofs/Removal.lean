import BlockFlow.Proofs.Admission
import BlockFlow.Proofs.Caches
import Mathlib.Data.List.Forall2

/-!
What leaves a flow with an edge. Taking an edge out by its identifier takes out all edges of that identifier, but the caches
are those of the first. So one edge leaves, with one entry at each of its ends, as long as no identifier is that of two
edges; callers that name their edges themselves can give one name twice.

* `Loses`: a list without one of its entries.
* `Flow.Spares`: what stays however many edges leave; `Flow.Parted`: one edge has left, and nothing else.
* `Flow.TellsApart`: no identifier is that of two edges.
* `Flow.Sound.parted_iff`: when one removal takes out one edge only.
* `Flow.removeEdge_parted_iff`: when all removals along a run of edits do.
-/

namespace BlockFlow

/-! ## One entry less -/

/-- A list has lost one entry, and the others have kept their order. -/
def Loses {α : Type} (x : α) (before after : List α) : Prop :=
  ∃ front back, before = front ++ x :: back ∧ after = front ++ back

/-- Taking out what passes a test takes out one entry just when one passes. -/
theorem loses_filter_iff {α : Type} {x : α} {xs : List α} {test : α → Bool} (hx : ∀ y, xs.filter test = [y] → y = x) :
    Loses x xs (xs.filter fun y => !test y) ↔ xs.countP test = 1 := by
  constructor
  · rintro ⟨front, back, hxs, hkept⟩
    have hlen : xs.length = xs.countP test + (xs.filter fun y => !test y).length := by
      rw [← List.countP_eq_length_filter, List.length_eq_countP_add_countP test]
      simp
    rw [hkept, hxs] at hlen
    rw [hxs]
    simp only [List.length_append, List.length_cons] at hlen
    omega
  · intro hone
    rw [List.countP_eq_length_filter, List.length_eq_one_iff] at hone
    obtain ⟨y, hy⟩ := hone
    obtain rfl := hx y hy
    obtain ⟨front, back, rfl, hfront, hpass, hback⟩ := List.filter_eq_cons_iff.1 hy
    refine ⟨front, back, rfl, ?_⟩
    have hnot : ∀ zs : List α, (∀ z ∈ zs, ¬ test z = true) → (zs.filter fun z => !test z) = zs := by
      intro zs hzs
      exact List.filter_eq_self.2 fun z hz => by simp [hzs z hz]
    rw [List.filter_append, hnot front hfront, List.filter_cons_of_neg (by simp [hpass]),
      hnot back (List.filter_eq_nil_iff.1 hback)]

/-- Equality of values is equality when the right one is a text. -/
theorem Value.IsText.eq_of_equal {a b : Value} (hb : b.IsText) (h : a.equal b = true) : a = b := by
  obtain ⟨s, rfl⟩ := hb
  cases a with
  | text t => exact (Value.text_equal.1 h).symm
  | real x => simp [Value.equal, Value.same, Value.atom?, (Value.ofReal_ne_text x s).symm] at h
  | _ => simp [Value.equal, Value.same, Value.atom?] at h

/-- All entries that are equal to a text leave together, so one leaves if there is one. -/
theorem Value.IsText.loses_filter_iff {v : Value} (hv : v.IsText) (vs : List Value) :
    Loses v vs (vs.filter fun x => !x.equal v) ↔ vs.countP (fun x => x.equal v) = 1 := by
  refine BlockFlow.loses_filter_iff fun y hy => hv.eq_of_equal ?_
  have hin : y ∈ vs.filter fun x => x.equal v := by simp [hy]
  exact (List.mem_filter.1 hin).2

namespace Flow

variable {f g : Flow} {e : Edge} {q : Value}

/-! ## What leaves and what stays -/

/-- Edges may have left the flow, and their entries the outputs of the source and the inputs of the target of one of them.
All else is as it was. -/
structure Spares (f : Flow) (e : Edge) (g : Flow) : Prop where
  rest : g = { f with edges := g.edges, blocks := g.blocks }
  blocks : List.Forall₂ (fun b c => c = { b with cache := c.cache } ∧
    (b.id ≠ e.source → c.cache.outputs = b.cache.outputs) ∧
    (b.id ≠ e.target → c.cache.inputs = b.cache.inputs)) f.blocks g.blocks

/-- One edge has left the flow, with one entry at each of its ends. All else is as it was. -/
structure Parted (f : Flow) (e : Edge) (g : Flow) : Prop extends Spares f e g where
  edges : Loses e f.edges g.edges
  ends : List.Forall₂ (fun b c =>
    (b.id = e.source → Loses e.target b.cache.outputs c.cache.outputs) ∧
    (b.id = e.target → Loses e.source b.cache.inputs c.cache.inputs)) f.blocks g.blocks

/-- No identifier is that of two edges. -/
def TellsApart (f : Flow) : Prop := ∀ id, f.edges.countP (fun e => e.id.equal id) ≤ 1

/-- The source of an edge remembers its target once, and its target remembers the source once. -/
def RemembersOnce (f : Flow) (e : Edge) : Prop :=
  ∀ b ∈ f.blocks,
    (b.id = e.source → b.cache.outputs.countP (fun o => o.equal e.target) = 1) ∧
    (b.id = e.target → b.cache.inputs.countP (fun i => i.equal e.source) = 1)

/-! ## One removal -/

theorem removeEdge_snd (f : Flow) (q : Value) : (f.removeEdge q).2 = f.edge? q := by
  unfold removeEdge
  cases f.edge? q <;> rfl

theorem edges_removeEdge_eq (he : f.edge? q = some e) :
    (f.removeEdge q).1.edges = f.edges.filter fun x => !x.id.equal q := by
  unfold removeEdge
  rw [he]
  rfl

theorem Sound.spares_removeEdge (h : f.Sound) (he : f.edge? q = some e) : f.Spares e (f.removeEdge q).1 := by
  rw [removeEdge_eq h he]
  refine ⟨rfl, ?_⟩
  rw [List.forall₂_map_right_iff, List.forall₂_same]
  intro b hb
  have ht := h.texts b.id (List.mem_map_of_mem hb)
  refine ⟨rfl, fun hne => ?_, fun hne => ?_⟩
  · have hs : b.id.equal e.source = false := Bool.eq_false_iff.2 (mt ht.equal_iff.1 hne.symm)
    simp [Block.parted, hs]
  · have hs : b.id.equal e.target = false := Bool.eq_false_iff.2 (mt ht.equal_iff.1 hne.symm)
    simp [Block.parted, hs]

theorem loses_removeEdge_iff (he : f.edge? q = some e) :
    Loses e f.edges (f.removeEdge q).1.edges ↔ f.edges.countP (fun x => x.id.equal q) = 1 := by
  rw [edges_removeEdge_eq he]
  refine loses_filter_iff fun y hy => ?_
  have hin : e ∈ f.edges.filter fun x => x.id.equal q := List.mem_filter.2 (edge?_spec he)
  rw [hy] at hin
  exact (List.mem_singleton.1 hin).symm

/-- **One removal takes out one edge only** just when one edge has the identifier and both of its ends remember it once. -/
theorem Sound.parted_iff (h : f.Sound) (he : f.edge? q = some e) :
    f.Parted e (f.removeEdge q).1 ↔ f.edges.countP (fun x => x.id.equal q) = 1 ∧ f.RemembersOnce e := by
  obtain ⟨hsource, htarget⟩ := h.textEnds e (edge?_spec he).1
  have hends : List.Forall₂ (fun b c : Block =>
      (b.id = e.source → Loses e.target b.cache.outputs c.cache.outputs) ∧
      (b.id = e.target → Loses e.source b.cache.inputs c.cache.inputs)) f.blocks (f.removeEdge q).1.blocks ↔
      f.RemembersOnce e := by
    rw [removeEdge_eq h he, List.forall₂_map_right_iff, List.forall₂_same]
    refine forall₂_congr fun b hb => and_congr ?_ ?_
    · refine imp_congr_right fun hid => ?_
      rw [← htarget.loses_filter_iff]
      simp [Block.parted, hid, hsource.equal_iff.2 rfl]
    · refine imp_congr_right fun hid => ?_
      rw [← hsource.loses_filter_iff]
      simp [Block.parted, hid, htarget.equal_iff.2 rfl]
  constructor
  · intro hparted
    exact ⟨(loses_removeEdge_iff he).1 hparted.edges, hends.1 hparted.ends⟩
  · rintro ⟨hone, honce⟩
    exact ⟨h.spares_removeEdge he, (loses_removeEdge_iff he).2 hone, hends.2 honce⟩

/-! ## Caches that tell the edges -/

theorem TellsApart.countP_eq_one (h : f.TellsApart) (he : f.edge? q = some e) :
    f.edges.countP (fun x => x.id.equal q) = 1 := by
  obtain ⟨hmem, hfound⟩ := edge?_spec he
  exact Nat.le_antisymm (h q) (List.countP_pos_iff.2 ⟨e, hmem, hfound⟩)

/-- An edge with an identifier that tells edges apart is the one that is found by it. -/
theorem TellsApart.eq_of_edge? (h : f.TellsApart) (he : f.edge? q = some e) {x : Edge} (hx : x ∈ f.edges)
    (hid : x.id.equal q = true) : x = e := by
  obtain ⟨hmem, hfound⟩ := edge?_spec he
  have hone := h.countP_eq_one he
  rw [List.countP_eq_length_filter, List.length_eq_one_iff] at hone
  obtain ⟨y, hy⟩ := hone
  have honly : ∀ z ∈ f.edges, z.id.equal q = true → z = y := fun z hz hzid =>
    List.mem_singleton.1 (hy ▸ List.mem_filter.2 ⟨hz, hzid⟩)
  rw [honly x hx hid, honly e hmem hfound]

/-- An edge of a sound flow is the only one between its ends. -/
theorem Sound.countP_ends (h : f.Sound) (he : e ∈ f.edges) :
    f.edges.countP (fun x => x.source.equal e.source && x.target.equal e.target) = 1 := by
  classical
  have hself : ∀ x ∈ f.edges, (x.source.equal e.source && x.target.equal e.target) = true ↔ (x == e) = true := by
    intro x hx
    obtain ⟨hs, ht⟩ := h.textEnds x hx
    rw [Bool.and_eq_true, hs.equal_iff, ht.equal_iff, beq_iff_eq]
    constructor
    · rintro ⟨hs, ht⟩
      exact h.eq_of_ends hx he hs.symm ht.symm
    · rintro rfl
      exact ⟨rfl, rfl⟩
  rw [List.countP_congr hself]
  exact List.count_eq_one_of_mem (List.Nodup.of_map _ h.single) he

/-- Where caches tell the edges, both ends of an edge remember it once. -/
theorem Mirrored.remembersOnce (h : f.Mirrored) (he : e ∈ f.edges) : f.RemembersOnce e := by
  intro b hb
  rw [h.caches b hb]
  simp only [cacheFrom, List.countP_map, List.countP_filter, Function.comp_def]
  refine ⟨fun hid => ?_, fun hid => ?_⟩
  · rw [hid, ← h.sound.countP_ends he]
    simp only [Bool.and_comm]
  · rw [hid, ← h.sound.countP_ends he]

/-- Identifiers that are distinct texts tell edges apart. -/
theorem Exact.tellsApart (h : f.Exact) : f.TellsApart := by
  classical
  intro q
  have hcount : f.edges.countP (fun x => x.id.equal q) = (f.edges.map (·.id)).count q := by
    rw [List.count, List.countP_map]
    refine List.countP_congr fun x hx => ?_
    rw [(h.edgeTexts x hx).equal_iff, Function.comp, beq_iff_eq, eq_comm]
  rw [hcount]
  exact List.nodup_iff_count_le_one.1 h.edgeIds q

/-! ## Along a run -/

/-- Caches tell the edges all the way, as long as identifiers tell them apart. -/
theorem mirrored_stages (hb : f.blocks = []) (he : f.edges = []) {edits : List Edit} (hfresh : (marks edits).Nodup)
    (hapart : ∀ g ∈ f.stages edits, g.TellsApart) : ∀ g ∈ f.stages edits, g.Mirrored :=
  stages_induction Mirrored TellsApart (fun _ => True) (fun f m => drawnId "block" m ∉ f.ids)
    (fun hf hapart _ hc hm => hf.change (fun _ _ he _ hx hid => hapart.eq_of_edge? he hx hid) hc hm)
    (fun _ hc hm hne => hc.notMem_ids hm hne) (fun _ _ => trivial) hfresh (by simp [ids, hb]) hapart
    (mirrored_of_empty hb he)

/-- **What leaves a flow with an edge**, at every flow that edits of an empty one pass through. A removal leaves all but the
edges of its identifier and the entries at the ends of the first of them alone. It takes out that one edge only, with one
entry at each end, just when no other edge has the identifier and both ends remember the edge once; and all removals do so,
wherever they are made along the run, just when no identifier is ever that of two edges. Edges that come through connections
are told apart. -/
theorem removeEdge_parted_iff (id : Value) {edits : List Edit} (hfresh : (marks edits).Nodup) :
    (∀ f ∈ stages { id } edits, ∀ q e, (f.removeEdge q).2 = some e →
      f.Spares e (f.removeEdge q).1 ∧ (f.removeEdge q).1.edges = (f.edges.filter fun x => !x.id.equal q) ∧
        (f.Parted e (f.removeEdge q).1 ↔ f.edges.countP (fun x => x.id.equal q) = 1 ∧ f.RemembersOnce e)) ∧
      ((∀ f ∈ stages { id } edits, ∀ q e, (f.removeEdge q).2 = some e → f.Parted e (f.removeEdge q).1) ↔
        ∀ f ∈ stages { id } edits, f.TellsApart) ∧
      ((∀ edit ∈ edits, edit.Drawn) → ∀ f ∈ stages { id } edits, f.TellsApart) := by
  have hsound : ∀ f ∈ stages { id } edits, f.Sound :=
    (sound_of_empty rfl rfl).stages hfresh (by simp [ids])
  refine ⟨fun f hf q e he => ?_, ⟨fun hparted f hf q => ?_, fun hapart f hf q e he => ?_⟩, fun hdrawn f hf => ?_⟩
  · rw [removeEdge_snd] at he
    exact ⟨(hsound f hf).spares_removeEdge he, edges_removeEdge_eq he, (hsound f hf).parted_iff he⟩
  · cases he : f.edge? q with
    | none =>
      unfold edge? at he
      rw [List.countP_eq_zero.2 (List.find?_eq_none.1 he)]
      exact Nat.zero_le 1
    | some e =>
      have hone := ((hsound f hf).parted_iff he).1 (hparted f hf q e (by rw [removeEdge_snd, he]))
      exact Nat.le_of_eq hone.1
  · rw [removeEdge_snd] at he
    have hmirrored := mirrored_stages rfl rfl hfresh hapart f hf
    exact ((hsound f hf).parted_iff he).2
      ⟨(hapart f hf).countP_eq_one he, hmirrored.remembersOnce (edge?_spec he).1⟩
  · exact ((exact_of_empty rfl rfl).stages hdrawn hfresh (by simp [Unused, ids]) f hf).tellsApart

/-- An edge of the name that all callers choose. -/
def namesake (source target : String) : Edge := { id := .text "x", source := .text source, target := .text target }

/-- Two edges that start at one block, under one identifier. -/
def twins : List Edit :=
  [.addBlock "1" (.text "variable") .null, .addBlock "2" (.text "return") .null, .addBlock "3" (.text "return") .null,
    .addEdge (namesake "block-1" "block-2"), .addEdge (namesake "block-1" "block-3")]

theorem removeEdge_parted_iff_twins :
    (marks twins).Nodup ∧
      ((∀ f ∈ stages { id := .text "flow-1" } twins, ∀ q e, (f.removeEdge q).2 = some e →
          f.Parted e (f.removeEdge q).1) ↔
        ∀ f ∈ stages { id := .text "flow-1" } twins, f.TellsApart) :=
  ⟨by decide, (removeEdge_parted_iff _ (by decide)).2.1⟩

/-- An edge to a block that no edge leaves is let in, if it is not there yet. -/
theorem Sound.addEdge_of_end (h : f.Sound) (hs : e.source ∈ f.ids) (ht : e.target ∈ f.ids)
    (hp : (e.source, e.target) ∉ f.pairs) (hne : e.source ≠ e.target) (hend : ∀ x ∈ f.edges, x.source ≠ e.target) :
    f.addEdge e = .ok (f.link e) := by
  have hback : ¬ Relation.TransGen f.Points e.target e.source := by
    intro hback
    obtain ⟨_, ⟨x, hx, hsource, -⟩, -⟩ := Relation.TransGen.head'_iff.1 hback
    exact hend x hx hsource
  exact h.addEdge_eq_link hs ht hp hne hback

/-- Both of the edges are let in. -/
theorem edges_twins :
    (performAll { id := .text "flow-1" } twins).edges = [namesake "block-1" "block-2", namesake "block-1" "block-3"] := by
  have hblocks : (performAll { id := .text "flow-1" } (twins.take 3)).Sound := sound_performAll rfl rfl (by decide)
  generalize hf : performAll { id := .text "flow-1" } (twins.take 3) = f at hblocks
  have hids : f.ids = [.text "block-1", .text "block-2", .text "block-3"] := by rw [← hf]; rfl
  have hedges : f.edges = [] := by rw [← hf]; rfl
  have hfirst : f.addEdge (namesake "block-1" "block-2") = .ok (f.link (namesake "block-1" "block-2")) :=
    hblocks.addEdge_of_end (by simp [hids, namesake]) (by simp [hids, namesake]) (by simp [pairs, hedges])
      (by simp [namesake]) (by simp [hedges])
  have hlinked := hblocks.link (addEdge_eq_ok.1 hfirst).1
  have hsecond := hlinked.addEdge_of_end (e := namesake "block-1" "block-3") (by simp [ids_link, hids, namesake])
    (by simp [ids_link, hids, namesake]) (by simp [pairs, edges_link, hedges, namesake]) (by simp [namesake])
    (by simp [edges_link, hedges, namesake])
  have hrun : performAll { id := .text "flow-1" } twins =
      (f.settle (f.addEdge (namesake "block-1" "block-2"))).settle
        ((f.settle (f.addEdge (namesake "block-1" "block-2"))).addEdge (namesake "block-1" "block-3")) := by
    rw [← hf]
    rfl
  rw [hrun, hfirst, settle, hsecond, settle, edges_link, edges_link, hedges]
  rfl

/-- One removal takes out both of the edges. -/
theorem removeEdge_twins :
    ∃ e, ((performAll { id := .text "flow-1" } twins).removeEdge (.text "x")).2 = some e ∧
      ¬ (performAll { id := .text "flow-1" } twins).Parted e
        ((performAll { id := .text "flow-1" } twins).removeEdge (.text "x")).1 := by
  have hsound : (performAll { id := .text "flow-1" } twins).Sound := sound_performAll rfl rfl (by decide)
  have hfound : (performAll { id := .text "flow-1" } twins).edge? (.text "x") = some (namesake "block-1" "block-2") := by
    rw [edge?, edges_twins]
    rfl
  refine ⟨namesake "block-1" "block-2", by rw [removeEdge_snd, hfound], fun hparted => ?_⟩
  have hone := ((hsound.parted_iff hfound).1 hparted).1
  rw [edges_twins] at hone
  exact absurd hone (by decide)

end Flow

end BlockFlow
