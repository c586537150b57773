import BlockFlow.Proofs.Coverage
import BlockFlow.Proofs.Sound
import Mathlib.Data.Fintype.Card
import Mathlib.Data.Set.Finite.Basic

/-!
What a script holds before its first mark. A script begins with what can be reached along the edges from the blocks that
no edge points at, or from the first block if there is none; a comment marks every further piece.

* `Flow.Reached`: an identifier can be reached along the edges of a flow.
* `Script.Node.isMark`, `Script.Program.beforeMark`, `Script.Program.marked`: the comments before disconnected blocks, and
  the blocks whose code comes before them.
* `Flow.reached_of_acyclic`: without circles and loose ends, every block can be reached.
* `Work.build_reached`: **the code before the first mark is that of the blocks that can be reached**, and there is a mark
  exactly if some block cannot.
-/

namespace BlockFlow

open Relation Script

/-! ## Links and starts of a plan -/

namespace Script.Plan

variable {p : Plan}

theorem find?_key {k : Key} {t : p.Place} (h : p.find? k = some t) : t.1.key = k := by
  unfold find? at h
  split at h
  · cases h
  · next s hs =>
    obtain rfl := Option.some.inj h
    simpa using List.find?_some hs

theorem exists_find? {s : Site} (hs : s ∈ p.sites) : ∃ t, p.find? s.key = some t := by
  unfold find?
  split
  · next hnone =>
    have := List.find?_eq_none.1 hnone s (List.mem_reverse.2 hs)
    simp at this
  · exact ⟨_, rfl⟩

theorem leads_iff {a b : Key} : p.Leads a b ↔ (a, b) ∈ p.links ∧ ∃ s ∈ p.sites, s.key = b := by
  unfold Leads targets
  constructor
  · rintro ⟨t, ht, rfl⟩
    obtain ⟨l, hfiltered, hfind⟩ := List.mem_filterMap.1 ht
    obtain ⟨hl, hsource⟩ := List.mem_filter.1 hfiltered
    obtain rfl : l.1 = a := by simpa using hsource
    rw [find?_key hfind]
    exact ⟨hl, t.1, t.2, find?_key hfind⟩
  · rintro ⟨hl, s, hs, rfl⟩
    obtain ⟨t, ht⟩ := exists_find? hs
    exact ⟨t, List.mem_filterMap.2 ⟨_, List.mem_filter.2 ⟨hl, by simp⟩, ht⟩, find?_key ht⟩

theorem mem_entries {s : p.Place} : s ∈ p.entries ↔ ∀ l ∈ p.links, l.2 ≠ s.1.key := by
  simp [entries]

theorem mem_attach_take_one {α : Type} {xs : List α} {x : { x // x ∈ xs }} :
    x ∈ xs.attach.take 1 ↔ xs.head? = some x.1 := by
  cases xs with
  | nil => exact absurd x.2 (by simp)
  | cons y ys => simp [List.attach_cons, Subtype.ext_iff, eq_comm]

theorem mem_starts {s : p.Place} : s ∈ p.starts ↔ s ∈ p.entries ∨ p.entries = [] ∧ p.sites.head? = some s.1 := by
  unfold starts
  split
  · next h =>
    rw [List.isEmpty_iff] at h
    simp [h, mem_attach_take_one]
  · next h =>
    rw [List.isEmpty_iff] at h
    simp [h]

end Script.Plan

/-! ## Reaching blocks along edges -/

namespace Flow

variable {f : Flow}

/-- An edge leads from one block of the flow to another. -/
def Leads (f : Flow) (a b : Value) : Prop := f.Points a b ∧ a ∈ f.ids ∧ b ∈ f.ids

/-- No edge points at the identifier. -/
def Free (f : Flow) (v : Value) : Prop := ∀ e ∈ f.edges, e.target ≠ v

/-- A script starts at the block: no edge points at it, or every block is pointed at and it is the first. -/
def IsStart (f : Flow) (v : Value) : Prop :=
  v ∈ f.ids ∧ f.Free v ∨ (∀ u ∈ f.ids, ¬ f.Free u) ∧ f.ids.head? = some v

/-- The block can be reached from where a script starts, along edges between blocks of the flow. -/
def Reached (f : Flow) (v : Value) : Prop := ∃ s, f.IsStart s ∧ ReflTransGen f.Leads s v

theorem IsStart.mem_ids {v : Value} (h : f.IsStart v) : v ∈ f.ids :=
  h.elim And.left fun h => List.mem_of_head? h.2

theorem Reached.mem_ids {v : Value} (h : f.Reached v) : v ∈ f.ids := by
  obtain ⟨s, hs, hpath⟩ := h
  cases hpath with
  | refl => exact hs.mem_ids
  | tail _ hstep => exact hstep.2.2

/-! ## The plan of a flow tells what can be reached -/

theorem plan_ids (f : Flow) : f.ids = f.plan.sites.map (·.block.id) := by
  simp [ids, plan]

theorem mem_entries_plan (hids : ∀ v ∈ f.ids, v.IsText) (hends : f.KeyedEnds) {s : f.plan.Place} :
    s ∈ f.plan.entries ↔ f.Free s.1.block.id := by
  have hs := plan_named hids s.1 s.2
  rw [Plan.mem_entries]
  simp only [plan, List.forall_mem_map, ← hs.2]
  exact forall₂_congr fun e he => not_congr ((hends e he).2.theKey_inj hs.1)

theorem entries_plan_eq_nil (hids : ∀ v ∈ f.ids, v.IsText) (hends : f.KeyedEnds) :
    f.plan.entries = [] ↔ ∀ u ∈ f.ids, ¬ f.Free u := by
  rw [List.eq_nil_iff_forall_not_mem, plan_ids]
  simp only [mem_entries_plan hids hends, List.forall_mem_map]
  exact Subtype.forall

theorem exists_start (hids : ∀ v ∈ f.ids, v.IsText) (hends : f.KeyedEnds) {v : Value} :
    (∃ s ∈ f.plan.starts, s.1.block.id = v) ↔ f.IsStart v := by
  simp only [Plan.mem_starts, mem_entries_plan hids hends, entries_plan_eq_nil hids hends]
  constructor
  · rintro ⟨s, hfree | ⟨hall, hhead⟩, rfl⟩
    · exact Or.inl ⟨exists_site.1 ⟨s.1, s.2, rfl⟩, hfree⟩
    · rw [IsStart, plan_ids, List.head?_map, hhead]
      exact Or.inr ⟨plan_ids f ▸ hall, rfl⟩
  · rintro (⟨hv, hfree⟩ | ⟨hall, hhead⟩)
    · obtain ⟨s, hs, rfl⟩ := exists_site.2 hv
      exact ⟨⟨s, hs⟩, Or.inl hfree, rfl⟩
    · rw [plan_ids, List.head?_map, Option.map_eq_some_iff] at hhead
      obtain ⟨s, hs, rfl⟩ := hhead
      exact ⟨⟨s, List.mem_of_head? hs⟩, Or.inr ⟨hall, hs⟩, rfl⟩

theorem plan_leads (hids : ∀ v ∈ f.ids, v.IsText) (hends : f.KeyedEnds) {u : Value} (hu : u ∈ f.ids) {k : Key} :
    f.plan.Leads u.theKey k ↔ ∃ v, f.Leads u v ∧ v.theKey = k := by
  rw [Plan.leads_iff]
  constructor
  · rintro ⟨hl, s, hs, rfl⟩
    obtain ⟨e, he, heq⟩ := List.mem_map.1 hl
    obtain ⟨hsource, htarget⟩ := Prod.mk.inj heq
    have hname := plan_named hids s hs
    rw [(hends e he).1.theKey_inj (hids u hu)] at hsource
    rw [← hname.2, (hends e he).2.theKey_inj hname.1] at htarget
    exact ⟨s.block.id, ⟨⟨e, he, hsource, htarget⟩, hu, exists_site.1 ⟨s, hs, rfl⟩⟩, hname.2⟩
  · rintro ⟨v, ⟨⟨e, he, rfl, rfl⟩, -, hv⟩, rfl⟩
    obtain ⟨s, hs, hid⟩ := exists_site.2 hv
    exact ⟨List.mem_map.2 ⟨e, he, rfl⟩, s, hs, by rw [← (plan_named hids s hs).2, hid]⟩

/-- The plan reaches the keys of what the flow reaches. -/
theorem plan_reached (hids : ∀ v ∈ f.ids, v.IsText) (hends : f.KeyedEnds) {v : Value} (hv : v ∈ f.ids) :
    f.plan.Reached v.theKey ↔ f.Reached v := by
  constructor
  · rintro ⟨s, hs, hpath⟩
    have hstart := (exists_start hids hends).1 ⟨s, hs, rfl⟩
    -- keys are read back as the identifiers on the way, which are those of blocks from the start on
    have hback : ∀ k, ReflTransGen f.plan.Leads s.1.key k →
        ∃ u, u.theKey = k ∧ u ∈ f.ids ∧ ReflTransGen f.Leads s.1.block.id u := by
      intro k hk
      induction hk with
      | refl => exact ⟨_, (plan_named hids s.1 s.2).2, hstart.mem_ids, .refl⟩
      | tail _ hstep ih =>
        obtain ⟨u, rfl, hu, hway⟩ := ih
        obtain ⟨w, hw, rfl⟩ := (plan_leads hids hends hu).1 hstep
        exact ⟨w, rfl, hw.2.2, hway.tail hw⟩
    obtain ⟨u, hkey, hu, hway⟩ := hback _ hpath
    obtain rfl := ((hids u hu).hasKey.theKey_inj (hids v hv)).1 hkey
    exact ⟨_, hstart, hway⟩
  · rintro ⟨u, hu, hpath⟩
    obtain ⟨s, hs, rfl⟩ := (exists_start hids hends).2 hu
    refine ⟨s, hs, ?_⟩
    rw [← (plan_named hids s.1 s.2).2]
    exact hpath.lift Value.theKey fun a b hab => (plan_leads hids hends hab.2.1).2 ⟨b, hab, rfl⟩

/-! ## Flows without circles -/

/-- Among finitely many points, steps without circles come to an end. -/
theorem wellFounded_of_not_circle {α : Type} [Finite α] {r : α → α → Prop} (h : ∀ a, ¬ TransGen r a a) : WellFounded r := by
  have hirrefl : Std.Irrefl (TransGen r) := ⟨h⟩
  have hwf := Finite.wellFounded_of_trans_of_irrefl (TransGen r)
  refine Subrelation.wf ?_ hwf
  exact fun hab => TransGen.single hab

/-- Going against the edges of a flow without circles comes to an end. -/
theorem Acyclic.wellFounded (h : f.Acyclic) :
    WellFounded fun a b : { v // v ∈ f.ids } => f.Points a.1 b.1 := by
  have hfinite : Finite { v // v ∈ f.ids } := f.ids.finite_toSet
  exact wellFounded_of_not_circle fun a ha => h a.1 (ha.lift Subtype.val fun _ _ hab => hab)

/-- **Without circles and loose ends, every block can be reached**: it is free, or one that points at it can be. -/
theorem reached_of_acyclic (hacyclic : f.Acyclic) (hends : ∀ e ∈ f.edges, e.source ∈ f.ids ∧ e.target ∈ f.ids)
    {v : Value} (hv : v ∈ f.ids) : f.Reached v := by
  suffices h : ∀ u : { v // v ∈ f.ids }, f.Reached u.1 from h ⟨v, hv⟩
  intro u
  induction u using hacyclic.wellFounded.induction with
  | _ u ih =>
    by_cases hfree : f.Free u.1
    · exact ⟨u.1, Or.inl ⟨u.2, hfree⟩, .refl⟩
    · obtain ⟨e, he, htarget⟩ : ∃ e ∈ f.edges, e.target = u.1 := by simpa [Free] using hfree
      have hpoints : f.Points e.source u.1 := ⟨e, he, rfl, htarget⟩
      obtain ⟨s, hs, hpath⟩ := ih ⟨e.source, (hends e he).1⟩ hpoints
      exact ⟨s, hs, hpath.tail ⟨hpoints, (hends e he).1, u.2⟩⟩

end Flow

/-! ## Marks -/

namespace Script

/-- The node is a comment before a disconnected block. -/
def Node.isMark : Node → Bool
  | .comment text _ => "Disconnected block".toList.isPrefixOf text.toList
  | _ => false

/-- The identifiers of the blocks whose code comes before the first mark. -/
def Program.beforeMark (p : Program) : List Value :=
  ((Node.walkAll 0 p.body).takeWhile fun (node, _) => !node.isMark).filterMap fun (node, _) => node.blockId?

/-- The program has a mark. -/
def Program.marked (p : Program) : Bool := (Node.walkAll 0 p.body).any fun (node, _) => node.isMark

theorem Program.beforeMark_eq (p : Program) :
    p.beforeMark = ((Node.flatAll p.body).takeWhile fun node => !node.isMark).filterMap Node.blockId? := by
  rw [← Node.map_walkAll 0, List.takeWhile_map, List.filterMap_map]
  rfl

theorem Program.marked_eq (p : Program) : p.marked = (Node.flatAll p.body).any Node.isMark := by
  rw [← Node.map_walkAll 0, List.any_map]
  rfl

namespace Plan

variable {p : Plan}

theorem isMark_disconnected (text : String) (origin : Value) :
    (Node.comment ("Disconnected block: " ++ text) origin).isMark = true := by
  rw [Node.isMark, String.toList_append]
  rfl

/-- No comment about an unknown type is a mark. -/
theorem isMark_statementNode (b : Block) : (statementNode b).isMark = false := by
  unfold statementNode
  split
  · rfl
  · rw [Node.isMark, String.toList_append]
    rfl

theorem flat_statementNode (b : Block) : (statementNode b).flat = [statementNode b] := by
  unfold statementNode
  split <;> rfl

/-- No run of emission writes a mark. -/
theorem emit_unmarked (visited emitted : List Key) (pending : List p.Place) :
    ∀ node ∈ Node.flatAll (p.emit visited emitted pending).nodes, node.isMark = false := by
  refine (emission_induction (fun _ _ _ r => ∀ node ∈ Node.flatAll r.nodes, node.isMark = false)
    (fun _ _ _ r => ∀ node ∈ Node.flatAll r.1, node.isMark = false) ?_ ?_ ?_ ?_ ?_ ?_).1 visited emitted pending
  · exact fun _ _ => by simp
  · exact fun _ h => h
  · intro visited emitted s pending body seen r _ _ hbody hrest
    refine List.forall_mem_append.2 ⟨List.forall_mem_cons.2 ⟨rfl, hbody⟩, hrest⟩
  · intro visited emitted s pending r _ _ hrest
    rw [Node.flatAll_cons, flat_statementNode]
    exact List.forall_mem_cons.2 ⟨isMark_statementNode _, hrest⟩
  · exact fun _ _ => by simp
  · intro visited emitted c rest first body seen hfirst hrest
    rw [Node.flatAll_append]
    exact List.forall_mem_append.2 ⟨hfirst, hrest⟩

theorem emitRest_eq_nil {emitted : List Key} {places : List p.Place} (h : ∀ s ∈ places, s.1.key ∈ emitted) :
    (p.emitRest emitted places).1 = [] := by
  induction places with
  | nil => rfl
  | cons s rest ih =>
    rw [emitRest, if_pos (h s List.mem_cons_self)]
    exact ih fun t ht => h t (List.mem_cons_of_mem _ ht)

theorem emitRest_eq_cons {emitted : List Key} {places : List p.Place} (h : ∃ s ∈ places, s.1.key ∉ emitted) :
    ∃ text rest, (p.emitRest emitted places).1 =
      .blank .null :: .comment ("Disconnected block: " ++ text) .null :: rest := by
  induction places with
  | nil => simp at h
  | cons s rest ih =>
    by_cases hs : s.1.key ∈ emitted
    · rw [emitRest, if_pos hs]
      exact ih (by simpa [hs] using h)
    · rw [emitRest, if_neg hs]
      exact ⟨_, _, rfl⟩

/-- Nothing is left, or a mark comes first in what is left, after a blank line. -/
theorem fragments_cases (p : Plan) :
    (∀ s ∈ p.sites, p.Reached s.key) ∧ p.body.fragments = [] ∨
      (∃ s ∈ p.sites, ¬ p.Reached s.key) ∧ ∃ text rest, p.body.fragments =
        .blank .null :: .comment ("Disconnected block: " ++ text) .null :: rest := by
  by_cases hall : ∀ s ∈ p.sites, p.Reached s.key
  · exact Or.inl ⟨hall, emitRest_eq_nil fun s _ => mem_emit_starts.2 (hall s.1 s.2)⟩
  · push Not at hall
    obtain ⟨s, hs, hreached⟩ := hall
    refine Or.inr ⟨⟨s, hs, hreached⟩, emitRest_eq_cons ⟨⟨s, hs⟩, List.mem_attach _ _, ?_⟩⟩
    rwa [mem_emit_starts]

theorem beforeMark_assemble (f : Flow) (p : Plan) (stamp : String) :
    (assemble f p.body stamp).beforeMark = Node.idsOf p.body.reached := by
  have hreached : ∀ node ∈ Node.flatAll p.body.reached, (!node.isMark) = true := fun node hnode => by
    rw [emit_unmarked [] [] p.starts node hnode]
    rfl
  rw [Program.beforeMark_eq, assemble, Node.flatAll_append, List.takeWhile_append_of_pos hreached]
  rcases p.fragments_cases with ⟨-, hnil⟩ | ⟨-, text, rest, hcons⟩
  · simp [hnil, Node.idsOf]
  · have hblank : (Node.blank .null).isMark = false := rfl
    simp [hcons, Node.flat, hblank, isMark_disconnected, Node.idsOf, Node.blockId?, Node.isBlank]

theorem marked_assemble (f : Flow) (p : Plan) (stamp : String) :
    (assemble f p.body stamp).marked = true ↔ ∃ s ∈ p.sites, ¬ p.Reached s.key := by
  have hreached : (Node.flatAll p.body.reached).any Node.isMark = false :=
    List.any_eq_false.2 fun node hnode => by simp [emit_unmarked [] [] p.starts node hnode]
  rw [Program.marked_eq, assemble, Node.flatAll_append, List.any_append, hreached, Bool.false_or]
  rcases p.fragments_cases with ⟨hall, hnil⟩ | ⟨hmissing, text, rest, hcons⟩
  · simpa [hnil] using hall
  · simpa [hcons, Node.flat, isMark_disconnected] using hmissing

end Plan

end Script

/-! ## Scripts of flows -/

namespace Flow

variable {f : Flow}

/-- The first part of the script of a flow holds what can be reached. -/
theorem mem_idsOf_reached (hids : ∀ v ∈ f.ids, v.IsText) (hends : f.KeyedEnds) {v : Value} :
    v ∈ Node.idsOf f.plan.body.reached ↔ f.Reached v := by
  have hnamed := plan_named hids
  have hwrote := Plan.emit_wrote hnamed [] [] f.plan.starts
  constructor
  · intro hv
    obtain ⟨s, hs, rfl⟩ := hwrote.own v hv
    have hkey := Plan.mem_emit_starts.1 ((hwrote.mem_idsOf hnamed hs).1 hv)
    rw [← (hnamed s hs).2] at hkey
    exact (plan_reached hids hends (exists_site.1 ⟨s, hs, rfl⟩)).1 hkey
  · intro hreached
    obtain ⟨s, hs, rfl⟩ := exists_site.2 hreached.mem_ids
    have hkey := (plan_reached hids hends hreached.mem_ids).2 hreached
    rw [(hnamed s hs).2] at hkey
    exact (hwrote.mem_idsOf hnamed hs).2 (Plan.mem_emit_starts.2 hkey)

theorem exists_unreached (hids : ∀ v ∈ f.ids, v.IsText) (hends : f.KeyedEnds) :
    (∃ s ∈ f.plan.sites, ¬ f.plan.Reached s.key) ↔ ∃ v ∈ f.ids, ¬ f.Reached v := by
  constructor
  · rintro ⟨s, hs, hnot⟩
    have hv := exists_site.1 ⟨s, hs, rfl⟩
    rw [← (plan_named hids s hs).2, plan_reached hids hends hv] at hnot
    exact ⟨_, hv, hnot⟩
  · rintro ⟨v, hv, hnot⟩
    obtain ⟨s, hs, rfl⟩ := exists_site.2 hv
    rw [← plan_reached hids hends hv, (plan_named hids s hs).2] at hnot
    exact ⟨s, hs, hnot⟩

end Flow

namespace Work

variable {f : Flow} {w : Workspace} {given : Option Moment} {stamp : String}

/-- **What a script holds before its first mark.** It is the code of the blocks that can be reached from where the script
starts. There is a mark exactly if some block cannot be reached, and so none in the script of a flow without circles and
loose ends, as are all that edits make. -/
theorem build_reached (hids : ∀ v ∈ f.ids, v.IsText) (hends : f.KeyedEnds)
    (hstamp : w.scriptStamp given = .ok stamp) :
    ∃ program w', Work.build f given w = (.ok program, w') ∧
      (∀ v, v ∈ program.beforeMark ↔ f.Reached v) ∧
      (program.marked = true ↔ ∃ v ∈ f.ids, ¬ f.Reached v) ∧
      (f.Acyclic → (∀ e ∈ f.edges, e.source ∈ f.ids ∧ e.target ∈ f.ids) → program.marked = false) ∧
      (∀ id edits, (marks edits).Nodup → f = Flow.performAll { id } edits → program.marked = false) := by
  have hplan := Flow.ofFlow_eq_plan (fun v hv => (hids v hv).hasKey) hends
  obtain ⟨w', hbuild⟩ := build_eq_ok hplan hstamp
  have hmarked : (assemble f f.plan.body stamp).marked = true ↔ ∃ v ∈ f.ids, ¬ f.Reached v :=
    (Plan.marked_assemble f f.plan stamp).trans (Flow.exists_unreached hids hends)
  have hacyclic (h : f.Acyclic) (hloose : ∀ e ∈ f.edges, e.source ∈ f.ids ∧ e.target ∈ f.ids) :
      (assemble f f.plan.body stamp).marked = false := by
    rw [Bool.eq_false_iff, Ne, hmarked]
    rintro ⟨v, hv, hnot⟩
    exact hnot (Flow.reached_of_acyclic h hloose hv)
  refine ⟨_, w', hbuild, fun v => ?_, hmarked, hacyclic, ?_⟩
  · rw [Plan.beforeMark_assemble]
    exact Flow.mem_idsOf_reached hids hends
  · rintro id edits hfresh rfl
    have hsound : (Flow.performAll { id } edits).Sound := Flow.sound_performAll rfl rfl hfresh
    exact hacyclic hsound.acyclic hsound.ends

/-- A block that points at another and at one that is not there, and two that only point at each other. -/
def islands : Flow :=
  { id := .text "flow-1"
    blocks := [("a", "variable"), ("b", "return"), ("c", "while-loop"), ("d", "return")].map fun (id, type) =>
      .fresh (.text id) (.text type) .null
    edges := [("a", "b"), ("a", "e"), ("c", "d"), ("d", "c")].map fun (source, target) =>
      { id := .null, source := .text source, target := .text target } }

theorem build_reached_islands :
    (∀ v ∈ islands.ids, v.IsText) ∧ islands.KeyedEnds ∧
      Workspace.scriptStamp { flow := islands } none = .ok "1970-01-01T00:00:00.000Z" ∧
      ∃ program w', Work.build islands none { flow := islands } = (.ok program, w') ∧
        (∀ v, v ∈ program.beforeMark ↔ islands.Reached v) ∧
        (program.marked = true ↔ ∃ v ∈ islands.ids, ¬ islands.Reached v) := by
  have hids : ∀ v ∈ islands.ids, v.IsText := by simp [islands, Flow.ids, Block.fresh, Value.IsText]
  have hends : islands.KeyedEnds := by simp [islands, Flow.KeyedEnds, Value.HasKey]
  have hstamp : Workspace.scriptStamp { flow := islands } none = .ok "1970-01-01T00:00:00.000Z" := by rfl
  obtain ⟨program, w', hbuild, hbefore, hmarked, -⟩ := build_reached hids hends hstamp
  exact ⟨hids, hends, hstamp, program, w', hbuild, hbefore, hmarked⟩

end Work

end BlockFlow
