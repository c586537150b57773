import BlockFlow.Proofs.Emission
import BlockFlow.Script.Generate

/-!
Scripts cover their flows. Whatever the edges of a flow are, a script can be made of it, and the blocks whose code it
holds are the blocks of the flow.

* `Flow.plan`: the plan of a flow whose identifiers have keys; `Flow.mem_idsOf_body`: its body has the blocks of the flow.
* `Workspace.scriptStamp`: the stamp of the scripts made in a workspace.
* `Work.build_eq_ok`, `Work.build_fst`: a script is made as soon as the flow has a plan and the time can be written.
* `Work.build_covers`: **a script holds code of all blocks of its flow and of no others.**
-/

namespace BlockFlow

open Script

/-! ## The plan of a flow -/

namespace Flow

variable {f : Flow}

/-- Both ends of every edge have keys. -/
def KeyedEnds (f : Flow) : Prop := ∀ e ∈ f.edges, e.source.HasKey ∧ e.target.HasKey

/-- The plan of a flow whose identifiers have keys. -/
def plan (f : Flow) : Plan :=
  ⟨f.blocks.map fun b => ⟨b.id.theKey, b⟩, f.edges.map fun e => (e.source.theKey, e.target.theKey)⟩

theorem ofFlow_eq_plan (hids : ∀ v ∈ f.ids, v.HasKey) (hends : f.KeyedEnds) : Plan.ofFlow f = .ok f.plan := by
  have hsites : f.blocks.mapM (fun b => b.id.key.map fun k => Site.mk k b) =
      .ok (f.blocks.map fun b => ⟨b.id.theKey, b⟩) := by
    refine mapM_ok fun b hb => ?_
    rw [(hids b.id (List.mem_map_of_mem hb)).key_eq]
    rfl
  have hsources : f.edges.mapM (fun e => e.source.key) = .ok (f.edges.map fun e => e.source.theKey) :=
    mapM_ok fun e he => (hends e he).1.key_eq
  have htargets : f.edges.mapM (fun e => e.target.key) = .ok (f.edges.map fun e => e.target.theKey) :=
    mapM_ok fun e he => (hends e he).2.key_eq
  rw [Plan.ofFlow, hsites, hsources, htargets, plan, ← List.zip_map']
  rfl

theorem plan_named (hids : ∀ v ∈ f.ids, v.IsText) : f.plan.Named := by
  intro s hs
  obtain ⟨b, hb, rfl⟩ := List.mem_map.1 hs
  exact ⟨hids b.id (List.mem_map_of_mem hb), rfl⟩

theorem exists_site {v : Value} : (∃ s ∈ f.plan.sites, s.block.id = v) ↔ v ∈ f.ids := by
  simp [plan, ids]

theorem mem_blocks (s : f.plan.Place) : s.1.block ∈ f.blocks := by
  obtain ⟨b, hb, heq⟩ := List.mem_map.1 s.2
  exact heq ▸ hb

/-- The body of the script of a flow holds code of exactly the blocks of the flow. -/
theorem mem_idsOf_body (hids : ∀ v ∈ f.ids, v.IsText) {v : Value} :
    v ∈ Node.idsOf (f.plan.body.reached ++ f.plan.body.fragments) ↔ v ∈ f.ids := by
  have hnamed := plan_named hids
  obtain ⟨seen, hwrote, hall⟩ := Plan.body_wrote hnamed
  rw [← exists_site]
  constructor
  · exact hwrote.own v
  · rintro ⟨s, hs, rfl⟩
    exact (hwrote.mem_idsOf hnamed hs).2 (hall s hs)

end Flow

/-! ## Making a script -/

/-- The stamp of a script: of the time that was given, or else of the clock. -/
def Workspace.scriptStamp (w : Workspace) : Option Moment → Except Fault String
  | some m => Stamp.generated m
  | none => do Stamp.generated ⟨← Clock.ofInstant? w.now, some 0⟩

namespace Work

variable {f : Flow} {p : Plan} {w : Workspace} {given : Option Moment} {stamp : String}

theorem moment_apply (clock : Clock) (h : Clock.ofInstant? w.now = .ok clock) :
    moment w = (.ok ⟨clock, some 0⟩, w) := by
  simp [moment, Act.bind_apply, Act.map_apply, h]

/-- A script is made as soon as the flow has a plan and the time can be written. -/
theorem build_eq_ok (hp : Plan.ofFlow f = .ok p) (hstamp : w.scriptStamp given = .ok stamp) :
    ∃ w', Work.build f given w = (.ok (assemble f p.body stamp), w') := by
  cases given with
  | some m =>
    have hm : Stamp.generated m = .ok stamp := hstamp
    cases hn : fallbackNote? f p <;> simp [Work.build, Act.bind_apply, Act.map_apply, hp, hn, hm]
  | none =>
    obtain ⟨clock, hclock, hm⟩ := bind_eq_ok.1 hstamp
    cases hn : fallbackNote? f p <;>
      simp [Work.build, Act.bind_apply, Act.map_apply, hp, hn, moment_apply clock, hclock, hm]

/-- The outcome of making a script depends on the clock alone. -/
theorem build_fst (hp : Plan.ofFlow f = .ok p) :
    (Work.build f given w).1 = (w.scriptStamp given).map (assemble f p.body) := by
  cases hs : w.scriptStamp given with
  | ok stamp =>
    obtain ⟨w', hbuild⟩ := build_eq_ok hp hs
    rw [hbuild]
    rfl
  | error fault =>
    cases given with
    | some m =>
      have hm : Stamp.generated m = .error fault := hs
      cases hn : fallbackNote? f p <;> simp [Work.build, Act.bind_apply, Act.map_apply, hp, hn, hm, Except.map]
    | none =>
      cases hclock : Clock.ofInstant? w.now with
      | ok clock =>
        have hm : Stamp.generated ⟨clock, some 0⟩ = .error fault := by
          simpa [Workspace.scriptStamp, hclock, bind, Except.bind] using hs
        cases hn : fallbackNote? f p <;>
          simp [Work.build, Act.bind_apply, Act.map_apply, hp, hn, moment_apply clock, hclock, hm, Except.map]
      | error early =>
        obtain rfl : early = fault := by
          simpa [Workspace.scriptStamp, hclock, bind, Except.bind] using hs
        cases hn : fallbackNote? f p <;>
          simp [Work.build, Act.bind_apply, hp, hn, moment, hclock, Except.map]

/-- **A script covers its flow.** Whatever the blocks, and whatever the edges are between keys, also in circles, twice or
to no block of the flow, a script is made of the flow, and it holds code of exactly the blocks of the flow. -/
theorem build_covers (hids : ∀ v ∈ f.ids, v.IsText) (hends : f.KeyedEnds)
    (hstamp : w.scriptStamp given = .ok stamp) :
    ∃ program w', Work.build f given w = (.ok program, w') ∧ ∀ v, v ∈ program.blockIds ↔ v ∈ f.ids := by
  have hplan := Flow.ofFlow_eq_plan (fun v hv => (hids v hv).hasKey) hends
  have hnamed := Flow.plan_named hids
  obtain ⟨w', hbuild⟩ := build_eq_ok hplan hstamp
  obtain ⟨seen, hwrote, hall⟩ := Plan.body_wrote hnamed
  refine ⟨_, w', hbuild, fun v => ?_⟩
  rw [Program.blockIds_eq, ← Flow.exists_site]
  constructor
  · exact hwrote.own v
  · rintro ⟨s, hs, rfl⟩
    exact (hwrote.mem_idsOf hnamed hs).2 (hall s hs)

/-- Two blocks in a circle, of which one points at itself, twice at the other and at a block that is not there. -/
def knot : Flow :=
  { id := .text "flow-1"
    blocks := [.fresh (.text "a") (.text "if-else") .null, .fresh (.text "b") (.text "no such type") .null]
    edges := ["a", "b", "b", "c"].map (fun t => { id := .null, source := .text "a", target := .text t }) ++
      [{ id := .null, source := .text "b", target := .text "a" }] }

theorem build_covers_knot :
    (∀ v ∈ knot.ids, v.IsText) ∧ knot.KeyedEnds ∧
      Workspace.scriptStamp { flow := knot } none = .ok "1970-01-01T00:00:00.000Z" ∧
      ∃ program w', Work.build knot none { flow := knot } = (.ok program, w') ∧
        ∀ v, v ∈ program.blockIds ↔ v ∈ knot.ids := by
  have hids : ∀ v ∈ knot.ids, v.IsText := by simp [knot, Flow.ids, Block.fresh, Value.IsText]
  have hends : knot.KeyedEnds := by simp [knot, Flow.KeyedEnds, Value.HasKey]
  have hstamp : Workspace.scriptStamp { flow := knot } none = .ok "1970-01-01T00:00:00.000Z" := by rfl
  exact ⟨hids, hends, hstamp, build_covers hids hends hstamp⟩

end Work

end BlockFlow
