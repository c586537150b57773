import BlockFlow.Proofs.Lines
import BlockFlow.Proofs.Made
import BlockFlow.Proofs.Numerals

/-!
The comments of a script. A script says the name of its flow at the top, and the type of a block where it has no code for
it or where no chain has reached it. Names and types are written as they are, so a comment is as many lines as they are.

* `Node.MadeFor.comment`, `Plan.forall_body_oneLine`: what the comments of a body say, and when they are one line each.
* `Script.forall_heading_oneLine`: the same of the comments at the top.
* `Work.build_comments`: **comments stay on their lines exactly if the name and the types do.**
-/

namespace BlockFlow

namespace Script

/-! ## What comments say -/

theorem oneLine_of_statement {b : Block} {text : String} (h : statement? b = some text) : OneLine (typeName b) := by
  unfold statement? at h
  split at h
  case h_8 => cases h
  all_goals
    next htype =>
      rw [htype]
      decide

theorem oneLine_of_control {b : Block} (h : Plan.isControl b = true) : OneLine (typeName b) := by
  have hall : ∀ type ∈ Palette.controlTypes, OneLine type := by decide
  exact hall _ (List.contains_iff_mem.1 h)

namespace Node.MadeFor

variable {node : Node} {b : Block}

/-- A comment that is the code of a block names its type. -/
theorem comment {text : String} {origin : Value} (h : (Node.comment text origin).MadeFor b) :
    text = "Unknown block type: " ++ typeName b := by
  unfold MadeFor at h
  split at h
  · obtain ⟨_, h⟩ := h
    cases h
  · unfold Plan.statementNode at h
    split at h
    · cases h
    · exact (Node.comment.inj h).1

/-- A type whose code is no comment is one line, and so is one that fits into its comment. -/
theorem oneLine (h : node.MadeFor b) (hcomment : ∀ text origin, node = .comment text origin → OneLine text) :
    OneLine (typeName b) := by
  cases hc : Plan.isControl b with
  | true => exact oneLine_of_control hc
  | false =>
    rw [MadeFor, hc, if_neg (by simp)] at h
    cases hstatement : statement? b with
    | some text => exact oneLine_of_statement hstatement
    | none =>
      -- only here is the type written, so only here it has to fit
      have hnode : node = .comment ("Unknown block type: " ++ typeName b) b.id := by
        rw [h, Plan.statementNode, hstatement]
      exact (oneLine_append.1 (hcomment _ _ hnode)).2

end Node.MadeFor

/-- The comments of a body are one line each if the types are of which it holds code. -/
theorem Plan.forall_body_oneLine (p : Plan) :
    (∀ text origin, .comment text origin ∈ Node.flatAll (p.body.reached ++ p.body.fragments) → OneLine text) ↔
      ∀ s ∈ p.sites, Node.Holds (p.body.reached ++ p.body.fragments) s.block → OneLine (typeName s.block) := by
  constructor
  · rintro h s - ⟨node, hnode, hmade⟩
    exact hmade.oneLine fun text origin heq => h text origin (heq ▸ hnode)
  · intro h text origin hcomment
    obtain ⟨seen, hmade, -⟩ := body_made p
    obtain ⟨s, hs, hheld, hown | hopening⟩ := hmade.own _ hcomment
    · have hunknown : OneLine "Unknown block type: " := by decide
      rw [hown.comment]
      exact oneLine_append.2 ⟨hunknown, h s hs hheld⟩
    · have hdisconnected : OneLine "Disconnected block: " := by decide
      obtain ⟨rfl, -⟩ : text = "Disconnected block: " ++ typeName s.block ∧ origin = .null := by
        simpa [opening] using hopening
      exact oneLine_append.2 ⟨hdisconnected, h s hs hheld⟩

/-! ## The heading -/

theorem oneLine_of_digits {cs : List Char} (h : Number.Digits cs) : OneLine (String.ofList cs) := by
  intro c hc
  rw [String.toList_ofList] at hc
  by_contra hbreak
  have hdigit := h c hc
  simp only [isLineBreak, List.contains_iff_mem, Bool.not_eq_false, List.mem_cons, List.not_mem_nil, or_false] at hbreak
  rcases hbreak with rfl | rfl | rfl | rfl <;> exact absurd hdigit (by decide)

theorem oneLine_padded (width : Nat) (n : Int) : OneLine (Stamp.padded width n) :=
  oneLine_of_digits ((Number.digits_zeros _).append (Number.digits_toDigits _))

theorem oneLine_generated {m : Moment} {stamp : String} (h : Stamp.generated m = .ok stamp) : OneLine stamp := by
  unfold Stamp.generated at h
  cases hclock : m.universal with
  | error fault => simp [hclock, Except.map] at h
  | ok clock =>
    obtain rfl : Stamp.write 1 clock = stamp := by simpa [hclock, Except.map] using h
    have hmarks : OneLine "-" ∧ OneLine "T" ∧ OneLine ":" ∧ OneLine "." ∧ OneLine "Z" := by decide
    simp only [Stamp.write, oneLine_append, oneLine_padded, hmarks, and_self]

theorem oneLine_scriptStamp {w : Workspace} {given : Option Moment} {stamp : String}
    (h : w.scriptStamp given = .ok stamp) : OneLine stamp := by
  cases given with
  | some m => exact oneLine_generated h
  | none =>
    obtain ⟨clock, -, h⟩ := bind_eq_ok.1 h
    exact oneLine_generated h

theorem oneLine_natText (n : Nat) : OneLine (intText n) := by
  rw [intText, intChars, if_neg (by omega)]
  exact oneLine_of_digits (Number.digits_toDigits _)

/-- The comments at the top are one line each if the name of the flow is. -/
theorem forall_heading_oneLine {f : Flow} {stamp : String} (hstamp : OneLine stamp) :
    (∀ text ∈ heading f stamp, OneLine text) ↔ OneLine f.name.display := by
  have hconstant : OneLine "JavaScript code generated by Block Coding App" ∧ OneLine "Flow: " ∧ OneLine "Generated: " ∧
      OneLine "Blocks: " ∧ OneLine ", Connections: " := by decide
  simp [heading, oneLine_append, hconstant, hstamp, oneLine_natText]

end Script

/-! ## Comments and code -/

namespace Work

open Script

variable {f : Flow} {w : Workspace} {given : Option Moment} {stamp : String}

/-- **Comments stay on their lines exactly if the name of the flow and the types of the blocks do.** A script is made
whatever they are. Its text is its lines, and a comment among them goes over several if it says a name or a type that
does. If the keys of the blocks are different, all blocks have code in the script. -/
theorem build_comments (hids : ∀ v ∈ f.ids, v.HasKey) (hends : f.KeyedEnds) (hstamp : w.scriptStamp given = .ok stamp)
    (indent : Int) :
    ∃ program w', Work.build f given w = (.ok program, w') ∧
      linesIn (program.render indent).toList =
        (program.lines.flatMap fun l => linesIn (l.text indent).toList) ++ [[]] ∧
      ((∀ l ∈ program.lines, l.isComment = true → l.Whole indent) ↔
        OneLine f.name.display ∧ ∀ b ∈ f.blocks, Node.Holds program.body b → OneLine (typeName b)) ∧
      ((f.ids.map Value.theKey).Nodup → ∀ b ∈ f.blocks, Node.Holds program.body b) := by
  obtain ⟨w', hbuild⟩ := build_eq_ok (Flow.ofFlow_eq_plan hids hends) hstamp
  refine ⟨_, w', hbuild, Program.linesIn_render _ _, ?_, fun hkeys b hb => Flow.holds_block hkeys hb⟩
  rw [Program.forall_comment_whole]
  refine and_congr (forall_heading_oneLine (oneLine_scriptStamp hstamp)) ?_
  rw [assemble, Plan.forall_body_oneLine]
  simp [Flow.plan]

/-- The name and the unknown type of this flow are one line each. -/
theorem build_comments_knot :
    (∀ v ∈ knot.ids, v.HasKey) ∧ knot.KeyedEnds ∧
      Workspace.scriptStamp { flow := knot } none = .ok "1970-01-01T00:00:00.000Z" ∧
      ∃ program w', Work.build knot none { flow := knot } = (.ok program, w') ∧
        linesIn (program.render 2).toList = (program.lines.flatMap fun l => linesIn (l.text 2).toList) ++ [[]] ∧
        (∀ l ∈ program.lines, l.isComment = true → l.Whole 2) ∧ ∀ b ∈ knot.blocks, Node.Holds program.body b := by
  have hids : ∀ v ∈ knot.ids, v.HasKey := by simp [knot, Flow.ids, Block.fresh, Value.HasKey]
  have hends : knot.KeyedEnds := by simp [knot, Flow.KeyedEnds, Value.HasKey]
  have hstamp : Workspace.scriptStamp { flow := knot } none = .ok "1970-01-01T00:00:00.000Z" := by rfl
  have hkeys : (knot.ids.map Value.theKey).Nodup := by decide +kernel
  have hname : OneLine knot.name.display := by decide +kernel
  have htypes : ∀ b ∈ knot.blocks, OneLine (typeName b) := by decide +kernel
  obtain ⟨program, w', hbuild, hlines, hwhole, hheld⟩ := build_comments hids hends hstamp 2
  exact ⟨hids, hends, hstamp, program, w', hbuild, hlines, hwhole.2 ⟨hname, fun b hb _ => htypes b hb⟩, hheld hkeys⟩

/-- A flow with line breaks in its name and in the type of its block. -/
def spilt : Flow :=
  { id := .text "flow-1"
    name := .text "x\nprocess.exit(1)"
    blocks := [.fresh (.text "a") (.text "y\nprocess.exit(2)") .null] }

theorem body_spilt : spilt.plan.body =
    ⟨[.comment "Unknown block type: y\nprocess.exit(2)" (.text "a")], [], 0⟩ := by
  have hend : spilt.plan.emit [.text "a"] [.text "a"] [] = ⟨[], [.text "a"], [.text "a"]⟩ := by rw [Plan.emit]
  have hemit : spilt.plan.emit [] [] spilt.plan.sites.attach =
      ⟨[.comment "Unknown block type: y\nprocess.exit(2)" (.text "a")], [.text "a"], [.text "a"]⟩ := by
    refine (Plan.emit_follow (by simp) (by decide +kernel)).trans ?_
    exact congrArg
      (fun r => { r with nodes := Node.comment "Unknown block type: y\nprocess.exit(2)" (.text "a") :: r.nodes }) hend
  have hstarts : spilt.plan.starts = spilt.plan.sites.attach := by rfl
  rw [Plan.body, hstarts, hemit]
  rfl

/-- A name and a type with line breaks leave their comments, and what follows the break is code. -/
theorem build_spilt :
    ∃ program w', Work.build spilt none { flow := spilt } = (.ok program, w') ∧
      (∃ l ∈ program.lines, l.isComment = true ∧ ¬ l.Whole 2) ∧
      "process.exit(1)".toList ∈ linesIn (program.render 2).toList ∧
      "process.exit(2)".toList ∈ linesIn (program.render 2).toList := by
  have hplan : Plan.ofFlow spilt = .ok spilt.plan :=
    Flow.ofFlow_eq_plan (by simp [spilt, Flow.ids, Block.fresh, Value.HasKey]) (by simp [spilt, Flow.KeyedEnds])
  have hstamp : Workspace.scriptStamp { flow := spilt } none = .ok "1970-01-01T00:00:00.000Z" := by rfl
  obtain ⟨w', hbuild⟩ := build_eq_ok hplan hstamp
  rw [body_spilt] at hbuild
  refine ⟨_, w', hbuild, by decide +kernel, ?_⟩
  -- the kernel evaluates the lines, not the joined text
  rw [Program.linesIn_render]
  decide +kernel

end Work

end BlockFlow
