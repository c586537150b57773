import BlockFlow.Proofs.Chains

/-!
Emission as a plain recursion. Emission keeps one list of pending blocks, in which the targets of many blocks wait at once;
a recursion has no such list, but goes from a block to each of its targets and comes back with what it has visited. The two
write the same script, since what is pending waits for what is in front of it and sees only what that leaves behind.

* `Plan.Emission.andThen`: one run after another, on what the first has visited and emitted.
* `Plan.emit_append`: **what is pending is a continuation.**
* `Plan.descend`, `Plan.descendInto`, `Plan.descendAlong`: the recursion at a block, over the children of a body, and over
  targets that follow one another.
* `Plan.emission_eq_descent`: emission is that recursion.
-/

namespace BlockFlow.Script.Plan

variable {p : Plan}

/-! ## What is pending -/

@[simp] theorem emit_nil (p : Plan) (visited emitted : List Key) : p.emit visited emitted [] = ⟨[], visited, emitted⟩ := by
  rw [emit]

/-- A run after another one. -/
def Emission.andThen (first : Emission) (next : List Key → List Key → Emission) : Emission :=
  { next first.visited first.emitted with nodes := first.nodes ++ (next first.visited first.emitted).nodes }

/-- **What is pending is a continuation**: the blocks in front are written as if they were alone, and then the others, with
what was visited and emitted by then. -/
theorem emit_append (visited emitted : List Key) (front back : List p.Place) :
    p.emit visited emitted (front ++ back) = (p.emit visited emitted front).andThen fun v e => p.emit v e back := by
  refine emit.induct p
    (fun v e front => p.emit v e (front ++ back) = (p.emit v e front).andThen fun v e => p.emit v e back)
    (fun _ _ _ => True) ?_ ?_ ?_ ?_ (fun _ _ => trivial) (fun _ _ _ _ _ _ _ _ _ => trivial) visited emitted front
  · intro visited emitted
    simp [Emission.andThen]
  · intro visited emitted s pending hs ih
    rw [List.cons_append, emit_pass hs, emit_pass hs, ih]
  · intro visited emitted s pending hs hc body seen hbody _ ih
    obtain rfl := congrArg Prod.snd hbody
    rw [List.cons_append, emit_enclose hs hc, emit_enclose hs hc]
    simp only [ih]
    rfl
  · intro visited emitted s pending hs hc ih
    rw [Bool.not_eq_true] at hc
    rw [List.cons_append, emit_follow hs hc, emit_follow hs hc, ← List.append_assoc]
    simp only [ih]
    rfl

/-! ## The recursion -/

/-- What a recursion leaves that started with some keys as visited. They stay visited. -/
structure Descent (before : List Key) extends Emission where
  keeps : before ⊆ visited

theorem unvisited_le (p : Plan) {visited seen : List Key} (h : visited ⊆ seen) : p.unvisited seen ≤ p.unvisited visited := by
  refine List.countP_mono_left fun s _ hs => ?_
  simp only [List.contains_eq_mem, Bool.not_eq_true', decide_eq_false_iff_not] at hs ⊢
  exact fun hmem => hs (h hmem)

mutual

/-- The recursion at a block. Nothing is written for a block that has been visited. Any other one is marked; one with a body
encloses what the recursion gives for its targets, and one without is followed by that. -/
def descend (p : Plan) (visited emitted : List Key) (s : p.Place) : Descent visited :=
  if _h : s.1.key ∈ visited then ⟨⟨[], visited, emitted⟩, List.Subset.refl visited⟩
  else if isControl s.1.block then
    let (body, seen) := descendInto p (s.1.key :: visited) (s.1.key :: emitted) (p.targets s.1.key)
    ⟨⟨[structureNode s.1.block body], s.1.key :: visited, seen⟩, List.subset_cons_self _ _⟩
  else
    let rest := descendAlong p (s.1.key :: visited) (s.1.key :: emitted) (p.targets s.1.key)
    ⟨{ rest.toEmission with nodes := statementNode s.1.block :: rest.nodes },
      List.Subset.trans (List.subset_cons_self _ _) rest.keeps⟩
termination_by (p.unvisited visited, 0)
decreasing_by
  · left; exact p.unvisited_cons_lt s _h
  · left; exact p.unvisited_cons_lt s _h

/-- The recursion over the children of a body, each with its own copy of what was visited before. -/
def descendInto (p : Plan) (visited emitted : List Key) : List p.Place → List Node × List Key
  | [] => ([], emitted)
  | c :: rest =>
    let first := descend p visited emitted c
    let (nodes, seen) := descendInto p visited first.emitted rest
    (first.nodes ++ nodes, seen)
termination_by children => (p.unvisited visited, children.length + 1)
decreasing_by
  · right; simp
  · right; simp

/-- The recursion over targets that follow one another, each with what was visited by the one before. -/
def descendAlong (p : Plan) (visited emitted : List Key) : List p.Place → Descent visited
  | [] => ⟨⟨[], visited, emitted⟩, List.Subset.refl visited⟩
  | t :: rest =>
    let first := descend p visited emitted t
    let others := descendAlong p first.visited first.emitted rest
    ⟨{ others.toEmission with nodes := first.nodes ++ others.nodes }, List.Subset.trans first.keeps others.keeps⟩
termination_by targets => (p.unvisited visited, targets.length + 1)
decreasing_by
  · right; simp
  · exact Prod.Lex.right' _ (p.unvisited_le first.keeps) (by simp)

end

/-! ## Emission is the recursion -/

/-- **Emission is a plain recursion.** For every plan, whatever its edges are, and whatever has been visited and emitted
before, the run with the list of pending blocks writes the nodes of the recursion and leaves the same keys as visited and as
emitted: for a block, for targets that follow one another, and for the children of a body. -/
theorem emission_eq_descent (p : Plan) :
    (∀ visited emitted s, p.emit visited emitted [s] = (p.descend visited emitted s).toEmission) ∧
      (∀ visited emitted targets, p.emit visited emitted targets =
        (p.descendAlong visited emitted targets).toEmission) ∧
      ∀ visited emitted children, p.emitBody visited emitted children = p.descendInto visited emitted children := by
  refine descend.mutual_induct p (fun v e s => p.emit v e [s] = (p.descend v e s).toEmission)
    (fun v e targets => p.emit v e targets = (p.descendAlong v e targets).toEmission)
    (fun v e children => p.emitBody v e children = p.descendInto v e children) ?_ ?_ ?_ ?_ ?_ ?_ ?_
  · intro visited emitted s hs
    rw [descend, dif_pos hs, emit_pass hs, emit_nil]
  · intro visited emitted s hs hc body seen hbody ih
    rw [descend, dif_neg hs, if_pos hc, emit_enclose hs hc, ih, hbody]
    simp only [emit_nil]
  · intro visited emitted s hs hc ih
    rw [descend, dif_neg hs, if_neg hc, emit_follow hs (by simpa using hc), List.append_nil, ih]
  · intro visited emitted
    rw [descendAlong, emit_nil]
  · intro visited emitted t rest first ihFirst _ ihRest
    -- the other targets wait behind the first, and go on with what it has visited
    rw [← List.singleton_append, emit_append, ihFirst, List.singleton_append, descendAlong, Emission.andThen, ihRest]
  · intro visited emitted
    rw [descendInto, emitBody]
  · intro visited emitted c rest first nodes seen hrest ihFirst ihRest
    rw [descendInto, emitBody, ihFirst, ihRest]

end BlockFlow.Script.Plan
