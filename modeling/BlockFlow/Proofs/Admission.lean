import BlockFlow.Proofs.Sound
import Mathlib.Data.Nat.Find

/-!
When an edge is let in. The search for circles looks at the flow with the new edge in it. Where there was no circle before,
a circle has to take the new edge, so that the search decides whether its target leads back to its source.

* `Flow.circles_pushEdge`: **a new edge closes a circle just when its target leads to its source.**
* `Flow.StandsAt`: the place of the first block of an identifier; `Flow.Joined`: a flow with one edge more.
* `Flow.Verdict`: what can come of an edge, each refusal before the next; `Canvas.addEdge_outcome`: what comes of every edge.
-/

namespace BlockFlow

open Relation

namespace Flow

variable {f g : Flow} {e : Edge} {id : Value}

/-! ## Circles through a new edge -/

/-- A way to the source of a new edge need not take that edge: it can end where it first comes to the source. -/
theorem reach_source {a : Value} (h : ReflTransGen (f.pushEdge e).Points a e.source) :
    ReflTransGen f.Points a e.source := by
  induction h using ReflTransGen.head_induction_on with
  | refl => exact .refl
  | head hab _ ih =>
    rcases points_pushEdge.1 hab with hold | ⟨rfl, -⟩
    · exact ih.head hold
    · exact .refl

/-- **A new edge closes a circle** in a flow without circles just when it leads from a block to itself, or its target
leads to its source. -/
theorem circles_pushEdge (h : f.Acyclic) :
    Circles (f.pushEdge e).Points e.source ↔ e.source = e.target ∨ TransGen f.Points e.target e.source := by
  rw [← reflTransGen_iff_eq_or_transGen]
  constructor
  · rintro ⟨c, -, hc⟩
    -- the circle passes the source, and the step after that is the new edge
    have hloop : TransGen (f.pushEdge e).Points e.source e.source := by
      rcases transGen_pushEdge hc with hold | ⟨hto, hfrom⟩
      · exact absurd hold (h c)
      · exact hfrom.trans_left hto
    obtain ⟨b, hb, hback⟩ := TransGen.head'_iff.1 hloop
    rcases points_pushEdge.1 hb with hold | ⟨-, rfl⟩
    · exact absurd (TransGen.head' hold (reach_source hback)) (h e.source)
    · exact reach_source hback
  · intro hback
    have hnew : (f.pushEdge e).Points e.source e.target := points_pushEdge.2 (Or.inr ⟨rfl, rfl⟩)
    have hold : ReflTransGen (f.pushEdge e).Points e.target e.source :=
      ReflTransGen.mono (fun _ _ hab => points_pushEdge.2 (Or.inl hab)) _ _ hback
    exact ⟨e.source, .refl, TransGen.head' hnew hold⟩

/-! ## The block that an identifier leads to -/

/-- The first block of an identifier stands at a place. -/
def StandsAt (f : Flow) (id : Value) (place : Nat) : Prop :=
  f.ids[place]? = some id ∧ ∀ earlier < place, f.ids[earlier]? ≠ some id

theorem StandsAt.congr {place : Nat} (h : f.StandsAt id place) (hids : g.ids = f.ids) : g.StandsAt id place := by
  unfold StandsAt
  rw [hids]
  exact h

theorem exists_standsAt (h : id ∈ f.ids) : ∃ place, f.StandsAt id place := by
  classical
  have hsome : ∃ place, f.ids[place]? = some id := List.mem_iff_getElem?.1 h
  exact ⟨Nat.find hsome, Nat.find_spec hsome, fun _ hlt => Nat.find_min hsome hlt⟩

/-- Changing the first element that passes a test is changing it at its place. -/
theorem modifyFirst_eq_modify {α : Type} {test : α → Bool} {change : α → α} {xs : List α} {place : Nat} {x : α}
    (hx : xs[place]? = some x) (htest : test x = true)
    (hearlier : ∀ earlier < place, ∀ y, xs[earlier]? = some y → test y = false) :
    modifyFirst test change xs = xs.modify place change := by
  induction xs generalizing place with
  | nil => simp at hx
  | cons y ys ih =>
    cases place with
    | zero =>
      obtain rfl : y = x := by simpa using hx
      rw [modifyFirst, if_pos htest, List.modify_zero_cons]
    | succ place =>
      have hy : test y = false := hearlier 0 (Nat.succ_pos place) y rfl
      have hrest : modifyFirst test change ys = ys.modify place change :=
        ih hx fun earlier hlt z hz => hearlier (earlier + 1) (Nat.succ_lt_succ hlt) z hz
      rw [modifyFirst, if_neg (by simp [hy]), List.modify_succ_cons, hrest]

/-- Changing a block is changing the first one of its identifier. -/
theorem StandsAt.updateBlock {place : Nat} (h : f.StandsAt id place) (ht : ∀ v ∈ f.ids, v.IsText) (change : Block → Block) :
    f.updateBlock id change = { f with blocks := f.blocks.modify place change } := by
  obtain ⟨hplace, hearlier⟩ := h
  rw [ids, List.getElem?_map, Option.map_eq_some_iff] at hplace
  obtain ⟨b, hb, rfl⟩ := hplace
  have htext : ∀ c ∈ f.blocks, c.id.IsText := fun c hc => ht c.id (List.mem_map_of_mem hc)
  unfold Flow.updateBlock
  rw [modifyFirst_eq_modify hb ((htext b (List.mem_of_getElem? hb)).equal_iff.2 rfl)]
  intro earlier hlt c hc
  rw [Bool.eq_false_iff]
  intro heq
  refine hearlier earlier hlt ?_
  rw [(htext c (List.mem_of_getElem? hc)).equal_iff] at heq
  rw [ids, List.getElem?_map, hc, heq]
  rfl

/-- The flow has become another one by an edge: it is the last of the edges, the first block of its source has its target as
one output more, the first block of its target has its source as one input more, and all else is as it was. -/
def Joined (f : Flow) (e : Edge) (g : Flow) : Prop :=
  ∃ source target, f.StandsAt e.source source ∧ f.StandsAt e.target target ∧ source ≠ target ∧
    g = { f with
      edges := f.edges ++ [e]
      blocks := (f.blocks.modify source fun b =>
          { b with cache := { b.cache with outputs := b.cache.outputs ++ [e.target] } }).modify target fun b =>
        { b with cache := { b.cache with inputs := b.cache.inputs ++ [e.source] } } }

theorem joined_link (ht : ∀ v ∈ f.ids, v.IsText) (hs : e.source ∈ f.ids) (he : e.target ∈ f.ids)
    (hne : e.source ≠ e.target) : f.Joined e (f.link e) := by
  obtain ⟨source, hsource⟩ := exists_standsAt hs
  obtain ⟨target, htarget⟩ := exists_standsAt he
  refine ⟨source, target, hsource, htarget, ?_, ?_⟩
  · rintro rfl
    exact hne (Option.some.inj (hsource.1.symm.trans htarget.1))
  · have hkept : ((f.pushEdge e).updateBlock e.source fun b =>
        { b with cache := { b.cache with outputs := b.cache.outputs ++ [e.target] } }).ids = f.ids :=
      ids_updateBlock (by intro _; rfl)
    have hpushed : (f.pushEdge e).StandsAt e.source source := hsource.congr rfl
    have hafter := htarget.congr hkept
    unfold link
    rw [hafter.updateBlock (by rw [hkept]; exact ht), hpushed.updateBlock ht]
    rfl

/-! ## What comes of an edge -/

/-- An edge between texts is found by its pair. -/
theorem between?_isSome (h : f.TextEnds) {s t : Value} : (f.between? s t).isSome ↔ (s, t) ∈ f.pairs := by
  rw [between?, List.find?_isSome, pairs, List.mem_map]
  refine exists_congr fun x => and_congr_right fun hx => ?_
  rw [Bool.and_eq_true, (h x hx).1.equal_iff, (h x hx).2.equal_iff, Prod.mk.injEq, eq_comm, @eq_comm _ t]

/-- What comes of an edge, and the flow after that. An edge is refused for the first of four reasons that holds, and then
the flow stays; if none does, the edge is in. -/
inductive Verdict (f : Flow) (e : Edge) : Except Fault Unit → Flow → Prop
  | noSource (h : e.source ∉ f.ids) : Verdict f e (.error (.complaint (.missingSource e))) f
  | noTarget (hs : e.source ∈ f.ids) (h : e.target ∉ f.ids) : Verdict f e (.error (.complaint (.missingTarget e))) f
  | connected (hs : e.source ∈ f.ids) (ht : e.target ∈ f.ids) (h : (e.source, e.target) ∈ f.pairs) :
    Verdict f e (.error (.complaint (.alreadyConnected e))) f
  | circular (hs : e.source ∈ f.ids) (ht : e.target ∈ f.ids) (hp : (e.source, e.target) ∉ f.pairs)
    (h : e.source = e.target ∨ TransGen f.Points e.target e.source) :
    Verdict f e (.error (.complaint (.wouldCircle e))) f
  | joined {g : Flow} (hs : e.source ∈ f.ids) (ht : e.target ∈ f.ids) (hp : (e.source, e.target) ∉ f.pairs)
    (hne : e.source ≠ e.target) (hback : ¬ TransGen f.Points e.target e.source) (h : f.Joined e g) :
    Verdict f e (.ok ()) g

/-- The edge is in just when no reason to refuse it holds. -/
theorem Verdict.ok_iff {outcome : Except Fault Unit} (h : f.Verdict e outcome g) :
    outcome = .ok () ↔ e.source ∈ f.ids ∧ e.target ∈ f.ids ∧ (e.source, e.target) ∉ f.pairs ∧ e.source ≠ e.target ∧
      ¬ TransGen f.Points e.target e.source := by
  cases h with
  | noSource h => simp [h]
  | noTarget hs h => simp [h]
  | connected hs ht h => simp [h]
  | circular hs ht hp h =>
    refine ⟨fun h => (nomatch h), ?_⟩
    rintro ⟨-, -, -, hne, hback⟩
    exact absurd h (not_or.2 ⟨hne, hback⟩)
  | joined hs ht hp hne hback h => exact ⟨fun _ => ⟨hs, ht, hp, hne, hback⟩, fun _ => rfl⟩

theorem addEdge_verdict (hids : ∀ v ∈ f.ids, v.IsText) (hends : f.TextEnds) (h : f.Acyclic) (e : Edge) :
    f.Verdict e ((f.addEdge e).map fun _ => ()) (f.settle (f.addEdge e)) := by
  have hnone : ∀ {v : Value}, v ∉ f.ids → f.block? v = none := fun hv =>
    Option.not_isSome_iff_eq_none.1 (mt (block?_isSome hids).1 hv)
  by_cases hs : e.source ∈ f.ids
  · obtain ⟨b, hb⟩ := Option.isSome_iff_exists.1 ((block?_isSome hids).2 hs)
    by_cases ht : e.target ∈ f.ids
    · obtain ⟨c, hc⟩ := Option.isSome_iff_exists.1 ((block?_isSome hids).2 ht)
      by_cases hp : (e.source, e.target) ∈ f.pairs
      · have hr : f.addEdge e = .error (.complaint (.alreadyConnected e)) := by
          simp [addEdge, hb, hc, (between?_isSome hends).2 hp]
        rw [hr]
        exact .connected hs ht hp
      · have hfree : f.between? e.source e.target = none :=
          Option.not_isSome_iff_eq_none.1 (mt (between?_isSome hends).1 hp)
        -- with the new edge all ends are still texts, so the search comes to an answer
        have hpush : (f.pushEdge e).TextEnds := by
          intro x hx
          rcases List.mem_append.1 hx with hx | hx
          · exact hends x hx
          · obtain rfl := List.mem_singleton.1 hx
            exact ⟨hids _ hs, hids _ ht⟩
        obtain ⟨found, hfound, hiff⟩ := wouldCycle_spec hpush
        rw [circles_pushEdge h] at hiff
        cases found with
        | true =>
          have hr : f.addEdge e = .error (.complaint (.wouldCircle e)) := by simp [addEdge, hb, hc, hfree, hfound]
          rw [hr]
          exact .circular hs ht hp (hiff.1 rfl)
        | false =>
          have hr : f.addEdge e = .ok (f.link e) := by simp [addEdge, hb, hc, hfree, hfound]
          obtain ⟨hne, hback⟩ := not_or.1 (mt hiff.2 (by simp))
          rw [hr]
          exact .joined hs ht hp hne hback (joined_link hids hs ht hne)
    · have hr : f.addEdge e = .error (.complaint (.missingTarget e)) := by simp [addEdge, hb, hnone ht]
      rw [hr]
      exact .noTarget hs ht
  · have hr : f.addEdge e = .error (.complaint (.missingSource e)) := by simp [addEdge, hnone hs]
    rw [hr]
    exact .noSource hs

/-- In a sound flow, an edge that no reason speaks against is let in. -/
theorem Sound.addEdge_eq_link (h : f.Sound) (hs : e.source ∈ f.ids) (ht : e.target ∈ f.ids)
    (hp : (e.source, e.target) ∉ f.pairs) (hne : e.source ≠ e.target) (hback : ¬ TransGen f.Points e.target e.source) :
    f.addEdge e = .ok (f.link e) := by
  have hok := (addEdge_verdict h.texts h.textEnds h.acyclic e).ok_iff.2 ⟨hs, ht, hp, hne, hback⟩
  cases hg : f.addEdge e with
  | error fault =>
    rw [hg] at hok
    cases hok
  | ok g => rw [(addEdge_eq_ok.1 hg).2]

end Flow

namespace Canvas

theorem addEdge_fst (e : Edge) (w : Workspace) : (addEdge e w).1 = (w.flow.addEdge e).map fun _ => () := by
  unfold addEdge
  cases h : w.flow.addEdge e with
  | ok f => simp [Act.bind_apply, h, Except.map]
  | error fault => cases ht : refusal? e fault <;> simp [Act.bind_apply, h, ht, Except.map]

/-- **What comes of every edge.** In a flow with textual identifiers and without circles, whatever edge is to be added, it
is in just when both ends are there, their pair is not connected, and its target neither is its source nor leads to it.
Else it is refused for a missing source, a missing target, a connected pair or a circle, the first of these that holds, and
the flow stays as it is. Besides, in every flow the search for circles finds one just when one is reached from the source
of the new edge along the edges and the new one. -/
theorem addEdge_outcome {w : Workspace} (hids : ∀ v ∈ w.flow.ids, v.IsText) (hends : w.flow.TextEnds)
    (h : w.flow.Acyclic) (e : Edge) :
    w.flow.Verdict e (addEdge e w).1 (addEdge e w).2.flow ∧
      ((addEdge e w).1 = .ok () ↔
        e.source ∈ w.flow.ids ∧ e.target ∈ w.flow.ids ∧ (e.source, e.target) ∉ w.flow.pairs ∧ e.source ≠ e.target ∧
          ¬ TransGen w.flow.Points e.target e.source) ∧
      ∀ (f : Flow) (e : Edge), (f.pushEdge e).TextEnds →
        ∃ found, f.wouldCycle e = .ok found ∧ (found = true ↔ Circles (f.pushEdge e).Points e.source) := by
  have hverdict : w.flow.Verdict e (addEdge e w).1 (addEdge e w).2.flow := by
    rw [addEdge_fst, (Prod.mk.inj (addEdge_apply e w)).1]
    exact Flow.addEdge_verdict hids hends h e
  exact ⟨hverdict, hverdict.ok_iff, fun f e hpush => Flow.wouldCycle_spec hpush⟩

/-- A chain of three blocks, the first of which is there twice, with an edge that leads to a block that is not there. -/
def yard : Workspace where
  flow :=
    { id := .text "flow-1"
      blocks := ["a", "b", "a", "c"].map fun id => Block.fresh (.text id) (.text "variable") defaultPosition
      edges := [("a", "b"), ("b", "c"), ("c", "z")].map fun (s, t) =>
        { id := .text (s ++ t), source := .text s, target := .text t } }

/-- An edge from one end of the chain to the other. -/
def shortcut : Edge := { id := .text "ab", source := .text "a", target := .text "c" }

theorem addEdge_outcome_yard :
    (∀ v ∈ yard.flow.ids, v.IsText) ∧ yard.flow.TextEnds ∧ yard.flow.Acyclic ∧
      yard.flow.Verdict shortcut (addEdge shortcut yard).1 (addEdge shortcut yard).2.flow := by
  have hids : ∀ v ∈ yard.flow.ids, v.IsText := by simp [yard, Flow.ids, Block.fresh, Value.IsText]
  have hends : yard.flow.TextEnds := by simp [yard, Flow.TextEnds, Value.IsText]
  have hacyclic : yard.flow.Acyclic := by
    refine Flow.acyclic_of_rank
      (fun v => if v.isText "a" then 0 else if v.isText "b" then 1 else if v.isText "c" then 2 else 3) ?_
    simp [yard, Value.isText]
  exact ⟨hids, hends, hacyclic, (addEdge_outcome hids hends hacyclic shortcut).1⟩

end Canvas

end BlockFlow
