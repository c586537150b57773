import BlockFlow.Flow.Edit
import BlockFlow.Proofs.Search

/-!
Flows without circles. Among textual identifiers the search over the links of a flow tells of the edges themselves, so an
edge that the search lets pass closes no circle.

* `Flow.Points`, `Flow.Acyclic`: an edge leads from one identifier to another; no identifier reaches itself.
* `Flow.wouldCycle_spec`: the search says whether a circle is reached from the source of a new edge.
* `Flow.Acyclic.pushEdge`: an edge that reaches no circle keeps a flow without circles.
-/

namespace BlockFlow

open Relation

/-! ## Edges as a relation -/

/-- One of the edges leads from one identifier to another. -/
def EdgePoints (edges : List Edge) (a b : Value) : Prop := ∃ e ∈ edges, e.source = a ∧ e.target = b

namespace Flow

/-- An edge leads from one identifier to another. -/
def Points (f : Flow) : Value → Value → Prop := EdgePoints f.edges

/-- No identifier reaches itself along edges. -/
def Acyclic (f : Flow) : Prop := ∀ v, ¬ TransGen f.Points v v

theorem Acyclic.mono {f g : Flow} (h : f.Acyclic) (hsub : ∀ e ∈ g.edges, e ∈ f.edges) : g.Acyclic := by
  intro v hv
  refine h v (TransGen.mono ?_ v v hv)
  rintro a b ⟨e, he, hab⟩
  exact ⟨e, hsub e he, hab⟩

theorem not_acyclic_iff {f : Flow} : ¬ f.Acyclic ↔ ∃ e ∈ f.edges, Circles f.Points e.source := by
  constructor
  · intro h
    obtain ⟨v, hv⟩ := not_forall_not.1 h
    obtain ⟨c, b, ⟨e, he, rfl, -⟩, hc⟩ := Circles.exists_step ⟨v, .refl, hv⟩
    exact ⟨e, he, hc⟩
  · rintro ⟨e, -, c, -, hc⟩ h
    exact h c hc

/-- Edges that all lead upwards make no circle. -/
theorem acyclic_of_rank {f : Flow} (rank : Value → Nat) (h : ∀ e ∈ f.edges, rank e.source < rank e.target) :
    f.Acyclic := by
  have hlt : ∀ v w, TransGen f.Points v w → rank v < rank w := by
    intro v w hvw
    induction hvw with
    | single hstep =>
      obtain ⟨e, he, rfl, rfl⟩ := hstep
      exact h e he
    | tail _ hstep ih =>
      obtain ⟨e, he, rfl, rfl⟩ := hstep
      exact Nat.lt_trans ih (h e he)
  exact fun v hv => Nat.lt_irrefl _ (hlt v v hv)

end Flow

/-! ## The links of edges -/

namespace Graph

variable {edges : List Edge}

/-- The links of edges between texts. -/
theorem ofEdges_text (h : ∀ e ∈ edges, e.source.IsText ∧ e.target.IsText) :
    ofEdges edges = .ok (edges.map fun e => ⟨e.source.theKey, e.target⟩) := by
  refine mapM_ok fun e he => ?_
  rw [(h e he).1.hasKey.key_eq]
  rfl

/-- Between texts, the links lead where the edges lead. -/
theorem circles_ofEdges {g : Graph} (h : ∀ e ∈ edges, e.source.IsText ∧ e.target.IsText) (hg : ofEdges edges = .ok g)
    {v : Value} (hv : v.IsText) : Circles g.Points v.theKey ↔ Circles (EdgePoints edges) v := by
  rw [ofEdges_text h] at hg
  obtain rfl := Except.ok.inj hg
  constructor
  · intro hc
    have := hc.lift (s := EdgePoints edges) Key.toValue ?_
    · rwa [hv.toValue_theKey] at this
    · rintro a b ⟨l, hl, rfl, hb⟩
      obtain ⟨e, he, rfl⟩ := List.mem_map.1 hl
      rw [(h e he).2.hasKey.key_eq] at hb
      obtain rfl := Except.ok.inj hb
      exact ⟨e, he, (h e he).1.toValue_theKey.symm, (h e he).2.toValue_theKey.symm⟩
  · refine fun hc => hc.lift Value.theKey ?_
    rintro a b ⟨e, he, rfl, rfl⟩
    exact ⟨_, List.mem_map_of_mem he, rfl, (h e he).2.hasKey.key_eq⟩

end Graph

namespace Flow

variable {f : Flow} {e : Edge}

/-! ## A new edge -/

/-- **The search for circles.** Between texts it comes to an answer, which tells whether a circle is reached from the
source of a new edge. -/
theorem wouldCycle_spec (h : (f.pushEdge e).TextEnds) :
    ∃ found, f.wouldCycle e = .ok found ∧ (found = true ↔ Circles (f.pushEdge e).Points e.source) := by
  have hsource : e.source.IsText := (h e (by simp [pushEdge])).1
  obtain ⟨g, hg⟩ : ∃ g, Graph.ofEdges (f.pushEdge e).edges = .ok g := ⟨_, Graph.ofEdges_text h⟩
  have hkeys : ∀ l ∈ g, ∃ k, l.target.key = .ok k := by
    rw [Graph.ofEdges_text h] at hg
    obtain rfl := Except.ok.inj hg
    intro l hl
    obtain ⟨x, hx, rfl⟩ := List.mem_map.1 hl
    exact (h x hx).2.hasKey
  have hempty : Graph.Settled g (· ∈ KeySet.empty.members) := ⟨by simp, by simp⟩
  obtain ⟨found, after, hs, hfound, -⟩ :=
    Graph.searchFrom_spec (.build g) hkeys hempty (k := e.source.theKey) (by simp)
  refine ⟨found, ?_, hfound.trans (Graph.circles_ofEdges h hg hsource)⟩
  rw [pushEdge] at hg
  rw [wouldCycle, hg]
  simp only [Graph.search, hsource.hasKey.key_eq, hs]

theorem points_pushEdge {a b : Value} :
    (f.pushEdge e).Points a b ↔ f.Points a b ∨ a = e.source ∧ b = e.target := by
  constructor
  · rintro ⟨x, hx, rfl, rfl⟩
    rcases List.mem_append.1 hx with hx | hx
    · exact Or.inl ⟨x, hx, rfl, rfl⟩
    · obtain rfl := List.mem_singleton.1 hx
      exact Or.inr ⟨rfl, rfl⟩
  · rintro (⟨x, hx, hab⟩ | ⟨rfl, rfl⟩)
    · exact ⟨x, List.mem_append_left _ hx, hab⟩
    · exact ⟨e, by simp [pushEdge], rfl, rfl⟩

/-- A way along the edges and a new one takes the new one or not. -/
theorem transGen_pushEdge {a b : Value} (h : TransGen (f.pushEdge e).Points a b) :
    TransGen f.Points a b ∨
      ReflTransGen (f.pushEdge e).Points a e.source ∧ TransGen (f.pushEdge e).Points e.source b := by
  induction h with
  | single hab =>
    rcases points_pushEdge.1 hab with hold | ⟨rfl, -⟩
    · exact Or.inl (.single hold)
    · exact Or.inr ⟨.refl, .single hab⟩
  | tail hab hbc ih =>
    rcases points_pushEdge.1 hbc with hold | ⟨rfl, -⟩
    · rcases ih with ih | ⟨h1, h2⟩
      · exact Or.inl (ih.tail hold)
      · exact Or.inr ⟨h1, h2.tail hbc⟩
    · exact Or.inr ⟨hab.to_reflTransGen, .single hbc⟩

/-- An edge from whose source no circle is reached closes none. -/
theorem Acyclic.pushEdge (hf : f.Acyclic) (h : ¬ Circles (f.pushEdge e).Points e.source) :
    (f.pushEdge e).Acyclic := by
  intro v hv
  rcases transGen_pushEdge hv with hold | ⟨h1, h2⟩
  · exact hf v hold
  · exact h ⟨e.source, .refl, h2.trans_left h1⟩

end Flow

end BlockFlow
