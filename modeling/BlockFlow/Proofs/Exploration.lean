import BlockFlow.Proofs.Validation

/-!
Searches that share what they have visited. A graph is given by rows, in which a key may be missing though others point at
it, and targets may be repeated or be the key itself.

* `Leads`: a row lets a key point at another one; `Graph.points_ofRows_eq`: the links of rows are just these.
* `Explored`: a set of keys that nothing leads out of and from which no circle is reached; `explored_iff`.
* `Graph.search_explores`: **a search beside an explored set** finds a circle if one is reached from its start, and else
  explores just what is reached.
-/

namespace BlockFlow

open Relation

/-- Where a circle is reached, one is reached after a first step. -/
theorem Circles.exists_next {α : Type} {r : α → α → Prop} {a : α} (h : Circles r a) : ∃ b, r a b ∧ Circles r b := by
  obtain ⟨c, hac, hc⟩ := h
  obtain ⟨b, hab, hbc⟩ := TransGen.head'_iff.1 (hc.trans_right hac)
  exact ⟨b, hab, c, hbc, hc⟩

/-- One of the rows lets a key point at another one. -/
def Leads (rows : List Row) (a b : Key) : Prop := ∃ v, RowPoints rows a v ∧ v.key = .ok b

/-- Nothing leads out of the set, and no circle is reached from it. -/
structure Explored (rows : List Row) (visited : KeySet) : Prop where
  closed : ∀ a ∈ visited.members, ∀ b, Leads rows a b → b ∈ visited.members
  free : ∀ a ∈ visited.members, ¬ Circles (Leads rows) a

variable {rows : List Row} {visited : KeySet}

theorem Graph.points_ofRows_eq (rows : List Row) : (ofRows rows).Points = Leads rows := by
  funext a b
  refine propext ⟨?_, ?_⟩
  · rintro ⟨l, hl, rfl, hb⟩
    exact ⟨l.target, mem_ofRows.1 hl, hb⟩
  · rintro ⟨v, hv, hb⟩
    exact ⟨⟨a, v⟩, mem_ofRows.2 hv, rfl, hb⟩

/-- A circle that is reached from a closed set lies in it. -/
theorem explored_iff : Explored rows visited ↔ Graph.Settled (.ofRows rows) (· ∈ visited.members) := by
  constructor
  · intro h
    refine ⟨fun a b ha hab => h.closed a ha b (by rwa [Graph.points_ofRows_eq] at hab), fun a ha hc => h.free a ha ?_⟩
    rw [Graph.points_ofRows_eq] at hc
    exact ⟨a, .refl, hc⟩
  · intro h
    refine ⟨fun a ha b hab => h.closed a b ha (by rwa [Graph.points_ofRows_eq]), fun a ha => ?_⟩
    rw [← Graph.points_ofRows_eq]
    exact h.not_circles ha

/-- **A search beside an explored set.** It comes to an answer, and finds a circle just when one is reached from its start.
If it finds none, it has visited what was visited before and what is reached from the start, and all of this is explored, so
that the next search may start beside it. -/
theorem Graph.search_explores (hkeys : ∀ r ∈ rows, ∀ v ∈ r.targets, v.HasKey) (h : Explored rows visited) (start : Value)
    (hstart : start.HasKey) (hnew : start.theKey ∉ visited.members) :
    ∃ found after, (ofRows rows).search start visited = .ok (found, after) ∧
      (found = true ↔ Circles (Leads rows) start.theKey) ∧
      (found = false → Explored rows after ∧
        ∀ a, a ∈ after.members ↔ a ∈ visited.members ∨ ReflTransGen (Leads rows) start.theKey a) := by
  have hlinks : ∀ l ∈ ofRows rows, ∃ k, l.target.key = .ok k := by
    intro l hl
    obtain ⟨r, hr, -, hv⟩ := mem_ofRows.1 hl
    exact hkeys r hr l.target hv
  obtain ⟨found, after, hsearch, hfound, hafter⟩ := searchFrom_spec (.build _) hlinks (explored_iff.1 h) hnew
  rw [points_ofRows_eq] at hfound hafter
  refine ⟨found, after, ?_, hfound, fun hnone => ?_⟩
  · rw [search, hstart.key_eq]
    exact hsearch
  · exact ⟨explored_iff.2 (hafter hnone).1, (hafter hnone).2⟩

namespace Graph

/-- A key that points at another one twice and at a third one, both without rows, and a key that points at itself. -/
def brook : List Row :=
  [⟨.text "a", .text "a", [.text "c", .text "c", .text "x"]⟩, ⟨.text "s", .text "s", [.text "a", .text "s"]⟩]

theorem leads_brook {a b : Key} : Leads brook a b ↔
    (a = .text "a" ∧ (b = .text "c" ∨ b = .text "x")) ∨ (a = .text "s" ∧ (b = .text "a" ∨ b = .text "s")) := by
  constructor
  · rintro ⟨v, ⟨r, hr, rfl, hv⟩, hb⟩
    obtain rfl | rfl : r = brook[0] ∨ r = brook[1] := by simpa [brook] using hr
    all_goals
      simp only [brook, List.getElem_cons_zero, List.getElem_cons_succ, List.mem_cons, List.not_mem_nil, or_false] at hv
      rcases hv with rfl | rfl | rfl <;> simp_all [brook, Value.key]
  · rintro (⟨rfl, rfl | rfl⟩ | ⟨rfl, rfl | rfl⟩) <;> simp [Leads, RowPoints, brook]

/-- Beside the explored `c`, the search from `a` explores `a` and `x`, and the search from `s` finds the circle. -/
theorem search_explores_brook :
    Explored brook (.ofList [.text "c"]) ∧
      (∃ after, (ofRows brook).search (.text "a") (.ofList [.text "c"]) = .ok (false, after) ∧
        ∀ k, k ∈ after.members ↔ k ∈ [Key.text "c", .text "a", .text "x"]) ∧
      ∃ after, (ofRows brook).search (.text "s") (.ofList [.text "c"]) = .ok (true, after) := by
  have hkeys : ∀ r ∈ brook, ∀ v ∈ r.targets, v.HasKey := by
    simp [brook, Value.HasKey]
  have hmembers (k : Key) : k ∈ (KeySet.ofList [.text "c"]).members ↔ k = .text "c" := by
    simp [KeySet.ofList, KeySet.mem_insert]
  have hlast {k : Key} (hk : k = .text "c" ∨ k = .text "x") (b : Key) : ¬ Leads brook k b := by
    rcases hk with rfl | rfl <;> simp [leads_brook]
  have hfree {k : Key} (hk : k = .text "c" ∨ k = .text "x") : ¬ Circles (Leads brook) k := fun h => by
    obtain ⟨b, hb, -⟩ := h.exists_next
    exact hlast hk b hb
  have hexplored : Explored brook (.ofList [.text "c"]) :=
    ⟨fun a ha b hab => absurd hab (hlast (Or.inl ((hmembers a).1 ha)) b), fun a ha => hfree (Or.inl ((hmembers a).1 ha))⟩
  have hbrook : ¬ Circles (Leads brook) (.text "a") := fun h => by
    obtain ⟨b, hb, hcircles⟩ := h.exists_next
    exact hfree (by simpa [leads_brook] using hb) hcircles
  obtain ⟨found, after, hsearch, hfound, hafter⟩ :=
    search_explores hkeys hexplored (.text "a") ⟨_, rfl⟩ (by simp [hmembers])
  obtain ⟨found', after', hsearch', hfound', -⟩ :=
    search_explores hkeys hexplored (.text "s") ⟨_, rfl⟩ (by simp [hmembers])
  obtain rfl : found = false := by simpa [hbrook] using hfound
  obtain rfl : found' = true := hfound'.2 ⟨.text "s", .refl, .single (by simp [leads_brook])⟩
  refine ⟨hexplored, ⟨after, hsearch, fun k => ?_⟩, after', hsearch'⟩
  rw [(hafter rfl).2, hmembers, Value.theKey_text, List.mem_cons, List.mem_cons, List.mem_singleton]
  constructor
  · rintro (rfl | h)
    · exact Or.inl rfl
    · induction h with
      | refl => simp
      | tail _ hstep ih =>
        rcases leads_brook.1 hstep with ⟨-, rfl | rfl⟩ | ⟨rfl, -⟩
        · simp
        · simp
        · simp at ih
  · rintro (rfl | rfl | rfl)
    · exact Or.inl rfl
    · exact Or.inr .refl
    · exact Or.inr (.single (by simp [leads_brook]))

end Graph

end BlockFlow
