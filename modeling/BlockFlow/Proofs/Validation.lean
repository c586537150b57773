import BlockFlow.Flow.Validate
import BlockFlow.Proofs.Sound
import Mathlib.Data.List.Nodup
import Mathlib.Data.List.Perm.Basic
import Mathlib.Data.Set.List

/-!
The findings of a flow. Among textual identifiers nothing is found wrong with a flow exactly when it is sound and its caches
tell its edges, in any order.

* `RowPoints`, `Flow.adjacency_spec`: the rows of a flow let a key point where its edges lead.
* `Flow.hasCycle_spec`: the search over all rows, in which later starts share what earlier ones have visited, finds a circle
  exactly when the flow has one.
* `Value.sort_spec`: texts are the same once sorted exactly when one list is a rearrangement of the other.
* `Flow.blockFindings_spec`, `Flow.edgeFindings_spec`, `Flow.cacheFindings_spec`: when each part of the findings is empty.
* `Flow.findings_eq_nil_iff`: when all of them are.
-/

namespace BlockFlow

open Relation

/-! ## The rows of a flow -/

/-- One of the rows lets a key point at a value. -/
def RowPoints (rows : List Row) (k : Key) (v : Value) : Prop := ∃ r ∈ rows, r.key = k ∧ v ∈ r.targets

section Rows

variable {rows : List Row} {source id : Value}

theorem ensureRow_spec (h : id.HasKey) (rows : List Row) :
    ∃ more, ensureRow rows id = .ok more ∧ ∀ k v, RowPoints more k v ↔ RowPoints rows k v := by
  refine ⟨_, by rw [ensureRow, h.key_eq], fun k v => ?_⟩
  split
  · rfl
  · simp [RowPoints, or_and_right, exists_or]

theorem blockRows_spec {blocks : List Block} (h : ∀ b ∈ blocks, b.id.HasKey) (rows : List Row) :
    ∃ more, blockRows rows blocks = .ok more ∧ ∀ k v, RowPoints more k v ↔ RowPoints rows k v := by
  induction blocks generalizing rows with
  | nil => exact ⟨rows, rfl, fun k v => Iff.rfl⟩
  | cons b rest ih =>
    obtain ⟨next, hnext, hpoints⟩ := ensureRow_spec (h b List.mem_cons_self) rows
    obtain ⟨more, hmore, hrest⟩ := ih (fun x hx => h x (List.mem_cons_of_mem _ hx)) next
    refine ⟨more, ?_, fun k v => (hrest k v).trans (hpoints k v)⟩
    rw [blockRows, hnext]
    exact hmore

/-- A target goes to every row of its source, of which there is one at least. -/
theorem addTarget_spec (h : source.HasKey) (rows : List Row) (target : Value) :
    ∃ more, addTarget rows source target = .ok more ∧
      ∀ k v, RowPoints more k v ↔ RowPoints rows k v ∨ source.theKey = k ∧ target = v := by
  refine ⟨_, by rw [addTarget, h.key_eq], fun k v => ?_⟩
  split
  case isFalse hnone =>
    simp [RowPoints, or_and_right, exists_or, eq_comm]
  case isTrue hsome =>
    obtain ⟨old, hold, hkey⟩ := List.any_eq_true.1 hsome
    have hkey : old.key = source.theKey := by simpa using hkey
    constructor
    · rintro ⟨_, hmem, hk, hv⟩
      obtain ⟨r, hr, rfl⟩ := List.mem_map.1 hmem
      by_cases heq : r.key = source.theKey
      · rw [if_pos (beq_iff_eq.2 heq)] at hk hv
        rcases List.mem_append.1 hv with hv | hv
        · exact Or.inl ⟨r, hr, hk, hv⟩
        · exact Or.inr ⟨heq.symm.trans hk, (List.mem_singleton.1 hv).symm⟩
      · rw [if_neg (mt beq_iff_eq.1 heq)] at hk hv
        exact Or.inl ⟨r, hr, hk, hv⟩
    · rintro (⟨r, hr, rfl, hv⟩ | ⟨rfl, rfl⟩)
      · refine ⟨_, List.mem_map_of_mem hr, ?_⟩
        split
        · exact ⟨rfl, List.mem_append_left _ hv⟩
        · exact ⟨rfl, hv⟩
      · refine ⟨_, List.mem_map_of_mem hold, ?_⟩
        simp [hkey]

theorem edgeRows_spec {edges : List Edge} (h : ∀ e ∈ edges, e.source.HasKey) (rows : List Row) :
    ∃ more, edgeRows rows edges = .ok more ∧
      ∀ k v, RowPoints more k v ↔ RowPoints rows k v ∨ ∃ e ∈ edges, e.source.theKey = k ∧ e.target = v := by
  induction edges generalizing rows with
  | nil => exact ⟨rows, rfl, by simp⟩
  | cons e rest ih =>
    obtain ⟨next, hnext, hpoints⟩ := addTarget_spec (h e List.mem_cons_self) rows e.target
    obtain ⟨more, hmore, hrest⟩ := ih (fun x hx => h x (List.mem_cons_of_mem _ hx)) next
    refine ⟨more, ?_, fun k v => ?_⟩
    · rw [edgeRows, hnext]
      exact hmore
    · rw [hrest, hpoints, or_assoc, List.exists_mem_cons_iff]

theorem Graph.mem_ofRows {l : Link} : l ∈ ofRows rows ↔ RowPoints rows l.source l.target := by
  obtain ⟨source, target⟩ := l
  simp [ofRows, RowPoints, and_comm, and_assoc]

/-- Rows that point where edges lead have the links of those edges. -/
theorem Graph.points_ofRows {edges : List Edge}
    (h : ∀ k v, RowPoints rows k v ↔ ∃ e ∈ edges, e.source.theKey = k ∧ e.target = v) :
    (ofRows rows).Points = Graph.Points (edges.map fun e => ⟨e.source.theKey, e.target⟩) := by
  have hmem : ∀ l, l ∈ ofRows rows ↔ l ∈ edges.map fun e => (⟨e.source.theKey, e.target⟩ : Link) := by
    rintro ⟨source, target⟩
    simp [mem_ofRows, h]
  funext a b
  simp only [Points, hmem]

end Rows

/-! ## Circles -/

namespace Flow

variable {f : Flow}

theorem adjacency_spec (hids : ∀ v ∈ f.ids, v.IsText) (hends : f.TextEnds) :
    ∃ rows, f.adjacency = .ok rows ∧
      ∀ k v, RowPoints rows k v ↔ ∃ e ∈ f.edges, e.source.theKey = k ∧ e.target = v := by
  obtain ⟨own, hown, hnone⟩ :=
    blockRows_spec (fun b hb => (hids b.id (List.mem_map_of_mem hb)).hasKey) ([] : List Row)
  obtain ⟨rows, hrows, hpoints⟩ := edgeRows_spec (fun e he => (hends e he).1.hasKey) own
  refine ⟨rows, ?_, fun k v => ?_⟩
  · rw [adjacency, hown]
    exact hrows
  · rw [hpoints, hnone]
    simp [RowPoints]

/-- **The search over all of a flow.** Between texts it comes to an answer, which tells whether the flow has a circle. -/
theorem hasCycle_spec (hids : ∀ v ∈ f.ids, v.IsText) (hends : f.TextEnds) :
    ∃ found, f.hasCycle = .ok found ∧ (found = true ↔ ¬ f.Acyclic) := by
  obtain ⟨rows, hrows, hpoints⟩ := adjacency_spec hids hends
  have hkeys : ∀ l ∈ Graph.ofRows rows, ∃ k, l.target.key = .ok k := by
    intro l hl
    obtain ⟨e, he, -, htarget⟩ := (hpoints _ _).1 (Graph.mem_ofRows.1 hl)
    rw [← htarget]
    exact (hends e he).2.hasKey
  have hempty : Graph.Settled (.ofRows rows) (· ∈ KeySet.empty.members) := ⟨by simp, by simp⟩
  obtain ⟨found, hsearch, hfound⟩ := Graph.searchAll_spec (.build _) hkeys hempty (rows.map (·.key))
  have hcircles : ∀ e ∈ f.edges, _ := fun e he =>
    Graph.circles_ofEdges hends (Graph.ofEdges_text hends) (hends e he).1
  refine ⟨found, by rw [hasCycle, hrows]; exact hsearch, ?_⟩
  rw [hfound, Graph.points_ofRows hpoints, not_acyclic_iff]
  constructor
  · -- The start may be any key with a row, but the circle itself goes through the source of an edge.
    rintro ⟨k, -, hk⟩
    obtain ⟨_, _, ⟨l, hl, rfl, -⟩, hsource⟩ := hk.exists_step
    obtain ⟨e, he, rfl⟩ := List.mem_map.1 hl
    exact ⟨e, he, (hcircles e he).1 hsource⟩
  · rintro ⟨e, he, hc⟩
    obtain ⟨r, hr, hkey, -⟩ := (hpoints _ _).2 ⟨e, he, rfl, rfl⟩
    exact ⟨e.source.theKey, List.mem_map.2 ⟨r, hr, hkey⟩, (hcircles e he).2 hc⟩

end Flow

/-! ## Sorted texts -/

theorem mergeSort_eq_iff (as bs : List String) :
    (as.mergeSort fun s t => s ≤ t) = (bs.mergeSort fun s t => s ≤ t) ↔ as.Perm bs := by
  have htrans : ∀ a b c : String, decide (a ≤ b) = true → decide (b ≤ c) = true → decide (a ≤ c) = true := by
    intro a b c hab hbc
    simp only [decide_eq_true_eq] at hab hbc ⊢
    exact String.le_trans hab hbc
  have htotal : ∀ a b : String, (decide (a ≤ b) || decide (b ≤ a)) = true := by
    intro a b
    simpa using String.le_total a b
  constructor
  · intro h
    calc as.Perm _ := (List.mergeSort_perm as _).symm
      _ = _ := h
      List.Perm _ bs := List.mergeSort_perm bs _
  · intro h
    refine List.Perm.eq_of_pairwise ?_ (List.pairwise_mergeSort htrans htotal as) (List.pairwise_mergeSort htrans htotal bs)
      (((List.mergeSort_perm as _).trans h).trans (List.mergeSort_perm bs _).symm)
    intro a b _ _ hab hba
    simp only [decide_eq_true_eq] at hab hba
    exact String.le_antisymm hab hba

namespace Value

variable {xs ys : List Value}

theorem exists_texts (h : ∀ v ∈ xs, v.IsText) : ∃ ss : List String, ss.map .text = xs := by
  have hmem : xs ∈ Set.range (List.map Value.text) := by
    rw [Set.range_list_map]
    intro v hv
    obtain ⟨s, rfl⟩ := h v hv
    exact ⟨s, rfl⟩
  exact hmem

theorem texts?_map (ss : List String) : texts? (ss.map .text) = some ss := by
  induction ss with
  | nil => rfl
  | cons s ss ih =>
    unfold texts? at ih ⊢
    rw [List.map_cons, List.mapM_cons, ih]
    rfl

theorem sameAll_map (as bs : List String) : sameAll (as.map .text) (bs.map .text) = true ↔ as = bs := by
  induction as generalizing bs with
  | nil => cases bs <;> simp [sameAll]
  | cons a as ih =>
    cases bs with
    | nil => simp [sameAll]
    | cons b bs => simp [sameAll, same, atom?, ih, @eq_comm _ b]

/-- Texts can be sorted, and are the same then just when they are a rearrangement of each other. -/
theorem sort_spec (hx : ∀ v ∈ xs, v.IsText) (hy : ∀ v ∈ ys, v.IsText) :
    ∃ xs' ys', sort xs = .ok xs' ∧ sort ys = .ok ys' ∧ (sameAll xs' ys' = true ↔ xs.Perm ys) := by
  obtain ⟨as, rfl⟩ := exists_texts hx
  obtain ⟨bs, rfl⟩ := exists_texts hy
  refine ⟨_, _, by rw [sort, texts?_map], by rw [sort, texts?_map], ?_⟩
  rw [sameAll_map, mergeSort_eq_iff, List.map_perm_map_iff fun s t h => Value.text.inj h]

end Value

/-! ## The parts of the findings -/

/-- The keys of the ends of an edge. -/
def Edge.keys (e : Edge) : Key × Key := (e.source.theKey, e.target.theKey)

namespace Flow

open Classical in
/-- The cache of a block tells the edges at it, in any order. -/
def Tells (f : Flow) (b : Block) : Prop :=
  b.cache.outputs.Perm ((f.edges.filter fun e => e.source = b.id).map (·.target)) ∧
    b.cache.inputs.Perm ((f.edges.filter fun e => e.target = b.id).map (·.source))

variable {f : Flow}

/-- Nothing is found just when no identifier comes again, here or among what has been seen. -/
theorem blockFindings_spec {blocks : List Block} (h : ∀ b ∈ blocks, b.id.HasKey) (seen : List Key) :
    ∃ keys found, blockFindings seen blocks = .ok (keys, found) ∧
      (∀ k, k ∈ keys ↔ k ∈ seen ∨ k ∈ blocks.map (·.id.theKey)) ∧
      (found = [] ↔ (blocks.map (·.id.theKey)).Nodup ∧ ∀ b ∈ blocks, b.id.theKey ∉ seen) := by
  induction blocks generalizing seen with
  | nil => exact ⟨seen, [], rfl, by simp, by simp⟩
  | cons b rest ih =>
    have hkey := (h b List.mem_cons_self).key_eq
    have hrest : ∀ x ∈ rest, x.id.HasKey := fun x hx => h x (List.mem_cons_of_mem _ hx)
    obtain ⟨keys, more, hok, hkeys, hmore⟩ := ih hrest (if b.id.theKey ∈ seen then seen else b.id.theKey :: seen)
    refine ⟨keys, _, bind_eq_ok.2 ⟨_, hkey, bind_eq_ok.2 ⟨_, hok, rfl⟩⟩, fun k => ?_, ?_⟩
    -- Whether the key is kept once more or not, what has been seen afterwards is the same.
    · rw [hkeys, List.map_cons, List.mem_cons]
      split <;> grind
    · rw [List.map_cons, List.nodup_cons, List.forall_mem_cons]
      split at hmore <;> grind

/-- Nothing is found just when the ends are among the keys and no pair of ends comes again. -/
theorem edgeFindings_spec {edges : List Edge} (h : ∀ e ∈ edges, e.source.HasKey ∧ e.target.HasKey) (ids : List Key)
    (pairs : List (Key × Key)) :
    ∃ found, edgeFindings ids pairs edges = .ok found ∧
      (found = [] ↔ (∀ e ∈ edges, e.source.theKey ∈ ids ∧ e.target.theKey ∈ ids) ∧ (edges.map Edge.keys).Nodup ∧
        ∀ e ∈ edges, e.keys ∉ pairs) := by
  induction edges generalizing pairs with
  | nil => exact ⟨[], rfl, by simp⟩
  | cons e rest ih =>
    obtain ⟨hs, ht⟩ := h e List.mem_cons_self
    obtain ⟨found, hok, hfound⟩ := ih (fun x hx => h x (List.mem_cons_of_mem _ hx)) (e.keys :: pairs)
    refine ⟨_, bind_eq_ok.2 ⟨_, hs.key_eq, bind_eq_ok.2 ⟨_, ht.key_eq, bind_eq_ok.2 ⟨_, hok, rfl⟩⟩⟩, ?_⟩
    have hlater : (∀ x ∈ rest, x.keys ∉ e.keys :: pairs) ↔ e.keys ∉ rest.map Edge.keys ∧ ∀ x ∈ rest, x.keys ∉ pairs := by
      grind
    simp only [List.append_eq_nil_iff, ite_eq_left_iff, ite_eq_right_iff, reduceCtorEq, imp_false, not_not, hfound,
      hlater, List.map_cons, List.nodup_cons, List.forall_mem_cons]
    constructor
    · rintro ⟨⟨hhere, hpair⟩, hends, hnodup, hnew, hpairs⟩
      exact ⟨⟨hhere, hends⟩, ⟨hnew, hnodup⟩, hpair, hpairs⟩
    · rintro ⟨⟨hhere, hends⟩, ⟨hnew, hnodup⟩, hpair, hpairs⟩
      exact ⟨⟨hhere, hpair⟩, hends, hnodup, hnew, hpairs⟩

open Classical in
theorem filter_equal {id : Value} {edges : List Edge} {pick : Edge → Value} (h : ∀ e ∈ edges, (pick e).IsText) :
    (edges.filter fun e => (pick e).equal id) = edges.filter fun e => pick e = id := by
  refine List.filter_congr fun e he => ?_
  rw [Bool.eq_iff_iff, (h e he).equal_iff, decide_eq_true_iff, eq_comm]

theorem cacheCurrent_spec (hends : f.TextEnds) {b : Block} (hb : ∀ v ∈ b.cache.inputs ++ b.cache.outputs, v.IsText) :
    ∃ current, f.cacheCurrent b = .ok current ∧ (current = true ↔ f.Tells b) := by
  have houtgoing : ∀ v ∈ (f.outgoing b.id).map (·.target), v.IsText := by
    intro v hv
    obtain ⟨e, he, rfl⟩ := List.mem_map.1 hv
    exact (hends e (List.mem_of_mem_filter he)).2
  have hincoming : ∀ v ∈ (f.incoming b.id).map (·.source), v.IsText := by
    intro v hv
    obtain ⟨e, he, rfl⟩ := List.mem_map.1 hv
    exact (hends e (List.mem_of_mem_filter he)).1
  obtain ⟨cached, targets, hcached, htargets, hout⟩ :=
    Value.sort_spec (fun v hv => hb v (List.mem_append_right _ hv)) houtgoing
  obtain ⟨cached', sources, hcached', hsources, hin⟩ :=
    Value.sort_spec (fun v hv => hb v (List.mem_append_left _ hv)) hincoming
  refine ⟨Value.sameAll cached targets && Value.sameAll cached' sources, ?_, ?_⟩
  · refine bind_eq_ok.2 ⟨_, htargets, bind_eq_ok.2 ⟨_, hsources, bind_eq_ok.2 ⟨_, hcached, ?_⟩⟩⟩
    cases Value.sameAll cached targets with
    | false => rfl
    | true => exact bind_eq_ok.2 ⟨_, hcached', rfl⟩
  · rw [Bool.and_eq_true, hout, hin, outgoing, incoming, filter_equal fun e he => (hends e he).1,
      filter_equal fun e he => (hends e he).2]
    rfl

theorem cacheFindings_spec (hends : f.TextEnds) {blocks : List Block}
    (h : ∀ b ∈ blocks, ∀ v ∈ b.cache.inputs ++ b.cache.outputs, v.IsText) :
    ∃ found, f.cacheFindings blocks = .ok found ∧ (found = [] ↔ ∀ b ∈ blocks, f.Tells b) := by
  induction blocks with
  | nil => exact ⟨[], rfl, by simp⟩
  | cons b rest ih =>
    obtain ⟨current, hcurrent, htells⟩ := cacheCurrent_spec hends (h b List.mem_cons_self)
    obtain ⟨found, hok, hfound⟩ := ih fun x hx => h x (List.mem_cons_of_mem _ hx)
    refine ⟨_, by rw [cacheFindings, hcurrent, hok]; rfl, ?_⟩
    rw [List.forall_mem_cons, ← htells, ← hfound]
    cases current <;> simp

/-! ## All findings -/

theorem nodup_map_theKey (hids : ∀ v ∈ f.ids, v.IsText) : (f.blocks.map (·.id.theKey)).Nodup ↔ f.ids.Nodup := by
  have hmap : f.blocks.map (·.id.theKey) = f.ids.map Value.theKey := by
    simp [ids]
  rw [hmap]
  exact ⟨.of_map _, .map_on fun v _ w hw h => (hids w hw).theKey_inj.1 h⟩

theorem nodup_map_keys (hends : f.TextEnds) : (f.edges.map Edge.keys).Nodup ↔ f.pairs.Nodup := by
  have hmap : f.edges.map Edge.keys = f.pairs.map (Prod.map Value.theKey Value.theKey) := by
    simp [pairs, Edge.keys]
  rw [hmap]
  refine ⟨.of_map _, .map_on fun p hp q hq h => ?_⟩
  obtain ⟨e, he, rfl⟩ := List.mem_map.1 hq
  obtain ⟨hsource, htarget⟩ := Prod.mk.inj h
  exact Prod.ext ((hends e he).1.theKey_inj.1 hsource) ((hends e he).2.theKey_inj.1 htarget)

theorem theKey_mem_iff {v : Value} (hids : ∀ v ∈ f.ids, v.IsText) :
    v.theKey ∈ f.blocks.map (·.id.theKey) ↔ v ∈ f.ids := by
  rw [mem_ids, List.mem_map]
  constructor
  · rintro ⟨b, hb, h⟩
    exact ⟨b, hb, ((hids b.id (List.mem_map_of_mem hb)).theKey_inj.1 h.symm).symm⟩
  · rintro ⟨b, hb, rfl⟩
    exact ⟨b, hb, rfl⟩

theorem sound_iff (hids : ∀ v ∈ f.ids, v.IsText) :
    f.Sound ↔ f.ids.Nodup ∧ (∀ e ∈ f.edges, e.source ∈ f.ids ∧ e.target ∈ f.ids) ∧ f.pairs.Nodup ∧ f.Acyclic :=
  ⟨fun h => ⟨h.distinct, h.ends, h.single, h.acyclic⟩, fun ⟨hd, he, hs, ha⟩ => ⟨hids, hd, he, hs, ha⟩⟩

/-- **Nothing is wrong with a flow exactly when it is sound and its caches tell its edges**, each in any order. Where
identifiers, ends and what is cached are texts, looking for what is wrong comes to an answer. -/
theorem findings_eq_nil_iff (hids : ∀ v ∈ f.ids, v.IsText) (hends : f.TextEnds)
    (hcaches : ∀ b ∈ f.blocks, ∀ v ∈ b.cache.inputs ++ b.cache.outputs, v.IsText) :
    ∃ found, f.findings = .ok found ∧ (found = [] ↔ f.Sound ∧ ∀ b ∈ f.blocks, f.Tells b) := by
  obtain ⟨keys, repeated, hrepeated, hkeys, hdistinct⟩ :=
    blockFindings_spec (fun b hb => (hids b.id (List.mem_map_of_mem hb)).hasKey) []
  obtain ⟨edges, hedges, hsingle⟩ :=
    edgeFindings_spec (fun e he => ⟨(hends e he).1.hasKey, (hends e he).2.hasKey⟩) keys []
  obtain ⟨circle, hcircle, hacyclic⟩ := hasCycle_spec hids hends
  obtain ⟨caches, hcaches, htells⟩ := cacheFindings_spec hends hcaches
  refine ⟨_, bind_eq_ok.2 ⟨_, hrepeated, bind_eq_ok.2 ⟨_, hedges, bind_eq_ok.2 ⟨_, hcircle,
    bind_eq_ok.2 ⟨_, hcaches, rfl⟩⟩⟩⟩, ?_⟩
  have hmem : ∀ v : Value, v.theKey ∈ keys ↔ v ∈ f.ids := by
    intro v
    rw [hkeys, theKey_mem_iff hids]
    simp
  simp only [List.not_mem_nil, not_false_eq_true, implies_true, and_true, nodup_map_theKey hids] at hdistinct
  simp only [List.not_mem_nil, not_false_eq_true, implies_true, and_true, nodup_map_keys hends, hmem] at hsingle
  have hcircles : (if circle = true then [finding "Flow contains circular connections" .null] else []) = [] ↔
      f.Acyclic := by
    rw [ite_eq_right_iff, hacyclic]
    simp
  rw [List.append_eq_nil_iff, List.append_eq_nil_iff, List.append_eq_nil_iff, hdistinct, hsingle, hcircles, htells,
    sound_iff hids]
  simp only [and_assoc]

/-- A flow of blocks given by their identifiers and caches. -/
def charted (blocks : List (String × List String × List String)) (edges : List (String × String)) : Flow :=
  { id := .text "flow-1"
    blocks := blocks.map fun (id, inputs, outputs) =>
      { Block.fresh (.text id) (.text "if-else") .null with cache := ⟨inputs.map .text, outputs.map .text⟩ }
    edges := edges.map fun (source, target) => { id := .null, source := .text source, target := .text target } }

/-- A triangle whose caches are not in the order of its edges. -/
def triangle : Flow :=
  charted [("a", [], ["b", "c"]), ("b", ["a"], ["c"]), ("c", ["b", "a"], [])] [("a", "c"), ("a", "b"), ("b", "c")]

/-- A circle that the first block leads to, and nothing else that is wrong. -/
def eddy : Flow :=
  charted [("a", [], ["b"]), ("b", ["a", "c"], ["c"]), ("c", ["b"], ["b"])] [("a", "b"), ("b", "c"), ("c", "b")]

theorem isText_map {ss : List String} {v : Value} (h : v ∈ ss.map .text) : v.IsText := by
  obtain ⟨s, -, rfl⟩ := List.mem_map.1 h
  exact ⟨s, rfl⟩

theorem texts_charted (blocks : List (String × List String × List String)) (edges : List (String × String)) :
    (∀ v ∈ (charted blocks edges).ids, v.IsText) ∧ (charted blocks edges).TextEnds ∧
      ∀ b ∈ (charted blocks edges).blocks, ∀ v ∈ b.cache.inputs ++ b.cache.outputs, v.IsText := by
  refine ⟨fun v hv => ?_, fun e he => ?_, fun b hb v hv => ?_⟩
  · obtain ⟨b, hb, rfl⟩ := mem_ids.1 hv
    obtain ⟨x, -, rfl⟩ := List.mem_map.1 hb
    exact ⟨_, rfl⟩
  · obtain ⟨x, -, rfl⟩ := List.mem_map.1 he
    exact ⟨⟨_, rfl⟩, ⟨_, rfl⟩⟩
  · obtain ⟨x, -, rfl⟩ := List.mem_map.1 hb
    rcases List.mem_append.1 hv with hv | hv
    · exact isText_map hv
    · exact isText_map hv

theorem sound_triangle : triangle.Sound := by
  refine ⟨(texts_charted _ _).1, ?_, ?_, ?_, ?_⟩
  · simp [triangle, charted, ids, Block.fresh]
  · simp [triangle, charted, ids, Block.fresh]
  · simp [triangle, charted, pairs]
  · refine acyclic_of_rank (fun v => if v.isText "a" then 0 else if v.isText "b" then 1 else 2) ?_
    simp [triangle, charted, Value.isText]

theorem tells_triangle : ∀ b ∈ triangle.blocks, triangle.Tells b := by
  have hswap : ∀ v w : Value, [v, w].Perm [w, v] := fun v w => .swap w v []
  simp [triangle, charted, Tells, Block.fresh, List.filter_cons, hswap]

theorem findings_eq_nil_triangle :
    ((∀ v ∈ triangle.ids, v.IsText) ∧ triangle.TextEnds ∧
      ∀ b ∈ triangle.blocks, ∀ v ∈ b.cache.inputs ++ b.cache.outputs, v.IsText) ∧
    triangle.findings = .ok [] ∧ ∃ c rest, eddy.findings = .ok (c :: rest) := by
  refine ⟨texts_charted _ _, ?_, ?_⟩
  · obtain ⟨hids, hends, hcaches⟩ := texts_charted _ _
    obtain ⟨found, hfound, hnil⟩ := findings_eq_nil_iff (f := triangle) hids hends hcaches
    rw [hfound, hnil.2 ⟨sound_triangle, tells_triangle⟩]
  · obtain ⟨hids, hends, hcaches⟩ := texts_charted _ _
    obtain ⟨found, hfound, hnil⟩ := findings_eq_nil_iff (f := eddy) hids hends hcaches
    have hforth : eddy.Points (.text "b") (.text "c") := by
      simp [Points, EdgePoints, eddy, charted]
    have hback : eddy.Points (.text "c") (.text "b") := by
      simp [Points, EdgePoints, eddy, charted]
    have hcircle : TransGen eddy.Points (.text "b") (.text "b") := .tail (.single hforth) hback
    have hsome : found ≠ [] := fun h => (hnil.1 h).1.acyclic _ hcircle
    obtain ⟨c, rest, rfl⟩ := List.exists_cons_of_ne_nil hsome
    exact ⟨c, rest, hfound⟩

end Flow

end BlockFlow
