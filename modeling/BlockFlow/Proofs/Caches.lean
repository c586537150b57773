import BlockFlow.Proofs.Sound
import Mathlib.Data.List.Nodup

/-!
Exact caches. While all edges get fresh identifiers, every block remembers just the edges at it, in the order of the edges,
so that caches made anew are the caches that are there.

* `cacheFrom`: the cache that edges give to an identifier.
* `Flow.Mirrored`: a sound flow whose caches tell its edges; `Flow.Exact`: one with distinct edges; `Flow.Cached`: what that
  means for each block.
* `Flow.rebuild_eq`: caches made anew.
* `Flow.Exact.change`, `Flow.Exact.stages`: one edit keeps caches exact, and so do many.
-/

namespace BlockFlow

/-- The cache that edges give to an identifier. -/
def cacheFrom (edges : List Edge) (id : Value) : Cache :=
  ⟨(edges.filter fun e => e.target.equal id).map (·.source), (edges.filter fun e => e.source.equal id).map (·.target)⟩

/-- The edit brings no identifier of its own for a new edge. -/
def Edit.Drawn : Edit → Prop
  | .addEdge _ => False
  | _ => True

/-- A block once an edge is there. -/
def Block.joined (e : Edge) (b : Block) : Block :=
  { b with cache :=
    ⟨b.cache.inputs ++ if b.id.equal e.target then [e.source] else [],
      b.cache.outputs ++ if b.id.equal e.source then [e.target] else []⟩ }

/-- A block once an edge is gone. -/
def Block.parted (e : Edge) (b : Block) : Block :=
  { b with cache :=
    ⟨b.cache.inputs.filter fun i => !(i.equal e.source && b.id.equal e.target),
      b.cache.outputs.filter fun o => !(b.id.equal e.source && o.equal e.target)⟩ }

/-- Such an edge has the identifier that is drawn for it. -/
theorem Edit.Drawn.mark_of_edge {edit : Edit} (h : edit.Drawn) {e : Edge} (he : edit.edge? = some e) :
    ∃ m, edit.mark? = some m ∧ e.id = drawnId "edge" m := by
  cases edit with
  | connect mark source target =>
    obtain rfl := Option.some.inj he
    exact ⟨mark, rfl, rfl⟩
  | addEdge => exact absurd h id
  | _ => cases he

theorem drawn_numbered {edits : List Edit} (h : ∀ edit ∈ edits, edit.Drawn) (n : Nat) :
    ∀ edit ∈ numbered n edits, edit.Drawn := by
  induction edits generalizing n with
  | nil => simp [numbered]
  | cons edit edits ih =>
    have hedit : (edit.withMark (intText n)).Drawn := by
      have := h edit List.mem_cons_self
      cases edit <;> exact this
    exact List.forall_mem_cons.2 ⟨hedit, ih (fun x hx => h x (List.mem_cons_of_mem _ hx)) _⟩

namespace Value

/-- Equality of texts does not depend on their order. -/
theorem IsText.equal_comm {a b : Value} (ha : a.IsText) (hb : b.IsText) : a.equal b = b.equal a := by
  rw [Bool.eq_iff_iff, ha.equal_iff, hb.equal_iff, eq_comm]

end Value

namespace Flow

variable {f g : Flow} {e : Edge} {id : Value}

/-! ## Changing the one element that passes a test -/

/-- Where no two elements pass a test, changing the first is changing all that pass. -/
theorem modifyFirst_eq_map {α : Type} {test : α → Bool} {change : α → α} {xs : List α}
    (h : xs.Pairwise fun a b => ¬ (test a = true ∧ test b = true)) :
    modifyFirst test change xs = xs.map fun x => if test x then change x else x := by
  induction xs with
  | nil => rfl
  | cons x xs ih =>
    obtain ⟨hx, hxs⟩ := List.pairwise_cons.1 h
    rw [modifyFirst]
    split
    · rename_i htest
      have hrest : xs.map (fun y => if test y then change y else y) = xs := by
        refine (List.map_congr_left fun y hy => ?_).trans (List.map_id _)
        exact if_neg fun hy' => hx y hy ⟨htest, hy'⟩
      rw [List.map_cons, if_pos htest, hrest]
    · rename_i htest
      rw [List.map_cons, if_neg htest, ih hxs]

/-- In a flow with distinct textual identifiers, changing a block is changing it wherever it stands. -/
theorem updateBlock_eq_map (ht : ∀ v ∈ f.ids, v.IsText) (hd : f.ids.Nodup) (id : Value) (change : Block → Block) :
    f.updateBlock id change = { f with blocks := f.blocks.map fun b => if b.id.equal id then change b else b } := by
  unfold updateBlock
  rw [modifyFirst_eq_map]
  refine (List.pairwise_map.1 hd).imp_of_mem fun {a b} ha hb hne => ?_
  rintro ⟨hea, heb⟩
  rw [(ht a.id (List.mem_map_of_mem ha)).equal_iff] at hea
  rw [(ht b.id (List.mem_map_of_mem hb)).equal_iff] at heb
  exact hne (hea.symm.trans heb)

/-- A sound flow whose caches tell its edges, whatever identifiers these have. -/
structure Mirrored (f : Flow) : Prop where
  sound : f.Sound
  /-- Every block remembers the edges at it, in order. -/
  caches : ∀ b ∈ f.blocks, b.cache = cacheFrom f.edges b.id

/-- A flow whose caches tell its edges. -/
structure Exact (f : Flow) : Prop where
  sound : f.Sound
  /-- Identifiers of edges are texts. -/
  edgeTexts : ∀ e ∈ f.edges, e.id.IsText
  /-- No two edges share an identifier. -/
  edgeIds : (f.edges.map (·.id)).Nodup
  /-- Every block remembers the edges at it, in order. -/
  caches : ∀ b ∈ f.blocks, b.cache = cacheFrom f.edges b.id

/-- The caches tell the edges, in their order, and caches made anew are the same. -/
def Cached (f : Flow) : Prop :=
  (∀ b ∈ f.blocks, b.cache.outputs = (f.outgoing b.id).map (·.target) ∧
    b.cache.inputs = (f.incoming b.id).map (·.source)) ∧ f.rebuild = (f, .ok ())

/-! ## Caches made anew -/

/-- With distinct keys, changing the last block of a key is changing it wherever it stands. -/
theorem updateLast_eq_map {blocks : List (Key × Block)} (h : (blocks.map (·.1)).Nodup) (k : Key)
    (change : Block → Block) :
    updateLast k change blocks = blocks.map fun p => if p.1 == k then (p.1, change p.2) else p := by
  unfold updateLast
  rw [modifyFirst_eq_map, List.map_reverse, List.reverse_reverse]
  refine List.pairwise_reverse.2 ((List.pairwise_map.1 h).imp fun {a b} hne => ?_)
  rintro ⟨hb, ha⟩
  rw [beq_iff_eq] at ha hb
  exact hne (ha.trans hb.symm)

/-- A block that remembers edges by the key of its identifier, behind those that it knows. -/
def recached (edges : List Edge) (p : Key × Block) : Key × Block :=
  (p.1, { p.2 with cache :=
    ⟨p.2.cache.inputs ++ (edges.filter fun e => e.target.theKey == p.1).map (·.source),
      p.2.cache.outputs ++ (edges.filter fun e => e.source.theKey == p.1).map (·.target)⟩ })

theorem recached_nil (p : Key × Block) : recached [] p = p := by
  simp [recached]

/-- One edge is remembered at its source and at its target, and then the others are. -/
theorem recached_cons (e : Edge) (rest : List Edge) (p : Key × Block) :
    recached rest (recached [e] p) = recached (e :: rest) p := by
  by_cases hs : e.source.theKey = p.1 <;> by_cases ht : e.target.theKey = p.1 <;> simp [recached, hs, ht]

/-- Remembering one edge at its source and then at its target. -/
theorem updateLast_updateLast {blocks : List (Key × Block)} (hd : (blocks.map (·.1)).Nodup) (e : Edge) :
    updateLast e.target.theKey
      (fun b => { b with cache := { b.cache with inputs := b.cache.inputs ++ [e.source] } })
      (updateLast e.source.theKey
        (fun b => { b with cache := { b.cache with outputs := b.cache.outputs ++ [e.target] } }) blocks) =
      blocks.map (recached [e]) := by
  rw [updateLast_eq_map (by rwa [map_updateLast Prod.fst fun _ => rfl]), updateLast_eq_map hd, List.map_map]
  refine List.map_congr_left fun p _ => ?_
  by_cases hs : p.1 = e.source.theKey <;> by_cases ht : p.1 = e.target.theKey
  · simp [recached, hs, ← ht]
  · simp [recached, ← hs, ht, Ne.symm ht]
  · simp [recached, ← ht, hs, Ne.symm hs]
  · simp [recached, hs, ht, Ne.symm hs, Ne.symm ht]

theorem rememberAll_eq {blocks : List (Key × Block)} (hd : (blocks.map (·.1)).Nodup) {edges : List Edge}
    (hk : ∀ e ∈ edges, e.source.HasKey ∧ e.target.HasKey) :
    rememberAll blocks edges = (blocks.map (recached edges), .ok ()) := by
  induction edges generalizing blocks with
  | nil =>
    rw [rememberAll, funext recached_nil]
    simp
  | cons e rest ih =>
    obtain ⟨hs, ht⟩ := hk e (by simp)
    rw [rememberAll, hs.key_eq, ht.key_eq]
    simp only
    rw [updateLast_updateLast hd, ih, List.map_map]
    · exact congrArg (·, Except.ok ()) (List.map_congr_left fun p _ => recached_cons e rest p)
    · rw [List.map_map]
      exact hd
    · exact fun x hx => hk x (List.mem_cons_of_mem _ hx)

/-- **Caches made anew** are those that the edges give. -/
theorem rebuild_eq (h : f.Sound) :
    f.rebuild = ({ f with blocks := f.blocks.map fun b => { b with cache := cacheFrom f.edges b.id } }, .ok ()) := by
  have hkeyed : (f.blocks.mapM fun b => b.id.key.map fun k => (k, b)) =
      .ok (f.blocks.map fun b => (b.id.theKey, b)) := by
    refine mapM_ok fun b hb => ?_
    rw [(h.texts b.id (List.mem_map_of_mem hb)).hasKey.key_eq]
    rfl
  have hdistinct : ((f.blocks.map fun b => (b.id.theKey, { b with cache := {} })).map (·.1)).Nodup := by
    rw [List.map_map]
    refine List.pairwise_map.2 ((List.pairwise_map.1 h.distinct).imp_of_mem fun {a b} ha hb hne heq => hne ?_)
    have hta := h.texts a.id (List.mem_map_of_mem ha)
    have htb := h.texts b.id (List.mem_map_of_mem hb)
    exact (hta.hasKey.theKey_inj htb).1 heq
  have hkeys : ∀ e ∈ f.edges, e.source.HasKey ∧ e.target.HasKey := fun e he =>
    ⟨(h.textEnds e he).1.hasKey, (h.textEnds e he).2.hasKey⟩
  unfold rebuild
  rw [hkeyed]
  simp only [List.map_map, Function.comp_def]
  rw [rememberAll_eq hdistinct hkeys]
  simp only [List.map_map, Function.comp_def]
  congr 2
  refine List.map_congr_left fun b hb => ?_
  have hmatch : ∀ v : Value, v.IsText → (v.theKey == b.id.theKey) = v.equal b.id := fun v hv => by
    rw [Bool.eq_iff_iff, beq_iff_eq, hv.hasKey.theKey_inj (h.texts b.id (List.mem_map_of_mem hb)), hv.equal_iff,
      eq_comm]
  have hin : f.edges.filter (fun e => e.target.theKey == b.id.theKey) = f.edges.filter fun e => e.target.equal b.id :=
    List.filter_congr fun e he => hmatch _ (h.textEnds e he).2
  have hout : f.edges.filter (fun e => e.source.theKey == b.id.theKey) = f.edges.filter fun e => e.source.equal b.id :=
    List.filter_congr fun e he => hmatch _ (h.textEnds e he).1
  simp [recached, cacheFrom, hin, hout]

/-! ## Each change keeps caches exact -/

/-- A part of the selected elements, seen through a view, is chosen by what is seen. -/
theorem map_filter_filter {α β : Type} {xs : List α} {keep select : α → Bool} {view : α → β} {keepView : β → Bool}
    (h : ∀ x ∈ xs, select x = true → keep x = keepView (view x)) :
    ((xs.filter keep).filter select).map view = ((xs.filter select).map view).filter keepView := by
  rw [List.filter_map, List.filter_filter, List.filter_filter]
  refine congrArg (List.map view) (List.filter_congr fun x hx => ?_)
  by_cases hsel : select x = true
  · simp [hsel, h x hx hsel]
  · simp [hsel]

theorem cacheFrom_append (edges : List Edge) (e : Edge) (id : Value) :
    cacheFrom (edges ++ [e]) id =
      ⟨(cacheFrom edges id).inputs ++ if e.target.equal id then [e.source] else [],
        (cacheFrom edges id).outputs ++ if e.source.equal id then [e.target] else []⟩ := by
  by_cases hs : e.source.equal id = true <;> by_cases ht : e.target.equal id = true <;> simp [cacheFrom, hs, ht]

theorem mirrored_of_empty (hb : f.blocks = []) (he : f.edges = []) : f.Mirrored :=
  ⟨sound_of_empty hb he, by simp [hb]⟩

theorem exact_of_empty (hb : f.blocks = []) (he : f.edges = []) : f.Exact :=
  ⟨sound_of_empty hb he, by simp [he], by simp [he], by simp [hb]⟩

theorem Exact.mirrored (h : f.Exact) : f.Mirrored := ⟨h.sound, h.caches⟩

/-- Edges stay distinct when some of them leave. -/
theorem Exact.of_sublist (h : f.Exact) (hg : g.Mirrored) (hsub : g.edges.Sublist f.edges) : g.Exact :=
  ⟨hg.sound, fun e he => h.edgeTexts e (hsub.subset he), h.edgeIds.sublist (hsub.map _), hg.caches⟩

namespace Mirrored

/-- A flow whose caches tell its edges is its own rebuilt form. -/
theorem rebuild_self (h : f.Mirrored) : f.rebuild = (f, .ok ()) := by
  have hblocks : f.blocks.map (fun b => { b with cache := cacheFrom f.edges b.id }) = f.blocks := by
    refine (List.map_congr_left fun b hb => ?_).trans (List.map_id _)
    rw [← h.caches b hb]
    rfl
  rw [rebuild_eq h.sound, hblocks]

theorem alike (h : f.Mirrored) (ha : Alike f g) : g.Mirrored := by
  obtain ⟨hj, he⟩ := ha
  refine ⟨h.sound.congr (by rw [ids_eq_joints, ids_eq_joints, hj]) he, fun b hb => ?_⟩
  have hmem : (b.id, b.cache) ∈ g.joints := List.mem_map_of_mem hb
  rw [hj] at hmem
  obtain ⟨b', hb', heq⟩ := List.mem_map.1 hmem
  obtain ⟨hid, hcache⟩ := Prod.mk.inj heq
  rw [he, ← hcache, ← hid]
  exact h.caches b' hb'

theorem addBlock (h : f.Mirrored) {mark : String} (hnew : drawnId "block" mark ∉ f.ids) (type position : Value) :
    (f.addBlock (drawnId "block" mark) type position).Mirrored := by
  refine ⟨h.sound.addBlock hnew type position, fun b hb => ?_⟩
  rcases List.mem_append.1 hb with hb | hb
  · exact h.caches b hb
  · obtain rfl := List.mem_singleton.1 hb
    -- no edge of the flow touches an identifier that is not there
    have hin : f.edges.filter (fun e => e.target.equal (drawnId "block" mark)) = [] := by
      refine List.filter_eq_nil_iff.2 fun e he heq => hnew ?_
      rw [(h.sound.textEnds e he).2.equal_iff] at heq
      exact heq ▸ (h.sound.ends e he).2
    have hout : f.edges.filter (fun e => e.source.equal (drawnId "block" mark)) = [] := by
      refine List.filter_eq_nil_iff.2 fun e he heq => hnew ?_
      rw [(h.sound.textEnds e he).1.equal_iff] at heq
      exact heq ▸ (h.sound.ends e he).1
    simp [Flow.addBlock, Block.fresh, cacheFrom, hin, hout]

theorem dropBlock (h : f.Mirrored) (id : Value) : (f.dropBlock id).Mirrored := by
  refine ⟨h.sound.dropBlock id, ?_⟩
  intro b' hb'
  obtain ⟨b, hb, rfl⟩ := List.mem_map.1 hb'
  obtain ⟨hb, hkept⟩ := List.mem_filter.1 hb
  rw [h.caches b hb]
  -- an edge at a block that stays is kept just when its other end is
  have hat : ∀ v : Value, v.IsText → v.equal b.id = true → (!v.equal id) = true := fun v hv heq => by
    rwa [← hv.equal_iff.1 heq]
  refine congrArg₂ Cache.mk ?_ ?_
  · refine (map_filter_filter fun e he heq => ?_).symm
    rw [hat _ (h.sound.textEnds e he).2 heq, Bool.and_true]
  · refine (map_filter_filter fun e he heq => ?_).symm
    rw [hat _ (h.sound.textEnds e he).1 heq, Bool.true_and]

end Mirrored

/-! ## Edges that come and go -/

/-- Changing two blocks, one after the other. -/
theorem updateBlock_updateBlock (ht : ∀ v ∈ f.ids, v.IsText) (hd : f.ids.Nodup) {s t : Value}
    {first second : Block → Block} (hfirst : ∀ b, (first b).id = b.id) :
    (f.updateBlock s first).updateBlock t second =
      { f with blocks := f.blocks.map fun b =>
        if b.id.equal t then second (if b.id.equal s then first b else b) else if b.id.equal s then first b else b } := by
  have hids : (f.updateBlock s first).ids = f.ids := ids_updateBlock hfirst
  rw [updateBlock_eq_map (by rw [hids]; exact ht) (by rw [hids]; exact hd), updateBlock_eq_map ht hd]
  simp only [List.map_map]
  congr 1
  refine List.map_congr_left fun b _ => ?_
  have hid : (if b.id.equal s then first b else b).id = b.id := by
    split
    · exact hfirst b
    · rfl
  simp only [Function.comp, hid]

theorem link_eq (h : f.Sound) (e : Edge) :
    f.link e = { f with edges := f.edges ++ [e], blocks := f.blocks.map (Block.joined e) } := by
  unfold link
  rw [updateBlock_updateBlock (f := f.pushEdge e) h.texts h.distinct (by intro _; rfl)]
  simp only [pushEdge]
  congr 1
  refine List.map_congr_left fun b _ => ?_
  by_cases hs : b.id.equal e.source = true <;> by_cases ht : b.id.equal e.target = true <;>
    simp [Block.joined, hs, ht]

theorem removeEdge_eq (h : f.Sound) (he : f.edge? id = some e) :
    (f.removeEdge id).1 =
      { f with edges := f.edges.filter fun x => !x.id.equal id, blocks := f.blocks.map (Block.parted e) } := by
  unfold removeEdge
  rw [he]
  simp only
  rw [updateBlock_updateBlock (f := { f with edges := f.edges.filter fun x => !x.id.equal id }) h.texts h.distinct
    (by intro _; rfl)]
  simp only
  congr 1
  refine List.map_congr_left fun b _ => ?_
  by_cases hs : b.id.equal e.source = true <;> by_cases ht : b.id.equal e.target = true <;>
    simp [Block.parted, hs, ht]

theorem Mirrored.link (h : f.Mirrored) (ha : f.Admits e) : (f.link e).Mirrored := by
  have hsound := h.sound.link ha
  have hends := hsound.textEnds e (by simp [edges_link])
  refine ⟨hsound, ?_⟩
  rw [link_eq h.sound]
  intro b' hb'
  obtain ⟨b, hb, rfl⟩ := List.mem_map.1 hb'
  have hb' := h.sound.texts b.id (List.mem_map_of_mem hb)
  simp only [Block.joined]
  rw [cacheFrom_append, h.caches b hb, hends.1.equal_comm hb', hends.2.equal_comm hb']

theorem Exact.link (h : f.Exact) (ha : f.Admits e) (ht : e.id.IsText) (hnew : e.id ∉ f.edges.map (·.id)) :
    (f.link e).Exact := by
  have hlink := h.mirrored.link ha
  refine ⟨hlink.sound, ?_, ?_, hlink.caches⟩
  · rw [edges_link]
    intro x hx
    rcases List.mem_append.1 hx with hx | hx
    · exact h.edgeTexts x hx
    · obtain rfl := List.mem_singleton.1 hx
      exact ht
  · rw [edges_link, List.map_append]
    refine List.nodup_append.2 ⟨h.edgeIds, by simp, ?_⟩
    rintro a ha' b hb rfl
    obtain rfl : a = e.id := by simpa using hb
    exact hnew ha'

/-- Two edges of a sound flow with the same ends are one. -/
theorem Sound.eq_of_ends (h : f.Sound) {x y : Edge} (hx : x ∈ f.edges) (hy : y ∈ f.edges)
    (hs : x.source = y.source) (ht : x.target = y.target) : x = y :=
  List.inj_on_of_nodup_map h.single hx hy (by rw [hs, ht])

theorem Exact.eq_of_id (h : f.Exact) {x y : Edge} (hx : x ∈ f.edges) (hy : y ∈ f.edges) (hid : x.id = y.id) : x = y :=
  List.inj_on_of_nodup_map h.edgeIds hx hy hid

theorem edge?_spec (he : f.edge? id = some e) : e ∈ f.edges ∧ e.id.equal id = true := by
  unfold edge? at he
  have hfound := List.find?_some he
  exact ⟨List.mem_of_find?_eq_some he, hfound⟩

/-- An identifier that is that of one edge only tells it from others just as its ends do. -/
theorem Sound.id_equal (h : f.Sound) (he : f.edge? id = some e) (honly : ∀ x ∈ f.edges, x.id.equal id = true → x = e)
    {x : Edge} (hx : x ∈ f.edges) : x.id.equal id = (x.source.equal e.source && x.target.equal e.target) := by
  obtain ⟨hmem, hfound⟩ := edge?_spec he
  obtain ⟨hs, ht⟩ := h.textEnds x hx
  rw [Bool.eq_iff_iff, Bool.and_eq_true, hs.equal_iff, ht.equal_iff]
  constructor
  · intro heq
    obtain rfl := honly x hx heq
    exact ⟨rfl, rfl⟩
  · rintro ⟨hs, ht⟩
    obtain rfl := h.eq_of_ends hmem hx hs ht
    exact hfound

/-- In a flow of distinct edges an identifier is that of one edge only. -/
theorem Exact.eq_of_edge? (h : f.Exact) (he : f.edge? id = some e) {x : Edge} (hx : x ∈ f.edges)
    (hid : x.id.equal id = true) : x = e := by
  obtain ⟨hmem, hfound⟩ := edge?_spec he
  rw [(h.edgeTexts e hmem).equal_iff] at hfound
  rw [(h.edgeTexts x hx).equal_iff] at hid
  exact h.eq_of_id hx hmem (hid.symm.trans hfound)

theorem removeEdge_none (he : f.edge? id = none) : f.removeEdge id = (f, none) := by
  simp [removeEdge, he]

/-- Caches go on telling the edges when an edge is taken out that is the only one of its identifier. -/
theorem Mirrored.removeEdge (h : f.Mirrored) (id : Value)
    (honly : ∀ e, f.edge? id = some e → ∀ x ∈ f.edges, x.id.equal id = true → x = e) : (f.removeEdge id).1.Mirrored := by
  cases he : f.edge? id with
  | none =>
    rw [removeEdge_none he]
    exact h
  | some e =>
    refine ⟨h.sound.removeEdge id, ?_⟩
    rw [removeEdge_eq h.sound he]
    intro b' hb'
    obtain ⟨b, hb, rfl⟩ := List.mem_map.1 hb'
    simp only [Block.parted, h.caches b hb]
    refine congrArg₂ Cache.mk ?_ ?_
    · refine (map_filter_filter fun x hx heq => ?_).symm
      rw [h.sound.id_equal he (honly e he) hx, (h.sound.textEnds x hx).2.equal_iff.1 heq]
    · refine (map_filter_filter fun x hx heq => ?_).symm
      rw [h.sound.id_equal he (honly e he) hx, (h.sound.textEnds x hx).1.equal_iff.1 heq]

/-- What an edit with a new mark makes of a flow whose caches tell its edges, their identifiers telling them apart. -/
theorem Mirrored.change (h : f.Mirrored)
    (honly : ∀ id e, f.edge? id = some e → ∀ x ∈ f.edges, x.id.equal id = true → x = e) {edit : Edit}
    (hc : f.Change edit g) (hnew : ∀ m, edit.mark? = some m → drawnId "block" m ∉ f.ids) : g.Mirrored := by
  cases hc with
  | alike ha => exact h.alike ha
  | caches =>
    rw [h.rebuild_self]
    exact h
  | block type position hm => exact h.addBlock (hnew _ hm) type position
  | dropped id => exact h.dropBlock id
  | cleared => exact mirrored_of_empty rfl rfl
  | linked _ ha => exact h.link ha
  | unlinked id => exact h.removeEdge id (honly id)

/-! ## Edits -/

/-- The edges after an edit are old ones, and the one that it wants to add. -/
theorem Change.edges {edit : Edit} (hc : f.Change edit g) {x : Edge} (hx : x ∈ g.edges) :
    x ∈ f.edges ∨ edit.edge? = some x := by
  cases hc with
  | alike ha => exact Or.inl (ha.2 ▸ hx)
  | caches =>
    rw [edges_rebuild] at hx
    exact Or.inl hx
  | block type position hm => exact Or.inl hx
  | dropped id => exact Or.inl (List.mem_filter.1 hx).1
  | cleared => simp [clear] at hx
  | linked he _ =>
    rw [edges_link] at hx
    rcases List.mem_append.1 hx with hx | hx
    · exact Or.inl hx
    · obtain rfl := List.mem_singleton.1 hx
      exact Or.inr he
  | unlinked id => exact Or.inl ((edges_removeEdge f id).subset hx)

/-- The mark names no block and no edge of the flow. -/
def Unused (f : Flow) (m : String) : Prop := drawnId "block" m ∉ f.ids ∧ drawnId "edge" m ∉ f.edges.map (·.id)

/-- A mark stays unused until it is drawn. -/
theorem Unused.change {edit : Edit} {m : String} (hm : f.Unused m) (hdrawn : edit.Drawn) (hc : f.Change edit g)
    (hne : edit.mark? ≠ some m) : g.Unused m := by
  refine ⟨hc.notMem_ids hm.1 hne, fun hmem => ?_⟩
  obtain ⟨x, hx, hid⟩ := List.mem_map.1 hmem
  rcases hc.edges hx with hold | he
  · exact hm.2 (hid ▸ List.mem_map_of_mem hold)
  · obtain ⟨n, hn, heq⟩ := hdrawn.mark_of_edge he
    rw [drawnId_inj.1 (hid.symm.trans heq)] at hne
    exact hne hn

/-- What an edit with a new mark makes of a flow of exact caches has exact caches. -/
theorem Exact.change (h : f.Exact) {edit : Edit} (hdrawn : edit.Drawn) (hc : f.Change edit g)
    (hnew : ∀ m, edit.mark? = some m → f.Unused m) : g.Exact := by
  have hg := h.mirrored.change (fun _ _ he _ hx hid => h.eq_of_edge? he hx hid) hc fun m hm => (hnew m hm).1
  cases hc with
  | alike ha => exact h.of_sublist hg (ha.2 ▸ List.Sublist.refl _)
  | caches => exact h.of_sublist hg (by rw [edges_rebuild])
  | block type position hm => exact h.of_sublist hg (List.Sublist.refl _)
  | dropped id => exact h.of_sublist hg List.filter_sublist
  | cleared => exact exact_of_empty rfl rfl
  | linked he ha =>
    obtain ⟨m, hm, hid⟩ := hdrawn.mark_of_edge he
    exact h.link ha ⟨_, hid⟩ (hid ▸ (hnew m hm).2)
  | unlinked id => exact h.of_sublist hg (edges_removeEdge f id)

/-- **Edits keep caches exact** all the way if their marks are distinct and unused. -/
theorem Exact.stages (h : f.Exact) {edits : List Edit} (hdrawn : ∀ edit ∈ edits, edit.Drawn)
    (hmarks : (marks edits).Nodup) (hnew : ∀ m ∈ marks edits, f.Unused m) : ∀ g ∈ f.stages edits, g.Exact :=
  stages_induction Exact (fun _ => True) Edit.Drawn Unused (fun hf _ hd hc hm => hf.change hd hc hm)
    (fun hd hc hm hne => hm.change hd hc hne) hdrawn hmarks hnew (fun _ _ => trivial) h

theorem Exact.performAll (h : f.Exact) {edits : List Edit} (hdrawn : ∀ edit ∈ edits, edit.Drawn)
    (hmarks : (marks edits).Nodup) (hnew : ∀ m ∈ marks edits, f.Unused m) : (f.performAll edits).Exact :=
  h.stages hdrawn hmarks hnew _ (performAll_mem_stages f edits)

theorem Exact.cached (h : f.Exact) : f.Cached := by
  refine ⟨fun b hb => ?_, h.mirrored.rebuild_self⟩
  rw [h.caches b hb]
  exact ⟨rfl, rfl⟩

/-- Edits of an empty flow that bring no edges of their own make one of exact caches. -/
theorem exact_performAll (hb : f.blocks = []) (he : f.edges = []) {edits : List Edit}
    (hdrawn : ∀ edit ∈ edits, edit.Drawn) (hfresh : (marks edits).Nodup) : (f.performAll edits).Exact :=
  (exact_of_empty hb he).performAll hdrawn hfresh (by simp [Unused, ids, hb, he])

/-- **The caches of every flow that edits make are exact**, order included, as long as edges only come through connections
and the marks drawn are fresh, as those are that are drawn in a workspace; caches made anew are the same. -/
theorem caches_after_edits (id : Value) (edits : List Edit) (hdrawn : ∀ edit ∈ edits, edit.Drawn) :
    ((marks edits).Nodup → (performAll { id } edits).Cached) ∧
      ∀ w : Workspace, w.flow = { id } → (w.stepAll edits).flow.Cached := by
  refine ⟨fun hfresh => (exact_performAll rfl rfl hdrawn hfresh).cached, fun w hw => ?_⟩
  rw [Workspace.stepAll_flow, hw]
  exact (exact_performAll rfl rfl (drawn_numbered hdrawn w.serial) (marks_numbered w.serial edits)).cached

/-- Blocks joined in a triangle of which one side is taken out again, a connection back that is refused, and a fourth block
that is removed together with its edge. -/
def sketch : List Edit :=
  [.addBlock "1" (.text "variable") .null, .addBlock "2" (.text "if-else") .null, .addBlock "3" (.text "return") .null,
    .connect "4" (.text "block-1") (.text "block-3"), .connect "5" (.text "block-1") (.text "block-2"),
    .connect "6" (.text "block-2") (.text "block-3"), .connect "7" (.text "block-3") (.text "block-1"),
    .removeEdge (.text "edge-4"), .addBlock "8" (.text "return") .null,
    .connect "9" (.text "block-1") (.text "block-8"), .removeBlock (.text "block-8")]

theorem caches_after_sketch :
    (∀ edit ∈ sketch, edit.Drawn) ∧ (marks sketch).Nodup ∧ (performAll { id := .text "flow-1" } sketch).Cached := by
  have hdrawn : ∀ edit ∈ sketch, edit.Drawn := by simp [sketch, Edit.Drawn]
  exact ⟨hdrawn, by decide, (caches_after_edits _ _ hdrawn).1 (by decide)⟩

end Flow

end BlockFlow
