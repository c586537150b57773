import BlockFlow.Proofs.Answers
import BlockFlow.Proofs.Editing
import BlockFlow.Store.Basic

/-!
Flows as a service holds them. All that clients send was read from JSON, and only parameters get names that are no texts; an
edit keeps this, and what is imported has it from the start.

* `Entries.Served`: parameters as they are set one by one.
* `Block.Served`, `Edge.Served`, `Flow.Served`: flows made of values that were read, with identifiers of a sort.
* `Flow.Served.addBlock`, `Flow.Served.setParam`, `Flow.Served.link`, …: edits of such flows.
* `Flow.importText_served`: **what is imported is such a flow.**
* `Flow.Served.writable`, `Flow.Served.sendable_document`: such a flow can be exported, and it can be answered exactly if the
  names of the parameters of each block are alike.
-/

namespace BlockFlow

/-! ## Parameters -/

/-- Values under names that can be written, no two of them the same. -/
structure Entries.Served (es : List (Value × Value)) : Prop where
  keys : ∀ e ∈ es, e.1.IsScalar
  values : ∀ e ∈ es, e.2.IsRead
  distinct : es.Pairwise fun a b => Value.same a.1 b.1 = false

namespace Entries

variable {es : List (Value × Value)}

theorem Served.nil : Entries.Served [] := ⟨by simp, by simp, .nil⟩

/-- A value is put under a name. -/
theorem Served.insert (h : Entries.Served es) {k v : Value} (hk : k.IsScalar) (hv : v.IsRead) :
    Entries.Served (Entries.insert es k v) := by
  unfold Entries.insert
  split
  · refine ⟨List.forall_mem_map.2 fun e he => ?_, List.forall_mem_map.2 fun e he => ?_, ?_⟩
    · split
      · exact h.keys e he
      · exact h.keys e he
    · split
      · exact hv
      · exact h.values e he
    · refine List.pairwise_map.2 (h.distinct.imp fun {a b} hab => ?_)
      split <;> split <;> exact hab
  · rename_i hnew
    refine ⟨?_, ?_, ?_⟩
    · exact List.forall_mem_append.2 ⟨h.keys, by simpa using hk⟩
    · exact List.forall_mem_append.2 ⟨h.values, by simpa using hv⟩
    · refine List.pairwise_append.2 ⟨h.distinct, List.pairwise_singleton _ _, fun a ha b hb => ?_⟩
      obtain rfl := List.mem_singleton.1 hb
      have hnone := List.any_eq_false.1 (Bool.not_eq_true _ ▸ hnew) a ha
      simpa using hnone

end Entries

namespace Value

/-- What was read and has a key can be written as a name. -/
theorem IsRead.isScalar {v : Value} (h : v.IsRead) {k : Key} (hk : v.key = .ok k) : v.IsScalar := by
  cases h with
  | null | bool | int | real | text => exact ⟨_, rfl⟩
  | list | object => cases hk

theorem IsRead.served {es : List (Value × Value)} (h : (Value.dict es).IsRead) : Entries.Served es := by
  obtain ⟨fields, rfl, hnames, hvalues⟩ := Json.isRead_dict.1 h
  refine ⟨List.forall_mem_map.2 fun f _ => ⟨f.1, rfl⟩, List.forall_mem_map.2 hvalues, ?_⟩
  rw [List.pairwise_map]
  refine (List.pairwise_map.1 hnames).imp fun {f g} hne => ?_
  rw [Json.same_text]
  exact beq_false_of_ne hne

theorem IsRead.parts {v : Value} (h : v.IsRead) {xs : List Value} (hxs : v.parts? = some xs) : ∀ x ∈ xs, x.IsRead := by
  cases h with
  | null | bool | int | real => cases hxs
  | text s =>
    obtain rfl := Option.some.inj hxs
    exact List.forall_mem_map.2 fun c _ => .text _
  | list items =>
    obtain rfl := Option.some.inj hxs
    exact items
  | object =>
    obtain rfl := Option.some.inj hxs
    exact List.forall_mem_map.2 (List.forall_mem_map.2 fun f _ => .text _)

theorem IsRead.toList {v : Value} (h : v.IsRead) {xs : List Value} (hxs : v.toList = .ok xs) : ∀ x ∈ xs, x.IsRead := by
  unfold Value.toList at hxs
  split at hxs
  · rename_i parts hparts
    obtain rfl := Except.ok.inj hxs
    exact h.parts hparts
  · cases hxs

/-- Pairs are put into parameters one after the other. -/
theorem served_mergePairs {entries : List (Value × Value)} (h : Entries.Served entries) (position : Nat)
    {items : List Value}
    (hitems : ∀ x ∈ items, x.IsRead) : Entries.Served (mergePairs entries position items).1 := by
  fun_induction mergePairs entries position items with
  | case1 => exact h
  | case2 => exact h
  | case3 => exact h
  | case4 entries position v rest a b hpair more hmore ih =>
    obtain ⟨hv, hrest⟩ := List.forall_mem_cons.1 hitems
    refine ih ?_ hrest
    have hparts : ∀ x ∈ [a, b], x.IsRead := by
      unfold toPair at hpair
      split at hpair
      · cases hpair
      · rename_i hparts
        obtain ⟨rfl, rfl⟩ := Prod.mk.inj (Except.ok.inj hpair)
        exact hv.parts hparts
      · cases hpair
    unfold insertEntry at hmore
    split at hmore
    · rename_i k hk
      obtain rfl := Except.ok.inj hmore
      exact h.insert ((hparts a (by simp)).isScalar hk) (hparts b (by simp))
    · cases hmore

theorem IsRead.toEntries {v : Value} (h : v.IsRead) {es : List (Value × Value)} (hes : v.toEntries = .ok es) :
    Entries.Served es := by
  unfold Value.toEntries at hes
  split at hes
  · obtain rfl := Except.ok.inj hes
    exact h.served
  · rename_i hdict
    split at hes
    · rename_i entries u hmerge
      obtain rfl := Except.ok.inj hes
      rw [mergeInto.eq_2 _ _ hdict] at hmerge
      split at hmerge
      · cases hmerge
      · rename_i xs hxs
        have hserved := served_mergePairs .nil 0 (h.parts hxs)
        rwa [hmerge] at hserved
    · cases hes

/-! ## Fields of a document that was read -/

variable {es : List (Value × Value)}

theorem IsRead.field? (h : (Value.dict es).IsRead) {name : String} {v : Value} (hv : Entries.field? es name = some v) :
    v.IsRead := by
  obtain ⟨e, he, rfl⟩ := Option.map_eq_some_iff.1 hv
  exact h.served.values e (List.mem_of_find?_eq_some he)

theorem IsRead.fieldD (h : (Value.dict es).IsRead) (name : String) {other : Value} (hother : other.IsRead) :
    (Entries.fieldD es name other).IsRead := by
  unfold Entries.fieldD
  cases hv : Entries.field? es name with
  | none => exact hother
  | some v => exact h.field? hv

theorem IsRead.orElse {v other : Value} (h : v.IsRead) (hother : other.IsRead) : (v.orElse other).IsRead := by
  unfold Value.orElse
  split
  · exact h
  · exact hother

theorem IsRead.get {v : Value} (h : v.IsRead) {name : String} {other x : Value} (hother : other.IsRead)
    (hx : v.get name other = .ok x) : x.IsRead := by
  cases v with
  | dict es =>
    obtain rfl := Except.ok.inj hx
    exact h.fieldD name hother
  | _ => cases hx

theorem IsRead.require {v : Value} (h : v.IsRead) {name : String} {x : Value} (hx : v.require name = .ok x) :
    x.IsRead := by
  cases v with
  | dict es =>
    rw [Value.require, Value.item, key_text] at hx
    dsimp only at hx
    split at hx
    · rename_i y hy
      obtain rfl := Except.ok.inj hx
      exact h.field? hy
    · cases hx
  | _ => cases hx

end Value

/-! ## Blocks, edges and flows -/

/-- A block made of values that were read, with identifiers that pass a test. -/
structure Block.Served (I : Value → Prop) (b : Block) : Prop where
  id : I b.id
  type : b.type.IsRead
  position : ∃ x y, b.position = .place x y
  params : ∃ es, b.params = .dict es ∧ Entries.Served es
  inputs : ∀ v ∈ b.cache.inputs, I v
  outputs : ∀ v ∈ b.cache.outputs, I v

/-- An edge of such a flow. -/
structure Edge.Served (I : Value → Prop) (e : Edge) : Prop where
  given : e.id.truthy = true
  id : e.id.IsRead
  source : I e.source
  target : I e.target
  sourceHandle : e.sourceHandle.IsRead
  targetHandle : e.targetHandle.IsRead

/-- A flow made of values that were read, with identifiers that pass a test. -/
structure Flow.Served (I : Value → Prop) (f : Flow) : Prop where
  given : f.id.truthy = true
  id : I f.id
  name : f.name.IsRead
  blocks : ∀ b ∈ f.blocks, b.Served I
  edges : ∀ e ∈ f.edges, e.Served I
  createdAt : f.createdAt.IsRead
  updatedAt : f.updatedAt.IsRead

variable {I J : Value → Prop}

theorem Block.Served.mono (hIJ : ∀ v, I v → J v) {b : Block} (h : b.Served I) : b.Served J :=
  ⟨hIJ _ h.id, h.type, h.position, h.params, fun v hv => hIJ v (h.inputs v hv), fun v hv => hIJ v (h.outputs v hv)⟩

theorem Edge.Served.mono (hIJ : ∀ v, I v → J v) {e : Edge} (h : e.Served I) : e.Served J :=
  ⟨h.given, h.id, hIJ _ h.source, hIJ _ h.target, h.sourceHandle, h.targetHandle⟩

theorem Flow.Served.mono (hIJ : ∀ v, I v → J v) {f : Flow} (h : f.Served I) : f.Served J :=
  ⟨h.given, hIJ _ h.id, h.name, fun b hb => (h.blocks b hb).mono hIJ, fun e he => (h.edges e he).mono hIJ, h.createdAt,
    h.updatedAt⟩

namespace Flow

/-- What is in a list of which the first element that passes a test is changed. -/
theorem forall_modifyFirst {α : Type} {P : α → Prop} {test : α → Bool} {change : α → α} {xs : List α} (h : ∀ x ∈ xs, P x)
    (hchange : ∀ x ∈ xs, test x = true → P (change x)) : ∀ x ∈ modifyFirst test change xs, P x := by
  induction xs with
  | nil => exact h
  | cons x xs ih =>
    obtain ⟨hx, hxs⟩ := List.forall_mem_cons.1 h
    obtain ⟨hcx, hcxs⟩ := List.forall_mem_cons.1 hchange
    rw [modifyFirst]
    split
    · rename_i htest
      exact List.forall_mem_cons.2 ⟨hcx htest, hxs⟩
    · exact List.forall_mem_cons.2 ⟨hx, ih hxs hcxs⟩

namespace Served

variable {f : Flow} (h : f.Served I)

include h

theorem updateBlock {id : Value} {change : Block → Block}
    (hchange : ∀ b ∈ f.blocks, b.Served I → (change b).Served I) : (f.updateBlock id change).Served I :=
  ⟨h.given, h.id, h.name, forall_modifyFirst h.blocks fun b hb _ => hchange b hb (h.blocks b hb), h.edges, h.createdAt,
    h.updatedAt⟩

theorem rename (name : String) : Flow.Served I { f with name := .text name } :=
  ⟨h.given, h.id, .text name, h.blocks, h.edges, h.createdAt, h.updatedAt⟩

theorem clear : f.clear.Served I :=
  ⟨h.given, h.id, h.name, List.forall_mem_nil _, List.forall_mem_nil _, h.createdAt,
    h.updatedAt⟩

theorem addBlock {id type position : Value} (hid : I id) (htype : type.IsRead)
    (hposition : position = .null ∨ ∃ x y, position = .place x y) : (f.addBlock id type position).Served I := by
  have hplace : ∃ x y, position.orElse defaultPosition = .place x y := by
    rcases hposition with rfl | ⟨x, y, rfl⟩
    · exact ⟨_, _, rfl⟩
    · exact ⟨x, y, rfl⟩
  have hb : (Block.fresh id type (position.orElse defaultPosition)).Served I :=
    ⟨hid, htype, hplace, ⟨[], rfl, .nil⟩, by simp [Block.fresh], by simp [Block.fresh]⟩
  exact ⟨h.given, h.id, h.name, List.forall_mem_append.2 ⟨h.blocks, by simpa using hb⟩, h.edges, h.createdAt, h.updatedAt⟩

theorem setParam {id key value : Value} (hkey : key.IsRead) (hvalue : value.IsRead) {g : Flow}
    (hg : f.setParam id key value = .ok g) : g.Served I := by
  unfold Flow.setParam at hg
  split at hg
  · obtain rfl := Except.ok.inj hg
    exact h
  · rename_i b hb
    split at hg
    · cases hg
    · rename_i params hassign
      obtain rfl := Except.ok.inj hg
      obtain ⟨es, hes, hserved⟩ := (h.blocks b (List.mem_of_find?_eq_some hb)).params
      have hparams : ∃ es, params = .dict es ∧ Entries.Served es := by
        rw [hes, Value.assign, Value.insertEntry] at hassign
        cases hk : key.key with
        | error fault =>
          rw [hk] at hassign
          cases hassign
        | ok k =>
          rw [hk] at hassign
          exact ⟨_, (Except.ok.inj hassign).symm, hserved.insert (hkey.isScalar hk) hvalue⟩
      exact h.updateBlock fun c _ hc => ⟨hc.id, hc.type, hc.position, hparams, hc.inputs, hc.outputs⟩

omit h in
theorem place_of_readPosition {position p : Value} (h : readPosition position = .ok p) : ∃ x y, p = .place x y := by
  obtain ⟨first, -, h⟩ := bind_eq_ok.1 h
  obtain ⟨x, -, h⟩ := bind_eq_ok.1 h
  obtain ⟨second, -, h⟩ := bind_eq_ok.1 h
  obtain ⟨y, -, h⟩ := bind_eq_ok.1 h
  exact ⟨x, y, (Except.ok.inj h).symm⟩

theorem move {id position : Value} {moved : Flow × Bool} (hmoved : f.move id position = .ok moved) :
    moved.1.Served I := by
  unfold Flow.move at hmoved
  split at hmoved
  · obtain rfl := Except.ok.inj hmoved
    exact h
  · split at hmoved
    · cases hmoved
    · rename_i p hp
      obtain rfl := Except.ok.inj hmoved
      have hplace := place_of_readPosition hp
      exact h.updateBlock fun c _ hc => ⟨hc.id, hc.type, hplace, hc.params, hc.inputs, hc.outputs⟩

theorem dropBlock (id : Value) : (f.dropBlock id).Served I := by
  refine ⟨h.given, h.id, h.name, List.forall_mem_map.2 fun b hb => ?_, fun e he => ?_, h.createdAt, h.updatedAt⟩
  · have hb := h.blocks b (List.mem_filter.1 hb).1
    exact ⟨hb.id, hb.type, hb.position, hb.params, fun v hv => hb.inputs v (List.mem_filter.1 hv).1,
      fun v hv => hb.outputs v (List.mem_filter.1 hv).1⟩
  · exact h.edges e (List.mem_filter.1 he).1

theorem link {e : Edge} (he : e.Served I) : (f.link e).Served I := by
  have hpush : (f.pushEdge e).Served I :=
    ⟨h.given, h.id, h.name, h.blocks, List.forall_mem_append.2 ⟨h.edges, by simpa using he⟩, h.createdAt, h.updatedAt⟩
  refine (hpush.updateBlock fun b _ hb => ?_).updateBlock fun b _ hb => ?_
  · exact ⟨hb.id, hb.type, hb.position, hb.params, hb.inputs,
      List.forall_mem_append.2 ⟨hb.outputs, by simpa using he.target⟩⟩
  · exact ⟨hb.id, hb.type, hb.position, hb.params,
      List.forall_mem_append.2 ⟨hb.inputs, by simpa using he.source⟩, hb.outputs⟩

theorem removeEdge (id : Value) : (f.removeEdge id).1.Served I := by
  unfold Flow.removeEdge
  split
  · exact h
  · have hkept : Flow.Served I { f with edges := f.edges.filter fun x => !x.id.equal id } :=
      ⟨h.given, h.id, h.name, h.blocks, fun e he => h.edges e (List.mem_filter.1 he).1, h.createdAt, h.updatedAt⟩
    refine (hkept.updateBlock fun b _ hb => ?_).updateBlock fun b _ hb => ?_
    · exact ⟨hb.id, hb.type, hb.position, hb.params, hb.inputs, fun v hv => hb.outputs v (List.mem_filter.1 hv).1⟩
    · exact ⟨hb.id, hb.type, hb.position, hb.params, fun v hv => hb.inputs v (List.mem_filter.1 hv).1, hb.outputs⟩

theorem stamped (now : String) : (f.stamped now).Served I :=
  ⟨h.given, h.id, h.name, h.blocks, h.edges, h.createdAt.orElse (.text now), .text now⟩

end Served

theorem served_fresh {id name : Value} (hgiven : id.truthy = true) (hid : I id) (hname : name.IsRead) :
    Flow.Served I { id, name } :=
  ⟨hgiven, hid, hname, List.forall_mem_nil _, List.forall_mem_nil _, .null, .null⟩

end Flow

/-! ## What is imported -/

theorem Act.bind_eq_ok {σ α β : Type} {step : Act σ α} {next : α → Act σ β} {s s' : σ} {b : β} :
    (step >>= next) s = (.ok b, s') ↔ ∃ a m, step s = (.ok a, m) ∧ next a m = (.ok b, s') := by
  rw [Act.bind_apply]
  rcases step s with ⟨fault | a, m⟩
  · constructor
    · rintro ⟨⟩
    · rintro ⟨_, _, ⟨⟩, _⟩
  · constructor
    · exact fun h => ⟨a, m, rfl, h⟩
    · rintro ⟨_, _, ⟨⟩, h⟩
      exact h

theorem Act.ofExcept_bind_eq_ok {σ α β : Type} {outcome : Except Fault α} {next : α → Act σ β} {s s' : σ} {b : β} :
    (Act.ofExcept outcome >>= next) s = (.ok b, s') ↔ ∃ a, outcome = .ok a ∧ next a s = (.ok b, s') := by
  rw [Act.bind_eq_ok]
  simp only [Act.ofExcept_apply]
  constructor
  · rintro ⟨a, m, heq, h⟩
    obtain ⟨rfl, rfl⟩ := Prod.mk.inj heq
    exact ⟨a, rfl, h⟩
  · rintro ⟨a, rfl, h⟩
    exact ⟨a, s, rfl, h⟩

theorem Block.served_ofDocument {doc : Value} (h : doc.IsRead) {b : Block} (hb : Block.ofDocument doc = .ok b) :
    b.Served Value.IsRead := by
  have hempty : (Value.dict []).IsRead := Json.isRead_empty
  have hnone : (Value.list []).IsRead := .list (List.forall_mem_nil _)
  obtain ⟨position, -, hb⟩ := bind_eq_ok.1 hb
  obtain ⟨connections, hconnections, hb⟩ := bind_eq_ok.1 hb
  obtain ⟨id, hid, hb⟩ := bind_eq_ok.1 hb
  obtain ⟨type, htype, hb⟩ := bind_eq_ok.1 hb
  obtain ⟨place, hplace, hb⟩ := bind_eq_ok.1 hb
  obtain ⟨given, hgiven, hb⟩ := bind_eq_ok.1 hb
  obtain ⟨params, hparams, hb⟩ := bind_eq_ok.1 hb
  obtain ⟨sources, hsources, hb⟩ := bind_eq_ok.1 hb
  obtain ⟨inputs, hinputs, hb⟩ := bind_eq_ok.1 hb
  obtain ⟨targets, htargets, hb⟩ := bind_eq_ok.1 hb
  obtain ⟨outputs, houtputs, hb⟩ := bind_eq_ok.1 hb
  obtain rfl := Except.ok.inj hb
  have hjoined : (connections.orElse (.dict [])).IsRead := (h.get .null hconnections).orElse hempty
  exact ⟨h.require hid, h.require htype, Flow.Served.place_of_readPosition hplace,
    ⟨params, rfl, ((h.get .null hgiven).orElse hempty).toEntries hparams⟩, (hjoined.get hnone hsources).toList hinputs,
    (hjoined.get hnone htargets).toList houtputs⟩

theorem truthy_drawnId (sort mark : String) : (drawnId sort mark).truthy = true := by
  simp [drawnId, Value.truthy]

/-- An edge is read from the fields of its document; an identifier that is drawn stands for one that is missing. -/
theorem Edge.ofDocument_eq_ok {doc : Value} {n n' : Nat} {e : Edge} (h : Edge.ofDocument doc n = (.ok e, n')) :
    ((doc.get "id" .null = .ok e.id ∧ e.id.truthy = true) ∨ ∃ mark, e.id = drawnId "edge" mark) ∧
      doc.require "source" = .ok e.source ∧ doc.require "target" = .ok e.target ∧
      doc.get "sourceHandle" (.text "output") = .ok e.sourceHandle ∧
      doc.get "targetHandle" (.text "input") = .ok e.targetHandle := by
  obtain ⟨given, hgiven, h⟩ := Act.ofExcept_bind_eq_ok.1 h
  obtain ⟨id, hid, m, h⟩ : ∃ id : Value,
      ((doc.get "id" .null = .ok id ∧ id.truthy = true) ∨ ∃ mark, id = drawnId "edge" mark) ∧ ∃ m, (do
        let source ← Act.ofExcept (doc.require "source")
        let target ← Act.ofExcept (doc.require "target")
        let sourceHandle ← Act.ofExcept (doc.get "sourceHandle" (.text "output"))
        let targetHandle ← Act.ofExcept (doc.get "targetHandle" (.text "input"))
        return Edge.mk id source target sourceHandle targetHandle : Drawing Edge) m = (.ok e, n') := by
    split at h
    · rename_i htruthy
      exact ⟨given, Or.inl ⟨hgiven, htruthy⟩, n, h⟩
    · exact ⟨_, Or.inr ⟨_, rfl⟩, n + 1, h⟩
  obtain ⟨source, hsource, h⟩ := Act.ofExcept_bind_eq_ok.1 h
  obtain ⟨target, htarget, h⟩ := Act.ofExcept_bind_eq_ok.1 h
  obtain ⟨sourceHandle, hsourceHandle, h⟩ := Act.ofExcept_bind_eq_ok.1 h
  obtain ⟨targetHandle, htargetHandle, h⟩ := Act.ofExcept_bind_eq_ok.1 h
  obtain rfl := Except.ok.inj (Prod.mk.inj h).1
  exact ⟨hid, hsource, htarget, hsourceHandle, htargetHandle⟩

theorem Edge.served_ofDocument {doc : Value} (h : doc.IsRead) {n n' : Nat} {e : Edge}
    (he : Edge.ofDocument doc n = (.ok e, n')) : e.Served Value.IsRead := by
  obtain ⟨hid, hsource, htarget, hsourceHandle, htargetHandle⟩ := Edge.ofDocument_eq_ok he
  obtain ⟨htruthy, hread⟩ : e.id.truthy = true ∧ e.id.IsRead := by
    rcases hid with ⟨hgiven, htruthy⟩ | ⟨mark, hid⟩
    · exact ⟨htruthy, h.get .null hgiven⟩
    · rw [hid]
      exact ⟨truthy_drawnId _ _, .text _⟩
  exact ⟨htruthy, hread, h.require hsource, h.require htarget, h.get (.text _) hsourceHandle,
    h.get (.text _) htargetHandle⟩

theorem Edge.served_ofDocuments {docs : List Value} (h : ∀ doc ∈ docs, doc.IsRead) {n n' : Nat} {edges : List Edge}
    (hedges : Edge.ofDocuments docs n = (.ok edges, n')) : ∀ e ∈ edges, e.Served Value.IsRead := by
  induction docs generalizing n n' edges with
  | nil =>
    obtain rfl := Except.ok.inj (Prod.mk.inj hedges).1
    exact List.forall_mem_nil _
  | cons doc docs ih =>
    obtain ⟨hdoc, hdocs⟩ := List.forall_mem_cons.1 h
    obtain ⟨e, m, he, hedges⟩ := Act.bind_eq_ok.1 hedges
    obtain ⟨rest, m', hrest, hedges⟩ := Act.bind_eq_ok.1 hedges
    obtain rfl := Except.ok.inj (Prod.mk.inj hedges).1
    exact List.forall_mem_cons.2 ⟨Edge.served_ofDocument hdoc he, ih hdocs hrest⟩

namespace Flow

theorem served_updateLast {k : Key} {change : Block → Block} {blocks : List (Key × Block)}
    (h : ∀ p ∈ blocks, p.2.Served I) (hchange : ∀ b, b.Served I → (change b).Served I) :
    ∀ p ∈ updateLast k change blocks, p.2.Served I := by
  intro p hp
  refine forall_modifyFirst (P := fun p : Key × Block => p.2.Served I) (fun q hq => h q (List.mem_reverse.1 hq))
    (fun q hq _ => hchange q.2 (h q (List.mem_reverse.1 hq))) p (List.mem_reverse.1 hp)

theorem served_rememberAll {blocks : List (Key × Block)} {edges : List Edge} (h : ∀ p ∈ blocks, p.2.Served I)
    (hedges : ∀ e ∈ edges, e.Served I) : ∀ p ∈ (rememberAll blocks edges).1, p.2.Served I := by
  fun_induction rememberAll blocks edges with
  | case1 => exact h
  | case2 => exact h
  | case3 blocks e rest source _ out fault _ =>
    show ∀ p ∈ out, p.2.Served I
    refine served_updateLast h fun b hb => ?_
    exact ⟨hb.id, hb.type, hb.position, hb.params, hb.inputs,
      List.forall_mem_append.2 ⟨hb.outputs, by simpa using (hedges e List.mem_cons_self).target⟩⟩
  | case4 blocks e rest source _ out target _ ih =>
    obtain ⟨he, hrest⟩ := List.forall_mem_cons.1 hedges
    refine ih (served_updateLast (served_updateLast h fun b hb => ?_) fun b hb => ?_) hrest
    · exact ⟨hb.id, hb.type, hb.position, hb.params, hb.inputs,
        List.forall_mem_append.2 ⟨hb.outputs, by simpa using he.target⟩⟩
    · exact ⟨hb.id, hb.type, hb.position, hb.params, List.forall_mem_append.2 ⟨hb.inputs, by simpa using he.source⟩,
        hb.outputs⟩

theorem Served.rebuild {f : Flow} (h : f.Served I) : f.rebuild.1.Served I := by
  unfold Flow.rebuild
  split
  · exact h
  · rename_i keyed hkeyed
    have hblocks : ∀ p ∈ keyed.map fun p => (p.1, { p.2 with cache := {} }), p.2.Served I := by
      refine List.forall_mem_map.2 fun p hp => ?_
      have hmem : p.2 ∈ f.blocks := map_snd_of_mapM_key hkeyed ▸ List.mem_map_of_mem hp
      have hb := h.blocks p.2 hmem
      exact ⟨hb.id, hb.type, hb.position, hb.params, List.forall_mem_nil _, List.forall_mem_nil _⟩
    exact ⟨h.given, h.id, h.name, List.forall_mem_map.2 (served_rememberAll hblocks h.edges), h.edges, h.createdAt,
      h.updatedAt⟩

/-- A document that was read and passes the checks is that of a served flow. -/
theorem served_ofDocument {entries : List (Value × Value)} {blockDocs edgeDocs : List Value}
    (hread : (Value.dict entries).IsRead) (h : Checked entries blockDocs edgeDocs) {n n' : Nat} {f : Flow}
    (hf : ofDocument (.dict entries) n = (.ok f, n')) : f.Served Value.IsRead := by
  obtain ⟨id, hid⟩ := h.exists_id
  obtain ⟨edges, m, hedges⟩ := Edge.ofDocuments_ok h.ended n
  have hblockDocs : ∀ doc ∈ blockDocs, doc.IsRead := (hread.field? h.blocks).parts rfl
  have hedgeDocs : ∀ doc ∈ edgeDocs, doc.IsRead := (hread.field? h.edges).parts rfl
  rw [ofDocument_apply h hid hedges] at hf
  cases hblocks : blockDocs.mapM Block.ofDocument with
  | error fault =>
    rw [hblocks] at hf
    cases hf
  | ok blocks =>
    have hgiven := h.id
    rw [Entries.fieldD_eq hid] at hgiven
    have hmade : Flow.Served Value.IsRead ⟨id, Entries.fieldD entries "name" (.text "My Flow"), blocks, edges,
        Entries.fieldD entries "createdAt" .null, Entries.fieldD entries "updatedAt" .null⟩ := by
      refine ⟨hgiven, hread.field? hid, hread.fieldD _ (.text _), fun b hb => ?_, Edge.served_ofDocuments hedgeDocs hedges,
        hread.fieldD _ .null, hread.fieldD _ .null⟩
      obtain ⟨doc, hdoc, hb⟩ := exists_mem_of_forall₂ (forall₂_of_mapM_ok hblocks).flip b hb
      exact Block.served_ofDocument (hblockDocs doc hdoc) hb
    rw [hblocks] at hf
    have hf := (Prod.mk.inj hf).1
    split at hf
    · have hrebuilt := hmade.rebuild
      generalize Flow.rebuild _ = edited at hf hrebuilt
      obtain ⟨rebuilt, fault | u⟩ := edited
      · cases hf
      · obtain rfl := Except.ok.inj hf
        exact hrebuilt
    · obtain rfl := Except.ok.inj hf
      exact hmade

/-- What is imported is read from a document that passes the checks. -/
theorem importText_eq_ok {source : Value} {n n' : Nat} {f : Flow} (h : importText source n = (.ok f, n')) :
    ∃ entries blockDocs edgeDocs, Json.parse source = .ok (.dict entries) ∧ Checked entries blockDocs edgeDocs ∧
      ofDocument (.dict entries) n = (.ok f, n') := by
  rw [importText] at h
  cases hparse : Json.parse source with
  | error fault =>
    rw [hparse] at h
    cases h
  | ok doc =>
    rw [hparse] at h
    obtain ⟨⟨⟩, hcheck, h⟩ := Act.ofExcept_bind_eq_ok.1 h
    obtain ⟨entries, blockDocs, edgeDocs, rfl, hchecked⟩ := checkData_eq_ok.1 hcheck
    refine ⟨entries, blockDocs, edgeDocs, rfl, hchecked, ?_⟩
    rw [Act.tryCatch_apply] at h
    rcases hmade : ofDocument (.dict entries) n with ⟨fault | g, m⟩
    · rw [hmade] at h
      cases h
    · rw [hmade] at h
      exact h

/-- **What is imported is a served flow.** -/
theorem importText_served {source : Value} {n n' : Nat} {f : Flow} (h : importText source n = (.ok f, n')) :
    f.Served Value.IsRead := by
  obtain ⟨entries, blockDocs, edgeDocs, hparse, hchecked, hmade⟩ := importText_eq_ok h
  exact served_ofDocument (Json.parse_isRead hparse) hchecked hmade

end Flow

/-! ## What becomes of served flows -/

theorem Value.IsText.isRead {v : Value} (h : v.IsText) : v.IsRead := by
  obtain ⟨s, rfl⟩ := h
  exact .text s

/-- The names of the parameters are alike. -/
def Block.Orderly (b : Block) : Prop := ∃ es, b.params = .dict es ∧ es.Pairwise fun x y => Value.Alike x.1 y.1

namespace Block.Served

variable {b : Block} (h : b.Served Value.IsRead)

include h

theorem framed : b.Framed := by
  obtain ⟨es, hparams, -⟩ := h.params
  exact ⟨h.position, es, hparams⟩

theorem writable : b.Writable := by
  obtain ⟨es, hparams, hserved⟩ := h.params
  have hdict : (Value.dict es).Writable := .dict hserved.keys fun e he => (hserved.values e he).writable
  exact ⟨h.framed, h.id.writable, h.type.writable, hparams ▸ hdict, fun v hv => (h.inputs v hv).writable,
    fun v hv => (h.outputs v hv).writable⟩

/-- A block can be answered exactly if the names of its parameters are alike. -/
theorem sendable {doc : Value} (hdoc : b.document = .ok doc) : doc.Sendable ↔ b.Orderly := by
  obtain ⟨x, y, hposition⟩ := h.position
  obtain ⟨es, hparams, hserved⟩ := h.params
  obtain rfl := Except.ok.inj ((document_eq hposition hparams).symm.trans hdoc)
  have hnumber (x : Binary64) : (Value.real x).Sendable := ⟨_, rfl⟩
  have hplace : (Value.object [("x", .real x), ("y", .real y)]).Sendable := Value.sendable_object.2 (by simp [hnumber])
  have hlinks : (Value.object [("inputs", .list b.cache.inputs), ("outputs", .list b.cache.outputs)]).Sendable := by
    refine Value.sendable_object.2 ?_
    simp only [List.forall_mem_cons, List.not_mem_nil, false_implies, implies_true, and_true]
    exact ⟨Value.sendable_list.2 fun v hv => (h.inputs v hv).sendable,
      Value.sendable_list.2 fun v hv => (h.outputs v hv).sendable⟩
  have hdict : (Value.dict es).Sendable ↔ b.Orderly := by
    rw [Value.sendable_dict hserved.keys, and_iff_left fun e he => (hserved.values e he).sendable]
    constructor
    · exact fun halike => ⟨es, hparams, halike⟩
    · rintro ⟨es', hparams', halike⟩
      obtain rfl := Value.dict.inj (hparams.symm.trans hparams')
      exact halike
  rw [Value.sendable_object, documentFields]
  simp only [List.forall_mem_cons, List.not_mem_nil, false_implies, implies_true, and_true, h.id.sendable, h.type.sendable,
    hplace, hlinks, hdict, true_and]

end Block.Served

theorem Edge.Served.writable {e : Edge} (h : e.Served Value.IsRead) : e.Writable :=
  ⟨h.given, h.id.writable, h.source.writable, h.target.writable, h.sourceHandle.writable, h.targetHandle.writable⟩

theorem Edge.Served.sendable {e : Edge} (h : e.Served Value.IsRead) : e.document.Sendable := by
  refine Value.sendable_object.2 ?_
  simp only [List.forall_mem_cons, List.not_mem_nil, false_implies, implies_true, and_true]
  exact ⟨h.id.sendable, h.source.sendable, h.sourceHandle.sendable, h.target.sendable, h.targetHandle.sendable⟩

namespace Flow.Served

variable {f : Flow} (h : f.Served Value.IsRead)

include h

theorem writable : f.Writable :=
  ⟨h.given, h.id.writable, h.name.writable, fun b hb => (h.blocks b hb).writable, fun e he => (h.edges e he).writable,
    h.createdAt.writable, h.updatedAt.writable⟩

/-- The blocks of a flow can be answered exactly if the names of the parameters of each are alike. -/
theorem sendable_blocks : ∃ docs, List.Forall₂ Block.Documents f.blocks docs ∧
    ((∀ doc ∈ docs, doc.Sendable) ↔ ∀ b ∈ f.blocks, b.Orderly) := by
  obtain ⟨docs, hdocs⟩ := Block.Framed.mapM h.writable.framed.blocks
  refine ⟨docs, hdocs, fun hsend b hb => ?_, fun horderly doc hdoc => ?_⟩
  · obtain ⟨doc, hdoc, hwritten⟩ := exists_mem_of_forall₂ hdocs b hb
    exact ((h.blocks b hb).sendable hwritten.written).1 (hsend doc hdoc)
  · obtain ⟨b, hb, hwritten⟩ := Block.exists_documents hdocs doc hdoc
    exact ((h.blocks b hb).sendable hwritten.written).2 (horderly b hb)

/-- **A flow can be answered exactly if the names of the parameters of each of its blocks are alike.** -/
theorem sendable_document : ∃ doc, f.document = .ok doc ∧ (doc.Sendable ↔ ∀ b ∈ f.blocks, b.Orderly) := by
  obtain ⟨docs, hdocs, hsend⟩ := h.sendable_blocks
  have htime {name : String} {v : Value} (hv : v.IsRead) : ∀ x ∈ timeField name v, x.2.Sendable := by
    intro x hx
    by_cases hnull : v = .null
    · rw [hnull] at hx
      cases hx
    · rw [timeField_of_ne hnull] at hx
      exact List.mem_singleton.1 hx ▸ hv.sendable
  have hedges : ∀ doc ∈ f.edges.map Edge.document, doc.Sendable :=
    List.forall_mem_map.2 fun e he => (h.edges e he).sendable
  refine ⟨_, document_eq hdocs, ?_⟩
  rw [Value.sendable_object, documentFields]
  simp only [List.forall_mem_append, List.forall_mem_cons, List.not_mem_nil, false_implies, implies_true, and_true,
    h.id.sendable, h.name.sendable, Value.sendable_list, hsend, true_and]
  rw [and_iff_left (htime h.updatedAt), and_iff_left (htime h.createdAt), and_iff_left hedges]

end Flow.Served

end BlockFlow
