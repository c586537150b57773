import BlockFlow.Proofs.Regeneration
import BlockFlow.Proofs.RoundTrip
import Mathlib.Data.List.Nodup

/-!
The archive as a map. A table of texts, written over in place, does what a map from identifiers to flows does.

* `Store.mem_put`, `Store.nodup_put`, `Store.listing_perm`: the rows after one is written, and the rows in a listing.
* `FlowRow.Tells`: the row holds the document of a flow under its identifier.
* `FlowMap`, `FlowMap.HeldBy`: flows by identifier, and a table that holds them.
* `StoreCall`, `StoreCall.step`: calls of an archive, as steps of it.
* `StoreCall.apply`, `StoreCall.Meets`: the same calls of a map.
* `StoreCall.served`: one call keeps table and map together.
* `StoreCall.run_meets`: **after any calls an archive answers as the map does.**
-/

namespace BlockFlow

/-! ## Rows of a table -/

namespace Store

variable {s s' : Store} {r x : FlowRow}

theorem holds_text {c : Cell} {id : String} : c.holds (.text id) = true ↔ c = .text id := by
  unfold Cell.holds
  cases c <;> simp [Cell.isNull]

/-- A row that is written where there may be an old one: the time of its making stays. -/
def replacing (r : FlowRow) (old : Option FlowRow) : FlowRow :=
  { r with createdAt := (old.map (·.createdAt)).getD r.createdAt }

theorem find?_text (s : Store) (id : String) : s.find? (.text id) = s.flows.find? fun r => decide (r.id = .text id) := by
  unfold find?
  congr 1
  funext r
  rw [Bool.eq_iff_iff, holds_text, decide_eq_true_iff]

theorem find?_eq_none {id : String} : s.find? (.text id) = none ↔ ∀ r ∈ s.flows, r.id ≠ .text id := by
  rw [find?_text, List.find?_eq_none]
  simp

/-- Among distinct identifiers, the row of an identifier is the only one. -/
theorem find?_eq_some {id : String} (h : (s.flows.map (·.id)).Nodup) :
    s.find? (.text id) = some r ↔ r ∈ s.flows ∧ r.id = .text id := by
  rw [find?_text]
  constructor
  · intro hfind
    exact ⟨List.mem_of_find?_eq_some hfind, by simpa using List.find?_some hfind⟩
  · rintro ⟨hmem, hid⟩
    cases hfind : s.flows.find? fun r => decide (r.id = .text id) with
    | none => exact absurd hid (by simpa using List.find?_eq_none.1 hfind r hmem)
    | some y =>
      have hy : y.id = .text id := by simpa using List.find?_some hfind
      have hyr : y = r := List.inj_on_of_nodup_map h (List.mem_of_find?_eq_some hfind) hmem (hy.trans hid.symm)
      rw [hyr]

/-- What a row that is complete leaves, written into a table. -/
theorem put_eq (hcheck : r.check = .ok ()) {id : String} (hid : r.id = .text id) :
    s.put r = .ok { s with
      flows := match s.find? r.id with
        | none => s.flows ++ [r]
        | some _ => s.flows.map fun old =>
          if old.id = .text id then { old with name := r.name, updatedAt := r.updatedAt, document := r.document }
          else old } := by
  have hmap : (fun old : FlowRow => if old.id.holds r.id then
        { old with name := r.name, updatedAt := r.updatedAt, document := r.document } else old) =
      fun old => if old.id = .text id then
        { old with name := r.name, updatedAt := r.updatedAt, document := r.document } else old := by
    funext old
    rw [hid]
    simp only [holds_text]
  rw [put, hcheck, hmap]
  cases s.find? r.id <;> rfl

/-- **The rows after one is written:** the row itself, and those of other identifiers. -/
theorem mem_put (h : (s.flows.map (·.id)).Nodup) (hput : s.put r = .ok s') (hcheck : r.check = .ok ()) {id : String}
    (hid : r.id = .text id) : x ∈ s'.flows ↔ x = replacing r (s.find? r.id) ∨ x ∈ s.flows ∧ x.id ≠ r.id := by
  rw [put_eq hcheck hid] at hput
  obtain rfl := Except.ok.inj hput
  dsimp only
  cases hfind : s.find? r.id with
  | none =>
    rw [hid] at hfind ⊢
    have hother := find?_eq_none.1 hfind
    rw [List.mem_append, List.mem_singleton]
    constructor
    · rintro (hx | rfl)
      · exact Or.inr ⟨hx, hother x hx⟩
      · exact Or.inl rfl
    · rintro (rfl | ⟨hx, -⟩)
      · exact Or.inr rfl
      · exact Or.inl hx
  | some old =>
    rw [hid] at hfind ⊢
    obtain ⟨hold, holdid⟩ := (find?_eq_some h).1 hfind
    rw [List.mem_map]
    constructor
    · rintro ⟨y, hy, rfl⟩
      by_cases hyid : y.id = .text id
      · left
        have hyold : y = old := List.inj_on_of_nodup_map h hy hold (hyid.trans holdid.symm)
        subst hyold
        rw [if_pos hyid]
        simp [replacing, hid, hyid]
      · right
        rw [if_neg hyid]
        exact ⟨hy, hyid⟩
    · rintro (rfl | ⟨hx, hxid⟩)
      · refine ⟨old, hold, ?_⟩
        rw [if_pos holdid]
        simp [replacing, hid, holdid]
      · exact ⟨x, hx, if_neg hxid⟩

/-- Writing a row keeps the identifiers distinct. -/
theorem nodup_put (h : (s.flows.map (·.id)).Nodup) (hput : s.put r = .ok s') (hcheck : r.check = .ok ()) {id : String}
    (hid : r.id = .text id) : (s'.flows.map (·.id)).Nodup := by
  rw [put_eq hcheck hid] at hput
  obtain rfl := Except.ok.inj hput
  dsimp only
  cases hfind : s.find? r.id with
  | none =>
    rw [hid] at hfind
    have hother := find?_eq_none.1 hfind
    rw [List.map_append, List.nodup_append]
    refine ⟨h, List.nodup_singleton _, ?_⟩
    intro a ha b hb hab
    obtain ⟨y, hy, rfl⟩ := List.mem_map.1 ha
    have hb : b = .text id := by simpa [hid] using hb
    exact hother y hy (hab.trans hb)
  | some old =>
    have hids : ∀ y : FlowRow, (if y.id = .text id then
        { y with name := r.name, updatedAt := r.updatedAt, document := r.document } else y).id = y.id := by
      intro y
      split <;> rfl
    rw [List.map_map]
    simpa only [Function.comp_def, hids] using h

theorem mem_erase {id : String} : x ∈ (s.erase (.text id)).1.flows ↔ x ∈ s.flows ∧ x.id ≠ .text id := by
  rw [erase, List.mem_filter, Bool.not_eq_true', ← Bool.not_eq_true, holds_text]

theorem insertByTime_perm (r : FlowRow) (rows : List FlowRow) : (insertByTime r rows).Perm (r :: rows) := by
  induction rows with
  | nil => exact .refl _
  | cons y rows ih =>
    rw [insertByTime]
    split
    · exact (ih.cons y).trans (.swap r y rows)
    · exact .refl _

/-- **A listing has the rows of the table,** in another order. -/
theorem listing_perm (s : Store) : s.listing.Perm s.flows := by
  have hfold : ∀ rows sorted : List FlowRow,
      (rows.foldl (fun sorted r => insertByTime r sorted) sorted).Perm (rows ++ sorted) := by
    intro rows
    induction rows with
    | nil => exact fun sorted => .refl _
    | cons r rows ih =>
      intro sorted
      refine (ih _).trans ?_
      refine ((insertByTime_perm r sorted).append_left rows).trans ?_
      exact List.perm_middle
  simpa [listing] using hfold s.flows []

end Store

/-! ## Rows that tell flows -/

/-- The row holds the document of the flow under the identifier of the flow. -/
structure FlowRow.Tells (r : FlowRow) (f : Flow) : Prop where
  fits : f.Documentable
  id : ∃ s, f.id = .text s ∧ r.id = .text s
  document : ∃ text, f.exportText = .ok text ∧ r.document = .text text

/-- What is read from a row is the flow that it tells. -/
theorem FlowRow.Tells.read {r : FlowRow} {f : Flow} (h : r.Tells f) (w : Workspace) :
    Work.drawing (Flow.importText r.document.toValue) w = (.ok f, w) := by
  obtain ⟨text, htext, hdocument⟩ := h.document
  obtain ⟨text', htext', hread⟩ := h.fits.isRead.importText_eq
  obtain rfl : text = text' := Except.ok.inj (htext.symm.trans htext')
  rw [hdocument, Work.drawing, Act.within, Cell.toValue, hread]

/-- A row tells one flow. -/
theorem FlowRow.Tells.unique {r : FlowRow} {f g : Flow} (hf : r.Tells f) (hg : r.Tells g) : f = g := by
  have hread := (hf.read { flow := f }).symm.trans (hg.read { flow := f })
  exact Except.ok.inj (congrArg Prod.fst hread)

/-- Rows that tell flows are read as these flows. -/
theorem Archive.readRows_tells {rows : List FlowRow} (h : ∀ r ∈ rows, ∃ f, r.Tells f) (w : Workspace) :
    ∃ flows, Archive.readRows rows w = (.ok flows, w) ∧ List.Forall₂ FlowRow.Tells rows flows := by
  induction rows with
  | nil => exact ⟨[], rfl, .nil⟩
  | cons r rows ih =>
    obtain ⟨f, hf⟩ := h r List.mem_cons_self
    obtain ⟨flows, hflows, hrows⟩ := ih fun x hx => h x (List.mem_cons_of_mem _ hx)
    refine ⟨f :: flows, ?_, .cons hf hrows⟩
    have hattempt : Act.attempt (Work.drawing (Flow.importText r.document.toValue)) w = (.ok (.ok f), w) := by
      rw [Act.attempt, hf.read]
    rw [Archive.readRows, Act.bind_apply, hattempt]
    dsimp only
    rw [Act.bind_apply, hflows]
    rfl

/-- Rows of distinct identifiers tell flows of distinct identifiers. -/
theorem FlowRow.nodup_told {rows : List FlowRow} {flows : List Flow} (h : List.Forall₂ FlowRow.Tells rows flows)
    (hdistinct : (rows.map (·.id)).Nodup) : (flows.map (·.id)).Nodup := by
  induction h with
  | nil => exact List.nodup_nil
  | cons hrow hrest ih =>
    rw [List.map_cons, List.nodup_cons] at hdistinct ⊢
    refine ⟨fun hmem => hdistinct.1 ?_, ih hdistinct.2⟩
    obtain ⟨g, hg, heq⟩ := List.mem_map.1 hmem
    obtain ⟨x, hx, hxg⟩ := exists_mem_of_forall₂ hrest.flip g hg
    obtain ⟨a, hga, hxa⟩ := hxg.id
    obtain ⟨b, hfb, hrb⟩ := hrow.id
    obtain rfl : a = b := Value.text.inj (hga.symm.trans (heq.trans hfb))
    rw [hrb, ← hxa]
    exact List.mem_map_of_mem hx

/-! ## Flows by identifier -/

/-- A map from identifiers to flows. -/
def FlowMap := String → Option Flow

namespace FlowMap

/-- The map without flows. -/
def empty : FlowMap := fun _ => none

/-- The map with a flow under an identifier, in the place of the one that was there. -/
def insert (m : FlowMap) (id : String) (f : Flow) : FlowMap := fun k => if k = id then some f else m k

/-- The map without the flow of an identifier. -/
def erase (m : FlowMap) (id : String) : FlowMap := fun k => if k = id then none else m k

variable (m : FlowMap) {id k : String} (f : Flow)

@[simp] theorem insert_self : m.insert id f id = some f := if_pos rfl

@[simp] theorem insert_of_ne (h : k ≠ id) : m.insert id f k = m k := if_neg h

@[simp] theorem erase_self : m.erase id id = none := if_pos rfl

@[simp] theorem erase_of_ne (h : k ≠ id) : m.erase id k = m k := if_neg h

end FlowMap

/-- The table holds the flows of the map: one row for each of them, and no other row. -/
structure FlowMap.HeldBy (m : FlowMap) (s : Store) : Prop where
  distinct : (s.flows.map (·.id)).Nodup
  told : ∀ r ∈ s.flows, ∃ f, r.Tells f
  mapped : ∀ id f, m id = some f ↔ ∃ r ∈ s.flows, r.id = .text id ∧ r.Tells f

namespace FlowMap.HeldBy

variable {m : FlowMap} {s : Store}

theorem empty (settings : List Setting) : FlowMap.empty.HeldBy { settings } :=
  ⟨List.nodup_nil, by simp, by simp [FlowMap.empty]⟩

/-- The row of an identifier tells the flow of the map. -/
theorem find? (h : m.HeldBy s) (id : String) :
    (∃ r f, s.find? (.text id) = some r ∧ m id = some f ∧ r.Tells f) ∨ s.find? (.text id) = none ∧ m id = none := by
  cases hfind : s.find? (.text id) with
  | none =>
    refine Or.inr ⟨rfl, ?_⟩
    rw [Option.eq_none_iff_forall_ne_some]
    intro f hf
    obtain ⟨r, hr, hid, -⟩ := (h.mapped id f).1 hf
    exact Store.find?_eq_none.1 hfind r hr hid
  | some r =>
    obtain ⟨hr, hid⟩ := (Store.find?_eq_some h.distinct).1 hfind
    obtain ⟨f, hf⟩ := h.told r hr
    exact Or.inl ⟨r, f, rfl, (h.mapped id f).2 ⟨r, hr, hid, hf⟩, hf⟩

theorem isSome_find? (h : m.HeldBy s) (id : String) : (s.find? (.text id)).isSome = (m id).isSome := by
  rcases h.find? id with ⟨r, f, hr, hf, -⟩ | ⟨hr, hf⟩ <;> rw [hr, hf] <;> rfl

/-- A flow that is written into the table is inserted into the map. -/
theorem put (h : m.HeldBy s) {r : FlowRow} {f : Flow} {id : String} {s' : Store} (hf : r.Tells f) (hid : f.id = .text id)
    (hcheck : r.check = .ok ()) (hput : s.put r = .ok s') : (m.insert id f).HeldBy s' := by
  obtain ⟨key, hkey, hrid⟩ := hf.id
  obtain rfl : id = key := Value.text.inj (hid.symm.trans hkey)
  have hmem (x : FlowRow) := Store.mem_put (x := x) h.distinct hput hcheck hrid
  have hnew : (Store.replacing r (s.find? r.id)).Tells f := ⟨hf.fits, hf.id, hf.document⟩
  refine ⟨Store.nodup_put h.distinct hput hcheck hrid, fun x hx => ?_, fun k g => ?_⟩
  · rcases (hmem x).1 hx with rfl | ⟨hx, -⟩
    · exact ⟨f, hnew⟩
    · exact h.told x hx
  · by_cases hk : k = id
    · subst hk
      rw [FlowMap.insert_self]
      constructor
      · rintro ⟨⟩
        exact ⟨_, (hmem _).2 (Or.inl rfl), hrid, hnew⟩
      · rintro ⟨x, hx, hxid, hxg⟩
        rcases (hmem x).1 hx with rfl | ⟨-, hne⟩
        · exact congrArg some (hnew.unique hxg)
        · exact absurd (hxid.trans hrid.symm) hne
    · rw [FlowMap.insert_of_ne _ _ hk, h.mapped]
      refine exists_congr fun x => ?_
      rw [hmem x]
      constructor
      · rintro ⟨hx, hxid, hxg⟩
        refine ⟨Or.inr ⟨hx, ?_⟩, hxid, hxg⟩
        rw [hxid, hrid]
        simpa using hk
      · rintro ⟨rfl | ⟨hx, -⟩, hxid, hxg⟩
        · exact absurd (Cell.text.inj (hxid.symm.trans hrid)) hk
        · exact ⟨hx, hxid, hxg⟩

/-- A flow that is erased from the table is erased from the map. -/
theorem erase (h : m.HeldBy s) (id : String) : (m.erase id).HeldBy (s.erase (.text id)).1 := by
  refine ⟨?_, fun x hx => h.told x (Store.mem_erase.1 hx).1, fun k g => ?_⟩
  · exact h.distinct.sublist (List.filter_sublist.map _)
  · by_cases hk : k = id
    · subst hk
      rw [FlowMap.erase_self]
      simp only [reduceCtorEq, false_iff]
      rintro ⟨x, hx, hxid, -⟩
      exact (Store.mem_erase.1 hx).2 hxid
    · rw [FlowMap.erase_of_ne _ hk, h.mapped]
      refine exists_congr fun x => ?_
      rw [Store.mem_erase]
      constructor
      · rintro ⟨hx, hxid, hxg⟩
        refine ⟨⟨hx, ?_⟩, hxid, hxg⟩
        rw [hxid]
        simpa using hk
      · rintro ⟨⟨hx, -⟩, hxid, hxg⟩
        exact ⟨hx, hxid, hxg⟩

/-- The flows of a listing are those of the map, each of them once. -/
theorem listing (h : m.HeldBy s) (w : Workspace) :
    ∃ flows, Archive.readRows s.listing w = (.ok flows, w) ∧ (flows.map (·.id)).Nodup ∧
      ∀ f, f ∈ flows ↔ ∃ id, m id = some f := by
  have hperm := s.listing_perm
  obtain ⟨flows, hread, hflows⟩ := Archive.readRows_tells (fun r hr => h.told r (hperm.subset hr)) w
  refine ⟨flows, hread, ?_, fun f => ?_⟩
  · exact FlowRow.nodup_told hflows ((hperm.map _).nodup_iff.2 h.distinct)
  · constructor
    · intro hf
      obtain ⟨r, hr, hrf⟩ := exists_mem_of_forall₂ hflows.flip f hf
      obtain ⟨id, -, hid⟩ := hrf.id
      exact ⟨id, (h.mapped id f).2 ⟨r, hperm.subset hr, hid, hrf⟩⟩
    · rintro ⟨id, hf⟩
      obtain ⟨r, hr, -, hrf⟩ := (h.mapped id f).1 hf
      obtain ⟨g, hg, hrg⟩ := exists_mem_of_forall₂ hflows r (hperm.symm.subset hr)
      rwa [hrf.unique hrg]

end FlowMap.HeldBy

/-! ## Calls of the archive -/

/-- A call of an archive. A flow that is saved fits into a document. -/
inductive StoreCall where
  | save (f : { f : Flow // f.Documentable })
  | load (id : String)
  | list
  | delete (id : String)

/-- What a call gives back. -/
inductive StoreCall.Answer where
  | saved (f : Flow)
  | loaded (found : Option Flow)
  | listed (flows : List Flow)
  | deleted (found : Bool)

/-- The text that identifies a flow. -/
def Flow.idText (f : Flow) : String :=
  match f.id with
  | .text s => s
  | _ => ""

namespace StoreCall

/-- The call as a step of the archive. -/
def step : StoreCall → Work Answer
  | .save f => do
    Work.setFlow f.1
    Archive.save
    return .saved (← Work.flow)
  | .load id => return .loaded (← Archive.load (.text id))
  | .list => return .listed (← Archive.list)
  | .delete id => return .deleted (← Archive.delete (.text id))

/-- The map after a call. -/
def apply (t : Instant) (m : FlowMap) : StoreCall → FlowMap
  | .save f => m.insert f.1.idText (f.1.stamped t.savedStamp)
  | .delete id => m.erase id
  | _ => m

/-- The answer is that of the map. A listing has every flow once, in any order. -/
def Meets (t : Instant) (m : FlowMap) : StoreCall → Answer → Prop
  | .save f, .saved g => g = f.1.stamped t.savedStamp
  | .load id, .loaded found => found = m id
  | .list, .listed flows => (flows.map (·.id)).Nodup ∧ ∀ f, f ∈ flows ↔ ∃ id, m id = some f
  | .delete id, .deleted found => found = (m id).isSome
  | _, _ => False

end StoreCall

/-- A flow that fits into a document does so with the time of its saving. -/
theorem Flow.Documentable.stamped {f : Flow} (h : f.Documentable) (now : String) :
    (f.stamped now).Documentable ∧ (f.stamped now).createdAt.IsText := by
  have hcreated : (f.stamped now).createdAt.IsText := by
    show (f.createdAt.orElse (.text now)).IsText
    unfold Value.orElse
    rcases h.createdAt with hnull | htext
    · rw [hnull]
      exact ⟨now, rfl⟩
    · split
      · exact htext
      · exact ⟨now, rfl⟩
  exact ⟨⟨h.id, h.name, h.blocks, h.edges, Or.inr hcreated, Or.inr ⟨now, rfl⟩⟩, hcreated⟩

/-- A flow that fits into a document is written as a complete row that tells it. -/
theorem Store.save_eq {f : Flow} (h : f.Documentable) (hcreated : f.createdAt.IsText) (hupdated : f.updatedAt.IsText)
    (s : Store) : ∃ r, r.Tells f ∧ r.check = .ok () ∧ s.save f = s.put r := by
  obtain ⟨id, hid, -⟩ := h.id
  obtain ⟨name, hname⟩ := h.name
  obtain ⟨created, hcreated⟩ := hcreated
  obtain ⟨updated, hupdated⟩ := hupdated
  obtain ⟨text, htext, -⟩ := h.isRead.importText_eq
  refine ⟨⟨.text id, .text name, .text created, .text updated, .text text⟩, ⟨h, ⟨id, hid, rfl⟩, ⟨text, htext, rfl⟩⟩,
    rfl, ?_⟩
  rw [Store.save, htext, hid, hname, hcreated, hupdated]
  rfl

/-- Saving stamps the flow, and then writes it into the store unless that refuses it. -/
theorem Archive.save_apply {w : Workspace} {t : Instant} (hnow : w.now = t.micros) :
    Archive.save w =
      match (w.store.getD {}).save (w.flow.stamped t.savedStamp) with
      | .error fault =>
        (.error fault, { w with store := some (w.store.getD {}), flow := w.flow.stamped t.savedStamp })
      | .ok s =>
        (.ok (), { w with
          store := some s
          flow := w.flow.stamped t.savedStamp
          notes := w.notes.push
            ⟨.archive, .info, "Saved flow " ++ w.flow.id.display ++ " (" ++ w.flow.name.inspect ++ ")"⟩ }) := by
  have hstamp : Work.stamp { w with store := some (w.store.getD {}) } =
      (.ok t.savedStamp, { w with store := some (w.store.getD {}) }) := by
    rw [Work.stamp, Act.bind_apply, Act.get_apply]
    dsimp only
    rw [Act.ofExcept_apply, hnow, t.saved]
  rw [Archive.save, Act.bind_apply, Session.store_apply]
  dsimp only
  rw [Act.bind_apply, hstamp]
  simp only [Act.bind_apply, Work.flow_apply, Work.setFlow_apply, Act.ofExcept_apply]
  cases (w.store.getD {}).save (w.flow.stamped t.savedStamp) <;> rfl

/-- What is loaded is read from the row of the identifier. -/
theorem Archive.load_cell {key : Value} {c : Cell} (hkey : Cell.ofValue 1 key = .ok c) (w : Workspace) :
    Archive.load key w =
      match (w.store.getD {}).find? c with
      | none => (.ok none, { w with store := some (w.store.getD {}) })
      | some r =>
        match Work.drawing (Flow.importText r.document.toValue) { w with store := some (w.store.getD {}) } with
        | (.ok f, w') => (.ok (some f), w')
        | (.error fault, w') => (.error fault, w') := by
  rw [Archive.load, Act.bind_apply, Session.store_apply]
  dsimp only
  rw [Act.bind_apply, Act.ofExcept_apply, hkey]
  dsimp only
  cases (w.store.getD {}).find? c with
  | none => rfl
  | some r =>
    dsimp only
    rw [Act.bind_apply]
    rcases Work.drawing (Flow.importText r.document.toValue) _ with ⟨fault | f, w'⟩ <;> rfl

theorem Archive.load_apply (id : String) (w : Workspace) :
    Archive.load (.text id) w =
      match (w.store.getD {}).find? (.text id) with
      | none => (.ok none, { w with store := some (w.store.getD {}) })
      | some r =>
        match Work.drawing (Flow.importText r.document.toValue) { w with store := some (w.store.getD {}) } with
        | (.ok f, w') => (.ok (some f), w')
        | (.error fault, w') => (.error fault, w') := Archive.load_cell rfl w

namespace StoreCall

variable {m : FlowMap} {w : Workspace} {t : Instant}

/-- The workspace has a store that holds the flows of the map. -/
def Holds (m : FlowMap) (w : Workspace) : Prop := ∃ s, w.store = some s ∧ m.HeldBy s

/-- The call is answered as by the map, and leaves what the map leaves. -/
def Served (t : Instant) (m : FlowMap) (e : StoreCall) (w : Workspace) : Prop :=
  ∃ answer w', e.step w = (.ok answer, w') ∧ e.Meets t m answer ∧ Holds (e.apply t m) w'

theorem served_save (h : Holds m w) (hnow : w.now = t.micros) (f : { f : Flow // f.Documentable }) :
    Served t m (save f) w := by
  obtain ⟨s, hs, hheld⟩ := h
  obtain ⟨hfits, hcreated⟩ := f.2.stamped t.savedStamp
  obtain ⟨r, hr, hcheck, hsave⟩ := Store.save_eq hfits hcreated ⟨_, rfl⟩ s
  obtain ⟨key, hkey, hrid⟩ := hr.id
  have hid : f.1.idText = key := by
    have hkey : f.1.id = .text key := hkey
    rw [Flow.idText, hkey]
  obtain ⟨s', hput⟩ : ∃ s', s.put r = .ok s' := ⟨_, Store.put_eq hcheck hrid⟩
  have hsaved := Archive.save_apply (w := { w with flow := f.1 }) hnow
  dsimp only at hsaved
  rw [hs, Option.getD_some, hsave, hput] at hsaved
  obtain ⟨notes, hstep⟩ : ∃ notes, (save f).step w = (.ok (.saved (f.1.stamped t.savedStamp)),
      { w with store := some s', flow := f.1.stamped t.savedStamp, notes := notes }) := by
    rw [step, Act.bind_apply, Work.setFlow_apply]
    dsimp only
    rw [Act.bind_apply, hs, hsaved]
    exact ⟨_, rfl⟩
  have hheld' : FlowMap.HeldBy ((save f).apply t m) s' := by
    rw [apply, hid]
    exact hheld.put hr hkey hcheck hput
  exact ⟨_, _, hstep, rfl, s', rfl, hheld'⟩

theorem served_load (h : Holds m w) (id : String) : Served t m (load id) w := by
  obtain ⟨s, hs, hheld⟩ := h
  have hload := Archive.load_apply id w
  rw [hs, Option.getD_some] at hload
  have hholds : Holds m { w with store := some s } := ⟨s, rfl, hheld⟩
  have hstep : (load id).step w = (.ok (.loaded (m id)), { w with store := some s }) := by
    rw [step, Act.bind_apply, hload]
    rcases hheld.find? id with ⟨r, f, hr, hf, htells⟩ | ⟨hr, hf⟩
    · rw [hr, hf]
      dsimp only
      rw [htells.read]
      rfl
    · rw [hr, hf]
      rfl
  exact ⟨_, _, hstep, rfl, hholds⟩

theorem served_list (h : Holds m w) : Served t m list w := by
  obtain ⟨s, hs, hheld⟩ := h
  obtain ⟨flows, hread, hdistinct, hmem⟩ := hheld.listing { w with store := some s }
  have hstep : list.step w = (.ok (.listed flows), { w with store := some s }) := by
    rw [step, Act.bind_apply, Archive.list, Act.bind_apply, Session.store_apply, hs]
    dsimp only [Option.getD_some]
    rw [hread]
    rfl
  exact ⟨_, _, hstep, ⟨hdistinct, hmem⟩, s, rfl, hheld⟩

theorem served_delete (h : Holds m w) (id : String) : Served t m (delete id) w := by
  obtain ⟨s, hs, hheld⟩ := h
  have hfound : (s.erase (.text id)).2 = (m id).isSome := hheld.isSome_find? id
  have hcell : Cell.ofValue 1 (.text id) = .ok (.text id) := rfl
  obtain ⟨notes, hstep⟩ : ∃ notes, (delete id).step w =
      (.ok (.deleted (m id).isSome), { w with store := some (s.erase (.text id)).1, notes := notes }) := by
    rw [step, Act.bind_apply, Archive.delete, Act.bind_apply, Session.store_apply, hs]
    dsimp only [Option.getD_some]
    rw [Act.bind_apply, Act.ofExcept_apply, hcell]
    dsimp only
    rw [← hfound]
    cases (s.erase (.text id)).2 <;> exact ⟨_, rfl⟩
  exact ⟨_, _, hstep, rfl, _, rfl, hheld.erase id⟩

/-- **One call is answered as by the map,** and leaves what the map leaves. -/
theorem served (h : Holds m w) (hnow : w.now = t.micros) (e : StoreCall) : Served t m e w := by
  cases e with
  | save f => exact served_save h hnow f
  | load id => exact served_load h id
  | list => exact served_list h
  | delete id => exact served_delete h id

/-- The workspace after calls, each at its instant. -/
def run (w : Workspace) (calls : List (Instant × StoreCall)) : Workspace :=
  calls.foldl (fun w p => (p.2.step (w.setClock p.1)).2) w

/-- The map after calls. -/
def applyAll (m : FlowMap) (calls : List (Instant × StoreCall)) : FlowMap := calls.foldl (fun m p => p.2.apply p.1 m) m

/-- Calls keep table and map together. -/
theorem holds_run (h : Holds m w) (calls : List (Instant × StoreCall)) :
    Holds (applyAll m calls) (run w calls) := by
  induction calls generalizing m w with
  | nil => exact h
  | cons p calls ih =>
    obtain ⟨answer, w', hstep, -, hholds⟩ := served (w := w.setClock p.1) (t := p.1) h rfl p.2
    apply ih
    dsimp only
    rwa [hstep]

/-- **An archive is a map.** From an empty table on, whatever calls were made and at whatever instants, the next one is
answered as by the map from identifiers to flows that has all flows that were saved, with the times of their saving, and not
deleted or saved over since. -/
theorem run_meets (w : Workspace) (settings : List Setting) (calls : List (Instant × StoreCall)) (t : Instant)
    (e : StoreCall) :
    ∃ answer, (e.step ((run { w with store := some { settings } } calls).setClock t)).1 = .ok answer ∧
      e.Meets t (applyAll .empty calls) answer := by
  have hstart : Holds .empty { w with store := some { settings } } := ⟨_, rfl, .empty settings⟩
  obtain ⟨answer, w', hstep, hmeets, -⟩ := served
    (w := (run { w with store := some { settings } } calls).setClock t) (holds_run hstart calls) rfl e
  exact ⟨answer, by rw [hstep], hmeets⟩

end StoreCall

end BlockFlow
