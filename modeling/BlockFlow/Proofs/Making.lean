import BlockFlow.Proofs.Listing
import BlockFlow.Proofs.Saving
import BlockFlow.Proofs.StoreWrites

/-!
The time of making of a saved flow. The column of it is written once and stays; the document has the time that the flow
carried when it was last saved. So the two agree as long as every save carries the time of the first one.

* `Flow.Savable`: flows that can be saved; `Flow.Savable.createdAt_eq`: what is read of one has its time of making.
* `StoreWrite.Succeeds`, `StoreWrite.Deletes`, `StoreWrite.latest`: what a run does to one identifier.
* `Store.Keeps`, `StoreWrite.keeps_change`, `StoreWrite.keeps_run`: the column of the first save and the document of the
  last.
* `Archive.load_made_iff`: **a flow is loaded with the time of its first save exactly if the last save carried it.**
-/

namespace BlockFlow

/-! ## Times that are written -/

namespace Value

/-- A value that stands in a column is read as it was written. -/
theorem Storable.reread_eq {v : Value} (h : v.Storable) : v.reread = v := by
  cases v with
  | real x =>
    cases x with
    | nan => cases h
    | infinite | finite => rfl
  | list | tuple | dict => cases h
  | null | bool | int | text | bytes => rfl

/-- Of the values that can be written, a column that has to be filled holds the texts as they are, and no others. -/
theorem Storable.toValue_eq_iff {v : Value} (h : v.Storable) (hwritable : v.Writable) {position : Nat} {c : Cell}
    (hc : Cell.ofValue position v = .ok c) : c.toValue = v ↔ v.IsText := by
  cases hwritable with
  | null | list | tuple | dict => cases h
  | bool b =>
    obtain rfl := Except.ok.inj hc
    simp [Cell.toValue, IsText]
  | @int n digits =>
    have hword : isWord n = true := h
    rw [Cell.ofValue, if_pos hword] at hc
    obtain rfl := Except.ok.inj hc
    simp [Cell.toValue, IsText]
  | real x =>
    have hnumber : x.isNan = false := h
    rw [Cell.ofValue, hnumber] at hc
    obtain rfl := Except.ok.inj hc
    simp [Cell.toValue, IsText]
  | text s =>
    obtain rfl := Except.ok.inj hc
    exact iff_of_true rfl ⟨s, rfl⟩

end Value

namespace Flow

/-- What is read has the time of making that the document tells. -/
theorem createdAt_ofDocument {doc : Value} {n n' : Nat} {f : Flow} (h : ofDocument doc n = (.ok f, n')) :
    doc.get "createdAt" .null = .ok f.createdAt := by
  have hrebuild (f : Flow) : f.rebuild.1.createdAt = f.createdAt := by
    unfold rebuild
    split <;> rfl
  obtain ⟨raw, -, h⟩ := Act.ofExcept_bind_eq_ok.1 h
  obtain ⟨id, -, h⟩ := Act.ofExcept_bind_eq_ok.1 h
  obtain ⟨name, -, h⟩ := Act.ofExcept_bind_eq_ok.1 h
  obtain ⟨docs, -, h⟩ := Act.ofExcept_bind_eq_ok.1 h
  obtain ⟨blocks, -, h⟩ := Act.ofExcept_bind_eq_ok.1 h
  obtain ⟨listed, -, h⟩ := Act.ofExcept_bind_eq_ok.1 h
  obtain ⟨edgeDocs, -, h⟩ := Act.ofExcept_bind_eq_ok.1 h
  obtain ⟨edges, m, -, h⟩ := Act.bind_eq_ok.1 h
  obtain ⟨createdAt, hcreated, h⟩ := Act.ofExcept_bind_eq_ok.1 h
  obtain ⟨updatedAt, -, h⟩ := Act.ofExcept_bind_eq_ok.1 h
  rw [hcreated]
  dsimp only at h
  split at h
  · obtain ⟨⟨⟩, -, h⟩ := Act.ofExcept_bind_eq_ok.1 h
    obtain rfl := Except.ok.inj (Prod.mk.inj h).1
    rw [hrebuild]
  · obtain rfl := Except.ok.inj (Prod.mk.inj h).1
    rfl

/-- The flow can be saved: a table takes its row, and what stands in its document can be written. -/
structure Savable (f : Flow) : Prop where
  row : ∃ r, f.row = .ok r
  document : ∀ doc, f.document = .ok doc → doc.Writable

namespace Savable

variable {f g : Flow} (h : f.Savable)

include h

theorem storable_createdAt : f.createdAt.Storable := by
  obtain ⟨r, hr⟩ := h.row
  obtain ⟨text, -, -, -, hcreated, -, hcheck⟩ := row_eq_ok hr
  refine (Value.storable_iff 3).2 ⟨r.createdAt, hcreated, ?_⟩
  cases hnull : r.createdAt.isNull with
  | false => rfl
  | true =>
    cases hname : r.name.isNull <;> simp [FlowRow.check, FlowRow.missing?, hname, hnull] at hcheck

theorem writable_createdAt : f.createdAt.Writable := by
  obtain ⟨r, hr⟩ := h.row
  obtain ⟨text, htext, -⟩ := row_eq_ok hr
  obtain ⟨doc, hdoc, -⟩ := bind_eq_ok.1 htext
  have hwritable := h.document doc hdoc
  obtain ⟨docs, -, hdoc⟩ := bind_eq_ok.1 hdoc
  obtain rfl := Except.ok.inj hdoc
  have hnull : f.createdAt ≠ .null := by
    intro hnull
    have hstorable := h.storable_createdAt
    rw [hnull] at hstorable
    exact hstorable
  cases hwritable with
  | dict _ values =>
    refine values (.text "createdAt", f.createdAt) ?_
    rw [timeField_of_ne hnull]
    simp

/-- **What is read of a flow that was saved has the time of making that the flow had.** -/
theorem createdAt_eq (hg : f.ReadsAs g) : g.createdAt = f.createdAt := by
  obtain ⟨text, n, n', htext, hread⟩ := hg
  obtain ⟨doc, hdoc, htext⟩ := bind_eq_ok.1 htext
  obtain ⟨text', htext', hparse⟩ := Json.parse_indented_reread (h.document doc hdoc)
  obtain rfl := Except.ok.inj (htext.symm.trans htext')
  obtain ⟨docs, -, hdoc⟩ := bind_eq_ok.1 hdoc
  have hfields : Value.object (f.documentFields docs) = doc := Except.ok.inj hdoc
  obtain ⟨entries, blockDocs, edgeDocs, hparse', -, hmade⟩ := importText_eq_ok hread
  rw [hparse, Except.ok.injEq, ← hfields, Writable.documentFields_reread] at hparse'
  have hcreated := createdAt_ofDocument hmade
  rw [← hparse', Value.get_object, (lookup_times _ _).1] at hcreated
  rw [← Except.ok.inj hcreated]
  exact h.storable_createdAt.reread_eq

end Savable

end Flow

/-! ## Runs over one identifier -/

namespace StoreWrite

/-- The write is no save that fails. -/
def Succeeds (t : Instant) : StoreWrite → Prop
  | .save f => (f.stamped t.savedStamp).Savable
  | .delete _ => True

/-- The write deletes the identifier. -/
def Deletes (c : Cell) : StoreWrite → Prop
  | .save _ => False
  | .delete id => Cell.ofValue 1 id = .ok c

/-- The flow that was last saved under an identifier: that of the write, or the one before. -/
def latest (c : Cell) (t : Instant) (f : Flow) : StoreWrite → Flow
  | .save g =>
    match Cell.ofValue 1 g.id with
    | .ok d => if d = c then g.stamped t.savedStamp else f
    | .error _ => f
  | .delete _ => f

/-- The flow that was last saved under an identifier, after writes. -/
def latestAll (c : Cell) (f : Flow) (writes : List (Instant × StoreWrite)) : Flow :=
  writes.foldl (fun f p => p.2.latest c p.1 f) f

end StoreWrite

/-- The table has a row of the identifier. Its column has the time of making, its document is that of the flow. -/
def Store.Keeps (s : Store) (c : Cell) (made : Value) (f : Flow) : Prop :=
  ∃ row text, s.find? c = some row ∧ Cell.ofValue 3 made = .ok row.createdAt ∧ f.exportText = .ok text ∧
    row.document = .text text

namespace StoreWrite

variable {s : Store} {c : Cell} {made : Value} {f : Flow}

/-- The first save of an identifier writes the column and the document. -/
theorem keeps_first {r : FlowRow} (hr : f.row = .ok r) (hnull : r.id.isNull = false) (hnew : s.find? r.id = none) :
    (s.write r).Keeps r.id f.createdAt f := by
  obtain ⟨text, htext, hdocument, -, hcreated, -⟩ := Flow.row_eq_ok hr
  refine ⟨_, text, Store.find?_write_self hnull, ?_, htext, hdocument⟩
  rw [hnew]
  exact hcreated

/-- **A write that does not delete the identifier leaves the column;** the document is that of the last save. -/
theorem keeps_change {t : Instant} {write : StoreWrite} (h : s.Keeps c made f) (hwrite : write.Succeeds t)
    (hkept : ¬ write.Deletes c) : (write.change t s).Keeps c made (write.latest c t f) := by
  obtain ⟨row, text, hrow, hmade, htext, hdocument⟩ := h
  cases write with
  | save g =>
    obtain ⟨r, hr⟩ := hwrite.row
    obtain ⟨text', htext', hdocument', hid, -⟩ := Flow.row_eq_ok hr
    have hid : Cell.ofValue 1 g.id = .ok r.id := hid
    rw [change, hr, latest, hid]
    dsimp only
    by_cases hc : r.id = c
    · subst hc
      rw [if_pos rfl]
      have hnull := (Store.id_of_find? hrow).1
      rw [(Store.id_of_find? hrow).2] at hnull
      refine ⟨_, text', Store.find?_write_self hnull, ?_, htext', hdocument'⟩
      rw [hrow]
      exact hmade
    · rw [if_neg hc]
      exact ⟨row, text, (Store.find?_write_of_ne hc).trans hrow, hmade, htext, hdocument⟩
  | delete id =>
    rw [change, latest]
    cases hid : Cell.ofValue 1 id with
    | error fault => exact ⟨row, text, hrow, hmade, htext, hdocument⟩
    | ok d =>
      have hd : d ≠ c := by
        rintro rfl
        exact hkept hid
      exact ⟨row, text, (Store.find?_erase_of_ne hd).trans hrow, hmade, htext, hdocument⟩

/-- So does a run. -/
theorem keeps_run {writes : List (Instant × StoreWrite)} (h : s.Keeps c made f) (hwrites : ∀ p ∈ writes, p.2.Succeeds p.1)
    (hkept : ∀ p ∈ writes, ¬ p.2.Deletes c) : (changeAll s writes).Keeps c made (latestAll c f writes) := by
  induction writes generalizing s f with
  | nil => exact h
  | cons p writes ih =>
    obtain ⟨hwrite, hwrites⟩ := List.forall_mem_cons.1 hwrites
    obtain ⟨hfirst, hkept⟩ := List.forall_mem_cons.1 hkept
    exact ih (keeps_change h hwrite hfirst) hwrites hkept

/-- What was last saved under an identifier could be saved. -/
theorem savable_latestAll {writes : List (Instant × StoreWrite)} (h : f.Savable) (hwrites : ∀ p ∈ writes, p.2.Succeeds p.1) :
    (latestAll c f writes).Savable := by
  induction writes generalizing f with
  | nil => exact h
  | cons p writes ih =>
    obtain ⟨hwrite, hwrites⟩ := List.forall_mem_cons.1 hwrites
    refine ih ?_ hwrites
    obtain ⟨t, g | id⟩ := p
    · dsimp only [latest]
      split
      · split
        · exact hwrite
        · exact h
      · exact h
    · exact h

/-- **After a run that starts with the first save of an identifier, and does not delete it, the column is that of the first
save and the document that of the last.** -/
theorem keeps_after {w : Workspace} {t : Instant} {writes : List (Instant × StoreWrite)}
    (hid : Cell.ofValue 1 f.id = .ok c) (hnull : c.isNull = false) (hnew : (w.store.getD {}).find? c = none)
    (hwrites : ∀ p ∈ (t, save f) :: writes, p.2.Succeeds p.1) (hkept : ∀ p ∈ writes, ¬ p.2.Deletes c) :
    ((run w ((t, save f) :: writes)).store.getD {}).Keeps c (f.stamped t.savedStamp).createdAt
      (latestAll c (f.stamped t.savedStamp) writes) := by
  obtain ⟨hfirst, hwrites⟩ := List.forall_mem_cons.1 hwrites
  obtain ⟨r, hr⟩ := hfirst.row
  obtain ⟨-, -, -, hcell, -⟩ := Flow.row_eq_ok hr
  obtain rfl : c = r.id := Except.ok.inj (hid.symm.trans hcell)
  have hchange : (save f).change t (w.store.getD {}) = (w.store.getD {}).write r := by
    rw [change, hr]
  rw [store_run, changeAll, List.foldl_cons, hchange]
  exact keeps_run (keeps_first hr hnull hnew) hwrites hkept

end StoreWrite

/-! ## Loading -/

namespace Archive

variable {w : Workspace} {key : Value} {c : Cell} {made : Value} {f g : Flow}

/-- What is loaded is what the flow of the row is read as. -/
theorem readsAs_of_load (h : (w.store.getD {}).Keeps c made f) (hkey : Cell.ofValue 1 key = .ok c)
    (hload : (load key w).1 = .ok (some g)) : f.ReadsAs g := by
  obtain ⟨row, text, hrow, -, htext, hdocument⟩ := h
  rw [load_cell hkey, hrow] at hload
  dsimp only at hload
  rw [Work.drawing, Act.within, hdocument, Cell.toValue] at hload
  dsimp only at hload
  rcases hread : Flow.importText (.text text) w.serial with ⟨fault | g', n'⟩ <;> rw [hread] at hload
  · cases hload
  · obtain rfl := Option.some.inj (Except.ok.inj hload)
    exact ⟨text, w.serial, n', htext, hread⟩

/-- A flow that can be read is loaded, whatever is drawn for what it leaves out. -/
theorem exists_load (h : (w.store.getD {}).Keeps c made f) (hkey : Cell.ofValue 1 key = .ok c) (hg : f.ReadsAs g) :
    ∃ g', (load key w).1 = .ok (some g') := by
  obtain ⟨row, text, hrow, -, htext, hdocument⟩ := h
  obtain ⟨text', n, n', htext', hread⟩ := hg
  obtain rfl := Except.ok.inj (htext.symm.trans htext')
  have hok := Flow.importText_isOk (.text text) w.serial n
  rw [hread] at hok
  rw [load_cell hkey, hrow]
  dsimp only
  rw [Work.drawing, Act.within, hdocument, Cell.toValue]
  dsimp only
  rcases hread' : Flow.importText (.text text) w.serial with ⟨fault | g', m⟩ <;> rw [hread'] at hok
  · cases hok
  · exact ⟨g', rfl⟩

/-- **A flow is loaded with the time of its first save exactly if the last save carried it.** An identifier is saved that is
not in the table, and then any writes follow that do not delete it. What is loaded by it then has the time of making that the
flow had after its first save, and so has the column, exactly if that time is a text and the flow that was last saved under
the identifier can be read and has it; rows without identifier are never found. -/
theorem load_made_iff {t : Instant} {writes : List (Instant × StoreWrite)} (hkey : Cell.ofValue 1 key = .ok c)
    (hid : Cell.ofValue 1 f.id = .ok c) (hnew : (w.store.getD {}).find? c = none)
    (hwrites : ∀ p ∈ (t, StoreWrite.save f) :: writes, p.2.Succeeds p.1) (hkept : ∀ p ∈ writes, ¬ p.2.Deletes c) :
    let made := (f.stamped t.savedStamp).createdAt
    let last := StoreWrite.latestAll c (f.stamped t.savedStamp) writes
    let after := StoreWrite.run w ((t, .save f) :: writes)
    (∃ g row, (load key after).1 = .ok (some g) ∧ g.createdAt = made ∧ (after.store.getD {}).find? c = some row ∧
        row.createdAt.toValue = made) ↔
      c.isNull = false ∧ made.IsText ∧ last.createdAt = made ∧ ∃ g, last.ReadsAs g := by
  intro made last after
  obtain ⟨hfirst, hlater⟩ := List.forall_mem_cons.1 hwrites
  have hfirst : (f.stamped t.savedStamp).Savable := hfirst
  have hlast : last.Savable := StoreWrite.savable_latestAll hfirst hlater
  cases hnull : c.isNull with
  | true =>
    refine iff_of_false ?_ (by simp)
    rintro ⟨g, row, -, -, hrow, -⟩
    obtain ⟨hfilled, rfl⟩ := Store.id_of_find? hrow
    rw [hnull] at hfilled
    cases hfilled
  | false =>
    have hkeeps := StoreWrite.keeps_after hid hnull hnew hwrites hkept
    obtain ⟨row, text, hrow, hmade, -⟩ := id hkeeps
    have hcolumn := hfirst.storable_createdAt.toValue_eq_iff hfirst.writable_createdAt hmade
    constructor
    · rintro ⟨g, row', hload, hg, hrow', hmade'⟩
      obtain rfl := Option.some.inj (hrow.symm.trans hrow')
      have hreads := readsAs_of_load hkeeps hkey hload
      exact ⟨rfl, hcolumn.1 hmade', (hlast.createdAt_eq hreads).symm.trans hg, g, hreads⟩
    · rintro ⟨-, htextual, hcarried, g, hg⟩
      obtain ⟨g', hload⟩ := exists_load hkeeps hkey hg
      have hreads := readsAs_of_load hkeeps hkey hload
      exact ⟨g', row, hload, (hlast.createdAt_eq hreads).trans hcarried, hrow, hcolumn.2 htextual⟩

/-! ## Two saves -/

/-- A flow without blocks. -/
def blank (id name : String) (createdAt : Value) : Flow where
  id := .text id
  name := .text name
  createdAt := createdAt

theorem writable_blank {id : String} (hid : (Value.text id).truthy = true) (name created updated : String) :
    Flow.Writable { blank id name (.text created) with updatedAt := .text updated } :=
  ⟨hid, .text _, .text _, List.forall_mem_nil _, List.forall_mem_nil _, .text _, .text _⟩

/-- A flow without blocks can be saved, and is read then. -/
theorem savable_blank {id : String} (hid : (Value.text id).truthy = true) (name created updated : String) :
    Flow.Savable { blank id name (.text created) with updatedAt := .text updated } ∧
      ∃ g, Flow.ReadsAs { blank id name (.text created) with updatedAt := .text updated } g := by
  have hwritable := writable_blank hid name created updated
  obtain ⟨text, htext, hread⟩ := hwritable.importText_reread
  refine ⟨⟨⟨⟨.text id, .text name, .text created, .text updated, .text text⟩, ?_⟩, ?_⟩, _, text, 0, 0, htext, hread 0⟩
  · rw [Flow.row, htext]
    rfl
  · intro doc hdoc
    obtain rfl := Except.ok.inj hdoc
    exact hwritable.document .nil

/-- One millisecond after the start of 1970. -/
def soon : Instant := ⟨1000, by decide +kernel⟩

/-- A flow that carries the time of its making is saved, then renamed and saved again. -/
def renamed : Workspace :=
  StoreWrite.run { flow := blank "a" "A" .null } [(Service.epoch, .save (blank "a" "A" (.text "then"))),
    (soon, .save (blank "a" "B" (.text "then"))), (soon, .delete (.text "b"))]

/-- It is loaded with that time. -/
theorem load_made_iff_renamed :
    ∃ g row, (load (.text "a") renamed).1 = .ok (some g) ∧ g.createdAt = .text "then" ∧
      (renamed.store.getD {}).find? (.text "a") = some row ∧ row.createdAt.toValue = .text "then" := by
  have hwrites : ∀ p ∈ [(Service.epoch, StoreWrite.save (blank "a" "A" (.text "then"))),
      (soon, .save (blank "a" "B" (.text "then"))), (soon, .delete (.text "b"))], p.2.Succeeds p.1 := by
    simp only [List.forall_mem_cons, List.not_mem_nil, false_implies, implies_true, and_true]
    exact ⟨(savable_blank rfl "A" "then" _).1, (savable_blank rfl "B" "then" _).1, trivial⟩
  have hkept : ∀ p ∈ [(soon, StoreWrite.save (blank "a" "B" (.text "then"))), (soon, .delete (.text "b"))],
      ¬ p.2.Deletes (.text "a") := by
    simp [StoreWrite.Deletes, Cell.ofValue]
  exact (load_made_iff rfl rfl rfl hwrites hkept).2 ⟨rfl, ⟨"then", rfl⟩, rfl, (savable_blank rfl "B" "then" _).2⟩

/-- A flow that does not carry the time of its making is saved twice. -/
def remade : Workspace :=
  StoreWrite.run { flow := blank "a" "A" .null } [(Service.epoch, .save (blank "a" "A" .null)),
    (soon, .save (blank "a" "A" .null))]

/-- **It is loaded with the time of the second save,** while the column has that of the first. -/
theorem load_remade :
    ∃ g row, (load (.text "a") remade).1 = .ok (some g) ∧ (remade.store.getD {}).find? (.text "a") = some row ∧
      row.createdAt = .text "1970-01-01T00:00:00.000Z" ∧ g.createdAt = .text "1970-01-01T00:00:00.001Z" := by
  have hfirst : Service.epoch.savedStamp = "1970-01-01T00:00:00.000Z" := by decide +kernel
  have hsoon : soon.savedStamp = "1970-01-01T00:00:00.001Z" := by decide +kernel
  have hwrites : ∀ p ∈ [(Service.epoch, StoreWrite.save (blank "a" "A" .null)), (soon, .save (blank "a" "A" .null))],
      p.2.Succeeds p.1 := by
    simp only [List.forall_mem_cons, List.not_mem_nil, false_implies, implies_true, and_true]
    exact ⟨(savable_blank rfl "A" _ _).1, (savable_blank rfl "A" _ _).1⟩
  have hkeeps : (remade.store.getD {}).Keeps (.text "a") (.text Service.epoch.savedStamp)
      ((blank "a" "A" .null).stamped soon.savedStamp) :=
    StoreWrite.keeps_after rfl rfl rfl hwrites (by simp [StoreWrite.Deletes])
  obtain ⟨row, text, hrow, hmade, -⟩ := id hkeeps
  have htruthy : (Value.text "a").truthy = true := rfl
  obtain ⟨hsavable, g, hg⟩ := savable_blank htruthy "A" soon.savedStamp soon.savedStamp
  have hkey : Cell.ofValue 1 (.text "a") = .ok (.text "a") := rfl
  obtain ⟨g', hload⟩ := exists_load hkeeps hkey hg
  refine ⟨g', row, hload, hrow, ?_, ?_⟩
  · rw [← hfirst]
    exact (Except.ok.inj hmade).symm
  · rw [hsavable.createdAt_eq (readsAs_of_load hkeeps hkey hload), ← hsoon]
    rfl

end Archive

end BlockFlow
