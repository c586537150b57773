import BlockFlow.Proofs.FlowMap
import BlockFlow.Proofs.Unanswered

/-!
Listings of saved flows. A row whose document is not understood is passed over; a row from whose document a fault escapes
stops the listing, whatever the other rows hold.

* `Flow.Derails`, `Flow.importText_untold_iff`: the documents from which a fault escapes.
* `Flow.importText_isOk`: whether a document can be read does not depend on the identifiers that are drawn.
* `FlowRow.readable`, `FlowRow.Holds`: rows that can be read, and what they are read as.
* `Archive.attempt_row`, `Archive.reads_readRows`: one row, and rows one after the other.
* `Archive.list_ok_iff`: **a listing is given exactly if no row derails it, and then it has the flows of all rows that can
  be read.** `Archive.list_hidden`: a row that hides another.
-/

namespace BlockFlow

open BlockFlow.Flow (isUnreadable asFormat)

/-! ## Faults of reading -/

theorem family_ne_complaint {fault : Fault} (h : isUnreadable fault = true) : fault.family ≠ .complaint := by
  intro hfamily
  simp [isUnreadable, hfamily] at h

namespace Value

theorem get_error {v : Value} {name : String} {other : Value} {fault : Fault} (h : v.get name other = .error fault) :
    fault.family ≠ .complaint := by
  cases v with
  | dict es => cases h
  | _ =>
    cases h
    simp [Fault.family]

theorem require_error {v : Value} {name : String} {fault : Fault} (h : v.require name = .error fault) :
    isUnreadable fault = true := by
  unfold require item at h
  cases v with
  | dict es =>
    rw [key_text] at h
    dsimp only at h
    split at h <;> cases h
    rfl
  | _ =>
    cases h
    rfl

end Value

theorem mapM_eq_error {α β : Type} {step : α → Except Fault β} {xs : List α} {fault : Fault}
    (h : xs.mapM step = .error fault) : ∃ x ∈ xs, step x = .error fault := by
  induction xs with
  | nil => cases h
  | cons x xs ih =>
    rw [List.mapM_cons] at h
    rcases bind_eq_error.1 h with h | ⟨y, -, h⟩
    · exact ⟨x, List.mem_cons_self, h⟩
    · rcases bind_eq_error.1 h with h | ⟨ys, -, h⟩
      · obtain ⟨z, hz, hfault⟩ := ih h
        exact ⟨z, List.mem_cons_of_mem _ hz, hfault⟩
      · cases h

/-- A fault of reading a block is no complaint. -/
theorem Block.ofDocument_error {doc : Value} {fault : Fault} (h : Block.ofDocument doc = .error fault) :
    fault.family ≠ .complaint := by
  have hplace {v : Value} (hv : readPosition v = .error fault) : fault.family ≠ .complaint := by
    rcases readPosition_error hv with hunread | rfl
    · exact family_ne_complaint hunread
    · simp [Fault.family]
  rcases bind_eq_error.1 h with h | ⟨position, -, h⟩
  · exact Value.get_error h
  rcases bind_eq_error.1 h with h | ⟨connections, -, h⟩
  · exact Value.get_error h
  rcases bind_eq_error.1 h with h | ⟨id, -, h⟩
  · exact family_ne_complaint (Value.require_error h)
  rcases bind_eq_error.1 h with h | ⟨type, -, h⟩
  · exact family_ne_complaint (Value.require_error h)
  rcases bind_eq_error.1 h with h | ⟨place, -, h⟩
  · exact hplace h
  rcases bind_eq_error.1 h with h | ⟨given, -, h⟩
  · exact Value.get_error h
  rcases bind_eq_error.1 h with h | ⟨params, -, h⟩
  · exact family_ne_complaint (Value.toEntries_error h)
  rcases bind_eq_error.1 h with h | ⟨sources, -, h⟩
  · exact Value.get_error h
  rcases bind_eq_error.1 h with h | ⟨inputs, -, h⟩
  · exact family_ne_complaint (Value.toList_error h)
  rcases bind_eq_error.1 h with h | ⟨targets, -, h⟩
  · exact Value.get_error h
  rcases bind_eq_error.1 h with h | ⟨outputs, -, h⟩
  · exact family_ne_complaint (Value.toList_error h)
  · cases h

namespace Flow

/-- The source holds a document that passes the checks, and the first of its blocks that cannot be read is a faulty one. -/
def Derails (source : Value) : Prop :=
  ∃ entries before block after edgeDocs, Json.parse source = .ok (.dict entries) ∧
    Checked entries (before ++ .dict block :: after) edgeDocs ∧ (∀ doc ∈ before, ∃ b, Block.ofDocument doc = .ok b) ∧
    Block.Faulty block

/-- **A fault that is no complaint about the format comes of a document that derails, and of no other.** -/
theorem importText_untold_iff (source : Value) (n : Nat) :
    (∃ fault, (importText source n).1 = .error fault ∧ ¬ fault.IsFormat) ↔ Derails source := by
  rw [importText]
  cases hparse : Json.parse source with
  | error fault =>
    refine iff_of_false ?_ fun h => ?_
    · rintro ⟨_, ⟨⟩, hformat⟩
      exact hformat (isFormat_asFormat.2 (Or.inl (Json.parse_error hparse)))
    · obtain ⟨_, _, _, _, _, hdoc, -⟩ := h
      rw [hparse] at hdoc
      cases hdoc
  | ok doc =>
    have htold := not_congr (ofData_told_iff doc n)
    rw [not_not] at htold
    push Not at htold
    refine htold.trans ⟨?_, ?_⟩
    · rintro ⟨hcheck, hescapes⟩
      obtain ⟨entries, blockDocs, edgeDocs, rfl, hchecked⟩ := checkData_eq_ok.1 hcheck
      obtain ⟨before, doc, after, rfl, hbefore, hdoc⟩ := escapes_mapM.1 ((escapes_ofDocument hchecked n).1 hescapes)
      have hfields := hchecked.named doc (by simp)
      obtain ⟨block, rfl, -⟩ := hasFields_iff.1 hfields
      exact ⟨entries, before, block, after, edgeDocs, hparse, hchecked, hbefore, (Block.escapes_ofDocument hfields).1 hdoc⟩
    · rintro ⟨entries, before, block, after, edgeDocs, hdoc, hchecked, hbefore, hfaulty⟩
      obtain rfl := Except.ok.inj (hparse.symm.trans hdoc)
      refine ⟨checkData_eq_ok.2 ⟨_, _, _, rfl, hchecked⟩, (escapes_ofDocument hchecked n).2 (escapes_mapM.2 ?_)⟩
      have hfields := hchecked.named (.dict block) (by simp)
      exact ⟨before, .dict block, after, rfl, hbefore, (Block.escapes_ofDocument hfields).2 hfaulty⟩

theorem ofDocument_error {entries : List (Value × Value)} {blockDocs edgeDocs : List Value}
    (h : Checked entries blockDocs edgeDocs) {n : Nat} {fault : Fault}
    (hfault : (ofDocument (.dict entries) n).1 = .error fault) : fault.Told ∨ fault.family ≠ .complaint := by
  obtain ⟨id, hid⟩ := h.exists_id
  obtain ⟨edges, n', hedges⟩ := Edge.ofDocuments_ok h.ended n
  rw [ofDocument_apply h hid hedges] at hfault
  cases hblocks : blockDocs.mapM Block.ofDocument with
  | error g =>
    rw [hblocks] at hfault
    obtain rfl := Except.error.inj hfault
    obtain ⟨doc, -, hdoc⟩ := mapM_eq_error hblocks
    exact Or.inr (Block.ofDocument_error hdoc)
  | ok blocks =>
    rw [hblocks] at hfault
    dsimp only at hfault
    split at hfault
    · generalize Flow.mk _ _ _ _ _ _ = f at hfault
      have hrebuild := not_escapes_rebuild f
      cases hout : f.rebuild.2 with
      | error g =>
        rw [hout] at hfault hrebuild
        obtain rfl := Except.error.inj hfault
        exact Or.inl (not_not.1 (mt (escapes_error g).2 hrebuild))
      | ok u =>
        rw [hout] at hfault
        cases hfault
    · cases hfault

/-- What is complained about when a text is imported is its format. -/
theorem importText_error {source : Value} {n : Nat} {fault : Fault} (h : (importText source n).1 = .error fault) :
    fault.IsFormat ∨ fault.family ≠ .complaint := by
  rw [importText] at h
  cases hparse : Json.parse source with
  | error f =>
    rw [hparse] at h
    obtain rfl := Except.error.inj h
    exact Or.inl (isFormat_asFormat.2 (Or.inl (Json.parse_error hparse)))
  | ok doc =>
    rw [hparse] at h
    dsimp only at h
    rw [ofData, Act.bind_apply, Act.ofExcept_apply] at h
    cases hcheck : checkData doc with
    | error f =>
      rw [hcheck] at h
      obtain rfl := Except.error.inj h
      exact Or.inl (checkData_error hcheck)
    | ok u =>
      obtain ⟨entries, blockDocs, edgeDocs, rfl, hchecked⟩ := checkData_eq_ok.1 hcheck
      rw [hcheck] at h
      dsimp only at h
      rw [Act.tryCatch_apply] at h
      rcases hread : ofDocument (.dict entries) n with ⟨f | flow, n'⟩
      · rw [hread] at h
        obtain rfl := Except.error.inj h
        rcases ofDocument_error hchecked (congrArg Prod.fst hread) with htold | hfamily
        · exact Or.inl (isFormat_asFormat.2 htold)
        · rw [asFormat]
          split
          · exact Or.inl ⟨_, _, rfl⟩
          · exact Or.inr hfamily
      · rw [hread] at h
        cases h

end Flow

/-- The faults of importing that a listing passes over are the complaints about the format. -/
theorem Archive.isFormat_iff {source : Value} {n : Nat} {fault : Fault} (h : (Flow.importText source n).1 = .error fault) :
    Archive.isFormat fault = true ↔ fault.IsFormat := by
  constructor
  · intro hformat
    rcases Flow.importText_error h with hfault | hfamily
    · exact hfault
    · unfold Archive.isFormat at hformat
      split at hformat
      · exact absurd rfl hfamily
      · cases hformat
  · rintro ⟨reason, details, rfl⟩
    rfl

/-! ## Reading does not depend on what is drawn -/

/-- The edges have the same ends. -/
def Edge.SameEnds (e d : Edge) : Prop := e.source = d.source ∧ e.target = d.target

theorem Edge.sameEnds_ofDocuments {docs : List Value} {m n m' n' : Nat} {edges edges' : List Edge}
    (h : Edge.ofDocuments docs m = (.ok edges, m')) (h' : Edge.ofDocuments docs n = (.ok edges', n')) :
    List.Forall₂ Edge.SameEnds edges edges' := by
  induction docs generalizing m n m' n' edges edges' with
  | nil =>
    obtain rfl := Except.ok.inj (Prod.mk.inj h).1
    obtain rfl := Except.ok.inj (Prod.mk.inj h').1
    exact .nil
  | cons doc docs ih =>
    obtain ⟨e, k, he, h⟩ := Act.bind_eq_ok.1 h
    obtain ⟨rest, l, hrest, h⟩ := Act.bind_eq_ok.1 h
    obtain rfl := Except.ok.inj (Prod.mk.inj h).1
    obtain ⟨e', k', he', h'⟩ := Act.bind_eq_ok.1 h'
    obtain ⟨rest', l', hrest', h'⟩ := Act.bind_eq_ok.1 h'
    obtain rfl := Except.ok.inj (Prod.mk.inj h').1
    obtain ⟨-, hsource, htarget, -⟩ := Edge.ofDocument_eq_ok he
    obtain ⟨-, hsource', htarget', -⟩ := Edge.ofDocument_eq_ok he'
    have hends : Edge.SameEnds e e' :=
      ⟨Except.ok.inj (hsource.symm.trans hsource'), Except.ok.inj (htarget.symm.trans htarget')⟩
    exact .cons hends (ih hrest hrest')

namespace Flow

theorem rememberAll_congr {edges edges' : List Edge} (h : List.Forall₂ Edge.SameEnds edges edges')
    (blocks : List (Key × Block)) : rememberAll blocks edges = rememberAll blocks edges' := by
  induction h generalizing blocks with
  | nil => rfl
  | @cons e d _ _ hends _ ih =>
    rw [rememberAll, rememberAll, hends.1, hends.2]
    cases d.source.key with
    | error fault => rfl
    | ok source =>
      dsimp only
      cases d.target.key with
      | error fault => rfl
      | ok target => exact ih _

/-- The caches are made anew from the ends of the edges. -/
theorem rebuild_congr {f g : Flow} (hblocks : f.blocks = g.blocks) (hedges : List.Forall₂ Edge.SameEnds f.edges g.edges) :
    f.rebuild.2 = g.rebuild.2 := by
  unfold rebuild
  rw [hblocks]
  cases g.blocks.mapM fun b => b.id.key.map fun k => (k, b) with
  | error fault => rfl
  | ok keyed =>
    dsimp only
    rw [rememberAll_congr hedges]

theorem isOk_map {α β : Type} (outcome : Except Fault α) (g : α → β) : (outcome.map g).isOk = outcome.isOk := by
  cases outcome <;> rfl

theorem ofDocument_isOk {entries : List (Value × Value)} {blockDocs edgeDocs : List Value}
    (h : Checked entries blockDocs edgeDocs) (m n : Nat) :
    (ofDocument (.dict entries) m).1.isOk = (ofDocument (.dict entries) n).1.isOk := by
  obtain ⟨id, hid⟩ := h.exists_id
  obtain ⟨edges, m', hedges⟩ := Edge.ofDocuments_ok h.ended m
  obtain ⟨edges', n', hedges'⟩ := Edge.ofDocuments_ok h.ended n
  have hends := Edge.sameEnds_ofDocuments hedges hedges'
  rw [ofDocument_apply h hid hedges, ofDocument_apply h hid hedges']
  cases blockDocs.mapM Block.ofDocument with
  | error fault => rfl
  | ok blocks =>
    dsimp only
    split
    · rw [isOk_map, isOk_map]
      exact congrArg _ (rebuild_congr rfl hends)
    · rfl

/-- **Whether a text can be imported does not depend on the identifiers that are drawn.** -/
theorem importText_isOk (source : Value) (m n : Nat) : (importText source m).1.isOk = (importText source n).1.isOk := by
  rw [importText]
  cases Json.parse source with
  | error fault => rfl
  | ok doc =>
    dsimp only
    rw [ofData, Act.bind_apply, Act.bind_apply, Act.ofExcept_apply, Act.ofExcept_apply]
    cases hcheck : checkData doc with
    | error fault => rfl
    | ok u =>
      obtain ⟨entries, blockDocs, edgeDocs, rfl, hchecked⟩ := checkData_eq_ok.1 hcheck
      have hread := ofDocument_isOk hchecked m n
      dsimp only
      rw [Act.tryCatch_apply, Act.tryCatch_apply]
      revert hread
      rcases ofDocument (.dict entries) m with ⟨fault | f, m'⟩ <;>
        rcases ofDocument (.dict entries) n with ⟨fault' | g, n'⟩ <;> intro hread
      · rfl
      · cases hread
      · cases hread
      · rfl

end Flow

/-! ## Rows -/

namespace FlowRow

/-- The document of the row is read as the flow. -/
def Holds (r : FlowRow) (f : Flow) : Prop := ∃ n n', Flow.importText r.document.toValue n = (.ok f, n')

/-- The document of the row can be read. -/
def readable (r : FlowRow) : Bool := (Flow.importText r.document.toValue 1).1.isOk

theorem readable_eq (r : FlowRow) (n : Nat) : r.readable = (Flow.importText r.document.toValue n).1.isOk :=
  Flow.importText_isOk _ _ _

/-- A row can be read if it holds a flow. -/
theorem readable_iff {r : FlowRow} : r.readable = true ↔ ∃ f, r.Holds f := by
  constructor
  · intro h
    rcases hread : Flow.importText r.document.toValue 1 with ⟨fault | f, n'⟩
    · rw [readable, hread] at h
      cases h
    · exact ⟨f, 1, n', hread⟩
  · rintro ⟨f, n, n', hread⟩
    rw [readable_eq r n, hread]
    rfl

/-- A row that can be read does not stop a listing. -/
theorem not_derails {r : FlowRow} (h : r.readable = true) : ¬ Flow.Derails r.document.toValue := by
  intro hderails
  obtain ⟨fault, hfault, -⟩ := (Flow.importText_untold_iff _ 1).2 hderails
  rw [readable, hfault] at h
  cases h

end FlowRow

namespace Archive

/-- **A row is read, or it is passed over, or it stops the reading.** -/
theorem attempt_row (r : FlowRow) (w : Workspace) :
    ∃ outcome w', Act.attempt (Work.drawing (Flow.importText r.document.toValue)) w = (.ok outcome, w') ∧
      ((∃ f, outcome = .ok f ∧ r.Holds f ∧ r.readable = true ∧ ¬ Flow.Derails r.document.toValue) ∨
        (∃ fault, outcome = .error fault ∧ isFormat fault = true ∧ r.readable = false ∧
          ¬ Flow.Derails r.document.toValue) ∨
        ∃ fault, outcome = .error fault ∧ isFormat fault = false ∧ Flow.Derails r.document.toValue) := by
  have huntold := Flow.importText_untold_iff r.document.toValue w.serial
  have hreadable := r.readable_eq w.serial
  rcases hread : Flow.importText r.document.toValue w.serial with ⟨fault | f, n'⟩
  · rw [hread] at huntold hreadable
    refine ⟨.error fault, { w with serial := n' }, by rw [Act.attempt, Work.drawing, Act.within, hread], Or.inr ?_⟩
    have hiff := isFormat_iff (congrArg Prod.fst hread)
    by_cases hformat : fault.IsFormat
    · refine Or.inl ⟨fault, rfl, hiff.2 hformat, hreadable, fun hderails => ?_⟩
      obtain ⟨g, hg, hnot⟩ := huntold.2 hderails
      exact hnot (Except.error.inj hg ▸ hformat)
    · exact Or.inr ⟨fault, rfl, Bool.eq_false_iff.2 (mt hiff.1 hformat), huntold.1 ⟨fault, rfl, hformat⟩⟩
  · rw [hread] at hreadable
    refine ⟨.ok f, { w with serial := n' }, by rw [Act.attempt, Work.drawing, Act.within, hread], Or.inl ?_⟩
    exact ⟨f, rfl, ⟨_, _, hread⟩, hreadable, FlowRow.not_derails hreadable⟩

/-- The outcome of reading rows: the flows of the rows that can be read, unless a row derails the reading. -/
def Reads (rows : List FlowRow) (outcome : Except Fault (List Flow)) : Prop :=
  (∃ flows, outcome = .ok flows ∧ List.Forall₂ FlowRow.Holds (rows.filter FlowRow.readable) flows ∧
      ∀ r ∈ rows, ¬ Flow.Derails r.document.toValue) ∨
    ∃ fault, outcome = .error fault ∧ ∃ r ∈ rows, Flow.Derails r.document.toValue

/-- Rows are read one after the other, until one stops the reading. -/
theorem reads_readRows (rows : List FlowRow) (w : Workspace) : Reads rows (readRows rows w).1 := by
  induction rows generalizing w with
  | nil => exact Or.inl ⟨[], rfl, .nil, List.forall_mem_nil _⟩
  | cons r rows ih =>
    obtain ⟨outcome, w', hattempt, hcases⟩ := attempt_row r w
    rw [readRows, Act.bind_apply, hattempt]
    rcases hcases with ⟨f, rfl, hf, hreadable, hrails⟩ | ⟨fault, rfl, hformat, hreadable, hrails⟩ |
      ⟨fault, rfl, hformat, hderails⟩
    · dsimp only
      rw [Act.bind_apply]
      have hrest := ih w'
      rcases hrows : readRows rows w' with ⟨fault | flows, w''⟩ <;> rw [hrows] at hrest
      · obtain ⟨_, hok, -⟩ | ⟨_, -, x, hx, hderails⟩ := hrest
        · cases hok
        · exact Or.inr ⟨fault, rfl, x, List.mem_cons_of_mem _ hx, hderails⟩
      · obtain ⟨_, hok, hflows, hall⟩ | ⟨_, hfault, -⟩ := hrest
        · obtain rfl := Except.ok.inj hok
          refine Or.inl ⟨f :: flows, rfl, ?_, List.forall_mem_cons.2 ⟨hrails, hall⟩⟩
          rw [List.filter_cons_of_pos hreadable]
          exact .cons hf hflows
        · cases hfault
    · dsimp only
      rw [if_pos hformat, Act.bind_apply, Work.note_apply]
      obtain ⟨flows, hok, hflows, hall⟩ | ⟨g, hg, x, hx, hderails⟩ := ih { w' with notes := _ }
      · refine Or.inl ⟨flows, hok, ?_, List.forall_mem_cons.2 ⟨hrails, hall⟩⟩
        rwa [List.filter_cons_of_neg (Bool.eq_false_iff.1 hreadable)]
      · exact Or.inr ⟨g, hg, x, List.mem_cons_of_mem _ hx, hderails⟩
    · dsimp only
      rw [if_neg (Bool.eq_false_iff.1 hformat), Act.fail_apply]
      exact Or.inr ⟨fault, rfl, r, List.mem_cons_self, hderails⟩

theorem list_apply (w : Workspace) :
    list w = readRows (w.store.getD {}).listing { w with store := some (w.store.getD {}) } := by
  rw [list, Act.bind_apply, Session.store_apply]

/-- If all rows can be read, all flows are listed. -/
theorem list_readable {w : Workspace} (h : ∀ r ∈ (w.store.getD {}).listing, r.readable = true) :
    ∃ flows, (list w).1 = .ok flows ∧ List.Forall₂ FlowRow.Holds (w.store.getD {}).listing flows := by
  rw [list_apply]
  obtain ⟨flows, hok, hflows, -⟩ | ⟨-, -, r, hr, hderails⟩ :=
    reads_readRows (w.store.getD {}).listing { w with store := some (w.store.getD {}) }
  · rw [List.filter_eq_self.2 h] at hflows
    exact ⟨flows, hok, hflows⟩
  · exact absurd hderails (FlowRow.not_derails (h r hr))

/-- **A listing is given exactly if no row of the table derails it, and then it has the flows of all rows that can be read,
in the order of the listing.** -/
theorem list_ok_iff (w : Workspace) :
    ((∃ flows, (list w).1 = .ok flows) ↔ ∀ r ∈ (w.store.getD {}).flows, ¬ Flow.Derails r.document.toValue) ∧
      ∀ flows, (list w).1 = .ok flows →
        List.Forall₂ FlowRow.Holds ((w.store.getD {}).listing.filter FlowRow.readable) flows := by
  have hmem : ∀ r, r ∈ (w.store.getD {}).listing ↔ r ∈ (w.store.getD {}).flows := fun r => (Store.listing_perm _).mem_iff
  have hreads := reads_readRows (w.store.getD {}).listing { w with store := some (w.store.getD {}) }
  rw [← list_apply] at hreads
  obtain ⟨flows, hok, hflows, hall⟩ | ⟨fault, hfault, r, hr, hderails⟩ := hreads
  · refine ⟨iff_of_true ⟨flows, hok⟩ fun r hr => hall r ((hmem r).2 hr), fun flows' hok' => ?_⟩
    obtain rfl := Except.ok.inj (hok.symm.trans hok')
    exact hflows
  · refine ⟨iff_of_false ?_ fun hall => hall r ((hmem r).1 hr) hderails, fun flows hok => ?_⟩
    · rintro ⟨flows, hok⟩
      rw [hfault] at hok
      cases hok
    · rw [hfault] at hok
      cases hok

/-- A table of two rows. The flow of the first has connections that are a list; the second holds an empty flow. -/
def derailed : Store where
  flows := [⟨.text "x", .text "X", .text "t", .text "t", .text Flow.listedConnections⟩,
    ⟨.text "y", .text "Y", .text "s", .text "s", .text "\x7b\"id\": \"y\", \"blocks\": [], \"edges\": []\x7d"⟩]

/-- **A row that cannot be read hides the others:** the second row can be read, and nothing is listed. -/
theorem list_hidden :
    (∃ r ∈ derailed.flows, r.readable = true) ∧
      ∀ w : Workspace, w.store = some derailed → ¬ ∃ flows, (list w).1 = .ok flows := by
  refine ⟨by decide +kernel, ?_⟩
  rintro w hstore ⟨flows, hok⟩
  have hderails : Flow.Derails (.text Flow.listedConnections) := by
    have hfailure : failure? (Flow.importText (.text Flow.listedConnections) 1).1 = some .attribute := by decide +kernel
    obtain ⟨fault, hfault, -, hformat⟩ := exists_of_failure? hfailure (by decide)
    exact (Flow.importText_untold_iff _ 1).1 ⟨fault, hfault, hformat⟩
  rw [list_apply, hstore] at hok
  obtain ⟨_, -, -, hall⟩ | ⟨fault, hfault, -⟩ := reads_readRows derailed.listing { w with store := some derailed }
  · exact hall _ ((Store.listing_perm derailed).mem_iff.2 List.mem_cons_self) hderails
  · exact absurd (hfault.symm.trans hok) (by simp)

end Archive

end BlockFlow
