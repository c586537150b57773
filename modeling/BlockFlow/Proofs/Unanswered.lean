import BlockFlow.Proofs.Validation
import BlockFlow.Proofs.Visits

/-!
Requests that are not answered. After requests to the endpoints of the flow, a fault escapes from the next one only where a
coordinate is too large, a block is moved nowhere, a parameter or a type has no key, or the names of parameters are unlike.

* `Service.Oversized`, `Service.escapes_position`: positions from which a fault escapes.
* `Session.succeeds_findings`: when it can be told what is wrong with a flow.
* `Endpoint.Fails`, `Endpoint.fails_iff`: the requests from which a fault escapes.
* `Service.answered_iff`: **all other requests are answered.**
-/

namespace BlockFlow

/-! ## Positions -/

namespace Service

/-- The first coordinate of the position that is no floating-point number is an integer that is too large for one. -/
def Oversized : Value → Prop
  | .dict es =>
    (Entries.fieldD es "x" (.int 0)).Oversized ∨
      (∃ x, (Entries.fieldD es "x" (.int 0)).toReal = .ok x) ∧ (Entries.fieldD es "y" (.int 0)).Oversized
  | raw => OversizedPosition raw

theorem escapes_position (raw : Value) : Escapes (position raw) ↔ Oversized raw := by
  cases raw with
  | null =>
    refine iff_of_false (escapes_ok _) ?_
    rintro ⟨x, hx, -⟩
    cases hx
  | dict es =>
    simp only [position, Oversized, escapes_bind, escapes_toReal, escapes_pure, and_false, exists_false, or_false,
      exists_and_right]
  | _ => exact escapes_readPosition

end Service

/-- A fault of reading a number is one of reading, or the number is too large. -/
theorem Value.toReal_error {v : Value} {fault : Fault} (h : v.toReal = .error fault) :
    Flow.isUnreadable fault = true ∨ fault = .tooLarge := by
  unfold Value.toReal at h
  split at h
  · cases h
  · cases h
  · split at h
    · cases h
    · cases h
      exact Or.inr rfl
  · split at h
    · cases h
    · cases h
      exact Or.inl rfl
  · split at h
    · cases h
    · cases h
      exact Or.inl rfl
  · cases h
    exact Or.inl rfl

theorem bind_eq_error {α β : Type} {step : Except Fault α} {next : α → Except Fault β} {fault : Fault} :
    step >>= next = .error fault ↔ step = .error fault ∨ ∃ a, step = .ok a ∧ next a = .error fault := by
  cases step with
  | error f => simp [bind, Except.bind]
  | ok a => simp [bind, Except.bind]

theorem readPosition_error {v : Value} {fault : Fault} (h : readPosition v = .error fault) :
    Flow.isUnreadable fault = true ∨ fault = .tooLarge := by
  rcases bind_eq_error.1 h with h | ⟨x, -, h⟩
  · exact Or.inl (Value.nth_error h)
  rcases bind_eq_error.1 h with h | ⟨a, -, h⟩
  · exact Value.toReal_error h
  rcases bind_eq_error.1 h with h | ⟨y, -, h⟩
  · exact Or.inl (Value.nth_error h)
  rcases bind_eq_error.1 h with h | ⟨b, -, h⟩
  · exact Value.toReal_error h
  · cases h

namespace Service

theorem position_error {raw : Value} {fault : Fault} (h : position raw = .error fault) :
    Flow.isUnreadable fault = true ∨ fault = .tooLarge := by
  unfold position at h
  split at h
  · cases h
  · rcases bind_eq_error.1 h with h | ⟨a, -, h⟩
    · exact Value.toReal_error h
    rcases bind_eq_error.1 h with h | ⟨b, -, h⟩
    · exact Value.toReal_error h
    · cases h
  · exact readPosition_error h

theorem position_eq_null {raw : Value} : position raw = .ok .null ↔ raw = .null := by
  refine ⟨fun h => ?_, fun h => (by rw [h]; rfl)⟩
  unfold position at h
  split at h
  · rfl
  · obtain ⟨x, -, h⟩ := bind_eq_ok.1 h
    obtain ⟨y, -, h⟩ := bind_eq_ok.1 h
    cases h
  · obtain ⟨x, y, h⟩ := Flow.Served.place_of_readPosition h
    cases h

end Service

/-- A request with a position: it is read, it cannot be read, or it is too large. -/
theorem Effect.placing_cases (f : Flow) (raw : Value) (next : Value → Effect) :
    (∃ p, Service.position raw = .ok p ∧ ¬ Service.Oversized raw ∧ placing f raw next = next p) ∨
      (∀ p, Service.position raw ≠ .ok p) ∧ ¬ Service.Oversized raw ∧ placing f raw next = stay f 400 ∨
      Service.Oversized raw ∧ placing f raw next = .escape := by
  rw [← Service.escapes_position, placing]
  cases hposition : Service.position raw with
  | ok p => exact Or.inl ⟨p, rfl, escapes_ok _, rfl⟩
  | error fault =>
    right
    rcases Service.position_error hposition with hunreadable | rfl
    · refine Or.inl ⟨by simp, ?_, by simp [hunreadable]⟩
      rw [escapes_error]
      exact not_not.2 (Or.inl hunreadable)
    · exact Or.inr ⟨(escapes_error _).2 tooLarge_not_told, rfl⟩

/-! ## Flows between texts -/

namespace Flow.Served

variable {f : Flow} (h : f.Served Value.IsText)

include h

/-- An edge that is not let in is refused, and that is told. -/
theorem refusal_isSome {e : Edge} {fault : Fault} (hfault : f.addEdge e = .error fault) :
    (Session.refusal? fault).isSome = true := by
  unfold addEdge at hfault
  split at hfault
  · cases hfault
    rfl
  · cases hfault
    rfl
  · rename_i b c hb hc
    split at hfault
    · cases hfault
      rfl
    · have hsource := h.texts _ ((block?_isSome h.texts).1 (Option.isSome_of_eq_some hb))
      have htarget := h.texts _ ((block?_isSome h.texts).1 (Option.isSome_of_eq_some hc))
      have hends : (f.pushEdge e).TextEnds :=
        List.forall_mem_append.2 ⟨h.textEnds, List.forall_mem_singleton.2 ⟨hsource, htarget⟩⟩
      obtain ⟨found, hfound, -⟩ := wouldCycle_spec hends
      rw [hfound] at hfault
      cases found with
      | true =>
        cases hfault
        rfl
      | false => cases hfault

/-- It can be told what is wrong with the flow as a whole. -/
theorem succeeds_findings : Succeeds f.findings := by
  have hcaches : ∀ b ∈ f.blocks, ∀ v ∈ b.cache.inputs ++ b.cache.outputs, v.IsText := fun b hb =>
    List.forall_mem_append.2 ⟨(h.blocks b hb).inputs, (h.blocks b hb).outputs⟩
  obtain ⟨keys, repeated, hrepeated, -⟩ := blockFindings_spec (fun b hb => (h.blocks b hb).id.hasKey) []
  obtain ⟨edges, hedges, -⟩ := edgeFindings_spec h.keyed.ends keys []
  obtain ⟨circle, hcircle, -⟩ := hasCycle_spec h.texts h.textEnds
  obtain ⟨caches, hfound, -⟩ := cacheFindings_spec h.textEnds hcaches
  exact ⟨_, bind_eq_ok.2 ⟨_, hrepeated, bind_eq_ok.2 ⟨_, hedges, bind_eq_ok.2 ⟨_, hcircle,
    bind_eq_ok.2 ⟨_, hfound, rfl⟩⟩⟩⟩⟩

end Flow.Served

/-- It can be told what is wrong with a block exactly if its type can be looked up. -/
theorem Block.succeeds_findings {I : Value → Prop} {b : Block} (h : b.Served I) : Succeeds b.findings ↔ b.type.HasKey := by
  obtain ⟨es, hparams, -⟩ := h.params
  unfold Block.findings Palette.find?
  rw [hparams]
  cases hkey : b.type.key with
  | error fault =>
    refine iff_of_false (not_succeeds_error fault) ?_
    rintro ⟨k, hk⟩
    rw [hkey] at hk
    cases hk
  | ok k =>
    refine iff_of_true ?_ ⟨k, hkey⟩
    cases hkind : Palette.kinds.find? fun kind => Value.same kind.type b.type with
    | none => exact ⟨_, rfl⟩
    | some kind => exact ⟨_, rfl⟩

/-- **It can be told what is wrong with a flow and its blocks exactly if all types can be looked up.** -/
theorem Session.succeeds_findings {f : Flow} (h : f.Served Value.IsText) :
    Succeeds (Session.findings f) ↔ ∀ b ∈ f.blocks, b.type.HasKey := by
  have hblocks : (∀ b ∈ f.blocks, Succeeds b.findings) ↔ ∀ b ∈ f.blocks, b.type.HasKey :=
    forall₂_congr fun b hb => Block.succeeds_findings (h.blocks b hb)
  obtain ⟨structural, hstructural⟩ := h.succeeds_findings
  rw [← hblocks, ← succeeds_mapM, findings, hstructural]
  exact succeeds_bind_pure

/-! ## Effects that come to nothing -/

/-- The effect comes to nothing, where code can be made of all flows. -/
def Effect.Fails : Effect → Prop
  | .escape => True
  | .reply _ _ told _ => ¬ ∀ b ∈ told, b.Orderly

theorem Effect.Ends.succeeds_iff {t : Instant} {d after : EditorState} {outcome : Except Fault Reply} {effect : Effect}
    (h : effect.Ends t d outcome after) (hkeyed : ∀ g told status, effect = .reply g true told status → g.Keyed) :
    Succeeds outcome ↔ ¬ effect.Fails := by
  cases effect with
  | escape => exact iff_of_false h.1 (not_not.2 trivial)
  | reply g anew told status =>
    rw [Effect.Fails, not_not]
    cases anew with
    | false => exact h.2.1
    | true => exact (h.1 (hkeyed g told status rfl)).2.1

theorem Effect.Ends.status {t : Instant} {d after : EditorState} {outcome : Except Fault Reply} {effect : Effect}
    {reply : Reply} (h : effect.Ends t d outcome after) (hreply : outcome = .ok reply) :
    ∃ g anew told, effect = .reply g anew told reply.status := by
  have hsucceeds : Succeeds outcome := ⟨reply, hreply⟩
  cases effect with
  | escape => exact absurd hsucceeds h.1
  | reply g anew told status =>
    refine ⟨g, anew, told, ?_⟩
    cases anew with
    | false => rw [h.2.2 reply hreply]
    | true =>
      by_cases hkeyed : g.Keyed
      · rw [(h.1 hkeyed).2.2 reply hreply]
      · exact absurd hsucceeds (h.2 hkeyed).2

theorem Effect.Makes.status_mem {es : List (Value × Value)} {n : Nat} {f g : Flow} {anew : Bool} {told : List Block}
    {status : Nat} (h : Makes es n f (.reply g anew told status)) : status ∈ [200, 201, 400, 404, 409] := by
  cases h with
  | same h => exact List.Sublist.subset (by decide) h
  | _ => decide

/-- The parameter cannot be set for want of a key, or its name is unlike those of the others. -/
def Block.Breaks (b : Block) (name value : Value) : Prop :=
  ∃ es, b.params = .dict es ∧
    (¬ name.HasKey ∨ ¬ (Entries.insert es name value).Pairwise fun x y => Value.Alike x.1 y.1)

theorem Block.breaks_iff {I : Value → Prop} {b : Block} (h : b.Served I) {name value : Value} :
    b.Breaks name value ↔ ∀ params, b.params.assign name value = .ok params → ¬ Block.Orderly { b with params } := by
  obtain ⟨es, hparams, -⟩ := h.params
  rw [Breaks, hparams, Value.assign, Value.insertEntry]
  simp only [Value.dict.injEq, exists_eq_left', Orderly]
  cases hkey : name.key with
  | error fault =>
    refine iff_of_true (Or.inl ?_) fun params hassign => (by cases hassign)
    rintro ⟨k, hk⟩
    rw [hkey] at hk
    cases hk
  | ok k =>
    have hname : name.HasKey := ⟨k, hkey⟩
    simp [Except.map, hname]

namespace Endpoint

/-- A fault escapes from a request to the endpoint, by the fields of its body and the flow at hand. -/
def Fails (es : List (Value × Value)) (f : Flow) : Endpoint → Prop
  | .flow | .blocks => ∃ b ∈ f.blocks, ¬ b.Orderly
  | .rename => (Entries.fieldD es "name" .null).truthy = true ∧ ∃ b ∈ f.blocks, ¬ b.Orderly
  | .addBlock => (Entries.fieldD es "type" .null).truthy = true ∧ Service.Oversized (Entries.fieldD es "position" .null)
  | .setParam id => ∃ key b, Entries.field? es "key" = some key ∧ f.block? (.text id) = some b ∧
    b.Breaks key (Entries.fieldD es "value" .null)
  | .move id =>
    let raw := Entries.fieldD es "position" (.list [.int 0, .int 0])
    Service.Oversized raw ∨ raw = .null ∧ (f.block? (.text id)).isSome = true
  | .code => ∃ b ∈ f.blocks, ¬ b.type.HasKey
  | _ => False

variable {es : List (Value × Value)} {f : Flow} {n : Nat} {effect : Effect}

theorem fails_told {told : List Block} {g : Flow} {anew : Bool} {status : Nat} :
    (Effect.reply g anew told status).Fails ↔ ∃ b ∈ told, ¬ b.Orderly := by
  simp [Effect.Fails]

theorem not_fails_stay (f : Flow) (status : Nat) : ¬ (Effect.stay f status).Fails := by
  simp [Effect.stay, Effect.Fails]

theorem fails_setParam (hf : f.Served Value.IsText) (id : String) :
    (Effect.ofSetParam es f id).Fails ↔ Fails es f (.setParam id) := by
  show _ ↔ ∃ key b, Entries.field? es "key" = some key ∧ f.block? (.text id) = some b ∧ _
  unfold Effect.ofSetParam
  split
  · rename_i hkey
    simp [hkey, not_fails_stay]
  · rename_i hkey hblock
    simp [hblock, not_fails_stay]
  · rename_i key b hkey hblock
    simp only [hkey, hblock, Option.some.injEq, exists_and_left, exists_eq_left']
    rw [Block.breaks_iff (hf.blocks b (List.mem_of_find?_eq_some hblock))]
    split
    · rename_i fault hassign
      exact iff_of_true trivial fun params hparams => (by rw [hassign] at hparams; cases hparams)
    · rename_i params hassign
      simp [fails_told, hassign]

theorem fails_move (id : String) : (Effect.ofMove es f id).Fails ↔ Fails es f (.move id) := by
  unfold Fails Effect.ofMove
  dsimp only
  generalize Entries.fieldD es "position" (.list [.int 0, .int 0]) = raw
  rcases Effect.placing_cases f raw _ with ⟨p, hp, hsized, hplacing⟩ | ⟨hp, hsized, hplacing⟩ | ⟨hsized, hplacing⟩
  · rw [hplacing, Flow.move]
    simp only [hsized, false_or]
    cases hblock : f.block? (.text id) with
    | none => simp [not_fails_stay]
    | some b =>
      rcases Service.place_of_position hp with rfl | ⟨x, y, rfl⟩
      · exact iff_of_true trivial ⟨Service.position_eq_null.1 hp, rfl⟩
      · have hraw : raw ≠ .null := fun hraw => by cases hraw; cases hp
        have hread : readPosition (.place x y) = .ok (.place x y) := rfl
        simp [hread, hraw, fails_told]
  · rw [hplacing]
    refine iff_of_false (not_fails_stay _ _) ?_
    rintro (hover | ⟨rfl, -⟩)
    · exact hsized hover
    · exact hp .null rfl
  · rw [hplacing]
    exact iff_of_true trivial (Or.inl hsized)

theorem fails_addBlock (n : Nat) : (Effect.ofAddBlock es n f).Fails ↔ Fails es f .addBlock := by
  unfold Fails Effect.ofAddBlock
  dsimp only
  split
  · rename_i htype
    simp only [htype, true_and]
    rcases Effect.placing_cases f (Entries.fieldD es "position" .null) _ with
      ⟨p, -, hsized, hplacing⟩ | ⟨-, hsized, hplacing⟩ | ⟨hsized, hplacing⟩
    · rw [hplacing]
      simp [hsized, fails_told]
    · rw [hplacing]
      simp [hsized, not_fails_stay]
    · rw [hplacing]
      exact iff_of_true trivial hsized
  · rename_i htype
    simp [htype, not_fails_stay]

theorem fails_code (hf : f.Served Value.IsText) : (Effect.ofCode f).Fails ↔ Fails es f .code := by
  have hfindings := Session.succeeds_findings hf
  unfold Fails Effect.ofCode
  dsimp only
  split
  · rename_i warnings hok
    rw [hok] at hfindings
    have htypes := hfindings.1 ⟨_, rfl⟩
    refine iff_of_false (not_fails_stay _ _) ?_
    rintro ⟨b, hb, htype⟩
    exact htype (htypes b hb)
  · rename_i fault herror
    rw [herror] at hfindings
    have htypes := mt hfindings.2 (not_succeeds_error fault)
    push Not at htypes
    exact iff_of_true trivial htypes

/-- **The effect of an endpoint comes to nothing exactly if the request is one from which a fault escapes.** -/
theorem fails_iff (hf : f.Served Value.IsText) {e : Endpoint} (h : e.effect es n f = some effect) :
    effect.Fails ↔ e.Fails es f := by
  cases e with
  | flow | blocks =>
    cases h
    exact fails_told
  | exportFlow | edges =>
    cases h
    exact iff_of_false (not_fails_stay _ _) not_false
  | newFlow | clear =>
    cases h
    simp [Fails, Effect.Fails]
  | rename =>
    cases h
    unfold Fails Effect.ofRename
    dsimp only
    split
    · rename_i hname
      simp [hname, fails_told]
    · rename_i hname
      simp [hname, not_fails_stay]
  | code => exact Option.some.inj h ▸ fails_code hf
  | addBlock => exact Option.some.inj h ▸ fails_addBlock n
  | setParam id => exact Option.some.inj h ▸ fails_setParam hf id
  | move id => exact Option.some.inj h ▸ fails_move id
  | removeBlock id =>
    cases h
    unfold Effect.ofRemoveBlock
    split
    · exact iff_of_false (not_fails_stay _ _) not_false
    · simp [Fails, Effect.Fails]
  | addEdge =>
    cases h
    unfold Effect.ofAddEdge
    split
    · split
      · simp [Fails, Effect.Fails]
      · rename_i fault hfault
        rw [if_pos (hf.refusal_isSome hfault)]
        exact iff_of_false (not_fails_stay _ _) not_false
    · exact iff_of_false (not_fails_stay _ _) not_false
  | removeEdge id =>
    cases h
    unfold Effect.ofRemoveEdge
    split
    · exact iff_of_false (not_fails_stay _ _) not_false
    · simp [Fails, Effect.Fails]
  | _ => cases h

end Endpoint

namespace Service

/-- **A request is answered unless it is one of those.** This holds after requests to the endpoints of the flow, of every
request to one of them, or for the code, that has an object for its body; surrogates that stand alone are left out. -/
theorem answered_iff (w : Workspace) (start : Instant) {visits : List (Instant × Request)} (t : Instant)
    (hvisits : ∀ v ∈ visits, v.2.AsksFlow) {r : Request} {e : Endpoint} (hr : r.Asks e) (he : e.OfFlow ∨ e = .code) :
    (Succeeds (serve r e (reached w start visits t)).1 ↔ ¬ e.Fails r.fields (reached w start visits t).flow) ∧
      ∃ reply after, respond r (reached w start visits t) = (.ok reply, after) ∧
        (e.Fails r.fields (reached w start visits t).flow → reply.status = 500) ∧
        (¬ e.Fails r.fields (reached w start visits t).flow → reply.status ∈ [200, 201, 400, 404, 409]) := by
  have hflow : (reached w start visits t).flow.Served Value.IsText := (drawn_reached w start hvisits t).flow
  have hnow := now_reached w start visits t
  generalize reached w start visits t = before at hflow hnow
  have hbeside : e.isBeside = false := by
    rcases he with he | rfl
    · exact he.not_beside
    · rfl
  have hread := Request.isRead_fields hr.object
  obtain ⟨effect, heffect⟩ := e.exists_effect hbeside r.fields before.serial before.flow
  have hmakes := Endpoint.effect_makes heffect
  have hends := serve_effect (hflow.mono fun _ => Value.IsText.isRead) hnow (Request.data_eq hr.object) hread heffect
  have hsucceeds : Succeeds (serve r e before).1 ↔ ¬ e.Fails r.fields before.flow := by
    rw [← Endpoint.fails_iff hflow heffect]
    refine hends.succeeds_iff fun g told status hreply => ?_
    exact ((hreply ▸ hmakes).served identifying_isText hread hflow).keyed
  obtain ⟨reply, after, hrun, -, hown, hfault⟩ := respond_to hr.route before
  refine ⟨hsucceeds, reply, after, hrun, fun hfails => hfault (mt hsucceeds.1 (not_not.2 hfails)), fun hfails => ?_⟩
  obtain ⟨own, howned⟩ := hsucceeds.2 hfails
  obtain ⟨g, anew, told, rfl⟩ := hends.status howned
  rw [hown own howned]
  exact hmakes.status_mem

/-- The block is to be moved nowhere. -/
def unplaced : Request := ask "POST" "/api/flow/blocks/block-2/move" "\x7b\"position\": null\x7d"

theorem asks_unplaced : unplaced.Asks (.move "block-2") where
  object := by decide +kernel
  paired := Request.paired_of_withoutSurrogates (by decide +kernel) (by decide +kernel)
  route := by decide +kernel

theorem ofFlow_unplaced : (Endpoint.move "block-2").OfFlow := ⟨"POST", ["blocks", "block-2", "move"], by decide⟩

/-- A block cannot be moved nowhere, and that is not told. -/
theorem respond_unplaced : ∃ reply after, respond unplaced (asked [placed]) = (.ok reply, after) ∧ reply.status = 500 :=
  exists_reply (by decide +kernel)

theorem answered_iff_unplaced :
    (∀ v ∈ [(epoch, placed)], v.2.AsksFlow) ∧ unplaced.Asks (.move "block-2") ∧ (Endpoint.move "block-2").OfFlow ∧
      (Endpoint.move "block-2").Fails unplaced.fields (asked [placed]).flow := by
  refine ⟨asksFlow_placed, asks_unplaced, ofFlow_unplaced, by_contra fun hfails => ?_⟩
  obtain ⟨-, reply, after, hrun, -, hanswered⟩ := answered_iff { flow := { id := .null } } epoch epoch asksFlow_placed
    asks_unplaced (Or.inl ofFlow_unplaced)
  obtain ⟨reply', after', hrun', hstatus⟩ := respond_unplaced
  obtain ⟨hreply, -⟩ := Prod.mk.inj (hrun'.symm.trans hrun)
  obtain rfl := Except.ok.inj hreply
  have hmem := hanswered hfails
  rw [hstatus] at hmem
  simp at hmem

/-- Not every request is answered by its endpoint. -/
theorem unanswered_move : ¬ ∀ (w : Workspace) (start : Instant) (visits : List (Instant × Request)) (t : Instant)
    (r : Request) (e : Endpoint) (reply : Reply) (after : Workspace), (∀ v ∈ visits, v.2.AsksFlow) → r.Asks e →
    e.OfFlow ∨ e = .code → respond r (reached w start visits t) = (.ok reply, after) →
    reply.status ∈ [200, 201, 400, 404, 409] := by
  intro hall
  obtain ⟨reply, after, hrun, hstatus⟩ := respond_unplaced
  have hmem := hall _ _ _ _ unplaced _ reply after asksFlow_placed asks_unplaced (Or.inl ofFlow_unplaced) hrun
  rw [hstatus] at hmem
  simp at hmem

end Service

end BlockFlow
