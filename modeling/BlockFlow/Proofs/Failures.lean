import BlockFlow.Proofs.Visits

/-!
What a request that fails leaves behind. The flow is changed and its code announced before the answer is made, so a fault in
what comes after leaves the change without an answer.

* `Effect.Whole`: effects without a fault in the middle.
* `Service.failed_unchanged_iff`: **a request that fails leaves flow, code and announcements as they were exactly if its
  effect is whole.**
-/

namespace BlockFlow

namespace Effect

/-- Code can be made of the new flow, and all blocks can be told that are to be told; or no code can be made, and there is
nothing to change either. -/
def Whole (f : Flow) : Effect → Prop
  | .reply g true told _ => g.Keyed ∧ (∀ b ∈ told, b.Orderly) ∨ ¬ g.Keyed ∧ g = f
  | _ => True

variable {es : List (Value × Value)} {n : Nat} {f g : Flow} {told : List Block} {status : Nat}

theorem Makes.status_of_anew (h : Makes es n f (.reply g true told status)) : status < 400 := by
  cases h <;> decide

theorem Makes.of_kept (h : Makes es n f (.reply g false told status)) : g = f ∨ told = [] ∧ status = 200 := by
  cases h with
  | same => exact Or.inl rfl
  | moved => exact Or.inr ⟨rfl, rfl⟩

end Effect

/-- The flow, the code and the announcements are as they were. -/
def EditorState.Unchanged (d after : EditorState) : Prop :=
  after.flow = d.flow ∧ after.code = d.code ∧ after.announced = d.announced

namespace EditorState

variable {d : EditorState} {f : Flow} {t : Instant}

theorem unchanged_put : d.Unchanged (d.put f) ↔ f = d.flow := by
  simp [Unchanged, put]

/-- What is announced shows. -/
theorem not_unchanged_renew (h : d.listening = true) : ¬ d.Unchanged (d.renew t f) := by
  rintro ⟨-, -, hannounced⟩
  have hsize := congrArg Array.size hannounced
  simp [renew, h] at hsize

end EditorState

/-- An effect ends with an answer below 400, or with the editor as it was, exactly if it is whole. -/
theorem Effect.Ends.unchanged_iff {es : List (Value × Value)} {n : Nat} {t : Instant} {d after : EditorState}
    {outcome : Except Fault Reply} {effect : Effect} (h : effect.Ends t d outcome after) (hmakes : effect.Makes es n d.flow)
    (hlistening : d.listening = true) {reply : Reply} (hown : ∀ own, outcome = .ok own → reply.status = own.status)
    (hfault : ¬ Succeeds outcome → reply.status = 500) :
    (400 ≤ reply.status → d.Unchanged after) ↔ effect.Whole d.flow := by
  have hanswered {told : List Block} {status : Nat} (hend : Answered told status outcome)
      (horderly : ∀ b ∈ told, b.Orderly) : reply.status = status := by
    obtain ⟨own, howned⟩ := hend.1.2 horderly
    exact (hown own howned).trans (hend.2 own howned)
  cases effect with
  | escape =>
    refine iff_of_true (fun _ => ?_) trivial
    rw [h.2]
    exact ⟨rfl, rfl, rfl⟩
  | reply g anew told status =>
    cases anew with
    | false =>
      obtain ⟨hafter, hend⟩ := h
      refine iff_of_true (fun hstatus => ?_) trivial
      rw [hafter, EditorState.unchanged_put]
      rcases hmakes.of_kept with hsame | ⟨rfl, rfl⟩
      · exact hsame
      · rw [hanswered hend (List.forall_mem_nil _)] at hstatus
        simp at hstatus
    | true =>
      by_cases hkeyed : g.Keyed
      · obtain ⟨hafter, hend⟩ := h.1 hkeyed
        by_cases horderly : ∀ b ∈ told, b.Orderly
        · refine iff_of_true (fun hstatus => ?_) (Or.inl ⟨hkeyed, horderly⟩)
          rw [hanswered hend horderly] at hstatus
          exact absurd hmakes.status_of_anew (Nat.not_lt.2 hstatus)
        · refine iff_of_false (fun hunchanged => ?_) ?_
          · have hstatus := hfault (mt hend.1.1 horderly)
            rw [hafter] at hunchanged
            exact EditorState.not_unchanged_renew hlistening (hunchanged (by rw [hstatus]; decide))
          · rintro (⟨-, horderly'⟩ | ⟨hunkeyed, -⟩)
            · exact horderly horderly'
            · exact hunkeyed hkeyed
      · obtain ⟨hafter, hend⟩ := h.2 hkeyed
        have hstatus : 400 ≤ reply.status := by
          rw [hfault hend]
          decide
        rw [hafter, EditorState.unchanged_put]
        constructor
        · exact fun hunchanged => Or.inr ⟨hkeyed, hunchanged hstatus⟩
        · rintro (⟨hkeyed', -⟩ | ⟨-, hsame⟩) _
          · exact absurd hkeyed' hkeyed
          · exact hsame

namespace Service

/-- **A request that fails leaves flow, code and announcements as they were exactly if its effect is whole.** This holds
after all requests whatsoever, of every request that leads to an endpoint of the flow and has an object for its body.
A surrogate that stands alone in a body is read as the replacement character. -/
theorem failed_unchanged_iff (w : Workspace) (start : Instant) (visits : List (Instant × Request)) (t : Instant)
    {r : Request} {e : Endpoint} (hobject : r.data.isDict = true) (hroute : Route.find r.verb r.path = .to e)
    (he : e.OfFlow) :
    ∃ reply after, respond r (reached w start visits t) = (.ok reply, after) ∧
      ((400 ≤ reply.status → after.flow = (reached w start visits t).flow ∧ after.code = (reached w start visits t).code ∧
          after.announced = (reached w start visits t).announced) ↔
        ∀ effect, e.effect r.fields (reached w start visits t).serial (reached w start visits t).flow = some effect →
          effect.Whole (reached w start visits t).flow) := by
  have hopen := open_reached w start visits t
  have hnow := now_reached w start visits t
  generalize reached w start visits t = before at hopen hnow
  obtain ⟨effect, heffect⟩ := e.exists_effect he.not_beside r.fields before.serial before.flow
  obtain ⟨reply, after, hrun, heditor, hown, hfault⟩ := respond_to hroute before
  have hends := serve_effect hopen.flow hnow (Request.data_eq hobject) (Request.isRead_fields hobject) heffect
  rw [Meets, ← heditor] at hends
  refine ⟨reply, after, hrun, ?_⟩
  rw [heffect]
  simp only [Option.some.injEq, forall_eq']
  exact hends.unchanged_iff (Endpoint.effect_makes heffect) hopen.listening hown hfault

/-- A block gets a parameter whose name is a text. -/
def named : List Request :=
  [ask "POST" "/api/flow/blocks" "\x7b\"type\": \"print\"\x7d",
    ask "PATCH" "/api/flow/blocks/block-2/params" "\x7b\"key\": \"a\"\x7d"]

/-- It is to get another one whose name is a number. -/
def numbered : Request := ask "PATCH" "/api/flow/blocks/block-2/params" "\x7b\"key\": 1\x7d"

/-- The status of an answer, and how many announcements there are then. -/
def summarize (result : Except Fault Reply × Workspace) : Option Nat × Nat :=
  (result.1.toOption.map (·.status), result.2.announced.size)

/-- A name unlike the others cannot be told, but it is set, and the new code is announced. -/
theorem respond_numbered : ∃ reply after, respond numbered (asked named) = (.ok reply, after) ∧ reply.status = 500 ∧
    after.announced ≠ (asked named).announced := by
  have hsummary : summarize (respond numbered (asked named)) = (some 500, (asked named).announced.size + 1) := by
    decide +kernel
  obtain ⟨hstatus, hsize⟩ := Prod.mk.inj hsummary
  obtain ⟨reply, after, hrun, hreply⟩ := exists_reply hstatus
  refine ⟨reply, after, hrun, hreply, fun hsame => ?_⟩
  rw [hrun] at hsize
  exact Nat.succ_ne_self _ (hsize.symm.trans (congrArg Array.size hsame))

theorem ofFlow_numbered : (Endpoint.setParam "block-2").OfFlow := ⟨"PATCH", ["blocks", "block-2", "params"], by decide⟩

theorem failed_unchanged_numbered :
    numbered.data.isDict = true ∧ Route.find numbered.verb numbered.path = .to (.setParam "block-2") ∧
      (Endpoint.setParam "block-2").OfFlow ∧
      ¬ ∀ effect,
        (Endpoint.setParam "block-2").effect numbered.fields (asked named).serial (asked named).flow = some effect →
        effect.Whole (asked named).flow := by
  have hobject : numbered.data.isDict = true := by decide +kernel
  have hroute : Route.find numbered.verb numbered.path = .to (.setParam "block-2") := by decide +kernel
  refine ⟨hobject, hroute, ofFlow_numbered, fun hwhole => ?_⟩
  obtain ⟨reply, after, hrun, hiff⟩ := failed_unchanged_iff { flow := { id := .null } } epoch
    (named.map fun r => (epoch, r)) epoch hobject hroute ofFlow_numbered
  obtain ⟨reply', after', hrun', hstatus, hannounced⟩ := respond_numbered
  obtain ⟨hreply, rfl⟩ := Prod.mk.inj (hrun'.symm.trans hrun)
  obtain rfl := Except.ok.inj hreply
  exact hannounced (hiff.2 hwhole (by rw [hstatus]; decide)).2.2

/-- Not every request that fails leaves all as it was. -/
theorem failed_can_change : ¬ ∀ (w : Workspace) (start : Instant) (visits : List (Instant × Request)) (t : Instant)
    (r : Request) (e : Endpoint) (reply : Reply) (after : Workspace), r.data.isDict = true →
    Route.find r.verb r.path = .to e → e.OfFlow → respond r (reached w start visits t) = (.ok reply, after) →
    400 ≤ reply.status → after.announced = (reached w start visits t).announced := by
  intro hall
  obtain ⟨reply, after, hrun, hstatus, hannounced⟩ := respond_numbered
  exact hannounced (hall _ _ _ _ numbered _ reply after (by decide +kernel) (by decide +kernel) ofFlow_numbered hrun
    (by rw [hstatus]; decide))

end Service

end BlockFlow
