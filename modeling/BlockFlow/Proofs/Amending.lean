import BlockFlow.Proofs.Effects

/-!
Edits of one block that fail. To set a parameter or to move a block is done at once or not at all. To amend a block is done
in two parts, and the second puts pairs into the parameters one after the other; so what was done before a fault stays.

* `Entries.insertAll`, `Entries.insertAll_eq_self`: **pairs change nothing exactly if every name is there with the value of
  its last pair.**
* `Value.pair?`, `Value.givenEntries`, `Value.Mergeable`: what is put into a dictionary before the first flaw of a value, and
  the values without flaw.
* `Block.amended`, `Flow.SplitAt.amend`: what an amendment leaves, whether it fails or not.
* `Block.Refuses`, `Block.Withstands`, `Edit.refused_spares_iff`: **an amendment that fails leaves the flow as it was
  exactly if its position cannot be read, or what was done before the fault was so already.**
-/

namespace BlockFlow

/-! ## Pairs put into a dictionary -/

namespace Entries

variable {es pairs : List (Value × Value)}

/-- Puts pairs into a dictionary, one after the other. -/
def insertAll (es pairs : List (Value × Value)) : List (Value × Value) :=
  pairs.foldl (fun done p => insert done p.1 p.2) es

/-- The value that pairs give to a name: that of the last pair with it. -/
def last? (pairs : List (Value × Value)) (name : Value) : Option Value :=
  ((pairs.filter fun p => Value.same name p.1).getLast?).map (·.2)

theorem last?_cons (p : Value × Value) (pairs : List (Value × Value)) (name : Value) :
    last? (p :: pairs) name = (last? pairs name).or (if Value.same name p.1 then some p.2 else none) := by
  unfold last?
  rw [List.filter_cons]
  split
  · rw [List.getLast?_cons]
    cases (pairs.filter fun q => Value.same name q.1).getLast? <;> rfl
  · rw [Option.or_none]

/-- The entries with the values replaced, which names stay the same. -/
theorem contains_map {change : Value × Value → Value × Value} (h : ∀ e, (change e).1 = e.1) (name : Value) :
    contains (es.map change) name = contains es name := by
  unfold contains
  rw [List.any_map]
  simp only [Function.comp_def, h]

/-- The entries with the value of one name replaced. -/
def replace (k v : Value) (e : Value × Value) : Value × Value := if Value.same e.1 k then (e.1, v) else e

theorem replace_fst (k v : Value) (e : Value × Value) : (replace k v e).1 = e.1 := by
  unfold replace
  split <;> rfl

theorem insert_of_contains {k v : Value} (h : contains es k = true) : insert es k v = es.map (replace k v) := if_pos h

theorem insert_of_new {k v : Value} (h : ¬ contains es k = true) : insert es k v = es ++ [(k, v)] := if_neg h

/-- Pairs whose names are all there only replace values. -/
theorem insertAll_of_contains (h : ∀ p ∈ pairs, contains es p.1 = true) :
    insertAll es pairs = es.map fun e => (e.1, (last? pairs e.1).getD e.2) := by
  induction pairs generalizing es with
  | nil => exact (List.map_id es).symm
  | cons p pairs ih =>
    obtain ⟨hp, hpairs⟩ := List.forall_mem_cons.1 h
    show insertAll (insert es p.1 p.2) pairs = _
    rw [insert_of_contains hp, ih, List.map_map]
    · apply List.map_congr_left
      intro e _
      rw [Function.comp_apply, last?_cons, replace_fst, replace]
      cases last? pairs e.1 with
      | some v => rfl
      | none => split <;> rfl
    · intro q hq
      rw [contains_map (replace_fst p.1 p.2)]
      exact hpairs q hq

theorem length_le_insertAll (es pairs : List (Value × Value)) : es.length ≤ (insertAll es pairs).length := by
  induction pairs generalizing es with
  | nil => exact Nat.le_refl _
  | cons p pairs ih =>
    apply Nat.le_trans _ (ih _)
    show es.length ≤ (insert es p.1 p.2).length
    by_cases hp : contains es p.1 = true
    · rw [insert_of_contains hp, List.length_map]
    · rw [insert_of_new hp, List.length_append]
      omega

/-- A pair with a new name makes the dictionary longer. -/
theorem length_lt_insertAll {p : Value × Value} (hp : p ∈ pairs) (hnew : ¬ contains es p.1 = true) :
    es.length < (insertAll es pairs).length := by
  induction pairs generalizing es with
  | nil => cases hp
  | cons q pairs ih =>
    show es.length < (insertAll (insert es q.1 q.2) pairs).length
    by_cases hq : contains es q.1 = true
    · have hmem : p ∈ pairs := by
        rcases List.mem_cons.1 hp with rfl | hmem
        · exact absurd hq hnew
        · exact hmem
      have hstill : ¬ contains (es.map (replace q.1 q.2)) p.1 = true := by
        rwa [contains_map (replace_fst q.1 q.2)]
      have hlonger := ih hmem hstill
      rw [insert_of_contains hq]
      rwa [List.length_map] at hlonger
    · have hrest := length_le_insertAll (insert es q.1 q.2) pairs
      rw [insert_of_new hq, List.length_append, List.length_singleton] at hrest
      rw [insert_of_new hq]
      omega

/-- **Pairs change nothing exactly if every name is there with the value of its last pair.** -/
theorem insertAll_eq_self : insertAll es pairs = es ↔
    (∀ p ∈ pairs, contains es p.1 = true) ∧ ∀ e ∈ es, ∀ v, last? pairs e.1 = some v → v = e.2 := by
  have hvalues : (es.map fun e => (e.1, (last? pairs e.1).getD e.2)) = es ↔
      ∀ e ∈ es, ∀ v, last? pairs e.1 = some v → v = e.2 := by
    conv_lhs => rhs; rw [← List.map_id es]
    rw [List.map_inj_left]
    refine forall₂_congr fun e _ => ?_
    cases last? pairs e.1 <;> simp [Prod.ext_iff]
  constructor
  · intro h
    have hthere : ∀ p ∈ pairs, contains es p.1 = true := by
      intro p hp
      by_contra hnew
      have hlonger := length_lt_insertAll hp hnew
      rw [h] at hlonger
      exact Nat.lt_irrefl _ hlonger
    rw [insertAll_of_contains hthere] at h
    exact ⟨hthere, hvalues.1 h⟩
  · rintro ⟨hthere, hlast⟩
    rw [insertAll_of_contains hthere]
    exact hvalues.2 hlast

end Entries

/-! ## What a value gives -/

namespace Value

/-- The pair of a name and a value that an element of a list stands for. -/
def pair? (v : Value) : Option (Value × Value) :=
  match v.parts? with
  | some [k, x] =>
    match k.key with
    | .ok _ => some (k, x)
    | .error _ => none
  | _ => none

/-- The pairs before the first element that is none. -/
def leading : List Value → List (Value × Value)
  | [] => []
  | v :: rest =>
    match v.pair? with
    | some p => p :: leading rest
    | none => []

/-- The entries that a value gives to a dictionary before its first flaw. -/
def givenEntries : Value → List (Value × Value)
  | .dict es => es
  | v => leading (v.parts?.getD [])

/-- The value is a dictionary, or all its parts are pairs. -/
def Mergeable : Value → Prop
  | .dict _ => True
  | v => ∃ xs, v.parts? = some xs ∧ ∀ x ∈ xs, x.pair?.isSome

theorem toPair_eq_ok {position : Nat} {v a b : Value} : toPair position v = .ok (a, b) ↔ v.parts? = some [a, b] := by
  unfold toPair
  split
  · simp [*]
  · rename_i x y hparts
    rw [hparts]
    simp
  · rename_i xs hpair hparts
    rw [hparts]
    refine iff_of_false (by simp) fun h => ?_
    exact hpair a b (Option.some.inj h)

/-- An element is put into a dictionary exactly if it stands for a pair. -/
theorem pair?_eq_some (position : Nat) (es : List (Value × Value)) {v : Value} {p : Value × Value} :
    v.pair? = some p ↔ toPair position v = .ok p ∧ insertEntry es p.1 p.2 = .ok (Entries.insert es p.1 p.2) := by
  obtain ⟨a, b⟩ := p
  rw [toPair_eq_ok, insertEntry, pair?]
  constructor
  · intro h
    split at h
    · rename_i k x hparts
      split at h
      · rename_i key hkey
        obtain ⟨rfl, rfl⟩ := Prod.mk.inj (Option.some.inj h)
        exact ⟨hparts, by rw [hkey]⟩
      · cases h
    · cases h
  · rintro ⟨hparts, hinsert⟩
    rw [hparts]
    dsimp only at hinsert ⊢
    cases hkey : a.key with
    | error fault =>
      rw [hkey] at hinsert
      cases hinsert
    | ok key => rfl

/-- What pairs leave in a dictionary: those before the first flaw. -/
theorem mergePairs_apply (es : List (Value × Value)) (position : Nat) (items : List Value) :
    (mergePairs es position items).1 = Entries.insertAll es (leading items) ∧
      (Succeeds (mergePairs es position items).2 ↔ ∀ x ∈ items, x.pair?.isSome) := by
  fun_induction mergePairs es position items with
  | case1 es position => exact ⟨rfl, iff_of_true ⟨(), rfl⟩ (List.forall_mem_nil _)⟩
  | case2 es position v rest fault hpair =>
    have hnone : v.pair? = none := by
      by_contra hsome
      obtain ⟨p, hp⟩ := Option.ne_none_iff_exists'.1 hsome
      cases hpair.symm.trans ((pair?_eq_some position es).1 hp).1
    rw [leading, hnone]
    exact ⟨rfl, iff_of_false (not_succeeds_error fault) (by simp [hnone])⟩
  | case3 es position v rest a b hpair fault hinsert =>
    have hnone : v.pair? = none := by
      by_contra hsome
      obtain ⟨p, hp⟩ := Option.ne_none_iff_exists'.1 hsome
      obtain ⟨hp, hinsert'⟩ := (pair?_eq_some position es).1 hp
      obtain rfl := Except.ok.inj (hpair.symm.trans hp)
      cases hinsert.symm.trans hinsert'
    rw [leading, hnone]
    exact ⟨rfl, iff_of_false (not_succeeds_error fault) (by simp [hnone])⟩
  | case4 es position v rest a b hpair more hinsert ih =>
    have hmore : more = Entries.insert es a b := by
      rw [insertEntry] at hinsert
      split at hinsert
      · exact (Except.ok.inj hinsert).symm
      · cases hinsert
    subst hmore
    have hsome : v.pair? = some (a, b) := (pair?_eq_some position es).2 ⟨hpair, hinsert⟩
    rw [leading, hsome, List.forall_mem_cons, hsome]
    exact ⟨ih.1, ih.2.trans (and_iff_right rfl).symm⟩

/-- What a value leaves in a dictionary: all that it gives before its first flaw. -/
theorem mergeInto_apply (es : List (Value × Value)) (v : Value) :
    (mergeInto es v).1 = Entries.insertAll es v.givenEntries ∧ (Succeeds (mergeInto es v).2 ↔ v.Mergeable) := by
  have hsequence {v : Value} {xs : List Value} (hparts : v.parts? = some xs) (hdict : v.isDict = false) :
      (mergeInto es v).1 = Entries.insertAll es v.givenEntries ∧ (Succeeds (mergeInto es v).2 ↔ v.Mergeable) := by
    have hmerge : mergeInto es v = mergePairs es 0 xs := by
      cases v <;> simp_all [mergeInto, isDict]
    have hgiven : v.givenEntries = leading xs := by
      cases v <;> simp_all [givenEntries, isDict]
    have hmergeable : v.Mergeable ↔ ∀ x ∈ xs, x.pair?.isSome := by
      cases v <;> simp_all [Mergeable, isDict]
    rw [hmerge, hgiven, hmergeable]
    exact mergePairs_apply es 0 xs
  cases v with
  | dict entries => exact ⟨rfl, iff_of_true ⟨(), rfl⟩ trivial⟩
  | list xs => exact hsequence rfl rfl
  | tuple xs => exact hsequence rfl rfl
  | text s => exact hsequence rfl rfl
  | bytes bs => exact hsequence rfl rfl
  | null | bool | int | real =>
    refine ⟨rfl, iff_of_false (not_succeeds_error _) ?_⟩
    rintro ⟨xs, hparts, -⟩
    cases hparts

end Value

/-! ## What an amendment leaves -/

/-- The block with a position and with what a value gives to its parameters, each where it is given. -/
def Block.amended (b : Block) (place params : Option Value) : Block :=
  { b with
    position := place.getD b.position
    params :=
      match params, b.params with
      | some ps, .dict es => .dict (Entries.insertAll es ps.givenEntries)
      | _, old => old }

theorem Block.amended_eq_self {b : Block} {place params : Option Value} : b.amended place params = b ↔
    (∀ p, place = some p → p = b.position) ∧
      ∀ ps es, params = some ps → b.params = .dict es → Entries.insertAll es ps.givenEntries = es := by
  obtain ⟨id, type, position, old, cache⟩ := b
  unfold amended
  cases place <;> cases params <;> cases old <;> simp

namespace Flow

variable {f : Flow} {id : Value} {b : Block} {position place : Option Value}

/-- The blocks before and after the first one of an identifier. -/
structure SplitAt (f : Flow) (id : Value) (b : Block) (before after : List Block) : Prop where
  blocks : f.blocks = before ++ b :: after
  found : b.id.equal id = true
  first : ∀ c ∈ before, c.id.equal id = false

theorem exists_splitAt (h : f.block? id = some b) : ∃ before after, f.SplitAt id b before after := by
  obtain ⟨hfound, before, after, hblocks, hfirst⟩ := List.find?_eq_some_iff_append.1 h
  exact ⟨before, after, hblocks, hfound, fun c hc => by simpa using hfirst c hc⟩

namespace SplitAt

variable {before after : List Block} (h : f.SplitAt id b before after)
include h

theorem block?_eq : f.block? id = some b := by
  rw [block?, List.find?_eq_some_iff_append]
  exact ⟨h.found, before, after, h.blocks, fun c hc => by simpa using h.first c hc⟩

/-- What comes in the place of the block. -/
theorem updateBlock (change : Block → Block) :
    f.updateBlock id change = { f with blocks := before ++ change b :: after } := by
  have hsplit : ∀ xs : List Block, (∀ c ∈ xs, c.id.equal id = false) →
      modifyFirst (fun c => c.id.equal id) change (xs ++ b :: after) = xs ++ change b :: after := by
    intro xs hxs
    induction xs with
    | nil => rw [List.nil_append, modifyFirst, if_pos h.found, List.nil_append]
    | cons c xs ih =>
      obtain ⟨hc, hrest⟩ := List.forall_mem_cons.1 hxs
      rw [List.cons_append, modifyFirst, hc, if_neg Bool.false_ne_true, ih hrest, List.cons_append]
  rw [Flow.updateBlock, h.blocks, hsplit before h.first]

/-- The flow is split at the same place when the block is changed and keeps its identifier. -/
theorem put {c : Block} (hid : c.id = b.id) :
    Flow.SplitAt { f with blocks := before ++ c :: after } id c before after :=
  ⟨rfl, by rw [hid]; exact h.found, h.first⟩

theorem eq_self_iff {c : Block} : { f with blocks := before ++ c :: after } = f ↔ c = b := by
  constructor
  · intro hself
    have hblocks : before ++ c :: after = f.blocks := congrArg Flow.blocks hself
    rw [h.blocks] at hblocks
    exact (List.cons.inj (List.append_cancel_left hblocks)).1
  · rintro rfl
    rw [← h.blocks]

/-- What parameters leave that are merged into those of the block, and whether all of them are. -/
theorem mergeParams (ps : Value) :
    (f.mergeParams id b ps).1 = { f with blocks := before ++ b.amended none (some ps) :: after } ∧
      (Succeeds (f.mergeParams id b ps).2 ↔ b.params.isDict = true ∧ ps.Mergeable) := by
  have hother (hparams : b.params.isDict = false) (hamended : b.amended none (some ps) = b)
      (hmerge : f.mergeParams id b ps = (f, .error (.noAttribute b.params.kind "update"))) :
      (f.mergeParams id b ps).1 = { f with blocks := before ++ b.amended none (some ps) :: after } ∧
        (Succeeds (f.mergeParams id b ps).2 ↔ b.params.isDict = true ∧ ps.Mergeable) := by
    rw [hmerge, hamended, hparams]
    exact ⟨(h.eq_self_iff.2 rfl).symm, iff_of_false (not_succeeds_error _) (by simp)⟩
  obtain ⟨id', type, place, old, cache⟩ := b
  cases old with
  | dict es =>
    obtain ⟨hmerged, houtcome⟩ := Value.mergeInto_apply es ps
    refine ⟨?_, houtcome.trans (and_iff_right rfl).symm⟩
    show f.updateBlock id (fun c => { c with params := .dict (Value.mergeInto es ps).1 }) = _
    rw [h.updateBlock, hmerged]
    rfl
  | null | bool | int | real | text | bytes | list | tuple => exact hother rfl rfl rfl

/-- What an amendment leaves whose position can be read: a position, and what is given to the parameters before a flaw. -/
theorem amend (hplace : position.mapM readPosition = .ok place) (params : Option Value) :
    (f.amend id position params).1 = { f with blocks := before ++ b.amended place params :: after } ∧
      (Succeeds (f.amend id position params).2 ↔ ∀ ps, params = some ps → b.params.isDict = true ∧ ps.Mergeable) := by
  have hamend : f.amend id position params =
      params.elim ({ f with blocks := before ++ b.amended place none :: after }, .ok ())
        (Flow.mergeParams { f with blocks := before ++ b.amended place none :: after } id b) := by
    rw [Flow.amend, h.block?_eq]
    dsimp only
    rw [hplace]
    cases place with
    | none =>
      have hself := h.eq_self_iff.2 (show b.amended none none = b from rfl)
      cases params <;> simp only [hself, Option.elim]
    | some p =>
      dsimp only
      rw [h.updateBlock]
      cases params <;> rfl
  rw [hamend]
  cases params with
  | none => exact ⟨rfl, iff_of_true ⟨(), rfl⟩ (by simp)⟩
  | some ps =>
    obtain ⟨hmerged, houtcome⟩ := (h.put (c := b.amended place none) rfl).mergeParams ps
    -- The parameters go into those of the block that was found, and moving it has not changed them.
    have hfound (g : Flow) : g.mergeParams id (b.amended place none) ps = g.mergeParams id b ps := rfl
    rw [hfound] at hmerged houtcome
    refine ⟨hmerged, houtcome.trans ?_⟩
    simp [Block.amended]

end SplitAt

end Flow

/-! ## Edits that fail -/

/-- The position is given and cannot be read. -/
def Misplaced (position : Option Value) : Prop := ∃ p, position = some p ∧ ¬ Succeeds (readPosition p)

theorem mapM_readPosition (position : Option Value) :
    (Misplaced position ∧ ∃ fault, position.mapM readPosition = .error fault) ∨
      ¬ Misplaced position ∧ ∃ place, position.mapM readPosition = .ok place ∧
        ∀ v, (∀ p, place = some p → p = v) ↔ ∀ p, position = some p → readPosition p = .ok v := by
  cases position with
  | none => exact Or.inr ⟨by simp [Misplaced], none, rfl, by simp⟩
  | some p =>
    cases hread : readPosition p with
    | error fault =>
      refine Or.inl ⟨⟨p, rfl, by rw [hread]; exact not_succeeds_error fault⟩, fault, ?_⟩
      rw [Option.mapM_some, hread]
      rfl
    | ok q =>
      refine Or.inr ⟨?_, some q, ?_, by simp [hread]⟩
      · rintro ⟨p', hp', hfail⟩
        obtain rfl := Option.some.inj hp'
        exact hfail ⟨q, hread⟩
      · rw [Option.mapM_some, hread]
        rfl

namespace Block

/-- An amendment of the block fails: its position cannot be read, or what it has for parameters has a flaw, or the block
has no dictionary to put it into. -/
def Refuses (b : Block) (position params : Option Value) : Prop :=
  Misplaced position ∨ ∃ ps, params = some ps ∧ ¬ (b.params.isDict = true ∧ ps.Mergeable)

/-- The block stays as it is under an amendment that fails: its position cannot be read, or it is that of the block, and
all names that are given before the flaw are there with the last value that is given to them. -/
def Withstands (b : Block) (position params : Option Value) : Prop :=
  Misplaced position ∨ (∀ p, position = some p → readPosition p = .ok b.position) ∧
    ∀ ps es, params = some ps → b.params = .dict es →
      (∀ given ∈ ps.givenEntries, Entries.contains es given.1 = true) ∧
        ∀ e ∈ es, ∀ v, Entries.last? ps.givenEntries e.1 = some v → v = e.2

end Block

namespace Flow

variable {f : Flow} {id : Value} {b : Block}

/-- **When an amendment fails, and when it leaves the flow as it was then.** -/
theorem amend_spec (h : f.block? id = some b) (position params : Option Value) :
    (¬ Succeeds (f.amend id position params).2 ↔ b.Refuses position params) ∧
      ((f.amend id position params).1 = f ↔ b.Withstands position params) := by
  rcases mapM_readPosition position with ⟨hmisplaced, fault, hread⟩ | ⟨hplaced, place, hread, hplace⟩
  · have hamend : f.amend id position params = (f, .error fault) := by
      rw [amend, h]
      dsimp only
      rw [hread]
    rw [hamend]
    exact ⟨iff_of_true (not_succeeds_error fault) (Or.inl hmisplaced), iff_of_true rfl (Or.inl hmisplaced)⟩
  · obtain ⟨before, after, hsplit⟩ := exists_splitAt h
    obtain ⟨hleft, houtcome⟩ := hsplit.amend hread params
    refine ⟨?_, ?_⟩
    · rw [houtcome, Block.Refuses, or_iff_right hplaced]
      simp
    · rw [hleft, hsplit.eq_self_iff, Block.amended_eq_self, hplace, Block.Withstands, or_iff_right hplaced]
      simp only [Entries.insertAll_eq_self]

end Flow

namespace Edit

variable {w : Workspace}

/-- The edit fails in the workspace. -/
def Fails (edit : Edit) (w : Workspace) : Prop := ¬ Succeeds (edit.step w).1

/-- The edit leaves the workspace as it is. -/
def Spares (edit : Edit) (w : Workspace) : Prop := (edit.step w).2 = w

/-- A step that puts a flow down once it has it fails with what it asks for, and leaves all as it is then. -/
theorem setFlow_spec {α : Type} (outcome : Except Fault α) (next : α → Flow) (w : Workspace) :
    (¬ Succeeds ((Act.ofExcept outcome >>= fun a => Work.setFlow (next a)) w).1 ↔ ¬ Succeeds outcome) ∧
      (¬ Succeeds outcome → ((Act.ofExcept outcome >>= fun a => Work.setFlow (next a)) w).2 = w) := by
  rw [Act.bind_apply, Act.ofExcept_apply]
  cases outcome with
  | error fault => exact ⟨iff_of_true (not_succeeds_error _) (not_succeeds_error _), fun _ => rfl⟩
  | ok a => exact ⟨not_congr (iff_of_true ⟨(), rfl⟩ ⟨a, rfl⟩), fun hfail => absurd ⟨a, rfl⟩ hfail⟩

theorem setParam_spec (id key value : Value) :
    ((setParam id key value).Fails w ↔
      ∃ b, w.flow.block? id = some b ∧ ¬ Succeeds (b.params.assign key value)) ∧
      ((setParam id key value).Fails w → (setParam id key value).Spares w) := by
  obtain ⟨hfails, hspares⟩ := setFlow_spec (w.flow.setParam id key value) (fun f => f) w
  refine ⟨hfails.trans ?_, fun hfail => hspares (hfails.1 hfail)⟩
  cases hblock : w.flow.block? id with
  | none =>
    rw [Flow.setParam, hblock]
    exact iff_of_false (fun hfail => hfail ⟨w.flow, rfl⟩) (by simp)
  | some b =>
    rw [Flow.setParam_eq hblock]
    cases hassign : b.params.assign key value with
    | error fault => exact iff_of_true (not_succeeds_error _) ⟨b, rfl, by rw [hassign]; exact not_succeeds_error fault⟩
    | ok params =>
      refine iff_of_false (fun hfail => hfail ⟨_, rfl⟩) ?_
      rintro ⟨c, hc, hfail⟩
      obtain rfl := Option.some.inj hc
      exact hfail ⟨params, hassign⟩

theorem move_spec (id position : Value) :
    ((move id position).Fails w ↔ (w.flow.block? id).isSome ∧ ¬ Succeeds (readPosition position)) ∧
      ((move id position).Fails w → (move id position).Spares w) := by
  obtain ⟨hfails, hspares⟩ := setFlow_spec (w.flow.move id position) (fun moved => moved.1) w
  refine ⟨hfails.trans ?_, fun hfail => hspares (hfails.1 hfail)⟩
  rw [Flow.move]
  cases hblock : w.flow.block? id with
  | none => exact iff_of_false (fun hfail => hfail ⟨_, rfl⟩) (by simp)
  | some b =>
    cases hread : readPosition position with
    | error fault => exact iff_of_true (not_succeeds_error _) ⟨rfl, not_succeeds_error fault⟩
    | ok place => exact iff_of_false (fun hfail => hfail ⟨_, rfl⟩) fun hfail => hfail.2 ⟨place, rfl⟩

theorem amend_apply (id : Value) (position params : Option Value) (w : Workspace) :
    (amend id position params).step w =
      ((w.flow.amend id position params).2, { w with flow := (w.flow.amend id position params).1 }) := by
  rw [step, Act.bind_apply, Work.flow_apply]
  exact Work.edited_apply _ w

theorem amend_spares_iff (id : Value) (position params : Option Value) :
    (amend id position params).Spares w ↔ (w.flow.amend id position params).1 = w.flow := by
  rw [Spares, amend_apply]
  exact ⟨congrArg Workspace.flow, fun hflow => by rw [hflow]⟩

theorem amend_fails_iff (id : Value) (position params : Option Value) :
    (amend id position params).Fails w ↔ ∃ b, w.flow.block? id = some b ∧ b.Refuses position params := by
  rw [Fails, amend_apply]
  cases hblock : w.flow.block? id with
  | none =>
    rw [Flow.amend, hblock]
    exact iff_of_false (fun hfail => hfail ⟨(), rfl⟩) (by simp)
  | some b =>
    rw [(Flow.amend_spec hblock position params).1]
    simp

/-- **Edits of one block that fail.** To set a parameter, or to move a block, changes nothing when it fails. To amend a block
changes nothing when it fails exactly if the block withstands it. A block that is not there is passed over. -/
theorem refused_spares_iff (w : Workspace) (id : Value) :
    (∀ key value,
      ((setParam id key value).Fails w ↔ ∃ b, w.flow.block? id = some b ∧ ¬ Succeeds (b.params.assign key value)) ∧
        ((setParam id key value).Fails w → (setParam id key value).Spares w)) ∧
      (∀ position,
        ((move id position).Fails w ↔ (w.flow.block? id).isSome ∧ ¬ Succeeds (readPosition position)) ∧
          ((move id position).Fails w → (move id position).Spares w)) ∧
      ∀ position params,
        ((amend id position params).Fails w ↔ ∃ b, w.flow.block? id = some b ∧ b.Refuses position params) ∧
          ∀ b, w.flow.block? id = some b → b.Refuses position params →
            ((amend id position params).Spares w ↔ b.Withstands position params) := by
  refine ⟨setParam_spec id, move_spec id, fun position params => ⟨amend_fails_iff id position params, ?_⟩⟩
  intro b hblock _
  rw [amend_spares_iff]
  exact (Flow.amend_spec hblock position params).2

/-! ## Pairs with a flaw -/

/-- A block with one parameter. -/
def marked : Workspace where
  flow :=
    { id := .text "f"
      blocks := [⟨.text "a", .text "print", defaultPosition, .dict [(.text "k", .int 1)], {}⟩] }

/-- Two pairs, and what is none. -/
def flawed (v : Value) : Value := .list [.list [.text "k", .int 2], .list [.text "k", v], .int 5]

theorem refuses_flawed (position : Option Value) (v : Value) :
    Block.Refuses ⟨.text "a", .text "print", defaultPosition, .dict [(.text "k", .int 1)], {}⟩ position
      (some (flawed v)) := by
  refine Or.inr ⟨flawed v, rfl, ?_⟩
  rintro ⟨-, xs, hxs, hpairs⟩
  obtain rfl := Option.some.inj hxs
  have hlast := hpairs (.int 5) (by simp)
  cases hlast

/-- The block is left as it was where it was already, with a parameter that is set twice. -/
theorem refused_spares_iff_marked :
    (amend (.text "a") (some defaultPosition) (some (flawed (.int 1)))).Fails marked ∧
      (amend (.text "a") (some defaultPosition) (some (flawed (.int 1)))).Spares marked := by
  obtain ⟨hfails, hspares⟩ := (refused_spares_iff marked (.text "a")).2.2 (some defaultPosition) (some (flawed (.int 1)))
  have hrefuses := refuses_flawed (some defaultPosition) (.int 1)
  refine ⟨hfails.2 ⟨_, rfl, hrefuses⟩, (hspares _ rfl hrefuses).2 (Or.inr ⟨?_, ?_⟩)⟩
  · rintro p hp
    obtain rfl := Option.some.inj hp
    rfl
  · rintro ps es hps hes
    obtain rfl := Option.some.inj hps
    obtain rfl := Value.dict.inj hes
    rw [← Entries.insertAll_eq_self]
    rfl

/-- **The block is moved, and gets a parameter, by amendments that fail.** -/
theorem amend_torn :
    ((amend (.text "a") (some (.list [.bool true, .bool true])) (some (.int 5))).Fails marked ∧
        ¬ (amend (.text "a") (some (.list [.bool true, .bool true])) (some (.int 5))).Spares marked) ∧
      (amend (.text "a") none (some (flawed (.int 3)))).Fails marked ∧
        ¬ (amend (.text "a") none (some (flawed (.int 3)))).Spares marked := by
  refine ⟨⟨(amend_fails_iff _ _ _).2 ⟨_, rfl, Or.inr ⟨_, rfl, ?_⟩⟩, ?_⟩, (amend_fails_iff _ _ _).2 ⟨_, rfl, ?_⟩, ?_⟩
  · rintro ⟨-, xs, hxs, -⟩
    cases hxs
  · rw [amend_spares_iff, (Flow.amend_spec (f := marked.flow) rfl _ _).2]
    rintro (⟨p, hp, hfail⟩ | ⟨hplace, -⟩)
    · obtain rfl := Option.some.inj hp
      exact hfail ⟨_, rfl⟩
    · have hsame : Binary64.ofRatio false 1 1 = Binary64.ofRatio false 100 1 :=
        Value.real.inj (List.cons.inj (Value.tuple.inj (Except.ok.inj (hplace _ rfl)))).1
      exact absurd hsame (by decide +kernel)
  · exact refuses_flawed none (.int 3)
  · rw [amend_spares_iff, (Flow.amend_spec (f := marked.flow) rfl _ _).2]
    rintro (⟨p, hp, -⟩ | ⟨-, hparams⟩)
    · cases hp
    · have hsame := (hparams _ _ rfl rfl).2 (.text "k", .int 1) (List.mem_singleton.2 rfl) (.int 3) rfl
      cases hsame

end Edit

end BlockFlow
