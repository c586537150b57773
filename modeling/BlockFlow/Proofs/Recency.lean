import BlockFlow.Proofs.Making
import BlockFlow.Proofs.Stamps
import Mathlib.Data.List.Forall2
import Mathlib.Data.List.Pairwise
import Mathlib.Data.List.Sort

/-!
The order of a listing. Rows are listed by the millisecond of their last save and then by their place in the table, which is
that of their first save. So of two flows that were last saved in one millisecond, the one that was first saved later is
listed first, whichever was saved last.

* `Entry`, `StoreWrite.enter`, `StoreWrite.enterAll`: what a run has saved and not deleted since, with the numbers of
  the writes.
* `Ledger.Sound`, `Ledger.Stands`: what holds of these entries, and the table that has them.
* `StoreWrite.sound_enter`, `StoreWrite.stands_change`, `StoreWrite.stands_run`: a write, and a run, keeps both.
* `Ledger.sorted`: the entries in the order of the listing.
* `Archive.list_recent_iff`: **the flows are listed by their last saves exactly if those of one millisecond were first saved
  in the same order.**
-/

namespace BlockFlow

/-! ## Ledgers -/

/-- What was saved under an identifier and not deleted since: the flow as it was last saved and the instant of that, and the
numbers of the writes that saved it first and last. -/
structure Entry where
  id : Cell
  flow : Flow
  instant : Instant
  first : Nat
  last : Nat

/-- The row is that of the entry. -/
structure Entry.Tells (e : Entry) (r : FlowRow) : Prop where
  id : r.id = e.id
  updatedAt : r.updatedAt = .text e.instant.savedStamp
  document : ∃ text, e.flow.exportText = .ok text ∧ r.document = .text text

/-- The entry after a save under an identifier. -/
def Entry.renew (c : Cell) (f : Flow) (t : Instant) (n : Nat) (e : Entry) : Entry :=
  if e.id.holds c then { e with flow := f, instant := t, last := n } else e

@[simp] theorem Entry.id_renew (c : Cell) (f : Flow) (t : Instant) (n : Nat) (e : Entry) : (e.renew c f t n).id = e.id := by
  unfold renew
  split <;> rfl

@[simp] theorem Entry.first_renew (c : Cell) (f : Flow) (t : Instant) (n : Nat) (e : Entry) :
    (e.renew c f t n).first = e.first := by
  unfold renew
  split <;> rfl

theorem Entry.renew_cases (c : Cell) (f : Flow) (t : Instant) (n : Nat) (e : Entry) :
    e.id.holds c = true ∧ e.renew c f t n = { e with flow := f, instant := t, last := n } ∨
      e.id.holds c = false ∧ e.renew c f t n = e := by
  unfold renew
  cases e.id.holds c
  · exact Or.inr ⟨rfl, rfl⟩
  · exact Or.inl ⟨rfl, rfl⟩

/-- The entries after a write of a number. A flow that is saved under a new identifier gets a new entry. -/
def StoreWrite.enter (n : Nat) (t : Instant) (ledger : List Entry) : StoreWrite → List Entry
  | .save f =>
    match (f.stamped t.savedStamp).row with
    | .ok r =>
      if ledger.any fun e => e.id.holds r.id then ledger.map (Entry.renew r.id (f.stamped t.savedStamp) t n)
      else ledger ++ [⟨r.id, f.stamped t.savedStamp, t, n, n⟩]
    | .error _ => ledger
  | .delete id =>
    match Cell.ofValue 1 id with
    | .ok c => ledger.filter fun e => !e.id.holds c
    | .error _ => ledger

/-- The entries after writes, whose numbers go up. -/
def StoreWrite.enterAll (n : Nat) (ledger : List Entry) : List (Instant × StoreWrite) → List Entry
  | [] => ledger
  | p :: writes => enterAll (n + 1) (p.2.enter n p.1 ledger) writes

namespace Ledger

/-- What holds of the entries before the write of a number, at a time that no save was after. -/
structure Sound (n : Nat) (now : Int) (ledger : List Entry) : Prop where
  firsts : ledger.Pairwise fun x y => x.first < y.first
  lasts : ledger.Pairwise fun x y => x.last ≠ y.last
  ids : ledger.Pairwise fun x y => x.id.holds y.id = false
  nameless : ∀ e ∈ ledger, e.id.isNull = true → e.first = e.last
  numbers : ∀ e ∈ ledger, e.first < n ∧ e.last < n
  past : ∀ e ∈ ledger, e.instant.micros ≤ now
  clock : ∀ x ∈ ledger, ∀ y ∈ ledger, x.last < y.last → x.instant.micros ≤ y.instant.micros

/-- The table has the rows of the entries, in their order. -/
def Stands (ledger : List Entry) (s : Store) : Prop := List.Forall₂ Entry.Tells ledger s.flows

/-- An identifier has an entry if it has a row. -/
theorem Stands.any_holds {ledger : List Entry} {s : Store} (h : Stands ledger s) (c : Cell) :
    (ledger.any fun e => e.id.holds c) = (s.find? c).isSome := by
  have hrows : (ledger.any fun e => e.id.holds c) = s.flows.any fun r => r.id.holds c := by
    unfold Stands at h
    generalize s.flows = rows at h
    induction h with
    | nil => rfl
    | cons hr _ ih => rw [List.any_cons, List.any_cons, ih, hr.id]
  rw [hrows, Bool.eq_iff_iff, List.any_eq_true, Store.find?, List.find?_isSome]

theorem sound_nil (now : Int) : Sound 0 now [] where
  firsts := .nil
  lasts := .nil
  ids := .nil
  nameless := List.forall_mem_nil _
  numbers := List.forall_mem_nil _
  past := List.forall_mem_nil _
  clock := List.forall_mem_nil _

namespace Sound

variable {n : Nat} {now : Int} {ledger : List Entry} {c : Cell} {f : Flow} {t : Instant}

/-- Nothing changes in a write that saves nothing. -/
theorem wait (h : Sound n now ledger) {later : Int} (hlater : now ≤ later) : Sound (n + 1) later ledger :=
  { h with
    numbers := fun e he => ⟨Nat.lt_succ_of_lt (h.numbers e he).1, Nat.lt_succ_of_lt (h.numbers e he).2⟩
    past := fun e he => (h.past e he).trans hlater }

theorem filter (h : Sound n now ledger) (p : Entry → Bool) : Sound n now (ledger.filter p) where
  firsts := h.firsts.filter p
  lasts := h.lasts.filter p
  ids := h.ids.filter p
  nameless e he := h.nameless e (List.mem_of_mem_filter he)
  numbers e he := h.numbers e (List.mem_of_mem_filter he)
  past e he := h.past e (List.mem_of_mem_filter he)
  clock x hx y hy := h.clock x (List.mem_of_mem_filter hx) y (List.mem_of_mem_filter hy)

/-- A new entry comes last in all respects. -/
theorem append (h : Sound n now ledger) (hnow : now ≤ t.micros) (hnew : ∀ e ∈ ledger, e.id.holds c = false) :
    Sound (n + 1) t.micros (ledger ++ [Entry.mk c f t n n]) := by
  have hwait := h.wait hnow
  have hback {R : Entry → Entry → Prop} (hR : ledger.Pairwise R) (hlast : ∀ e ∈ ledger, R e (Entry.mk c f t n n)) :
      (ledger ++ [Entry.mk c f t n n]).Pairwise R :=
    List.pairwise_append.2 ⟨hR, List.pairwise_singleton _ _, by simpa using hlast⟩
  have hall {P : Entry → Prop} (hP : ∀ e ∈ ledger, P e) (hlast : P (Entry.mk c f t n n)) :
      ∀ e ∈ ledger ++ [Entry.mk c f t n n], P e :=
    List.forall_mem_append.2 ⟨hP, by simpa using hlast⟩
  refine ⟨hback h.firsts fun e he => (h.numbers e he).1, hback h.lasts fun e he => (h.numbers e he).2.ne,
    hback h.ids hnew, hall h.nameless fun _ => rfl, hall hwait.numbers ⟨Nat.lt_succ_self n, Nat.lt_succ_self n⟩,
    hall hwait.past le_rfl, ?_⟩
  refine hall (fun x hx => hall (h.clock x hx) fun _ => hwait.past x hx) ?_
  refine hall (fun y hy hlast => ?_) fun _ => le_rfl
  exact absurd (h.numbers y hy).2 hlast.le.not_gt

/-- An entry that is renewed has been saved last. -/
theorem renew (h : Sound n now ledger) (hnow : now ≤ t.micros) :
    Sound (n + 1) t.micros (ledger.map (Entry.renew c f t n)) := by
  have hwait := h.wait hnow
  refine ⟨?_, ?_, ?_, ?_, ?_, ?_, ?_⟩
  · rw [List.pairwise_map]
    simpa only [Entry.first_renew] using h.firsts
  · rw [List.pairwise_map]
    refine (h.lasts.and h.ids).imp_of_mem fun {x y} hx hy hxy => ?_
    rcases Entry.renew_cases c f t n x with ⟨hxc, hx'⟩ | ⟨-, hx'⟩ <;>
      rcases Entry.renew_cases c f t n y with ⟨hyc, hy'⟩ | ⟨-, hy'⟩ <;> rw [hx', hy']
    · obtain ⟨hnull, hxc⟩ := Cell.holds_iff.1 hxc
      have hsame : x.id.holds y.id = true := Cell.holds_iff.2 ⟨hnull, hxc.trans (Cell.holds_iff.1 hyc).2.symm⟩
      rw [hxy.2] at hsame
      cases hsame
    · exact (h.numbers y hy).2.ne'
    · exact (h.numbers x hx).2.ne
    · exact hxy.1
  · rw [List.pairwise_map]
    simpa only [Entry.id_renew] using h.ids
  · refine List.forall_mem_map.2 fun e he hnull => ?_
    rcases Entry.renew_cases c f t n e with ⟨hc, -⟩ | ⟨-, he'⟩
    · rw [Entry.id_renew, (Cell.holds_iff.1 hc).1] at hnull
      cases hnull
    · rw [he'] at hnull ⊢
      exact h.nameless e he hnull
  · refine List.forall_mem_map.2 fun e he => ?_
    rcases Entry.renew_cases c f t n e with ⟨-, he'⟩ | ⟨-, he'⟩ <;> rw [he']
    · exact ⟨(hwait.numbers e he).1, Nat.lt_succ_self n⟩
    · exact hwait.numbers e he
  · refine List.forall_mem_map.2 fun e he => ?_
    rcases Entry.renew_cases c f t n e with ⟨-, he'⟩ | ⟨-, he'⟩ <;> rw [he']
    exact hwait.past e he
  · refine List.forall_mem_map.2 fun x hx => List.forall_mem_map.2 fun y hy => ?_
    rcases Entry.renew_cases c f t n x with ⟨-, hx'⟩ | ⟨-, hx'⟩ <;>
      rcases Entry.renew_cases c f t n y with ⟨-, hy'⟩ | ⟨-, hy'⟩ <;> rw [hx', hy'] <;> intro hlast
    · exact le_rfl
    · exact absurd (h.numbers y hy).2 hlast.le.not_gt
    · exact hwait.past x hx
    · exact h.clock x hx y hy hlast

end Sound

end Ledger

/-! ## Writes of the store -/

namespace StoreWrite

variable {n : Nat} {now : Int} {ledger : List Entry} {t : Instant} {s : Store}

/-- **A write keeps what holds of the entries.** -/
theorem sound_enter (h : Ledger.Sound n now ledger) (hnow : now ≤ t.micros) (write : StoreWrite) :
    Ledger.Sound (n + 1) t.micros (write.enter n t ledger) := by
  cases write with
  | save f =>
    rw [enter]
    cases (f.stamped t.savedStamp).row with
    | error fault => exact h.wait hnow
    | ok r =>
      dsimp only
      split
      · exact h.renew hnow
      · rename_i hnew
        exact h.append hnow (by simpa using hnew)
  | delete id =>
    rw [enter]
    cases Cell.ofValue 1 id with
    | error fault => exact h.wait hnow
    | ok c => exact (h.wait hnow).filter _

/-- The row of a flow tells the entry of it. -/
theorem tells_row {f : Flow} {r : FlowRow} (hr : (f.stamped t.savedStamp).row = .ok r) :
    (Entry.mk r.id (f.stamped t.savedStamp) t n n).Tells r := by
  obtain ⟨text, htext, hdocument, -, -, hupdated, -⟩ := Flow.row_eq_ok hr
  exact ⟨rfl, (Except.ok.inj hupdated).symm, text, htext, hdocument⟩

/-- **A write changes the table as it changes the entries.** -/
theorem stands_change (h : Ledger.Stands ledger s) (write : StoreWrite) :
    Ledger.Stands (write.enter n t ledger) (write.change t s) := by
  cases write with
  | save f =>
    rw [enter, change]
    cases hr : (f.stamped t.savedStamp).row with
    | error fault => exact h
    | ok r =>
      have htells := tells_row (n := n) hr
      dsimp only
      rw [Store.write, h.any_holds, Ledger.Stands]
      dsimp only
      split
      · rw [List.forall₂_map_left_iff, List.forall₂_map_right_iff]
        refine h.imp fun e x hx => ?_
        rw [Entry.renew, Store.overwrite, hx.id]
        split
        · exact ⟨rfl, htells.updatedAt, htells.document⟩
        · exact hx
      · exact List.rel_append h (.cons htells .nil)
  | delete id =>
    rw [enter, change]
    cases Cell.ofValue 1 id with
    | error fault => exact h
    | ok c =>
      refine List.rel_filter (fun e r htells => ?_) h
      dsimp only
      rw [htells.id]

/-- **A run keeps both.** The clock does not go back. -/
theorem stands_run {writes : List (Instant × StoreWrite)} (h : Ledger.Stands ledger s) (hsound : Ledger.Sound n now ledger)
    (hnow : ∀ p ∈ writes, now ≤ p.1.micros) (hclock : writes.Pairwise fun p q => p.1.micros ≤ q.1.micros) :
    Ledger.Stands (enterAll n ledger writes) (changeAll s writes) ∧
      ∃ m later, Ledger.Sound m later (enterAll n ledger writes) := by
  induction writes generalizing n now ledger s with
  | nil => exact ⟨h, n, now, hsound⟩
  | cons p writes ih =>
    obtain ⟨hfirst, hclock⟩ := List.pairwise_cons.1 hclock
    exact ih (stands_change h p.2) (sound_enter hsound (hnow p List.mem_cons_self) p.2) hfirst hclock

end StoreWrite

/-! ## Entries in the order of a listing -/

theorem Cell.before_text (s t : String) : (Cell.text s).before (.text t) = decide (s < t) := rfl

namespace Ledger

/-- The first entry was not last saved in an earlier millisecond than the second. -/
def NotEarlier (x y : Entry) : Prop := y.instant.milli ≤ x.instant.milli

instance : DecidableRel NotEarlier := fun x y => inferInstanceAs (Decidable (y.instant.milli ≤ x.instant.milli))

/-- The entries in the order of a listing: sorted by their milliseconds from the last one on. -/
def sorted (ledger : List Entry) : List Entry := ledger.reverse.insertionSort NotEarlier

/-- The first entry is listed before the second: its millisecond is later, or its place in the table. -/
def Precedes (x y : Entry) : Prop :=
  y.instant.milli < x.instant.milli ∨ (y.instant.milli = x.instant.milli ∧ y.first < x.first)

theorem sorted_perm (ledger : List Entry) : (sorted ledger).Perm ledger :=
  (List.perm_insertionSort _ _).trans ledger.reverse_perm

/-- An entry whose place is behind all others is inserted where it is to be listed. -/
theorem precedes_orderedInsert {e : Entry} {entries : List Entry} (h : entries.Pairwise Precedes)
    (hfirst : ∀ x ∈ entries, x.first < e.first) : (entries.orderedInsert NotEarlier e).Pairwise Precedes := by
  induction entries with
  | nil => exact List.pairwise_singleton _ _
  | cons x entries ih =>
    obtain ⟨hx, hrest⟩ := List.pairwise_cons.1 h
    obtain ⟨hxe, hfirst⟩ := List.forall_mem_cons.1 hfirst
    rw [List.orderedInsert_cons]
    split
    · rename_i hlater
      have hafter {y : Entry} (hmilli : y.instant.milli ≤ x.instant.milli) (hy : y.first < e.first) : Precedes e y := by
        rcases Int.lt_or_eq_of_le (hmilli.trans hlater) with hlt | heq
        · exact Or.inl hlt
        · exact Or.inr ⟨heq, hy⟩
      refine List.pairwise_cons.2 ⟨List.forall_mem_cons.2 ⟨hafter le_rfl hxe, fun y hy => ?_⟩, h⟩
      rcases hx y hy with hlt | ⟨heq, -⟩
      · exact hafter hlt.le (hfirst y hy)
      · exact hafter heq.le (hfirst y hy)
    · rename_i hlater
      refine List.pairwise_cons.2 ⟨fun y hy => ?_, ih hrest hfirst⟩
      rcases List.mem_cons.1 ((List.perm_orderedInsert _ e entries).mem_iff.1 hy) with rfl | hy
      · exact Or.inl (Int.not_le.1 hlater)
      · exact hx y hy

theorem sorted_pairwise {ledger : List Entry} (h : ledger.Pairwise fun x y => x.first < y.first) :
    (sorted ledger).Pairwise Precedes := by
  have hback : ledger.reverse.Pairwise fun x y => y.first < x.first := List.pairwise_reverse.2 h
  unfold sorted
  generalize ledger.reverse = entries at hback
  induction entries with
  | nil => exact .nil
  | cons e entries ih =>
    obtain ⟨he, hrest⟩ := List.pairwise_cons.1 hback
    refine precedes_orderedInsert (ih hrest) fun x hx => he x ?_
    exact (List.perm_insertionSort _ _).mem_iff.1 hx

/-- Rows are inserted as their entries are. -/
theorem insertByTime_tells {e : Entry} {r : FlowRow} {entries : List Entry} {rows : List FlowRow} (hr : e.Tells r)
    (h : List.Forall₂ Entry.Tells entries rows) :
    List.Forall₂ Entry.Tells (entries.orderedInsert NotEarlier e) (Store.insertByTime r rows) := by
  induction h with
  | nil => exact .cons hr .nil
  | @cons x y entries rows hy hrows ih =>
    have hlater : Store.later y r = true ↔ ¬ NotEarlier e x := by
      rw [Store.later, hr.updatedAt, hy.updatedAt, Cell.before_text, decide_eq_true_iff, Instant.savedStamp_lt_iff]
      exact Int.not_le.symm
    rw [List.orderedInsert_cons, Store.insertByTime]
    simp only [hlater]
    split
    · exact .cons hr (.cons hy hrows)
    · exact .cons hy ih

/-- **A listing has the rows of the entries, in their order.** -/
theorem Stands.listing {ledger : List Entry} {s : Store} (h : Stands ledger s) :
    List.Forall₂ Entry.Tells (sorted ledger) s.listing := by
  have hback : List.Forall₂ Entry.Tells ledger.reverse s.flows.reverse := List.forall₂_reverse_iff.2 h
  rw [Store.listing, ← List.foldr_reverse, sorted]
  generalize ledger.reverse = entries at hback
  generalize s.flows.reverse = rows at hback
  induction hback with
  | nil => exact .nil
  | cons hr _ ih => exact insertByTime_tells hr ih

/-! ## The order of last saves -/

theorem rel_or_rel {α : Type} {R : α → α → Prop} {xs : List α} (h : xs.Pairwise R) {x y : α} (hx : x ∈ xs) (hy : y ∈ xs)
    (hne : x ≠ y) : R x y ∨ R y x := by
  have hpairs : xs.Pairwise fun a b => R a b ∨ R b a := h.imp Or.inl
  have hsymm : Std.Symm fun a b => R a b ∨ R b a := ⟨fun _ _ hab => hab.symm⟩
  exact hpairs.forall hx hy hne

theorem forall₂_through {α β γ : Type} {R : α → β → Prop} {S : β → γ → Prop} {T : α → γ → Prop}
    (h : ∀ x y z, R x y → S y z → T x z) {xs : List α} {ys : List β} {zs : List γ} (hxy : List.Forall₂ R xs ys)
    (hyz : List.Forall₂ S ys zs) : List.Forall₂ T xs zs := by
  induction hxy generalizing zs with
  | nil =>
    cases hyz
    exact .nil
  | cons hr _ ih =>
    cases hyz with
    | cons hs hrest => exact .cons (h _ _ _ hr hs) (ih hrest)

/-- Lists that agree in what a test selects, and elsewhere item by item, are the same. -/
theorem eq_of_filter {α : Type} {R : α → α → Prop} {p : α → Bool} {xs ys : List α} (h : List.Forall₂ R xs ys)
    (hp : ∀ x y, R x y → p x = p y) (heq : ∀ x ∈ xs, ∀ y ∈ ys, R x y → p x = false → x = y)
    (hfilter : xs.filter p = ys.filter p) : xs = ys := by
  induction h with
  | nil => rfl
  | @cons x y xs ys hxy _ ih =>
    have hrest : xs.filter p = ys.filter p → xs = ys :=
      ih fun a ha b hb => heq a (List.mem_cons_of_mem _ ha) b (List.mem_cons_of_mem _ hb)
    rw [List.filter_cons, List.filter_cons, ← hp x y hxy] at hfilter
    cases hpx : p x with
    | true =>
      rw [hpx, if_pos rfl, if_pos rfl] at hfilter
      rw [List.head_eq_of_cons_eq hfilter, hrest (List.tail_eq_of_cons_eq hfilter)]
    | false =>
      rw [hpx, if_neg Bool.false_ne_true, if_neg Bool.false_ne_true] at hfilter
      rw [heq x List.mem_cons_self y List.mem_cons_self hxy hpx, hrest hfilter]

namespace Sound

variable {n : Nat} {now : Int} {ledger : List Entry} {x y : Entry}

section

variable (h : Sound n now ledger) (hx : x ∈ ledger) (hy : y ∈ ledger)

include h hx hy

/-- An identifier has one entry. -/
theorem eq_of_id (hid : x.id = y.id) (hnull : x.id.isNull = false) : x = y := by
  by_contra hne
  have hxy : x.id.holds y.id = true := Cell.holds_iff.2 ⟨hnull, hid⟩
  have hyx : y.id.holds x.id = true := Cell.holds_iff.2 ⟨hid ▸ hnull, hid.symm⟩
  rcases rel_or_rel h.ids hx hy hne with hfalse | hfalse
  · simp [hxy] at hfalse
  · simp [hyx] at hfalse

theorem last_ne (hne : x ≠ y) : x.last ≠ y.last := by
  rcases rel_or_rel h.lasts hx hy hne with hlast | hlast
  · exact hlast
  · exact hlast.symm

/-- What was last saved in a later millisecond was saved later. -/
theorem last_lt (hmilli : y.instant.milli < x.instant.milli) : y.last < x.last := by
  have hne : x ≠ y := by
    rintro rfl
    exact absurd hmilli (lt_irrefl _)
  refine lt_of_le_of_ne (Nat.not_lt.1 fun hlast => ?_) (h.last_ne hx hy hne).symm
  have hmicros := h.clock x hx y hy hlast
  unfold Instant.milli at hmilli
  omega

end

/-- Of entries without identifier, those that are listed first were saved last. -/
theorem last_lt_of_precedes (h : Sound n now ledger) (hx : x ∈ ledger) (hy : y ∈ ledger) (hxy : Precedes x y)
    (hnullx : x.id.isNull = true) (hnully : y.id.isNull = true) : y.last < x.last := by
  rcases hxy with hmilli | ⟨-, hfirst⟩
  · exact h.last_lt hx hy hmilli
  · rwa [← h.nameless x hx hnullx, ← h.nameless y hy hnully]

/-- **If the rows of a listing are those of entries in the order of their last saves, it is the order of the listing.** Rows
with identifier are those of one entry only, and all others were saved once. -/
theorem eq_sorted (h : Sound n now ledger) {order : List Entry} (hperm : order.Perm ledger)
    (hlasts : order.Pairwise fun x y => y.last < x.last) {rows : List FlowRow} (horder : List.Forall₂ Entry.Tells order rows)
    (hsorted : List.Forall₂ Entry.Tells (sorted ledger) rows) : order = sorted ledger := by
  have hmem {e : Entry} : e ∈ sorted ledger ↔ e ∈ ledger := (sorted_perm ledger).mem_iff
  have hids : List.Forall₂ (fun x y => x.id = y.id) order (sorted ledger) :=
    forall₂_through (fun _ _ _ hx hy => hx.id.symm.trans hy.id) horder hsorted.flip
  refine eq_of_filter (p := fun e => e.id.isNull) hids (fun x y hxy => by rw [hxy]) (fun x hx y hy hxy hnull => ?_) ?_
  · exact h.eq_of_id (hperm.mem_iff.1 hx) (hmem.1 hy) hxy hnull
  · have hprecedes := (sorted_pairwise h.firsts).filter fun e => e.id.isNull
    have hnameless := hlasts.filter fun e => e.id.isNull
    have hperm := (hperm.trans (sorted_perm ledger).symm).filter fun e => e.id.isNull
    refine hperm.eq_of_pairwise (fun x y _ _ hxy hyx => absurd hxy hyx.not_gt) hnameless
      (hprecedes.imp_of_mem fun {x y} hx hy hxy => ?_)
    rw [List.mem_filter, hmem] at hx hy
    exact h.last_lt_of_precedes hx.1 hy.1 hxy hx.2 hy.2

/-- **The order of the listing is that of the last saves exactly if entries that were last saved in one millisecond were
first saved in the same order.** -/
theorem sorted_recent_iff (h : Sound n now ledger) :
    ((sorted ledger).Pairwise fun x y => y.last < x.last) ↔
      ∀ x ∈ ledger, ∀ y ∈ ledger, x.instant.milli = y.instant.milli → x.last < y.last → x.first < y.first := by
  have hmem {e : Entry} : e ∈ sorted ledger ↔ e ∈ ledger := (sorted_perm ledger).mem_iff
  have hprecedes := sorted_pairwise h.firsts
  constructor
  · intro hrecent x hx y hy hmilli hlast
    have hne : x ≠ y := by
      rintro rfl
      exact absurd hlast (lt_irrefl _)
    rcases rel_or_rel (hprecedes.and hrecent) (hmem.2 hx) (hmem.2 hy) hne with ⟨-, hback⟩ | ⟨hyx, -⟩
    · exact absurd hback hlast.not_gt
    · rcases hyx with hearlier | ⟨-, hfirst⟩
      · exact absurd hmilli hearlier.ne
      · exact hfirst
  · intro hfirsts
    have hdistinct : (sorted ledger).Pairwise (· ≠ ·) := hprecedes.imp fun {x y} hxy => by
      rintro rfl
      rcases hxy with hmilli | ⟨-, hfirst⟩
      · exact absurd hmilli (lt_irrefl _)
      · exact absurd hfirst (lt_irrefl _)
    refine (hprecedes.and hdistinct).imp_of_mem fun {x y} hx hy hxy => ?_
    rw [hmem] at hx hy
    rcases hxy with ⟨hmilli | ⟨hmilli, hfirst⟩, hne⟩
    · exact h.last_lt hx hy hmilli
    · -- of one millisecond: if `x` had been saved before `y`, it would also have been saved first
      refine lt_of_le_of_ne (Nat.not_lt.1 fun hlast => ?_) (h.last_ne hx hy hne).symm
      exact absurd (hfirsts x hx y hy hmilli.symm hlast) hfirst.not_gt

end Sound

end Ledger

/-! ## Listings -/

theorem Entry.Tells.readsAs_iff {e : Entry} {r : FlowRow} (h : e.Tells r) {g : Flow} : e.flow.ReadsAs g ↔ r.Holds g := by
  obtain ⟨text, htext, hdocument⟩ := h.document
  rw [FlowRow.Holds, hdocument, Cell.toValue]
  constructor
  · rintro ⟨text', n, n', htext', hread⟩
    obtain rfl := Except.ok.inj (htext.symm.trans htext')
    exact ⟨n, n', hread⟩
  · rintro ⟨n, n', hread⟩
    exact ⟨text, n, n', htext, hread⟩

/-- A flow that can be written is read as what comes back of it. -/
theorem Flow.Writable.eq_reread {f g : Flow} (h : f.Writable) (hg : f.ReadsAs g) : g = f.reread := by
  obtain ⟨text, n, n', htext, hread⟩ := hg
  obtain ⟨text', htext', hback⟩ := h.importText_reread
  obtain rfl := Except.ok.inj (htext.symm.trans htext')
  exact Except.ok.inj (congrArg Prod.fst (hread.symm.trans (hback n)))

namespace StoreWrite

variable {writes : List (Instant × StoreWrite)}

/-- After a run from an empty table on, a listing has the rows of the entries, in their order. -/
theorem listing_run (w : Workspace) (settings : List Setting) (hclock : writes.Pairwise fun p q => p.1.micros ≤ q.1.micros) :
    (∃ n now, Ledger.Sound n now (enterAll 0 [] writes)) ∧
      List.Forall₂ Entry.Tells (Ledger.sorted (enterAll 0 [] writes))
        ((run { w with store := some { settings } } writes).store.getD {}).listing := by
  obtain ⟨start, hstart⟩ : ∃ start, ∀ p ∈ writes, start ≤ p.1.micros := by
    cases writes with
    | nil => exact ⟨0, List.forall_mem_nil _⟩
    | cons p writes => exact ⟨p.1.micros, List.forall_mem_cons.2 ⟨le_rfl, (List.pairwise_cons.1 hclock).1⟩⟩
  have hempty : Ledger.Stands [] { settings } := .nil
  obtain ⟨hstands, hsound⟩ := stands_run hempty (Ledger.sound_nil start) hstart hclock
  refine ⟨hsound, ?_⟩
  rw [store_run]
  exact hstands.listing

/-- If the flows of all entries can be read, all of them are listed. -/
theorem list_run (w : Workspace) (settings : List Setting) (hclock : writes.Pairwise fun p q => p.1.micros ≤ q.1.micros)
    (h : ∀ e ∈ enterAll 0 [] writes, ∃ g, e.flow.ReadsAs g) :
    ∃ flows, (Archive.list (run { w with store := some { settings } } writes)).1 = .ok flows ∧
      List.Forall₂ (fun e g => e.flow.ReadsAs g) (Ledger.sorted (enterAll 0 [] writes)) flows := by
  obtain ⟨-, hlisting⟩ := listing_run w settings hclock
  have hreadable : ∀ r ∈ ((run { w with store := some { settings } } writes).store.getD {}).listing, r.readable = true := by
    intro r hr
    obtain ⟨e, he, htells⟩ := exists_mem_of_forall₂ hlisting.flip r hr
    obtain ⟨g, hg⟩ := h e ((Ledger.sorted_perm _).mem_iff.1 he)
    exact FlowRow.readable_iff.2 ⟨g, htells.readsAs_iff.1 hg⟩
  obtain ⟨flows, hlist, hholds⟩ := Archive.list_readable hreadable
  exact ⟨flows, hlist, Ledger.forall₂_through (fun _ _ _ htells hg => htells.readsAs_iff.2 hg) hlisting hholds⟩

end StoreWrite

namespace Archive

/-- **The flows are listed by their last saves exactly if all can be read and those of one millisecond were first saved in
the order in which they were last saved.** The run starts with an empty table, and its clock does not go back. -/
theorem list_recent_iff (w : Workspace) (settings : List Setting) {writes : List (Instant × StoreWrite)}
    (hclock : writes.Pairwise fun p q => p.1.micros ≤ q.1.micros) :
    let after := StoreWrite.run { w with store := some { settings } } writes
    let ledger := StoreWrite.enterAll 0 [] writes
    (∃ order flows, order.Perm ledger ∧ (order.Pairwise fun x y => y.last < x.last) ∧
        List.Forall₂ Entry.Tells order (after.store.getD {}).listing ∧ (list after).1 = .ok flows ∧
        List.Forall₂ (fun e g => e.flow.ReadsAs g) order flows) ↔
      (∀ e ∈ ledger, ∃ g, e.flow.ReadsAs g) ∧
        ∀ x ∈ ledger, ∀ y ∈ ledger, x.instant.milli = y.instant.milli → x.last < y.last → x.first < y.first := by
  intro after ledger
  obtain ⟨⟨n, now, hsound⟩, hlisting⟩ := StoreWrite.listing_run w settings hclock
  have hperm := Ledger.sorted_perm ledger
  constructor
  · rintro ⟨order, flows, horder, hlasts, htells, -, hflows⟩
    obtain rfl := hsound.eq_sorted horder hlasts htells hlisting
    refine ⟨fun e he => ?_, hsound.sorted_recent_iff.1 hlasts⟩
    obtain ⟨g, -, hg⟩ := exists_mem_of_forall₂ hflows e (hperm.mem_iff.2 he)
    exact ⟨g, hg⟩
  · rintro ⟨hread, hfirsts⟩
    obtain ⟨flows, hlist, hflows⟩ := StoreWrite.list_run w settings hclock hread
    exact ⟨Ledger.sorted ledger, flows, hperm, hsound.sorted_recent_iff.2 hfirsts, hlisting, hlist, hflows⟩

/-! ## Two flows, one of them saved again -/

/-- Two flows are saved at the start of 1970, and the first of them again at an instant. -/
def again (t : Instant) : List (Instant × StoreWrite) :=
  [(Service.epoch, .save (blank "a" "A" .null)), (Service.epoch, .save (blank "b" "B" .null)),
    (t, .save (blank "a" "A" .null))]

theorem enterAll_again (t : Instant) :
    StoreWrite.enterAll 0 [] (again t) = [⟨.text "a", (blank "a" "A" .null).stamped t.savedStamp, t, 0, 2⟩,
      ⟨.text "b", (blank "b" "B" .null).stamped Service.epoch.savedStamp, Service.epoch, 1, 1⟩] := by
  have hrow (id name : String) (hid : (Value.text id).truthy = true) (t : Instant) :
      ∃ r, ((blank id name .null).stamped t.savedStamp).row = .ok r ∧ r.id = .text id := by
    obtain ⟨r, hr⟩ := (savable_blank hid name t.savedStamp t.savedStamp).1.row
    obtain ⟨-, -, -, hcell, -⟩ := Flow.row_eq_ok hr
    exact ⟨r, hr, (Except.ok.inj hcell).symm⟩
  obtain ⟨first, hfirst, hfirstId⟩ := hrow "a" "A" rfl Service.epoch
  obtain ⟨other, hother, hotherId⟩ := hrow "b" "B" rfl Service.epoch
  obtain ⟨last, hlast, hlastId⟩ := hrow "a" "A" rfl t
  have hself : (Cell.text "a").holds (.text "a") = true := rfl
  have hapart : (Cell.text "b").holds (.text "a") = false := rfl
  have hapart' : (Cell.text "a").holds (.text "b") = false := rfl
  simp [again, StoreWrite.enterAll, StoreWrite.enter, hfirst, hother, hlast, hfirstId, hotherId, hlastId, Entry.renew, hself,
    hapart, hapart']

theorem readable_again (t : Instant) : ∀ e ∈ StoreWrite.enterAll 0 [] (again t), ∃ g, e.flow.ReadsAs g := by
  rw [enterAll_again]
  simp only [List.forall_mem_cons, List.not_mem_nil, false_implies, implies_true, and_true]
  exact ⟨(savable_blank rfl "A" _ _).2, (savable_blank rfl "B" _ _).2⟩

/-- If the flow is saved again a millisecond later, both are listed by their last saves. -/
theorem list_recent_iff_again :
    ∃ order flows, order.Perm (StoreWrite.enterAll 0 [] (again soon)) ∧ (order.Pairwise fun x y => y.last < x.last) ∧
      List.Forall₂ Entry.Tells order
        ((StoreWrite.run { flow := blank "a" "A" .null, store := some {} } (again soon)).store.getD {}).listing ∧
      (list (StoreWrite.run { flow := blank "a" "A" .null, store := some {} } (again soon))).1 = .ok flows ∧
      List.Forall₂ (fun e g => e.flow.ReadsAs g) order flows := by
  have hclock : (again soon).Pairwise fun p q => p.1.micros ≤ q.1.micros := by
    simp [again, Service.epoch, soon]
  have hmilli : soon.milli ≠ Service.epoch.milli := by decide
  refine (list_recent_iff { flow := blank "a" "A" .null } [] hclock).2 ⟨readable_again soon, ?_⟩
  rw [enterAll_again]
  simp [hmilli, hmilli.symm]

/-- **If all is saved at one instant, the flow that was saved last is listed last.** -/
theorem list_tied :
    ∃ flows, (list (StoreWrite.run { flow := blank "a" "A" .null, store := some {} } (again Service.epoch))).1 = .ok flows ∧
      flows.map (·.id) = [.text "b", .text "a"] := by
  have hclock : (again Service.epoch).Pairwise fun p q => p.1.micros ≤ q.1.micros := by
    simp [again]
  obtain ⟨flows, hlist, hflows⟩ := StoreWrite.list_run { flow := blank "a" "A" .null } [] hclock (readable_again _)
  refine ⟨flows, hlist, ?_⟩
  rw [enterAll_again] at hflows
  simp only [Ledger.sorted, List.reverse_cons, List.reverse_nil, List.nil_append, List.cons_append,
    List.insertionSort_cons, List.insertionSort_nil, List.orderedInsert_nil, List.orderedInsert_cons, Ledger.NotEarlier,
    le_refl, if_true] at hflows
  cases hflows with
  | cons hother hrest =>
    cases hrest with
    | cons hlast hrest =>
      cases hrest
      rw [(writable_blank rfl "B" _ _).eq_reread hother, (writable_blank rfl "A" _ _).eq_reread hlast]
      rfl

end Archive

end BlockFlow
