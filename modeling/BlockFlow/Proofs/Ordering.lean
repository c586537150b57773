import BlockFlow.Proofs.Identifier
import BlockFlow.Value.Order
import Mathlib.Data.List.Pairwise
import Mathlib.Data.List.Perm.Basic

/-!
When a list can be sorted by a comparison that may fail. However the comparisons are chosen, those that are made tie all
elements together, so a list in which two sorts of elements meet is never sorted.

* `Sorting.Ends`: a step of sorting ends with a result, or with the fault of comparing two of the elements.
* `Sorting.Likeness`: elements fall into sorts, and those of one sort are the ones that can be compared.
* `Sorting.sortBy_ends`: **what is sorted is a rearrangement of a list of elements of one sort.**
* `Sorting.sortBy_isOk`: a list can be sorted exactly if any two of its elements are alike.
-/

namespace BlockFlow.Sorting

variable {α β γ : Type}

/-- How a step may end: with a result as told, or with the fault of comparing two members. -/
def Ends (less : Comparison α) (M : α → Prop) (Q : β → Prop) : Except Fault β → Prop
  | .ok b => Q b
  | .error fault => ∃ x y, M x ∧ M y ∧ less x y = .error fault

variable {less : Comparison α} {Like : α → α → Prop} {M : α → Prop} {s : Side}

theorem Ends.bind {Q : β → Prop} {R : γ → Prop} {step : Except Fault β} {next : β → Except Fault γ}
    (h : Ends less M Q step) (hnext : ∀ b, Q b → Ends less M R (next b)) : Ends less M R (step >>= next) := by
  cases step with
  | ok b => exact hnext b h
  | error fault => exact h

theorem Ends.mono {Q R : β → Prop} {step : Except Fault β} (h : Ends less M Q step) (hQR : ∀ b, Q b → R b) :
    Ends less M R step := by
  cases step with
  | ok b => exact hQR b h
  | error fault => exact h

theorem Ends.map {Q : β → Prop} {f : β → γ} {step : Except Fault β} (h : Ends less M Q step) {R : γ → Prop}
    (hQR : ∀ b, Q b → R (f b)) : Ends less M R (step.map f) := by
  cases step with
  | ok b => exact hQR b h
  | error fault => exact h

/-- Members fall into sorts, and those of one sort are the ones that can be compared. -/
structure Likeness (less : Comparison α) (Like : α → α → Prop) (M : α → Prop) : Prop where
  compared {x y : α} : M x → M y → ((∃ b, less x y = .ok b) ↔ Like x y)
  symm {x y : α} : Like x y → Like y x
  trans {x y z : α} : Like x y → Like y z → Like x z

namespace Likeness

variable (h : Likeness less Like M) {xs ys : List α} {x y : α}

include h

theorem less_ends (hx : M x) (hy : M y) : Ends less M (fun _ => Like x y) (less x y) := by
  cases hless : less x y with
  | ok b => exact (h.compared hx hy).1 ⟨b, hless⟩
  | error fault => exact ⟨x, y, hx, hy, hless⟩

theorem pairwise_perm (hxs : xs.Pairwise Like) (hperm : xs.Perm ys) : ys.Pairwise Like :=
  hperm.pairwise hxs h.symm

theorem alike_of_mem (hxs : xs.Pairwise Like) (hx : x ∈ xs) (hy : y ∈ xs) (hne : x ≠ y) : Like x y := by
  have : Std.Symm Like := ⟨fun _ _ => h.symm⟩
  exact hxs.forall hx hy hne

theorem pairwise_cons (hxs : xs.Pairwise Like) (hy : y ∈ xs) (hxy : Like x y) : (x :: xs).Pairwise Like := by
  refine List.pairwise_cons.2 ⟨fun z hz => ?_, hxs⟩
  by_cases hyz : y = z
  · exact hyz ▸ hxy
  · exact h.trans hxy (h.alike_of_mem hxs hy hz hyz)

theorem pairwise_append (hxs : xs.Pairwise Like) (hys : ys.Pairwise Like) (hx : x ∈ xs) (hy : y ∈ ys)
    (hxy : Like x y) : (xs ++ ys).Pairwise Like := by
  refine List.pairwise_append.2 ⟨hxs, hys, fun a ha b hb => ?_⟩
  have hay : Like a y := by
    rcases List.pairwise_cons.1 (h.pairwise_cons hxs hx (h.symm hxy)) with ⟨hto, -⟩
    exact h.symm (hto a ha)
  rcases List.pairwise_cons.1 (h.pairwise_cons hys hy hay) with ⟨hto, -⟩
  exact hto b hb

end Likeness

/-! ## Positions by test -/

section Test

variable {P : α → Prop} {test : α → Except Fault Bool} (htest : ∀ x, M x → Ends less M (fun _ => P x) (test x))
  {xs : List α} (hxs : ∀ x ∈ xs, M x)

include htest hxs

theorem testAt_ends {i : Nat} : Ends less M (fun _ => i < xs.length → ∃ x ∈ xs, P x) (testAt test xs i) := by
  unfold testAt
  split
  · rename_i x hx
    have hmem := List.mem_of_getElem? hx
    exact (htest x (hxs x hmem)).mono fun _ hP _ => ⟨x, hmem, hP⟩
  · rename_i hnone
    intro hlt
    rw [List.getElem?_eq_getElem hlt] at hnone
    cases hnone

/-- A bisection looks at one element at least. -/
theorem bisect_ends (low high : Nat) (hhigh : high ≤ xs.length) :
    Ends less M (fun _ => low < high → ∃ x ∈ xs, P x) (bisect s test xs low high) := by
  induction low, high using bisect.induct s with
  | case1 low high hlt ihright ihleft =>
    rw [bisect, dif_pos hlt]
    have hmid := middle_lt s hlt
    refine (testAt_ends htest hxs).bind fun b hfound => ?_
    have hsome := hfound (Nat.lt_of_lt_of_le hmid hhigh)
    split
    · exact (ihright hhigh).mono fun _ _ _ => hsome
    · exact (ihleft (Nat.le_trans (Nat.le_of_lt hmid) hhigh)).mono fun _ _ _ => hsome
  | case2 low high hnot =>
    rw [bisect, dif_neg hnot]
    exact fun hlt => absurd hlt hnot

theorem climb_ends (last next : Nat) : Ends less M (fun _ => True) (climb s test xs last next) := by
  induction last, next using climb.induct xs with
  | case1 last next hlt ih =>
    rw [climb, dif_pos hlt]
    refine (testAt_ends htest hxs).bind fun b _ => ?_
    split
    · exact ih
    · exact (bisect_ends htest hxs _ _ (Nat.le_of_lt hlt)).mono fun _ _ => trivial
  | case2 last next hnot =>
    rw [climb, dif_neg hnot]
    exact (bisect_ends htest hxs _ _ (Nat.le_refl _)).mono fun _ _ => trivial

/-- Galloping looks at the first element. -/
theorem gallop_ends : Ends less M (fun _ => ∀ x ∈ xs.head?, P x) (gallop s test xs) := by
  cases xs with
  | nil => exact fun x hx => nomatch hx
  | cons x rest =>
    refine (htest x (hxs x List.mem_cons_self)).bind fun b hP => ?_
    have hhead : ∀ y ∈ (x :: rest).head?, P y := fun y hy => Option.mem_some.1 hy ▸ hP
    split
    · exact (climb_ends htest hxs 0 1).mono fun _ _ => hhead
    · exact hhead

end Test

/-! ## Merging -/

theorem assemble_perm (s : Side) (placed left right : List α) :
    (assemble s placed left right).Perm (placed ++ (left ++ right)) := by
  cases s with
  | front =>
    rw [assemble, List.append_assoc]
    exact (List.reverse_perm placed).append List.perm_append_comm
  | back =>
    rw [assemble]
    exact ((List.reverse_perm _).append_right placed).trans List.perm_append_comm

/-- Elements of the left run are put in place. -/
theorem place_perm (i : Nat) (placed left right : List α) :
    (((left.take i).reverse ++ placed) ++ (left.drop i ++ right)).Perm (placed ++ (left ++ right)) := by
  have hfront : ((left.take i).reverse ++ placed).Perm (placed ++ left.take i) :=
    ((List.reverse_perm _).append_right placed).trans List.perm_append_comm
  refine (hfront.append_right _).trans ?_
  rw [List.append_assoc, ← List.append_assoc (left.take i), List.take_append_drop]

/-- Elements of the right run are put in place. -/
theorem place_right (j : Nat) (placed left right : List α) :
    (((right.take j).reverse ++ placed) ++ (left ++ right.drop j)).Perm (placed ++ (left ++ right)) :=
  ((List.perm_append_comm.append_left _).trans (place_perm j placed right left)).trans
    (List.perm_append_comm.append_left placed)

section Likeness

variable (hlike : Likeness less Like M)

include hlike

theorem leftGoes_ends {x y : α} (hy : M y) (hx : M x) :
    Ends less M (fun _ => Like y x) (leftGoes less s y x) :=
  (hlike.less_ends hy hx).map fun _ h => h

theorem rightGoes_ends {x y : α} (hx : M x) (hy : M y) :
    Ends less M (fun _ => Like y x) (rightGoes less s x y) :=
  (hlike.less_ends hy hx).map fun _ h => h

theorem mergeFrom_ends (mode : Mode) (patience : Nat) (placed left right : List α) (hleft : ∀ x ∈ left, M x)
    (hright : ∀ y ∈ right, M y) :
    Ends less M (fun r => r.1.Perm (placed ++ (left ++ right))) (mergeFrom less s mode patience placed left right) := by
  induction mode, patience, placed, left, right using mergeFrom.induct s with
  | case1 mode patience placed x left y right hset =>
    cases mode with
    | comparing | galloping =>
      rw [mergeFrom, if_pos hset]
      exact assemble_perm ..
  | case2 patience placed x left y right hset lefts rights ihr ihl =>
    rw [mergeFrom, if_neg hset]
    have hx := List.forall_mem_cons.1 hleft
    have hy := List.forall_mem_cons.1 hright
    refine (rightGoes_ends hlike hx.1 hy.1).bind fun b _ => ?_
    cases b with
    | true => exact (ihr hleft hy.2).mono fun r h => h.trans (place_right 1 placed (x :: left) (y :: right))
    | false => exact (ihl hx.2 hright).mono fun r h => h.trans (place_perm 1 placed (x :: left) (y :: right))
  | case3 patience placed x left y right hset ihg ihc =>
    rw [mergeFrom, if_neg hset]
    have hy := List.forall_mem_cons.1 hright
    refine (gallop_ends (fun z hz => leftGoes_ends hlike hy.1 hz) hleft).bind fun i _ => ?_
    have hplaced := place_perm i placed (x :: left) (y :: right)
    split
    · rename_i hnil
      rw [hnil] at hplaced
      exact (assemble_perm ..).trans hplaced
    rename_i z rest hz
    have hrest : ∀ w ∈ z :: rest, M w := fun w hw => hleft w (List.mem_of_mem_drop (hz ▸ hw))
    have hz' := List.forall_mem_cons.1 hrest
    rw [hz] at hplaced
    -- what is in place after each of the steps of a round: elements of the left run, then `y`, then elements of the right
    -- run, then `z`
    have hmiddle := (place_right 1 _ (z :: rest) (y :: right)).trans hplaced
    split
    · exact (assemble_perm ..).trans hplaced
    split
    · exact (assemble_perm ..).trans hmiddle
    refine (gallop_ends (fun w hw => rightGoes_ends hlike hz'.1 hw) hy.2).bind fun j _ => ?_
    have hlater := (place_right j _ (z :: rest) right).trans hmiddle
    have hround := (place_perm 1 _ (z :: rest) _).trans hlater
    have hdrop : ∀ w ∈ right.drop j, M w := fun w hw => hy.2 w (List.mem_of_mem_drop hw)
    split
    · exact (assemble_perm ..).trans hlater
    split
    · exact (assemble_perm ..).trans hround
    split
    · exact (ihg i z rest hz j hz'.2 hdrop).mono fun r h => h.trans hround
    · exact (ihc i z rest hz j hz'.2 hdrop).mono fun r h => h.trans hround
  | case4 mode patience placed left right hne =>
    rw [mergeFrom]
    · exact assemble_perm ..
    · exact hne

theorem merge_ends (patience : Nat) (left right : List α) (hleft : ∀ x ∈ left, M x) (hright : ∀ y ∈ right, M y) :
    Ends less M (fun r => r.1.Perm (left ++ right)) (merge less patience left right) := by
  unfold merge
  split
  · refine (mergeFrom_ends hlike _ _ _ _ _ hleft fun y hy => hright y (List.mem_of_mem_drop hy)).mono fun r h => ?_
    refine h.trans ((List.perm_append_comm.append_left _).trans ?_)
    rw [← List.append_assoc, List.take_append_drop]
    exact List.perm_append_comm
  · refine (mergeFrom_ends hlike _ _ _ _ _ (fun x hx => hleft x (List.mem_reverse.1 (List.mem_of_mem_drop hx)))
      fun y hy => hright y (List.mem_reverse.1 hy)).mono fun r h => ?_
    refine h.trans ?_
    rw [← List.append_assoc, List.take_append_drop]
    exact (List.reverse_perm left).append (List.reverse_perm right)

/-- A run as it is kept: some elements, all of one sort. -/
def Run.Tied (Like : α → α → Prop) (r : Run α) : Prop := r.items ≠ [] ∧ r.items.Pairwise Like

omit hlike in
theorem joined_perm {xs ys merged : List α} {k n : Nat} (h : merged.Perm (xs.drop k ++ ys.take n)) :
    (xs.take k ++ merged ++ ys.drop n).Perm (xs ++ ys) := by
  refine ((h.append_left _).append_right _).trans ?_
  rw [← List.append_assoc, List.take_append_drop, List.append_assoc, List.take_append_drop]

theorem join_perm_ends (patience : Nat) {a b : Run α} (ha : ∀ x ∈ a.items, M x) (hb : ∀ y ∈ b.items, M y) :
    Ends less M (fun r => r.1.items.Perm (a.items ++ b.items) ∧
      ∀ x ∈ a.items.head?, ∀ y ∈ b.items.head?, Like y x) (join less patience a b) := by
  unfold join
  split
  · rename_i hnil
    refine ⟨by rw [hnil, List.append_nil], fun x _ y hy => ?_⟩
    rw [hnil] at hy
    cases hy
  rename_i y rest hcons
  have hy : M y := hb y (hcons ▸ List.mem_cons_self)
  refine (gallop_ends (fun x hx => leftGoes_ends hlike hy hx) ha).bind fun k hhead => ?_
  have htie : ∀ x ∈ a.items.head?, ∀ z ∈ b.items.head?, Like z x := by
    intro x hx z hz
    rw [hcons] at hz
    exact Option.mem_some.1 hz ▸ hhead x hx
  split
  · exact ⟨.rfl, htie⟩
  rename_i x hlast
  have hx : M x := ha x (List.mem_of_mem_drop (List.mem_of_getLast? hlast))
  refine (gallop_ends (fun z hz => rightGoes_ends hlike hx hz) fun z hz => hb z (List.mem_reverse.1 hz)).bind
    fun tail _ => ?_
  dsimp only
  split
  · exact ⟨.rfl, htie⟩
  refine (merge_ends hlike _ _ _ (fun z hz => ha z (List.mem_of_mem_drop hz))
    fun z hz => hb z (List.mem_of_mem_take hz)).bind fun merged hmerged => ?_
  exact ⟨joined_perm hmerged, htie⟩

theorem join_ends (patience : Nat) {a b : Run α} (ha : ∀ x ∈ a.items, M x) (hb : ∀ y ∈ b.items, M y)
    (hta : a.Tied Like) (htb : b.Tied Like) :
    Ends less M (fun r => r.1.items.Perm (a.items ++ b.items) ∧ r.1.Tied Like) (join less patience a b) := by
  refine (join_perm_ends hlike patience ha hb).mono fun r h => ⟨h.1, ?_, ?_⟩
  · intro hnil
    rw [hnil] at h
    exact hta.1 (List.append_eq_nil_iff.1 h.1.nil_eq.symm).1
  · obtain ⟨x, xs, hx⟩ := List.exists_cons_of_ne_nil hta.1
    obtain ⟨y, ys, hy⟩ := List.exists_cons_of_ne_nil htb.1
    have hyx : Like y x := h.2 x (by rw [hx]; rfl) y (by rw [hy]; rfl)
    refine hlike.pairwise_perm (hlike.pairwise_append hta.2 htb.2 (x := x) (y := y) ?_ ?_ (hlike.symm hyx)) h.1.symm
    · rw [hx]
      exact List.mem_cons_self
    · rw [hy]
      exact List.mem_cons_self

/-! ## Runs -/

theorem runLength_ends (down : Bool) {last : α} (hlast : M last) {xs : List α} (hxs : ∀ x ∈ xs, M x) :
    Ends less M (fun n => (last :: xs.take n).Pairwise Like) (runLength less down last xs) := by
  induction xs generalizing last with
  | nil => exact List.pairwise_singleton _ _
  | cons x rest ih =>
    have hx := List.forall_mem_cons.1 hxs
    refine (hlike.less_ends hx.1 hlast).bind fun b hb => ?_
    split
    · refine (ih hx.1 hx.2).bind fun n hn => ?_
      exact hlike.pairwise_cons hn List.mem_cons_self (hlike.symm hb)
    · exact List.pairwise_singleton _ _

theorem stretch_ends {x : α} (hx : M x) {rest : List α} (hrest : ∀ y ∈ rest, M y) :
    Ends less M (fun r => (x :: rest.take r.1).Pairwise Like) (stretch less x rest) := by
  cases rest with
  | nil => exact List.pairwise_singleton _ _
  | cons y rest =>
    have hy := List.forall_mem_cons.1 hrest
    refine (hlike.less_ends hy.1 hx).bind fun down hyx => ?_
    refine (runLength_ends hlike down hy.1 hy.2).bind fun n hn => ?_
    exact hlike.pairwise_cons hn List.mem_cons_self (hlike.symm hyx)

omit hlike in
theorem inserted_perm (i : Nat) (sorted : List α) (x : α) : (sorted.take i ++ x :: sorted.drop i).Perm (x :: sorted) := by
  refine List.perm_middle.trans ?_
  rw [List.take_append_drop]

theorem insertAll_ends {sorted xs : List α} (hne : sorted ≠ []) (htied : sorted.Pairwise Like)
    (hsorted : ∀ x ∈ sorted, M x) (hxs : ∀ x ∈ xs, M x) :
    Ends less M (fun r => r.Perm (sorted ++ xs) ∧ r.Pairwise Like) (insertAll less sorted xs) := by
  induction xs generalizing sorted with
  | nil => exact ⟨by rw [List.append_nil], htied⟩
  | cons x rest ih =>
    have hx := List.forall_mem_cons.1 hxs
    refine (bisect_ends (fun y hy => leftGoes_ends hlike hx.1 hy) hsorted 0 _ (Nat.le_refl _)).bind fun i hsome => ?_
    obtain ⟨y, hy, hxy⟩ := hsome (List.length_pos_iff.2 hne)
    have hperm := inserted_perm i sorted x
    have hmem : ∀ z ∈ sorted.take i ++ x :: sorted.drop i, M z := fun z hz =>
      List.forall_mem_cons.2 ⟨hx.1, hsorted⟩ z (hperm.mem_iff.1 hz)
    refine (ih (by simp) (hlike.pairwise_perm (hlike.pairwise_cons htied hy hxy) hperm.symm) hmem hx.2).mono
      fun r h => ⟨h.1.trans ?_, h.2⟩
    exact (hperm.append_right rest).trans List.perm_middle.symm

theorem nextRun_ends (least : Nat) {x : α} (hx : M x) {rest : List α} (hrest : ∀ y ∈ rest, M y) :
    Ends less M (fun r => r.1.Perm (x :: rest.take r.2) ∧ r.1.Pairwise Like) (nextRun less least x rest) := by
  refine (stretch_ends hlike hx hrest).bind fun ⟨n, down⟩ htied => ?_
  dsimp only
  have hlead : (if down then (x :: rest.take n).reverse else x :: rest.take n).Perm (x :: rest.take n) := by
    split
    · exact List.reverse_perm _
    · rfl
  have hmem : ∀ y ∈ x :: rest.take n, M y := List.forall_mem_cons.2 ⟨hx, fun y hy => hrest y (List.mem_of_mem_take hy)⟩
  refine (insertAll_ends hlike (fun hnil => ?_) (hlike.pairwise_perm htied hlead.symm)
    (fun y hy => hmem y (hlead.mem_iff.1 hy))
    fun y hy => hrest y (List.mem_of_mem_take (List.mem_of_mem_drop hy))).bind fun r h => ⟨h.1.trans ?_, h.2⟩
  · rw [hnil] at hlead
    cases hlead.nil_eq
  · refine (hlead.append_right _).trans ?_
    have htake : (rest.take (max n (min (least - 1) rest.length))).take n = rest.take n := by
      rw [List.take_take, Nat.min_eq_left (Nat.le_max_left ..)]
    rw [List.cons_append, ← htake, List.take_append_drop]

/-- The elements of all runs. -/
def spread (runs : List (Run α)) : List α := runs.flatMap (·.items)

omit hlike in
theorem spread_cons (r : Run α) (runs : List (Run α)) : spread (r :: runs) = r.items ++ spread runs := List.flatMap_cons

theorem settle_ends (depth patience : Nat) {last : Run α} {below : List (Run α)}
    (hmem : ∀ x ∈ spread (last :: below), M x) (htied : ∀ r ∈ last :: below, r.Tied Like) :
    Ends less M (fun r => (spread r.1).Perm (spread (last :: below)) ∧ ∀ q ∈ r.1, q.Tied Like)
      (settle less depth patience last below) := by
  induction below generalizing last patience with
  | nil => exact ⟨.rfl, fun q hq => List.mem_singleton.1 hq ▸ htied last List.mem_cons_self⟩
  | cons r below ih =>
    rw [settle]
    have hl := List.forall_mem_cons.1 htied
    have hr := List.forall_mem_cons.1 hl.2
    simp only [spread_cons, List.mem_append] at hmem
    split
    · refine (join_ends hlike patience (fun x hx => hmem x (.inr (.inl hx))) (fun x hx => hmem x (.inl hx)) hr.1
        hl.1).bind fun ⟨joined, p⟩ hjoined => ?_
      have hperm : (spread (joined :: below)).Perm (spread (last :: r :: below)) := by
        simp only [spread_cons, ← List.append_assoc]
        exact (hjoined.1.trans List.perm_append_comm).append_right _
      refine (ih p (fun x hx => ?_) (List.forall_mem_cons.2 ⟨hjoined.2, hr.2⟩)).mono
        fun q hq => ⟨hq.1.trans hperm, hq.2⟩
      have hx := hperm.mem_iff.1 hx
      simp only [spread_cons, List.mem_append] at hx
      exact hmem x hx
    · exact ⟨.rfl, List.forall_mem_cons.2 ⟨hl.1, hl.2⟩⟩

theorem collect_ends (total patience start : Nat) {runs : List (Run α)} {xs : List α}
    (hruns : ∀ x ∈ spread runs, M x) (htied : ∀ r ∈ runs, r.Tied Like) (hxs : ∀ x ∈ xs, M x) :
    Ends less M (fun r => (spread r.1).Perm (spread runs ++ xs) ∧ ∀ q ∈ r.1, q.Tied Like)
      (collect less total patience start runs xs) := by
  induction patience, start, runs, xs using collect.induct with
  | case1 patience start runs =>
    rw [collect]
    exact ⟨by rw [List.append_nil], htied⟩
  | case2 patience start runs x rest ih =>
    rw [collect]
    have hx := List.forall_mem_cons.1 hxs
    refine (nextRun_ends hlike _ hx.1 hx.2).bind fun ⟨items, k⟩ hitems => ?_
    dsimp only
    have hrun : (⟨start, items, 0⟩ : Run α).Tied Like := by
      refine ⟨fun hnil => ?_, hitems.2⟩
      have hnil : items = [] := hnil
      rw [hnil] at hitems
      cases hitems.1.nil_eq
    have hgo : ∀ settled p, (spread settled).Perm (spread runs) → (∀ q ∈ settled, q.Tied Like) →
        Ends less M (fun r => (spread r.1).Perm (spread runs ++ x :: rest) ∧ ∀ q ∈ r.1, q.Tied Like)
          (collect less total p (start + k + 1) (⟨start, items, 0⟩ :: settled) (rest.drop k)) := by
      intro settled p hperm hs
      refine (ih items k settled p ?_ (List.forall_mem_cons.2 ⟨hrun, hs⟩)
        fun y hy => hx.2 y (List.mem_of_mem_drop hy)).mono fun r h => ⟨h.1.trans ?_, h.2⟩
      · intro y hy
        rw [spread_cons, List.mem_append] at hy
        rcases hy with hy | hy
        · rcases List.mem_cons.1 (hitems.1.mem_iff.1 hy) with rfl | hy
          · exact hx.1
          · exact hx.2 y (List.mem_of_mem_take hy)
        · exact hruns y (hperm.mem_iff.1 hy)
      · rw [spread_cons]
        calc (items ++ spread settled ++ rest.drop k)
          _ |>.Perm (x :: rest.take k ++ spread runs ++ rest.drop k) := (hitems.1.append hperm).append_right _
          _ |>.Perm (spread runs ++ (x :: rest.take k) ++ rest.drop k) := List.perm_append_comm.append_right _
          _ |>.Perm (spread runs ++ x :: rest) := by
              rw [List.append_assoc, List.cons_append, List.take_append_drop]
    cases runs with
    | nil => exact hgo [] patience .rfl fun q hq => nomatch hq
    | cons last below =>
      exact (settle_ends hlike _ _ hruns htied).bind fun settled h => hgo settled.1 settled.2 h.1 h.2

theorem collapse_ends (patience : Nat) {runs : List (Run α)} (hmem : ∀ x ∈ spread runs, M x)
    (htied : ∀ r ∈ runs, r.Tied Like) :
    Ends less M (fun ys => ys.Perm (spread runs) ∧ ys.Pairwise Like) (collapse less patience runs) := by
  induction patience, runs using collapse.induct with
  | case1 patience =>
    rw [collapse]
    exact ⟨.rfl, .nil⟩
  | case2 patience r =>
    rw [collapse]
    exact ⟨by simp [spread], (htied r List.mem_cons_self).2⟩
  | case3 patience r q =>
    rw [collapse]
    simp only [List.forall_mem_cons] at htied
    simp only [spread_cons, List.mem_append] at hmem
    refine (join_ends hlike patience (fun x hx => hmem x (.inr (.inl hx))) (fun x hx => hmem x (.inl hx)) htied.2.1
      htied.1).bind fun joined hjoined => ⟨hjoined.1.trans ?_, hjoined.2.2⟩
    rw [spread_cons, spread_cons, spread, List.flatMap_nil, List.append_nil]
    exact List.perm_append_comm
  | case4 patience r q p below hlt ih =>
    rw [collapse, if_pos hlt]
    simp only [List.forall_mem_cons] at htied
    have hmem' := hmem
    simp only [spread_cons, List.mem_append] at hmem'
    refine (join_ends hlike patience (fun x hx => hmem' x (.inr (.inr (.inl hx))))
      (fun x hx => hmem' x (.inr (.inl hx))) htied.2.2.1 htied.2.1).bind fun ⟨joined, n⟩ hjoined => ?_
    have hperm : (spread (r :: joined :: below)).Perm (spread (r :: q :: p :: below)) := by
      simp only [spread_cons, ← List.append_assoc q.items]
      exact ((hjoined.1.trans List.perm_append_comm).append_right _).append_left _
    refine (ih joined n (fun x hx => hmem x (hperm.mem_iff.1 hx)) ?_).mono fun ys h => ⟨h.1.trans hperm, h.2⟩
    simp only [List.forall_mem_cons]
    exact ⟨htied.1, hjoined.2, htied.2.2.2⟩
  | case5 patience r q p below hlt ih =>
    rw [collapse, if_neg hlt]
    simp only [List.forall_mem_cons] at htied
    have hmem' := hmem
    simp only [spread_cons, List.mem_append] at hmem'
    refine (join_ends hlike patience (fun x hx => hmem' x (.inr (.inl hx)))
      (fun x hx => hmem' x (.inl hx)) htied.2.1 htied.1).bind fun ⟨joined, n⟩ hjoined => ?_
    have hperm : (spread (joined :: p :: below)).Perm (spread (r :: q :: p :: below)) := by
      simp only [spread_cons, ← List.append_assoc r.items]
      exact (hjoined.1.trans List.perm_append_comm).append_right _
    refine (ih joined n (fun x hx => hmem x (hperm.mem_iff.1 hx)) ?_).mono fun ys h => ⟨h.1.trans hperm, h.2⟩
    simp only [List.forall_mem_cons]
    exact ⟨hjoined.2, htied.2.2.1, htied.2.2.2⟩

end Likeness

/-! ## Sorting -/

theorem sortBy_singleton (less : Comparison α) (x : α) : sortBy less [x] = .ok [x] := by
  have hrun : nextRun less (leastRun 1) x [] = .ok ([x], 0) := by
    simp [nextRun, stretch, insertAll, bind, Except.bind, pure, Except.pure]
  simp only [sortBy, List.length_singleton]
  rw [collect, hrun]
  simp only [bind, Except.bind, pure, Except.pure, List.drop_nil]
  rw [collect]
  simp only [collapse]

section

variable {xs : List α} (hlike : Likeness less Like (· ∈ xs))

include hlike

/-- What is sorted is a rearrangement of a list of elements of one sort; a list that cannot be sorted has two elements that
cannot be compared. -/
theorem sortBy_ends : Ends less (· ∈ xs) (fun ys => ys.Perm xs ∧ ys.Pairwise Like) (sortBy less xs) := by
  have hnone : ∀ x ∈ spread ([] : List (Run α)), x ∈ xs := fun x hx => nomatch hx
  refine (collect_ends hlike xs.length worthwhile 0 hnone (fun r hr => nomatch hr) fun x hx => hx).bind
    fun ⟨runs, patience⟩ h => ?_
  exact (collapse_ends hlike patience (fun x hx => h.1.mem_iff.1 hx) h.2).mono
    fun ys hys => ⟨hys.1.trans h.1, hys.2⟩

theorem sortBy_perm {ys : List α} (h : sortBy less xs = .ok ys) : ys.Perm xs := by
  have hends := sortBy_ends hlike
  rw [h] at hends
  exact hends.1

/-- Where there are two elements at least, each one has another that it is like, and so is like itself. -/
theorem Likeness.refl_of_pairwise (hxs : xs.Pairwise Like) (hlen : 2 ≤ xs.length) {x : α} (hx : x ∈ xs) : Like x x := by
  obtain ⟨before, after, rfl⟩ := List.append_of_mem hx
  have hcons := hlike.pairwise_perm hxs List.perm_middle
  have hlen : 0 < (before ++ after).length := by
    simp only [List.length_append, List.length_cons] at hlen ⊢
    omega
  obtain ⟨y, hy⟩ := List.exists_mem_of_length_pos hlen
  have hxy : Like x y := (List.pairwise_cons.1 hcons).1 y hy
  exact hlike.trans hxy (hlike.symm hxy)

/-- A list can be sorted exactly if any two of its elements are alike. -/
theorem sortBy_isOk : (∃ ys, sortBy less xs = .ok ys) ↔ xs.Pairwise Like := by
  have hends := sortBy_ends hlike
  constructor
  · rintro ⟨ys, h⟩
    rw [h] at hends
    exact hlike.pairwise_perm hends.2 hends.1
  · intro hxs
    match xs with
    | [] => exact ⟨[], by simp [sortBy, collect, collapse, bind, Except.bind]⟩
    | [x] => exact ⟨[x], sortBy_singleton less x⟩
    | x :: y :: rest =>
      cases h : sortBy less (x :: y :: rest) with
      | ok ys => exact ⟨ys, rfl⟩
      | error fault =>
        rw [h] at hends
        obtain ⟨a, b, ha, hb, hfault⟩ := hends
        have hab : Like a b := by
          by_cases heq : a = b
          · exact heq ▸ hlike.refl_of_pairwise hxs (by simp) ha
          · exact hlike.alike_of_mem hxs ha hb heq
        obtain ⟨before, hbefore⟩ := (hlike.compared ha hb).2 hab
        rw [hbefore] at hfault
        cases hfault

end

end BlockFlow.Sorting
