import BlockFlow.Flow.Cycle
import BlockFlow.Proofs.Identifier
import Mathlib.Logic.Relation

/-!
The search in depth finds a circle exactly when there is one.

* `Circles`: a circle is reached from a point along a relation.
* `Graph.Points`: a key points at another one.
* `Graph.Settled`: a set of keys that no link leaves and in which there is no circle.
* `Graph.Trail`: what holds throughout the search. What has been visited and is no longer on the path is settled, and each
  node of the path accounts for all that it points at.
* `Graph.Trail.leave`, `Graph.Trail.pass`, `Graph.Trail.enter`: the three moves of the search keep it; `Graph.Trail.circle`
  is the fourth, which ends it.
* `Graph.searchFrom_spec`: the answer of a search, and what has been visited after it; `Graph.searchAll_spec`: the answer of
  many.
-/

namespace BlockFlow

open Relation

/-! ## Circles of a relation -/

/-- A circle is reached from a point. -/
def Circles {α : Type} (r : α → α → Prop) (a : α) : Prop := ∃ c, ReflTransGen r a c ∧ TransGen r c c

section Circles

variable {α β : Type} {r : α → α → Prop} {s : β → β → Prop} {a b : α}

theorem Circles.head (hab : ReflTransGen r a b) (h : Circles r b) : Circles r a := by
  obtain ⟨c, hbc, hc⟩ := h
  exact ⟨c, hab.trans hbc, hc⟩

/-- A map that respects the steps of two relations takes circles to circles. -/
theorem Circles.lift (m : α → β) (hm : ∀ a b, r a b → s (m a) (m b)) (h : Circles r a) : Circles s (m a) := by
  obtain ⟨c, hac, hc⟩ := h
  exact ⟨m c, hac.lift m hm, hc.lift m hm⟩

/-- Where a circle is reached, one is reached from a point with a step. -/
theorem Circles.exists_step (h : Circles r a) : ∃ c b, r c b ∧ Circles r c := by
  obtain ⟨c, -, hc⟩ := h
  obtain ⟨b, hb, -⟩ := TransGen.head'_iff.1 hc
  exact ⟨c, b, hb, c, .refl, hc⟩

end Circles

namespace Graph

/-! ## Keys that point at keys -/

/-- A key points at another one. -/
def Points (g : Graph) (a b : Key) : Prop := ∃ l ∈ g, l.source = a ∧ l.target.key = .ok b

variable {g : Graph} {ix : Index g} {visited : KeySet} {k node : Key} {l : { l : Link // l ∈ g }}
  {rest : List { l : Link // l ∈ g }} {below stack : List (Frame g)}

@[simp] theorem path_nil : path ([] : List (Frame g)) = [] := rfl

@[simp] theorem path_cons (fr : Frame g) : path (fr :: stack) = fr.node :: path stack := rfl

theorem source_of_mem_next (h : l ∈ g.next k) : l.1.source = k := by
  unfold next at h
  simpa using (List.mem_filter.1 h).2

theorem mem_next_of_points {b : Key} (h : g.Points k b) : ∃ l ∈ g.next k, l.1.target.key = .ok b := by
  obtain ⟨l, hl, hs, ht⟩ := h
  refine ⟨⟨l, hl⟩, ?_, ht⟩
  unfold next
  exact List.mem_filter.2 ⟨List.mem_attach _ _, by simpa using hs⟩

/-! ## What holds throughout the search -/

/-- No link leaves the set, and there is no circle in it. -/
structure Settled (g : Graph) (S : Key → Prop) : Prop where
  closed : ∀ a b, S a → g.Points a b → S b
  acyclic : ∀ a, S a → ¬ TransGen g.Points a a

/-- Each frame accounts for all that its node points at: that is done, or is next on the path, or its link has still to be
looked at. -/
def Accounted (g : Graph) (done : Key → Prop) : Option Key → List (Frame g) → Prop
  | _, [] => True
  | above, ⟨node, rest⟩ :: below =>
    (∀ b, g.Points node b → done b ∨ above = some b ∨ ∃ l ∈ rest, l.1.target.key = .ok b) ∧
    (∀ b, above = some b → g.Points node b) ∧ (∀ l ∈ rest, l.1.source = node) ∧
    Accounted g done (some node) below

/-- What has been visited and is no longer on the path. -/
def Done (visited : KeySet) (stack : List (Frame g)) (k : Key) : Prop :=
  k ∈ visited.members ∧ k ∉ path stack

/-- What holds throughout the search. -/
structure Trail (g : Graph) (visited : KeySet) (stack : List (Frame g)) : Prop where
  /-- The path has been visited. -/
  seen : ∀ k ∈ path stack, k ∈ visited.members
  /-- Nothing is on the path twice. -/
  nodup : (path stack).Nodup
  /-- What has been left is settled. -/
  settled : Settled g (Done visited stack)
  /-- The frames account for the rest. -/
  frames : Accounted g (Done visited stack) none stack

theorem Settled.reach {S : Key → Prop} (h : Settled g S) {a b : Key} (ha : S a)
    (hab : ReflTransGen g.Points a b) : S b := by
  induction hab with
  | refl => exact ha
  | tail _ hstep ih => exact h.closed _ _ ih hstep

theorem Settled.congr {S T : Key → Prop} (h : Settled g S) (hST : ∀ k, T k ↔ S k) : Settled g T := by
  obtain rfl : T = S := funext fun k => propext (hST k)
  exact h

theorem Settled.not_circles {S : Key → Prop} (h : Settled g S) {a : Key} (ha : S a) : ¬ Circles g.Points a := by
  rintro ⟨c, hac, hc⟩
  exact h.acyclic c (h.reach ha hac) hc

/-- A key whose links all lead into a settled set can be added to it. -/
theorem Settled.add {S : Key → Prop} (h : Settled g S) (hk : ¬ S k) (hnext : ∀ b, g.Points k b → S b) :
    Settled g fun a => a = k ∨ S a := by
  refine ⟨?_, ?_⟩
  · rintro a b (rfl | ha) hab
    · exact Or.inr (hnext b hab)
    · exact Or.inr (h.closed a b ha hab)
  · rintro a (rfl | ha) hc
    · -- a circle through `k` would lead from the settled set back to `k`
      obtain ⟨b, hab, hba⟩ := TransGen.head'_iff.1 hc
      exact hk (h.reach (hnext b hab) hba)
    · exact h.acyclic a ha hc

theorem Accounted.mono {d e : Key → Prop} (hde : ∀ k, d k → e k) :
    ∀ {above : Option Key} {stack : List (Frame g)}, Accounted g d above stack → Accounted g e above stack
  | _, [], _ => trivial
  | _, ⟨_, _⟩ :: _, ⟨h, hup, hsrc, hbelow⟩ =>
    ⟨fun b hb => (h b hb).imp_left (hde b), hup, hsrc, hbelow.mono hde⟩

/-- What the top of a path leaves behind counts as done from then on. -/
theorem Accounted.pop {d e : Key → Prop} {above : Option Key} (hde : ∀ k, d k → e k)
    (habove : ∀ k, above = some k → e k) (h : Accounted g d above stack) : Accounted g e none stack := by
  match stack, h with
  | [], _ => trivial
  | ⟨node, rest⟩ :: below, ⟨h, _, hsrc, hbelow⟩ =>
    refine ⟨fun b hb => ?_, by simp, hsrc, hbelow.mono hde⟩
    rcases h b hb with hd | ha | hl
    · exact Or.inl (hde b hd)
    · exact Or.inl (habove b ha)
    · exact Or.inr (Or.inr hl)

/-- Every node below the top of a path leads to it. -/
theorem Accounted.reach {d : Key → Prop} {above : Option Key} {top : Frame g}
    (h : Accounted g d above (top :: below)) : ∀ x ∈ below, ReflTransGen g.Points x.node top.node := by
  induction below generalizing above top with
  | nil => simp
  | cons fr below ih =>
    intro x hx
    obtain ⟨-, -, -, hfr⟩ := h
    have hstep : g.Points fr.node top.node := hfr.2.1 _ rfl
    rcases List.mem_cons.1 hx with rfl | hx
    · exact ReflTransGen.single hstep
    · exact (ih hfr x hx).tail hstep

namespace Trail

/-- The top of the path has no more links: it is left. -/
theorem leave (h : Trail g visited (⟨node, []⟩ :: below)) : Trail g visited below := by
  obtain ⟨hnode, hbelow⟩ := List.nodup_cons.1 h.nodup
  have hdone : ∀ k, Done visited below k ↔ k = node ∨ Done visited (⟨node, []⟩ :: below) k := by
    intro k
    have hseen := h.seen node (by simp)
    by_cases hk : k = node
    · subst hk
      exact ⟨fun _ => Or.inl rfl, fun _ => ⟨hseen, hnode⟩⟩
    · simp [Done, hk]
  obtain ⟨hnext, -, -, hframes⟩ := h.frames
  have hlinks : ∀ b, g.Points node b → Done visited (⟨node, []⟩ :: below) b := by
    intro b hb
    simpa using hnext b hb
  refine ⟨fun k hk => h.seen k (List.mem_cons_of_mem _ hk), hbelow, ?_, ?_⟩
  · exact (h.settled.add (by simp [Done]) hlinks).congr hdone
  · refine hframes.pop (fun k hk => (hdone k).2 (Or.inr hk)) fun k hk => ?_
    obtain rfl : node = k := by simpa using hk
    exact (hdone node).2 (Or.inl rfl)

/-- A link to what has been left is passed over. -/
theorem pass (h : Trail g visited (⟨node, l :: rest⟩ :: below)) (hk : l.1.target.key = .ok k)
    (hseen : k ∈ visited.members) (hpath : k ∉ node :: path below) :
    Trail g visited (⟨node, rest⟩ :: below) := by
  obtain ⟨hnext, hup, hsrc, hframes⟩ := h.frames
  refine ⟨h.seen, h.nodup, h.settled, fun b hb => ?_, hup, fun l' hl' => hsrc l' (List.mem_cons_of_mem _ hl'), hframes⟩
  rcases hnext b hb with hd | ha | ⟨l', hl', hb'⟩
  · exact Or.inl hd
  · exact Or.inr (Or.inl ha)
  · rcases List.mem_cons.1 hl' with rfl | hl'
    · obtain rfl : b = k := by rw [hb'] at hk; simpa using hk
      exact Or.inl ⟨hseen, by simpa using hpath⟩
    · exact Or.inr (Or.inr ⟨l', hl', hb'⟩)

/-- A link to what has not been visited is followed. -/
theorem enter (h : Trail g visited (⟨node, l :: rest⟩ :: below)) (hk : l.1.target.key = .ok k)
    (hnew : k ∉ visited.members) :
    Trail g (visited.insert k) (⟨k, g.next k⟩ :: ⟨node, rest⟩ :: below) := by
  have hdone : ∀ a, Done (visited.insert k) (⟨k, g.next k⟩ :: ⟨node, rest⟩ :: below) a ↔
      Done visited (⟨node, l :: rest⟩ :: below) a := by
    intro a
    by_cases ha : a = k
    · subst ha
      simp [Done, hnew]
    · simp [Done, KeySet.mem_insert, ha]
  obtain ⟨hnext, -, hsrc, hframes⟩ := h.frames
  refine ⟨?_, ?_, h.settled.congr hdone, ⟨?_, by simp, fun l' hl' => source_of_mem_next hl', ?_, ?_, ?_, ?_⟩⟩
  · intro a ha
    rcases List.mem_cons.1 ha with rfl | ha
    · exact KeySet.mem_insert.2 (Or.inl rfl)
    · exact KeySet.mem_insert.2 (Or.inr (h.seen a ha))
  · exact List.nodup_cons.2 ⟨fun hmem => hnew (h.seen k hmem), h.nodup⟩
  · intro b hb
    exact Or.inr (Or.inr (mem_next_of_points hb))
  · intro b hb
    rcases hnext b hb with hd | ha | ⟨l', hl', hb'⟩
    · exact Or.inl ((hdone b).2 hd)
    · simp at ha
    · rcases List.mem_cons.1 hl' with rfl | hl'
      · obtain rfl : b = k := by rw [hb'] at hk; simpa using hk
        exact Or.inr (Or.inl rfl)
      · exact Or.inr (Or.inr ⟨l', hl', hb'⟩)
  · rintro b hb
    obtain rfl : k = b := by simpa using hb
    exact ⟨l.1, l.2, hsrc l (by simp), hk⟩
  · exact fun l' hl' => hsrc l' (List.mem_cons_of_mem _ hl')
  · exact hframes.mono fun a ha => (hdone a).2 ha

/-- A link back into the path closes a circle. -/
theorem circle (h : Trail g visited (⟨node, l :: rest⟩ :: below)) (hk : l.1.target.key = .ok k)
    (hpath : k ∈ node :: path below) : Circles g.Points node := by
  have hstep : g.Points node k := ⟨l.1, l.2, h.frames.2.2.1 l (by simp), hk⟩
  refine ⟨node, ReflTransGen.refl, TransGen.head' hstep ?_⟩
  rcases List.mem_cons.1 hpath with rfl | hmem
  · exact ReflTransGen.refl
  · obtain ⟨x, hx, rfl⟩ := List.mem_map.1 hmem
    exact h.frames.reach x hx

end Trail

/-! ## A whole search -/

/-- A walk that finds a circle has reached it from its path. -/
theorem walk_found {after : KeySet} (h : Trail g visited stack) (hw : walk ix visited stack = .ok (true, after)) :
    ∃ fr ∈ stack, Circles g.Points fr.node := by
  fun_induction walk ix visited stack with
  | case1 => simp at hw
  | case2 visited node below ih =>
    obtain ⟨fr, hfr, hc⟩ := ih h.leave hw
    exact ⟨fr, List.mem_cons_of_mem _ hfr, hc⟩
  | case3 => simp at hw
  | case4 visited node l rest below k hk hseen hpath =>
    exact ⟨_, List.mem_cons_self, h.circle hk hpath⟩
  | case5 visited node l rest below k hk hseen hpath ih =>
    obtain ⟨fr, hfr, hc⟩ := ih (h.pass hk (KeySet.contains_iff.1 hseen) hpath) hw
    rcases List.mem_cons.1 hfr with rfl | hfr
    · exact ⟨_, List.mem_cons_self, hc⟩
    · exact ⟨fr, List.mem_cons_of_mem _ hfr, hc⟩
  | case6 visited node l rest below k hk hseen ih =>
    have hstep : g.Points node k := ⟨l.1, l.2, h.frames.2.2.1 l (by simp), hk⟩
    rw [Index.next_eq] at ih hw
    obtain ⟨fr, hfr, hc⟩ := ih (h.enter hk (by simpa using hseen)) hw
    rcases List.mem_cons.1 hfr with rfl | hfr
    · exact ⟨_, List.mem_cons_self, hc.head (ReflTransGen.single hstep)⟩
    · rcases List.mem_cons.1 hfr with rfl | hfr
      · exact ⟨_, List.mem_cons_self, hc⟩
      · exact ⟨fr, List.mem_cons_of_mem _ hfr, hc⟩

/-- A walk that finds no circle has settled all that can be reached from its path, and visited nothing else. -/
theorem walk_settled {after : KeySet} (h : Trail g visited stack)
    (hw : walk ix visited stack = .ok (false, after)) :
    Settled g (· ∈ after.members) ∧ (∀ k ∈ visited.members, k ∈ after.members) ∧
      ∀ k ∈ after.members, k ∈ visited.members ∨ ∃ fr ∈ stack, ReflTransGen g.Points fr.node k := by
  fun_induction walk ix visited stack with
  | case1 visited =>
    obtain rfl : visited = after := by simpa using hw
    refine ⟨h.settled.congr fun k => ?_, fun _ hk => hk, fun k hk => Or.inl hk⟩
    simp [Done]
  | case2 visited node below ih =>
    obtain ⟨hs, hsub, hreach⟩ := ih h.leave hw
    refine ⟨hs, hsub, fun k hk => (hreach k hk).imp_right ?_⟩
    rintro ⟨fr, hfr, hr⟩
    exact ⟨fr, List.mem_cons_of_mem _ hfr, hr⟩
  | case3 => simp at hw
  | case4 => simp at hw
  | case5 visited node l rest below k hk hseen hpath ih =>
    obtain ⟨hs, hsub, hreach⟩ := ih (h.pass hk (KeySet.contains_iff.1 hseen) hpath) hw
    refine ⟨hs, hsub, fun a ha => (hreach a ha).imp_right ?_⟩
    rintro ⟨fr, hfr, hr⟩
    rcases List.mem_cons.1 hfr with rfl | hfr
    · exact ⟨_, List.mem_cons_self, hr⟩
    · exact ⟨fr, List.mem_cons_of_mem _ hfr, hr⟩
  | case6 visited node l rest below k hk hseen ih =>
    have hstep : g.Points node k := ⟨l.1, l.2, h.frames.2.2.1 l (by simp), hk⟩
    rw [Index.next_eq] at ih hw
    obtain ⟨hs, hsub, hreach⟩ := ih (h.enter hk (by simpa using hseen)) hw
    refine ⟨hs, fun a ha => hsub a (KeySet.mem_insert.2 (Or.inr ha)), fun a ha => ?_⟩
    -- the new node is one step from the old top, so what it leads to is reached from there
    have htop : ∀ a, ReflTransGen g.Points k a → ∃ fr ∈ (⟨node, l :: rest⟩ : Frame g) :: below,
        ReflTransGen g.Points fr.node a := fun a hr => ⟨_, List.mem_cons_self, hr.head hstep⟩
    rcases hreach a ha with hv | ⟨fr, hfr, hr⟩
    · rcases KeySet.mem_insert.1 hv with rfl | hv
      · exact Or.inr (htop _ ReflTransGen.refl)
      · exact Or.inl hv
    · rcases List.mem_cons.1 hfr with rfl | hfr
      · exact Or.inr (htop a hr)
      · rcases List.mem_cons.1 hfr with rfl | hfr
        · exact Or.inr ⟨_, List.mem_cons_self, hr⟩
        · exact Or.inr ⟨fr, List.mem_cons_of_mem _ hfr, hr⟩

/-- A walk over links that all lead to keys comes to an answer. -/
theorem walk_total (ix : Index g) (hg : ∀ l ∈ g, ∃ k, l.target.key = .ok k) (visited : KeySet)
    (stack : List (Frame g)) :
    ∃ answer, walk ix visited stack = .ok answer := by
  fun_induction walk ix visited stack with
  | case1 visited => exact ⟨_, rfl⟩
  | case2 _ _ _ ih => exact ih
  | case3 _ _ l _ _ _ hf =>
    obtain ⟨k, hk⟩ := hg l.1 l.2
    rw [hk] at hf
    cases hf
  | case4 visited => exact ⟨_, rfl⟩
  | case5 _ _ _ _ _ _ _ _ _ ih => exact ih
  | case6 _ _ _ _ _ _ _ _ ih => exact ih

/-- A search starts on a path of one node. -/
theorem Trail.start (hs : Settled g (· ∈ visited.members)) (hk : k ∉ visited.members) :
    Trail g (visited.insert k) [⟨k, g.next k⟩] := by
  have hdone : ∀ a, Done (visited.insert k) [(⟨k, g.next k⟩ : Frame g)] a ↔ a ∈ visited.members := by
    intro a
    by_cases ha : a = k
    · subst ha
      simp [Done, hk]
    · simp [Done, KeySet.mem_insert, ha]
  refine ⟨?_, by simp, hs.congr hdone, ?_, by simp, fun l hl => source_of_mem_next hl, trivial⟩
  · intro a ha
    exact KeySet.mem_insert.2 (Or.inl (by simpa using ha))
  · exact fun b hb => Or.inr (Or.inr (mem_next_of_points hb))

/-- **The search in depth.** From a key outside of a settled set it comes to an answer, finds a circle just when one is
reached from there, and has otherwise visited just what is reached, which is settled as well. -/
theorem searchFrom_spec (ix : Index g) (hg : ∀ l ∈ g, ∃ k, l.target.key = .ok k)
    (hs : Settled g (· ∈ visited.members)) (hk : k ∉ visited.members) :
    ∃ found after, searchFrom ix k visited = .ok (found, after) ∧ (found = true ↔ Circles g.Points k) ∧
      (found = false → Settled g (· ∈ after.members) ∧
        ∀ a, a ∈ after.members ↔ a ∈ visited.members ∨ ReflTransGen g.Points k a) := by
  have htrail := Trail.start hs hk
  obtain ⟨⟨found, after⟩, hw⟩ := walk_total ix hg (visited.insert k) [⟨k, g.next k⟩]
  refine ⟨found, after, by rw [searchFrom, Index.next_eq, hw], ?_⟩
  cases found with
  | true =>
    obtain ⟨fr, hfr, hc⟩ := walk_found htrail hw
    obtain rfl := List.mem_singleton.1 hfr
    exact ⟨⟨fun _ => hc, fun _ => rfl⟩, by simp⟩
  | false =>
    obtain ⟨hset, hsub, hreach⟩ := walk_settled htrail hw
    have hstart : k ∈ after.members := hsub k (KeySet.mem_insert.2 (Or.inl rfl))
    refine ⟨⟨by simp, fun hc => absurd hc (hset.not_circles hstart)⟩, fun _ => ⟨hset, fun a => ⟨fun ha => ?_, ?_⟩⟩⟩
    · rcases hreach a ha with hv | ⟨fr, hfr, hr⟩
      · rcases KeySet.mem_insert.1 hv with rfl | hv
        · exact Or.inr ReflTransGen.refl
        · exact Or.inl hv
      · obtain rfl := List.mem_singleton.1 hfr
        exact Or.inr hr
    · rintro (hv | hr)
      · exact hsub a (KeySet.mem_insert.2 (Or.inr hv))
      · exact hset.reach hstart hr

/-- **Searches one after the other.** What a search without a circle has visited is settled, so the next ones need not
enter it, and they find a circle just when one is reached from one of the keys. -/
theorem searchAll_spec (ix : Index g) (hg : ∀ l ∈ g, ∃ k, l.target.key = .ok k)
    (hs : Settled g (· ∈ visited.members)) (keys : List Key) :
    ∃ found, searchAll ix visited keys = .ok found ∧ (found = true ↔ ∃ k ∈ keys, Circles g.Points k) := by
  induction keys generalizing visited with
  | nil => exact ⟨false, rfl, by simp⟩
  | cons k rest ih =>
    by_cases hk : k ∈ visited.members
    · obtain ⟨found, hrest, hfound⟩ := ih hs
      refine ⟨found, ?_, ?_⟩
      · rw [searchAll, if_pos (KeySet.contains_iff.2 hk), hrest]
      · simp [hfound, hs.not_circles hk]
    · have hunseen : ¬ visited.contains k = true := fun h => hk (KeySet.contains_iff.1 h)
      obtain ⟨found, after, hsearch, hfound, hafter⟩ := searchFrom_spec ix hg hs hk
      cases found with
      | true =>
        refine ⟨true, ?_, by simp [hfound.1 rfl]⟩
        rw [searchAll, if_neg hunseen, hsearch]
      | false =>
        obtain ⟨again, hrest, hagain⟩ := ih (hafter rfl).1
        refine ⟨again, ?_, ?_⟩
        · rw [searchAll, if_neg hunseen, hsearch]
          exact hrest
        · have hnone : ¬ Circles g.Points k := fun hc => by simpa using hfound.2 hc
          simp [hagain, hnone]

end Graph

end BlockFlow
