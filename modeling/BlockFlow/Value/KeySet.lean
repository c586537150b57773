import BlockFlow.Value.Key
import Std.Data.HashMap
import Std.Data.HashSet

/-!
Sets of keys. A set keeps its members in a list, the last one first, and a table beside it by which they are found.

* `KeySet`, `KeySet.insert`, `KeySet.contains`: the sets.
* `KeySet.contains_iff`: the table finds just the members.
-/

namespace BlockFlow

/-- A number by which keys are sorted into a table. -/
def Key.hash : Key → UInt64
  | .null => 1
  | .int n => mixHash 2 (Hashable.hash n)
  | .real _ => 3
  | .text s => Hashable.hash s
  | .bytes bs => mixHash 5 (Hashable.hash bs)
  | .unit => 7
  | .pair a b => mixHash a.hash b.hash

instance : Hashable Key := ⟨Key.hash⟩

/-- A set of keys. -/
structure KeySet where
  members : List Key
  table : Std.HashSet Key
  agree : ∀ k, k ∈ table ↔ k ∈ members

namespace KeySet

def empty : KeySet := ⟨[], ∅, by simp⟩

instance : Inhabited KeySet := ⟨empty⟩

def contains (s : KeySet) (k : Key) : Bool := s.table.contains k

theorem mem_table_insert (s : KeySet) (k a : Key) : a ∈ s.table.insert k ↔ a ∈ k :: s.members := by
  rw [Std.HashSet.mem_insert, s.agree, List.mem_cons, beq_iff_eq, eq_comm]

/-- The set with one more member. -/
def insert (s : KeySet) (k : Key) : KeySet :=
  if s.contains k then s else ⟨k :: s.members, s.table.insert k, s.mem_table_insert k⟩

def ofList (ks : List Key) : KeySet := ks.foldl insert empty

@[simp] theorem members_empty : empty.members = [] := rfl

@[simp] theorem contains_iff {s : KeySet} {k : Key} : s.contains k = true ↔ k ∈ s.members := by
  rw [contains, Std.HashSet.contains_iff_mem, s.agree]

theorem members_insert (s : KeySet) (k : Key) :
    (s.insert k).members = if k ∈ s.members then s.members else k :: s.members := by
  unfold insert
  simp only [contains_iff]
  split <;> rfl

theorem mem_insert {s : KeySet} {k a : Key} : a ∈ (s.insert k).members ↔ a = k ∨ a ∈ s.members := by
  rw [members_insert]
  split
  · rename_i h
    exact ⟨Or.inr, fun hm => hm.elim (fun e => e ▸ h) id⟩
  · exact List.mem_cons

end KeySet

end BlockFlow
