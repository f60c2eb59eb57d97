import Mathlib.Data.List.Infix
import ShardQuery.Proofs.Aggregate.Represents
/-!
# Merging along trees

Items that lie in several places are aggregated along a tree: the items of a leaf are
folded one by one, and the states of two subtrees are merged. What one step of an
aggregate keeps to, every tree keeps to.
-/

namespace ShardQuery

inductive MergeTree (α : Type) where
  | leaf (items : List α)
  | node (left right : MergeTree α)

namespace MergeTree

variable {α : Type}

def items : MergeTree α → List α
  | leaf items => items
  | node left right => left.items ++ right.items

/-- The trees behind the states on the way: all that a leaf begins with, and the nodes. -/
def parts : MergeTree α → List (MergeTree α)
  | leaf items => items.inits.map leaf
  | node left right => node left right :: (left.parts ++ right.parts)

variable {tree part left right : MergeTree α} {xs : List α} {p : List α → Prop}

theorem mem_parts_self (tree : MergeTree α) : tree ∈ tree.parts := by
  cases tree with
  | leaf xs => exact List.mem_map.mpr ⟨xs, (List.mem_inits xs xs).mpr List.prefix_rfl, rfl⟩
  | node left right => exact List.mem_cons_self

theorem forall_parts_leaf :
    (∀ part ∈ (leaf xs).parts, p part.items) ↔ ∀ front, front <+: xs → p front := by
  simp [parts, items]

theorem forall_parts_node : (∀ part ∈ (node left right).parts, p part.items) ↔
    p (left.items ++ right.items) ∧ (∀ part ∈ left.parts, p part.items) ∧
      ∀ part ∈ right.parts, p part.items := by
  simp [parts, items, or_imp, forall_and]

theorem items_sublist (h : part ∈ tree.parts) : part.items.Sublist tree.items := by
  induction tree with
  | leaf xs =>
    obtain ⟨front, hfront, rfl⟩ := List.mem_map.mp h
    exact ((List.mem_inits front xs).mp hfront).sublist
  | node left right ihl ihr =>
    rcases List.mem_cons.mp h with rfl | h
    · exact List.Sublist.refl _
    rcases List.mem_append.mp h with hl | hr
    · exact (ihl hl).trans (List.sublist_append_left ..)
    · exact (ihr hr).trans (List.sublist_append_right ..)

end MergeTree

namespace AggregateFunction

variable {α : Type}

def fold (f : AggregateFunction) (arguments : α → List Value) :
    MergeTree α → Except EngineError PartialState
  | .leaf items =>
    items.foldlM (fun state x => Halt.reported (f.iterate state (arguments x))) f.initial
  | .node left right => do
    Halt.reported (f.merge (← f.fold arguments left) (← f.fold arguments right))

def outcome (f : AggregateFunction) (arguments : α → List Value) (tree : MergeTree α) :
    Except EngineError Value := do
  f.finalize (← f.fold arguments tree)

theorem outcome_ok {f : AggregateFunction} {arguments : α → List Value} {tree : MergeTree α}
    {s : PartialState} (hs : f.fold arguments tree = .ok s) :
    f.outcome arguments tree = f.finalize s := by
  rw [outcome, hs, ok_bind]

theorem outcome_error {f : AggregateFunction} {arguments : α → List Value} {tree : MergeTree α}
    {e : EngineError} (he : f.fold arguments tree = .error e) :
    f.outcome arguments tree = .error e := by
  rw [outcome, he, error_bind]

/-- A state of the values, if they are within bounds; the error, if they are not. -/
inductive Settles (f : AggregateFunction) (e : EngineError) (values : List Value) (within : Prop) :
    Except EngineError PartialState → Prop
  | ok {s : PartialState} : within → f.Represents values s → Settles f e values within (.ok s)
  | error : ¬ within → Settles f e values within (.error e)

/-- Every step that takes in such a value knows all values so far, as long as these are within
bounds, and ends with the error where they are not. -/
structure Bounded (f : AggregateFunction) (takes : Value → Prop) (within : List Value → Prop)
    (e : EngineError) : Prop where
  initial : f.Settles e [] (within []) (.ok f.initial)
  iterate {xs s arguments} : f.Represents xs s → takes (arguments.headD .null) →
    f.Settles e (xs ++ [arguments.headD .null]) (within (xs ++ [arguments.headD .null]))
      (Halt.reported (f.iterate s arguments))
  merge {xs ys s t} : f.Represents xs s → f.Represents ys t →
    f.Settles e (xs ++ ys) (within (xs ++ ys)) (Halt.reported (f.merge s t))

variable {f : AggregateFunction} {e : EngineError} {xs ys : List Value} {p q : Prop}
  {x : Except EngineError PartialState}

namespace Settles

theorem congr (h : f.Settles e xs p x) (hpq : p ↔ q) : f.Settles e xs q x := by
  cases h with
  | ok hp hs => exact .ok (hpq.mp hp) hs
  | error hp => exact .error (mt hpq.mpr hp)

theorem perm (h : f.Settles e xs p x) (hperm : xs.Perm ys) : f.Settles e ys p x := by
  cases h with
  | ok hp hs => exact .ok hp (hs.perm hperm)
  | error hp => exact .error hp

theorem bind {next : PartialState → Except EngineError PartialState} (h : f.Settles e xs p x)
    (hnext : ∀ s, f.Represents xs s → f.Settles e ys q (next s)) :
    f.Settles e ys (p ∧ q) (x >>= next) := by
  cases h with
  | ok hp hs => exact (hnext _ hs).congr (and_iff_right hp).symm
  | error hp => exact .error fun h => hp h.1

theorem exists_ok (h : f.Settles e xs p x) (hp : p) : ∃ s, x = .ok s ∧ f.Represents xs s := by
  cases h with
  | ok _ hs => exact ⟨_, rfl, hs⟩
  | error hn => exact absurd hp hn

theorem eq_error (h : f.Settles e xs p x) (hp : ¬ p) : x = .error e := by
  cases h with
  | ok h _ => exact absurd h hp
  | error _ => rfl

theorem of_ok (hx : ∃ s, x = .ok s) (h : ∀ s, x = .ok s → f.Represents xs s) :
    f.Settles e xs True x := by
  obtain ⟨s, rfl⟩ := hx
  exact .ok trivial (h s rfl)

end Settles

/-- A tree ends with the error exactly if the values of one of its parts are beyond the bounds. -/
theorem Bounded.fold {takes : Value → Prop} {within : List Value → Prop}
    (h : f.Bounded takes within e) (arguments : α → List Value) {tree : MergeTree α}
    (htakes : ∀ x ∈ tree.items, takes ((arguments x).headD .null)) :
    f.Settles e (tree.items.map fun x => (arguments x).headD .null)
      (∀ part ∈ tree.parts, within (part.items.map fun x => (arguments x).headD .null))
      (f.fold arguments tree) := by
  induction tree with
  | leaf xs =>
    rw [MergeTree.forall_parts_leaf
      (p := fun xs => within (xs.map fun x => (arguments x).headD .null))]
    induction xs using List.reverseRecOn with
    | nil => exact h.initial.congr (by simp)
    | append_singleton xs x ih =>
      obtain ⟨hxs, hx⟩ := List.forall_mem_append.mp htakes
      have hstep := (ih hxs).bind fun s hs => h.iterate hs (hx x List.mem_cons_self)
      rw [← List.map_singleton (f := fun x => (arguments x).headD .null),
        ← List.map_append] at hstep
      simp only [AggregateFunction.fold, List.foldlM_append, List.foldlM_cons, List.foldlM_nil,
        bind_pure] at hstep ⊢
      refine hstep.congr ?_
      simp [MergeTree.items, List.prefix_concat_iff, or_imp, forall_and, and_comm]
  | node left right ihl ihr =>
    rw [MergeTree.forall_parts_node
      (p := fun xs => within (xs.map fun x => (arguments x).headD .null))]
    obtain ⟨hleft, hright⟩ := List.forall_mem_append.mp htakes
    have hnode := (ihl hleft).bind fun s hs => (ihr hright).bind fun t ht => h.merge hs ht
    rw [← List.map_append] at hnode
    exact hnode.congr (by tauto)

end AggregateFunction

end ShardQuery
