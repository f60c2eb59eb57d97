import ShardQuery.Value.Basic
import ShardQuery.Error
/-!
# Buckets

Rows that are handed from one place to another, either all at hand or still in a
source that can fail.
-/

namespace ShardQuery

/-- What a source has in the place of a row: the row, or the error of reading it. -/
abbrev Item := Except EngineError Row

inductive Bucket where
  | materialized (rows : List Row)
  | streamed (items : List Item)
deriving Inhabited

namespace Bucket

/-- The number of rows, if they are at hand. -/
def size? : Bucket → Option Nat
  | materialized rows => some rows.length
  | streamed _ => none

def isStreamed : Bucket → Bool
  | materialized _ => false
  | streamed _ => true

def items : Bucket → List Item
  | materialized rows => rows.map .ok
  | streamed items => items

/-- All rows, or the first error. -/
def rows : Bucket → Except EngineError (List Row)
  | materialized rows => .ok rows
  | streamed items => items.mapM id

def materializedRows? : List Bucket → Option (List Row)
  | [] => some []
  | materialized rows :: rest => (materializedRows? rest).map (rows ++ ·)
  | streamed _ :: _ => none

/-- One bucket after the other; a single streamed one makes the whole streamed. -/
def concat (buckets : List Bucket) : Bucket :=
  match materializedRows? buckets with
  | some rows => materialized rows
  | none => streamed (buckets.flatMap items)

theorem items_concat (buckets : List Bucket) :
    (concat buckets).items = buckets.flatMap items := by
  unfold concat
  split
  · rename_i rows h
    induction buckets generalizing rows with
    | nil =>
      cases h
      rfl
    | cons bucket rest ih =>
      cases bucket with
      | streamed => cases h
      | materialized first =>
        obtain ⟨others, hothers, rfl⟩ := Option.map_eq_some_iff.mp h
        rw [List.flatMap_cons, ← ih others hothers]
        simp [items]
  · rfl

end Bucket

end ShardQuery
