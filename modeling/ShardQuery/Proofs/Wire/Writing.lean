import Mathlib.Algebra.Group.Nat.Defs
import ShardQuery.Proofs.Wire.Reading
/-!
# What a writer writes

An output that nothing ended early is just its bytes. The grammar of a reader spells
them as the written value if they fit into memory: only then does every length in
them fit the word that it is read into.
-/

namespace ShardQuery.Wire.Output

variable {α β : Type}

@[simp] theorem of_append (front : List UInt8) (output : Output) :
    of front ++ output = ⟨front ++ output.bytes, output.error⟩ := rfl

theorem of_append_of (front back : List UInt8) : of front ++ of back = of (front ++ back) := rfl

/-- The output is complete, and short enough bytes are a spelling of the value. -/
def Spells (output : Output) (grammar : Grammar α) (a : α) : Prop :=
  ∃ bytes, output = of bytes ∧ (bytes.length < 2 ^ 64 → grammar bytes a)

variable {γ : Type} {first second output : Output} {grammar : Grammar α} {a : α}
  {next : Grammar β} {b : β} {other : Grammar γ} {c : γ}

namespace Spells

theorem of {bytes : List UInt8} (h : bytes.length < 2 ^ 64 → grammar bytes a) :
    (Output.of bytes).Spells grammar a := ⟨bytes, rfl, h⟩

theorem mono (h : output.Spells grammar a) (hg : ∀ bytes, grammar bytes a → next bytes b) :
    output.Spells next b := by
  obtain ⟨bytes, rfl, hb⟩ := h
  exact of fun hlen => hg bytes (hb hlen)

theorem append (h : first.Spells grammar a) (h' : second.Spells next b)
    (hg : ∀ front back, grammar front a → next back b → other (front ++ back) c) :
    (first ++ second).Spells other c := by
  obtain ⟨front, rfl, hf⟩ := h
  obtain ⟨back, rfl, hb⟩ := h'
  refine ⟨front ++ back, rfl, fun hlen => hg front back (hf ?_) (hb ?_)⟩
  · rw [List.length_append] at hlen
    omega
  · rw [List.length_append] at hlen
    omega

theorem of_append {front : List UInt8} (h : output.Spells grammar a)
    (hg : ∀ back, (front ++ back).length < 2 ^ 64 → grammar back a → next (front ++ back) b) :
    (Output.of front ++ output).Spells next b := by
  obtain ⟨back, rfl, hb⟩ := h
  refine ⟨front ++ back, rfl, fun hlen => hg back hlen (hb ?_)⟩
  rw [List.length_append] at hlen
  omega

theorem each {write : α → Output} {items : List α}
    (h : ∀ x ∈ items, (write x).Spells grammar x) :
    (Output.each write items).Spells (Grammar.Items grammar) items := by
  induction items with
  | nil => exact of fun _ => .nil
  | cons x items ih =>
    obtain ⟨hx, hitems⟩ := List.forall_mem_cons.mp h
    exact hx.append (ih hitems) fun front back => .cons

end Spells

-- ---------------------------------------------------------------------------
-- Outputs
-- ---------------------------------------------------------------------------

theorem append_assoc (first second third : Output) :
    first ++ second ++ third = first ++ (second ++ third) := by
  rcases first with ⟨a, _ | e⟩
  · rcases second with ⟨b, _ | e⟩
    · exact congrArg (Output.mk · third.error) (List.append_assoc ..)
    · rfl
  · rfl

theorem append_bytes_ne_nil (h : first.bytes ≠ []) : (first ++ second).bytes ≠ [] := by
  rcases first with ⟨bytes, _ | e⟩
  · exact List.append_ne_nil_of_left_ne_nil h _
  · exact h

theorem append_error_eq_none :
    (first ++ second).error = none ↔ first.error = none ∧ second.error = none := by
  rcases first with ⟨a, _ | e⟩
  · exact (and_iff_right rfl).symm
  · exact iff_of_false nofun fun h => nomatch h.1

theorem list_error_eq_none {item : α → Output} {items : List α} :
    (list item items).error = none ↔ ∀ x ∈ items, (item x).error = none := by
  rw [list, of_append]
  induction items with
  | nil => exact iff_of_true rfl (List.forall_mem_nil _)
  | cons x items ih => rw [each, append_error_eq_none, ih, List.forall_mem_cons]

theorem each_of (item : α → List UInt8) (items : List α) :
    each (fun x => of (item x)) items = of (items.flatMap item) := by
  induction items with
  | nil => rfl
  | cons x items ih => rw [each, ih, of_append_of, List.flatMap_cons]

theorem of_list (item : α → List UInt8) (items : List α) :
    of (Wire.list item items) = list (fun x => of (item x)) items := by
  rw [Wire.list, list, each_of, of_append_of]

end ShardQuery.Wire.Output
