import ShardQuery.Wire.Input
import ShardQuery.Proofs.Work
/-!
# What a reader takes

A reader reads a grammar if it takes from the bytes in front of it what the grammar
spells, and nothing else, and fails with a serialization error where nothing is
spelled. Readers are put together from smaller ones, and so are their grammars.
-/

namespace ShardQuery.Wire

-- ---------------------------------------------------------------------------
-- Cursors
-- ---------------------------------------------------------------------------

/-- The second cursor stands behind these bytes of the first one. -/
structure Cursor.Passed (c : Cursor) (bytes : List UInt8) (d : Cursor) : Prop where
  rest : c.rest = bytes ++ d.rest
  position : d.position = c.position + bytes.length

namespace Cursor.Passed

variable {c d e : Cursor} {a b bytes : List UInt8}

theorem ext {c d : Cursor} (hp : c.position = d.position) (hr : c.rest = d.rest) : c = d := by
  cases c
  cases d
  cases hp
  cases hr
  rfl

theorem iff_eq : c.Passed bytes d ↔ ∃ position rest,
    c = ⟨position, bytes ++ rest⟩ ∧ d = ⟨position + bytes.length, rest⟩ := by
  constructor
  · rintro ⟨hr, hp⟩
    exact ⟨c.position, d.rest, ext rfl hr, ext hp rfl⟩
  · rintro ⟨position, rest, rfl, rfl⟩
    exact ⟨rfl, rfl⟩

theorem refl (c : Cursor) : c.Passed [] c := ⟨rfl, rfl⟩

theorem nil_iff : c.Passed [] d ↔ d = c := by
  constructor
  · rintro ⟨hr, hp⟩
    exact ext hp hr.symm
  · rintro rfl
    exact refl d

theorem start (bytes rest : List UInt8) :
    (Cursor.start (bytes ++ rest)).Passed bytes ⟨bytes.length, rest⟩ :=
  ⟨rfl, (Nat.zero_add _).symm⟩

theorem trans (h : c.Passed a d) (h' : d.Passed b e) : c.Passed (a ++ b) e where
  rest := by rw [h.rest, h'.rest, List.append_assoc]
  position := by rw [h'.position, h.position, List.length_append, Nat.add_assoc]

theorem append_iff : c.Passed (a ++ b) e ↔ ∃ d, c.Passed a d ∧ d.Passed b e := by
  constructor
  · rintro ⟨hr, hp⟩
    refine ⟨⟨c.position + a.length, b ++ e.rest⟩, ⟨?_, rfl⟩, rfl, ?_⟩
    · rw [hr, List.append_assoc]
    · rw [hp, List.length_append, Nat.add_assoc]
  · rintro ⟨d, h, h'⟩
    exact h.trans h'

theorem length_rest (h : c.Passed bytes d) : c.rest.length = bytes.length + d.rest.length := by
  rw [h.rest, List.length_append]

end Cursor.Passed

-- ---------------------------------------------------------------------------
-- Grammars
-- ---------------------------------------------------------------------------

abbrev Grammar (α : Type) := List UInt8 → α → Prop

namespace Grammar

variable {α β : Type}

def empty (a : α) : Grammar α := fun bytes b => bytes = [] ∧ b = a

/-- What `first` spells, and behind it what `next` spells given the first value. -/
def andThen (first : Grammar α) (next : α → Grammar β) : Grammar β :=
  fun bytes b => ∃ front a back, bytes = front ++ back ∧ first front a ∧ next a back b

inductive Items (item : Grammar α) : Grammar (List α)
  | nil : Items item [] []
  | cons {front back x xs} : item front x → Items item back xs →
      Items item (front ++ back) (x :: xs)

theorem Items.mono {item other : Grammar α} {bytes : List UInt8} {items : List α}
    (h : Items item bytes items) (hi : ∀ bytes x, item bytes x → other bytes x) :
    Items other bytes items := by
  induction h with
  | nil => exact .nil
  | cons hx _ ih => exact .cons (hi _ _ hx) ih

theorem Items.length_le {item : Grammar α} {bytes : List UInt8} {items : List α}
    (h : Items item bytes items) (hi : ∀ bytes x, item bytes x → bytes ≠ []) :
    items.length ≤ bytes.length := by
  induction h with
  | nil => exact Nat.le_refl 0
  | cons hx _ ih =>
    have := List.length_pos_iff.mpr (hi _ _ hx)
    rw [List.length_cons, List.length_append]
    omega

end Grammar

-- ---------------------------------------------------------------------------
-- Readers of grammars
-- ---------------------------------------------------------------------------

def IsSerialization (e : EngineError) : Prop := ∃ reason, e = .serialization reason

/-- From this cursor on the reader takes exactly what the grammar spells. Where it fails it has
taken no more than there is, and the error is one of serialization. -/
structure Reader.ReadsAt {α : Type} (reader : Reader α) (grammar : Grammar α) (c : Cursor) :
    Prop where
  complete {bytes a d} : grammar bytes a → c.Passed bytes d → reader.within c = (.ok a, d)
  sound {a d} : reader.within c = (.ok a, d) → ∃ bytes, c.Passed bytes d ∧ grammar bytes a
  fault {e d} : reader.within c = (.error e, d) → (∃ bytes, c.Passed bytes d) ∧ IsSerialization e

def Reader.Reads {α : Type} (reader : Reader α) (grammar : Grammar α) : Prop :=
  ∀ c, reader.ReadsAt grammar c

namespace Reader

variable {α β : Type} {reader : Reader α} {grammar : Grammar α} {next : α → Reader β}
  {G : α → Grammar β} {c : Cursor}

namespace ReadsAt

theorem congr {other : Grammar α} (h : reader.ReadsAt grammar c)
    (hg : ∀ bytes a, grammar bytes a ↔ other bytes a) : reader.ReadsAt other c where
  complete hb := h.complete ((hg _ _).mpr hb)
  sound hr := by
    obtain ⟨bytes, hp, hb⟩ := h.sound hr
    exact ⟨bytes, hp, (hg _ _).mp hb⟩
  fault := h.fault

theorem bind (h : reader.ReadsAt grammar c)
    (hn : ∀ {front a d}, grammar front a → c.Passed front d → (next a).ReadsAt (G a) d) :
    (reader >>= next).ReadsAt (grammar.andThen G) c where
  complete := by
    rintro _ b e ⟨front, a, back, rfl, hf, hb⟩ hp
    obtain ⟨d, hp, hp'⟩ := Cursor.Passed.append_iff.mp hp
    exact Work.bind_within_ok.mpr ⟨a, d, h.complete hf hp, (hn hf hp).complete hb hp'⟩
  sound hr := by
    obtain ⟨a, d, hr, hr'⟩ := Work.bind_within_ok.mp hr
    obtain ⟨front, hp, hf⟩ := h.sound hr
    obtain ⟨back, hp', hb⟩ := (hn hf hp).sound hr'
    exact ⟨front ++ back, hp.trans hp', front, a, back, rfl, hf, hb⟩
  fault hr := by
    rcases Work.bind_within_error.mp hr with hr | ⟨a, d, hr, hr'⟩
    · exact h.fault hr
    · obtain ⟨front, hp, hf⟩ := h.sound hr
      obtain ⟨⟨back, hp'⟩, he⟩ := (hn hf hp).fault hr'
      exact ⟨⟨front ++ back, hp.trans hp'⟩, he⟩

theorem of_within {other : Reader α} (h : other.ReadsAt grammar c)
    (he : reader.within c = other.within c) : reader.ReadsAt grammar c := by
  constructor
  · rw [he]
    exact h.complete
  · rw [he]
    exact h.sound
  · rw [he]
    exact h.fault

/-- How many bytes are left is the only thing that a reader knows of those that it does not take. -/
theorem remaining_bind {next : Nat → Reader α} (h : (next c.rest.length).ReadsAt grammar c) :
    (remaining >>= next).ReadsAt grammar c := h.of_within rfl

theorem pure (a : α) : ReadsAt (Pure.pure a) (.empty a) c where
  complete := by
    rintro _ _ d ⟨rfl, rfl⟩ hp
    rw [Work.within_pure, Cursor.Passed.nil_iff.mp hp]
  sound hr := by
    cases hr
    exact ⟨[], .refl _, rfl, rfl⟩
  fault hr := nomatch hr

theorem fail (reason : String) : ReadsAt (Reader.fail reason : Reader α) (fun _ _ => False) c where
  complete h := h.elim
  sound hr := nomatch hr
  fault hr := by
    cases hr
    exact ⟨⟨[], .refl _⟩, reason, rfl⟩

/-- What is read is looked at, and nothing more is taken. -/
theorem settle {p : α → β → Prop} {next : α → Reader β} (h : reader.ReadsAt grammar c)
    (hn : ∀ a d, (next a).ReadsAt (fun bytes b => bytes = [] ∧ p a b) d) :
    (reader >>= next).ReadsAt (fun bytes b => ∃ a, grammar bytes a ∧ p a b) c := by
  refine (h.bind fun {_ a d} _ _ => hn a d).congr fun bytes b => ?_
  constructor
  · rintro ⟨front, a, _, rfl, hf, rfl, hp⟩
    exact ⟨a, by rwa [List.append_nil], hp⟩
  · rintro ⟨a, hf, hp⟩
    exact ⟨bytes, a, [], (List.append_nil bytes).symm, hf, rfl, hp⟩

theorem map (h : reader.ReadsAt grammar c) (f : α → β) :
    (reader >>= fun a => Pure.pure (f a)).ReadsAt
      (fun bytes b => ∃ a, grammar bytes a ∧ b = f a) c :=
  h.settle fun a _ => pure (f a)

theorem plausible_or {p : Prop} [Decidable p] {refusal : Reader α}
    (hr : refusal.ReadsAt (fun _ _ => False) c)
    (hp : p → ∀ {bytes a d}, grammar bytes a → ¬ c.Passed bytes d)
    (h : ¬ p → reader.ReadsAt grammar c) :
    (if p then refusal else reader).ReadsAt grammar c := by
  split
  · rename_i hpos
    refine ⟨fun hg hpass => absurd hpass (hp hpos hg), fun hread => ?_, hr.fault⟩
    obtain ⟨_, -, hnone⟩ := hr.sound hread
    exact hnone.elim
  · rename_i hneg
    exact h hneg

theorem check {p : Prop} [Decidable p] {reason : String} {next : PUnit → Reader α}
    (h : ¬ p → (next ⟨⟩).ReadsAt grammar c) :
    (if p then Reader.fail reason >>= next else next ⟨⟩).ReadsAt
      (fun bytes a => ¬ p ∧ grammar bytes a) c := by
  split
  · rename_i hp
    exact (fail (α := α) reason).congr fun bytes a => by simp [hp]
  · rename_i hp
    exact (h hp).congr fun bytes a => by simp [hp]

end ReadsAt

namespace Reads

theorem congr {other : Grammar α} (h : reader.Reads grammar)
    (hg : ∀ bytes a, grammar bytes a ↔ other bytes a) : reader.Reads other :=
  fun c => (h c).congr hg

theorem bind (h : reader.Reads grammar) (hn : ∀ a, (next a).Reads (G a)) :
    (reader >>= next).Reads (grammar.andThen G) :=
  fun c => (h c).bind fun _ _ => hn _ _

theorem pure (a : α) : Reads (Pure.pure a) (.empty a) := fun _ => .pure a

theorem fail (reason : String) : Reads (Reader.fail reason : Reader α) fun _ _ => False :=
  fun _ => .fail reason

theorem check {p : Prop} [Decidable p] {reason : String} {next : PUnit → Reader α}
    (h : ¬ p → (next ⟨⟩).Reads grammar) :
    (if p then Reader.fail reason >>= next else next ⟨⟩).Reads
      fun bytes a => ¬ p ∧ grammar bytes a :=
  fun c => .check fun hp => h hp c

theorem settle {p : α → β → Prop} {next : α → Reader β} (h : reader.Reads grammar)
    (hn : ∀ a, (next a).Reads fun bytes b => bytes = [] ∧ p a b) :
    (reader >>= next).Reads fun bytes b => ∃ a, grammar bytes a ∧ p a b :=
  fun c => (h c).settle hn

theorem map (h : reader.Reads grammar) (f : α → β) :
    (reader >>= fun a => Pure.pure (f a)).Reads fun bytes b => ∃ a, grammar bytes a ∧ b = f a :=
  fun c => (h c).map f

theorem filter (h : reader.Reads grammar) (p : α → Prop) [DecidablePred p] (f : α → β)
    (reason : α → String) :
    (reader >>= fun a => if p a then Pure.pure (f a) else Reader.fail (reason a)).Reads
      fun bytes b => ∃ a, grammar bytes a ∧ p a ∧ b = f a := by
  refine h.settle fun a => ?_
  split
  · rename_i hp
    exact (pure (f a)).congr fun bytes b => by simp [Grammar.empty, hp]
  · rename_i hp
    exact (fail (reason a)).congr fun bytes b => by simp [hp]

end Reads

end Reader

end ShardQuery.Wire
