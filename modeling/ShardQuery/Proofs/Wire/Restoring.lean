import ShardQuery.Proofs.Wire.Readers
import ShardQuery.Proofs.Wire.Writing
/-!
# What is read of what was written

Not all that can be written can be read again. Here a reader is followed over the
bytes of one value: it gives the value back and stops behind the bytes if the value
is fine, and fails otherwise.
-/

namespace ShardQuery.Wire

variable {α β : Type}

structure Reader.Restores (reader : Reader α) (fine : Prop) (bytes : List UInt8) (a : α) :
    Prop where
  returns {c d} : fine → c.Passed bytes d → reader.within c = (.ok a, d)
  refuses {c d} : ¬ fine → c.Passed bytes d →
    ∃ e u, reader.within c = (.error e, u) ∧ IsSerialization e

namespace Reader.Restores

variable {reader : Reader α} {next : α → Reader β} {grammar : Grammar α} {p q : Prop}
  {bytes front back : List UInt8} {a : α} {b : β}

theorem of_reads (h : reader.Reads grammar) (hb : grammar bytes a) :
    reader.Restores True bytes a where
  returns _ hp := (h _).complete hb hp
  refuses h := absurd trivial h

theorem congr (h : reader.Restores p bytes a) (hpq : p ↔ q) : reader.Restores q bytes a where
  returns hq := h.returns (hpq.mpr hq)
  refuses hq := h.refuses (mt hpq.mp hq)

theorem pure (a : α) : Restores (Pure.pure a) True [] a := .of_reads (.pure a) ⟨rfl, rfl⟩

theorem bind (h : reader.Restores p front a) (h' : (next a).Restores q back b) :
    (reader >>= next).Restores (p ∧ q) (front ++ back) b where
  returns hpq hp := by
    obtain ⟨d, hp, hp'⟩ := Cursor.Passed.append_iff.mp hp
    exact Work.bind_within_ok.mpr ⟨a, d, h.returns hpq.1 hp, h'.returns hpq.2 hp'⟩
  refuses hpq hp := by
    obtain ⟨d, hp, hp'⟩ := Cursor.Passed.append_iff.mp hp
    by_cases hfine : p
    · obtain ⟨e, u, hr, he⟩ := h'.refuses (fun hq => hpq ⟨hfine, hq⟩) hp'
      exact ⟨e, u, Work.bind_within_error.mpr (.inr ⟨a, d, h.returns hfine hp, hr⟩), he⟩
    · obtain ⟨e, u, hr, he⟩ := h.refuses hfine hp
      exact ⟨e, u, Work.bind_within_error.mpr (.inl hr), he⟩

theorem map (h : reader.Restores p bytes a) (f : α → β) :
    (reader >>= fun a => Pure.pure (f a)).Restores p bytes (f a) := by
  have hf : (reader >>= fun a => Pure.pure (f a)).Restores (p ∧ True) (bytes ++ []) (f a) :=
    h.bind (.pure (f a))
  rw [List.append_nil] at hf
  exact hf.congr (iff_of_eq (and_true p))

theorem byte {next : UInt8 → Reader α} {b : UInt8} (h : next b = Pure.pure a) :
    (Reader.byte >>= next).Restores True [b] a := by
  have hb := (of_reads byte_reads rfl).bind (b := a) (h ▸ pure a)
  exact hb.congr (iff_of_eq (and_true True))

theorem never (h : ∀ {c d}, c.Passed bytes d →
    ∃ e u, reader.within c = (.error e, u) ∧ IsSerialization e) :
    reader.Restores False bytes a where
  returns := False.elim
  refuses _ := h

end Reader.Restores

-- ---------------------------------------------------------------------------
-- Lists
-- ---------------------------------------------------------------------------

namespace Reader

variable {item : Reader α} {fine : α → Prop} {items : List α} {front back : List UInt8}

theorem times_restores (h : Grammar.Items (fun bytes x => item.Restores (fine x) bytes x)
    back items) : (times item items.length).Restores (∀ x ∈ items, fine x) back items := by
  induction h with
  | nil => exact (Restores.pure []).congr (by simp)
  | @cons _ _ x xs hx _ ih =>
    exact (hx.bind (ih.map (x :: ·))).congr List.forall_mem_cons.symm

theorem length_within {n : Nat} {c d : Cursor} (hn : Varint front n) (hp : c.Passed front d)
    (hlen : n ≤ d.rest.length) : length.within c = (.ok n, d) := by
  have he : (UInt64.ofNat n).toNat = n := UInt64.toNat_ofNat_of_lt' hn.lt
  have hread := (vlong_reads c).complete (a := UInt64.ofNat n) (by rwa [he]) hp
  refine Work.bind_within_ok.mpr ⟨_, d, hread, Work.bind_within_ok.mpr ⟨_, d, rfl, ?_⟩⟩
  rw [if_neg (by omega), he]
  rfl

theorem list_restores (hn : Varint front items.length) (hlen : items.length ≤ back.length)
    (h : Grammar.Items (fun bytes x => item.Restores (fine x) bytes x) back items) :
    (list item).Restores (∀ x ∈ items, fine x) (front ++ back) items := by
  have hwithin {c d : Cursor} (hp : c.Passed (front ++ back) d) :
      ∃ u, u.Passed back d ∧ (list item).within c = (times item items.length).within u := by
    obtain ⟨u, hp, hp'⟩ := Cursor.Passed.append_iff.mp hp
    have hrest := hp'.length_rest
    refine ⟨u, hp', ?_⟩
    rw [list, Work.within_bind, length_within hn hp (by omega)]
  constructor
  · intro c d hfine hp
    obtain ⟨u, hp', he⟩ := hwithin hp
    rw [he]
    exact (times_restores h).returns hfine hp'
  · intro c d hfine hp
    obtain ⟨u, hp', he⟩ := hwithin hp
    rw [he]
    exact (times_restores h).refuses hfine hp'

end Reader

-- ---------------------------------------------------------------------------
-- Outputs
-- ---------------------------------------------------------------------------

namespace Output.Spells

variable {first second output : Output} {bytes : List UInt8} {reader : Reader α}
  {next : α → Reader β} {p q : Prop} {a : α} {b : β}

theorem congr (h : output.Spells (reader.Restores p) a) (hpq : p ↔ q) :
    output.Spells (reader.Restores q) a := h.mono fun _ h => h.congr hpq

theorem bind (h : first.Spells (reader.Restores p) a)
    (h' : second.Spells ((next a).Restores q) b) :
    (first ++ second).Spells ((reader >>= next).Restores (p ∧ q)) b :=
  h.append h' fun _ _ => .bind

theorem map (h : output.Spells (reader.Restores p) a) (f : α → β) :
    output.Spells ((reader >>= fun a => pure (f a)).Restores p) (f a) :=
  h.mono fun _ h => h.map f

theorem of_reads {grammar : Grammar α} (hr : reader.Reads grammar)
    (hb : bytes.length < 2 ^ 64 → grammar bytes a) :
    (Output.of bytes).Spells (reader.Restores True) a := of fun hlen => .of_reads hr (hb hlen)

theorem always (h : first.Spells (reader.Restores True) a)
    (h' : second.Spells ((next a).Restores p) b) :
    (first ++ second).Spells ((reader >>= next).Restores p) b :=
  (h.bind h').congr (iff_of_eq (true_and p))

theorem bind_always (h : first.Spells (reader.Restores p) a)
    (h' : second.Spells ((next a).Restores True) b) :
    (first ++ second).Spells ((reader >>= next).Restores p) b :=
  (h.bind h').congr (iff_of_eq (and_true p))

theorem byte {tag : UInt8} {next : UInt8 → Reader β}
    (h : output.Spells ((next tag).Restores p) b) :
    (Output.of [tag] ++ output).Spells ((Reader.byte >>= next).Restores p) b :=
  .always (.of_reads Reader.byte_reads fun _ => rfl) h

theorem list {item : Reader α} {fine : α → Prop} {write : α → Output} {items : List α}
    (h : ∀ x ∈ items, (write x).Spells (item.Restores (fine x)) x)
    (hne : ∀ x, (write x).bytes ≠ []) :
    (Output.list write items).Spells
      ((Reader.list item).Restores (∀ x ∈ items, fine x)) items := by
  have heach : (Output.each write items).Spells (Grammar.Items fun bytes x =>
      bytes ≠ [] ∧ item.Restores (fine x) bytes x) items := by
    refine .each fun x hx => ?_
    obtain ⟨bytes, he, hb⟩ := h x hx
    have hbytes := hne x
    rw [he] at hbytes ⊢
    exact of fun hlen => ⟨hbytes, hb hlen⟩
  refine heach.of_append fun back hlen hitems => ?_
  have hle := hitems.length_le fun _ _ => And.left
  rw [List.length_append] at hlen
  exact Reader.list_restores (.varint (by omega)) hle (hitems.mono fun _ _ => And.right)

end Output.Spells

end ShardQuery.Wire

namespace ShardQuery

/-- The output is complete, and from its bytes the reader makes an equal value and stands behind
them, whatever comes there. Bytes that fit into memory are fewer than words can count. -/
def RoundTrips {α : Type} (output : Wire.Output) (reader : Wire.Reader α) (a : α) : Prop :=
  ∃ bytes, output.toExcept = .ok bytes ∧ (bytes.length < 2 ^ 64 →
    ∀ rest, reader.start (bytes ++ rest) = (.ok a, ⟨bytes.length, rest⟩))

theorem RoundTrips.of_spells {α : Type} {output : Wire.Output} {reader : Wire.Reader α} {a : α}
    (h : output.Spells (reader.Restores True) a) : RoundTrips output reader a := by
  obtain ⟨bytes, rfl, hb⟩ := h
  exact ⟨bytes, rfl, fun hlen rest => (hb hlen).returns trivial (.start bytes rest)⟩

end ShardQuery
