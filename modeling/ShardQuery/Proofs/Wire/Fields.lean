import ShardQuery.Proofs.Wire.Restoring
/-!
# Fields behind each other

Everything that is sent is a sequence of fields without separators: who knows their
kinds finds where each of them ends.

`fields_restored`: whatever fields are written and whatever comes behind them, reading
their kinds gives them back and stops at their end. Numbers of variable length take as
few bytes as a reader of their kind accepts for them.
-/

namespace ShardQuery.Wire

inductive Field where
  | byte (b : UInt8)
  | bool (b : Bool)
  | raw (bytes : List UInt8)
  | uint32 (n : UInt32)
  | vint (n : UInt32)
  | vlong (n : UInt64)
  | zint (n : Int32)
  | zlong (n : Int64)
  | single (x : Single)
  | double (x : Double)
  | text (s : String)
  | job (id : JobId)
  | zlongs (ns : List Int64)

namespace Field

/-- What a reader has to know of a field. Raw bytes do not say how many they are. -/
inductive Kind where
  | byte
  | bool
  | raw (count : Nat)
  | uint32
  | vint
  | vlong
  | zint
  | zlong
  | single
  | double
  | text
  | job
  | zlongs

def kind : Field → Kind
  | byte _ => .byte
  | bool _ => .bool
  | raw bytes => .raw bytes.length
  | uint32 _ => .uint32
  | vint _ => .vint
  | vlong _ => .vlong
  | zint _ => .zint
  | zlong _ => .zlong
  | single _ => .single
  | double _ => .double
  | text _ => .text
  | job _ => .job
  | zlongs _ => .zlongs

def write : Field → List UInt8
  | byte b => [b]
  | bool b => Wire.bool b
  | raw bytes => bytes
  | uint32 n => Wire.uint32 n
  | vint n => Wire.vint n
  | vlong n => Wire.vlong n
  | zint n => Wire.zint n
  | zlong n => Wire.zlong n
  | single x => Wire.single x
  | double x => Wire.double x
  | text s => Wire.text s
  | job id => Wire.job id
  | zlongs ns => Wire.list Wire.zlong ns

def Kind.read : Kind → Reader Field
  | byte => return .byte (← Reader.byte)
  | bool => return .bool (← Reader.bool)
  | raw count => return .raw (← Reader.exact count)
  | uint32 => return .uint32 (← Reader.uint32)
  | vint => return .vint (← Reader.vint)
  | vlong => return .vlong (← Reader.vlong)
  | zint => return .zint (← Reader.zint)
  | zlong => return .zlong (← Reader.zlong)
  | single => return .single (← Reader.single)
  | double => return .double (← Reader.double)
  | text => return .text (← Reader.text)
  | job => return .job (← Reader.job)
  | zlongs => return .zlongs (← Reader.list Reader.zlong)

def writeAll (fields : List Field) : List UInt8 := fields.flatMap write

def readAll : List Kind → Reader (List Field)
  | [] => return []
  | kind :: rest => do
    let field ← kind.read
    return field :: (← readAll rest)

def limit? : Field → Option Nat
  | vint _ | zint _ => some 5
  | vlong _ | zlong _ => some 10
  | _ => none

end Field

-- ---------------------------------------------------------------------------
-- Numbers of variable length
-- ---------------------------------------------------------------------------

theorem toNat_zigzag_toInt64_lt (n : Int32) : (zigzag n.toInt64).toNat < 2 ^ 32 := by
  have hlow := n.le_toInt
  have hhigh := n.toInt_lt
  rw [toNat_zigzag, Int32.toInt_toInt64]
  split <;> omega

theorem Digits.length_varint_le {bytes : List UInt8} {n : Nat} (h : Digits bytes n) :
    (Wire.varint n).length ≤ bytes.length := by
  induction h with
  | @last b hb => rw [Wire.varint, if_pos hb]; simp
  | @more b rest n hb hrest ih =>
    rw [Wire.varint]
    split
    · simp
    · have hn : (b.toNat % 128 + 128 * n) / 128 = n := by omega
      rw [hn, List.length_cons, List.length_cons]
      exact Nat.succ_le_succ ih

theorem length_varint_pos (n : Nat) : 1 ≤ (varint n).length := (Digits.varint n).length_pos

def Reader.Passes {α : Type} (reader : Reader α) (count : Nat) (a : α) : Prop :=
  ∀ ⦃c d⦄, reader.within c = (.ok a, d) → c.position + count ≤ d.position

theorem Reader.Reads.passes {α : Type} {reader : Reader α} {code : α → Nat}
    (h : reader.Reads fun bytes a => Varint bytes (code a)) {f : α → Field}
    (hf : Function.Injective f) (a : α) :
    (reader >>= fun a => Pure.pure (f a)).Passes (varint (code a)).length (f a) := by
  intro c d hread
  obtain ⟨bytes, hpassed, b, hb, he⟩ := (h.map f c).sound hread
  cases hf he
  have hshort := hb.digits.length_varint_le
  have hposition := hpassed.position
  omega

namespace Field

/-- A number of variable length takes at least one byte, at most those that words of its size may
take, and no more than a reader of its kind can find it in. -/
theorem length_write_varint {field : Field} {limit : Nat} (h : limit ∈ field.limit?) :
    1 ≤ field.write.length ∧ field.write.length ≤ limit ∧
      field.kind.read.Passes field.write.length field := by
  cases field with
  | vint n =>
    cases h
    have hlt : n.toNat < 128 ^ (4 + 1) := Nat.lt_trans n.toNat_lt (by decide)
    exact ⟨length_varint_pos _, length_varint_le hlt,
      Reader.vint_reads.passes (fun _ _ => vint.inj) n⟩
  | vlong n =>
    cases h
    have hlt : n.toNat < 128 ^ (9 + 1) := Nat.lt_trans n.toNat_lt (by decide)
    exact ⟨length_varint_pos _, length_varint_le hlt,
      Reader.vlong_reads.passes (fun _ _ => vlong.inj) n⟩
  | zint n =>
    cases h
    have hlt : (zigzag n.toInt64).toNat < 128 ^ (4 + 1) :=
      Nat.lt_trans (toNat_zigzag_toInt64_lt n) (by decide)
    exact ⟨length_varint_pos _, length_varint_le hlt,
      Reader.zint_reads.passes (fun _ _ => zint.inj) n⟩
  | zlong n =>
    cases h
    have hlt : (zigzag n).toNat < 128 ^ (9 + 1) := Nat.lt_trans (zigzag n).toNat_lt (by decide)
    exact ⟨length_varint_pos _, length_varint_le hlt,
      Reader.zlong_reads.passes (fun _ _ => zlong.inj) n⟩
  | byte | bool | raw | uint32 | single | double | text | job | zlongs => cases h

-- ---------------------------------------------------------------------------
-- One field
-- ---------------------------------------------------------------------------

theorem zlongs_restores {ns : List Int64} (h : (zlongs ns).write.length < 2 ^ 64) :
    (Reader.list Reader.zlong).Restores True (zlongs ns).write ns := by
  have hitems : Grammar.Items (fun bytes n => bytes ≠ [] ∧
      Reader.zlong.Restores True bytes n) (ns.flatMap Wire.zlong) ns := by
    clear h
    induction ns with
    | nil => exact .nil
    | cons n ns ih =>
      have hpos := length_varint_pos (zigzag n).toNat
      exact .cons ⟨List.ne_nil_of_length_pos hpos,
        .of_reads Reader.zlong_reads (.varint (zigzag n).toNat_lt)⟩ ih
  have hcount := hitems.length_le fun _ _ => And.left
  simp only [write, Wire.list, List.length_append] at h
  exact (Reader.list_restores (.varint (by omega)) hcount
    (hitems.mono fun _ _ => And.right)).congr (by simp)

theorem restores (field : Field) (h : field.write.length < 2 ^ 64) :
    field.kind.read.Restores True field.write field := by
  cases field with
  | byte b => exact (Reader.Restores.of_reads Reader.byte_reads rfl).map byte
  | bool b => exact (Reader.Restores.of_reads Reader.bool_reads rfl).map bool
  | raw bytes =>
    exact (Reader.Restores.of_reads (Reader.exact_reads bytes.length) ⟨rfl, rfl⟩).map raw
  | uint32 n => exact (Reader.Restores.of_reads Reader.uint32_reads rfl).map uint32
  | vint n =>
    have hn : Varint (Wire.vint n) n.toNat := .varint (Nat.lt_trans n.toNat_lt (by decide))
    exact (Reader.Restores.of_reads Reader.vint_reads hn).map vint
  | vlong n =>
    exact (Reader.Restores.of_reads Reader.vlong_reads (.varint n.toNat_lt)).map vlong
  | zint n =>
    exact (Reader.Restores.of_reads Reader.zint_reads (.varint (zigzag _).toNat_lt)).map zint
  | zlong n =>
    exact (Reader.Restores.of_reads Reader.zlong_reads (.varint (zigzag n).toNat_lt)).map zlong
  | single x => exact (Reader.Restores.of_reads Reader.single_reads rfl).map single
  | double x => exact (Reader.Restores.of_reads Reader.double_reads rfl).map double
  | text s => exact (Reader.Restores.of_reads Reader.text_reads (.text h)).map text
  | job id => exact (Reader.Restores.of_reads Reader.job_reads rfl).map job
  | zlongs ns => exact (zlongs_restores h).map zlongs

-- ---------------------------------------------------------------------------
-- All fields
-- ---------------------------------------------------------------------------

theorem writeAll_cons (field : Field) (rest : List Field) :
    writeAll (field :: rest) = field.write ++ writeAll rest := List.flatMap_cons

theorem readAll_restores (fields : List Field) (h : (writeAll fields).length < 2 ^ 64) :
    (readAll (fields.map kind)).Restores True (writeAll fields) fields := by
  induction fields with
  | nil => exact .pure []
  | cons field rest ih =>
    rw [writeAll_cons, List.length_append] at h
    have hfirst := field.restores (by omega)
    have hrest := (ih (by omega)).map (field :: ·)
    exact (hfirst.bind hrest).congr (and_self_iff)

/-- Fields that are written one behind the other and fit into memory are read again bit for bit,
whatever stands behind them, and the cursor comes to stand at their end. A number of variable length
takes one byte or more, up to five for words of thirty-two bits and up to ten for those of
sixty-four, and there are no fewer bytes in which a reader would find it. -/
theorem fields_restored (fields : List Field) (h : (writeAll fields).length < 2 ^ 64) :
    (∀ rest, (readAll (fields.map kind)).start (writeAll fields ++ rest) =
      (.ok fields, ⟨(writeAll fields).length, rest⟩)) ∧
    ∀ field : Field, ∀ limit ∈ field.limit?, 1 ≤ field.write.length ∧
      field.write.length ≤ limit ∧ field.kind.read.Passes field.write.length field := by
  refine ⟨fun rest => ?_, fun field limit hlimit => length_write_varint hlimit⟩
  exact (readAll_restores fields h).returns trivial (.start (writeAll fields) rest)

theorem fields_restored_kinds :
    let fields : List Field := [.byte 255, .bool true, .raw [128, 0], .uint32 0xffffffff,
      .vint 0xffffffff, .vlong 0xffffffffffffffff, .zint (-0x80000000),
      .zlong (-0x8000000000000000), .single ⟨0x7fa00001⟩, .double ⟨0xfff0000000000001⟩,
      .text "hé", .job .nil, .zlongs [-1, 0x7fffffffffffffff], .zlongs [], .vlong 0]
    (writeAll fields).length < 2 ^ 64 ∧
    (∀ rest, (readAll (fields.map kind)).start (writeAll fields ++ rest) =
      (.ok fields, ⟨(writeAll fields).length, rest⟩)) ∧
    ∀ field : Field, ∀ limit ∈ field.limit?, 1 ≤ field.write.length ∧
      field.write.length ≤ limit ∧ field.kind.read.Passes field.write.length field := by
  intro fields
  have hlen : (writeAll fields).length < 2 ^ 64 := by decide +kernel
  exact ⟨hlen, fields_restored fields hlen⟩

end Field

end ShardQuery.Wire
