import ShardQuery.Symbol.Wire
import ShardQuery.Proofs.Value.Wire
import ShardQuery.Proofs.Wire.Restoring
/-!
# Symbols that are written and read again

Every symbol whose literals have their declared types can be written. It can be read
again exactly if it has no more levels than readers allow and no literal is a
minimum or maximum that holds a state.
-/

namespace ShardQuery

open Wire

-- ---------------------------------------------------------------------------
-- Literals
-- ---------------------------------------------------------------------------

theorem PartialState.isFlat_or (s : PartialState) :
    s.IsFlat ∨ ∃ isMax t, s = .extreme isMax (.state t) := by
  cases s with
  | extreme isMax v => cases v <;> simp [IsFlat, Value.dataType]
  | _ => exact .inl trivial

theorem PartialState.exists_write (s : PartialState) : ∃ bytes, s.write = .of bytes := by
  rcases s.isFlat_or with hflat | ⟨isMax, t, rfl⟩
  · exact (write_spells hflat).imp fun _ => And.left
  · obtain ⟨bytes, h⟩ := t.exists_write
    refine ⟨3 :: Wire.bool isMax ++ DataType.aggregationState.write ++ [1] ++ bytes, ?_⟩
    rw [write_extreme rfl, Value.dataType, Value.writeBody, if_pos rfl, h, Output.of_append_of]

theorem PartialState.nested_restores (isMax : Bool) (s : PartialState) :
    (extreme isMax (.state s)).write.Spells (read.Restores False) (extreme isMax (.state s)) := by
  obtain ⟨bytes, h⟩ := s.exists_write
  rw [write_extreme rfl, Value.dataType, Value.writeBody, if_pos rfl, h]
  refine .of fun _ => .never fun {c d} hp => ?_
  obtain ⟨position, rest, rfl, rfl⟩ := Cursor.Passed.iff_eq.mp hp
  cases isMax with
  | false => exact ⟨_, _, rfl, _, rfl⟩
  | true => exact ⟨_, _, rfl, _, rfl⟩

/-- A state can be read again exactly if it is flat. -/
theorem PartialState.write_restores (s : PartialState) :
    s.write.Spells (read.Restores s.IsFlat) s := by
  by_cases hflat : s.IsFlat
  · exact (write_spells hflat).mono fun bytes h =>
      (Reader.Restores.of_reads read_reads h).congr (iff_of_true trivial hflat)
  · obtain ⟨isMax, t, rfl⟩ := s.isFlat_or.resolve_left hflat
    exact (nested_restores isMax t).congr (iff_of_false id hflat)

namespace Value

theorem writeBody_restores {t : DataType} {v : Value} (hfits : v.fits t = true)
    (hnull : v.isNull = false) :
    (v.writeBody t).Spells ((readBody t).Restores v.IsFlat) v := by
  obtain rfl : v.dataType = t := by simpa [fits, hnull] using hfits
  cases v with
  | state s =>
    rw [dataType, writeBody, if_pos rfl]
    exact s.write_restores.map state
  | _ =>
    exact (writeBody_spells hfits hnull trivial).mono fun bytes h =>
      .of_reads (readBody_reads _) h

theorem write_restores {t : DataType} {v : Value} (hfits : v.fits t = true) :
    (v.write t).Spells ((Value.read t).Restores v.IsFlat) v := by
  cases hnull : v.isNull with
  | true =>
    cases v <;> cases hnull
    have hread := readWith_reads (readBody_reads t)
    exact (Output.Spells.of_reads hread fun _ => .inl ⟨rfl, rfl⟩).congr
      (iff_of_true trivial trivial)
  | false =>
    have hwrite : v.write t = .of (Wire.bool true) ++ v.writeBody t := by
      cases v <;> first | rfl | cases hnull
    rw [hwrite]
    exact .always (.of_reads Reader.bool_reads fun _ => rfl) (writeBody_restores hfits hnull)

theorem writeBody_refused {t : DataType} {v : Value} (h : v.dataType ≠ t) :
    v.writeBody t = t.refuse v := by
  cases v with
  | null => rfl
  | _ => exact if_neg (Ne.symm h)

theorem fits_of_write {t : DataType} {v : Value} (h : (v.write t).error = none) :
    v.fits t = true := by
  have hbody : v.isNull = true ∨ (v.writeBody t).error = none := by
    cases v <;> first | exact .inl rfl | exact .inr h
  rcases hbody with hnull | hbody
  · rw [fits, hnull, Bool.true_or]
  · by_contra hfits
    rw [fits, Bool.or_eq_true, beq_iff_eq, not_or] at hfits
    rw [writeBody_refused hfits.2] at hbody
    cases hbody

end Value

-- ---------------------------------------------------------------------------
-- Functions
-- ---------------------------------------------------------------------------

theorem text_restores (s : String) :
    (Output.of (text s)).Spells (Reader.text.Restores True) s :=
  .of_reads Reader.text_reads .text

theorem vint_restores (n : UInt32) :
    (Output.of (vint n)).Spells (Reader.vint.Restores True) n :=
  .of_reads Reader.vint_reads fun _ => .varint (Nat.lt_trans n.toNat_lt (by decide))

theorem vlong_restores (n : UInt64) :
    (Output.of (vlong n)).Spells (Reader.vlong.Restores True) n :=
  .of_reads Reader.vlong_reads fun _ => .varint n.toNat_lt

theorem DataType.write_restores (t : DataType) :
    (Output.of t.write).Spells (DataType.read.Restores True) t :=
  .of_reads read_reads fun _ => rfl

theorem DataType.list_restores (types : List DataType) :
    (Output.of (Wire.list write types)).Spells ((Reader.list read).Restores True) types := by
  rw [Output.of_list]
  refine (Output.Spells.list (fun t _ => write_restores t) fun t => ?_).congr (by simp)
  simp [Output.of, write]

theorem FunctionKind.write_restores (kind : FunctionKind) :
    (Output.of [kind.id]).Spells (FunctionKind.read.Restores True) kind :=
  .of fun _ => .byte (by cases kind <;> rfl)

theorem Signature.write_restores (s : Signature) :
    (Output.of s.write).Spells (Signature.read.Restores True) s := by
  change (.of (text s.name) ++ Output.of (Wire.list DataType.write s.argumentTypes)).Spells _ _
  exact .always (text_restores s.name) ((DataType.list_restores s.argumentTypes).map fun types =>
    (⟨s.name, types⟩ : Signature))

theorem FunctionInfo.write_restores (info : FunctionInfo) :
    (Output.of info.write).Spells (FunctionInfo.read.Restores True) info := by
  rw [FunctionInfo.write, List.append_assoc]
  change (.of info.signature.write ++
    (.of info.returnType.write ++ Output.of [info.kind.id])).Spells _ _
  exact .always (Signature.write_restores info.signature)
    (.always (DataType.write_restores info.returnType)
      ((FunctionKind.write_restores info.kind).map fun kind =>
        (⟨info.signature, info.returnType, kind⟩ : FunctionInfo)))

-- ---------------------------------------------------------------------------
-- Symbols
-- ---------------------------------------------------------------------------

namespace Symbol

mutual
def literals : Symbol → List (Value × DataType)
  | literal value type => [(value, type)]
  | reference .. => []
  | call _ arguments => literalsOf arguments

def literalsOf : List Symbol → List (Value × DataType)
  | [] => []
  | symbol :: rest => symbol.literals ++ literalsOf rest
end

mutual
def levels : Symbol → Nat
  | literal .. => 1
  | reference .. => 1
  | call _ arguments => levelsOf arguments + 1

def levelsOf : List Symbol → Nat
  | [] => 0
  | symbol :: rest => max symbol.levels (levelsOf rest)
end

def LiteralsFit (symbol : Symbol) : Prop := ∀ l ∈ symbol.literals, l.1.fits l.2 = true

def IsFlat (symbol : Symbol) : Prop := ∀ l ∈ symbol.literals, l.1.IsFlat

theorem literalsOf_eq (symbols : List Symbol) : literalsOf symbols = symbols.flatMap literals := by
  induction symbols with
  | nil => rfl
  | cons symbol rest ih => rw [literalsOf, ih, List.flatMap_cons]

theorem levelsOf_le {symbols : List Symbol} {n : Nat} :
    levelsOf symbols ≤ n ↔ ∀ s ∈ symbols, s.levels ≤ n := by
  induction symbols with
  | nil => simp [levelsOf]
  | cons symbol rest ih => rw [levelsOf, Nat.max_le, ih, List.forall_mem_cons]

theorem writeEach_eq (symbols : List Symbol) : writeEach symbols = .each write symbols := by
  induction symbols with
  | nil => rfl
  | cons symbol rest ih => rw [writeEach, ih, Output.each]

theorem write_bytes_ne_nil (symbol : Symbol) : symbol.write.bytes ≠ [] := by
  cases symbol with
  | literal => exact Output.append_bytes_ne_nil (List.cons_ne_nil _ _)
  | reference => exact List.cons_ne_nil _ _
  | call => exact Output.append_bytes_ne_nil (List.cons_ne_nil _ _)

theorem levels_pos (symbol : Symbol) : 0 < symbol.levels := by
  cases symbol <;> simp [levels]

theorem restores_zero {symbol : Symbol} {reader : Reader Symbol} {p : Prop}
    (h : symbol.write.Spells (reader.Restores p) symbol) :
    symbol.write.Spells ((readNested 0).Restores (symbol.IsFlat ∧ symbol.levels ≤ 0)) symbol := by
  have := symbol.levels_pos
  refine h.mono fun bytes _ => Reader.Restores.congr (.never fun {c d} _ => ?_)
    (iff_of_false id fun h => by omega)
  exact ⟨_, c, rfl, _, rfl⟩

theorem literalsFit_call {info : FunctionInfo} {arguments : List Symbol} :
    (call info arguments).LiteralsFit ↔ ∀ s ∈ arguments, s.LiteralsFit := by
  rw [LiteralsFit, literals, literalsOf_eq, List.forall_mem_flatMap]
  rfl

theorem isFlat_call {info : FunctionInfo} {arguments : List Symbol} :
    (call info arguments).IsFlat ↔ ∀ s ∈ arguments, s.IsFlat := by
  rw [IsFlat, literals, literalsOf_eq, List.forall_mem_flatMap]
  rfl

theorem levels_call_le {info : FunctionInfo} {arguments : List Symbol} {n : Nat} :
    (call info arguments).levels ≤ n + 1 ↔ ∀ s ∈ arguments, s.levels ≤ n := by
  rw [levels, Nat.add_le_add_iff_right, levelsOf_le]

theorem write_call (info : FunctionInfo) (arguments : List Symbol) :
    (call info arguments).write = .of [2] ++ (.of info.write ++ Output.list write arguments) := by
  rw [write, writeEach_eq, Output.list, ← Output.append_assoc, ← Output.append_assoc,
    Output.of_append_of, Output.of_append_of, List.singleton_append]

theorem write_restores_succ (symbol : Symbol) (h : symbol.LiteralsFit) (n : Nat) :
    symbol.write.Spells ((readNested (n + 1)).Restores (symbol.IsFlat ∧ symbol.levels ≤ n + 1))
      symbol := by
  match symbol, h with
  | literal value type, h =>
    change (.of [0] ++ (.of type.write ++ value.write type)).Spells _ _
    have hvalue := (Value.write_restores (h (value, type) (by simp [literals]))).map
      fun value => literal value type
    refine (Output.Spells.byte (.always (DataType.write_restores type) hvalue)).congr ?_
    simp [IsFlat, literals, levels]
  | reference index type, h =>
    change (.of [1] ++ (.of (vint index) ++ Output.of type.write)).Spells _ _
    have htype := (DataType.write_restores type).map fun type => reference index type
    refine (Output.Spells.byte (.always (vint_restores index) htype)).congr ?_
    simp [IsFlat, literals, levels]
  | call info arguments, h =>
    have hfit := literalsFit_call.mp h
    -- The reader of the arguments has a level less, down to the one that refuses everything.
    have harguments : ∀ s ∈ arguments,
        s.write.Spells ((readNested n).Restores (s.IsFlat ∧ s.levels ≤ n)) s := by
      intro s hs
      cases n with
      | zero => exact restores_zero (write_restores_succ s (hfit s hs) 0)
      | succ n => exact write_restores_succ s (hfit s hs) n
    have hlist := (Output.Spells.list harguments write_bytes_ne_nil).map (call info)
    rw [write_call]
    refine (Output.Spells.byte (.always (FunctionInfo.write_restores info) hlist)).congr ?_
    rw [isFlat_call, levels_call_le, forall₂_and]

/-- Only symbols whose literals have their declared types can be written. -/
theorem literalsFit_of_write (symbol : Symbol) (h : symbol.write.error = none) :
    symbol.LiteralsFit := by
  match symbol, h with
  | literal value type, h =>
    have hvalue := Value.fits_of_write (Output.append_error_eq_none.mp h).2
    simpa [LiteralsFit, literals] using hvalue
  | reference index type, _ => simp [LiteralsFit, literals]
  | call info arguments, h =>
    rw [write_call, Output.append_error_eq_none, Output.append_error_eq_none,
      Output.list_error_eq_none] at h
    exact literalsFit_call.mpr fun s hs => literalsFit_of_write s (h.2.2 s hs)

def IsReadable (symbol : Symbol) : Prop := symbol.IsFlat ∧ symbol.levels ≤ maxDepth

theorem write_restores {symbol : Symbol} (h : symbol.LiteralsFit) :
    symbol.write.Spells (read.Restores symbol.IsReadable) symbol := write_restores_succ symbol h 63

theorem writeAll_restores {symbols : List Symbol} (h : ∀ s ∈ symbols, s.LiteralsFit) :
    (writeAll symbols).Spells (readAll.Restores (∀ s ∈ symbols, s.IsReadable)) symbols := by
  rw [writeAll, writeEach_eq]
  exact .list (fun s hs => write_restores (h s hs)) write_bytes_ne_nil

end Symbol

end ShardQuery
