import ShardQuery.Projection.Wire
import ShardQuery.Proofs.Symbol.Wire
/-!
# Projections that are written and read again

All symbols of a projection must be such as readers take, and its limit must have a
successor.
-/

namespace ShardQuery

open Wire Output

-- ---------------------------------------------------------------------------
-- Parts of projections
-- ---------------------------------------------------------------------------

theorem Granularity.write_restores (granularity : Granularity) :
    (Output.of granularity.write).Spells (Granularity.read.Restores True) granularity :=
  .of fun _ => .byte (by cases granularity <;> rfl)

theorem AggregateStep.write_restores (step : AggregateStep) :
    (Output.of step.write).Spells (AggregateStep.read.Restores True) step :=
  .of fun _ => .byte (by cases step <;> rfl)

namespace AggregateCall

theorem write_bytes_ne_nil (call : AggregateCall) : call.write.bytes ≠ [] :=
  append_bytes_ne_nil (append_bytes_ne_nil
    (List.append_ne_nil_of_right_ne_nil _ (List.cons_ne_nil _ _)))

theorem write_restores {call : AggregateCall} (h : ∀ s ∈ call.inputs, s.LiteralsFit) :
    call.write.Spells (AggregateCall.read.Restores (∀ s ∈ call.inputs, s.IsReadable)) call := by
  rw [AggregateCall.write, append_assoc, ← of_append_of]
  exact .always (FunctionInfo.write_restores call.info)
    (.bind_always (Symbol.writeAll_restores h)
      (.always (AggregateStep.write_restores call.fromStep)
        ((AggregateStep.write_restores call.toStep).map fun toStep =>
          (⟨call.info, call.inputs, call.fromStep, toStep⟩ : AggregateCall))))

end AggregateCall

namespace SortKey

theorem write_bytes_ne_nil (key : SortKey) : key.write.bytes ≠ [] :=
  append_bytes_ne_nil key.symbol.write_bytes_ne_nil

theorem writeNulls_restores (nulls : Option Bool) :
    (Output.of (writeNulls nulls)).Spells (readNulls.Restores True) nulls := by
  rcases nulls with _ | _ | _
  · exact .of fun _ => .byte rfl
  · exact .of fun _ => .byte rfl
  · exact .of fun _ => .byte rfl

theorem write_restores {key : SortKey} (h : key.symbol.LiteralsFit) :
    key.write.Spells (SortKey.read.Restores key.symbol.IsReadable) key := by
  rw [SortKey.write, ← of_append_of]
  exact .bind_always (Symbol.write_restores h)
    (.always (.of_reads Reader.bool_reads fun _ => rfl)
      ((writeNulls_restores key.nullsFirst?).map fun nulls =>
        (⟨key.symbol, key.descending, nulls⟩ : SortKey)))

end SortKey

namespace Projection

theorem writeLimit_restores {limit : Option UInt64} (h : limit ≠ some 0xffffffffffffffff) :
    (Output.of (writeLimit limit)).Spells (readLimit.Restores True) limit := by
  cases limit with
  | none => exact (vlong_restores 0).map fun n => if n = 0 then none else some (n - 1)
  | some n =>
    have hn : n.toNat ≠ 0xffffffffffffffff := fun he => h (congrArg some (UInt64.toNat_inj.mp he))
    have hlt := n.toNat_lt
    have hsucc : (n + 1).toNat = n.toNat + 1 := by
      rw [UInt64.toNat_add, UInt64.toNat_one]
      exact Nat.mod_eq_of_lt (by omega)
    have hzero : n + 1 ≠ 0 := fun he => by
      rw [he] at hsucc
      cases hsucc
    have hread := (vlong_restores (n + 1)).map fun n => if n = 0 then none else some (n - 1)
    have hwrite : writeLimit (some n) = vlong (n + 1) := by
      rw [writeLimit, vlong, hsucc, Nat.min_eq_left (by omega)]
    rw [if_neg hzero, UInt64.add_sub_cancel] at hread
    rw [hwrite]
    exact hread

theorem calls_restore {calls : List AggregateCall}
    (h : ∀ call ∈ calls, ∀ s ∈ call.inputs, s.LiteralsFit) :
    (Output.list AggregateCall.write calls).Spells ((Reader.list AggregateCall.read).Restores
      (∀ call ∈ calls, ∀ s ∈ call.inputs, s.IsReadable)) calls :=
  .list (fun call hc => AggregateCall.write_restores (h call hc)) AggregateCall.write_bytes_ne_nil

theorem keys_restore {keys : List SortKey} (h : ∀ key ∈ keys, key.symbol.LiteralsFit) :
    (Output.list SortKey.write keys).Spells ((Reader.list SortKey.read).Restores
      (∀ key ∈ keys, key.symbol.IsReadable)) keys :=
  .list (fun key hk => SortKey.write_restores (h key hk)) SortKey.write_bytes_ne_nil

-- ---------------------------------------------------------------------------
-- Projections
-- ---------------------------------------------------------------------------

def symbols : Projection → List Symbol
  | filter query outputs _ => query :: outputs
  | aggregation calls _ => calls.flatMap AggregateCall.inputs
  | group keys calls _ => keys ++ calls.flatMap AggregateCall.inputs
  | topN outputs keys _ _ _ => outputs ++ keys.map SortKey.symbol
  | order outputs keys _ => outputs ++ keys.map SortKey.symbol
  | write inputs _ => inputs

def limit? : Projection → Option UInt64
  | topN _ _ limit _ _ => limit
  | _ => none

theorem writeBody_restores {projection : Projection}
    (h : ∀ s ∈ projection.symbols, s.LiteralsFit)
    (hlimit : projection.limit? ≠ some 0xffffffffffffffff) :
    projection.writeBody.Spells ((readBody projection.kind).Restores
      (∀ s ∈ projection.symbols, s.IsReadable)) projection := by
  cases projection with
  | filter query outputs granularity =>
    rw [writeBody, append_assoc]
    obtain ⟨hquery, houtputs⟩ := List.forall_mem_cons.mp h
    refine .congr (.bind (Symbol.write_restores hquery)
      (.bind_always (Symbol.writeAll_restores houtputs)
        ((Granularity.write_restores granularity).map (filter query outputs)))) ?_
    exact List.forall_mem_cons.symm
  | aggregation calls granularity =>
    rw [writeBody]
    refine .congr (.bind_always (calls_restore (List.forall_mem_flatMap.mp h))
      ((Granularity.write_restores granularity).map (aggregation calls))) ?_
    exact List.forall_mem_flatMap.symm
  | group keys calls granularity =>
    rw [writeBody, append_assoc]
    obtain ⟨hkeys, hcalls⟩ := List.forall_mem_append.mp h
    refine .congr (.bind (Symbol.writeAll_restores hkeys)
      (.bind_always (calls_restore (List.forall_mem_flatMap.mp hcalls))
        ((Granularity.write_restores granularity).map (group keys calls)))) ?_
    rw [symbols, List.forall_mem_append, List.forall_mem_flatMap]
  | topN outputs keys limit offset granularity =>
    rw [writeBody, append_assoc, List.append_assoc, ← of_append_of, ← of_append_of]
    obtain ⟨houtputs, hkeys⟩ := List.forall_mem_append.mp h
    refine .congr (.bind (Symbol.writeAll_restores houtputs)
      (.bind_always (keys_restore (List.forall_mem_map.mp hkeys))
        (.always (writeLimit_restores hlimit) (.always (vlong_restores offset)
          ((Granularity.write_restores granularity).map (topN outputs keys limit offset)))))) ?_
    rw [symbols, List.forall_mem_append, List.forall_mem_map]
  | order outputs keys granularity =>
    rw [writeBody, append_assoc]
    obtain ⟨houtputs, hkeys⟩ := List.forall_mem_append.mp h
    refine .congr (.bind (Symbol.writeAll_restores houtputs)
      (.bind_always (keys_restore (List.forall_mem_map.mp hkeys))
        ((Granularity.write_restores granularity).map (order outputs keys)))) ?_
    rw [symbols, List.forall_mem_append, List.forall_mem_map]
  | write inputs granularity =>
    rw [writeBody]
    exact .bind_always (Symbol.writeAll_restores h)
      ((Granularity.write_restores granularity).map (write inputs))

theorem encode_restores {projection : Projection}
    (h : ∀ s ∈ projection.symbols, s.LiteralsFit)
    (hlimit : projection.limit? ≠ some 0xffffffffffffffff) :
    projection.encode.Spells (read.Restores (∀ s ∈ projection.symbols, s.IsReadable))
      projection := by
  have hkind (kind : ProjectionKind) :
      ProjectionKind.all[(UInt8.ofNat kind.id).toNat]? = some kind := by
    cases kind <;> rfl
  refine .byte ?_
  rw [hkind]
  exact writeBody_restores h hlimit

structure IsPortable (projection : Projection) : Prop where
  /-- Every literal is null or of its declared type. -/
  literalsFit : ∀ s ∈ projection.symbols, s.LiteralsFit
  /-- No literal is a minimum or maximum that holds a state. -/
  isFlat : ∀ s ∈ projection.symbols, s.IsFlat
  levels_le : ∀ s ∈ projection.symbols, s.levels ≤ 64
  limit_ne : projection.limit? ≠ some 0xffffffffffffffff

theorem encodeAll_restores {projections : List Projection} (h : ∀ p ∈ projections, p.IsPortable) :
    (encodeAll projections).Spells (readAll.Restores True) projections := by
  have hlist := Spells.list (fun p hp => encode_restores (h p hp).literalsFit (h p hp).limit_ne)
    fun p => append_bytes_ne_nil (List.cons_ne_nil _ _)
  exact hlist.congr (iff_of_true (fun p hp s hs => ⟨(h p hp).isFlat s hs, (h p hp).levels_le s hs⟩)
    trivial)

-- ---------------------------------------------------------------------------
-- What other nodes read
-- ---------------------------------------------------------------------------

/-- The limit that other nodes read: the greatest one comes back as the one below it. -/
def shippedLimit (n : UInt64) : UInt64 :=
  if n = 0xffffffffffffffff then 0xfffffffffffffffe else n

def shipped : Projection → Projection
  | topN outputs keys limit offset granularity =>
    topN outputs keys (limit.map shippedLimit) offset granularity
  | projection => projection

theorem shippedLimit_ne (n : UInt64) : shippedLimit n ≠ 0xffffffffffffffff := by
  unfold shippedLimit
  split
  · decide
  · assumption

theorem shippedLimit_eq_iff {n : UInt64} : shippedLimit n = n ↔ n ≠ 0xffffffffffffffff :=
  ⟨fun h hn => shippedLimit_ne n (h.trans hn), fun h => if_neg h⟩

theorem toNat_shippedLimit (n : UInt64) :
    (shippedLimit n).toNat = min n.toNat 0xfffffffffffffffe := by
  unfold shippedLimit
  split
  · rename_i h
    rw [h]
    rfl
  · rename_i h
    have hlt := n.toNat_lt
    have hne : n.toNat ≠ 0xffffffffffffffff := fun he => h (UInt64.toNat_inj.mp he)
    omega

theorem shipped_topN_eq_iff {outputs : List Symbol} {keys : List SortKey} {limit : Option UInt64}
    {offset : UInt64} {granularity : Granularity} :
    (topN outputs keys limit offset granularity).shipped =
      topN outputs keys limit offset granularity ↔ limit ≠ some 0xffffffffffffffff := by
  cases limit with
  | none => exact iff_of_true rfl nofun
  | some n => simp [shipped, shippedLimit_eq_iff]

theorem writeLimit_shipped (limit : Option UInt64) :
    writeLimit (limit.map shippedLimit) = writeLimit limit := by
  cases limit with
  | none => rfl
  | some n =>
    have hsucc : min (min n.toNat 0xfffffffffffffffe + 1) 0xffffffffffffffff =
        min (n.toNat + 1) 0xffffffffffffffff := by omega
    rw [Option.map_some, writeLimit, writeLimit, toNat_shippedLimit, hsucc]

theorem encode_shipped (projection : Projection) :
    projection.shipped.encode = projection.encode := by
  cases projection with
  | topN outputs keys limit offset granularity =>
    rw [shipped, encode, encode, writeBody, writeBody, writeLimit_shipped]
    rfl
  | _ => rfl

theorem limit_shipped (projection : Projection) :
    projection.shipped.limit? ≠ some 0xffffffffffffffff := by
  cases projection with
  | topN outputs keys limit offset granularity =>
    cases limit with
    | none => exact nofun
    | some n => exact fun h => shippedLimit_ne n (Option.some.inj h)
  | _ => exact nofun

theorem symbols_shipped (projection : Projection) :
    projection.shipped.symbols = projection.symbols := by
  cases projection <;> rfl

theorem encode_restores_shipped {projection : Projection}
    (h : ∀ s ∈ projection.symbols, s.LiteralsFit) :
    projection.encode.Spells (read.Restores (∀ s ∈ projection.symbols, s.IsReadable))
      projection.shipped := by
  rw [← symbols_shipped] at h
  have hshipped := encode_restores h projection.limit_shipped
  rwa [encode_shipped, symbols_shipped] at hshipped

theorem literalsFit_of_encode {projection : Projection} (h : projection.encode.error = none) :
    ∀ s ∈ projection.symbols, s.LiteralsFit := by
  have hall {symbols : List Symbol} (h : (Symbol.writeAll symbols).error = none) :
      ∀ s ∈ symbols, s.LiteralsFit := by
    rw [Symbol.writeAll, Symbol.writeEach_eq] at h
    exact fun s hs => s.literalsFit_of_write (list_error_eq_none.mp h s hs)
  have hcalls {calls : List AggregateCall}
      (h : (Output.list AggregateCall.write calls).error = none) :
      ∀ s ∈ calls.flatMap AggregateCall.inputs, s.LiteralsFit :=
    List.forall_mem_flatMap.mpr fun call hcall =>
      hall (append_error_eq_none.mp (append_error_eq_none.mp
        (list_error_eq_none.mp h call hcall)).1).2
  have hkeys {keys : List SortKey} (h : (Output.list SortKey.write keys).error = none) :
      ∀ s ∈ keys.map SortKey.symbol, s.LiteralsFit :=
    List.forall_mem_map.mpr fun key hkey => key.symbol.literalsFit_of_write
      (append_error_eq_none.mp (list_error_eq_none.mp h key hkey)).1
  replace h := (append_error_eq_none.mp h).2
  cases projection with
  | filter query outputs granularity =>
    obtain ⟨hquery, houtputs⟩ := append_error_eq_none.mp (append_error_eq_none.mp h).1
    exact List.forall_mem_cons.mpr ⟨query.literalsFit_of_write hquery, hall houtputs⟩
  | aggregation calls granularity => exact hcalls (append_error_eq_none.mp h).1
  | group keys calls granularity =>
    obtain ⟨hfirst, hlast⟩ := append_error_eq_none.mp (append_error_eq_none.mp h).1
    exact List.forall_mem_append.mpr ⟨hall hfirst, hcalls hlast⟩
  | topN outputs keys limit offset granularity =>
    obtain ⟨hfirst, hlast⟩ := append_error_eq_none.mp (append_error_eq_none.mp h).1
    exact List.forall_mem_append.mpr ⟨hall hfirst, hkeys hlast⟩
  | order outputs keys granularity =>
    obtain ⟨hfirst, hlast⟩ := append_error_eq_none.mp (append_error_eq_none.mp h).1
    exact List.forall_mem_append.mpr ⟨hall hfirst, hkeys hlast⟩
  | write inputs granularity => exact hall (append_error_eq_none.mp h).1

/-- Whatever is written of a projection is read as the projection that is shipped. -/
theorem roundTrips_shipped {projection : Projection} (h : projection.encode.error = none)
    (hreadable : ∀ s ∈ projection.symbols, s.IsReadable) :
    RoundTrips projection.encode read projection.shipped :=
  .of_spells ((encode_restores_shipped (literalsFit_of_encode h)).congr
    (iff_true_intro hreadable))

theorem encodeAll_shipped {plan : List Projection} (h : (encodeAll plan).error = none)
    (hreadable : ∀ p ∈ plan, ∀ s ∈ p.symbols, s.IsReadable) :
    RoundTrips (encodeAll plan) readAll (plan.map shipped) := by
  have hencode : encodeAll (plan.map shipped) = encodeAll plan := by
    have heach : each encode (plan.map shipped) = each encode plan := by
      clear h hreadable
      induction plan with
      | nil => rfl
      | cons p rest ih => rw [List.map_cons, each, each, ih, encode_shipped]
    rw [encodeAll, encodeAll, Output.list, Output.list, heach, List.length_map]
  have hportable : ∀ p ∈ plan.map shipped, p.IsPortable := by
    refine List.forall_mem_map.mpr fun p hp => ?_
    have hfit := literalsFit_of_encode (list_error_eq_none.mp h p hp)
    rw [← symbols_shipped] at hfit
    have hp := hreadable p hp
    rw [← symbols_shipped] at hp
    exact ⟨hfit, fun s hs => (hp s hs).1, fun s hs => (hp s hs).2, p.limit_shipped⟩
  rw [← hencode]
  exact .of_spells (encodeAll_restores hportable)

end Projection

end ShardQuery
