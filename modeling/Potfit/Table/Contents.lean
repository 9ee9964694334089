import Potfit.Table.Layout

/-!
# What the table holds

Where each function's values land: `image_getElem?` finds the slots of the
`k`-th function of any schedule after the slots of those before it;
`image_layout` specialises it to a build's read loops over the exact layout,
where those slots start at `first[i] - 2`.
-/

namespace Potfit.Table

/-- The slots each function of `L` fills: two gradient slots and its samples. -/
def sizes (grids : List Grid) (L : List (Role × Nat)) : List Nat :=
  L.map fun ri => 2 + (grids.getD ri.2 default).nvals.toNat

theorem fnSlots_length (b : Build) (g : Globals) (hg : Bool) (r : Role) (i : Nat) (gr : Grid)
    (chunk : List ℚ) (h : chunk.length = need hg gr.nvals) :
    (fnSlots b g hg r i gr chunk).length = 2 + gr.nvals.toNat := by
  cases hg <;> simp_all [fnSlots, gradSlots, sampleSlots] <;> omega

section
variable (b : Build) (g : Globals) (hg : Bool) (grids : List Grid)

/-- The slots of the `k`-th function of `L` follow the slots of those before
it, and hold the piece of `vals` after the values those read. -/
theorem image_getElem? : ∀ (L : List (Role × Nat)) (vals : List ℚ) (k m : Nat) (ri : Role × Nat),
    (needs hg grids L).sum ≤ vals.length → L[k]? = some ri →
    m < 2 + (grids.getD ri.2 default).nvals.toNat →
    (image b g hg grids L vals)[((sizes grids L).take k).sum + m]? =
      (fnSlots b g hg ri.1 ri.2 (grids.getD ri.2 default)
        ((vals.drop ((needs hg grids L).take k).sum).take
          (need hg (grids.getD ri.2 default).nvals)))[m]?
  | [], _, _, _, _, _, h, _ => by simp at h
  | (r, i) :: L, vals, 0, m, ri, hlen, h, hm => by
    simp only [List.getElem?_cons_zero, Option.some.injEq] at h
    subst h
    dsimp only at hm ⊢
    simp only [needs, List.map_cons, List.sum_cons] at hlen
    have hc := fnSlots_length b g hg r i (grids.getD i default)
      (vals.take (need hg (grids.getD i default).nvals)) (by simp only [List.length_take]; omega)
    simp only [image, List.take_zero, List.sum_nil, Nat.zero_add, List.drop_zero]
    rw [List.getElem?_append_left (by omega)]
  | (r, i) :: L, vals, k + 1, m, ri, hlen, h, hm => by
    simp only [List.getElem?_cons_succ] at h
    simp only [needs, List.map_cons, List.sum_cons] at hlen
    have ih := image_getElem? L (vals.drop (need hg (grids.getD i default).nvals)) k m ri
      (by simp only [needs, List.length_drop] at hlen ⊢; omega) h hm
    have hc := fnSlots_length b g hg r i (grids.getD i default)
      (vals.take (need hg (grids.getD i default).nvals)) (by simp only [List.length_take]; omega)
    simp only [image, sizes, needs, List.map_cons, List.take_succ_cons, List.sum_cons] at ih ⊢
    rw [Nat.add_assoc, List.getElem?_append_right (by omega), hc, Nat.add_sub_cancel_left, ih,
      List.drop_drop]

theorem image_length : ∀ (L : List (Role × Nat)) (vals : List ℚ),
    (needs hg grids L).sum ≤ vals.length → (image b g hg grids L vals).length = (sizes grids L).sum
  | [], _, _ => rfl
  | (r, i) :: L, vals, hlen => by
    simp only [needs, List.map_cons, List.sum_cons] at hlen
    simp only [image, sizes, List.map_cons, List.sum_cons, List.length_append]
    rw [fnSlots_length b g hg r i _ _ (by simp only [List.length_take]; omega),
      image_length L _ (by simp only [needs, List.length_drop] at hlen ⊢; omega)]
    rfl

end

/-! ## Over the exact layout -/

theorem layout_getD_nvals (b : Int) (info : List InfoLine) (k : Nat) :
    ((layout b info).getD k default).nvals = (info.getD k default).nvals := by
  simp only [List.getD_eq_getElem?_getD, layout_getElem?]
  cases info[k]? <;> rfl

theorem map_range_getD {α β : Type} [Inhabited α] (f : α → β) (l : List α) :
    (List.range l.length).map (fun k => f (l.getD k default)) = l.map f := by
  apply List.ext_getElem (by simp)
  intro n h1 _
  simp only [List.length_map, List.length_range] at h1
  simp [List.getElem?_eq_getElem h1]

theorem schedule_map {α : Type} (ia : Interaction) (p t : Nat) (F : Nat → α) :
    (schedule ia p t).map (fun ri => F ri.2) = (List.range (numFunctions ia p t)).map F := by
  rw [← schedule_indices, List.map_map]
  rfl

theorem schedule_getElem? {ia : Interaction} {p t : Nat} {r : Role} {i : Nat}
    (h : (r, i) ∈ schedule ia p t) : (schedule ia p t)[i]? = some (r, i) := by
  suffices ∃ k, k = i ∧ (schedule ia p t)[k]? = some (r, i) by
    obtain ⟨k, rfl, hk⟩ := this; exact hk
  obtain ⟨k, hk⟩ := List.mem_iff_getElem?.mp h
  have hk' : (List.range (numFunctions ia p t))[k]? = some i := by
    rw [← schedule_indices, List.getElem?_map, hk]; rfl
  obtain ⟨_, hki⟩ := List.getElem?_eq_some_iff.mp hk'
  rw [List.getElem_range] at hki
  exact ⟨k, hki, hk⟩

/-- Where function `i`'s values start in the file after the info block. -/
def readPos (hg : Bool) (info : List InfoLine) (i : Nat) : Nat :=
  ((info.take i).map fun ln => need hg ln.nvals).sum

theorem sizes_schedule (ia : Interaction) (p t : Nat) (info : List InfoLine)
    (hn : numFunctions ia p t = info.length) :
    sizes (layout 0 info) (schedule ia p t) = info.map fun ln => 2 + ln.nvals.toNat := by
  rw [sizes, schedule_map ia p t (fun k => 2 + ((layout 0 info).getD k default).nvals.toNat), hn]
  simp only [layout_getD_nvals]
  exact map_range_getD (fun ln => 2 + ln.nvals.toNat) info

theorem needs_schedule (hg : Bool) (ia : Interaction) (p t : Nat) (info : List InfoLine)
    (hn : numFunctions ia p t = info.length) :
    needs hg (layout 0 info) (schedule ia p t) = info.map fun ln => need hg ln.nvals := by
  rw [needs, schedule_map ia p t (fun k => need hg ((layout 0 info).getD k default).nvals), hn]
  simp only [layout_getD_nvals]
  exact map_range_getD (fun ln => need hg ln.nvals) info

/-- The slots a function without negative count fills, as an `int` count. -/
theorem sum_sizes_take {info : List InfoLine} (hn : ∀ ln ∈ info, 0 ≤ ln.nvals) (i : Nat) :
    ((((info.map fun ln => 2 + ln.nvals.toNat).take i).sum : Nat) : Int) = slots (info.take i) := by
  induction info generalizing i with
  | nil => simp
  | cons ln lns ih =>
    simp only [List.mem_cons, forall_eq_or_imp] at hn
    cases i with
    | zero => simp
    | succ i =>
      simp only [List.map_cons, List.take_succ_cons, List.sum_cons, slots_cons]
      have := ih hn.2 i
      omega

/-- **The slots of function `i`.** Over the exact layout, the slots of function
`i` of a build's read loops start at `first[i] - 2` and hold the values it
reads from its own piece of the file. -/
theorem image_layout (b : Build) (g : Globals) (hg : Bool) {info : List InfoLine}
    (hn : numFunctions b.interaction g.paircol g.ntypes = info.length)
    (hnv : ∀ ln ∈ info, 0 ≤ ln.nvals) (vals : List ℚ)
    (hlen : ((info.map fun ln => need hg ln.nvals).sum) ≤ vals.length)
    {r : Role} {i : Nat} (hri : (r, i) ∈ schedule b.interaction g.paircol g.ntypes)
    {ln : InfoLine} (hln : info[i]? = some ln) {p : Nat} (hp : (p : Int) = slots (info.take i))
    {m : Nat} (hm : m < 2 + ln.nvals.toNat) :
    (image b g hg (layout 0 info) (schedule b.interaction g.paircol g.ntypes) vals)[p + m]? =
      (fnSlots b g hg r i (exactGrid (slots (info.take i)) ln)
        ((vals.drop (readPos hg info i)).take (need hg ln.nvals)))[m]? := by
  have hgrid : (layout 0 info).getD i default = exactGrid (slots (info.take i)) ln := by
    simp [List.getD_eq_getElem?_getD, layout_getElem?, hln]
  have hpos : p = ((sizes (layout 0 info) (schedule b.interaction g.paircol g.ntypes)).take i).sum := by
    rw [sizes_schedule _ _ _ _ hn]
    have := sum_sizes_take hnv i
    omega
  rw [hpos, image_getElem? b g hg (layout 0 info) _ vals i m (r, i)
    (by rwa [needs_schedule _ _ _ _ _ hn]) (schedule_getElem? hri) (by rwa [hgrid]),
    needs_schedule _ _ _ _ _ hn, ← List.map_take, hgrid]
  rfl

section
variable (b : Build) (g : Globals) (r : Role) (i : Nat) (gr : Grid) (chunk : List ℚ)

theorem fnSlots_zero (hg : Bool) : (fnSlots b g hg r i gr chunk)[0]? =
    some ⟨if hg then chunk.getD 0 0 else r.defaults.1, none, (gradFree g i).1⟩ := by
  cases hg <;> rfl

theorem fnSlots_one (hg : Bool) : (fnSlots b g hg r i gr chunk)[1]? =
    some ⟨if hg then chunk.getD 1 0 else r.defaults.2, none, (gradFree g i).2⟩ := by
  cases hg <;> simp [fnSlots, gradSlots]

theorem fnSlots_sample (hg : Bool) (j : Nat) : (fnSlots b g hg r i gr chunk)[2 + j]? =
    chunk[(if hg then 2 else 0) + j]?.map fun x =>
      ⟨x, some (gr.begin + j * gr.step), sampleFree b g r gr.nvals i j⟩ := by
  cases hg <;>
    simp [fnSlots, gradSlots, sampleSlots, List.getElem?_append_right, List.getElem?_enumFrom,
      List.getElem?_drop, Nat.add_comm, Function.comp_def]

end

theorem chunk_getElem? (vals : List ℚ) (q n m : Nat) (h : m < n) :
    ((vals.drop q).take n)[m]? = vals[q + m]? := by
  rw [List.getElem?_take_of_lt h, List.getElem?_drop]

theorem readPos_add_need {hg : Bool} {info : List InfoLine} {i : Nat} {ln : InfoLine}
    (hln : info[i]? = some ln) :
    readPos hg info i + need hg ln.nvals ≤ (info.map fun ln => need hg ln.nvals).sum := by
  have hsplit := congrArg (fun l => (l.map fun ln => need hg ln.nvals).sum)
    (List.take_append_drop (i + 1) info)
  simp only [List.map_append, List.sum_append] at hsplit
  rw [List.take_succ, hln] at hsplit
  simp only [Option.toList_some, List.map_append, List.map_cons, List.map_nil, List.sum_append,
    List.sum_cons, List.sum_nil, Nat.add_zero] at hsplit
  simp only [readPos]
  omega

theorem chunk_getD (vals : List ℚ) (q n m : Nat) (h : m < n) :
    ((vals.drop q).take n).getD m 0 = vals.getD (q + m) 0 := by
  simp only [List.getD_eq_getElem?_getD, chunk_getElem? vals q n m h]

theorem some_getD_eq {l : List ℚ} {n : Nat} (h : n < l.length) : some (l.getD n 0) = l[n]? := by
  rw [List.getD_eq_getElem?_getD, List.getElem?_eq_getElem h]
  rfl

/-! ## One function's slots in a returned table -/

section
variable {b : Build} {ps : PotentialState} {g : Globals} {info : List InfoLine} {vals : List ℚ}

theorem Wellformed.numFunctions_eq (hw : Wellformed b ps g info) :
    numFunctions b.interaction g.paircol g.ntypes = info.length := by
  rw [← hw.numPots, hw.length]

theorem readPotTable3_ok_needs (fn : String) (hw : Wellformed b ps g info) {t : PotTable}
    (ht : readPotTable3 b fn ps g info vals = .ok t) :
    (info.map fun ln => need ps.haveGradient ln.nvals).sum ≤ vals.length := by
  have := ((readPotTable3_ok_iff fn vals hw).mp ⟨t, ht⟩).2
  rwa [needs_schedule _ _ _ _ _ hw.numFunctions_eq] at this

theorem readPos_need_le {hg : Bool} (hneed : (info.map fun ln => need hg ln.nvals).sum ≤ vals.length)
    {i : Nat} {gr : Grid} (hgr : (layout 0 info)[i]? = some gr) :
    readPos hg info i + need hg gr.nvals ≤ vals.length := by
  rw [layout_getElem?, Option.map_eq_some'] at hgr
  obtain ⟨ln, hln, rfl⟩ := hgr
  exact (readPos_add_need hln).trans hneed

/-- The slots of a returned table number `len`. -/
theorem image_layout_length (hw : Wellformed b ps g info)
    (hneed : (info.map fun ln => need ps.haveGradient ln.nvals).sum ≤ vals.length) :
    ((image b g ps.haveGradient (layout 0 info) (schedule b.interaction g.paircol g.ntypes)
      vals).length : Int) = slots info := by
  rw [image_length b g _ _ _ vals (by rwa [needs_schedule _ _ _ _ _ hw.numFunctions_eq]),
    sizes_schedule _ _ _ _ hw.numFunctions_eq]
  have := sum_sizes_take hw.nvals info.length
  rwa [List.take_of_length_le (by simp), List.take_length] at this

/-- **The slots of function `i`.** Its gradient pair sits at `first[i] - 2`
and `first[i] - 1`, without `xcoord`; its `j`-th sample at `first[i] + j`,
holding the value read for it and the knot `begin[i] + j * step[i]`; each slot
is free as `gradFree` and `sampleFree` say. -/
theorem image_function_slots (hw : Wellformed b ps g info)
    (hneed : (info.map fun ln => need ps.haveGradient ln.nvals).sum ≤ vals.length)
    {r : Role} {i : Nat} (hri : (r, i) ∈ schedule b.interaction g.paircol g.ntypes)
    {gr : Grid} (hgr : (layout 0 info)[i]? = some gr) {p : Nat} (hp : (p : Int) = gr.first - 2) :
    let ss := image b g ps.haveGradient (layout 0 info) (schedule b.interaction g.paircol g.ntypes) vals
    ss[p]? = some ⟨if ps.haveGradient then vals.getD (readPos ps.haveGradient info i) 0
      else r.defaults.1, none, (gradFree g i).1⟩ ∧
    ss[p + 1]? = some ⟨if ps.haveGradient then vals.getD (readPos ps.haveGradient info i + 1) 0
      else r.defaults.2, none, (gradFree g i).2⟩ ∧
    ∀ j < gr.nvals.toNat, ss[p + 2 + j]? =
      some ⟨vals.getD (readPos ps.haveGradient info i + (if ps.haveGradient then 2 else 0) + j) 0,
        some (gr.begin + j * gr.step), sampleFree b g r gr.nvals i j⟩ := by
  have hb := readPos_need_le hneed hgr
  rw [layout_getElem?, Option.map_eq_some'] at hgr
  obtain ⟨ln, hln, rfl⟩ := hgr
  simp only [Int.zero_add, exactGrid_first, add_sub_cancel_right] at hp
  simp only [exactGrid_nvals] at hb ⊢
  have hslot := fun m (hm : m < 2 + ln.nvals.toNat) =>
    image_layout b g ps.haveGradient hw.numFunctions_eq hw.nvals vals hneed hri hln hp hm
  have hn : 2 ≤ need ps.haveGradient ln.nvals ∨ ps.haveGradient = false := by
    cases ps.haveGradient <;> simp
  refine ⟨?_, ?_, fun j hj => ?_⟩
  · rw [← Nat.add_zero p, hslot 0 (by omega), fnSlots_zero]
    cases hg : ps.haveGradient
    · rfl
    · simp only [hg, need_true] at hb ⊢
      rw [chunk_getD vals _ _ 0 (by omega), Nat.add_zero]
  · rw [hslot 1 (by omega), fnSlots_one]
    cases hg : ps.haveGradient
    · rfl
    · simp only [hg, need_true] at hb ⊢
      rw [chunk_getD vals _ _ 1 (by omega)]
  · have hoff : (if ps.haveGradient then 2 else 0) + j < need ps.haveGradient ln.nvals := by
      cases ps.haveGradient <;> simp [need] <;> omega
    rw [Nat.add_assoc, hslot (2 + j) (by omega), fnSlots_sample, chunk_getElem? vals _ _ _ hoff,
      ← Nat.add_assoc, ← some_getD_eq (by omega)]
    rfl

end

/-- **The layout of a potential table.** On a well-formed header, for either
gradient mode, when `read_pot_table3` returns: its read loops visit the
functions `0, …, num_pots - 1` once each and in order; `first`, `last` and
`len` follow the info block, so the ranges `[first[i] - 2, last[i]]` are
increasing, disjoint and tile `[0, len)`; function `i`'s gradient pair (from
the file, or its role's defaults) sits at `first[i] - 2` and `first[i] - 1`,
its `j`-th sample at `first[i] + j` with its `xcoord`, and nothing is stored
past `len`. -/
theorem read_pot_table3_layout {b : Build} {ps : PotentialState} {g : Globals}
    {info : List InfoLine} (fn : String) (vals : List ℚ) (hw : Wellformed b ps g info)
    {t : PotTable} (ht : readPotTable3 b fn ps g info vals = .ok t) :
    (schedule b.interaction g.paircol g.ntypes).map Prod.snd = List.range ps.numPots ∧
    t.grids.length = ps.numPots ∧
    (∀ gr : Grid, t.grids[0]? = some gr → gr.first = 2) ∧
    (∀ (i : Nat) (gr gr' : Grid), t.grids[i]? = some gr → t.grids[i + 1]? = some gr' →
      gr'.first = gr.last + 3) ∧
    (∀ (i : Nat) (gr : Grid), t.grids[i]? = some gr → gr.last = gr.first + gr.nvals - 1) ∧
    t.len = (info.map fun ln => ln.nvals + 2).sum ∧
    (∀ q : Int, (0 ≤ q ∧ q < t.len) ↔
      ∃ (i : Nat) (gr : Grid), t.grids[i]? = some gr ∧ gr.first - 2 ≤ q ∧ q ≤ gr.last) ∧
    (∀ (i j : Nat) (gr gr' : Grid), i < j → t.grids[i]? = some gr → t.grids[j]? = some gr' →
      gr.last < gr'.first - 2) ∧
    (∀ (r : Role) (i : Nat), (r, i) ∈ schedule b.interaction g.paircol g.ntypes →
      ∀ gr : Grid, t.grids[i]? = some gr → ∀ p : Nat, (p : Int) = gr.first - 2 →
        t.table p = (if ps.haveGradient then vals[readPos true info i]? else some r.defaults.1) ∧
        t.table (p + 1) =
          (if ps.haveGradient then vals[readPos true info i + 1]? else some r.defaults.2) ∧
        t.xcoord p = none ∧ t.xcoord (p + 1) = none ∧
        ∀ j < gr.nvals.toNat,
          t.table (p + 2 + j) =
            vals[readPos ps.haveGradient info i + (if ps.haveGradient then 2 else 0) + j]? ∧
          t.xcoord (p + 2 + j) = some (gr.begin + j * gr.step)) ∧
    (∀ p : Nat, t.len ≤ p → t.table p = none ∧ t.xcoord p = none) := by
  obtain ⟨hgrids, hlen, hh⟩ := readPotTable3_ok fn vals hw ht
  have hneed := readPotTable3_ok_needs fn hw ht
  rw [hgrids, hlen]
  refine ⟨by rw [schedule_indices, hw.numPots], by simp [hw.length], fun gr h => ?_,
    fun i _ _ => layout_next info 0 i, fun i gr h => ?_, rfl,
    fun q => by simpa using layout_cover hw.nvals 0 q,
    fun i j _ _ hij => layout_ordered hw.nvals 0 hij, ?_, fun p hp => ?_⟩
  · rw [layout_getElem?, Option.map_eq_some'] at h
    obtain ⟨ln, -, rfl⟩ := h
    simp
  · rw [layout_getElem?, Option.map_eq_some'] at h
    obtain ⟨ln, -, rfl⟩ := h
    exact exactGrid_last_eq _ _
  · intro r i hri gr hgr p hp
    have hb := readPos_need_le hneed hgr
    obtain ⟨h0, h1, hs⟩ := image_function_slots hw hneed hri hgr hp
    refine ⟨?_, ?_, by rw [hh.xcoord, h0]; rfl, by rw [hh.xcoord, h1]; rfl, fun j hj => ?_⟩
    · rw [hh.table, h0]
      cases hg : ps.haveGradient
      · rfl
      · simp only [hg, need_true] at hb
        exact some_getD_eq (by omega)
    · rw [hh.table, h1]
      cases hg : ps.haveGradient
      · rfl
      · simp only [hg, need_true] at hb
        exact some_getD_eq (by omega)
    · have hoff : (if ps.haveGradient then 2 else 0) + j < need ps.haveGradient gr.nvals := by
        cases ps.haveGradient <;> simp [need] <;> omega
      rw [hh.table, hh.xcoord, hs j hj, ← some_getD_eq (by omega)]
      exact ⟨rfl, rfl⟩
  · have := image_layout_length hw hneed
    rw [hh.table, hh.xcoord, List.getElem?_eq_none]
    · exact ⟨rfl, rfl⟩
    · omega

/-- An EAM header of one element: the pair function, the density and the
embedding function, of three, four and three samples on `[0, 2]`, read without
gradients: sixteen slots, and the density starts three slots after the pair
function ends. -/
theorem read_pot_table3_layout_eam :
    ∃ t, readPotTable3 ⟨.tab, .eam, false, false⟩ "pot" ⟨"pot", 3, false⟩ ⟨1, 1, fun _ => 0, fun _ => 0⟩
        [⟨0, 2, 3⟩, ⟨0, 2, 4⟩, ⟨0, 2, 3⟩] [1, 2, 3, 4, 5, 6, 7, 8, 9, 10] = .ok t ∧
      t.len = 16 ∧ ∀ gr gr', t.grids[0]? = some gr → t.grids[1]? = some gr' → gr'.first = gr.last + 3 := by
  obtain ⟨t, ht⟩ : ∃ t, readPotTable3 ⟨.tab, .eam, false, false⟩ "pot" ⟨"pot", 3, false⟩
      ⟨1, 1, fun _ => 0, fun _ => 0⟩ [⟨0, 2, 3⟩, ⟨0, 2, 4⟩, ⟨0, 2, 3⟩] [1, 2, 3, 4, 5, 6, 7, 8, 9, 10] = .ok t :=
    ⟨_, rfl⟩
  have h := read_pot_table3_layout "pot" _ ⟨rfl, rfl, rfl, by decide, by decide⟩ ht
  exact ⟨t, ht, h.2.2.2.2.2.1, h.2.2.2.1 0⟩

end Potfit.Table
