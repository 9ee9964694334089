import Potfit.Table.Contents

/-!
# The free slots

`idx[0 .. idxlen)` lists the slots of the table the optimiser may change. The
read loops append a slot's offset `l` to it when they mark the slot free, so
it lists the free slots of `image` in increasing order:

* `freeSlots_sorted`, `mem_freeSlots`: the list is increasing and holds a slot
  exactly when the slot is free;
* `sampleFree_iff`: the pinning rules of the read loops, role by role, in a
  default (not `MEAMf`) build;
* `read_pot_table3_free_slots`: over a returned table, which slots of each
  function `idx` lists.
-/

namespace Potfit.Table

theorem freeSlots_sorted (ss : List Slot) : (freeSlots ss).Pairwise (· < ·) :=
  (List.pairwise_lt_range _).filter _

theorem mem_freeSlots {ss : List Slot} {p : Nat} {x : Slot} (h : ss[p]? = some x) :
    p ∈ freeSlots ss ↔ x.free = true := by
  obtain ⟨hp, -⟩ := List.getElem?_eq_some_iff.mp h
  simp [freeSlots, hp, h]

theorem lt_of_mem_freeSlots {ss : List Slot} {p : Nat} (h : p ∈ freeSlots ss) : p < ss.length := by
  simpa [freeSlots] using (List.mem_filter.mp h).1

theorem freeSlots_length_le (ss : List Slot) : (freeSlots ss).length ≤ ss.length :=
  (List.length_filter_le _ _).trans (List.length_range _).le

theorem gradFree_fst (g : Globals) (i : Nat) :
    (gradFree g i).1 = true ↔ g.invarPot i = 0 ∧ g.gradient i >>> 1 ≠ 0 := by
  simp [gradFree]

theorem gradFree_snd (g : Globals) (i : Nat) :
    (gradFree g i).2 = true ↔ g.invarPot i = 0 ∧ (g.gradient i).tmod 2 ≠ 0 := by
  simp [gradFree]

/-- The pinning rules: every sample of an embedding, s-band embedding or MEAM
angular function is free, the others pin their last sample, and the first MEAM
`f` function also its first. -/
theorem sampleFree_iff {b : Build} (hm : b.meamf = false) (g : Globals) (r : Role) (nvals : Int)
    (i j : Nat) :
    sampleFree b g r nvals i j = true ↔ g.invarPot i = 0 ∧
      (r = .embed ∨ r = .sEmbed ∨ r = .meamG ∨
        ((j : Int) < nvals - 1 ∧ (r = .meamF → i = g.paircol + 2 * g.ntypes → j ≠ 0))) := by
  cases r <;> simp [sampleFree, hm, and_assoc]
  case meamF => tauto

/-- **The free slots of a returned table.** On a well-formed header, in a
default build, `idx[0 .. idxlen)` is an increasing list of slots below `len`,
and a slot of function `i` is on it exactly when `invar_pot[i]` is zero and:
for the gradient slots, the bit of `gradient[i]` for that end is set; for a
sample, the function's role leaves it free. -/
theorem read_pot_table3_free_slots {b : Build} {ps : PotentialState} {g : Globals}
    {info : List InfoLine} (fn : String) (vals : List ℚ) (hw : Wellformed b ps g info)
    (hmeamf : b.meamf = false) {t : PotTable} (ht : readPotTable3 b fn ps g info vals = .ok t) :
    ∃ L : List Nat, (∀ k, t.idx k = L[k]?) ∧ t.idxlen = L.length ∧ L.Pairwise (· < ·) ∧
      (∀ q ∈ L, (q : Int) < t.len) ∧ (t.idxlen : Int) ≤ t.len ∧
      ∀ (r : Role) (i : Nat), (r, i) ∈ schedule b.interaction g.paircol g.ntypes →
        ∀ gr : Grid, t.grids[i]? = some gr → ∀ p : Nat, (p : Int) = gr.first - 2 →
          (p ∈ L ↔ g.invarPot i = 0 ∧ g.gradient i >>> 1 ≠ 0) ∧
          (p + 1 ∈ L ↔ g.invarPot i = 0 ∧ (g.gradient i).tmod 2 ≠ 0) ∧
          ∀ j < gr.nvals.toNat, (p + 2 + j ∈ L ↔ g.invarPot i = 0 ∧
            (r = .embed ∨ r = .sEmbed ∨ r = .meamG ∨
              ((j : Int) < gr.nvals - 1 ∧ (r = .meamF → i = g.paircol + 2 * g.ntypes → j ≠ 0)))) := by
  obtain ⟨hgrids, hlen, hh⟩ := readPotTable3_ok fn vals hw ht
  have hneed := readPotTable3_ok_needs fn hw ht
  have hss := image_layout_length hw hneed
  refine ⟨_, hh.idx, hh.idxlen, freeSlots_sorted _, fun q hq => ?_, ?_, ?_⟩
  · have := lt_of_mem_freeSlots hq
    omega
  · rw [hh.idxlen]
    have := freeSlots_length_le (image b g ps.haveGradient (layout 0 info)
      (schedule b.interaction g.paircol g.ntypes) vals)
    omega
  · intro r i hri gr hgr p hp
    rw [hgrids] at hgr
    obtain ⟨h0, h1, hs⟩ := image_function_slots hw hneed hri hgr hp
    rw [mem_freeSlots h0, mem_freeSlots h1, gradFree_fst, gradFree_snd]
    exact ⟨Iff.rfl, Iff.rfl, fun j hj => by rw [mem_freeSlots (hs j hj), sampleFree_iff hmeamf]⟩

/-- A MEAM header of one element, read without gradients: the first MEAM `f`
function is function 3, its slots start at 15, and of its three samples the
first, slot 17, stays fixed while the second, slot 18, is free. -/
theorem read_pot_table3_free_slots_meam :
    ∃ t, readPotTable3 ⟨.tab, .meam, false, false⟩ "pot" ⟨"pot", 5, false⟩ ⟨1, 1, fun _ => 0, fun _ => 0⟩
        [⟨0, 2, 3⟩, ⟨0, 2, 3⟩, ⟨0, 2, 3⟩, ⟨0, 2, 3⟩, ⟨-1, 1, 3⟩]
        [1, 2, 3, 4, 5, 6, 7, 8, 9, 10, 11, 12, 13, 14, 15] = .ok t ∧
      ∃ L : List Nat, (∀ k, t.idx k = L[k]?) ∧ 17 ∉ L ∧ 18 ∈ L := by
  have hw : Wellformed ⟨.tab, .meam, false, false⟩ ⟨"pot", 5, false⟩ ⟨1, 1, fun _ => 0, fun _ => 0⟩
      [⟨0, 2, 3⟩, ⟨0, 2, 3⟩, ⟨0, 2, 3⟩, ⟨0, 2, 3⟩, ⟨-1, 1, 3⟩] := ⟨rfl, rfl, rfl, by decide, by decide⟩
  obtain ⟨t, ht⟩ : ∃ t, readPotTable3 ⟨.tab, .meam, false, false⟩ "pot" ⟨"pot", 5, false⟩
      ⟨1, 1, fun _ => 0, fun _ => 0⟩ [⟨0, 2, 3⟩, ⟨0, 2, 3⟩, ⟨0, 2, 3⟩, ⟨0, 2, 3⟩, ⟨-1, 1, 3⟩]
      [1, 2, 3, 4, 5, 6, 7, 8, 9, 10, 11, 12, 13, 14, 15] = .ok t := ⟨_, rfl⟩
  obtain ⟨L, hidx, -, -, -, -, hslots⟩ := read_pot_table3_free_slots "pot" _ hw rfl ht
  have hgr : t.grids[3]? = some (exactGrid 15 ⟨0, 2, 3⟩) := by
    rw [(readPotTable3_ok "pot" _ hw ht).1]
    rfl
  have hf := (hslots .meamF 3 (by decide) _ hgr 15 rfl).2.2
  refine ⟨t, ht, L, hidx, fun hm => ?_, (hf 1 (by decide)).mpr (by simp)⟩
  have := (hf 0 (by decide)).mp hm
  simp at this

end Potfit.Table
