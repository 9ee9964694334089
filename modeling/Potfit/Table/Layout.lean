import Potfit.Table.Run

/-!
# The layout of the table

Properties of the exact layout `layout 0 info`, the info block's entries when
no sample count is negative and nothing overflows (`readInfo_layout`):

* `layout_next`, `exactGrid_last`: `first[i] = last[i-1] + 3` and
  `last[i] = first[i] + nvals[i] - 1`;
* `layout_cover`, `layout_ordered`: the slot ranges `[first[i] - 2, last[i]]`
  are increasing and tile `[0, len)`.
-/

namespace Potfit.Table

section
variable {info : List InfoLine}

@[simp] theorem layout_length (b : Int) (info : List InfoLine) : (layout b info).length = info.length := by
  induction info generalizing b with
  | nil => rfl
  | cons ln lns ih => simp [layout, ih]

theorem exactGrid_last_eq (c : Int) (ln : InfoLine) :
    (exactGrid c ln).last = (exactGrid c ln).first + (exactGrid c ln).nvals - 1 := by
  simp only [exactGrid_first, exactGrid_last, exactGrid_nvals]; omega

theorem layout_getElem? : ∀ (info : List InfoLine) (b : Int) (i : Nat),
    (layout b info)[i]? = info[i]?.map (exactGrid (b + slots (info.take i)))
  | [], _, _ => rfl
  | _ :: _, b, 0 => by simp [layout]
  | ln :: lns, b, i + 1 => by
    simp only [layout, List.getElem?_cons_succ, layout_getElem? lns, List.take_succ_cons, slots_cons,
      Int.add_assoc]

theorem layout_first_ge (hn : ∀ ln ∈ info, 0 ≤ ln.nvals) (b : Int) (i : Nat) {gr : Grid}
    (h : (layout b info)[i]? = some gr) : b + 2 ≤ gr.first := by
  rw [layout_getElem?, Option.map_eq_some'] at h
  obtain ⟨ln, -, rfl⟩ := h
  have : 0 ≤ slots (info.take i) := slots_nonneg fun x hx => hn x (List.mem_of_mem_take hx)
  simp only [exactGrid_first]; omega

/-- `first[i + 1] = last[i] + 3`: two gradient slots and the gap past `last[i]`. -/
theorem layout_next : ∀ (info : List InfoLine) (b : Int) (i : Nat) {gr gr' : Grid},
    (layout b info)[i]? = some gr → (layout b info)[i + 1]? = some gr' → gr'.first = gr.last + 3
  | [], _, _, _, _, h, _ => by simp [layout] at h
  | ln :: lns, b, 0, gr, gr', h, h' => by
    simp only [layout, List.getElem?_cons_zero, Option.some.injEq, List.getElem?_cons_succ,
      layout_getElem?, List.take_zero, slots_nil, Option.map_eq_some'] at h h'
    obtain ⟨_, -, rfl⟩ := h'
    subst h
    simp only [exactGrid_first, exactGrid_last]; omega
  | ln :: lns, b, i + 1, _, _, h, h' =>
    layout_next lns (b + ln.nvals + 2) i (by simpa [layout] using h) (by simpa [layout] using h')

/-- **The slot ranges tile the table.** A slot lies in `[b, b + slots)` exactly
when it lies in some function's range `[first - 2, last]`. -/
theorem layout_cover (hn : ∀ ln ∈ info, 0 ≤ ln.nvals) (b p : Int) :
    (b ≤ p ∧ p < b + slots info) ↔
      ∃ (i : Nat) (gr : Grid), (layout b info)[i]? = some gr ∧ gr.first - 2 ≤ p ∧ p ≤ gr.last := by
  induction info generalizing b with
  | nil => simp [layout]
  | cons ln lns ih =>
    simp only [List.mem_cons, forall_eq_or_imp] at hn
    have hs := slots_nonneg hn.2
    simp only [slots_cons]
    constructor
    · rintro ⟨h1, h2⟩
      by_cases hp : p < b + ln.nvals + 2
      · exact ⟨0, exactGrid b ln, by simp [layout], by simp only [exactGrid_first]; omega,
          by simp only [exactGrid_last]; omega⟩
      · obtain ⟨i, gr, hgr, hp'⟩ := (ih hn.2 (b + ln.nvals + 2)).mp ⟨by omega, by omega⟩
        exact ⟨i + 1, gr, by simpa [layout] using hgr, hp'⟩
    · rintro ⟨i, gr, hgr, h1, h2⟩
      cases i with
      | zero =>
        simp only [layout, List.getElem?_cons_zero, Option.some.injEq] at hgr
        subst hgr
        simp only [exactGrid_first, exactGrid_last] at h1 h2
        omega
      | succ i =>
        have := (ih hn.2 (b + ln.nvals + 2)).mpr ⟨i, gr, by simpa [layout] using hgr, h1, h2⟩
        omega

/-- **The slot ranges are increasing and disjoint.** -/
theorem layout_ordered (hn : ∀ ln ∈ info, 0 ≤ ln.nvals) (b : Int) {i j : Nat} {gr gr' : Grid}
    (hij : i < j) (h : (layout b info)[i]? = some gr) (h' : (layout b info)[j]? = some gr') :
    gr.last < gr'.first - 2 := by
  induction info generalizing b i j with
  | nil => simp [layout] at h
  | cons ln lns ih =>
    simp only [List.mem_cons, forall_eq_or_imp] at hn
    cases j with
    | zero => omega
    | succ j =>
      cases i with
      | zero =>
        simp only [layout, List.getElem?_cons_zero, Option.some.injEq, List.getElem?_cons_succ] at h h'
        subst h
        have := layout_first_ge hn.2 _ j h'
        simp only [exactGrid_last]; omega
      | succ i =>
        exact ih hn.2 _ (i := i) (j := j) (by omega) (by simpa [layout] using h)
          (by simpa [layout] using h')

end

end Potfit.Table
