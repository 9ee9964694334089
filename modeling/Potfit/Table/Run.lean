import Potfit.Table.Image

/-!
# A whole read

From the one-function lemmas, by induction over the read loops' schedule:

* `foldlM_readFunction_ok`: when no gauge test fails and the file holds the
  values, the loops fill `image`, each function from its own piece of the file;
* `foldlM_readFunction_ok_iff`: and only then do they finish;
* `readPotTable3_ok_iff`, `readPotTable3_ok`: the same for `read_pot_table3`,
  whose info block, without overflow, is `layout`.
-/

namespace Potfit.Table

/-- The values each function of `L` reads, in order. -/
def needs (hg : Bool) (grids : List Grid) (L : List (Role × Nat)) : List Nat :=
  L.map fun ri => need hg (grids.getD ri.2 default).nvals

/-- The slots the functions of `L` fill, each from its own piece of `vals`. -/
def image (b : Build) (g : Globals) (hg : Bool) (grids : List Grid) :
    List (Role × Nat) → List ℚ → List Slot
  | [], _ => []
  | (r, i) :: L, vals =>
    let n := need hg (grids.getD i default).nvals
    fnSlots b g hg r i (grids.getD i default) (vals.take n) ++ image b g hg grids L (vals.drop n)

section
variable (b : Build) (ps : PotentialState) (g : Globals) (grids : List Grid)

theorem foldlM_readFunction_ok :
    ∀ (L : List (Role × Nat)) (ss : List Slot) (s : Reader), Refines ss s →
      (∀ ri ∈ L, gaugeFails b ri.1 (grids.getD ri.2 default) = false) →
      (needs ps.haveGradient grids L).sum ≤ s.rest.length →
      ∃ s', L.foldlM (readFunction b ps g grids) s = .ok s' ∧
        Refines (ss ++ image b g ps.haveGradient grids L s.rest) s' ∧
        s'.rest = s.rest.drop (needs ps.haveGradient grids L).sum
  | [], ss, s, h, _, _ => ⟨s, rfl, by simpa [image] using h, by simp [needs]⟩
  | (r, i) :: L, ss, s, h, hgauge, hlen => by
    simp only [needs, List.map_cons, List.sum_cons] at hlen
    simp only [List.mem_cons, forall_eq_or_imp] at hgauge
    set n := need ps.haveGradient (grids.getD i default).nvals
    have h1 := readFunction_ok b ps g grids s r i (s.rest.take n) (s.rest.drop n) hgauge.1
      (List.take_append_drop _ _).symm (by rw [List.length_take]; omega)
    have hr1 := (h.rest (s.rest.drop n)).pushAll
      (fnSlots b g ps.haveGradient r i (grids.getD i default) (s.rest.take n))
    obtain ⟨s', hs', hr', hrest'⟩ := foldlM_readFunction_ok L _ _ hr1 hgauge.2
      (by simp only [Reader.foldl_push_rest, List.length_drop]; simp only [needs] at hlen ⊢; omega)
    refine ⟨s', by rw [List.foldlM_cons, h1, except_ok_bind, hs'], ?_, ?_⟩
    · simpa only [image, Reader.foldl_push_rest, List.append_assoc] using hr'
    · simp only [hrest', Reader.foldl_push_rest, List.drop_drop, needs, List.map_cons,
        List.sum_cons]

/-- **The read loops finish exactly when they can**: when no gauge test fails
and the file holds every value the functions read. -/
theorem foldlM_readFunction_ok_iff :
    ∀ (L : List (Role × Nat)) (s : Reader),
      (∃ s', L.foldlM (readFunction b ps g grids) s = .ok s') ↔
        (∀ ri ∈ L, gaugeFails b ri.1 (grids.getD ri.2 default) = false) ∧
          (needs ps.haveGradient grids L).sum ≤ s.rest.length
  | [], s => ⟨fun _ => ⟨by simp, by simp [needs]⟩, fun _ => ⟨s, rfl⟩⟩
  | (r, i) :: L, s => by
    set n := need ps.haveGradient (grids.getD i default).nvals
    simp only [List.foldlM_cons, List.mem_cons, forall_eq_or_imp, needs, List.map_cons,
      List.sum_cons]
    constructor
    · rintro ⟨s', hs'⟩
      cases h1 : readFunction b ps g grids s (r, i) with
      | error e => rw [h1] at hs'; cases hs'
      | ok s1 =>
        obtain ⟨hgauge, hlen⟩ := (readFunction_ok_iff b ps g grids s r i).mp ⟨s1, h1⟩
        have hs1 := readFunction_ok b ps g grids s r i (s.rest.take n) (s.rest.drop n) hgauge
          (List.take_append_drop _ _).symm (by rw [List.length_take]; omega)
        rw [h1, except_ok_bind] at hs'
        obtain ⟨hg', hl'⟩ := (foldlM_readFunction_ok_iff L s1).mp ⟨s', hs'⟩
        rw [h1] at hs1
        cases hs1
        simp only [Reader.foldl_push_rest, List.length_drop] at hl'
        exact ⟨⟨hgauge, hg'⟩, by simp only [needs] at hl'; omega⟩
    · rintro ⟨⟨hgauge, hg'⟩, hlen⟩
      have hs1 := readFunction_ok b ps g grids s r i (s.rest.take n) (s.rest.drop n) hgauge
        (List.take_append_drop _ _).symm (by rw [List.length_take]; omega)
      obtain ⟨s', hs'⟩ := (foldlM_readFunction_ok_iff L ((fnSlots b g ps.haveGradient r i
        (grids.getD i default) (s.rest.take n)).foldl Reader.push { s with rest := s.rest.drop n })).mpr
        ⟨hg', by simp only [Reader.foldl_push_rest, List.length_drop, needs]; omega⟩
      exact ⟨s', by rw [hs1, except_ok_bind, hs']⟩

end

/-! ## `read_pot_table3` -/

/-- The buffers of table `t` hold exactly the slots `ss`. -/
structure Holds (ss : List Slot) (t : PotTable) : Prop where
  table : ∀ p, t.table p = ss[p]?.map Slot.val
  xcoord : ∀ p, t.xcoord p = ss[p]?.bind Slot.xc
  idx : ∀ p, t.idx p = (freeSlots ss)[p]?
  idxlen : t.idxlen = (freeSlots ss).length

/-- The preconditions of the layout: a `tab` build, one info line per function
the read loops cover, no negative sample count, and every slot within an `int`. -/
structure Wellformed (b : Build) (ps : PotentialState) (g : Globals) (info : List InfoLine) : Prop where
  tab : b.model = .tab
  numPots : ps.numPots = numFunctions b.interaction g.paircol g.ntypes
  length : info.length = ps.numPots
  nvals : ∀ ln ∈ info, 0 ≤ ln.nvals
  slots : slots info < 2147483648

section
variable {b : Build} {ps : PotentialState} {g : Globals} {info : List InfoLine}

theorem readPotTable3_eq (fn : String) (vals : List ℚ) (hw : Wellformed b ps g info) :
    readPotTable3 b fn ps g info vals =
      match readTable b ps g (layout 0 info) vals with
      | .error (e, _) => .error e
      | .ok s => .ok ⟨layout 0 info, slots info, s.table, s.xcoord, s.idx, s.k⟩ := by
  have hinfo : readInfo ps.filename ps.numPots info = .ok (layout 0 info, slots info) :=
    hw.length ▸ readInfo_layout ps.filename info hw.nvals hw.slots
  simp only [readPotTable3, hw.tab, hinfo, except_ok_bind]
  rw [← hw.length]
  simp only [List.drop_length, List.flatMap_nil, List.nil_append]
  rcases readTable b ps g (layout 0 info) vals with ⟨e, _⟩ | s <;> rfl

/-- **When `read_pot_table3` returns.** On a well-formed header it returns a
table exactly when no gauge test fails and the file holds the values the read
loops read. -/
theorem readPotTable3_ok_iff (fn : String) (vals : List ℚ) (hw : Wellformed b ps g info) :
    (∃ t, readPotTable3 b fn ps g info vals = .ok t) ↔
      (∀ ri ∈ schedule b.interaction g.paircol g.ntypes,
        gaugeFails b ri.1 ((layout 0 info).getD ri.2 default) = false) ∧
      (needs ps.haveGradient (layout 0 info) (schedule b.interaction g.paircol g.ntypes)).sum ≤
        vals.length := by
  rw [readPotTable3_eq fn vals hw]
  refine Iff.trans ?_ (foldlM_readFunction_ok_iff b ps g (layout 0 info) _ (Reader.init vals))
  simp only [readTable]
  constructor
  · rintro ⟨t, ht⟩
    split at ht
    · cases ht
    · exact ⟨_, by assumption⟩
  · rintro ⟨s, hs⟩
    exact ⟨_, by rw [hs]⟩

/-- **What a returned table holds.** On a well-formed header, a returned table
has the exact layout of the info block and holds the slots of `image`. -/
theorem readPotTable3_ok (fn : String) (vals : List ℚ) (hw : Wellformed b ps g info) {t : PotTable}
    (ht : readPotTable3 b fn ps g info vals = .ok t) :
    t.grids = layout 0 info ∧ t.len = slots info ∧
      Holds (image b g ps.haveGradient (layout 0 info) (schedule b.interaction g.paircol g.ntypes)
        vals) t := by
  obtain ⟨hgauge, hlen⟩ := (readPotTable3_ok_iff fn vals hw).mp ⟨t, ht⟩
  obtain ⟨s, hs, hr, -⟩ := foldlM_readFunction_ok b ps g (layout 0 info) _ [] (Reader.init vals)
    (refines_init vals) hgauge hlen
  rw [readPotTable3_eq fn vals hw] at ht
  simp only [readTable, hs] at ht
  cases ht
  exact ⟨rfl, rfl, ⟨hr.table, hr.xcoord, hr.idx, hr.k⟩⟩

end

end Potfit.Table
