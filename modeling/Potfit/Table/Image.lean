import Potfit.Table.Read

/-!
# The reader fills a list of slots

The pointer walk of `readTable` refines a simpler picture: the table is a list
of slots, each with the value stored, the `xcoord` stored (none at a gradient
slot) and whether `idx` records it. Filling a slot appends to that list.

* `Refines ss s`: the buffers of reader `s` hold exactly the slots `ss`;
* `Refines.push`: storing at `val` and advancing appends one slot;
* `readGradient_ok`, `readValues_ok`, `readFunction_ok`: each read step is a
  run of pushes when the file holds its values.
-/

namespace Potfit.Table

/-- One slot of the table as the reader fills it. -/
structure Slot where
  val : ℚ
  xc : Option ℚ
  free : Bool
  deriving DecidableEq, Repr

/-- The slots whose `free` flag is set, in increasing order. -/
def freeSlots (ss : List Slot) : List Nat :=
  (List.range ss.length).filter fun p => (ss[p]?.map Slot.free).getD false

theorem freeSlots_append_singleton (ss : List Slot) (x : Slot) :
    freeSlots (ss ++ [x]) = freeSlots ss ++ if x.free then [ss.length] else [] := by
  have hcongr : ((List.range ss.length).filter fun p => ((ss ++ [x])[p]?.map Slot.free).getD false) =
      freeSlots ss :=
    List.filter_congr fun p hp => by
      rw [List.getElem?_append_left (List.mem_range.mp hp)]
  simp only [freeSlots, List.length_append, List.length_singleton, List.range_succ,
    List.filter_append, hcongr]
  cases h : x.free <;> simp [h]

/-- Reader `s` has filled exactly the slots `ss`: `val` and `l` stand past the
last one, `k` counts the free ones, and the buffers hold their entries. -/
structure Refines (ss : List Slot) (s : Reader) : Prop where
  val : s.val = ss.length
  l : s.l = ss.length
  k : s.k = (freeSlots ss).length
  table : ∀ p, s.table p = ss[p]?.map Slot.val
  xcoord : ∀ p, s.xcoord p = ss[p]?.bind Slot.xc
  idx : ∀ p, s.idx p = (freeSlots ss)[p]?

theorem refines_init (vals : List ℚ) : Refines [] (Reader.init vals) :=
  ⟨rfl, rfl, rfl, fun _ => rfl, fun _ => rfl, fun _ => rfl⟩

theorem Refines.rest {ss : List Slot} {s : Reader} (h : Refines ss s) (rest : List ℚ) :
    Refines ss { s with rest } :=
  ⟨h.val, h.l, h.k, h.table, h.xcoord, h.idx⟩

/-- Fill one slot: store its value at `val` and its `xcoord` at `l`, advance
`val`, then record the slot. -/
def Reader.push (s : Reader) (x : Slot) : Reader :=
  let xcoord := match x.xc with
    | none => s.xcoord
    | some c => store s.xcoord s.l c
  Reader.slot { s with table := store s.table s.val x.val, val := s.val + 1, xcoord } x.free

@[simp] theorem Reader.slot_rest (s : Reader) (f : Bool) : (s.slot f).rest = s.rest := by
  cases f <;> rfl

@[simp] theorem Reader.push_rest (s : Reader) (x : Slot) : (s.push x).rest = s.rest :=
  Reader.slot_rest _ _

theorem Reader.push_withRest (s : Reader) (x : Slot) (rest : List ℚ) :
    { s.push x with rest } = { s with rest }.push x := by
  obtain ⟨v, c, f⟩ := x
  cases f <;> rfl

@[simp] theorem Reader.foldl_push_rest (ys : List Slot) (s : Reader) :
    (ys.foldl Reader.push s).rest = s.rest := by
  induction ys generalizing s with
  | nil => rfl
  | cons y ys ih => simp [ih]

theorem Reader.foldl_push_withRest (ys : List Slot) (s : Reader) (rest : List ℚ) :
    { ys.foldl Reader.push s with rest } = ys.foldl Reader.push { s with rest } := by
  induction ys generalizing s with
  | nil => rfl
  | cons y ys ih => simp only [List.foldl_cons, ih, Reader.push_withRest]

theorem store_append_singleton {α β : Type} {m : Nat → Option β} {xs : List α} {f : α → Option β}
    (h : ∀ p, m p = xs[p]?.bind f) (x : α) (y : β) (hy : f x = some y) :
    ∀ p, store m xs.length y p = (xs ++ [x])[p]?.bind f := by
  intro p
  rcases Nat.lt_trichotomy p xs.length with hp | rfl | hp
  · simp [store, Function.update_noteq hp.ne, h, List.getElem?_append_left hp]
  · simp [store, hy]
  · have h1 : (xs ++ [x]).length ≤ p := by simp only [List.length_append, List.length_singleton]; omega
    simp [store, Function.update_noteq hp.ne', h, List.getElem?_eq_none h1,
      List.getElem?_eq_none hp.le]

theorem Refines.push {ss : List Slot} {s : Reader} (h : Refines ss s) (x : Slot) :
    Refines (ss ++ [x]) (s.push x) := by
  have htable : ∀ p, store s.table s.val x.val p = (ss ++ [x])[p]?.map Slot.val := by
    rw [h.val]
    simpa [Option.map_eq_bind] using
      store_append_singleton (f := fun y => some y.val) (by simpa [Option.map_eq_bind] using h.table)
        x x.val rfl
  have hxc : ∀ p, (match x.xc with
      | none => s.xcoord
      | some c => store s.xcoord s.l c) p = (ss ++ [x])[p]?.bind Slot.xc := by
    cases hx : x.xc with
    | none =>
      intro p
      show s.xcoord p = _
      rw [h.xcoord]
      rcases Nat.lt_trichotomy p ss.length with hp | rfl | hp
      · rw [List.getElem?_append_left hp]
      · simp [hx, List.getElem?_eq_none (le_refl ss.length)]
      · have h1 : (ss ++ [x]).length ≤ p := by
          simp only [List.length_append, List.length_singleton]; omega
        rw [List.getElem?_eq_none h1, List.getElem?_eq_none hp.le]
    | some c => rw [h.l]; exact store_append_singleton h.xcoord x c hx
  cases hf : x.free
  · simp only [Reader.push, Reader.slot, hf, Bool.false_eq_true, if_false]
    refine ⟨by simp [h.val], by simp [h.l], ?_, htable, hxc, ?_⟩
    · simp [freeSlots_append_singleton, hf, h.k]
    · simp [freeSlots_append_singleton, hf, h.idx]
  · simp only [Reader.push, Reader.slot, hf, if_true]
    refine ⟨by simp [h.val], by simp [h.l], ?_, htable, hxc, ?_⟩
    · simp [freeSlots_append_singleton, hf, h.k]
    · rw [freeSlots_append_singleton, h.k, h.l]
      simpa [hf] using store_append_singleton (f := some) (by simpa using h.idx) ss.length
        ss.length rfl

theorem Refines.pushAll {ss : List Slot} {s : Reader} (h : Refines ss s) :
    ∀ ys : List Slot, Refines (ss ++ ys) (ys.foldl Reader.push s)
  | [] => by simpa using h
  | y :: ys => by simpa using (h.push y).pushAll ys


/-! ## Each read step is a run of pushes -/

/-- The values function `i` reads: its gradient pair when the file has gradients,
then its samples. -/
def need (hg : Bool) (nvals : Int) : Nat := (if hg then 2 else 0) + nvals.toNat

@[simp] theorem need_true (nvals : Int) : need true nvals = 2 + nvals.toNat := rfl

@[simp] theorem need_false (nvals : Int) : need false nvals = nvals.toNat := by simp [need]

/-- The two gradient slots of function `i`, holding `x` and `y`. -/
def gradSlots (g : Globals) (i : Nat) (x y : ℚ) : List Slot :=
  [⟨x, none, (gradFree g i).1⟩, ⟨y, none, (gradFree g i).2⟩]

/-- The sample slots of function `i` from sample `j` on, holding `xs`. -/
def sampleSlots (b : Build) (g : Globals) (r : Role) (i : Nat) (gr : Grid) (j : Nat)
    (xs : List ℚ) : List Slot :=
  (xs.enumFrom j).map fun jx => ⟨jx.2, some (gr.begin + jx.1 * gr.step), sampleFree b g r gr.nvals i jx.1⟩

/-- The slots function `i` fills from `chunk`, the values it reads. -/
def fnSlots (b : Build) (g : Globals) (hg : Bool) (r : Role) (i : Nat) (gr : Grid)
    (chunk : List ℚ) : List Slot :=
  if hg then gradSlots g i (chunk.getD 0 0) (chunk.getD 1 0) ++ sampleSlots b g r i gr 0 (chunk.drop 2)
  else gradSlots g i r.defaults.1 r.defaults.2 ++ sampleSlots b g r i gr 0 chunk

section
variable (b : Build) (ps : PotentialState) (g : Globals)

theorem readGradient_file (r : Role) (i : Nat) (s : Reader) (x y : ℚ) (rest : List ℚ)
    (hg : ps.haveGradient = true) (hs : s.rest = x :: y :: rest) :
    readGradient ps g r i s = .ok ((gradSlots g i x y).foldl Reader.push { s with rest }) := by
  simp only [readGradient, hg, hs, if_true, gradSlots, List.foldl_cons, List.foldl_nil]
  generalize gradFree g i = fp
  obtain ⟨f1, f2⟩ := fp
  cases f1 <;> cases f2 <;> rfl

theorem readGradient_defaults (r : Role) (i : Nat) (s : Reader) (hg : ps.haveGradient = false) :
    readGradient ps g r i s = .ok ((gradSlots g i r.defaults.1 r.defaults.2).foldl Reader.push s) := by
  simp only [readGradient, hg, gradSlots, List.foldl_cons, List.foldl_nil, Bool.false_eq_true,
    if_false]
  generalize gradFree g i = fp
  obtain ⟨f1, f2⟩ := fp
  cases f1 <;> cases f2 <;> rfl

theorem readGradient_short (r : Role) (i : Nat) (s : Reader) (hg : ps.haveGradient = true)
    (hs : s.rest.length < 2) : ∃ s', readGradient ps g r i s = .error (gradError r ps.filename i, s') := by
  match h : s.rest, hs with
  | [], _ => exact ⟨_, by simp only [readGradient, hg, h, if_true]; rfl⟩
  | [x], _ => exact ⟨_, by simp only [readGradient, hg, h, if_true]; rfl⟩

theorem readValue_ok (r : Role) (i : Nat) (gr : Grid) (j : Nat) (s : Reader) (x : ℚ)
    (rest : List ℚ) (hs : s.rest = x :: rest) :
    readValue b ps g r i gr j s =
      .ok ({ s with rest }.push ⟨x, some (gr.begin + j * gr.step), sampleFree b g r gr.nvals i j⟩) := by
  simp only [readValue, hs]
  rfl

theorem readValues_ok (r : Role) (i : Nat) (gr : Grid) (rest : List ℚ) :
    ∀ (xs : List ℚ) (j : Nat) (s : Reader), s.rest = xs ++ rest →
      readValues b ps g r i gr j xs.length s =
        .ok ((sampleSlots b g r i gr j xs).foldl Reader.push { s with rest })
  | [], j, s, hs => by
    simp only [List.nil_append] at hs
    subst hs
    rfl
  | x :: xs, j, s, hs => by
    have ih := readValues_ok r i gr rest xs (j + 1)
      ({ s with rest := xs ++ rest }.push
        ⟨x, some (gr.begin + j * gr.step), sampleFree b g r gr.nvals i j⟩) (Reader.push_rest _ _)
    simp only [List.length_cons, readValues, readValue_ok b ps g r i gr j s x (xs ++ rest) hs,
      bind, Except.bind, ih, sampleSlots, List.enumFrom_cons, List.map_cons, List.foldl_cons,
      Reader.push_withRest]

/-- The values run out at sample `j + m`, with `m` values left at sample `j`. -/
theorem readValues_short (r : Role) (i : Nat) (gr : Grid) :
    ∀ (n j : Nat) (s : Reader), s.rest.length < n →
      ∃ s', readValues b ps g r i gr j n s = .error (valsError r ps.filename i (j + s.rest.length), s')
  | 0, _, _, hs => absurd hs (Nat.not_lt_zero _)
  | n + 1, j, s, hs => by
    match h : s.rest with
    | [] => exact ⟨_, by simp only [readValues, readValue, h, bind, Except.bind]; rfl⟩
    | x :: rest =>
      have hlen : ({ s with rest }.push ⟨x, some (gr.begin + j * gr.step),
          sampleFree b g r gr.nvals i j⟩).rest.length < n := by
        simp only [Reader.push_rest]; rw [h] at hs; simpa using hs
      obtain ⟨s', he⟩ := readValues_short r i gr n (j + 1) _ hlen
      refine ⟨s', ?_⟩
      simp only [readValues, readValue_ok b ps g r i gr j s x rest h, bind, Except.bind, he,
        Reader.push_rest, List.length_cons]
      rw [Nat.add_right_comm, Nat.add_assoc]

theorem readFunction_ok (grids : List Grid) (s : Reader) (r : Role) (i : Nat) (chunk rest : List ℚ)
    (hgauge : gaugeFails b r (grids.getD i default) = false) (hs : s.rest = chunk ++ rest)
    (hc : chunk.length = need ps.haveGradient (grids.getD i default).nvals) :
    readFunction b ps g grids s (r, i) = .ok ((fnSlots b g ps.haveGradient r i (grids.getD i default)
      chunk).foldl Reader.push { s with rest }) := by
  simp only [readFunction, hgauge, Bool.false_eq_true, if_false]
  cases hg : ps.haveGradient
  · have hc' : chunk.length = (grids.getD i default).nvals.toNat := by simpa only [hg, need_false] using hc
    rw [readGradient_defaults ps g r i s hg, ← hc', except_ok_bind, readValues_ok b ps g r i _ rest chunk 0 _
      (by rw [Reader.foldl_push_rest, hs]), Reader.foldl_push_withRest]
    simp [fnSlots, List.foldl_append]
  · obtain ⟨x, y, xs, rfl⟩ : ∃ x y xs, chunk = x :: y :: xs := by
      match chunk, hc with
      | x :: y :: xs, _ => exact ⟨x, y, xs, rfl⟩
      | [], hc | [_], hc => simp only [hg, need_true, List.length_cons, List.length_nil] at hc; omega
    have hc' : xs.length = (grids.getD i default).nvals.toNat := by
      simp only [hg, need_true, List.length_cons] at hc; omega
    rw [readGradient_file ps g r i s x y (xs ++ rest) hg (by simpa using hs), ← hc', except_ok_bind,
      readValues_ok b ps g r i _ rest xs 0 _ (by rw [Reader.foldl_push_rest]),
      Reader.foldl_push_withRest]
    simp [fnSlots, List.foldl_append]

theorem readFunction_gauge (grids : List Grid) (s : Reader) (r : Role) (i : Nat)
    (h : gaugeFails b r (grids.getD i default) = true) :
    readFunction b ps g grids s (r, i) = .error (gaugeError (grids.getD i default), s) := by
  simp only [readFunction]
  rw [if_pos h]
  rfl

/-- The error of a function whose values run out with `m` of them left: the
gradient line when fewer than two remain for a file gradient, and otherwise
the first sample the file lacks. -/
def shortError (hg : Bool) (r : Role) (filename : String) (i m : Nat) : Fatal :=
  if hg && m < 2 then gradError r filename i else valsError r filename i (if hg then m - 2 else m)

theorem readFunction_short (grids : List Grid) (s : Reader) (r : Role) (i : Nat)
    (hgauge : gaugeFails b r (grids.getD i default) = false)
    (hshort : s.rest.length < need ps.haveGradient (grids.getD i default).nvals) :
    ∃ s', readFunction b ps g grids s (r, i) =
      .error (shortError ps.haveGradient r ps.filename i s.rest.length, s') := by
  simp only [readFunction, hgauge, Bool.false_eq_true, if_false]
  generalize grids.getD i default = gr at hshort ⊢
  cases hg : ps.haveGradient
  · rw [readGradient_defaults ps g r i s hg, except_ok_bind]
    have hlen : ((gradSlots g i r.defaults.1 r.defaults.2).foldl Reader.push s).rest.length <
        gr.nvals.toNat := by
      rw [Reader.foldl_push_rest]; simpa only [hg, need_false] using hshort
    obtain ⟨s', he⟩ := readValues_short b ps g r i gr _ 0 _ hlen
    rw [Reader.foldl_push_rest, Nat.zero_add] at he
    exact ⟨s', by rw [he]; rfl⟩
  · match h : s.rest with
    | [] | [_] =>
      obtain ⟨s', he⟩ := readGradient_short ps g r i s hg (by simp [h])
      exact ⟨s', by rw [he]; rfl⟩
    | x :: y :: xs =>
      rw [readGradient_file ps g r i s x y xs hg h, except_ok_bind]
      have hlen : ((gradSlots g i x y).foldl Reader.push { s with rest := xs }).rest.length <
          gr.nvals.toNat := by
        simp only [Reader.foldl_push_rest]
        simp only [h, hg, need_true, List.length_cons] at hshort
        omega
      obtain ⟨s', he⟩ := readValues_short b ps g r i gr _ 0 _ hlen
      rw [Reader.foldl_push_rest, Nat.zero_add] at he
      have hm : shortError true r ps.filename i (x :: y :: xs).length = valsError r ps.filename i xs.length := by
        simp [shortError]
      exact ⟨s', by rw [he, hm]⟩

/-- **One function reads exactly when it can.** The body of a read loop
succeeds for function `i` exactly when the gauge test passes and the file still
holds the values the function reads. -/
theorem readFunction_ok_iff (grids : List Grid) (s : Reader) (r : Role) (i : Nat) :
    (∃ s', readFunction b ps g grids s (r, i) = .ok s') ↔
      gaugeFails b r (grids.getD i default) = false ∧
        need ps.haveGradient (grids.getD i default).nvals ≤ s.rest.length := by
  constructor
  · rintro ⟨s', hs'⟩
    cases hgauge : gaugeFails b r (grids.getD i default)
    · refine ⟨rfl, Nat.not_lt.mp fun hshort => ?_⟩
      obtain ⟨_, he⟩ := readFunction_short b ps g grids s r i hgauge hshort
      rw [he] at hs'
      cases hs'
    · rw [readFunction_gauge b ps g grids s r i hgauge] at hs'
      cases hs'
  · rintro ⟨hgauge, hlen⟩
    exact ⟨_, readFunction_ok b ps g grids s r i (s.rest.take _) (s.rest.drop _) hgauge
      (List.take_append_drop _ _).symm (by rw [List.length_take, Nat.min_eq_left hlen])⟩

end

end Potfit.Table
