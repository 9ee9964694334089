import Potfit.Table.Run

/-!
# Where a read stops

`read_pot_table3` runs its read loops in order and stops at the first function
that fails: the F loop's gauge test, or a premature end of the file. When none
fails, it stops after the last value the loops read.

* `foldlM_readFunction_error`: the loops stop with the error of the first
  function that fails, the functions before it read in full;
* `read_pot_table3_first_error`: so on a well-formed header the error is the
  gauge error of that function's grid, or the premature end at the first value
  the file lacks, naming the function and, for a sample, its line;
* `read_pot_table3_short_info`: a file that ends within the info block stops
  at the first info line it lacks;
* `readFunction_append`, `foldlM_readFunction_append`: values after the ones a
  run reads stay unread;
* `read_pot_table3_extra_values`: so they change nothing in a table read.
-/

namespace Potfit.Table

section
variable (b : Build) (ps : PotentialState) (g : Globals) (grids : List Grid)

/-- One function of a read loop fails: with the gauge error of its grid, or
with the premature end at the first value it lacks. -/
theorem readFunction_error (s : Reader) (r : Role) (i : Nat)
    (hfail : gaugeFails b r (grids.getD i default) = true ∨
      s.rest.length < need ps.haveGradient (grids.getD i default).nvals) :
    ∃ s', readFunction b ps g grids s (r, i) =
      .error (if gaugeFails b r (grids.getD i default) then gaugeError (grids.getD i default)
        else shortError ps.haveGradient r ps.filename i s.rest.length, s') := by
  cases hgauge : gaugeFails b r (grids.getD i default)
  · rw [if_neg Bool.false_ne_true]
    exact readFunction_short b ps g grids s r i hgauge (hfail.resolve_left (by rw [hgauge]; exact Bool.false_ne_true))
  · exact ⟨s, by rw [readFunction_gauge b ps g grids s r i hgauge]; rfl⟩

/-- **The loops stop at the first function that fails**, after reading the
functions before it in full. -/
theorem foldlM_readFunction_error (L₁ L₂ : List (Role × Nat)) (r : Role) (i : Nat) {ss : List Slot}
    {s : Reader} (hr : Refines ss s)
    (hgauge : ∀ ri ∈ L₁, gaugeFails b ri.1 (grids.getD ri.2 default) = false)
    (hlen : (needs ps.haveGradient grids L₁).sum ≤ s.rest.length)
    (hfail : gaugeFails b r (grids.getD i default) = true ∨
      s.rest.length < (needs ps.haveGradient grids L₁).sum +
        need ps.haveGradient (grids.getD i default).nvals) :
    ∃ s', (L₁ ++ (r, i) :: L₂).foldlM (readFunction b ps g grids) s =
      .error (if gaugeFails b r (grids.getD i default) then gaugeError (grids.getD i default)
        else shortError ps.haveGradient r ps.filename i
          (s.rest.length - (needs ps.haveGradient grids L₁).sum), s') := by
  obtain ⟨s₁, hs₁, -, hrest⟩ := foldlM_readFunction_ok b ps g grids L₁ ss s hr hgauge hlen
  have hlen₁ : s₁.rest.length = s.rest.length - (needs ps.haveGradient grids L₁).sum := by
    rw [hrest, List.length_drop]
  obtain ⟨s', he⟩ := readFunction_error b ps g grids s₁ r i
    (hfail.imp_right fun h => by rw [hlen₁]; omega)
  refine ⟨s', ?_⟩
  rw [List.foldlM_append, hs₁, except_ok_bind, List.foldlM_cons, he, ← hlen₁]
  rfl

end

/-- **Which error `read_pot_table3` stops with.** On a well-formed header, let
the functions before `(r, i)` in the read order pass the gauge test and find
their values in the file, and let function `i` fail. Then the error is the
gauge error of its grid when its gauge test fails, and otherwise the premature
end at the first value the file lacks, with `m` values left for the function:
at the gradient line when fewer than two remain for file gradients, and else at
sample `m`, or `m - 2` after file gradients. -/
theorem read_pot_table3_first_error {b : Build} {ps : PotentialState} {g : Globals}
    {info : List InfoLine} (fn : String) (vals : List ℚ) (hw : Wellformed b ps g info)
    (L₁ L₂ : List (Role × Nat)) (r : Role) (i : Nat)
    (hsched : schedule b.interaction g.paircol g.ntypes = L₁ ++ (r, i) :: L₂)
    (hgauge : ∀ ri ∈ L₁, gaugeFails b ri.1 ((layout 0 info).getD ri.2 default) = false)
    (hlen : (needs ps.haveGradient (layout 0 info) L₁).sum ≤ vals.length)
    (hfail : gaugeFails b r ((layout 0 info).getD i default) = true ∨
      vals.length < (needs ps.haveGradient (layout 0 info) L₁).sum +
        need ps.haveGradient ((layout 0 info).getD i default).nvals) :
    readPotTable3 b fn ps g info vals =
      .error (if gaugeFails b r ((layout 0 info).getD i default) then
          gaugeError ((layout 0 info).getD i default)
        else shortError ps.haveGradient r ps.filename i
          (vals.length - (needs ps.haveGradient (layout 0 info) L₁).sum)) := by
  obtain ⟨s', he⟩ := foldlM_readFunction_error b ps g (layout 0 info) L₁ L₂ r i (refines_init vals)
    hgauge hlen hfail
  rw [readPotTable3_eq fn vals hw, readTable, hsched, he]
  rfl

/-- An EAM header of one element whose file holds five values: the pair
function reads its three, and the density stops at its line 2. -/
theorem read_pot_table3_first_error_eam :
    readPotTable3 ⟨.tab, .eam, false, false⟩ "pot" ⟨"pot", 3, false⟩ ⟨1, 1, fun _ => 0, fun _ => 0⟩
      [⟨0, 2, 3⟩, ⟨0, 2, 4⟩, ⟨0, 2, 3⟩] [1, 2, 3, 4, 5] = .error (valsError .rho "pot" 1 2) :=
  (@read_pot_table3_first_error ⟨.tab, .eam, false, false⟩ ⟨"pot", 3, false⟩
    ⟨1, 1, fun _ => 0, fun _ => 0⟩ [⟨0, 2, 3⟩, ⟨0, 2, 4⟩, ⟨0, 2, 3⟩] "pot" [1, 2, 3, 4, 5]
    ⟨rfl, rfl, rfl, by decide, by decide⟩ [(.pair, 0)] [(.embed, 2)] .rho 1 rfl (by decide) (by decide)
    (.inr (by decide))).trans rfl

/-- The info-block loop runs out of lines at the first one the block lacks. -/
theorem infoLoop_short (filename : String) :
    ∀ (info : List InfoLine) (i n : Nat) (last len : Int), info.length < n →
      infoLoop filename i n last len info = .error (infoError filename (i + info.length))
  | [], i, n + 1, _, _, _ => rfl
  | ln :: lns, i, n + 1, last, _, h => by
    rw [infoLoop, infoLoop_short filename lns (i + 1) n _ _ (by simp only [List.length_cons] at h; omega)]
    simp only [List.length_cons, ← Nat.add_assoc, Nat.add_right_comm i 1]
    rfl

/-- **A file that ends within the info block.** In the `tab` build, when the
file holds fewer info lines than `num_pots`, `read_pot_table3` stops with the
premature end of the info block at the first line it lacks. -/
theorem read_pot_table3_short_info {b : Build} {ps : PotentialState} {info : List InfoLine} (fn : String)
    (g : Globals) (htab : b.model = .tab) (hshort : info.length < ps.numPots) :
    readPotTable3 b fn ps g info [] = .error (infoError ps.filename info.length) := by
  simp only [readPotTable3, htab, readInfo, infoLoop_short ps.filename info 0 ps.numPots 0 0 hshort,
    Nat.zero_add]
  rfl

/-- A header of two pair functions with one info line. -/
theorem read_pot_table3_short_info_pair :
    readPotTable3 ⟨.tab, .pair, false, false⟩ "pot" ⟨"pot", 2, false⟩
      ⟨2, 1, fun _ => 0, fun _ => 0⟩ [⟨0, 1, 3⟩] [] = .error (infoError "pot" 1) :=
  read_pot_table3_short_info "pot" ⟨2, 1, fun _ => 0, fun _ => 0⟩ rfl (by decide)

section
variable (b : Build) (ps : PotentialState) (g : Globals) (grids : List Grid) (extra : List ℚ)

/-- **One function reads only its own values**: with more values after them,
it reads the same and leaves the others unread. -/
theorem readFunction_append {s s' : Reader} (ri : Role × Nat) (h : readFunction b ps g grids s ri = .ok s') :
    readFunction b ps g grids { s with rest := s.rest ++ extra } ri = .ok { s' with rest := s'.rest ++ extra } := by
  obtain ⟨r, i⟩ := ri
  obtain ⟨hgauge, hlen⟩ := (readFunction_ok_iff b ps g grids s r i).mp ⟨s', h⟩
  set n := need ps.haveGradient (grids.getD i default).nvals
  have hn : (s.rest.take n).length = n := by rw [List.length_take, Nat.min_eq_left hlen]
  rw [readFunction_ok b ps g grids s r i _ _ hgauge (List.take_append_drop n s.rest).symm hn] at h
  cases h
  rw [readFunction_ok b ps g grids _ r i (s.rest.take n) (s.rest.drop n ++ extra) hgauge
      (by rw [← List.append_assoc, List.take_append_drop]) hn,
    Reader.foldl_push_rest, Reader.foldl_push_withRest]

theorem foldlM_readFunction_append :
    ∀ (L : List (Role × Nat)) {s s' : Reader}, L.foldlM (readFunction b ps g grids) s = .ok s' →
      L.foldlM (readFunction b ps g grids) { s with rest := s.rest ++ extra } =
        .ok { s' with rest := s'.rest ++ extra }
  | [], s, s', h => by
    simp only [List.foldlM_nil, except_pure_eq_ok] at h
    subst h
    rfl
  | ri :: L, s, s', h => by
    simp only [List.foldlM_cons, except_bind_eq_ok] at h
    obtain ⟨s₁, h₁, h⟩ := h
    rw [List.foldlM_cons, readFunction_append b ps g grids extra ri h₁, except_ok_bind]
    exact foldlM_readFunction_append L h

end

/-- **`read_pot_table3` reads no value it does not need.** For every header
and value stream on which it returns a table, any values appended to the
stream leave the table as it was. -/
theorem read_pot_table3_extra_values {b : Build} {fn : String} {ps : PotentialState} {g : Globals}
    {info : List InfoLine} {vals : List ℚ} (extra : List ℚ) {t : PotTable}
    (h : readPotTable3 b fn ps g info vals = .ok t) : readPotTable3 b fn ps g info (vals ++ extra) = .ok t := by
  cases hm : b.model with
  | apot | kim => simp only [readPotTable3, hm] at h; cases h
  | tab =>
    simp only [readPotTable3, hm, except_bind_eq_ok] at h ⊢
    obtain ⟨⟨grids, len⟩, hinfo, h⟩ := h
    refine ⟨(grids, len), hinfo, ?_⟩
    dsimp only at h ⊢
    split at h
    · cases h
    · rename_i s hs
      have hs' : readTable b ps g grids (((info.drop ps.numPots).flatMap fun ln =>
          [ln.begin, ln.«end», (ln.nvals : ℚ)]) ++ vals ++ extra) = .ok { s with rest := s.rest ++ extra } :=
        foldlM_readFunction_append b ps g grids extra _ hs
      rw [← List.append_assoc, hs']
      exact h

/-- A pair function of two samples: a third value after them is not read. -/
theorem read_pot_table3_extra_values_pair :
    ∃ t, readPotTable3 ⟨.tab, .pair, false, false⟩ "pot" ⟨"pot", 1, false⟩
        ⟨1, 1, fun _ => 0, fun _ => 0⟩ [⟨0, 1, 2⟩] [5, 6] = .ok t ∧
      readPotTable3 ⟨.tab, .pair, false, false⟩ "pot" ⟨"pot", 1, false⟩
        ⟨1, 1, fun _ => 0, fun _ => 0⟩ [⟨0, 1, 2⟩] ([5, 6] ++ [7]) = .ok t :=
  ⟨_, rfl, read_pot_table3_extra_values [7] rfl⟩

end Potfit.Table
