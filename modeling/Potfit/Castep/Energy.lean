import Potfit.Castep.Output

/-!
# The cohesive energy

At the blank line, `read_configuration` takes the total energy of the step's
last `E` line, converted to eV by `atomic_energy`, subtracts each element's
chemical potential, as the dictionary of potentials holds it, once per atom of
the element, and divides by the number of atoms:

* `foldlM_processLine_energy`: the local `energy` is the last `E` line's;
* `foldlM_subtractPotential`: the loop over `body` accumulates the
  potentials and the atom count;
* `read_configuration_energy`: the energy of a configuration built from a
  step, in terms of its `E` and `R` lines;
* `read_configuration_no_potential`: a step with an `E` line and an element
  without a potential stops with `fatal`, naming the first such element.
-/

namespace Potfit.Castep

/-- The total energy an `E` line gives, in eV; `none` for any other line. -/
def eEnergy (line : String) : Option ℚ :=
  let splitLine := split (strip line)
  match pyGet splitLine ((splitLine.length : Int) - 1) with
  | .ok "E" => (readEnergy splitLine).toOption
  | _ => none

/-- The `E` lines' energies, in order. -/
def eEnergies (lines : List String) : List ℚ := lines.filterMap eEnergy

theorem eEnergy_of_tag {line tag : String}
    (htag : pyGet (split (strip line)) ((split (strip line)).length - 1 : Int) = .ok tag) :
    eEnergy line = if tag = "E" then (readEnergy (split (strip line))).toOption else none := by
  dsimp only [eEnergy]
  rw [htag]
  split
  · rename_i heq
    cases heq
    exact (if_pos rfl).symm
  · rename_i h
    refine (if_neg fun ht => ?_).symm
    subst ht
    exact h rfl

theorem processLine_energy {st st' : Reading} {line : String}
    (h : processLine st (strip line) = .ok st') : st'.energy = (eEnergy line).or st.energy := by
  simp only [processLine, except_bind_eq_ok] at h
  obtain ⟨tag, htag, h⟩ := h
  rw [eEnergy_of_tag htag]
  rcases processTag_cases h with ⟨rfl, _, _, rfl⟩ | ⟨rfl, e, he, rfl⟩ | ⟨rfl, _, _, rfl⟩ |
    ⟨rfl, _, _, _, _, rfl⟩ | ⟨rfl, _, _, _, _, rfl⟩ | ⟨-, hE, -, -, -, rfl⟩
  · simp
  · simp [he, Except.toOption]
  · simp
  · simp
  · simp
  · simp [hE]

/-- **The local `energy`** after a run of lines is the last `E` line's, if any. -/
theorem foldlM_processLine_energy :
    ∀ (lines : List String) {st st' : Reading},
      lines.foldlM (fun st line => processLine st (strip line)) st = .ok st' →
      st'.energy = (eEnergies lines).getLast?.or st.energy
  | [], _, _, h => by
    simp only [List.foldlM_nil, except_pure_eq_ok] at h
    subst h
    rfl
  | line :: lines, st, _, h => by
    simp only [List.foldlM_cons, except_bind_eq_ok] at h
    obtain ⟨st1, h1, h⟩ := h
    rw [foldlM_processLine_energy lines h, processLine_energy h1]
    simp only [eEnergies, List.filterMap_cons]
    cases eEnergy line with
    | none => rfl
    | some x =>
      simp only [List.getLast?_cons]
      cases (lines.filterMap eEnergy).getLast? <;> rfl

/-- **The loop over `body`.** It fails unless every element has a potential,
and then subtracts each element's potential once per atom and counts the
atoms. -/
theorem foldlM_subtractPotential {potentials : List (String × ℚ)} :
    ∀ (body : List (String × List Atom)) (acc res : ℚ × Nat),
      body.foldlM (subtractPotential potentials) acc = .ok res →
      (∀ p ∈ body, (potentials.lookup p.1).isSome) ∧
        res = (acc.1 - (body.map fun p => (potentials.lookup p.1).getD 0 * p.2.length).sum,
          acc.2 + (body.map fun p => p.2.length).sum)
  | [], acc, res, h => by
    simp only [List.foldlM_nil, except_pure_eq_ok] at h
    subst h
    simp
  | p :: body, acc, res, h => by
    simp only [List.foldlM_cons, except_bind_eq_ok] at h
    obtain ⟨acc1, h1, h⟩ := h
    unfold subtractPotential at h1
    cases hmu : potentials.lookup p.1 with
    | none => simp [hmu, throw, throwThe, MonadExceptOf.throw] at h1
    | some mu =>
      simp only [hmu, except_pure_eq_ok] at h1
      subst h1
      obtain ⟨hall, rfl⟩ := foldlM_subtractPotential body _ res h
      refine ⟨?_, ?_⟩
      · exact List.forall_mem_cons.2 ⟨by simp [hmu], hall⟩
      · simp only [List.map_cons, List.sum_cons, hmu, Option.getD_some, Prod.mk.injEq]
        constructor
        · ring
        · omega

theorem finishEnergy_energy {potentials : List (String × ℚ)} {c c' : Configuration}
    {energy : Option ℚ} (h : finishEnergy potentials c energy = .ok c') :
    c'.energy = energy.map fun e =>
      (e - (c.body.map fun p => (potentials.lookup p.1).getD 0 * p.2.length).sum) /
        (c.body.map fun p => p.2.length).sum := by
  unfold finishEnergy at h
  cases energy with
  | none =>
    rw [except_pure_eq_ok] at h
    subst h
    rfl
  | some e =>
    simp only [except_bind_eq_ok] at h
    obtain ⟨⟨e', n⟩, hfold, h⟩ := h
    obtain ⟨-, hres⟩ := foldlM_subtractPotential c.body (e, 0) (e', n) hfold
    simp only [Prod.mk.injEq, Nat.zero_add] at hres
    obtain ⟨rfl, rfl⟩ := hres
    by_cases hn : (c.body.map fun p => p.2.length).sum = 0
    · simp [hn, throw, throwThe, MonadExceptOf.throw] at h
    · simp only [hn, if_false, except_pure_eq_ok] at h
      subst h
      rfl

theorem finishEnergy_defined {potentials : List (String × ℚ)} {c c' : Configuration} {e : ℚ}
    (h : finishEnergy potentials c (some e) = .ok c') :
    (∀ p ∈ c.body, (potentials.lookup p.1).isSome) ∧ (c.body.map fun p => p.2.length).sum ≠ 0 := by
  simp only [finishEnergy, except_bind_eq_ok] at h
  obtain ⟨⟨e', n⟩, hfold, h⟩ := h
  obtain ⟨hall, hres⟩ := foldlM_subtractPotential c.body (e, 0) (e', n) hfold
  simp only [Prod.mk.injEq, Nat.zero_add] at hres
  obtain ⟨-, rfl⟩ := hres
  refine ⟨hall, fun hn => ?_⟩
  simp [hn, throw, throwThe, MonadExceptOf.throw] at h

section
variable {c : Configuration} {rs : List (String × ℚ × ℚ × ℚ)}

/-- Each element's group in `body` has as many atoms as the element has `R` lines. -/
theorem Grouped.sizes (hg : Grouped c rs) :
    c.body.map (fun p => (p.1, p.2.length)) =
      (elements rs).map fun e => (e, (rs.filter (·.1 == e)).length) := by
  have := congrArg (List.map fun g => (g.1, g.2.length)) hg.body
  simp only [shape, groups, List.map_map, Function.comp_def, List.length_map] at this
  rw [this]
  conv_rhs => rw [← List.enum_map_snd (elements rs), List.map_map]
  rfl

theorem Grouped.sum_map (hg : Grouped c rs) (f : String → Nat → ℚ) :
    (c.body.map fun p => f p.1 p.2.length).sum =
      ((elements rs).map fun e => f e (rs.filter (·.1 == e)).length).sum := by
  have := congrArg (fun l => (l.map fun q => f q.1 q.2).sum) hg.sizes
  simpa only [List.map_map, Function.comp_def] using this

end

/-- **The energy of a step.** The configuration built from a step has no
energy when the step has no `E` line. Otherwise the step has an `R` line and
a potential for each element, and the energy is the last `E` line's energy
less each element's potential once per `R` line of the element, divided by
the number of `R` lines. -/
theorem read_configuration_energy {potentials : List (String × ℚ)} {lines : List String}
    {c : Configuration} (h : buildConfiguration potentials lines = .ok c) :
    c.energy = (eEnergies lines).getLast?.map (fun E =>
      (E - ((elements (rAtoms lines)).map fun e =>
        (potentials.lookup e).getD 0 * ((rAtoms lines).filter (·.1 == e)).length).sum) /
        (rAtoms lines).length) ∧
    ((eEnergies lines).getLast?.isSome →
      rAtoms lines ≠ [] ∧ ∀ e ∈ elements (rAtoms lines), (potentials.lookup e).isSome) := by
  simp only [buildConfiguration, except_bind_eq_ok] at h
  obtain ⟨st, hst, hc⟩ := h
  have hg : Grouped st.config (rAtoms lines) := by
    simpa using @foldlM_processLine_grouped lines Reading.init st [] ⟨rfl, rfl⟩ hst
  have hE : st.energy = (eEnergies lines).getLast? := by
    rw [foldlM_processLine_energy lines hst]
    exact Option.or_none
  refine ⟨?_, fun hsome => ?_⟩
  · rw [finishEnergy_energy hc, hE, hg.count, hg.sum_map fun e n => (potentials.lookup e).getD 0 * n]
  · obtain ⟨E, hE'⟩ := Option.isSome_iff_exists.mp hsome
    rw [hE, hE'] at hc
    obtain ⟨hall, hn⟩ := finishEnergy_defined hc
    refine ⟨fun hnil => hn (by rw [hg.count, hnil, List.length_nil]), fun e he => ?_⟩
    rw [← hg.body_keys, List.mem_map] at he
    obtain ⟨p, hp, rfl⟩ := he
    exact hall p hp

theorem read_configuration_energy_argon :
    ∃ c, buildConfiguration [("Ar", 0.01)] ["1 0 0 E", "Ar 1 0 0 0 R"] = .ok c ∧
      rAtoms ["1 0 0 E", "Ar 1 0 0 0 R"] ≠ [] :=
  ⟨_, rfl, ((@read_configuration_energy [("Ar", 0.01)] ["1 0 0 E", "Ar 1 0 0 0 R"] _ rfl).2 rfl).1⟩

/-- The potentials are subtracted from the energy after its conversion to eV:
with `mu = 0.01` for argon and one argon atom, a total energy of one hartree
gives `27.211386245988 - 0.01` eV per atom, not
`27.211386245988 * (1 - 0.01)`. -/
theorem read_configuration_energy_units :
    ∃ c, buildConfiguration [("Ar", 0.01)] ["1 0 0 E", "Ar 1 0 0 0 R"] = .ok c ∧
      c.energy = some (27.211386245988 - 0.01) ∧
      c.energy ≠ some (27.211386245988 * (1 - 0.01 * 1) / 1) := by
  refine ⟨_, rfl, ?_, ?_⟩
  · show some ((scale 1 0 * 27.211386245988 - 0.01 * ((1 : ℕ) : ℚ)) / ((1 : ℕ) : ℚ)) = _
    norm_num [scale]
  · show some ((scale 1 0 * 27.211386245988 - 0.01 * ((1 : ℕ) : ℚ)) / ((1 : ℕ) : ℚ)) ≠ _
    norm_num [scale]

/-- The loop over `body` stops at the first element without a potential. -/
theorem foldlM_subtractPotential_error {potentials : List (String × ℚ)} {e : String} :
    ∀ (body : List (String × List Atom)) (acc : ℚ × Nat),
      (body.map Prod.fst).find? (fun e => (potentials.lookup e).isNone) = some e →
      body.foldlM (subtractPotential potentials) acc = .error (fatal (noPotentialMessage e))
  | [], _, h => nomatch h
  | p :: body, acc, h => by
    rw [List.map_cons, List.find?_cons] at h
    rw [List.foldlM_cons]
    unfold subtractPotential
    cases hmu : potentials.lookup p.1 with
    | none =>
      simp only [hmu, Option.isNone_none, Option.some.injEq] at h
      rw [h]
      rfl
    | some mu =>
      simp only [hmu, Option.isNone_some] at h
      exact foldlM_subtractPotential_error body _ h

/-- **A missing potential.** For every step that `read_configuration` can read
(with some potentials) and that has an `E` line, with potentials that miss an
element of its `R` lines, `read_configuration` stops with `fatal` naming the
first such element in order of first appearance. -/
theorem read_configuration_no_potential {potentials potentials' : List (String × ℚ)}
    {lines : List String} {c' : Configuration} (h : buildConfiguration potentials' lines = .ok c')
    (hE : eEnergies lines ≠ []) {e : String}
    (he : (elements (rAtoms lines)).find? (fun e => (potentials.lookup e).isNone) = some e) :
    buildConfiguration potentials lines = .error (fatal (noPotentialMessage e)) := by
  simp only [buildConfiguration, except_bind_eq_ok] at h
  obtain ⟨st, hst, -⟩ := h
  have hg : Grouped st.config (rAtoms lines) := by
    simpa using @foldlM_processLine_grouped lines Reading.init st [] ⟨rfl, rfl⟩ hst
  obtain ⟨E, hlast⟩ := Option.ne_none_iff_exists'.mp (mt List.getLast?_eq_none_iff.mp hE)
  have hen : st.energy = some E := by
    rw [foldlM_processLine_energy lines hst, hlast]
    rfl
  rw [buildConfiguration, hst, except_ok_bind, hen, finishEnergy,
    foldlM_subtractPotential_error st.config.body _ (hg.body_keys ▸ he)]
  rfl

/-- Argon and silicon atoms, and a potential for argon alone. -/
theorem read_configuration_no_potential_silicon :
    buildConfiguration [("Ar", 0.01)] ["1 0 0 E", "Ar 1 0 0 0 R", "Si 1 0 0 0 R"] =
      .error (fatal (noPotentialMessage "Si")) :=
  @read_configuration_no_potential [("Ar", 0.01)] [("Ar", 0.01), ("Si", 0.02)]
    ["1 0 0 E", "Ar 1 0 0 0 R", "Si 1 0 0 0 R"] _ (by rfl) (by decide) "Si" (by decide)

end Potfit.Castep
