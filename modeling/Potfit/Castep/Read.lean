import Potfit.Castep.Config

/-!
# Reading an `.md` file

`read_configuration` walks the lines of one md step until a blank line,
dispatching on the last token of each line: `S` a stress row, `E` the energy,
`h` a cell vector, `R` an atom's position, `F` an atom's forces. At the blank
line it turns the total energy into the cohesive energy per atom;
`read_md_file` calls it until the file ends.

The file is the list of its lines; the loop body is `processLine`, so a step
read on its own is `buildConfiguration`. The dictionary of chemical
potentials is the list of its items.
-/

namespace Potfit.Castep

/-- `atomic_length`, bohr to Å. -/
def atomicLength (bohr : String) : Except PyError ℚ := (· * 0.529177210903) <$> pyFloat bohr

/-- `atomic_energy`, hartree to eV. -/
def atomicEnergy (hartree : String) : Except PyError ℚ := (· * 27.211386245988) <$> pyFloat hartree

/-- `atomic_force`, hartree/bohr to eV/Å. -/
def atomicForce (force : String) : Except PyError ℚ := (· * 51.421) <$> pyFloat force

/-- `atomic_stress`, hartree/bohr³ to eV/Å³. -/
def atomicStress (stress : String) : Except PyError ℚ := (· * 183.63153644969503) <$> pyFloat stress

/-- The state of the line loop: the configuration and the local `energy`. -/
structure Reading where
  config : Configuration
  energy : Option ℚ
  deriving DecidableEq, Repr

def Reading.init : Reading := ⟨Configuration.init, none⟩

/-- The fields of an `R` line: the element and the position. The atom
number is parsed and not used. -/
def readPosition (splitLine : List String) : Except PyError (String × ℚ × ℚ × ℚ) := do
  let elementType ← pyGet splitLine 0
  let _atomNumber ← pyInt (← pyGet splitLine 1)
  let x ← atomicLength (← pyGet splitLine 2)
  let y ← atomicLength (← pyGet splitLine 3)
  let z ← atomicLength (← pyGet splitLine 4)
  pure (elementType, x, y, z)

/-- The rest of the `R` branch: a new atom of type
`types_of_element[element_type]` at the position read, appended to its
element's list in `body`; an element not seen before is first added to both
dictionaries. -/
def addAtom (c : Configuration) (r : String × ℚ × ℚ × ℚ) : Except PyError Configuration := do
  let (elementType, x, y, z) := r
  let c := if (c.typesOfElement.map Prod.fst).contains elementType then c
    else { c with typesOfElement := odSet c.typesOfElement elementType c.typesOfElement.length,
                  body := odSet c.body elementType [] }
  let elementTypeInt ← odGet c.typesOfElement elementType
  let atoms ← odGet c.body elementType
  pure { c with body := odSet c.body elementType (atoms ++ [⟨elementTypeInt, x, y, z, none⟩]) }

/-- The fields of an `F` line: the element, the atom number and the forces. -/
def readForce (splitLine : List String) : Except PyError (String × Int × ℚ × ℚ × ℚ) := do
  let elementType ← pyGet splitLine 0
  let atomNumber ← pyInt (← pyGet splitLine 1)
  let fx ← atomicForce (← pyGet splitLine 2)
  let fy ← atomicForce (← pyGet splitLine 3)
  let fz ← atomicForce (← pyGet splitLine 4)
  pure (elementType, atomNumber, fx, fy, fz)

/-- The rest of the `F` branch: the forces go to
`body[element_type][atom_number - 1]`, a Python index. -/
def setForces (c : Configuration) (f : String × Int × ℚ × ℚ × ℚ) : Except PyError Configuration := do
  let (elementType, atomNumber, fx, fy, fz) := f
  let atomIndex := atomNumber - 1
  let atoms ← odGet c.body elementType
  match pyIndex atoms.length atomIndex with
  | none => throw .indexError
  | some n =>
    let atoms := atoms.modify (fun a => { a with forces := some (fx, fy, fz) }) n
    pure { c with body := odSet c.body elementType atoms }

/-- The fields of an `S` line: a row of the stress tensor. -/
def readStress (splitLine : List String) : Except PyError (ℚ × ℚ × ℚ) := do
  let x ← atomicStress (← pyGet splitLine 0)
  let y ← atomicStress (← pyGet splitLine 1)
  let z ← atomicStress (← pyGet splitLine 2)
  pure (x, y, z)

/-- The field of an `E` line: the total energy. -/
def readEnergy (splitLine : List String) : Except PyError ℚ := do
  atomicEnergy (← pyGet splitLine 0)

/-- The fields of an `h` line: a cell vector. -/
def readBox (splitLine : List String) : Except PyError Box := do
  let x ← atomicLength (← pyGet splitLine 0)
  let y ← atomicLength (← pyGet splitLine 1)
  let z ← atomicLength (← pyGet splitLine 2)
  pure ⟨x, y, z⟩

/-- The branches of the loop body, for a line whose last token is `tag`. -/
def processTag (st : Reading) (tag : String) (splitLine : List String) : Except PyError Reading := do
  let st ← if tag = "S" then do
      let row ← readStress splitLine
      pure { st with config := { st.config with stress := st.config.stress ++ [row] } }
    else pure st
  let st ← if tag = "E" then do
      let e ← readEnergy splitLine
      pure { st with energy := some e }
    else pure st
  let st ← if tag = "h" then do
      let b ← readBox splitLine
      pure { st with config := { st.config with boxes := st.config.boxes ++ [b] } }
    else pure st
  let st ← if tag = "R" then do
      let c ← addAtom st.config (← readPosition splitLine)
      pure { st with config := c }
    else pure st
  if tag = "F" then do
    let c ← setForces st.config (← readForce splitLine)
    pure { st with config := c }
  else pure st

/-- **What one line does.** A line's branch either fails or, by its tag: adds a
stress row, sets the energy, adds a cell vector, adds an atom, sets an atom's
forces, or leaves the state alone. -/
theorem processTag_cases {st st' : Reading} {tag : String} {splitLine : List String}
    (h : processTag st tag splitLine = .ok st') :
    (tag = "S" ∧ ∃ row, readStress splitLine = .ok row ∧
      st' = { st with config := { st.config with stress := st.config.stress ++ [row] } }) ∨
    (tag = "E" ∧ ∃ e, readEnergy splitLine = .ok e ∧ st' = { st with energy := some e }) ∨
    (tag = "h" ∧ ∃ b, readBox splitLine = .ok b ∧
      st' = { st with config := { st.config with boxes := st.config.boxes ++ [b] } }) ∨
    (tag = "R" ∧ ∃ r c, readPosition splitLine = .ok r ∧ addAtom st.config r = .ok c ∧
      st' = { st with config := c }) ∨
    (tag = "F" ∧ ∃ f c, readForce splitLine = .ok f ∧ setForces st.config f = .ok c ∧
      st' = { st with config := c }) ∨
    (tag ≠ "S" ∧ tag ≠ "E" ∧ tag ≠ "h" ∧ tag ≠ "R" ∧ tag ≠ "F" ∧ st' = st) := by
  unfold processTag at h
  by_cases hS : tag = "S"
  · subst hS
    simp [except_bind_eq_ok, except_map_eq_ok, -Prod.exists] at h
    obtain ⟨row, hrow, rfl⟩ := h
    exact .inl ⟨rfl, row, hrow, rfl⟩
  by_cases hE : tag = "E"
  · subst hE
    simp [except_bind_eq_ok, except_map_eq_ok, -Prod.exists] at h
    obtain ⟨e, he, rfl⟩ := h
    exact .inr (.inl ⟨rfl, e, he, rfl⟩)
  by_cases hh : tag = "h"
  · subst hh
    simp [except_bind_eq_ok, except_map_eq_ok, -Prod.exists] at h
    obtain ⟨b, hb, rfl⟩ := h
    exact .inr (.inr (.inl ⟨rfl, b, hb, rfl⟩))
  by_cases hR : tag = "R"
  · subst hR
    simp [except_bind_eq_ok, except_map_eq_ok, -Prod.exists] at h
    obtain ⟨r, hr, c, hc, rfl⟩ := h
    exact .inr (.inr (.inr (.inl ⟨rfl, r, c, hr, hc, rfl⟩)))
  by_cases hF : tag = "F"
  · subst hF
    simp [except_bind_eq_ok, except_map_eq_ok, -Prod.exists] at h
    obtain ⟨f, hf, c, hc, rfl⟩ := h
    exact .inr (.inr (.inr (.inr (.inl ⟨rfl, f, c, hf, hc, rfl⟩))))
  simp [hS, hE, hh, hR, hF] at h
  exact .inr (.inr (.inr (.inr (.inr ⟨hS, hE, hh, hR, hF, h.symm⟩))))

/-- The loop body for a line that is neither blank nor `BEGIN header`,
given stripped. -/
def processLine (st : Reading) (strippedLine : String) : Except PyError Reading := do
  let splitLine := split strippedLine
  let tag ← pyGet splitLine ((splitLine.length : Int) - 1)
  processTag st tag splitLine

def noPotentialMessage (element : String) : String :=
  "Element " ++ String.singleton (Char.ofNat 39) ++ element ++ String.singleton (Char.ofNat 39) ++
    " in MD file, but no chemical potential given"

/-- One pass of the loop over `body`: subtract the element's chemical
potential once per atom, and count the atoms. -/
def subtractPotential (potentials : List (String × ℚ)) (acc : ℚ × Nat) (item : String × List Atom) :
    Except PyError (ℚ × Nat) :=
  match potentials.lookup item.1 with
  | none => throw (fatal (noPotentialMessage item.1))
  | some mu => pure (acc.1 - mu * item.2.length, acc.2 + item.2.length)

/-- After the blank line: the total energy, less each element's chemical
potential times its number of atoms, per atom. -/
def finishEnergy (potentials : List (String × ℚ)) (c : Configuration) (energy : Option ℚ) :
    Except PyError Configuration :=
  match energy with
  | none => pure { c with energy := none }
  | some e => do
    let (e, numberOfAtoms) ← c.body.foldlM (subtractPotential potentials) (e, 0)
    if numberOfAtoms = 0 then throw .zeroDivisionError
    else pure { c with energy := some (e / numberOfAtoms) }

/-- `read_configuration` from a state of its loop: the configuration read and
the lines left, or `none` at the end of the file. After `BEGIN header` it skips
four lines, or as many as are left. -/
def readConfiguration (potentials : List (String × ℚ)) (st : Reading) (lines : List String) :
    Except PyError (Option Configuration × List String) :=
  match lines with
  | [] => pure (none, [])
  | line :: rest =>
    if strip line = "BEGIN header" then readConfiguration potentials st (rest.drop 4)
    else if strip line = "" then do
      let c ← finishEnergy potentials st.config st.energy
      pure (some c, rest)
    else do
      let st ← processLine st (strip line)
      readConfiguration potentials st rest
termination_by lines.length
decreasing_by all_goals simp only [List.length_drop, List.length_cons]; omega

/-- The configuration `read_configuration` builds from the lines of one step. -/
def buildConfiguration (potentials : List (String × ℚ)) (lines : List String) :
    Except PyError Configuration := do
  let st ← lines.foldlM (fun st line => processLine st (strip line)) Reading.init
  finishEnergy potentials st.config st.energy

/-- A configuration read leaves fewer lines than there were. -/
theorem readConfiguration_rest_lt {potentials : List (String × ℚ)} {st : Reading} {lines rest : List String}
    {c : Configuration} (h : readConfiguration potentials st lines = .ok (some c, rest)) :
    rest.length < lines.length := by
  induction st, lines using readConfiguration.induct potentials with
  | case1 => simp [readConfiguration, pure, Except.pure] at h
  | case2 st line lines hh ih =>
    rw [readConfiguration, if_pos hh] at h
    have := ih h
    simp only [List.length_drop, List.length_cons] at this ⊢
    omega
  | case3 st line lines hh hb =>
    rw [readConfiguration, if_neg hh, if_pos hb, except_bind_eq_ok] at h
    obtain ⟨_, -, h⟩ := h
    simp only [except_pure_eq_ok, Prod.mk.injEq] at h
    rw [← h.2, List.length_cons]
    omega
  | case4 st line lines hh hb ih =>
    rw [readConfiguration, if_neg hh, if_neg hb, except_bind_eq_ok] at h
    obtain ⟨st1, -, h⟩ := h
    have := ih st1 h
    rw [List.length_cons]
    omega

/-- `read_md_file` on the lines of a file: the configurations
`read_configuration` returns until it returns `None`. -/
def readMdFile (potentials : List (String × ℚ)) (lines : List String) :
    Except PyError (List Configuration) :=
  match h : readConfiguration potentials Reading.init lines with
  | .error e => throw e
  | .ok (none, _) => pure []
  | .ok (some c, rest) => do
    let cs ← readMdFile potentials rest
    pure (c :: cs)
termination_by lines.length
decreasing_by exact readConfiguration_rest_lt h

/-- One pass of the loop of `parse_potentials`:
`potentials[values[0].strip()] = float(values[1])`, the right side first. -/
def setPotential (potentials : List (String × ℚ)) (pair : String) : Except PyError (List (String × ℚ)) := do
  let values := splitSep '=' pair
  let v ← pyFloat (← pyGet values 1)
  let k ← pyGet values 0
  pure (odSet potentials (strip k) v)

/-- `parse_potentials`: `Element=value` pairs separated by commas. -/
def parsePotentials (potentialStr : String) : Except PyError (List (String × ℚ)) :=
  (splitSep ',' potentialStr).foldlM setPotential []

end Potfit.Castep
