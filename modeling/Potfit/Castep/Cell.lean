import Potfit.Castep.Output

/-!
# The cell and the stress

The `h` lines of a step give the cell vectors, its `S` lines the rows of the
stress tensor. `read_configuration` appends each to `boxes` or to `stress`,
all of them, in file order. `to_string` prints the first three cell vectors
as `#X`, `#Y` and `#Z`, and raises `IndexError` when there are fewer; it
prints the stress only when there are exactly three rows:

* `processLine_cell`, `foldlM_processLine_cell`: the `h` and `S` lines read
  so far are in `boxes` and `stress`;
* `buildConfiguration_cell`: so are a whole step's;
* `header_boxes`, `header_ok_of_boxes`, `header_few_boxes`: the header of a
  configuration with three cell vectors or more, and without;
* `to_string_cell`, `to_string_few_boxes`: what `to_string` makes of a step's
  `h` and `S` lines.
-/

namespace Potfit.Castep

/-- `xs[i]` for `i ≥ 0`: the item at `i`, or `IndexError`. -/
theorem pyGet_of_nonneg {α : Type} (xs : List α) (i : Int) (hi : 0 ≤ i) :
    pyGet xs i = match xs[i.toNat]? with
      | some x => .ok x
      | none => .error .indexError := by
  have hj : pyIndex xs.length i = if i.toNat < xs.length then some i.toNat else none := by
    simp only [pyIndex, if_neg (not_lt.mpr hi)]
    by_cases h : i.toNat < xs.length
    · rw [if_pos ⟨hi, by omega⟩, if_pos h]
    · rw [if_neg (by omega), if_neg h]
  rw [pyGet, hj]
  by_cases h : i.toNat < xs.length
  · rw [if_pos h, Option.some_bind]
    rfl
  · rw [if_neg h, List.getElem?_eq_none (by omega)]
    rfl

theorem pyGet_three {α : Type} (x₀ x₁ x₂ : α) (xs : List α) :
    pyGet (x₀ :: x₁ :: x₂ :: xs) 0 = .ok x₀ ∧ pyGet (x₀ :: x₁ :: x₂ :: xs) 1 = .ok x₁ ∧
      pyGet (x₀ :: x₁ :: x₂ :: xs) 2 = .ok x₂ := by
  refine ⟨?_, ?_, ?_⟩ <;> rw [pyGet_of_nonneg _ _ (by decide)] <;>
    simp only [show (0 : Int).toNat = 0 from rfl, show (1 : Int).toNat = 1 from rfl,
      show (2 : Int).toNat = 2 from rfl, List.getElem?_cons_zero, List.getElem?_cons_succ]

/-- What `read` gives for a line whose last token is `tag`; `none` for any
other line. -/
def tagged {α : Type} (tag : String) (read : List String → Except PyError α) (line : String) :
    Option α :=
  let splitLine := split (strip line)
  match pyGet splitLine ((splitLine.length : Int) - 1) with
  | .ok t => if t = tag then (read splitLine).toOption else none
  | .error _ => none

theorem tagged_of_tag {α : Type} {tag t line : String} {read : List String → Except PyError α}
    (htag : pyGet (split (strip line)) ((split (strip line)).length - 1 : Int) = .ok t) :
    tagged tag read line = if t = tag then (read (split (strip line))).toOption else none := by
  dsimp only [tagged]
  rw [htag]

/-- The cell vector an `h` line gives. -/
def hBox (line : String) : Option Box := tagged "h" readBox line

/-- The stress row an `S` line gives. -/
def sRow (line : String) : Option (ℚ × ℚ × ℚ) := tagged "S" readStress line

/-- The `h` lines of a list of lines, as cell vectors. -/
def hBoxes (lines : List String) : List Box := lines.filterMap hBox

/-- The `S` lines of a list of lines, as stress rows. -/
def sRows (lines : List String) : List (ℚ × ℚ × ℚ) := lines.filterMap sRow

section
variable {c c' : Configuration}

theorem addAtom_cell {r : String × ℚ × ℚ × ℚ} (h : addAtom c r = .ok c') :
    c'.boxes = c.boxes ∧ c'.stress = c.stress := by
  obtain ⟨e, x, y, z⟩ := r
  simp only [addAtom, except_bind_eq_ok, except_pure_eq_ok] at h
  obtain ⟨_, -, _, -, rfl⟩ := h
  split <;> exact ⟨rfl, rfl⟩

theorem setForces_cell {f : String × Int × ℚ × ℚ × ℚ} (h : setForces c f = .ok c') :
    c'.boxes = c.boxes ∧ c'.stress = c.stress := by
  obtain ⟨e, n, fx, fy, fz⟩ := f
  simp only [setForces, except_bind_eq_ok] at h
  obtain ⟨atoms, -, h⟩ := h
  split at h
  · cases h
  · rw [except_pure_eq_ok] at h
    subst h
    exact ⟨rfl, rfl⟩

end

/-- **One line.** An `h` line appends its cell vector to `boxes`, an `S` line
its row to `stress`; no other line changes them. -/
theorem processLine_cell {st st' : Reading} {line : String} (h : processLine st (strip line) = .ok st') :
    st'.config.boxes = st.config.boxes ++ (hBox line).toList ∧
      st'.config.stress = st.config.stress ++ (sRow line).toList := by
  simp only [processLine, except_bind_eq_ok] at h
  obtain ⟨tag, htag, h⟩ := h
  rw [hBox, sRow, tagged_of_tag htag, tagged_of_tag htag]
  rcases processTag_cases h with ⟨rfl, row, hrow, rfl⟩ | ⟨rfl, _, _, rfl⟩ | ⟨rfl, b, hb, rfl⟩ |
    ⟨rfl, _, _, -, hc, rfl⟩ | ⟨rfl, _, _, -, hc, rfl⟩ | ⟨hS, -, hh, -, -, rfl⟩
  · simp [hrow, Except.toOption]
  · simp
  · simp [hb, Except.toOption]
  · simpa using addAtom_cell hc
  · simpa using setForces_cell hc
  · simp [hS, hh]

/-- **A run of lines.** -/
theorem foldlM_processLine_cell :
    ∀ (lines : List String) {st st' : Reading},
      lines.foldlM (fun st line => processLine st (strip line)) st = .ok st' →
      st'.config.boxes = st.config.boxes ++ hBoxes lines ∧
        st'.config.stress = st.config.stress ++ sRows lines
  | [], _, _, h => by
    simp only [List.foldlM_nil, except_pure_eq_ok] at h
    subst h
    simp [hBoxes, sRows]
  | line :: lines, _, _, h => by
    simp only [List.foldlM_cons, except_bind_eq_ok] at h
    obtain ⟨st1, h1, h⟩ := h
    obtain ⟨hb, hs⟩ := foldlM_processLine_cell lines h
    obtain ⟨hb1, hs1⟩ := processLine_cell h1
    rw [hb, hs, hb1, hs1]
    simp only [hBoxes, sRows, List.filterMap_cons, List.append_assoc]
    constructor
    · cases hBox line <;> rfl
    · cases sRow line <;> rfl

/-- **A step.** The configuration built from a step holds its `h` lines' cell
vectors in `boxes` and its `S` lines' rows in `stress`, in file order. -/
theorem buildConfiguration_cell {potentials : List (String × ℚ)} {lines : List String}
    {c : Configuration} (h : buildConfiguration potentials lines = .ok c) :
    c.boxes = hBoxes lines ∧ c.stress = sRows lines := by
  simp only [buildConfiguration, except_bind_eq_ok] at h
  obtain ⟨st, hst, hc⟩ := h
  rw [finishEnergy_config hc]
  exact foldlM_processLine_cell lines hst

section
variable {c : Configuration}

/-- With fewer than three cell vectors, the header raises `IndexError`. -/
theorem header_few_boxes (h : c.boxes.length < 3) : c.header = .error .indexError := by
  rcases hb : c.boxes with _ | ⟨b0, _ | ⟨b1, _ | ⟨b2, bs⟩⟩⟩
  iterate 3 · simp only [Configuration.header, hb]; rfl
  · simp only [hb, List.length_cons] at h
    omega

/-- With three cell vectors or more, the header is written. -/
theorem header_ok_of_boxes (h : 3 ≤ c.boxes.length) : ∃ hdr, c.header = .ok hdr := by
  rcases hb : c.boxes with _ | ⟨b0, _ | ⟨b1, _ | ⟨b2, bs⟩⟩⟩
  iterate 3 · simp [hb] at h
  obtain ⟨h0, h1, h2⟩ := pyGet_three b0 b1 b2 bs
  simp only [Configuration.header, hb, h0, h1, h2, except_ok_bind]
  exact ⟨_, rfl⟩

/-- The header of a configuration with three cell vectors or more: the
first three, the energy, the stress when it has three rows, and `#F`. -/
theorem header_boxes {hdr : List String} (h : c.header = .ok hdr) :
    ∃ b0 b1 b2 bs, c.boxes = b0 :: b1 :: b2 :: bs ∧
      hdr.drop 2 = ["#X " ++ b0.toString, "#Y " ++ b1.toString, "#Z " ++ b2.toString,
        "#E " ++ formatE (c.energy.getD 0)] ++ (match c.stress with
          | [s0, s1, s2] =>
            ["#S " ++ formatE s0.1 ++ " " ++ formatE s1.2.1 ++ " " ++ formatE s2.2.2 ++ " " ++
              formatE s0.2.1 ++ " " ++ formatE s1.2.2 ++ " " ++ formatE s0.2.2]
          | _ => []) ++ ["#F"] := by
  rcases hb : c.boxes with _ | ⟨b0, _ | ⟨b1, _ | ⟨b2, bs⟩⟩⟩
  iterate 3 · cases (header_few_boxes (by simp [hb])).symm.trans h
  refine ⟨b0, b1, b2, bs, rfl, ?_⟩
  obtain ⟨h0, h1, h2⟩ := pyGet_three b0 b1 b2 bs
  simp only [Configuration.header, hb, h0, h1, h2, except_ok_bind] at h
  cases h
  rfl

end

/-- **What `to_string` prints of the cell and the stress.** For every step
that `read_configuration` turns into a configuration, `boxes` holds the step's
`h` lines and `stress` its `S` lines, converted, all of them, in file order.
When `to_string` renders the configuration, the step has three `h` lines or
more, and the output's third to fifth lines are `#X`, `#Y` and `#Z` with the
first three; its seventh line is `#S` with the diagonal and then the upper
triangle of the stress when the step has exactly three `S` lines, and `#F`
otherwise. -/
theorem to_string_cell {potentials : List (String × ℚ)} {lines : List String} {c : Configuration}
    (hc : buildConfiguration potentials lines = .ok c) :
    c.boxes = hBoxes lines ∧ c.stress = sRows lines ∧
    ∀ ls, c.toLines = .ok ls → ∃ b0 b1 b2 bs, hBoxes lines = b0 :: b1 :: b2 :: bs ∧
      ls[2]? = some ("#X " ++ b0.toString) ∧ ls[3]? = some ("#Y " ++ b1.toString) ∧
      ls[4]? = some ("#Z " ++ b2.toString) ∧
      ls[6]? = some (match sRows lines with
        | [s0, s1, s2] =>
          "#S " ++ formatE s0.1 ++ " " ++ formatE s1.2.1 ++ " " ++ formatE s2.2.2 ++ " " ++
            formatE s0.2.1 ++ " " ++ formatE s1.2.2 ++ " " ++ formatE s0.2.2
        | _ => "#F") := by
  obtain ⟨hB, hS⟩ := buildConfiguration_cell hc
  refine ⟨hB, hS, fun ls hs => ?_⟩
  obtain ⟨hdr, atomLines, hh, -, rfl⟩ := toLines_ok hs
  obtain ⟨rest, rfl, -⟩ := header_ok hh
  obtain ⟨b0, b1, b2, bs, hb, rfl⟩ := header_boxes hh
  refine ⟨b0, b1, b2, bs, hB ▸ hb, ?_⟩
  rw [← hS]
  rcases c.stress with _ | ⟨s0, _ | ⟨s1, _ | ⟨s2, _ | ⟨s3, ss⟩⟩⟩⟩ <;>
    simp only [List.cons_append, List.nil_append, List.getElem?_cons_succ, List.getElem?_cons_zero,
      and_self]

theorem to_string_cell_argon :
    ∃ c, buildConfiguration [] ["1 0 0 h", "0 1 0 h", "0 0 1 h", "1 0 0 S", "0 1 0 S", "0 0 1 S",
      "Ar 1 0 0 0 R", "Ar 1 0 0 0 F"] = .ok c ∧ c.stress = sRows ["1 0 0 h", "0 1 0 h", "0 0 1 h",
      "1 0 0 S", "0 1 0 S", "0 0 1 S", "Ar 1 0 0 0 R", "Ar 1 0 0 0 F"] :=
  ⟨_, rfl, (@to_string_cell [] ["1 0 0 h", "0 1 0 h", "0 0 1 h", "1 0 0 S", "0 1 0 S", "0 0 1 S",
    "Ar 1 0 0 0 R", "Ar 1 0 0 0 F"] _ (by rfl)).2.1⟩

/-- **A step with fewer than three `h` lines** is read, and then `to_string`
raises `IndexError` on it. -/
theorem to_string_few_boxes {potentials : List (String × ℚ)} {lines : List String} {c : Configuration}
    (hc : buildConfiguration potentials lines = .ok c) (h : (hBoxes lines).length < 3) :
    c.toString = .error .indexError := by
  have hh := header_few_boxes ((buildConfiguration_cell hc).1 ▸ h)
  simp only [Configuration.toString, Configuration.toLines, hh]
  rfl

theorem to_string_few_boxes_argon :
    (∃ c, buildConfiguration [] ["1 0 0 h", "Ar 1 0 0 0 R", "Ar 1 0 0 0 F"] = .ok c ∧
      c.toString = .error .indexError) ∧
    (hBoxes ["1 0 0 h", "Ar 1 0 0 0 R", "Ar 1 0 0 0 F"]).length < 3 :=
  have hb : (hBoxes ["1 0 0 h", "Ar 1 0 0 0 R", "Ar 1 0 0 0 F"]).length < 3 := by decide
  ⟨⟨_, rfl, @to_string_few_boxes [] ["1 0 0 h", "Ar 1 0 0 0 R", "Ar 1 0 0 0 F"] _ (by rfl) hb⟩, hb⟩

end Potfit.Castep
