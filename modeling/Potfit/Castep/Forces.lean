import Potfit.Castep.Energy
import Potfit.Castep.Cell

/-!
# Forces

The `F` branch of `read_configuration` finds an atom by its element and by
`atom_number - 1` as a Python index into the element's list in `body`; the `R`
branch appends atoms to that list in line order and ignores the atom number
of the `R` line.

* `setForces_forced`: one `F` line sets the forces of the atom it indexes;
* `read_configuration_forces`: in a step whose `F` lines follow its `R` lines,
  the `j`-th atom of an element has the position of the element's `j`-th `R`
  line and the forces of the last `F` line that indexes `j`;
* `read_configuration_swapped_forces`: so when the `R` lines of an element
  do not come in atom-number order, an atom takes the forces of another;
* `to_string_unforced`: `to_string` fails exactly when an atom index has no
  `F` line, with `AttributeError`.
-/

namespace Potfit.Castep

/-- The element, atom number and forces an `F` line gives; `none` for any
other line. -/
def fAtom (line : String) : Option (String × Int × ℚ × ℚ × ℚ) :=
  let splitLine := split (strip line)
  match pyGet splitLine ((splitLine.length : Int) - 1) with
  | .ok "F" => (readForce splitLine).toOption
  | _ => none

/-- The `F` lines of a list of lines. -/
def fAtoms (lines : List String) : List (String × Int × ℚ × ℚ × ℚ) := lines.filterMap fAtom

/-- The forces the `F` lines `fs` give to atom `j` of the `n` atoms of element
`e`: those of the last line of `e` whose atom number, less one, indexes `j`. -/
def forcesOf (fs : List (String × Int × ℚ × ℚ × ℚ)) (e : String) (n j : Nat) :
    Option (ℚ × ℚ × ℚ) :=
  ((fs.filter fun f => f.1 == e && pyIndex n (f.2.1 - 1) == some j).getLast?).map fun f => f.2.2

theorem fAtom_of_tag {line tag : String}
    (htag : pyGet (split (strip line)) ((split (strip line)).length - 1 : Int) = .ok tag) :
    fAtom line = if tag = "F" then (readForce (split (strip line))).toOption else none := by
  dsimp only [fAtom]
  rw [htag]
  split
  · rename_i heq
    cases heq
    exact (if_pos rfl).symm
  · rename_i h
    refine (if_neg fun ht => ?_).symm
    subst ht
    exact h rfl

@[simp] theorem forcesOf_nil (e : String) (n j : Nat) : forcesOf [] e n j = none := rfl

theorem forcesOf_append (fs : List (String × Int × ℚ × ℚ × ℚ)) (f : String × Int × ℚ × ℚ × ℚ)
    (e : String) (n j : Nat) :
    forcesOf (fs ++ [f]) e n j =
      if f.1 = e ∧ pyIndex n (f.2.1 - 1) = some j then some f.2.2 else forcesOf fs e n j := by
  by_cases hf : f.1 = e ∧ pyIndex n (f.2.1 - 1) = some j
  · simp [forcesOf, List.filter_append, hf]
  · have : (f.1 == e && pyIndex n (f.2.1 - 1) == some j) = false := by simpa using hf
    simp [forcesOf, List.filter_append, List.filter_cons, this, hf]

/-- The atoms of `c` have the forces the `F` lines `fs` give them. -/
def Forced (c : Configuration) (fs : List (String × Int × ℚ × ℚ × ℚ)) : Prop :=
  ∀ e atoms, c.body.lookup e = some atoms →
    ∀ j a, atoms[j]? = some a → a.forces = forcesOf fs e atoms.length j

section
variable {c c' : Configuration} {fs : List (String × Int × ℚ × ℚ × ℚ)}

theorem Forced.of_body (hf : Forced c fs) (h : c'.body = c.body) : Forced c' fs := by
  unfold Forced
  rw [h]
  exact hf

theorem forced_nil_iff :
    Forced c [] ↔ ∀ e atoms, c.body.lookup e = some atoms → ∀ a ∈ atoms, a.forces = none := by
  simp only [Forced, forcesOf_nil, List.mem_iff_getElem?]
  constructor
  · rintro h e atoms hl a ⟨j, hj⟩
    exact h e atoms hl j a hj
  · intro h e atoms hl j a hj
    exact h e atoms hl a ⟨j, hj⟩

/-- **Adding an atom** before any `F` line: the new atom has no forces. -/
theorem addAtom_forced {r : String × ℚ × ℚ × ℚ} (hf : Forced c []) (h : addAtom c r = .ok c') :
    Forced c' [] := by
  obtain ⟨e, x, y, z⟩ := r
  rw [forced_nil_iff] at hf ⊢
  simp only [addAtom, except_bind_eq_ok, except_pure_eq_ok, odGet_eq_ok] at h
  obtain ⟨t, -, atoms, hatoms, rfl⟩ := h
  have h1 : ∀ e' atoms', (if (c.typesOfElement.map Prod.fst).contains e then c.body
      else odSet c.body e []).lookup e' = some atoms' → ∀ a ∈ atoms', a.forces = none := by
    split
    · exact hf
    · intro e' atoms' hl
      rw [lookup_odSet] at hl
      split at hl
      · cases hl
        simp
      · exact hf e' atoms' hl
  intro e' atoms' hl a ha
  rw [apply_ite Configuration.body] at hatoms hl
  rw [lookup_odSet] at hl
  split at hl
  · cases hl
    rcases List.mem_append.mp ha with ha | ha
    · exact h1 e atoms hatoms a ha
    · rw [List.mem_singleton.mp ha]
  · exact h1 e' atoms' hl a ha

/-- **One `F` line** sets the forces of the atom it indexes, and of no other. -/
theorem setForces_forced {f : String × Int × ℚ × ℚ × ℚ} (hf : Forced c fs)
    (h : setForces c f = .ok c') : Forced c' (fs ++ [f]) := by
  obtain ⟨e, an, fx, fy, fz⟩ := f
  simp only [setForces, except_bind_eq_ok, odGet_eq_ok] at h
  obtain ⟨atoms, hatoms, h⟩ := h
  split at h
  · cases h
  · rename_i n hn
    rw [except_pure_eq_ok] at h
    subst h
    intro e' atoms' hl j a ha
    rw [lookup_odSet] at hl
    rw [forcesOf_append]
    split at hl
    · cases hl
      rename_i he
      subst he
      rw [List.length_modify]
      rw [List.getElem?_modify] at ha
      by_cases hj : n = j
      · subst hj
        simp only [if_true, Option.map_eq_map, Option.map_eq_some'] at ha
        obtain ⟨_, -, rfl⟩ := ha
        simp [hn]
      · simp only [hj, if_false, Option.map_eq_map, Option.map_id'] at ha
        rw [if_neg (by simp [hn, hj]), hf e' atoms hatoms j a ha]
    · rename_i he
      rw [if_neg (fun h' => he h'.1.symm)]
      exact hf e' atoms' hl j a ha

/-- **One line.** A line keeps the forces in step with the `F` lines read,
when it is not an `R` line or no `F` line came before it. -/
theorem processLine_forced {st st' : Reading} {fs : List (String × Int × ℚ × ℚ × ℚ)}
    {line : String} (hf : Forced st.config fs) (hR : rAtom line = none ∨ fs = [])
    (h : processLine st (strip line) = .ok st') :
    Forced st'.config (fs ++ (fAtom line).toList) := by
  simp only [processLine, except_bind_eq_ok] at h
  obtain ⟨tag, htag, h⟩ := h
  rw [fAtom_of_tag htag]
  rcases processTag_cases h with ⟨rfl, _, -, rfl⟩ | ⟨rfl, _, -, rfl⟩ | ⟨rfl, _, -, rfl⟩ |
    ⟨rfl, r, c, hr, hc, rfl⟩ | ⟨rfl, f, c, hF, hc, rfl⟩ | ⟨-, -, -, -, hF, rfl⟩
  · simpa using hf.of_body rfl
  · simpa using hf
  · simpa using hf.of_body rfl
  · rcases hR with hR | rfl
    · simp [rAtom_of_tag htag, hr, Except.toOption] at hR
    · simpa using addAtom_forced hf hc
  · simpa [hF, Except.toOption] using setForces_forced hf hc
  · simpa [hF] using hf

/-- The lines before the first `F` line leave every atom without forces. -/
theorem foldlM_processLine_unforced :
    ∀ (lines : List String) {st st' : Reading}, Forced st.config [] →
      (∀ l ∈ lines, fAtom l = none) →
      lines.foldlM (fun st line => processLine st (strip line)) st = .ok st' → Forced st'.config []
  | [], _, _, hf, _, h => by
    simp only [List.foldlM_nil, except_pure_eq_ok] at h
    exact h ▸ hf
  | line :: lines, _, _, hf, hF, h => by
    simp only [List.foldlM_cons, except_bind_eq_ok] at h
    obtain ⟨st1, h1, h⟩ := h
    simp only [List.mem_cons, forall_eq_or_imp] at hF
    have := processLine_forced hf (.inr rfl) h1
    rw [hF.1] at this
    exact foldlM_processLine_unforced lines this hF.2 h

/-- The lines after the last `R` line set the forces line by line. -/
theorem foldlM_processLine_forced :
    ∀ (lines : List String) {st st' : Reading} {fs : List (String × Int × ℚ × ℚ × ℚ)},
      Forced st.config fs → (∀ l ∈ lines, rAtom l = none) →
      lines.foldlM (fun st line => processLine st (strip line)) st = .ok st' →
      Forced st'.config (fs ++ fAtoms lines)
  | [], _, _, _, hf, _, h => by
    simp only [List.foldlM_nil, except_pure_eq_ok] at h
    simpa [fAtoms, ← h] using hf
  | line :: lines, _, _, fs, hf, hR, h => by
    simp only [List.foldlM_cons, except_bind_eq_ok] at h
    obtain ⟨st1, h1, h⟩ := h
    simp only [List.mem_cons, forall_eq_or_imp] at hR
    have := foldlM_processLine_forced lines (processLine_forced hf (.inl hR.1) h1) hR.2 h
    rw [List.append_assoc] at this
    convert this using 2
    simp only [fAtoms, List.filterMap_cons]
    cases fAtom line <;> rfl

end

/-- **A step.** When its `F` lines all follow its `R` lines, the atoms of the
configuration built from it have the forces its `F` lines give them. -/
theorem buildConfiguration_forced {potentials : List (String × ℚ)} {pre post : List String}
    {c : Configuration} (hpre : fAtoms pre = []) (hpost : rAtoms post = [])
    (h : buildConfiguration potentials (pre ++ post) = .ok c) : Forced c (fAtoms post) := by
  simp only [buildConfiguration, except_bind_eq_ok, List.foldlM_append] at h
  obtain ⟨st, ⟨st1, h1, h2⟩, hc⟩ := h
  have h0 : Forced Reading.init.config [] := fun _ _ h => by cases h
  have hpost' := foldlM_processLine_forced post
    (foldlM_processLine_unforced pre h0 (List.filterMap_eq_nil_iff.mp hpre) h1)
    (List.filterMap_eq_nil_iff.mp hpost) h2
  rw [finishEnergy_config hc]
  exact hpost'.of_body rfl

/-- The same step is grouped by its `R` lines, all of which come before the `F` lines. -/
theorem buildConfiguration_grouped_pre {potentials : List (String × ℚ)} {pre post : List String}
    {c : Configuration} (hpost : rAtoms post = [])
    (h : buildConfiguration potentials (pre ++ post) = .ok c) : Grouped c (rAtoms pre) := by
  have hg := buildConfiguration_grouped h
  rwa [rAtoms, List.filterMap_append, ← rAtoms, ← rAtoms, hpost, List.append_nil] at hg

/-- **Which forces an atom gets.** In a step whose `F` lines all follow its
`R` lines, the atoms of the `t`-th element `e` have, in order, the positions of
the `R` lines of `e`, and the `j`-th of the `n` atoms has the forces of the
last `F` line of `e` whose atom number less one is `j` as a Python index:
`j + 1` or `j + 1 - n`, whatever the atom numbers of the `R` lines. -/
theorem read_configuration_forces {potentials : List (String × ℚ)} {pre post : List String}
    {c : Configuration} (hpre : fAtoms pre = []) (hpost : rAtoms post = [])
    (h : buildConfiguration potentials (pre ++ post) = .ok c) {t : Nat} {e : String}
    (ht : (elements (rAtoms pre))[t]? = some e) :
    ∃ atoms, c.body.lookup e = some atoms ∧
      atoms.map Atom.site = ((rAtoms pre).filter (·.1 == e)).map (fun r => (t, r.2)) ∧
      ∀ j a, atoms[j]? = some a → a.forces = forcesOf (fAtoms post) e atoms.length j := by
  obtain ⟨-, atoms, hatoms, hsites⟩ := (buildConfiguration_grouped_pre hpost h).lookup ht
  exact ⟨atoms, hatoms, hsites, buildConfiguration_forced hpre hpost h e atoms hatoms⟩

theorem read_configuration_forces_argon :
    ∃ c, buildConfiguration [] (["Ar 2 1 0 0 R", "Ar 1 2 0 0 R"] ++ ["Ar 1 3 0 0 F", "Ar 2 4 0 0 F"]) =
        .ok c ∧
      ∃ atoms, c.body.lookup "Ar" = some atoms ∧ ∀ j a, atoms[j]? = some a →
        a.forces = forcesOf (fAtoms ["Ar 1 3 0 0 F", "Ar 2 4 0 0 F"]) "Ar" atoms.length j :=
  ⟨_, rfl, (@read_configuration_forces [] ["Ar 2 1 0 0 R", "Ar 1 2 0 0 R"]
    ["Ar 1 3 0 0 F", "Ar 2 4 0 0 F"] _ rfl rfl (by rfl) 0 "Ar" rfl).imp fun _ h => ⟨h.1, h.2.2⟩⟩

/-- A cell, the argon `R` lines of atoms 2 and 1, in this order, then the `F`
lines of atoms 1 and 2: the first atom line `to_string` writes, line 7 after
the seven header lines, has the position of atom 2 and the forces of atom 1. -/
theorem read_configuration_swapped_forces :
    ∃ (c : Configuration) (ls : List String) (x y z fx fy fz : ℚ),
      buildConfiguration [] ["1 0 0 h", "0 1 0 h", "0 0 1 h", "Ar 2 1 0 0 R", "Ar 1 2 0 0 R",
        "Ar 1 3 0 0 F", "Ar 2 4 0 0 F"] = .ok c ∧
      c.toString = .ok ("\n".intercalate ls) ∧
      readPosition (split "Ar 2 1 0 0 R") = .ok ("Ar", x, y, z) ∧
      readForce (split "Ar 1 3 0 0 F") = .ok ("Ar", 1, fx, fy, fz) ∧
      ls[7]? = some (toString (0 : Nat) ++ " " ++ formatE x ++ " " ++ formatE y ++ " " ++ formatE z ++ " " ++
        formatE fx ++ " " ++ formatE fy ++ " " ++ formatE fz) :=
  ⟨_, _, _, _, _, _, _, _, rfl, rfl, rfl, rfl, rfl⟩

/-- A key of a dictionary with unique keys looks up its own value. -/
theorem lookup_of_mem {α : Type} :
    ∀ {l : List (String × α)}, (l.map Prod.fst).Nodup → ∀ {k : String} {v : α}, (k, v) ∈ l →
      l.lookup k = some v
  | [], _, _, _, h => nomatch h
  | (a, b) :: l, hl, k, v, h => by
    rw [List.map_cons, List.nodup_cons] at hl
    rcases List.mem_cons.mp h with hkv | hkv
    · cases hkv
      simp [List.lookup_cons]
    · have hka : k ≠ a := fun hk => hl.1 (hk ▸ List.mem_map.mpr ⟨(k, v), hkv, rfl⟩)
      simp only [List.lookup_cons, beq_false_of_ne hka]
      exact lookup_of_mem hl.2 hkv

/-- Writing atoms fails, with `AttributeError`, exactly when one has no forces. -/
theorem mapM_toString_error :
    ∀ (atoms : List Atom) (err : PyError),
      atoms.mapM Atom.toString = .error err ↔ err = .attributeError ∧ ∃ a ∈ atoms, a.forces = none
  | [], err => by
    rw [List.mapM_nil]
    exact ⟨fun h => (by cases h), fun ⟨_, _, h, _⟩ => (by cases h)⟩
  | a :: as, err => by
    rw [List.mapM_cons]
    cases ha : a.forces with
    | none =>
      have hs : Atom.toString a = .error .attributeError := by simp only [Atom.toString, ha]; rfl
      rw [hs]
      constructor
      · intro h
        cases h
        exact ⟨rfl, a, List.mem_cons_self _ _, ha⟩
      · rintro ⟨rfl, -⟩
        rfl
    | some f =>
      obtain ⟨fx, fy, fz⟩ := f
      have hs : ∃ line, Atom.toString a = .ok line := ⟨_, by simp only [Atom.toString, ha]; rfl⟩
      obtain ⟨line, hs⟩ := hs
      rw [hs, except_ok_bind]
      have ih := mapM_toString_error as err
      have hall : (∃ b ∈ a :: as, b.forces = none) ↔ ∃ b ∈ as, b.forces = none := by
        simp [ha]
      rw [hall, ← ih]
      cases as.mapM Atom.toString with
      | error e => exact Iff.rfl
      | ok ls => exact ⟨fun h => (by cases h), fun h => (by cases h)⟩

/-- **When `to_string` fails on a step.** For every step with three `h` lines
or more whose `F` lines all follow its `R` lines, `to_string` fails exactly
when, for some element `e` with `n` `R` lines, some atom index `j < n` is
indexed by no `F` line of `e` (atom number `j + 1` or `j + 1 - n`), and it then
raises `AttributeError`. -/
theorem to_string_unforced {potentials : List (String × ℚ)} {pre post : List String}
    {c : Configuration} (hpre : fAtoms pre = []) (hpost : rAtoms post = [])
    (h : buildConfiguration potentials (pre ++ post) = .ok c) (hbox : 3 ≤ (hBoxes (pre ++ post)).length)
    (err : PyError) :
    c.toString = .error err ↔ err = .attributeError ∧
      ∃ e ∈ elements (rAtoms pre), ∃ j < ((rAtoms pre).filter (·.1 == e)).length,
        forcesOf (fAtoms post) e ((rAtoms pre).filter (·.1 == e)).length j = none := by
  obtain ⟨hdr, hh⟩ := header_ok_of_boxes ((buildConfiguration_cell h).1 ▸ hbox)
  have herr : c.toString = .error err ↔ (c.body.flatMap Prod.snd).mapM Atom.toString = .error err := by
    simp only [Configuration.toString, Configuration.toLines, hh, except_ok_bind]
    cases (c.body.flatMap Prod.snd).mapM Atom.toString with
    | error e => exact ⟨fun h => (by cases h; rfl), fun h => (by cases h; rfl)⟩
    | ok ls => exact ⟨fun h => (by cases h), fun h => (by cases h)⟩
  rw [herr, mapM_toString_error]
  refine and_congr_right fun _ => ?_
  have hg := buildConfiguration_grouped_pre hpost h
  have hf := buildConfiguration_forced hpre hpost h
  have hnodup : (c.body.map Prod.fst).Nodup := hg.body_keys ▸ nodup_eraseDups _
  -- the atoms of `e` are as many as its `R` lines
  have hlen : ∀ {e atoms}, c.body.lookup e = some atoms → e ∈ elements (rAtoms pre) →
      atoms.length = ((rAtoms pre).filter (·.1 == e)).length := by
    intro e atoms hl he
    obtain ⟨t, ht⟩ := List.mem_iff_getElem?.mp he
    obtain ⟨-, atoms', hl', hsites⟩ := hg.lookup ht
    rw [hl, Option.some.injEq] at hl'
    subst hl'
    simpa using congrArg List.length hsites
  constructor
  · rintro ⟨a, ha, hnone⟩
    obtain ⟨⟨e, atoms⟩, hp, ha⟩ := List.mem_flatMap.mp ha
    have hl := lookup_of_mem hnodup hp
    have he : e ∈ elements (rAtoms pre) := hg.body_keys ▸ List.mem_map_of_mem Prod.fst hp
    obtain ⟨j, hj⟩ := List.mem_iff_getElem?.mp ha
    refine ⟨e, he, j, hlen hl he ▸ (List.getElem?_eq_some_iff.mp hj).1, ?_⟩
    rw [← hlen hl he, ← hf e atoms hl j a hj, hnone]
  · rintro ⟨e, he, j, hj, hnone⟩
    obtain ⟨t, ht⟩ := List.mem_iff_getElem?.mp he
    obtain ⟨-, atoms, hl, -⟩ := hg.lookup ht
    have hj' : j < atoms.length := hlen hl he ▸ hj
    obtain ⟨l₁, l₂, hbody, -⟩ := List.lookup_eq_some_iff.mp hl
    refine ⟨atoms[j], List.mem_flatMap.mpr ⟨(e, atoms), by rw [hbody]; simp, List.getElem_mem hj'⟩, ?_⟩
    rw [hf e atoms hl j _ (List.getElem?_eq_getElem hj'), hlen hl he, hnone]

/-- Two argon atoms and an `F` line for the second only. -/
theorem to_string_unforced_argon :
    ∃ c, buildConfiguration [] (["1 0 0 h", "0 1 0 h", "0 0 1 h", "Ar 1 0 0 0 R", "Ar 2 1 0 0 R"] ++
        ["Ar 2 3 0 0 F"]) = .ok c ∧ c.toString = .error .attributeError :=
  ⟨_, rfl, (@to_string_unforced [] ["1 0 0 h", "0 1 0 h", "0 0 1 h", "Ar 1 0 0 0 R", "Ar 2 1 0 0 R"]
    ["Ar 2 3 0 0 F"] _ rfl rfl (by rfl) (by decide) .attributeError).mpr
      ⟨rfl, "Ar", by decide, 0, by decide, by decide⟩⟩

end Potfit.Castep
