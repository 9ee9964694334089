import Potfit.Castep.Read

/-!
# Element groups

`read_configuration` keeps two `OrderedDict`s keyed by element symbol:
`types_of_element` gives each element its type index, the number of elements
seen before it, and `body` holds its atoms in the order of their `R` lines.
Whatever the interleaving of elements, after any sequence of lines both hold
what the `R` lines read so far prescribe, `typeIndices` and `groups`:

* `eraseDups_append_singleton`: first appearances only grow at the end;
* `addAtom_grouped`, `setForces_grouped`, `processLine_grouped`: one line
  keeps the dictionaries in step with the `R` lines read;
* `buildConfiguration_grouped`: so does a whole step.
-/

namespace Potfit.Castep

/-! ## First appearances -/

theorem eraseDups_loop_append (x : String) :
    ∀ (xs bs : List String), List.eraseDups.loop (xs ++ [x]) bs =
      if x ∈ xs ∨ x ∈ bs then List.eraseDups.loop xs bs else List.eraseDups.loop xs bs ++ [x]
  | [], bs => by
    by_cases h : x ∈ bs <;> simp [List.eraseDups.loop, h, List.elem_eq_mem]
  | a :: as, bs => by
    have ih := eraseDups_loop_append x as
    by_cases ha : a ∈ bs
    · have h1 : List.eraseDups.loop (a :: (as ++ [x])) bs = List.eraseDups.loop (as ++ [x]) bs := by
        simp [List.eraseDups.loop, ha]
      have h2 : List.eraseDups.loop (a :: as) bs = List.eraseDups.loop as bs := by
        simp [List.eraseDups.loop, ha]
      rw [List.cons_append, h1, h2, ih]
      by_cases hxa : x = a
      · subst hxa; simp [ha]
      · simp [hxa]
    · have h1 : List.eraseDups.loop (a :: (as ++ [x])) bs =
          List.eraseDups.loop (as ++ [x]) (a :: bs) := by
        simp [List.eraseDups.loop, ha]
      have h2 : List.eraseDups.loop (a :: as) bs = List.eraseDups.loop as (a :: bs) := by
        simp [List.eraseDups.loop, ha]
      rw [List.cons_append, h1, h2, ih]
      by_cases hxa : x = a
      · subst hxa; simp
      · simp [hxa]

/-- Appending a symbol adds it to the first appearances when it is new. -/
theorem eraseDups_append_singleton (xs : List String) (x : String) :
    (xs ++ [x]).eraseDups = if x ∈ xs then xs.eraseDups else xs.eraseDups ++ [x] := by
  simp [List.eraseDups, eraseDups_loop_append]

theorem mem_eraseDups {xs : List String} {x : String} : x ∈ xs.eraseDups ↔ x ∈ xs := by
  induction xs using List.reverseRecOn with
  | nil => simp [List.eraseDups, List.eraseDups.loop]
  | append_singleton xs y ih =>
    rw [eraseDups_append_singleton]
    by_cases hy : y ∈ xs
    · rw [if_pos hy, ih]
      simp only [List.mem_append, List.mem_singleton]
      constructor
      · exact .inl
      · rintro (h | rfl) <;> assumption
    · simp [hy, ih]

theorem nodup_eraseDups (xs : List String) : xs.eraseDups.Nodup := by
  induction xs using List.reverseRecOn with
  | nil => simp [List.eraseDups, List.eraseDups.loop]
  | append_singleton xs y ih =>
    rw [eraseDups_append_singleton]
    by_cases hy : y ∈ xs
    · rwa [if_pos hy]
    · rw [if_neg hy]
      exact List.nodup_append.mpr ⟨ih, List.nodup_singleton y,
        fun z hz hz' => hy (by rw [List.mem_singleton.mp hz'] at hz; exact mem_eraseDups.mp hz)⟩

/-- In a list of distinct keys, the entry built for the key at index `t` is
the one `lookup` finds. -/
theorem lookup_enumFrom {β : Type} (F : Nat × String → β) :
    ∀ {K : List String} (n : Nat), K.Nodup → ∀ {t : Nat} {e : String}, K[t]? = some e →
      ((K.enumFrom n).map fun te => (te.2, F te)).lookup e = some (F (n + t, e))
  | [], _, _, _, _, h => by simp at h
  | k :: K, n, hK, t, e, h => by
    obtain ⟨hk, hK⟩ := List.nodup_cons.mp hK
    cases t with
    | zero =>
      simp only [List.getElem?_cons_zero, Option.some.injEq] at h
      subst h
      simp
    | succ t =>
      simp only [List.getElem?_cons_succ] at h
      have he : e ∈ K := by
        obtain ⟨hlt, rfl⟩ := List.getElem?_eq_some_iff.mp h
        exact List.getElem_mem hlt
      have hne : e ≠ k := fun hek => hk (hek ▸ he)
      simp only [List.enumFrom_cons, List.map_cons, List.lookup_cons, beq_false_of_ne hne]
      rw [lookup_enumFrom F (n + 1) hK h, Nat.add_assoc, Nat.add_comm 1 t]

/-! ## What the `R` lines prescribe -/

/-- An atom's type index and position. -/
def Atom.site (a : Atom) : Nat × ℚ × ℚ × ℚ := (a.type, a.x, a.y, a.z)

/-- `body` with each atom reduced to its site. -/
def shape (body : List (String × List Atom)) : List (String × List (Nat × ℚ × ℚ × ℚ)) :=
  body.map fun p => (p.1, p.2.map Atom.site)

/-- The elements of the `R` lines `rs`, in order of first appearance. -/
def elements (rs : List (String × ℚ × ℚ × ℚ)) : List String := (rs.map Prod.fst).eraseDups

/-- Each element with its place in order of first appearance. -/
def typeIndices (rs : List (String × ℚ × ℚ × ℚ)) : List (String × Nat) :=
  (elements rs).enum.map fun te => (te.2, te.1)

/-- The atoms the `R` lines `rs` describe, grouped by element in order of first
appearance; the group of the `t`-th element holds the positions of its `R`
lines, in file order, each with type index `t`. -/
def groups (rs : List (String × ℚ × ℚ × ℚ)) : List (String × List (Nat × ℚ × ℚ × ℚ)) :=
  (elements rs).enum.map fun te => (te.2, (rs.filter (·.1 == te.2)).map fun r => (te.1, r.2))

/-- The dictionaries of `c` hold what the `R` lines `rs` prescribe. -/
structure Grouped (c : Configuration) (rs : List (String × ℚ × ℚ × ℚ)) : Prop where
  types : c.typesOfElement = typeIndices rs
  body : shape c.body = groups rs

theorem snd_mem_of_mem_enum {α : Type} {l : List α} {te : Nat × α} (h : te ∈ l.enum) : te.2 ∈ l := by
  rw [← List.enum_map_snd l]
  exact List.mem_map_of_mem _ h

section
variable {rs : List (String × ℚ × ℚ × ℚ)} {e : String} {p : ℚ × ℚ × ℚ}

theorem typeIndices_keys (rs : List (String × ℚ × ℚ × ℚ)) :
    (typeIndices rs).map Prod.fst = elements rs := by
  simp only [typeIndices, List.map_map]
  exact List.enum_map_snd _

theorem groups_keys (rs : List (String × ℚ × ℚ × ℚ)) : (groups rs).map Prod.fst = elements rs := by
  simp only [groups, List.map_map]
  exact List.enum_map_snd _

theorem shape_keys (body : List (String × List Atom)) : (shape body).map Prod.fst = body.map Prod.fst := by
  simp [shape, Function.comp_def]

theorem elements_append_new (h : e ∉ rs.map Prod.fst) : elements (rs ++ [(e, p)]) = elements rs ++ [e] := by
  simp [elements, eraseDups_append_singleton, h]

theorem elements_append_old (h : e ∈ rs.map Prod.fst) : elements (rs ++ [(e, p)]) = elements rs := by
  simp only [elements, List.map_append, List.map_cons, List.map_nil, eraseDups_append_singleton, if_pos h]

theorem typeIndices_append_old (h : e ∈ rs.map Prod.fst) :
    typeIndices (rs ++ [(e, p)]) = typeIndices rs := by
  rw [typeIndices, elements_append_old h, typeIndices]

theorem typeIndices_append_new (h : e ∉ rs.map Prod.fst) :
    typeIndices (rs ++ [(e, p)]) = typeIndices rs ++ [(e, (elements rs).length)] := by
  simp [typeIndices, elements_append_new h, List.enum_append]

theorem groups_append_new (h : e ∉ rs.map Prod.fst) :
    groups (rs ++ [(e, p)]) = groups rs ++ [(e, [((elements rs).length, p)])] := by
  rw [groups, elements_append_new h, List.enum_append, List.map_append]
  congr 1
  · apply List.map_congr_left
    intro te hte
    have hne : e ≠ te.2 := by
      rintro rfl
      exact h (mem_eraseDups.mp (snd_mem_of_mem_enum hte))
    simp [List.filter_append, hne]
  · have hnil : rs.filter (·.1 == e) = [] :=
      List.filter_eq_nil_iff.mpr fun r hr hre => h (List.mem_map.mpr ⟨r, hr, by simpa using hre⟩)
    simp [hnil]

theorem groups_append_old (h : e ∈ rs.map Prod.fst) :
    groups (rs ++ [(e, p)]) = (elements rs).enum.map fun te =>
      (te.2, (rs.filter (·.1 == te.2)).map (fun r => (te.1, r.2)) ++ if te.2 = e then [(te.1, p)] else []) := by
  rw [groups, elements_append_old h]
  apply List.map_congr_left
  intro te _
  by_cases hte : te.2 = e
  · simp [List.filter_append, hte]
  · simp [List.filter_append, hte, Ne.symm hte]

end

/-! ## One line -/

section
variable {c c' : Configuration} {rs : List (String × ℚ × ℚ × ℚ)}

theorem Grouped.types_keys (hg : Grouped c rs) : c.typesOfElement.map Prod.fst = elements rs := by
  rw [hg.types, typeIndices_keys]

theorem Grouped.body_keys (hg : Grouped c rs) : c.body.map Prod.fst = elements rs := by
  rw [← shape_keys, hg.body, groups_keys]

/-- The entries the dictionaries hold for an element already seen: its type
index `t`, and atoms whose sites are its `R` lines' positions under `t`. -/
theorem Grouped.lookup (hg : Grouped c rs) {t : Nat} {e : String} (ht : (elements rs)[t]? = some e) :
    c.typesOfElement.lookup e = some t ∧
      ∃ atoms, c.body.lookup e = some atoms ∧
        atoms.map Atom.site = (rs.filter (·.1 == e)).map fun r => (t, r.2) := by
  have hK := nodup_eraseDups (rs.map Prod.fst)
  refine ⟨by simpa [hg.types, typeIndices] using lookup_enumFrom (fun te => te.1) 0 hK ht, ?_⟩
  have hb : (groups rs).lookup e = some ((rs.filter (·.1 == e)).map fun r => (0 + t, r.2)) :=
    lookup_enumFrom (fun (te : Nat × String) =>
      (rs.filter fun (r : String × ℚ × ℚ × ℚ) => r.1 == te.2).map
        fun (r : String × ℚ × ℚ × ℚ) => (te.1, r.2)) 0 hK ht
  rw [← hg.body, shape, lookup_mapValues, Option.map_eq_some'] at hb
  simpa using hb

/-- **Adding an atom.** The `R` branch keeps the dictionaries in step with the
`R` lines, the new one included. -/
theorem addAtom_grouped {e : String} {p : ℚ × ℚ × ℚ} (hg : Grouped c rs)
    (h : addAtom c (e, p) = .ok c') : Grouped c' (rs ++ [(e, p)]) := by
  obtain ⟨x, y, z⟩ := p
  have hK := nodup_eraseDups (rs.map Prod.fst)
  by_cases he : e ∈ rs.map Prod.fst
  · have heK : e ∈ elements rs := mem_eraseDups.mpr he
    obtain ⟨t, ht⟩ := List.mem_iff_getElem?.mp heK
    obtain ⟨hty, atoms, hatoms, hsites⟩ := hg.lookup ht
    have hcont : (c.typesOfElement.map Prod.fst).contains e = true := by
      simpa [hg.types_keys] using heK
    simp only [addAtom, hcont, if_true, odGet, hty, hatoms, except_bind_eq_ok, except_pure_eq_ok] at h
    obtain ⟨_, rfl, _, rfl, rfl⟩ := h
    refine ⟨by rw [hg.types, typeIndices_append_old he], ?_⟩
    rw [shape, odSet_mapValues, ← shape, hg.body, odSet_of_mem (by rw [groups_keys]; exact heK),
      groups_append_old he, List.map_append, hsites, groups, List.map_map]
    apply List.map_congr_left
    intro te hte
    have hget := List.mem_enum_iff_getElem?.mp hte
    by_cases hte2 : te.2 = e
    · have ht1 : te.1 = t :=
        List.getElem?_inj (List.getElem?_eq_some_iff.mp hget).1 hK (by rw [hget, ht, hte2])
      simp [hte2, ht1, Atom.site]
    · simp [hte2]
  · have heK : e ∉ elements rs := fun h' => he (mem_eraseDups.mp h')
    have htk : e ∉ c.typesOfElement.map Prod.fst := by rw [hg.types_keys]; exact heK
    have hbk : e ∉ c.body.map Prod.fst := by rw [hg.body_keys]; exact heK
    have hcont : (c.typesOfElement.map Prod.fst).contains e = false := by simpa using htk
    simp only [addAtom, hcont, Bool.false_eq_true, if_false, odGet, odSet_of_not_mem htk,
      odSet_of_not_mem hbk, lookup_append_new htk, lookup_append_new hbk, except_bind_eq_ok,
      except_pure_eq_ok] at h
    obtain ⟨_, rfl, _, rfl, rfl⟩ := h
    have hlen : c.typesOfElement.length = (elements rs).length := by
      rw [← List.length_map c.typesOfElement Prod.fst, hg.types_keys]
    refine ⟨by rw [typeIndices_append_new he, ← hg.types, hlen], ?_⟩
    rw [odSet_append_new hbk, groups_append_new he, ← hg.body, hlen]
    simp [shape, Atom.site]

theorem map_site_modify (atoms : List Atom) (n : Nat) (v : Option (ℚ × ℚ × ℚ)) :
    (atoms.modify (fun a => { a with forces := v }) n).map Atom.site = atoms.map Atom.site := by
  apply List.ext_getElem?
  intro i
  simp only [List.getElem?_map, List.getElem?_modify]
  cases atoms[i]? <;> simp only [Option.map_none', Option.map_some', Option.map_eq_map]
  split <;> rfl

/-- **Setting forces.** The `F` branch changes no type index and no position. -/
theorem setForces_grouped {f : String × Int × ℚ × ℚ × ℚ} (hg : Grouped c rs)
    (h : setForces c f = .ok c') : Grouped c' rs := by
  obtain ⟨e, n, fx, fy, fz⟩ := f
  simp only [setForces, except_bind_eq_ok] at h
  obtain ⟨atoms, hat, h⟩ := h
  rw [odGet_eq_ok] at hat
  split at h
  · cases h
  · rw [except_pure_eq_ok] at h
    subst h
    refine ⟨hg.types, ?_⟩
    have hkeys : ((shape c.body).map Prod.fst).Nodup := by
      rw [hg.body, groups_keys]; exact nodup_eraseDups _
    rw [shape, odSet_mapValues, map_site_modify, ← shape,
      odSet_self hkeys (by rw [shape, lookup_mapValues, hat]; rfl), hg.body]

end

/-- The element and position an `R` line gives: `none` for any other line. -/
def rAtom (line : String) : Option (String × ℚ × ℚ × ℚ) :=
  let splitLine := split (strip line)
  match pyGet splitLine ((splitLine.length : Int) - 1) with
  | .ok "R" => (readPosition splitLine).toOption
  | _ => none

theorem rAtom_of_tag {line tag : String}
    (htag : pyGet (split (strip line)) ((split (strip line)).length - 1 : Int) = .ok tag) :
    rAtom line = if tag = "R" then (readPosition (split (strip line))).toOption else none := by
  dsimp only [rAtom]
  rw [htag]
  split
  · rename_i heq
    cases heq
    exact (if_pos rfl).symm
  · rename_i h
    refine (if_neg fun ht => ?_).symm
    subst ht
    exact h rfl

/-- **One line.** A line of a step keeps the dictionaries in step with the
`R` lines read. -/
theorem processLine_grouped {st st' : Reading} {rs : List (String × ℚ × ℚ × ℚ)} {line : String}
    (hg : Grouped st.config rs) (h : processLine st (strip line) = .ok st') :
    Grouped st'.config (rs ++ (rAtom line).toList) := by
  simp only [processLine, except_bind_eq_ok] at h
  obtain ⟨tag, htag, h⟩ := h
  rw [rAtom_of_tag htag]
  rcases processTag_cases h with ⟨rfl, row, -, rfl⟩ | ⟨rfl, _, _, rfl⟩ | ⟨rfl, b, -, rfl⟩ |
    ⟨rfl, r, c, hr, hc, rfl⟩ | ⟨rfl, _, _, _, hc, rfl⟩ | ⟨-, -, -, hR, -, rfl⟩
  · simpa using (⟨hg.types, hg.body⟩ : Grouped { st.config with stress := st.config.stress ++ [row] } rs)
  · simpa using hg
  · simpa using (⟨hg.types, hg.body⟩ : Grouped { st.config with boxes := st.config.boxes ++ [b] } rs)
  · obtain ⟨e, p⟩ := r
    simpa [hr] using addAtom_grouped hg hc
  · simpa using setForces_grouped hg hc
  · simpa [hR] using hg

/-- The `R` lines of a list of lines, as elements and positions. -/
def rAtoms (lines : List String) : List (String × ℚ × ℚ × ℚ) := lines.filterMap rAtom

/-- **A run of lines.** -/
theorem foldlM_processLine_grouped :
    ∀ (lines : List String) {st st' : Reading} {rs : List (String × ℚ × ℚ × ℚ)},
      Grouped st.config rs → lines.foldlM (fun st line => processLine st (strip line)) st = .ok st' →
      Grouped st'.config (rs ++ rAtoms lines)
  | [], _, _, _, hg, h => by
    simp only [List.foldlM_nil, except_pure_eq_ok] at h
    subst h
    simpa [rAtoms] using hg
  | line :: lines, _, _, rs, hg, h => by
    simp only [List.foldlM_cons, except_bind_eq_ok] at h
    obtain ⟨st1, h1, h⟩ := h
    have := foldlM_processLine_grouped lines (processLine_grouped hg h1) h
    rw [List.append_assoc] at this
    convert this using 2
    simp only [rAtoms, List.filterMap_cons]
    cases rAtom line <;> rfl

theorem finishEnergy_config {potentials : List (String × ℚ)} {c c' : Configuration} {energy : Option ℚ}
    (h : finishEnergy potentials c energy = .ok c') : c' = { c with energy := c'.energy } := by
  unfold finishEnergy at h
  split at h
  · rw [except_pure_eq_ok] at h; subst h; rfl
  · rw [except_bind_eq_ok] at h
    obtain ⟨⟨_, n⟩, -, h⟩ := h
    by_cases hn : n = 0
    · simp [hn, throw, throwThe, MonadExceptOf.throw] at h
    · simp only [hn, if_false, except_pure_eq_ok] at h
      subst h; rfl

/-- **A step.** The configuration built from a step's lines holds in its
dictionaries what the step's `R` lines prescribe. -/
theorem buildConfiguration_grouped {potentials : List (String × ℚ)} {lines : List String}
    {c : Configuration} (h : buildConfiguration potentials lines = .ok c) : Grouped c (rAtoms lines) := by
  simp only [buildConfiguration, except_bind_eq_ok] at h
  obtain ⟨st, hst, hc⟩ := h
  have h0 : Grouped Reading.init.config [] := ⟨rfl, rfl⟩
  have := foldlM_processLine_grouped lines h0 hst
  rw [finishEnergy_config hc]
  exact ⟨this.types, this.body⟩

end Potfit.Castep
