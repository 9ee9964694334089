import Potfit.Castep.Text

/-!
# Configurations and their output

The classes `Atom`, `Box` and `Configuration` of castep2force, and
`Configuration.to_string`, which writes one configuration in potfit's force
file format. A Python `OrderedDict` keyed by element symbols is the list of its
items in insertion order (`odGet`, `odSet`).
-/

namespace Potfit.Castep

/-- An atom: its type index, its position, and its forces once `set_forces`
has run (until then `to_string` raises `AttributeError`). -/
structure Atom where
  type : Nat
  x : ℚ
  y : ℚ
  z : ℚ
  forces : Option (ℚ × ℚ × ℚ)
  deriving DecidableEq, Repr

structure Box where
  x : ℚ
  y : ℚ
  z : ℚ
  deriving DecidableEq, Repr

/-- `Atom.to_string`. -/
def Atom.toString (a : Atom) : Except PyError String :=
  match a.forces with
  | none => throw .attributeError
  | some (fx, fy, fz) =>
    pure (ToString.toString a.type ++ " " ++ formatE a.x ++ " " ++ formatE a.y ++ " " ++
      formatE a.z ++ " " ++ formatE fx ++ " " ++ formatE fy ++ " " ++ formatE fz)

/-- `Box.to_string`. -/
def Box.toString (b : Box) : String :=
  formatE b.x ++ " " ++ formatE b.y ++ " " ++ formatE b.z

/-! ## Ordered dictionaries -/

section
variable {α : Type}

/-- `d[k]`, raising `KeyError`. -/
def odGet (d : List (String × α)) (k : String) : Except PyError α :=
  match d.lookup k with
  | some v => pure v
  | none => throw .keyError

theorem odGet_eq_ok {d : List (String × α)} {k : String} {v : α} :
    odGet d k = .ok v ↔ d.lookup k = some v := by
  unfold odGet
  cases h : d.lookup k <;> simp [pure, Except.pure, throw, throwThe, MonadExceptOf.throw]

/-- `d[k] = v`: replaces the value in place, or appends a new item. -/
def odSet (d : List (String × α)) (k : String) (v : α) : List (String × α) :=
  if d.any (·.1 == k) then d.map fun p => if p.1 == k then (k, v) else p else d ++ [(k, v)]

theorem any_key_iff (d : List (String × α)) (k : String) :
    d.any (·.1 == k) = true ↔ k ∈ d.map Prod.fst := by
  simp only [List.any_eq_true, beq_iff_eq, Prod.exists, exists_and_right, exists_eq_right,
    List.mem_map]

theorem odSet_of_not_mem {d : List (String × α)} {k : String} (h : k ∉ d.map Prod.fst) (v : α) :
    odSet d k v = d ++ [(k, v)] := by
  rw [odSet, if_neg (mt (any_key_iff d k).mp h)]

theorem odSet_of_mem {d : List (String × α)} {k : String} (h : k ∈ d.map Prod.fst) (v : α) :
    odSet d k v = d.map fun p => if p.1 = k then (k, v) else p := by
  simp only [odSet, (any_key_iff d k).mpr h, if_true, beq_iff_eq]

theorem odSet_keys (d : List (String × α)) (k : String) (v : α) :
    (odSet d k v).map Prod.fst = if k ∈ d.map Prod.fst then d.map Prod.fst else d.map Prod.fst ++ [k] := by
  by_cases h : k ∈ d.map Prod.fst
  · rw [odSet_of_mem h, if_pos h, List.map_map]
    congr 1
    funext p
    by_cases hp : p.1 = k <;> simp [hp]
  · rw [odSet_of_not_mem h, if_neg h]
    simp

/-- Mapping the values commutes with `d[k] = v`. -/
theorem odSet_mapValues {β : Type} (f : α → β) (d : List (String × α)) (k : String) (v : α) :
    (odSet d k v).map (fun p => (p.1, f p.2)) = odSet (d.map fun p => (p.1, f p.2)) k (f v) := by
  have hk : (k ∈ (d.map fun p => (p.1, f p.2)).map Prod.fst) ↔ k ∈ d.map Prod.fst := by
    simp only [List.map_map]; rfl
  by_cases h : k ∈ d.map Prod.fst
  · rw [odSet_of_mem h, odSet_of_mem (hk.mpr h), List.map_map, List.map_map]
    congr 1
    funext p
    by_cases hp : p.1 = k <;> simp [hp]
  · rw [odSet_of_not_mem h, odSet_of_not_mem (mt hk.mp h)]
    simp

theorem lookup_mapValues {β : Type} (f : α → β) (d : List (String × α)) (k : String) :
    (d.map fun p => (p.1, f p.2)).lookup k = (d.lookup k).map f := by
  induction d with
  | nil => rfl
  | cons p d ih =>
    obtain ⟨a, b⟩ := p
    simp only [List.map_cons, List.lookup_cons]
    split <;> simp_all

theorem lookup_of_not_mem {d : List (String × α)} {k : String} (h : k ∉ d.map Prod.fst) :
    d.lookup k = none :=
  List.lookup_eq_none_iff.mpr fun p hp => by
    simpa using fun hk : k = p.1 => h (List.mem_map.mpr ⟨p, hp, hk.symm⟩)

theorem lookup_append_new {d : List (String × α)} {k : String} (h : k ∉ d.map Prod.fst) (v : α) :
    (d ++ [(k, v)]).lookup k = some v := by
  simp [List.lookup_append, lookup_of_not_mem h]

theorem lookup_map_set (d : List (String × α)) (k k' : String) (v : α) :
    (d.map fun p => if p.1 = k then (k, v) else p).lookup k' =
      if k' = k ∧ k ∈ d.map Prod.fst then some v else d.lookup k' := by
  induction d with
  | nil => simp only [List.map_nil, List.lookup_nil, List.not_mem_nil, and_false, if_false]
  | cons p d ih =>
    obtain ⟨a, b⟩ := p
    by_cases ha : a = k
    · subst ha
      by_cases h' : k' = a
      · simp only [h', List.map_cons, if_true, List.lookup_cons_self, List.map_cons,
          List.mem_cons, true_or, and_self]
      · simp only [List.map_cons, if_true, List.lookup_cons, beq_false_of_ne h', ih, h',
          false_and, if_false]
    · by_cases h' : k' = a
      · subst h'
        simp only [List.map_cons, ha, if_false, List.lookup_cons_self, false_and]
      · simp only [List.map_cons, ha, if_false, List.lookup_cons, beq_false_of_ne h', ih,
          List.mem_cons, Ne.symm ha, false_or]

/-- `d[k] = v`, then `d[k']`: `v` for `k`, and the old value for any other key. -/
theorem lookup_odSet (d : List (String × α)) (k k' : String) (v : α) :
    (odSet d k v).lookup k' = if k' = k then some v else d.lookup k' := by
  by_cases hk : k ∈ d.map Prod.fst
  · rw [odSet_of_mem hk, lookup_map_set]
    by_cases h' : k' = k <;> simp [h', hk]
  · rw [odSet_of_not_mem hk, List.lookup_append]
    by_cases h' : k' = k
    · subst h'
      simp [lookup_of_not_mem hk, List.lookup_cons]
    · cases d.lookup k' <;> simp [h', beq_false_of_ne h', List.lookup_cons]

/-- Setting a key just appended replaces its value. -/
theorem odSet_append_new {d : List (String × α)} {k : String} (h : k ∉ d.map Prod.fst) (v w : α) :
    odSet (d ++ [(k, v)]) k w = d ++ [(k, w)] := by
  rw [odSet_of_mem (List.mem_map_of_mem Prod.fst (List.mem_append_right d (List.mem_singleton_self _))),
    List.map_append]
  congr 1
  · conv_rhs => rw [← List.map_id d]
    apply List.map_congr_left
    intro p hp
    have : p.1 ≠ k := fun hk => h (List.mem_map.mpr ⟨p, hp, hk⟩)
    simp [this]
  · simp

/-- Writing back the value a key holds changes nothing, when keys are unique. -/
theorem odSet_self {d : List (String × α)} (hd : (d.map Prod.fst).Nodup) {k : String} {v : α}
    (h : d.lookup k = some v) : odSet d k v = d := by
  obtain ⟨l₁, l₂, rfl, h₁⟩ := List.lookup_eq_some_iff.mp h
  rw [odSet_of_mem (List.mem_map_of_mem Prod.fst (List.mem_append_right l₁ (List.mem_cons_self _ _)))]
  conv_rhs => rw [← List.map_id (l₁ ++ (k, v) :: l₂)]
  apply List.map_congr_left
  intro p hp
  by_cases hpk : p.1 = k
  · simp only [List.map_append, List.map_cons, List.nodup_append, List.nodup_cons] at hd
    rcases List.mem_append.mp hp with hp | hp
    · simpa [hpk] using h₁ p hp
    · rcases List.mem_cons.mp hp with rfl | hp
      · simp
      · exact absurd (hpk ▸ List.mem_map_of_mem Prod.fst hp) hd.2.1.1
  · simp [hpk]

end

/-- A configuration: `types_of_element` and `body` are `OrderedDict`s, a
stress row is the list `[x, y, z]`. -/
structure Configuration where
  typesOfElement : List (String × Nat)
  boxes : List Box
  energy : Option ℚ
  stress : List (ℚ × ℚ × ℚ)
  body : List (String × List Atom)
  deriving DecidableEq, Repr

/-- `Configuration()`. -/
def Configuration.init : Configuration := ⟨[], [], none, [], []⟩

/-- The header lines of `to_string`, from `#N` to `#F`. -/
def Configuration.header (c : Configuration) : Except PyError (List String) := do
  let numberOfAtoms := (c.body.map fun p => p.2.length).sum
  let bx ← pyGet c.boxes 0
  let byy ← pyGet c.boxes 1
  let bz ← pyGet c.boxes 2
  let stressLine := match c.stress with
    | [s0, s1, s2] =>
      ["#S " ++ formatE s0.1 ++ " " ++ formatE s1.2.1 ++ " " ++ formatE s2.2.2 ++ " " ++
        formatE s0.2.1 ++ " " ++ formatE s1.2.2 ++ " " ++ formatE s0.2.2]
    | _ => []
  -- `self.energy if self.energy else 0`: `None` and `0.0` both print as 0
  pure (["#N " ++ ToString.toString numberOfAtoms ++ " 1",
    "#C " ++ " ".intercalate (c.typesOfElement.map Prod.fst),
    "#X " ++ bx.toString, "#Y " ++ byy.toString, "#Z " ++ bz.toString,
    "#E " ++ formatE (c.energy.getD 0)] ++ stressLine ++ ["#F"])

/-- The lines `to_string` joins: the header, one line per atom of `body` in
order, and an empty last line. -/
def Configuration.toLines (c : Configuration) : Except PyError (List String) := do
  let header ← c.header
  let atoms ← (c.body.flatMap Prod.snd).mapM Atom.toString
  pure (header ++ atoms ++ [""])

/-- `Configuration.to_string`. -/
def Configuration.toString (c : Configuration) : Except PyError String :=
  c.toLines.map ("\n".intercalate)

end Potfit.Castep
