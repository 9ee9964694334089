import Potfit.Except

/-!
# The info block of a tabulated potential

`read_pot_table3` (potential_input_f3.c) reads a table in the third format:
one info line `begin end nvals` per function, then the sampled values. All
functions share one flat buffer `table`: two gradient slots, then the samples,
function after function.

* `Interaction`, `Role`, `blocks`: the read loops a build compiles, each an
  index range of functions of one role;
* `readInfo`: the info-block loop, with `first`, `last` and `len` computed in
  32-bit `int` arithmetic;
* `schedule_indices`: the loops of every build visit the functions
  `0, …, num_pots - 1` once each, in order.

Doubles are exact rationals here, and rounding is outside the model: a
quotient `step` that underflows to zero on a tiny range, and the infinite or
NaN `step` of a function of one sample (where Lean's `x / 0 = 0`), are not
modelled, and what is proved about the sign of `step` holds either way.
-/

namespace Potfit.Table

/-- An `int` result as the generated code computes it: two's complement on 32 bits. -/
def int32 (x : Int) : Int := x.bmod 4294967296

theorem int32_of_range {x : Int} (lo : -2147483648 ≤ x) (hi : x < 2147483648) : int32 x = x := by
  rw [int32, Int.bmod_def]
  split <;> omega

/-- The physical model a `tab` build is compiled for, as far as `read_pot_table3`
sees it: `eam` defines `EAM`, `tbeam` defines `EAM` and `TBEAM`, `adp` defines
`ADP`, `meam` defines `MEAM`, and `pair` none of these. -/
inductive Interaction
  | pair | eam | tbeam | adp | meam
  deriving DecidableEq, Repr

/-- The potential model the build selects (wscript): only `tab` reads format 3. -/
inductive PotModel
  | tab | apot | kim
  deriving DecidableEq, Repr

/-- The compile-time choices `read_pot_table3` depends on. -/
structure Build where
  model : PotModel
  interaction : Interaction
  rescale : Bool
  meamf : Bool
  deriving DecidableEq, Repr

/-- One role per read loop of `read_pot_table3`. -/
inductive Role
  | pair | rho | embed | sRho | sEmbed | adpU | adpW | meamF | meamG
  deriving DecidableEq, Repr

/-- One read loop, `for (int i = lo; i < hi; i++)`, over functions of one role. -/
structure Block where
  role : Role
  lo : Nat
  hi : Nat
  deriving DecidableEq, Repr

def Block.indices (b : Block) : List Nat := List.range' b.lo (b.hi - b.lo)

/-- The read loops in the order the build compiles them, for `paircol` pair
columns and `ntypes` atom types (`g_calc.paircol`, `g_param.ntypes`). -/
def blocks (ia : Interaction) (paircol ntypes : Nat) : List Block :=
  let p := paircol
  let t := ntypes
  let eam : List Block := [⟨.pair, 0, p⟩, ⟨.rho, p, p + t⟩, ⟨.embed, p + t, p + 2 * t⟩]
  match ia with
  | .pair => [⟨.pair, 0, p⟩]
  | .eam => eam
  | .tbeam => eam ++ [⟨.sRho, p + 2 * t, p + 3 * t⟩, ⟨.sEmbed, p + 3 * t, p + 4 * t⟩]
  | .adp => eam ++ [⟨.adpU, p + 2 * t, 2 * (p + t)⟩, ⟨.adpW, 2 * (p + t), 3 * p + 2 * t⟩]
  | .meam => eam ++ [⟨.meamF, p + 2 * t, 2 * p + 2 * t⟩, ⟨.meamG, 2 * p + 2 * t, 2 * p + 3 * t⟩]

/-- How many functions the read loops of a build cover. -/
def numFunctions : Interaction → Nat → Nat → Nat
  | .pair, p, _ => p
  | .eam, p, t => p + 2 * t
  | .tbeam, p, t => p + 4 * t
  | .adp, p, t => 3 * p + 2 * t
  | .meam, p, t => 2 * p + 3 * t

/-- Every function the read loops visit, with its role, in visiting order. -/
def schedule (ia : Interaction) (paircol ntypes : Nat) : List (Role × Nat) :=
  (blocks ia paircol ntypes).flatMap fun b => b.indices.map (b.role, ·)

theorem range'_chain {a b c : Nat} (hab : a ≤ b) (hbc : b ≤ c) :
    List.range' a (b - a) ++ List.range' b (c - b) = List.range' a (c - a) := by
  have h := List.range'_append_1 a (b - a) (c - b)
  rwa [Nat.add_sub_cancel' hab, show c - b + (b - a) = c - a by omega] at h

/-- **The read loops tile the functions.** For every build, the loops visit the
function indices `0, …, numFunctions - 1`, each once and in increasing order. -/
theorem schedule_indices (ia : Interaction) (p t : Nat) :
    (schedule ia p t).map Prod.snd = List.range (numFunctions ia p t) := by
  have hmap (bs : List Block) : ((bs.flatMap fun b => b.indices.map (b.role, ·)).map Prod.snd) =
      bs.flatMap Block.indices := by
    induction bs with
    | nil => rfl
    | cons b bs ih => simp [ih, Function.comp_def]
  rw [schedule, hmap, List.range_eq_range']
  cases ia <;>
    simp only [blocks, numFunctions, Block.indices, List.cons_append, List.singleton_append,
      List.flatMap_cons, List.flatMap_nil, List.append_nil, List.nil_append,
      ← List.append_assoc] <;>
    (try simp (disch := omega) only [range'_chain]) <;> rfl

/-- An argument of a diagnostic, as `error` formats it. -/
inductive Arg
  | str (s : String)
  | int (n : Int)
  | real (x : ℚ)
  deriving DecidableEq, Repr

/-- A fatal `error(1, fmt, args...)`, with the `error(0, ...)` lines printed before it. -/
structure Fatal where
  warnings : List String
  fmt : String
  args : List Arg
  deriving DecidableEq, Repr

def Fatal.of (fmt : String) (args : List Arg) : Fatal := ⟨[], fmt, args⟩

/-- One line of the info block, as `fscanf(pfile, "%lf %lf %d", ...)` scans it. -/
structure InfoLine where
  begin : ℚ
  «end» : ℚ
  nvals : Int
  deriving DecidableEq, Repr, Inhabited

/-- What the info-block loop stores for one function: `pt->begin[i]`, `pt->end[i]`,
`pt->step[i]`, `pt->invstep[i]`, `pt->first[i]`, `pt->last[i]`, and the local `nvals[i]`. -/
structure Grid where
  begin : ℚ
  «end» : ℚ
  nvals : Int
  step : ℚ
  invstep : ℚ
  first : Int
  last : Int
  deriving DecidableEq, Repr, Inhabited

/-- The entries of function `i`, read from `ln`, when function `i - 1` ended at `last`. -/
def gridOf (i : Nat) (last : Int) (ln : InfoLine) : Grid :=
  let step := (ln.«end» - ln.begin) / ((int32 (ln.nvals - 1) : Int) : ℚ)
  let first := if i = 0 then 2 else int32 (last + 3)
  { begin := ln.begin, «end» := ln.«end», nvals := ln.nvals, step, invstep := 1 / step,
    first, last := int32 (int32 (first + ln.nvals) - 1) }

def infoError (filename : String) (i : Nat) : Fatal :=
  .of "Premature end of potential file %s\n(in info block line %d)\n" [.str filename, .int i]

/-- The info-block loop from function `i` on, with `n` functions to go, after a
function ending at `last`; `len` is `pt->len` so far. -/
def infoLoop (filename : String) :
    Nat → Nat → Int → Int → List InfoLine → Except Fatal (List Grid × Int)
  | _, 0, _, len, _ => pure ([], len)
  | i, _ + 1, _, _, [] => throw (infoError filename i)
  | i, n + 1, last, _, ln :: lns => do
    let g := gridOf i last ln
    let (gs, len) ← infoLoop filename (i + 1) n g.last (int32 (g.first + ln.nvals)) lns
    pure (g :: gs, len)

/-- The info block of `num_pots` functions. `pt->len` starts at zero, as in the
zero-initialised global `g_pot`. -/
def readInfo (filename : String) (numPots : Nat) (info : List InfoLine) :
    Except Fatal (List Grid × Int) :=
  infoLoop filename 0 numPots 0 0 info

/-! ## The layout without overflow -/

/-- The slots the functions of `info` take: two gradient slots and `nvals` samples each. -/
def slots (info : List InfoLine) : Int := (info.map fun ln => ln.nvals + 2).sum

/-- The entries of a function read from `ln` that starts after `b` slots, in
exact arithmetic. -/
def exactGrid (b : Int) (ln : InfoLine) : Grid :=
  let step := (ln.«end» - ln.begin) / ((ln.nvals - 1 : Int) : ℚ)
  { begin := ln.begin, «end» := ln.«end», nvals := ln.nvals, step, invstep := 1 / step,
    first := b + 2, last := b + 1 + ln.nvals }

@[simp] theorem exactGrid_first (b : Int) (ln : InfoLine) : (exactGrid b ln).first = b + 2 := rfl

@[simp] theorem exactGrid_last (b : Int) (ln : InfoLine) : (exactGrid b ln).last = b + 1 + ln.nvals := rfl

@[simp] theorem exactGrid_nvals (b : Int) (ln : InfoLine) : (exactGrid b ln).nvals = ln.nvals := rfl

/-- The info-block entries in exact arithmetic, for functions that start after
`b` slots: each function starts two slots past the slots of those before it. -/
def layout (b : Int) : List InfoLine → List Grid
  | [] => []
  | ln :: lns => exactGrid b ln :: layout (b + ln.nvals + 2) lns

@[simp] theorem slots_nil : slots [] = 0 := rfl

@[simp] theorem slots_cons (ln : InfoLine) (lns : List InfoLine) :
    slots (ln :: lns) = ln.nvals + 2 + slots lns := by
  simp [slots]

theorem slots_nonneg {info : List InfoLine} (h : ∀ ln ∈ info, 0 ≤ ln.nvals) : 0 ≤ slots info := by
  induction info with
  | nil => simp
  | cons ln lns ih =>
    simp only [List.mem_cons, forall_eq_or_imp] at h
    simp only [slots_cons]
    have := ih h.2
    omega

theorem infoLoop_layout (filename : String) :
    ∀ (lns : List InfoLine) (i : Nat) (last len : Int), (∀ ln ∈ lns, 0 ≤ ln.nvals) →
      0 ≤ len → len + slots lns < 2147483648 →
      (lns ≠ [] → (if i = 0 then 2 else int32 (last + 3)) = len + 2) →
      infoLoop filename i lns.length last len lns = .ok (layout len lns, len + slots lns)
  | [], _, _, len, _, _, _, _ => by simp [infoLoop, layout, pure, Except.pure]
  | ln :: lns, i, last, len, hn, h0, hb, hf => by
    simp only [List.mem_cons, forall_eq_or_imp] at hn
    have hs := slots_nonneg hn.2
    simp only [slots_cons] at hb
    have hfirst := hf (List.cons_ne_nil _ _)
    have hend : int32 (len + 2 + ln.nvals) = len + 2 + ln.nvals := int32_of_range (by omega) (by omega)
    have hlast : int32 (len + 2 + ln.nvals - 1) = len + 1 + ln.nvals :=
      (int32_of_range (by omega) (by omega)).trans (by omega)
    have hstep : int32 (ln.nvals - 1) = ln.nvals - 1 := int32_of_range (by omega) (by omega)
    have ih := infoLoop_layout filename lns (i + 1) (len + 1 + ln.nvals) (len + ln.nvals + 2) hn.2
      (by omega) (by omega) (fun hne => by
        have : 2 ≤ slots lns := by
          obtain ⟨l, ls, rfl⟩ := List.exists_cons_of_ne_nil hne
          have := slots_nonneg (fun x hx => hn.2 x (List.mem_cons_of_mem _ hx))
          simp only [List.mem_cons, forall_eq_or_imp] at hn
          simp only [slots_cons]
          omega
        simp only [Nat.add_one_ne_zero, if_false]
        exact (int32_of_range (by omega) (by omega)).trans (by omega))
    simp only [List.length_cons, infoLoop, gridOf, hfirst, hend, hlast, hstep, layout, exactGrid]
    rw [show len + 2 + ln.nvals = len + ln.nvals + 2 by omega, ih]
    simp only [bind, Except.bind, pure, Except.pure, slots_cons, Except.ok.injEq, Prod.mk.injEq,
      true_and]
    omega

/-- **No overflow, no wrap.** When every sample count is non-negative and the
slots fit in an `int`, the info-block loop computes the exact layout, and
`pt->len` is the number of slots. -/
theorem readInfo_layout (filename : String) (info : List InfoLine)
    (hn : ∀ ln ∈ info, 0 ≤ ln.nvals) (hb : slots info < 2147483648) :
    readInfo filename info.length info = .ok (layout 0 info, slots info) := by
  have h := infoLoop_layout filename info 0 0 0 hn le_rfl (by omega) (fun _ => by simp)
  simpa using h

end Potfit.Table
