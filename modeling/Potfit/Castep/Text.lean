import Potfit.Except

/-!
# The Python primitives castep2force relies on

`castep2force` reads CASTEP `.md` files with a handful of Python built-ins:
`str.strip` and `str.split` on whitespace, `int` and `float` on the tokens, and
the format `'{:23.16E}'` on output. They are modelled here on character lists,
by structural recursion, so that every definition runs:

* `isSpace` is `str.isspace`; `strip` and `split` drop and split on it;
* `pyInt` and `pyFloat` accept Python's decimal literals (with `_` between
  digits) and raise `ValueError` on anything else;
* `formatE` prints a number in the layout of `'{:23.16E}'`, rounding half to
  even.

Floats are exact rationals: rounding to binary is outside the model, and so
are `float('inf')` and `float('nan')`, which stop the model with `nonFinite`.
-/

namespace Potfit.Castep

/-- The exceptions castep2force can raise, and `sys.exit(1)` with the text
`fatal` wrote to stderr. -/
inductive PyError where
  | valueError
  | indexError
  | keyError
  | attributeError
  | zeroDivisionError
  | nonFinite
  | exit (stderr : String)
  deriving DecidableEq, Repr

/-- `fatal(message)`: `FATAL: message` on stderr, newline-terminated, then exit. -/
def fatal (message : String) : PyError :=
  if message.endsWith "\n" then .exit ("FATAL: " ++ message)
  else .exit ("FATAL: " ++ message ++ "\n")

/-! ## Whitespace -/

/-- `str.isspace` on one character: the characters of Unicode class `Zs` or
bidirectional class `WS`, `B` or `S`. -/
def isSpace (c : Char) : Bool :=
  let n := c.toNat
  (9 ≤ n && n ≤ 13) || (28 ≤ n && n ≤ 32) || n == 133 || n == 160 || n == 5760 ||
    (8192 ≤ n && n ≤ 8202) || n == 8232 || n == 8233 || n == 8239 || n == 8287 || n == 12288

def stripChars (cs : List Char) : List Char :=
  ((cs.dropWhile isSpace).reverse.dropWhile isSpace).reverse

/-- `str.strip()`. -/
def strip (s : String) : String := ⟨stripChars s.toList⟩

/-- `str.split()` over characters, `cur` the token being read, reversed. -/
def splitAux : List Char → List Char → List String
  | [], [] => []
  | [], cur => [⟨cur.reverse⟩]
  | c :: cs, cur =>
    if isSpace c then
      if cur.isEmpty then splitAux cs [] else ⟨cur.reverse⟩ :: splitAux cs []
    else splitAux cs (c :: cur)

/-- `str.split()`: the maximal runs of non-whitespace characters. -/
def split (s : String) : List String := splitAux s.toList []

example : split " Ar 1\t0.5  R\n" = ["Ar", "1", "0.5", "R"] := by decide

/-- `s.split(sep)` for a one-character separator: the pieces between the
separators, empty ones included. -/
def splitSep (sep : Char) (s : String) : List String := (s.toList.splitOn sep).map String.mk

example : splitSep ',' "Ar=0.01,,Si" = ["Ar=0.01", "", "Si"] := by decide

/-! ## Indexing -/

/-- The position a Python index `i` names in a list of `len` items: a
negative index counts from the end. -/
def pyIndex (len : Nat) (i : Int) : Option Nat :=
  let j := if i < 0 then i + len else i
  if 0 ≤ j ∧ j < len then some j.toNat else none

/-- `xs[i]`, raising `IndexError` out of range. -/
def pyGet {α : Type} (xs : List α) (i : Int) : Except PyError α :=
  match (pyIndex xs.length i).bind (xs[·]?) with
  | some x => pure x
  | none => throw .indexError

/-- `xs[-1]`: the last item. -/
theorem pyGet_neg_one {α : Type} (x : α) (xs : List α) :
    pyGet (x :: xs) (-1) = .ok ((x :: xs).getLast (List.cons_ne_nil x xs)) := by
  have hi : pyIndex (x :: xs).length (-1) = some xs.length := by
    simp only [pyIndex, List.length_cons]
    rw [if_pos (by omega), if_pos (by omega)]
    congr 1
    omega
  have hx : (x :: xs)[xs.length]? = some ((x :: xs).getLast (List.cons_ne_nil x xs)) := by
    rw [List.getLast_eq_getElem, List.getElem?_eq_getElem]
    rfl
  simp only [pyGet, hi, Option.some_bind, hx]
  rfl

/-! ## Numbers -/

def digitVal (c : Char) : Nat := c.toNat - 48

/-- Python's `digitpart`, `digit (["_"] digit)*`, continued from the value
`acc` of `n` digits already read: the value and count of the digits of the
longest prefix it matches, and the rest. -/
def digitPart (acc n : Nat) : List Char → Nat × Nat × List Char
  | [] => (acc, n, [])
  | c :: cs =>
    if c.isDigit then digitPart (10 * acc + digitVal c) (n + 1) cs
    else if c = '_' ∧ 0 < n then
      match cs with
      | d :: ds => if d.isDigit then digitPart (10 * acc + digitVal d) (n + 1) ds else (acc, n, c :: cs)
      | [] => (acc, n, [c])
    else (acc, n, c :: cs)

/-- An optional sign: whether it is `-`, and the rest. -/
def takeSign : List Char → Bool × List Char
  | '-' :: cs => (true, cs)
  | '+' :: cs => (false, cs)
  | cs => (false, cs)

/-- `int(s)` in base 10. -/
def pyInt (s : String) : Except PyError Int :=
  let (neg, cs) := takeSign (stripChars s.toList)
  match digitPart 0 0 cs with
  | (v, n, []) => if n = 0 then throw .valueError else pure (if neg then -(v : Int) else v)
  | _ => throw .valueError

/-- `m · 10^k` as a rational. -/
def scale (m : Nat) (k : Int) : ℚ :=
  if 0 ≤ k then ((m * 10 ^ k.toNat : Nat) : ℚ) else (m : ℚ) / ((10 ^ (-k).toNat : Nat) : ℚ)

/-- The exponent of a float literal: `(e|E) [sign] digitpart`, or none. -/
def exponentPart : List Char → Option (Int × List Char)
  | c :: cs =>
    if c = 'e' ∨ c = 'E' then
      let (neg, r) := takeSign cs
      match digitPart 0 0 r with
      | (v, n, r) => if n = 0 then none else some (if neg then -(v : Int) else v, r)
    else some (0, c :: cs)
  | [] => some (0, [])

/-- The infinities and NaN `float` accepts, in any case. -/
def isNonFinite (cs : List Char) : Bool :=
  let s := cs.map Char.toLower
  s = "inf".toList ∨ s = "infinity".toList ∨ s = "nan".toList

/-- `float(s)` on a decimal literal,
`[sign] (digitpart ["." [digitpart]] | "." digitpart) [exponent]`, exactly. -/
def pyFloat (s : String) : Except PyError ℚ :=
  let (neg, cs) := takeSign (stripChars s.toList)
  if isNonFinite cs then throw .nonFinite else
  let (ip, ni, r) := digitPart 0 0 cs
  let (fp, nf, dot, r) := match r with
    | '.' :: r => let (fp, nf, r) := digitPart 0 0 r; (fp, nf, true, r)
    | r => (0, 0, false, r)
  match exponentPart r with
  | some (e, []) =>
    if ni + nf = 0 ∨ (!dot && nf != 0) then throw .valueError
    else
      let q := scale (ip * 10 ^ nf + fp) (e - nf)
      pure (if neg then -q else q)
  | _ => throw .valueError

example : (pyFloat "-1_0.25e-1").toOption = some (-1.025) := by with_unfolding_all decide
example : (pyFloat "1.e").toOption = none := by decide

/-! ## `'{:23.16E}'` -/

/-- `num / den` rounded to an integer, ties to even. -/
def roundHalfEven (num den : Nat) : Nat :=
  let q := num / den
  let r := num % den
  if den < 2 * r ∨ (2 * r = den ∧ q % 2 = 1) then q + 1 else q

/-- Whether `a / b ≥ 10^e`. -/
def geTenPow (a b : Nat) (e : Int) : Bool :=
  if 0 ≤ e then b * 10 ^ e.toNat ≤ a else b ≤ a * 10 ^ (-e).toNat

/-- The decimal exponent of `a / b > 0`: `10^e ≤ a / b < 10^(e+1)`. -/
def decExp (a b : Nat) : Int :=
  let e := ((Nat.toDigits 10 a).length : Int) - (Nat.toDigits 10 b).length
  if geTenPow a b e then e else e - 1

/-- The 17 significant digits of `a / b` at exponent `e`, rounded. -/
def mantissa (a b : Nat) (e : Int) : Nat :=
  let k := 16 - e
  if 0 ≤ k then roundHalfEven (a * 10 ^ k.toNat) b else roundHalfEven a (b * 10 ^ (-k).toNat)

/-- The digits and exponent `'{:.16E}'` prints for `x`. -/
def sciDigits (x : ℚ) : Nat × Int :=
  if x = 0 then (0, 0)
  else
    let e := decExp x.num.natAbs x.den
    let m := mantissa x.num.natAbs x.den e
    if m = 10 ^ 17 then (10 ^ 16, e + 1) else (m, e)

/-- `'{:23.16E}'.format(x)`: sign, one digit, a point, sixteen digits, `E`, the
exponent's sign and at least two digits, right-aligned in 23 characters. -/
def formatE (x : ℚ) : String :=
  let (m, e) := sciDigits x
  let ds := (Nat.toDigits 10 m).leftpad 17 '0'
  let body := (if x < 0 then "-" else "") ++ String.mk (ds.take 1) ++ "." ++ String.mk (ds.drop 1) ++
    "E" ++ (if e < 0 then "-" else "+") ++ String.mk ((Nat.toDigits 10 e.natAbs).leftpad 2 '0')
  String.mk (body.toList.leftpad 23 ' ')

example : formatE (-1/3) = "-3.3333333333333333E-01" := by with_unfolding_all decide
example : formatE 0.529177210903 = " 5.2917721090300000E-01" := by with_unfolding_all decide


end Potfit.Castep
