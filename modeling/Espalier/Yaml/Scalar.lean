import Espalier.Number.Numeral
import Espalier.Number.Word
import Espalier.Tree
import Espalier.Yaml.Node

/-!
# What a plain scalar stands for

Two resolutions of plain scalars.  The lenient one serves documents: several words for a truth
value in any case, numbers with a base and with `_` between digits, and every decimal numeral.  The
core one serves configuration: three spellings of each word and numbers without leading zeros.
-/

namespace Espalier
namespace Yaml

/-! ## Lenient resolution -/

def isNullWord (s : String) : Bool :=
  ["", "~", "null"].contains (Ascii.fold s)

def boolWord? (s : String) : Option Bool :=
  let word := Ascii.fold s
  if ["true", "yes", "y", "on"].contains word then some true
  else if ["false", "no", "n", "off"].contains word then some false
  else none

/-- The base that a two-character mark announces, and the digits after it. -/
def based : List Char → Nat × List Char
  | '0' :: c :: rest =>
    if c = 'x' || c = 'X' then (16, rest)
    else if c = 'o' || c = 'O' then (8, rest)
    else if c = 'b' || c = 'B' then (2, rest)
    else (10, '0' :: c :: rest)
  | cs => (10, cs)

/-- The value of digits in a base, `_` being skipped; there is at least one digit. -/
def digitsValue? (base : Nat) (cs : List Char) : Option Nat := do
  let ds := cs.filter (· ≠ '_')
  if ds.isEmpty then none
  else
    let values ← ds.mapM (Ascii.digitValue? base)
    return values.foldl (fun n d => n * base + d) 0

def integer? (s : String) : Option Int := do
  let (negative, cs) := Numeral.signed s.toList
  let (base, ds) := based cs
  let n ← digitsValue? base ds
  return if negative then -(n : Int) else n

/-- The words for a number that is not finite, without their sign. -/
def specialWord? (s : String) : Option (Option Bool) :=
  let (negative, cs) := Numeral.signed s.toList
  let word := Ascii.fold (String.ofList cs)
  if [".inf", "inf", "infinity"].contains word then some (some negative)
  else if [".nan", "nan"].contains word then some none
  else none

/-- The text that stands for a number that is not finite. -/
def specialText : Option Bool → String
  | none => ".nan"
  | some false => ".inf"
  | some true => "-.inf"

/-- The tree of a number that is not an integer: a double, or the text of one that is not finite. -/
def number? (s : String) : Option Tree :=
  match specialWord? s with
  | some special => some (.text (specialText special))
  | none =>
    (Numeral.ofChars? s.toList).map fun n =>
      let x := n.toDouble
      if x.isFinite then .float x else .text (specialText (some n.negative))

def plainTree (s : String) : Tree :=
  if isNullWord s then .null
  else
    match boolWord? s with
    | some b => .bool b
    | none =>
      match integer? s with
      | some n =>
        match int64? n with
        | some i => .int i
        | none =>
          if 0 ≤ n ∧ n < UInt64.size then .float (Double.ofInt n)
          else (number? s).getD (.text s)
      | none => (number? s).getD (.text s)

def scalarTree : Style → String → Tree
  | .plain, s => plainTree s
  | .quoted, s => .text s

/-! ## Core resolution -/

/-- Whether digits start with a zero that has no meaning. -/
def hasIdleZero (cs : List Char) : Bool :=
  match (Numeral.signed cs).2 with
  | '0' :: c :: _ => c.isDigit
  | _ => false

/-- The integer of a scalar by the core rules: a base mark or digits without idle zeros. -/
def coreInteger? (s : String) : Option Int :=
  let cs := s.toList
  if cs.contains '_' || hasIdleZero cs then none
  else
    match (Numeral.signed cs).2 with
    | '0' :: 'X' :: _ => none
    | '0' :: 'O' :: _ => none
    | '0' :: 'B' :: _ => none
    | _ => integer? s

/-- The words of the core rules for a number that is not finite. -/
def coreSpecial? (s : String) : Option Double :=
  let (negative, cs) := Numeral.signed s.toList
  let word := String.ofList cs
  if [".inf", ".Inf", ".INF"].contains word then some (Double.infinity negative)
  else if [".nan", ".NaN", ".NAN"].contains s then some Double.nan
  else none

def coreTree (s : String) : Tree :=
  if ["", "~", "null", "Null", "NULL"].contains s then .null
  else if ["true", "True", "TRUE"].contains s then .bool true
  else if ["false", "False", "FALSE"].contains s then .bool false
  else
    match coreInteger? s, coreSpecial? s with
    | some n, _ =>
      match int64? n with
      | some i => .int i
      | none => .float (Double.ofInt n)
    | none, some x => .float x
    | none, none =>
      match Numeral.ofChars? s.toList with
      | some n =>
        if n.toDouble.isFinite && !hasIdleZero s.toList then .float n.toDouble else .text s
      | none => .text s

end Yaml
end Espalier
