import StreamStat.Number.Text
import StreamStat.Value.Basic

/-!
# Layout of arrays

An array is laid out in brackets, its cells aligned in columns. Floating cells share
one number of places: a cell shows its shortest digits, cut off after eight places, and
all cells have an exponent if some cell is large or small or they are far apart. Lines
are wrapped, and of a large array the middle is left out.
-/

namespace StreamStat

namespace CellType

def name : CellType → String
  | bool => "bool"
  | whole w => w.name
  | floating p => p.name
  | object => "object"

/-- Whether the cells show their type by themselves. -/
def isPlain : CellType → Bool
  | bool | whole .bits64 | floating .double => true
  | _ => false

end CellType

namespace Layout

/-! ## Floating cells -/

def maxPlaces : Nat := 8

/-- A finite number as it is laid out: the digits on both sides of the point, and an
exponent. -/
structure Figure where
  negative : Bool
  whole : List Char
  part : List Char
  exponent : Int

namespace Figure

def leftWidth (x : Figure) : Nat := x.whole.length + if x.negative then 1 else 0

/-- The digits on both sides of the point, without an exponent. -/
def positional (f : BinaryFormat) (negative : Bool) (units : Nat) : Figure :=
  let shortest := f.shortest units
  let x :=
    if -(maxPlaces : Int) ≤ shortest.exponent then shortest
    else
      (DecimalDigits.mk (divNearest (units * 10 ^ maxPlaces) Double.unitsPerOne)
        (-(maxPlaces : Int))).stripped maxPlaces
  if 0 ≤ x.exponent then ⟨negative, x.chars ++ List.replicate x.exponent.toNat '0', [], 0⟩
  else
    let places := (-x.exponent).toNat
    let cs := List.replicate (places + 1 - x.chars.length) '0' ++ x.chars
    ⟨negative, cs.take (cs.length - places), cs.drop (cs.length - places), 0⟩

/-- One digit before the point, and an exponent. -/
def scientific (f : BinaryFormat) (negative : Bool) (units : Nat) : Figure :=
  let shortest := f.shortest units
  let x :=
    if shortest.chars.length ≤ maxPlaces + 1 then shortest
    else
      let e := shortest.leading - maxPlaces
      (DecimalDigits.mk
        (divNearest (units * 10 ^ (-e).toNat) (Double.unitsPerOne * 10 ^ e.toNat)) e).stripped
        (maxPlaces + 1)
  ⟨negative, x.chars.take 1, x.chars.drop 1, if units = 0 then 0 else x.leading⟩

end Figure

def padLeft (width : Nat) (cs : List Char) : List Char :=
  List.replicate (width - cs.length) ' ' ++ cs

def padRight (c : Char) (width : Nat) (cs : List Char) : List Char :=
  cs ++ List.replicate (width - cs.length) c

def exponentDigits (e : Int) : List Char := Nat.toDigits 10 e.natAbs

/-- The column of floating cells: how wide either side of the point is, and for cells
with an exponent how many digits it has. -/
structure Column where
  left : Nat
  right : Nat
  exponent : Option Nat

namespace Column

def tail (c : Column) : Nat :=
  match c.exponent with
  | some digits => c.right + digits + 2
  | none => c.right

def figure (p : Precision) (c : Column) (negative : Bool) (units : Nat) : List Char :=
  let sign (x : Figure) : List Char := (if x.negative then ['-'] else []) ++ x.whole
  match c.exponent with
  | some digits =>
    let x := Figure.scientific p.format negative units
    let e := exponentDigits x.exponent
    padLeft c.left (sign x) ++ '.' :: padRight '0' c.right x.part ++
      'e' :: (if x.exponent < 0 then '-' else '+') :: (List.replicate (digits - e.length) '0' ++ e)
  | none =>
    let x := Figure.positional p.format negative units
    padLeft c.left (sign x) ++ '.' :: padRight ' ' c.right x.part

def cell (p : Precision) (c : Column) : Double → List Char
  | .finite negative m => c.figure p negative m.units
  | x => padLeft (c.left + c.tail + 1) x.text.toList

end Column

def greatest (ns : List Nat) : Nat := ns.foldl max 0

/-- Whether the cells are written with an exponent, given the magnitudes that are not
zero: one reaches the limit, one is below `10 ^ -4`, or two are more than a thousand
times apart. -/
def needsExponent (p : Precision) (magnitudes : List Double) : Bool :=
  match magnitudes with
  | [] => false
  | x :: xs =>
    let high := xs.foldl (fun a b => if a < b then b else a) x
    let low := xs.foldl (fun a b => if b < a then b else a) x
    let limit : Double := .ofNat (10 ^ min maxPlaces p.topExponent)
    let ratio := p.round (high / low)
    limit ≤ high || low < p.round (.ofRat (mkRat 1 10000)) || 1000 < ratio

def columnOf (p : Precision) (xs : List Double) : Column :=
  let finite := xs.filter Double.isFinite
  let figures (f : BinaryFormat → Bool → Nat → Figure) : List Figure := finite.filterMap fun
    | .finite negative m => some (f p.format negative m.units)
    | _ => none
  let column : Column :=
    if finite.isEmpty then ⟨0, 0, none⟩
    else if needsExponent p ((finite.map Double.abs).filter fun x => 0 < x) then
      let fs := figures Figure.scientific
      ⟨greatest (fs.map Figure.leftWidth), greatest (fs.map fun x => x.part.length),
        some (max 2 (greatest (fs.map fun x => (exponentDigits x.exponent).length)))⟩
    else
      let fs := figures Figure.positional
      ⟨greatest (fs.map Figure.leftWidth), greatest (fs.map fun x => x.part.length), none⟩
  if finite.length = xs.length then column
  else
    let longest := greatest ((xs.filter fun x => !x.isFinite).map fun x => x.text.length)
    { column with left := max column.left (longest - (column.tail + 1)) }

/-! ## Cells -/

/-- How many items are left at either end of an axis of a large array. -/
def edge : Nat := 3

/-- Arrays with more cells than this are not shown in full. -/
def fullSize : Nat := 1000

/-- The places on an axis that are shown, `none` for those that are left out. -/
def shownPlaces (elide : Bool) (n : Nat) : List (Option Nat) :=
  if elide && 2 * edge < n then
    (List.range edge).map some ++ none :: (List.range edge).map fun i => some (n - edge + i)
  else (List.range n).map some

variable {α : Type}

def row (rest : List Nat) (cells : List α) (i : Nat) : List α :=
  let size := rest.foldl (· * ·) 1
  (cells.drop (i * size)).take size

def shownCells (elide : Bool) : List Nat → List α → List α
  | [], cells => cells
  | n :: rest, cells =>
    ((shownPlaces elide n).filterMap id).flatMap fun i => shownCells elide rest (row rest cells i)

def double : Number → Double
  | .machineFloat _ x => x
  | _ => .nan

def cellWriter (t : CellType) (scalar : Bool) (shown : List Number) :
    Number → Except Fault String :=
  match t with
  | .bool => fun n => do
    let s ← n.text
    return if scalar then s else String.ofList (padLeft 5 s.toList)
  | .whole _ =>
    let width := greatest (shown.map fun n => (n.text.toOption.getD "").length)
    fun n => do return String.ofList (padLeft width (← n.text).toList)
  | .floating p =>
    let column := columnOf p (shown.map double)
    fun n => .ok (String.ofList (column.cell p (double n)))
  | .object => Number.written

/-! ## Brackets and lines -/

structure Lines where
  finished : String
  line : String

def spaces (n : Nat) : String := String.ofList (List.replicate n ' ')

/-- Adds a word to the line in hand, or to a new one if it does not fit. A line that
holds nothing yet is not wrapped. -/
def Lines.extend (indent width : Nat) (l : Lines) (word : String) : Lines :=
  if width < l.line.length + word.length && indent < l.line.length then
    ⟨l.finished ++ l.line.trimAsciiEnd.copy ++ "\n", spaces indent ++ word⟩
  else ⟨l.finished, l.line ++ word⟩

/-- Words on lines, a separator after each but the last. -/
def wrapped (separator : String) (indent width : Nat) : List String → Lines → Lines
  | [], l => l
  | [word], l => l.extend indent width word
  | word :: words, l =>
    let l := l.extend indent width word
    wrapped separator indent width words ⟨l.finished, l.line ++ separator⟩

def ellipsis : String := "..."

/-- Lays out the words of the cells in brackets. Rows of the last axis are wrapped, rows
of the others stand on lines of their own. -/
def brackets (elide : Bool) (separator : String) :
    List Nat → List String → Nat → Nat → String
  | [], words, _, _ => words.headD ""
  | n :: rest, words, indent, width =>
    let items := (shownPlaces elide n).map fun
      | some i => brackets elide separator rest (row rest words i) (indent + 1) (width - 1)
      | none => ellipsis
    let body :=
      match rest with
      | [] =>
        let l := wrapped separator indent (width - 1) items ⟨"", spaces indent⟩
        l.finished ++ l.line
      | _ =>
        let apart := separator.trimAsciiEnd.copy ++ String.ofList (List.replicate rest.length '\n')
        apart.intercalate (items.map fun s => spaces indent ++ s)
    "[" ++ (body.drop indent).copy ++ "]"

def lineWidth : Nat := 75

def arrayText (separator : String) (indent width : Nat) (g : Grid) : Except Fault String := do
  if g.cells.isEmpty then return "[]"
  let elide := fullSize < g.cells.length
  let write := cellWriter g.cellType g.shape.isEmpty (shownCells elide g.shape g.cells)
  let words ← g.cells.mapM write
  return brackets elide separator g.shape words indent width

end Layout

namespace Grid

/-- The text of an array; without axes it is that of its cell. -/
def text (g : Grid) : Except Fault String :=
  match g.shape, g.cells with
  | [], [n] => n.text
  | _, _ => Layout.arrayText " " 1 Layout.lineWidth g

def inlineText (g : Grid) : Except Fault String :=
  match g.shape, g.cells with
  | [], [n] => n.inlineText
  | _, _ => g.text

def shapeText (shape : List Nat) : String :=
  match shape with
  | [n] => "(" ++ toString n ++ ",)"
  | shape => "(" ++ ", ".intercalate (shape.map toString) ++ ")"

/-- What is told of an array behind its cells: its shape if that does not show, and the
type of its cells if that does not show. -/
def extras (g : Grid) : List String :=
  let size := g.cells.length
  let shape := (size = 0 && g.shape ≠ [0]) || Layout.fullSize < size
  let type := !g.cellType.isPlain || size = 0
  (if shape then ["shape=" ++ shapeText g.shape] else []) ++
    (if type then ["dtype=" ++ g.cellType.name] else [])

def written (g : Grid) : Except Fault String := do
  let head := "array("
  let body ← Layout.arrayText ", " (head.length + 1) (Layout.lineWidth - 1) g
  if g.extras.isEmpty then return head ++ body ++ ")"
  let start := head ++ body ++ ","
  let tail := ", ".intercalate g.extras ++ ")"
  let last := (start.toList.reverse.takeWhile (· ≠ '\n')).length
  let gap := if Layout.lineWidth < last + tail.length + 1 then "\n" ++ Layout.spaces head.length
    else " "
  return start ++ gap ++ tail

end Grid

end StreamStat
