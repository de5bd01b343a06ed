import Soundscape.Number.Scalar

/-!
# Easing curves

An easing curve turns the share of a cycle that has passed into progress.  Most curves are a shape
in one of three directions: `In` starts slowly, `Out` ends slowly, `InOut` does both.  The return
curves go out and come back within one cycle.  The input is never clamped.
-/

namespace Soundscape

/-- The functions beyond arithmetic that curves are made of. -/
class RealFunctions (α : Type) where
  sqrt : α → α
  sin : α → α
  cos : α → α
  exp2 : α → α
  pi : α

instance : RealFunctions Float where
  sqrt := Float.sqrt
  sin := Float.sin
  cos := Float.cos
  exp2 x := Float.pow 2.0 x
  pi := 3.141592653589793

/-- Which end of a cycle is slow. -/
inductive Way where
  | slowStart
  | slowEnd
  | slowEnds
  deriving Repr, DecidableEq

/-- The shapes that come in all three directions. -/
inductive Shape where
  | quad
  | cubic
  | quart
  | quint
  | sine
  | expo
  | circ
  | back
  | elastic
  | bounce
  deriving Repr, DecidableEq

/-- The curves that go out and come back along the same path. -/
inductive Return where
  | sine
  | cosine
  | elastic
  | bounce
  deriving Repr, DecidableEq

/-- An easing curve. -/
inductive Ease where
  | linear
  | shaped (way : Way) (shape : Shape)
  | wave
  | thereAndBack (path : Return)
  deriving Repr, DecidableEq

/-! ## Names -/

/-- The part of a name that tells the direction. -/
def Way.name : Way → String
  | .slowStart => "In"
  | .slowEnd => "Out"
  | .slowEnds => "InOut"

/-- The part of a name that tells the shape. -/
def Shape.name : Shape → String
  | .quad => "Quad"
  | .cubic => "Cubic"
  | .quart => "Quart"
  | .quint => "Quint"
  | .sine => "Sine"
  | .expo => "Expo"
  | .circ => "Circ"
  | .back => "Back"
  | .elastic => "Elastic"
  | .bounce => "Bounce"

/-- The part of a name that tells the path. -/
def Return.name : Return → String
  | .sine => "Sine"
  | .cosine => "Cosine"
  | .elastic => "Elastic"
  | .bounce => "Bounce"

namespace Ease

def name : Ease → String
  | linear => "Linear"
  | shaped way shape => way.name ++ shape.name
  | wave => "Sine"
  | thereAndBack path => path.name ++ "Return"

def ways : List Way := [.slowStart, .slowEnd, .slowEnds]

def shapes : List Shape :=
  [.quad, .cubic, .quart, .quint, .sine, .expo, .circ, .back, .elastic, .bounce]

def returns : List Return := [.sine, .cosine, .elastic, .bounce]

def all : List Ease :=
  linear :: (shapes.flatMap fun s => ways.map fun w => shaped w s)
    ++ wave :: returns.map thereAndBack

/-- The small form of a character, as far as names of curves are concerned: ASCII capitals have
one, and so has the Kelvin sign, whose small form is `k`. -/
def small (c : Char) : Char :=
  if c.toNat = 0x212a then 'k' else c.toLower

/-- The text without a leading `ease`, unless that is all of it. -/
def dropEase : List Char → List Char
  | 'e' :: 'a' :: 's' :: 'e' :: c :: rest => c :: rest
  | cs => cs

/-- What of a name counts: neither case, nor `_`, `-` and spaces, nor a leading `ease`. -/
def key (name : List Char) : List Char :=
  dropEase ((name.filter fun c => c != '_' && c != '-' && c != ' ').map small)

/-- The curve of a name, if there is one. -/
def ofName? (name : String) : Option Ease :=
  all.find? fun e => key e.name.toList == key name.toList

/-- The curve of a name; unknown names give `linear`. -/
def ofName (name : String) : Ease :=
  (ofName? name).getD linear

/-- Whether the curve comes back to where it started. -/
def isReturn : Ease → Bool
  | wave | thereAndBack _ => true
  | _ => false

/-! ## Curves -/

section Curves

variable {α : Type} [Scalar α] [RealFunctions α]

open RealFunctions Scalar

def square (t : α) : α := t * t

def cube (t : α) : α := t * t * t

def fourth (t : α) : α := square (square t)

def fifth (t : α) : α := t * fourth t

/-- A power `p` in one of the directions, where `k` is two to the degree less one. -/
def powered (p : α → α) (k : α) (t : α) : Way → α
  | .slowStart => p t
  | .slowEnd => 1.0 - p (1.0 - t)
  | .slowEnds => if t < 0.5 then k * p t else 1.0 - p (-2.0 * t + 2.0) / 2.0

/-- A quarter of a circle's arc taken as progress. -/
def sinusoid (t : α) : Way → α
  | .slowStart => 1.0 - cos (t * pi / 2.0)
  | .slowEnd => sin (t * pi / 2.0)
  | .slowEnds => -(cos (pi * t) - 1.0) / 2.0

/-- Ten doublings, cut off at the ends of the unit interval. -/
def exponential (t : α) : Way → α
  | .slowStart => if same t 0 then 0 else exp2 (10.0 * t - 10.0)
  | .slowEnd => if same t 1.0 then 1.0 else 1.0 - exp2 (-10.0 * t)
  | .slowEnds =>
    if same t 0 then 0
    else if same t 1.0 then 1.0
    else if t < 0.5 then exp2 (20.0 * t - 10.0) / 2.0
    else (2.0 - exp2 (-20.0 * t + 10.0)) / 2.0

/-- The square root, with zero for a negative number. -/
def root (x : α) : α := sqrt (larger x 0)

def circular (t : α) : Way → α
  | .slowStart => 1.0 - root (1.0 - square t)
  | .slowEnd => root (1.0 - square (t - 1.0))
  | .slowEnds =>
    if t < 0.5 then (1.0 - root (1.0 - square (2.0 * t))) / 2.0
    else (root (1.0 - square (-2.0 * t + 2.0)) + 1.0) / 2.0

def overshoot : α := 1.70158

/-- How far each half of a two-sided `back` curve overshoots. -/
def halfOvershoot : α := overshoot * 1.525

/-- A curve that goes beyond its ends and comes back. -/
def overshooting (t : α) : Way → α
  | .slowStart => (overshoot + 1.0) * t * t * t - overshoot * t * t
  | .slowEnd =>
    1.0 + (overshoot + 1.0) * cube (t - 1.0) + overshoot * square (t - 1.0)
  | .slowEnds =>
    if t < 0.5 then
      (square (2.0 * t) * ((halfOvershoot + 1.0) * 2.0 * t - halfOvershoot)) / 2.0
    else
      (square (2.0 * t - 2.0) * ((halfOvershoot + 1.0) * (t * 2.0 - 2.0) + halfOvershoot) + 2.0)
        / 2.0

def springOut (t : α) : α :=
  if same t 0 then 0
  else if same t 1.0 then 1.0
  else exp2 (-10.0 * t) * sin ((t * 10.0 - 0.75) * (2.0 * pi / 3.0)) + 1.0

def spring (t : α) : Way → α
  | .slowStart =>
    if same t 0 then 0
    else if same t 1.0 then 1.0
    else -(exp2 (10.0 * t - 10.0)) * sin ((t * 10.0 - 10.75) * (2.0 * pi / 3.0))
  | .slowEnd => springOut t
  | .slowEnds =>
    if same t 0 then 0
    else if same t 1.0 then 1.0
    else if t < 0.5 then
      -(exp2 (20.0 * t - 10.0) * sin ((20.0 * t - 11.125) * (2.0 * pi / 4.5))) / 2.0
    else
      (exp2 (-20.0 * t + 10.0) * sin ((20.0 * t - 11.125) * (2.0 * pi / 4.5))) / 2.0 + 1.0

/-- Four parabolas, each bounce lower than the one before. -/
def bounceOut (t : α) : α :=
  if t < 1.0 / 2.75 then 7.5625 * t * t
  else if t < 2.0 / 2.75 then
    let t := t - 1.5 / 2.75
    7.5625 * t * t + 0.75
  else if t < 2.5 / 2.75 then
    let t := t - 2.25 / 2.75
    7.5625 * t * t + 0.9375
  else
    let t := t - 2.625 / 2.75
    7.5625 * t * t + 0.984375

def bouncing (t : α) : Way → α
  | .slowStart => 1.0 - bounceOut (1.0 - t)
  | .slowEnd => bounceOut t
  | .slowEnds =>
    if t < 0.5 then (1.0 - bounceOut (1.0 - 2.0 * t)) / 2.0
    else (1.0 + bounceOut (2.0 * t - 1.0)) / 2.0

def shapedAt (way : Way) (t : α) : Shape → α
  | .quad => powered square 2.0 t way
  | .cubic => powered cube 4.0 t way
  | .quart => powered fourth 8.0 t way
  | .quint => powered fifth 16.0 t way
  | .sine => sinusoid t way
  | .expo => exponential t way
  | .circ => circular t way
  | .back => overshooting t way
  | .elastic => spring t way
  | .bounce => bouncing t way

def wayOut (t : α) : Return → α
  | .sine => sinusoid t .slowEnd
  | .cosine => sinusoid t .slowEnds
  | .elastic => springOut t
  | .bounce => bounceOut t

/-- A curve run forward over the first half and backward over the second. -/
def outAndBack (f : α → α) (t : α) : α :=
  if t ≤ 0.5 then f (2.0 * t) else f (2.0 * (1.0 - t))

/-- The progress of a curve at a share of its cycle. -/
def apply (t : α) : Ease → α
  | linear => t
  | shaped way shape => shapedAt way t shape
  | wave => (1.0 - cos (2.0 * pi * t)) / 2.0
  | thereAndBack path => outAndBack (fun u => wayOut u path) t

end Curves

end Ease

/-- Numbers on which every easing curve has a value. -/
class Easing (α : Type) where
  /-- The progress of a curve at a share of its cycle. -/
  curve : Ease → α → α

instance {α : Type} [Scalar α] [RealFunctions α] : Easing α where
  curve e t := e.apply t

end Soundscape
