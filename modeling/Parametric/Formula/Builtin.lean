import Parametric.Arithmetic
import Parametric.Formula.Function

/-!
# Built-in functions

Arithmetic, easing, trigonometry, the choice `if`, and questions about containers.
-/

namespace Parametric.Builtin

variable {σ : Type}

/-! ## Arguments -/

/-- The argument at `index`, counted from zero, as a number. -/
def numberAt (args : List Value) (index : Nat) : Except FunctionFault Float :=
  match args[index]? with
  | some (.number n) => .ok n
  | some v => .error (.notANumber (index + 1) v.kind)
  | none => .error (.missingArgument (index + 1))

/-- All arguments as numbers; the first one that is none is reported. -/
def numbers (args : List Value) : Except FunctionFault (List Float) :=
  go 1 args
where
  go : Nat → List Value → Except FunctionFault (List Float)
    | _, [] => .ok []
    | i, .number n :: rest => do return n.toFloat :: (← go (i + 1) rest)
    | i, v :: _ => .error (.notANumber i v.kind)

/-! ## Shapes of functions -/

/-- A function that computes from its arguments alone. -/
def ofArgs (name : String) (minArgs maxArgs : Nat)
    (run : List Value → Except FunctionFault Value) : Function σ :=
  ⟨name, minArgs, maxArgs, none, .compute fun _ args => run args⟩

/-- A function of one number. -/
def ofOne (name : String) (f : Float → Float) : Function σ :=
  ofArgs name 1 1 fun args => do return .number (f (← numberAt args 0))

/-- A function of two numbers. -/
def ofTwo (name : String) (f : Float → Float → Float) : Function σ :=
  ofArgs name 2 2 fun args => do return .number (f (← numberAt args 0) (← numberAt args 1))

/-- A function of any list of numbers from `minArgs` on. -/
def ofMany (name : String) (minArgs : Nat) (f : List Float → Float) : Function σ :=
  ofArgs name minArgs unlimitedArgs fun args => do return .number (f (← numbers args))

/-- An easing curve, which is defined for five numbers or more. -/
def ofCurve (name : String) (f : Float → Float → Float → Float → Float → Float) : Function σ :=
  ofArgs name 5 5 fun args => do
    match ← numbers args with
    | t :: lo :: hi :: a :: b :: _ => return .number (f t lo hi a b)
    | _ => throw .undefined

/-- A dimension of the container. -/
def ofDimension (name property : String) : Function σ :=
  ⟨name, 0, 0, some (.container property), .compute fun c _ => do
    let o ← c.containerObject
    match o.number? property with
    | some x => return .number x
    | none => throw (.noProperty o.id property)⟩

/-- A question about the children of the container. -/
def ofSiblings (name : String) (query : Query) : Function σ :=
  ⟨name, 0, 0, some (.container Names.children), .ask query⟩

/-! ## The functions -/

/-- The square root of a number that is not negative. -/
def sqrt (args : List Value) : Except FunctionFault Value := do
  let x ← numberAt args 0
  if x < 0.0 then throw .negativeRoot else return .number x.sqrt

/-- A number held between two bounds, which are refused when they are reversed. -/
def clamp (args : List Value) : Except FunctionFault Value := do
  let x ← numberAt args 0
  let lo ← numberAt args 1
  let hi ← numberAt args 2
  if hi < lo then throw (.reversedBounds lo hi)
  match Arithmetic.clamp? x lo hi with
  | some y => return .number y
  | none => throw .undefined

/-- A number on the way between two others. -/
def lerp (args : List Value) : Except FunctionFault Value := do
  return .number (Arithmetic.lerp (← numberAt args 0) (← numberAt args 1) (← numberAt args 2))

/-- Arithmetic on numbers. -/
def arithmetic : List (Function σ) :=
  [ofOne "abs" Float.abs, ofOne "round" Float.round, ofOne "floor" Float.floor,
    ofOne "ceil" Float.ceil, ofArgs "sqrt" 1 1 sqrt, ofTwo "pow" Float.pow,
    ofMany "min" 1 Arithmetic.least, ofMany "max" 1 Arithmetic.greatest,
    ofMany "sum" 0 Arithmetic.sum, ofMany "avg" 1 Arithmetic.mean, ofArgs "clamp" 3 3 clamp,
    ofArgs "lerp" 3 3 lerp]

/-- Curves between two numbers. -/
def easing : List (Function σ) :=
  [ofCurve "linear" Arithmetic.linear, ofCurve "ease" Arithmetic.ease,
    ofCurve "easeIn" Arithmetic.easeIn, ofCurve "easeOut" Arithmetic.easeOut]

/-- Functions of angles in radians, and the conversions from and to degrees. -/
def trigonometry : List (Function σ) :=
  [ofOne "sin" Float.sin, ofOne "cos" Float.cos, ofOne "tan" Float.tan, ofOne "asin" Float.asin,
    ofOne "acos" Float.acos, ofOne "atan" Float.atan, ofTwo "atan2" Float.atan2,
    ofOne "radians" Arithmetic.radians, ofOne "degrees" Arithmetic.degrees,
    ofArgs "pi" 0 0 fun _ => .ok (.number Arithmetic.pi)]

/-- Functions of the place of an object in the scene. -/
def containment : List (Function σ) :=
  [ofDimension "containerWidth" Names.width, ofDimension "containerHeight" Names.height,
    ofDimension "containerDepth" Names.depth, ofSiblings "siblingCount" .siblingCount,
    ofSiblings "siblingIndex" .siblingIndex,
    ⟨"childCount", 0, 0, some (.own Names.children), .ask .childCount⟩]

def all : List (Function σ) :=
  arithmetic ++ easing ++ trigonometry ++ [.ofSelect "if"] ++ containment

end Parametric.Builtin

namespace Parametric

def Registry.builtin {σ : Type} : Registry σ := Builtin.all.foldl Registry.register ∅

end Parametric
