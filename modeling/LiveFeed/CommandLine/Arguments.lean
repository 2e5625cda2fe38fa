/-!
# Reading arguments

A program takes switches and operands and divides into forms of its own, each with further switches
and operands.  `Form.read` reads a list of arguments against a form.

* A switch is written `--name value`, `--name=value`, `-n value`, `-nvalue` or `-n=value`; short
  switches without a value may share a dash.
* `--` ends the switches; a lone dash is an operand; the value of a switch may not begin with a dash.
* A switch that is neither counted nor listed may be given once in each form.
-/

namespace LiveFeed.CommandLine

/-- How often a switch may be given and whether it has a value. -/
inductive Arity where
  /-- Given or not. -/
  | flag
  | counted
  | value
  /-- Each time with a value. -/
  | listed
  deriving DecidableEq, Repr

/-- A switch. -/
structure Switch where
  name : String
  short : Option Char
  arity : Arity
  /-- Which values it takes. -/
  accepts : String → Bool

namespace Switch

/-- Whether a value belongs to a switch. -/
def hasValue (s : Switch) : Bool :=
  s.arity = .value || s.arity = .listed

/-- Whether a switch may be given again. -/
def repeats (s : Switch) : Bool :=
  s.arity = .counted || s.arity = .listed

end Switch

/-- A program, or one of the forms it divides into. -/
inductive Form where
  | mk (name : String) (switches : List Switch) (least most : Nat) (forms : List Form)

namespace Form

/-- The name of a form. -/
def name : Form → String
  | mk name _ _ _ _ => name

/-- The switches of a form. -/
def switches : Form → List Switch
  | mk _ switches _ _ _ => switches

/-- The fewest operands of a form. -/
def least : Form → Nat
  | mk _ _ least _ _ => least

/-- The most operands of a form. -/
def most : Form → Nat
  | mk _ _ _ most _ => most

/-- The forms that a form divides into. -/
def forms : Form → List Form
  | mk _ _ _ _ forms => forms

end Form

/-- What was given to a form: its name, its switches with their values, and its operands. -/
structure Given where
  form : String
  switches : List (String × String)
  operands : List String
  deriving DecidableEq, Repr

namespace Given

/-- Nothing given to a form. -/
def none (form : String) : Given := ⟨form, [], []⟩

/-- The values of a switch, in order. -/
def values (g : Given) (name : String) : List String :=
  (g.switches.filter fun s => s.1 = name).map (·.2)

end Given

/-- What arguments come to. -/
inductive Answer where
  /-- What was given to each form, outermost first. -/
  | given (levels : List Given)
  | help
  | version
  | misuse
  deriving DecidableEq, Repr

/-- How far the reading is. -/
structure Progress where
  form : Form
  /-- What was given to the forms around, innermost first. -/
  outer : List Given
  here : Given
  /-- A switch that waits for its value. -/
  waiting : Option Switch
  /-- Whether no switch can follow. -/
  closed : Bool

/-- What an argument does to the reading. -/
abbrev Reading := Except Answer Progress

namespace Progress

/-- Whether this is the program itself and none of its forms. -/
def isOutermost (p : Progress) : Bool := p.outer.isEmpty

/-- The switches that can be given here; those of the program can be given everywhere. -/
def switches (global : List Switch) (p : Progress) : List Switch :=
  p.form.switches ++ global

/-- Takes down a switch with its value. -/
def note (p : Progress) (s : Switch) (value : String) : Reading :=
  if !s.repeats && p.here.switches.any (fun t => t.1 = s.name) then .error .misuse
  else if !s.accepts value then .error .misuse
  else
    .ok { p with
      here := { p.here with switches := p.here.switches ++ [(s.name, value)] }
      waiting := none }

/-- A switch whose value may follow in the same argument. -/
def give (p : Progress) (s : Switch) (attached : Option String) : Reading :=
  if s.hasValue then
    match attached with
    | some value => p.note s value
    | none => .ok { p with waiting := some s }
  else
    match attached with
    | some _ => .error .misuse
    | none => p.note s ""

/-- An operand. -/
def operand (p : Progress) (arg : String) : Reading :=
  if p.here.operands.length < p.form.most then
    .ok { p with here := { p.here with operands := p.here.operands ++ [arg] } }
  else .error .misuse

/-- Goes on with one of the forms that this one divides into. -/
def enter (p : Progress) (form : Form) : Progress where
  form := form
  outer := p.here :: p.outer
  here := .none form.name
  waiting := none
  closed := false

/-- A switch by its name, as it stands behind two dashes. -/
def long (global : List Switch) (p : Progress) (text : List Char) : Reading :=
  let name := String.ofList (text.takeWhile (· != '='))
  let attached := match text.dropWhile (· != '=') with
    | [] => none
    | _ :: value => some (String.ofList value)
  match (p.switches global).find? fun s => s.name = name with
  | some s => p.give s attached
  | none =>
    if attached.isSome then .error .misuse
    else if name = "help" then .error .help
    else if name = "version" ∧ p.isOutermost then .error .version
    else .error .misuse

/-- Switches by their letters, as they stand behind one dash. -/
def short (global : List Switch) (p : Progress) : List Char → Reading
  | [] => .ok p
  | c :: rest =>
    match (p.switches global).find? fun s => s.short = some c with
    | some s =>
      if s.hasValue then
        match rest with
        | [] => p.give s none
        | '=' :: value => p.give s (some (String.ofList value))
        | value => p.give s (some (String.ofList value))
      else
        match p.give s none with
        | .ok p => short global p rest
        | .error a => .error a
    | none =>
      if c = 'h' then .error .help
      else if c = 'V' ∧ p.isOutermost then .error .version
      else .error .misuse

/-- An argument that is no switch: a value, a form or an operand. -/
def word (p : Progress) (arg : String) : Reading :=
  match p.waiting with
  | some s => p.note s arg
  | none =>
    match p.form.forms.find? fun f => f.name = arg with
    | some f => .ok (p.enter f)
    | none => if arg = "help" ∧ !p.form.forms.isEmpty then .error .help else p.operand arg

/-- Reads an argument. -/
def read (global : List Switch) (p : Progress) (arg : String) : Reading :=
  if p.closed then p.operand arg
  else
    match arg.toList with
    -- A switch that waits for its value does not take one that begins with a dash.
    | '-' :: '-' :: text =>
      if p.waiting.isSome then .error .misuse
      else if text.isEmpty then .ok { p with closed := true }
      else p.long global text
    | '-' :: c :: letters =>
      if p.waiting.isSome then .error .misuse else p.short global (c :: letters)
    | _ => p.word arg

/-- The end of the arguments: nothing may be missing. -/
def finish (p : Progress) : Answer :=
  if p.waiting.isSome ∨ !p.form.forms.isEmpty ∨ p.here.operands.length < p.form.least then .misuse
  else .given (p.here :: p.outer).reverse

end Progress

/-- Reads arguments against a form, with switches that can be given everywhere. -/
def Form.read (form : Form) (global : List Switch) (args : List String) : Answer :=
  match args.foldlM (Progress.read global) ⟨form, [], .none form.name, none, false⟩ with
  | .ok p => p.finish
  | .error a => a

end LiveFeed.CommandLine
