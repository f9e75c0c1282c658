import GymAct.Fallible
import GymAct.Value

/-!
# The switchboard

`gyms/switchboard.py` : switches, of which some sampled ones are required, and a master latch that
engages while the first two are on. Values of payloads and checkpoints are of any type
(`PyValues`), known by what the code asks of them.

A call keeps the number of the switches (`call_length`).
-/

namespace GymAct

/-- Values of any type : `int`, `bool`, `isinstance(value, list)` and `repr` of them. -/
structure PyValues (V : Type) where
  int : V → Except PyError ℤ
  bool : V → Except PyError Bool
  list? : V → Option (List V)
  repr : V → String
  none : V
  ofInt : ℤ → V
  ofBool : Bool → V
  ofList : List V → V
  int_ofInt : ∀ n, int (ofInt n) = .ok n
  bool_ofBool : ∀ b, bool (ofBool b) = .ok b
  list?_ofList : ∀ l, list? (ofList l) = some l
  list?_none : list? none = Option.none

/-- A `dict`, by its keys that are strings. -/
abbrev PyDict (V : Type) := List (String × V)

/-- `d[key]`. -/
def PyDict.index {V : Type} (d : PyDict V) (key : String) : Except PyError V :=
  match d.lookup key with
  | some value => .ok value
  | none => .error ⟨"KeyError", "'" ++ key ++ "'"⟩

/-- `str` of a `bool`. -/
def boolText (b : Bool) : String := if b then "True" else "False"

/-- What `__init__` fixes. -/
structure Switchboard where
  nSwitches : ℕ
  required : List ℕ
  nSwitches_ge : 3 ≤ nSwitches
  required_range : ∀ i ∈ required, 2 ≤ i ∧ i < nSwitches
  required_sorted : required.Pairwise (· < ·)
  required_length : required.length = min 2 (nSwitches - 2)

structure SwitchState where
  switches : List Bool
  master : Bool := false
  toggles : ℤ := 0
  closed : Bool := false
  deriving DecidableEq, Repr

/-- The `dict` of `_state`. -/
structure SwitchView where
  switches : List Bool
  master : Bool
  nSwitches : ℕ
  toggles : ℤ
  requiredCount : ℕ
  requiredOn : ℕ
  solved : Bool
  deriving DecidableEq, Repr

/-- `repr` of that `dict`. -/
def SwitchView.repr (v : SwitchView) : String :=
  "\x7b" ++ String.join (v.switches.zipIdx.map fun (on, i) =>
    "'switch_" ++ toString i ++ "': " ++ boolText on ++ ", ") ++
    "'master': " ++ boolText v.master ++ ", 'n_switches': " ++ toString v.nSwitches ++
    ", 'toggles': " ++ toString v.toggles ++ ", 'required_count': " ++ toString v.requiredCount ++
    ", 'required_on': " ++ toString v.requiredOn ++ ", 'solved': " ++ boolText v.solved ++ "\x7d"

structure SwitchEffect where
  before : SwitchView
  after : SwitchView
  applicable : Bool
  resultText : String
  deriving DecidableEq, Repr

/-- The binding of a capability and a payload. -/
structure SwitchCall (V : Type) where
  binding : String
  payload : PyDict V := []

namespace Switchboard

variable {V : Type} (board : Switchboard) (K : PyValues V)

def initial : SwitchState where
  switches := List.replicate board.nSwitches false

/-- A switch is on. -/
def isOn (s : SwitchState) (i : ℕ) : Bool := s.switches.getD i false

/-- `_required_on`. -/
def requiredOn (s : SwitchState) : ℕ := board.required.countP (isOn s)

def solved (s : SwitchState) : Bool :=
  s.master && board.requiredOn s == board.required.length

/-- `_state`. -/
def state (s : SwitchState) : SwitchView where
  switches := s.switches
  master := s.master
  nSwitches := board.nSwitches
  toggles := s.toggles
  requiredCount := board.required.length
  requiredOn := board.requiredOn s
  solved := board.solved s

/-- A branch of `actuate` : the state after it, `applicable` and the text of its effect. -/
abbrev Branch := SwitchState × Bool × String

def toggleSwitch (s : SwitchState) (payload : PyDict V) : Except PyError Branch := do
  let value ← payload.index "index"
  let index ← K.int value
  if ¬(0 ≤ index ∧ index < board.nSwitches) then
    .error ⟨"ValueError", "switch index out of range: " ++ toString index⟩
  else
    let on := !isOn s index.toNat
    .ok ({ s with
      switches := s.switches.set index.toNat on
      toggles := s.toggles + 1 }, true, "switch_" ++ toString index ++ "=" ++ boolText on)

def engageMaster (s : SwitchState) : Branch :=
  if isOn s 0 && isOn s 1 then ({ s with master := true }, true, "master engaged")
  else (s, false, "precondition unmet: switches 0 and 1 must both be on")

def resetPair (s : SwitchState) : Branch :=
  ({ s with switches := (s.switches.set 0 false).set 1 false }, true,
    "switches 0 and 1 forced off")

/-- The branches of `actuate`. -/
def branch (s : SwitchState) (c : SwitchCall V) : Except PyError Branch :=
  if c.binding = "toggle_switch" then board.toggleSwitch K s c.payload
  else if c.binding = "engage_master" then .ok (engageMaster s)
  else if c.binding = "reset_pair" then .ok (resetPair s)
  else if c.binding = "read_board" then .ok (s, true, (board.state s).repr)
  else .error ⟨"ValueError", "unsupported switchboard binding: " ++ c.binding⟩

/-- `actuate`. -/
def actuate (s : SwitchState) (c : SwitchCall V) : Except PyError (SwitchState × SwitchEffect) :=
  if s.closed then .error ⟨"RuntimeError", "environment is torn down"⟩
  else (board.branch K s c).map fun (s', applicable, effect) =>
    (s', ⟨board.state s, board.state s', applicable, effect⟩)

/-- The state that a call leaves. A call raises before it changes anything. -/
def call (s : SwitchState) (c : SwitchCall V) : SwitchState :=
  match board.actuate K s c with
  | .ok (s', _) => s'
  | .error _ => s

variable {board K} {s : SwitchState} {c : SwitchCall V}

theorem toggleSwitch_length {payload : PyDict V} {b : Branch}
    (h : board.toggleSwitch K s payload = .ok b) : b.1.switches.length = s.switches.length := by
  obtain ⟨value, -, h⟩ := Fallible.bind_eq_ok.mp h
  obtain ⟨index, -, h⟩ := Fallible.bind_eq_ok.mp h
  split at h <;> cases h
  exact List.length_set

theorem branch_length {b : Branch} (h : board.branch K s c = .ok b) :
    b.1.switches.length = s.switches.length := by
  unfold branch at h
  split at h
  · exact toggleSwitch_length h
  split at h
  · cases h
    unfold engageMaster
    split <;> rfl
  split at h
  · cases h
    simp [resetPair]
  split at h <;> cases h
  rfl

theorem call_length : (board.call K s c).switches.length = s.switches.length := by
  unfold call actuate
  split_ifs
  · rfl
  · cases h : board.branch K s c with
    | error e => rfl
    | ok b => exact branch_length h

end Switchboard

end GymAct
