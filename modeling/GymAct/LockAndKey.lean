import GymAct.Fallible
import GymAct.Value
import Mathlib.Data.List.Induction
import Mathlib.Data.Rat.Floor

/-!
# The lock chain

`gyms/lock_and_key.py` : a chain of locks, each opened by a hidden key, of which one may be forced
at the price of jamming the key rack. `int` of a string is a parameter.

Once the rack is jammed no key is held and nothing moves any more (`call_of_stuck`), and before
that the next key can be picked, so a state is lost if and only if it is jammed and not solved
(`solvable_iff`). `_dead_end` still counts on forcing a last lock of a jammed chain :
`deadEnd_exact_iff`.
-/

namespace GymAct

/-- `int(value)`, where `parse` reads a literal. -/
def pyInt (parse : String → Option ℤ) : Value → Except PyError ℤ
  | .int n => .ok n
  | .bool b => .ok (if b then 1 else 0)
  | .float (.finite q) => .ok (if 0 ≤ q then ⌊q⌋ else ⌈q⌉)
  | .float .nan => .error ⟨"ValueError", "cannot convert float NaN to integer"⟩
  | .float .inf | .float .negInf =>
    .error ⟨"OverflowError", "cannot convert float infinity to integer"⟩
  | .str s =>
    match parse s with
    | some n => .ok n
    | none => .error ⟨"ValueError", "invalid literal for int() with base 10: '" ++ s ++ "'"⟩
  | .null => .error ⟨"TypeError", intArgument ++ "'NoneType'"⟩
  | .list _ => .error ⟨"TypeError", intArgument ++ "'list'"⟩
  | .dict _ => .error ⟨"TypeError", intArgument ++ "'dict'"⟩
where
  intArgument := "int() argument must be a string, a bytes-like object or a real number, not "

def NO_KEY : ℤ := -1

/-- What `__init__` fixes. Lock `j` is opened by key `perm[j]`. -/
structure LockChain where
  depth : ℕ
  perm : List ℕ
  depth_pos : 1 ≤ depth
  perm_range : perm.Perm (List.range depth)

structure LockState where
  locksOpen : ℕ := 0
  held : ℤ := NO_KEY
  rackJammed : Bool := false
  closed : Bool := false
  deriving DecidableEq, Repr

/-- The `dict` of `_state`. -/
structure LockView where
  depth : ℕ
  locksOpen : ℕ
  heldKey : ℤ
  holdingKey : Bool
  rackJammed : Bool
  finalOpen : Bool
  solved : Bool
  deadEnd : Bool
  deriving DecidableEq, Repr

/-- `repr` of that `dict`. -/
def LockView.repr (v : LockView) : String :=
  let bool (b : Bool) := if b then "True" else "False"
  "\x7b'depth': " ++ toString v.depth ++ ", 'locks_open': " ++ toString v.locksOpen ++
    ", 'held_key': " ++ toString v.heldKey ++ ", 'holding_key': " ++ bool v.holdingKey ++
    ", 'rack_jammed': " ++ bool v.rackJammed ++ ", 'final_open': " ++ bool v.finalOpen ++
    ", 'solved': " ++ bool v.solved ++ ", 'dead_end': " ++ bool v.deadEnd ++ "\x7d"

structure LockEffect where
  before : LockView
  after : LockView
  applicable : Bool
  resultText : String
  deriving DecidableEq, Repr

/-- The binding of a capability and a payload. -/
structure LockCall where
  binding : String
  payload : Payload := []

namespace LockChain

variable (chain : LockChain) (parse : String → Option ℤ)

/-- `_solved`. -/
def solved (s : LockState) : Bool := chain.depth ≤ s.locksOpen

/-- `_dead_end`. -/
def deadEnd (s : LockState) : Bool :=
  if chain.solved s then false
  else if !s.rackJammed then false
  else 1 < (chain.depth : ℤ) - s.locksOpen

/-- `_state`. -/
def state (s : LockState) : LockView where
  depth := chain.depth
  locksOpen := s.locksOpen
  heldKey := s.held
  holdingKey := s.held ≠ NO_KEY
  rackJammed := s.rackJammed
  finalOpen := chain.solved s
  solved := chain.solved s
  deadEnd := chain.deadEnd s

/-- A branch of `actuate` : the state after it, `applicable` and the text of its effect. -/
abbrev Branch := LockState × Bool × String

def pickKey (s : LockState) (payload : Payload) : Except PyError Branch := do
  match payload.lookup "key" with
  | none => .error ⟨"KeyError", "'key'"⟩
  | some value =>
    let key ← pyInt parse value
    if ¬(0 ≤ key ∧ key < chain.depth) then
      .error ⟨"ValueError", "key index out of range: " ++ toString key⟩
    else if s.rackJammed then .ok (s, false, "rack jammed: no key can be taken")
    else if s.held ≠ NO_KEY then .ok (s, false, "already holding key " ++ toString s.held)
    else .ok ({ s with held := key }, true, "holding key " ++ toString key)

def dropKey (s : LockState) : Branch :=
  if s.held = NO_KEY then (s, false, "no key held")
  else ({ s with held := NO_KEY }, true, "returned key " ++ toString s.held ++ " to the rack")

def openLock (s : LockState) : Branch :=
  if chain.solved s then (s, false, "all locks already open")
  else if s.held = NO_KEY then (s, false, "no key held")
  else if some s.held ≠ chain.perm[s.locksOpen]?.map Int.ofNat then
    (s, false, "held key does not fit the next lock")
  else
    ({ s with locksOpen := s.locksOpen + 1, held := NO_KEY }, true,
      "lock " ++ toString s.locksOpen ++ " opened; key consumed")

def forceLatch (s : LockState) : Branch :=
  if chain.solved s then (s, false, "all locks already open")
  else if s.rackJammed then (s, false, "rack already jammed: nothing left to force")
  else
    ({ s with locksOpen := s.locksOpen + 1, held := NO_KEY, rackJammed := true }, true,
      "lock " ++ toString s.locksOpen ++ " forced; rack jammed irreversibly")

/-- The branches of `actuate`. -/
def branch (s : LockState) (c : LockCall) : Except PyError Branch :=
  if c.binding = "pick_key" then chain.pickKey parse s c.payload
  else if c.binding = "drop_key" then .ok (dropKey s)
  else if c.binding = "open_lock" then .ok (chain.openLock s)
  else if c.binding = "force_latch" then .ok (chain.forceLatch s)
  else if c.binding = "read_locks" then .ok (s, true, (chain.state s).repr)
  else .error ⟨"ValueError", "unsupported lock-and-key binding: " ++ c.binding⟩

/-- `actuate`. -/
def actuate (s : LockState) (c : LockCall) : Except PyError (LockState × LockEffect) :=
  if s.closed then .error ⟨"RuntimeError", "environment is torn down"⟩
  else (chain.branch parse s c).map fun (s', applicable, effect) =>
    (s', ⟨chain.state s, chain.state s', applicable, effect⟩)

/-- The state that a call leaves. A call raises before it changes anything. -/
def call (s : LockState) (c : LockCall) : LockState :=
  match chain.actuate parse s c with
  | .ok (s', _) => s'
  | .error _ => s

def after (s : LockState) (calls : List LockCall) : LockState := calls.foldl (chain.call parse) s

/-- Some calls reach a state that is solved. -/
def Solvable (s : LockState) : Prop := ∃ calls, chain.solved (chain.after parse s calls) = true

variable {chain parse} {s : LockState}

@[simp] theorem solved_iff : chain.solved s = true ↔ chain.depth ≤ s.locksOpen := by
  simp [solved]

@[simp] theorem after_nil : chain.after parse s [] = s := rfl

@[simp] theorem after_cons (c : LockCall) (calls : List LockCall) :
    chain.after parse s (c :: calls) = chain.after parse (chain.call parse s c) calls := rfl

@[simp] theorem after_append (calls more : List LockCall) :
    chain.after parse s (calls ++ more) = chain.after parse (chain.after parse s calls) more :=
  List.foldl_append

/-! ## What a call does -/

/-- A call does nothing, takes or returns a key, opens a lock or forces one. -/
inductive Moves (chain : LockChain) (s : LockState) (binding : String) : LockState → Prop
  | stays : Moves chain s binding s
  | picks (key : ℤ) : s.rackJammed = false → Moves chain s binding { s with held := key }
  | drops : Moves chain s binding { s with held := NO_KEY }
  | opens : s.locksOpen < chain.depth → s.held ≠ NO_KEY →
      Moves chain s binding { s with locksOpen := s.locksOpen + 1, held := NO_KEY }
  | forces : binding = "force_latch" → s.locksOpen < chain.depth → s.rackJammed = false →
      Moves chain s binding
        { s with locksOpen := s.locksOpen + 1, held := NO_KEY, rackJammed := true }

variable {binding : String} {c : LockCall}

theorem pickKey_moves {payload : Payload} {branch : Branch}
    (h : chain.pickKey parse s payload = .ok branch) : Moves chain s binding branch.1 := by
  unfold pickKey at h
  split at h
  · cases h
  obtain ⟨key, -, h⟩ := Fallible.bind_eq_ok.mp h
  split at h
  · cases h
  split at h
  · cases h
    exact .stays
  · next hjammed =>
    have hjammed : s.rackJammed = false := by simpa using hjammed
    split at h <;> cases h
    · exact .stays
    · exact .picks key hjammed

theorem dropKey_moves : Moves chain s binding (dropKey s).1 := by
  unfold dropKey
  split
  · exact .stays
  · exact .drops

theorem openLock_moves : Moves chain s binding (chain.openLock s).1 := by
  unfold openLock
  split
  · exact .stays
  · next hsolved =>
    split
    · exact .stays
    · next hheld =>
      split
      · exact .stays
      · exact .opens (by simpa using hsolved) hheld

theorem forceLatch_moves : Moves chain s "force_latch" (chain.forceLatch s).1 := by
  unfold forceLatch
  split
  · exact .stays
  · next hsolved =>
    split
    · exact .stays
    · next hjammed => exact .forces rfl (by simpa using hsolved) (by simpa using hjammed)

theorem branch_moves {b : Branch} (h : chain.branch parse s c = .ok b) :
    Moves chain s c.binding b.1 := by
  unfold branch at h
  split at h
  · exact pickKey_moves h
  split at h
  · cases h
    exact dropKey_moves
  split at h
  · cases h
    exact openLock_moves
  split at h
  · next hforce =>
    cases h
    rw [hforce]
    exact forceLatch_moves
  split at h <;> cases h
  exact .stays

theorem call_eq (hclosed : s.closed = false) {b : Branch} (h : chain.branch parse s c = .ok b) :
    chain.call parse s c = b.1 := by
  simp [call, actuate, hclosed, h, Except.map]

theorem call_moves (c : LockCall) : Moves chain s c.binding (chain.call parse s c) := by
  by_cases hclosed : s.closed = true
  · simp only [call, actuate, hclosed, if_true]
    exact .stays
  cases h : chain.branch parse s c with
  | error e =>
    simp only [call, actuate, hclosed, h, Except.map]
    exact .stays
  | ok b =>
    rw [call_eq (by simpa using hclosed) h]
    exact branch_moves h

/-- What holds of every state the calls reach. -/
structure Kept (chain : LockChain) (s : LockState) : Prop where
  notClosed : s.closed = false
  opened : s.locksOpen ≤ chain.depth
  emptyHand : s.rackJammed = true → s.held = NO_KEY

theorem Kept.moves (h : Kept chain s) {s' : LockState} (hmoves : Moves chain s binding s') :
    Kept chain s' := by
  cases hmoves with
  | stays => exact h
  | picks key hjammed => exact ⟨h.notClosed, h.opened, fun hj => by simp [hjammed] at hj⟩
  | drops => exact ⟨h.notClosed, h.opened, fun _ => rfl⟩
  | opens hopen _ => exact ⟨h.notClosed, hopen, fun _ => rfl⟩
  | forces _ hopen _ => exact ⟨h.notClosed, hopen, fun _ => rfl⟩

theorem kept_after : ∀ {s : LockState}, Kept chain s → ∀ calls : List LockCall,
    Kept chain (chain.after parse s calls)
  | _, h, [] => h
  | _, h, c :: calls => kept_after (h.moves (call_moves c)) calls

theorem kept_initial : Kept chain {} := ⟨rfl, chain.depth.zero_le, fun _ => rfl⟩

/-! ## A jammed rack is the end -/

theorem moves_of_stuck (hheld : s.held = NO_KEY) (hjammed : s.rackJammed = true) {s' : LockState}
    (hmoves : Moves chain s binding s') : s' = s := by
  cases hmoves with
  | stays => rfl
  | picks _ h => simp [hjammed] at h
  | drops => rw [← hheld]
  | opens _ h => exact absurd hheld h
  | forces _ _ h => simp [hjammed] at h

theorem after_of_stuck (hheld : s.held = NO_KEY) (hjammed : s.rackJammed = true) :
    ∀ calls : List LockCall, chain.after parse s calls = s
  | [] => rfl
  | c :: calls => by
    rw [after_cons, moves_of_stuck hheld hjammed (call_moves c), after_of_stuck hheld hjammed calls]

/-! ## Before that, the next lock can be opened -/

theorem call_drop (hclosed : s.closed = false) :
    chain.call parse s { binding := "drop_key" } = { s with held := NO_KEY } := by
  rw [call_eq hclosed rfl, dropKey]
  split
  · next hheld => rw [← hheld]
  · rfl

theorem call_pick (hclosed : s.closed = false) (hjammed : s.rackJammed = false)
    (hheld : s.held = NO_KEY) {key : ℕ} (hkey : key < chain.depth) :
    chain.call parse s { binding := "pick_key", payload := [("key", .int key)] } =
      { s with held := key } := by
  have hbranch : chain.branch parse s { binding := "pick_key", payload := [("key", .int key)] } =
      .ok ({ s with held := key }, true, "holding key " ++ toString (key : ℤ)) := by
    simp [branch, pickKey, pyInt, hjammed, hheld, hkey]
  exact call_eq hclosed hbranch

theorem call_open (hclosed : s.closed = false) {key : ℕ} (hheld : s.held = key)
    (hperm : chain.perm[s.locksOpen]? = some key) (hopen : s.locksOpen < chain.depth) :
    chain.call parse s { binding := "open_lock" } =
      { s with locksOpen := s.locksOpen + 1, held := NO_KEY } := by
  have hkey : (key : ℤ) ≠ NO_KEY := by
    unfold NO_KEY
    omega
  rw [call_eq hclosed rfl]
  simp [openLock, solved, hheld, hperm, hkey, hopen.not_ge]

/-- The next lock, by returning what is held, picking its key and opening it. -/
theorem solvable_of_unjammed : ∀ {left : ℕ} {s : LockState}, s.closed = false →
    s.rackJammed = false → s.locksOpen + left = chain.depth → Solvable chain parse s
  | 0, _, _, _, hleft => ⟨[], by simp [← hleft]⟩
  | left + 1, s, hclosed, hjammed, hleft => by
    have hopen : s.locksOpen < chain.perm.length := by
      rw [chain.perm_range.length_eq, List.length_range]
      omega
    have hkey : chain.perm[s.locksOpen] < chain.depth :=
      List.mem_range.mp (chain.perm_range.mem_iff.mp (List.getElem_mem hopen))
    have hrest : Solvable chain parse { s with locksOpen := s.locksOpen + 1, held := NO_KEY } :=
      solvable_of_unjammed hclosed hjammed (show s.locksOpen + 1 + left = chain.depth by omega)
    obtain ⟨calls, hcalls⟩ := hrest
    have hpick : chain.call parse { s with held := NO_KEY }
        { binding := "pick_key", payload := [("key", .int (chain.perm[s.locksOpen] : ℕ))] } =
          { s with held := (chain.perm[s.locksOpen] : ℕ) } :=
      call_pick (s := { s with held := NO_KEY }) hclosed hjammed rfl hkey
    have hopened : chain.call parse { s with held := (chain.perm[s.locksOpen] : ℕ) }
        { binding := "open_lock" } = { s with locksOpen := s.locksOpen + 1, held := NO_KEY } :=
      call_open (s := { s with held := (chain.perm[s.locksOpen] : ℕ) }) hclosed rfl
        (List.getElem?_eq_getElem hopen) (show s.locksOpen < chain.depth by omega)
    refine ⟨{ binding := "drop_key" } ::
      { binding := "pick_key", payload := [("key", .int (chain.perm[s.locksOpen] : ℕ))] } ::
      { binding := "open_lock" } :: calls, ?_⟩
    rw [after_cons, call_drop hclosed, after_cons, hpick, after_cons, hopened]
    exact hcalls

theorem solvable_iff (h : Kept chain s) :
    Solvable chain parse s ↔ (s.rackJammed = true → chain.depth ≤ s.locksOpen) := by
  constructor
  · rintro ⟨calls, hcalls⟩ hjammed
    rw [after_of_stuck (h.emptyHand hjammed) hjammed] at hcalls
    exact solved_iff.mp hcalls
  · intro hsolved
    by_cases hjammed : s.rackJammed = true
    · exact ⟨[], solved_iff.mpr (hsolved hjammed)⟩
    · have hopened := h.opened
      exact solvable_of_unjammed h.notClosed (by simpa using hjammed)
        (show s.locksOpen + (chain.depth - s.locksOpen) = chain.depth by omega)

/-! ## What `_dead_end` says -/

theorem deadEnd_iff : chain.deadEnd s = true ↔
    s.rackJammed = true ∧ s.locksOpen + 1 < chain.depth := by
  unfold deadEnd
  split
  · next hsolved =>
    have hsolved := solved_iff.mp hsolved
    exact iff_of_false Bool.false_ne_true fun h => by omega
  · split
    · next hjammed => simp_all
    · next hjammed =>
      have hjammed : s.rackJammed = true := by simpa using hjammed
      simp only [hjammed, decide_eq_true_eq, true_and]
      omega

/-- A jammed chain with one lock left is lost, and the flag is not set. -/
theorem deadEnd_iff_not_solvable (h : Kept chain s) :
    (chain.deadEnd s = true ↔ ¬Solvable chain parse s) ↔
      ¬(s.rackJammed = true ∧ s.locksOpen + 1 = chain.depth) := by
  have hopened := h.opened
  rw [deadEnd_iff, solvable_iff h]
  by_cases hjammed : s.rackJammed = true
  · simp only [hjammed, true_and, forall_const]
    omega
  · simp [hjammed]

/-- A lock is forced with two left, and the rack is not jammed yet. -/
def ForcesBeforeLast (chain : LockChain) (s : LockState) (c : LockCall) : Prop :=
  c.binding = "force_latch" ∧ s.rackJammed = false ∧ s.locksOpen + 2 = chain.depth

theorem call_force (hclosed : s.closed = false) (hforce : ForcesBeforeLast chain s c) :
    chain.call parse s c =
      { s with locksOpen := s.locksOpen + 1, held := NO_KEY, rackJammed := true } := by
  obtain ⟨hbinding, hjammed, hleft⟩ := hforce
  have hbranch : chain.branch parse s c = .ok (chain.forceLatch s) := by
    simp [branch, hbinding]
  have hopen : ¬chain.depth ≤ s.locksOpen := by omega
  rw [call_eq hclosed hbranch]
  simp [forceLatch, solved, hjammed, hopen]

/-- A chain is jammed with one lock left when it was, or by forcing with two left. -/
theorem call_lastJammed (h : Kept chain s) (c : LockCall) :
    ((chain.call parse s c).rackJammed = true ∧
      (chain.call parse s c).locksOpen + 1 = chain.depth) ↔
    (s.rackJammed = true ∧ s.locksOpen + 1 = chain.depth) ∨ ForcesBeforeLast chain s c := by
  by_cases hforce : ForcesBeforeLast chain s c
  · rw [call_force h.notClosed hforce]
    have hleft := hforce.2.2
    exact iff_of_true ⟨rfl, by dsimp only; omega⟩ (Or.inr hforce)
  · simp only [hforce, or_false]
    by_cases hjammed : s.rackJammed = true
    · rw [moves_of_stuck (h.emptyHand hjammed) hjammed (call_moves c)]
    · refine iff_of_false ?_ fun hlast => hjammed hlast.1
      rintro ⟨hafter, hlast⟩
      have hmoves : Moves chain s c.binding (chain.call parse s c) := call_moves c
      generalize chain.call parse s c = s' at hmoves hafter hlast
      cases hmoves with
      | stays | picks | drops | opens => exact hjammed hafter
      | forces hbinding _ hclear => exact hforce ⟨hbinding, hclear, hlast⟩

/-- The flag is exact in the state that the calls reach if and only if none of them forces a lock
with two left. -/
theorem deadEnd_exact_iff (chain : LockChain) (parse : String → Option ℤ)
    (calls : List LockCall) :
    (chain.deadEnd (chain.after parse {} calls) = true ↔
        ¬Solvable chain parse (chain.after parse {} calls)) ↔
      ∀ earlier c later, calls = earlier ++ c :: later →
        ¬ForcesBeforeLast chain (chain.after parse {} earlier) c := by
  rw [deadEnd_iff_not_solvable (kept_after kept_initial calls)]
  induction calls using List.reverseRecOn with
  | nil => simp
  | append_singleton calls c ih =>
    rw [after_append, after_cons, after_nil, call_lastJammed (kept_after kept_initial calls) c,
      not_or, ih]
    constructor
    · rintro ⟨hearlier, hlast⟩ earlier c' later h
      rcases List.eq_nil_or_concat later with rfl | ⟨later, last, rfl⟩
      · obtain ⟨rfl, hc⟩ := List.append_inj' h rfl
        obtain rfl := List.singleton_inj.mp hc
        exact hlast
      · rw [List.concat_eq_append, ← List.cons_append, ← List.append_assoc] at h
        exact hearlier earlier c' later (List.append_inj' h rfl).1
    · intro h
      exact ⟨fun earlier c' later hcalls => h earlier c' (later ++ [c]) (by simp [hcalls]),
        h calls c [] rfl⟩

/-- Two locks. -/
def twoLocks : LockChain where
  depth := 2
  perm := [1, 0]
  depth_pos := by decide
  perm_range := by decide

/-- Of two locks the first is forced : the second can be opened no more, and the flag is not
set. -/
theorem not_deadEnd_of_forced :
    let s := twoLocks.after String.toInt? {} [{ binding := "force_latch" }]
    twoLocks.deadEnd s = false ∧ ¬Solvable twoLocks String.toInt? s := by
  refine ⟨by decide, ?_⟩
  rw [solvable_iff (kept_after kept_initial _)]
  decide

end LockChain

end GymAct
