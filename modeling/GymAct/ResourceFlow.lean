import GymAct.Fallible
import GymAct.Value

/-!
# The resource flow

`gyms/resource_flow.py` : raw tokens are mined, refined while there is a catalyst, and assembled
into output, in pools of one capacity; the catalyst may be burnt for some output. The random
numbers of `__init__` are fields.

What is refined and put out together never grows without the catalyst (`total_after`), and before
that, or where it reaches the target, one more token can be put out (`advances`). So `_dead_end` is
exact in every state that calls reach : `flow_deadEnd_exact`.
-/

namespace GymAct

/-- What `__init__` fixes. -/
structure ResourceFlow where
  capacity : ℤ
  target : ℤ
  mineRate : ℤ
  catalystBonus : ℤ
  target_pos : 1 ≤ target
  target_le : target ≤ capacity
  mineRate_pos : 1 ≤ mineRate
  catalystBonus_pos : 1 ≤ catalystBonus

structure FlowState where
  raw : ℤ := 0
  refined : ℤ := 0
  output : ℤ := 0
  catalyst : Bool := true
  closed : Bool := false
  deriving DecidableEq, Repr

/-- The `dict` of `_state`. -/
structure FlowView where
  raw : ℤ
  refined : ℤ
  output : ℤ
  catalyst : Bool
  capacity : ℤ
  target : ℤ
  mineRate : ℤ
  solved : Bool
  deadEnd : Bool
  deriving DecidableEq, Repr

/-- `repr` of that `dict`. -/
def FlowView.repr (v : FlowView) : String :=
  let bool (b : Bool) := if b then "True" else "False"
  "\x7b'raw': " ++ toString v.raw ++ ", 'refined': " ++ toString v.refined ++
    ", 'output': " ++ toString v.output ++ ", 'catalyst': " ++ bool v.catalyst ++
    ", 'capacity': " ++ toString v.capacity ++ ", 'target': " ++ toString v.target ++
    ", 'mine_rate': " ++ toString v.mineRate ++ ", 'solved': " ++ bool v.solved ++
    ", 'dead_end': " ++ bool v.deadEnd ++ "\x7d"

structure FlowEffect where
  before : FlowView
  after : FlowView
  applicable : Bool
  resultText : String
  deriving DecidableEq, Repr

namespace ResourceFlow

variable (flow : ResourceFlow)

def solved (s : FlowState) : Bool := flow.target ≤ s.output

/-- `_dead_end`. -/
def deadEnd (s : FlowState) : Bool :=
  if flow.target ≤ s.output then false
  else if s.catalyst then false
  else s.output + s.refined < flow.target

/-- `_state`. -/
def state (s : FlowState) : FlowView where
  raw := s.raw
  refined := s.refined
  output := s.output
  catalyst := s.catalyst
  capacity := flow.capacity
  target := flow.target
  mineRate := flow.mineRate
  solved := flow.solved s
  deadEnd := flow.deadEnd s

/-- A branch of `actuate` : the state after it, `applicable` and the text of its effect. -/
abbrev Branch := FlowState × Bool × String

def mine (s : FlowState) : Branch :=
  if flow.capacity ≤ s.raw then (s, false, "raw pool at capacity")
  else
    let gained := min flow.mineRate (flow.capacity - s.raw)
    ({ s with raw := s.raw + gained }, true, "mined " ++ toString gained ++ " raw")

def refine (s : FlowState) : Branch :=
  if !s.catalyst then (s, false, "catalyst burned: refine is permanently unavailable")
  else if s.raw < 1 then (s, false, "no raw tokens to refine")
  else if flow.capacity ≤ s.refined then (s, false, "refined pool at capacity")
  else ({ s with raw := s.raw - 1, refined := s.refined + 1 }, true, "refined 1 raw -> 1 refined")

def assemble (s : FlowState) : Branch :=
  if s.refined < 1 then (s, false, "no refined tokens to assemble")
  else if flow.capacity ≤ s.output then (s, false, "output pool at capacity")
  else
    ({ s with refined := s.refined - 1, output := s.output + 1 }, true,
      "assembled 1 refined -> 1 output")

def burnCatalyst (s : FlowState) : Branch :=
  if !s.catalyst then (s, false, "catalyst already burned")
  else
    let gained := min flow.catalystBonus (flow.capacity - s.output)
    ({ s with catalyst := false, output := s.output + gained }, true,
      "catalyst burned irreversibly for " ++ toString gained ++ " output")

/-- The branches of `actuate`. -/
def branch (s : FlowState) (binding : String) : Except PyError Branch :=
  if binding = "mine" then .ok (flow.mine s)
  else if binding = "refine" then .ok (flow.refine s)
  else if binding = "assemble" then .ok (flow.assemble s)
  else if binding = "burn_catalyst" then .ok (flow.burnCatalyst s)
  else if binding = "read_pools" then .ok (s, true, (flow.state s).repr)
  else .error ⟨"ValueError", "unsupported resource-flow binding: " ++ binding⟩

/-- `actuate`, of a capability by its binding. -/
def actuate (s : FlowState) (binding : String) : Except PyError (FlowState × FlowEffect) :=
  if s.closed then .error ⟨"RuntimeError", "environment is torn down"⟩
  else (flow.branch s binding).map fun (s', applicable, effect) =>
    (s', ⟨flow.state s, flow.state s', applicable, effect⟩)

/-- The state that a call leaves. A call raises before it changes anything. -/
def call (s : FlowState) (binding : String) : FlowState :=
  match flow.actuate s binding with
  | .ok (s', _) => s'
  | .error _ => s

def after (s : FlowState) (calls : List String) : FlowState := calls.foldl flow.call s

/-- Some calls reach a state that is solved. -/
def Solvable (s : FlowState) : Prop := ∃ calls, flow.solved (flow.after s calls) = true

variable {flow} {s s' : FlowState} {binding : String}

@[simp] theorem solved_iff : flow.solved s = true ↔ flow.target ≤ s.output := by simp [solved]

@[simp] theorem after_nil : flow.after s [] = s := rfl

@[simp] theorem after_cons (calls : List String) :
    flow.after s (binding :: calls) = flow.after (flow.call s binding) calls := rfl

@[simp] theorem after_append (calls more : List String) :
    flow.after s (calls ++ more) = flow.after (flow.after s calls) more := List.foldl_append

/-! ## What a call does -/

/-- A call does nothing, or moves tokens within the capacity. -/
inductive Moves (flow : ResourceFlow) (s : FlowState) : FlowState → Prop
  | stays : Moves flow s s
  | mines (gained : ℤ) : 0 ≤ gained → s.raw + gained ≤ flow.capacity →
      Moves flow s { s with raw := s.raw + gained }
  | refines : s.catalyst = true → 1 ≤ s.raw → s.refined < flow.capacity →
      Moves flow s { s with raw := s.raw - 1, refined := s.refined + 1 }
  | assembles : 1 ≤ s.refined → s.output < flow.capacity →
      Moves flow s { s with refined := s.refined - 1, output := s.output + 1 }
  | burns : s.catalyst = true → Moves flow s
      { s with
        catalyst := false
        output := s.output + min flow.catalystBonus (flow.capacity - s.output) }

theorem mine_moves : Moves flow s (flow.mine s).1 := by
  have hrate := flow.mineRate_pos
  unfold mine
  split
  · exact .stays
  · exact .mines _ (by omega) (by omega)

theorem refine_moves : Moves flow s (flow.refine s).1 := by
  unfold refine
  split
  · exact .stays
  · next hcatalyst =>
    split
    · exact .stays
    · split
      · exact .stays
      · exact .refines (by simpa using hcatalyst) (by omega) (by omega)

theorem assemble_moves : Moves flow s (flow.assemble s).1 := by
  unfold assemble
  split
  · exact .stays
  · split
    · exact .stays
    · exact .assembles (by omega) (by omega)

theorem burnCatalyst_moves : Moves flow s (flow.burnCatalyst s).1 := by
  unfold burnCatalyst
  split
  · exact .stays
  · next hcatalyst => exact .burns (by simpa using hcatalyst)

theorem branch_moves {b : Branch} (h : flow.branch s binding = .ok b) : Moves flow s b.1 := by
  unfold branch at h
  split at h
  · cases h
    exact mine_moves
  split at h
  · cases h
    exact refine_moves
  split at h
  · cases h
    exact assemble_moves
  split at h
  · cases h
    exact burnCatalyst_moves
  split at h <;> cases h
  exact .stays

theorem call_eq (hclosed : s.closed = false) {b : Branch} (h : flow.branch s binding = .ok b) :
    flow.call s binding = b.1 := by
  simp [call, actuate, hclosed, h, Except.map]

theorem call_moves (binding : String) : Moves flow s (flow.call s binding) := by
  by_cases hclosed : s.closed = true
  · simp only [call, actuate, hclosed, if_true]
    exact .stays
  cases h : flow.branch s binding with
  | error e =>
    simp only [call, actuate, hclosed, h, Except.map]
    exact .stays
  | ok b =>
    rw [call_eq (by simpa using hclosed) h]
    exact branch_moves h

/-- The pools are within the capacity. -/
structure InBounds (flow : ResourceFlow) (s : FlowState) : Prop where
  raw : 0 ≤ s.raw ∧ s.raw ≤ flow.capacity
  refined : 0 ≤ s.refined ∧ s.refined ≤ flow.capacity
  output : 0 ≤ s.output ∧ s.output ≤ flow.capacity

/-- What holds of every state the calls reach. -/
structure Kept (flow : ResourceFlow) (s : FlowState) : Prop where
  notClosed : s.closed = false
  inBounds : InBounds flow s

theorem Kept.moves (h : Kept flow s) (hmoves : Moves flow s s') : Kept flow s' := by
  obtain ⟨hclosed, hraw, hrefined, houtput⟩ := h
  cases hmoves with
  | stays => exact ⟨hclosed, hraw, hrefined, houtput⟩
  | mines gained hgained hfits =>
    exact ⟨hclosed, ⟨by dsimp only; omega, hfits⟩, hrefined, houtput⟩
  | refines _ hsome hfits =>
    exact ⟨hclosed, by dsimp only; omega, by dsimp only; omega, houtput⟩
  | assembles hsome hfits =>
    exact ⟨hclosed, hraw, by dsimp only; omega, by dsimp only; omega⟩
  | burns =>
    have hbonus := flow.catalystBonus_pos
    exact ⟨hclosed, hraw, hrefined, by dsimp only; omega⟩

theorem kept_after : ∀ {s : FlowState}, Kept flow s → ∀ calls : List String,
    Kept flow (flow.after s calls)
  | _, h, [] => h
  | _, h, binding :: calls => kept_after (h.moves (call_moves binding)) calls

theorem kept_initial : Kept flow {} := by
  have htarget := flow.target_pos
  have hcapacity := flow.target_le
  have hpool : (0 : ℤ) ≤ 0 ∧ 0 ≤ flow.capacity := by omega
  exact ⟨rfl, hpool, hpool, hpool⟩

/-! ## Without the catalyst nothing is gained -/

theorem total_of_moves (hcatalyst : s.catalyst = false) (hmoves : Moves flow s s') :
    s'.catalyst = false ∧ s'.output + s'.refined = s.output + s.refined := by
  cases hmoves with
  | stays | mines => exact ⟨hcatalyst, rfl⟩
  | refines h | burns h => simp [hcatalyst] at h
  | assembles => exact ⟨hcatalyst, by dsimp only; omega⟩

theorem total_after : ∀ {s : FlowState}, s.catalyst = false → ∀ calls : List String,
    (flow.after s calls).output + (flow.after s calls).refined = s.output + s.refined
  | _, _, [] => rfl
  | s, hcatalyst, binding :: calls => by
    obtain ⟨hcatalyst', htotal⟩ := total_of_moves hcatalyst (call_moves binding : Moves flow s _)
    rw [after_cons, total_after hcatalyst' calls, htotal]

/-! ## Otherwise one more token can be put out -/

/-- There is a catalyst, or enough is refined already. -/
def Promising (flow : ResourceFlow) (s : FlowState) : Prop :=
  s.catalyst = true ∨ flow.target ≤ s.output + s.refined

theorem call_mine (h : Kept flow s) (hraw : s.raw < flow.capacity) :
    flow.call s "mine" =
      { s with raw := s.raw + min flow.mineRate (flow.capacity - s.raw) } := by
  have hbranch : flow.branch s "mine" = .ok (flow.mine s) := rfl
  rw [call_eq h.notClosed hbranch, mine, if_neg (by omega)]

theorem call_refine (h : Kept flow s) (hcatalyst : s.catalyst = true) (hraw : 1 ≤ s.raw)
    (hrefined : s.refined < flow.capacity) :
    flow.call s "refine" = { s with raw := s.raw - 1, refined := s.refined + 1 } := by
  have hbranch : flow.branch s "refine" = .ok (flow.refine s) := rfl
  rw [call_eq h.notClosed hbranch, refine, if_neg (by simp [hcatalyst]), if_neg (by omega),
    if_neg (by omega)]

theorem call_assemble (h : Kept flow s) (hrefined : 1 ≤ s.refined)
    (houtput : s.output < flow.capacity) :
    flow.call s "assemble" = { s with refined := s.refined - 1, output := s.output + 1 } := by
  have hbranch : flow.branch s "assemble" = .ok (flow.assemble s) := rfl
  rw [call_eq h.notClosed hbranch, assemble, if_neg (by omega), if_neg (by omega)]

/-- Some calls put out one more token, and it stays promising. -/
def Advances (flow : ResourceFlow) (s : FlowState) : Prop :=
  ∃ calls, (flow.after s calls).output = s.output + 1 ∧ Promising flow (flow.after s calls)

theorem advances_of_refined (h : Kept flow s) (hpromising : Promising flow s)
    (hshort : s.output < flow.target) (hrefined : 1 ≤ s.refined) : Advances flow s := by
  have hcapacity := flow.target_le
  refine ⟨["assemble"], ?_⟩
  rw [after_cons, after_nil, call_assemble h hrefined (by omega)]
  refine ⟨rfl, hpromising.imp id fun htotal => ?_⟩
  dsimp only
  omega

theorem advances_of_raw (h : Kept flow s) (hcatalyst : s.catalyst = true)
    (hshort : s.output < flow.target) (hraw : 1 ≤ s.raw) (hrefined : s.refined = 0) :
    Advances flow s := by
  have htarget := flow.target_pos
  have hcapacity := flow.target_le
  have hcall := call_refine h hcatalyst hraw (by omega)
  obtain ⟨calls, hcalls⟩ := advances_of_refined (h.moves (call_moves "refine"))
    (.inl (by rw [hcall]; exact hcatalyst)) (by rw [hcall]; exact hshort)
    (by rw [hcall]; dsimp only; omega)
  refine ⟨"refine" :: calls, ?_⟩
  rw [hcall] at hcalls
  rwa [after_cons, hcall]

theorem advances (h : Kept flow s) (hpromising : Promising flow s)
    (hshort : s.output < flow.target) : Advances flow s := by
  have htarget := flow.target_pos
  have hcapacity := flow.target_le
  have hrate := flow.mineRate_pos
  have hraw := h.inBounds.raw
  have hrefined := h.inBounds.refined
  by_cases hsome : 1 ≤ s.refined
  · exact advances_of_refined h hpromising hshort hsome
  · have hnone : s.refined = 0 := by omega
    have hcatalyst : s.catalyst = true := hpromising.resolve_right (by omega)
    by_cases hmined : 1 ≤ s.raw
    · exact advances_of_raw h hcatalyst hshort hmined hnone
    · have hcall := call_mine h (by omega)
      obtain ⟨calls, hcalls⟩ := advances_of_raw (h.moves (call_moves "mine"))
        (by rw [hcall]; exact hcatalyst) (by rw [hcall]; exact hshort)
        (by rw [hcall]; dsimp only; omega) (by rw [hcall]; exact hnone)
      refine ⟨"mine" :: calls, ?_⟩
      rw [hcall] at hcalls
      rwa [after_cons, hcall]

/-- One token after another, up to the target. -/
theorem solvable_of_promising : ∀ {left : ℕ} {s : FlowState}, Kept flow s → Promising flow s →
    flow.target ≤ s.output + left → Solvable flow s
  | 0, s, _, _, hleft => ⟨[], solved_iff.mpr (by simpa using hleft)⟩
  | left + 1, s, h, hpromising, hleft => by
    by_cases hshort : s.output < flow.target
    · obtain ⟨calls, houtput, hstill⟩ := advances h hpromising hshort
      have hless : flow.target ≤ (flow.after s calls).output + left := by
        rw [houtput]
        push_cast at hleft
        omega
      obtain ⟨more, hmore⟩ := solvable_of_promising (kept_after h calls) hstill hless
      exact ⟨calls ++ more, by rwa [after_append]⟩
    · exact ⟨[], solved_iff.mpr (by simpa using hshort)⟩

theorem solvable_iff (h : Kept flow s) : Solvable flow s ↔ Promising flow s := by
  constructor
  · rintro ⟨calls, hcalls⟩
    by_cases hcatalyst : s.catalyst = true
    · exact .inl hcatalyst
    · have hkept := kept_after h calls
      have htotal : (flow.after s calls).output + (flow.after s calls).refined =
          s.output + s.refined := total_after (by simpa using hcatalyst) calls
      have hrefined := hkept.inBounds.refined
      exact .inr (by rw [← htotal]; have := solved_iff.mp hcalls; omega)
  · intro hpromising
    have houtput := h.inBounds.output
    have hleft : flow.target ≤ s.output + flow.target.toNat := by omega
    exact solvable_of_promising h hpromising hleft

theorem deadEnd_iff (h : InBounds flow s) : flow.deadEnd s = true ↔ ¬Promising flow s := by
  have hrefined := h.refined
  unfold deadEnd Promising
  split
  · next hsolved => exact iff_of_false Bool.false_ne_true (not_not.mpr (.inr (by omega)))
  · split
    · next hcatalyst => exact iff_of_false Bool.false_ne_true (not_not.mpr (.inl hcatalyst))
    · next hcatalyst => simp [hcatalyst]

/-- The pools are within the capacity in every state that calls reach, and the flag is set there
exactly when no calls reach the target. -/
theorem flow_deadEnd_exact (flow : ResourceFlow) (calls : List String) :
    InBounds flow (flow.after {} calls) ∧
      (flow.deadEnd (flow.after {} calls) = true ↔ ¬Solvable flow (flow.after {} calls)) := by
  have hkept : Kept flow (flow.after {} calls) := kept_after kept_initial calls
  exact ⟨hkept.inBounds, by rw [deadEnd_iff hkept.inBounds, solvable_iff hkept]⟩

end ResourceFlow

end GymAct
