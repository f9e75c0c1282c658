import GymAct.ExecutionContract
import GymAct.LockAndKey
import GymAct.ResourceFlow
import GymAct.Switchboard

/-!
# Checkpoints that are restored

`restore` of the switchboard, the resource flow and the lock chain. Each converts and checks the
fields of a checkpoint, assigns them, and converts its last fields only then, so a checkpoint
whose last field is missing or does not convert is refused after some of it was assigned.

`Restorable` is an environment that is called, restored and torn down in any order. `Restores` says
that its states stay in bounds, that a refused restore changes nothing exactly when the checkpoint
is `Whole`, and that what `checkpoint` gave brings back what was observed then.
`gyms_restore` is this of the three.
-/

namespace GymAct

open Fallible

/-! ## Programs of an environment -/

/-- An expression that may raise. -/
def reading {σ α : Type} (r : Except PyError α) : Prog PyError σ α := fun s => some (r, s)

@[simp]
theorem wp_reading {σ α : Type} {r : Except PyError α} {post : α → σ → Prop}
    {err : PyError → σ → Prop} {div : Prop} {s : σ} : wp (reading r) post err div s ↔
      (∀ a, r = .ok a → post a s) ∧ ∀ e, r = .error e → err e s := by
  cases r with
  | ok a => simp [wp, reading]
  | error e => simp [wp, reading]

theorem reading_ok {σ α : Type} (a : α) : (reading (.ok a) : Prog PyError σ α) = pure a := rfl

/-- `_ensure_open`. -/
def ensureOpen (closed : Bool) : Except PyError Unit :=
  if closed then .error ⟨"RuntimeError", "environment is torn down"⟩ else .ok ()

@[simp]
theorem ensureOpen_eq_ok {closed : Bool} {u : Unit} :
    ensureOpen closed = .ok u ↔ closed = false := by
  cases closed <;> simp [ensureOpen]

variable {V : Type} (K : PyValues V)

/-- `int(d[key])` is `n`. -/
def ReadsInt (d : PyDict V) (key : String) (n : ℤ) : Prop :=
  ∃ value, d.lookup key = some value ∧ K.int value = .ok n

/-- `bool(d[key])` is `b`. -/
def ReadsBool (d : PyDict V) (key : String) (b : Bool) : Prop :=
  ∃ value, d.lookup key = some value ∧ K.bool value = .ok b

/-- `int(d[key])`. -/
def PyDict.int (d : PyDict V) (key : String) : Except PyError ℤ := d.index key >>= K.int

/-- `bool(d[key])`. -/
def PyDict.bool (d : PyDict V) (key : String) : Except PyError Bool := d.index key >>= K.bool

variable {K} {d : PyDict V} {key : String}

theorem index_eq_ok {value : V} : d.index key = .ok value ↔ d.lookup key = some value := by
  unfold PyDict.index
  cases d.lookup key <;> simp

theorem int_eq {v : V} (h : d.lookup key = some v) : d.int K key = K.int v := by
  simp [PyDict.int, PyDict.index, h]

theorem bool_eq {v : V} (h : d.lookup key = some v) : d.bool K key = K.bool v := by
  simp [PyDict.bool, PyDict.index, h]

theorem int_eq_ok {n : ℤ} : d.int K key = .ok n ↔ ReadsInt K d key n := by
  simp [PyDict.int, ReadsInt, bind_eq_ok, index_eq_ok]

theorem bool_eq_ok {b : Bool} : d.bool K key = .ok b ↔ ReadsBool K d key b := by
  simp [PyDict.bool, ReadsBool, bind_eq_ok, index_eq_ok]

/-! ## Environments that restore -/

/-- An environment : what `observe`, `checkpoint`, a call, `restore` and `teardown` do, the bounds
of its states, and the checkpoints that it takes as a whole. -/
structure Restorable (V : Type) where
  State : Type
  View : Type
  Call : Type
  initial : State
  observe : State → Except PyError View
  checkpoint : State → Except PyError (PyDict V)
  call : State → Call → State
  restore : PyDict V → Prog PyError State Unit
  teardown : State → State
  InBounds : State → Prop
  Whole : State → PyDict V → Prop

namespace Restorable

/-- What is done with an environment. -/
inductive Op (V Call : Type)
  | actuate (c : Call)
  | restore (d : PyDict V)
  | teardown

variable (env : Restorable V)

/-- The state that a restore leaves, also where it raises. -/
def restored (s : env.State) (d : PyDict V) : env.State :=
  match env.restore d s with
  | some (_, s') => s'
  | none => s

/-- The state that an operation leaves. -/
def step (s : env.State) : Op V env.Call → env.State
  | .actuate c => env.call s c
  | .restore d => env.restored s d
  | .teardown => env.teardown s

def after (ops : List (Op V env.Call)) : env.State := ops.foldl env.step env.initial

/-- A restore raises and leaves what is observed, or returns with a state in bounds. -/
def Clean (d : PyDict V) (s : env.State) : Prop :=
  wp (env.restore d) (fun _ => env.InBounds) (fun _ s' => env.observe s' = env.observe s) False s

/-- A checkpoint of `s` is restored in `s'` : it brings back what is observed in `s`, unless `s'`
cannot be observed either. -/
def BringsBack (s s' : env.State) : Prop :=
  ∀ d, env.checkpoint s = .ok d →
    wp (env.restore d) (fun _ t => env.observe t = env.observe s)
      (fun e _ => env.observe s' = .error e) False s'

/-- What is to hold of an environment over all runs. -/
structure Restores : Prop where
  inBounds : ∀ ops, env.InBounds (env.after ops)
  clean_iff : ∀ ops d, env.Clean d (env.after ops) ↔ env.Whole (env.after ops) d
  bringsBack : ∀ earlier later,
    env.BringsBack (env.after earlier) (env.after (earlier ++ later))

/-- What is to hold of one operation for that. -/
structure Lawful : Prop where
  initial : env.InBounds env.initial
  call : ∀ {s}, env.InBounds s → ∀ c, env.InBounds (env.call s c)
  restore : ∀ {s}, env.InBounds s → ∀ d,
    wp (env.restore d) (fun _ => env.InBounds) (fun _ => env.InBounds) False s
  teardown : ∀ {s}, env.InBounds s → env.InBounds (env.teardown s)
  clean_iff : ∀ {s}, env.InBounds s → ∀ d, env.Clean d s ↔ env.Whole s d
  bringsBack : ∀ {s}, env.InBounds s → ∀ s', env.BringsBack s s'

variable {env}

theorem Lawful.restored (h : env.Lawful) {s : env.State} (hs : env.InBounds s) (d : PyDict V) :
    env.InBounds (env.restored s d) := by
  have hrestore := h.restore hs d
  unfold wp at hrestore
  unfold Restorable.restored
  generalize env.restore d s = r at hrestore ⊢
  rcases r with - | ⟨e | u, s'⟩
  · exact hs
  · exact hrestore
  · exact hrestore

theorem Lawful.step (h : env.Lawful) {s : env.State} (hs : env.InBounds s) :
    ∀ op, env.InBounds (env.step s op)
  | .actuate c => h.call hs c
  | .restore d => h.restored hs d
  | .teardown => h.teardown hs

theorem Lawful.after (h : env.Lawful) (ops : List (Op V env.Call)) :
    env.InBounds (env.after ops) := by
  unfold Restorable.after
  induction ops using List.reverseRecOn with
  | nil => exact h.initial
  | append_singleton ops op ih =>
    rw [List.foldl_append]
    exact h.step ih op

theorem Lawful.restores (h : env.Lawful) : env.Restores where
  inBounds := h.after
  clean_iff ops := h.clean_iff (h.after ops)
  bringsBack earlier _ := h.bringsBack (h.after earlier) _

end Restorable

/-! ## The switchboard -/

namespace Switchboard

variable (board : Switchboard) (K)

def observe (s : SwitchState) : Except PyError SwitchView := do
  ensureOpen s.closed
  return board.state s

/-- The `dict` of a checkpoint. -/
def saved (s : SwitchState) : PyDict V :=
  [("switches", K.ofList (s.switches.map K.ofBool)), ("master", K.ofBool s.master),
    ("toggles", K.ofInt s.toggles)]

def checkpoint (s : SwitchState) : Except PyError (PyDict V) := do
  ensureOpen s.closed
  return saved K s

/-- `checkpoint.get("switches")`, which is to be a list of `n_switches` values. -/
def savedSwitches (d : PyDict V) : Except PyError (List V) :=
  let switches := (d.lookup "switches").getD K.none
  match K.list? switches with
  | some items => if items.length = board.nSwitches then .ok items else refused switches
  | none => refused switches
where
  refused (switches : V) : Except PyError (List V) :=
    .error ⟨"ValueError", "checkpoint.switches must be a list of length " ++
      toString board.nSwitches ++ ", got " ++ K.repr switches⟩

/-- `"master" not in checkpoint or "toggles" not in checkpoint`. -/
def savedRest (d : PyDict V) : Except PyError Unit :=
  if (d.lookup "master").isNone ∨ (d.lookup "toggles").isNone then
    .error ⟨"ValueError", "checkpoint must contain 'master' and 'toggles'"⟩
  else .ok ()

def restore (d : PyDict V) : Prog PyError SwitchState Unit := do
  let s ← get
  reading (ensureOpen s.closed)
  let items ← reading (board.savedSwitches K d)
  reading (savedRest d)
  let switches ← reading (items.mapM K.bool)
  modify fun s => { s with switches := switches }
  let master ← reading (d.bool K "master")
  modify fun s => { s with master := master }
  let toggles ← reading (d.int K "toggles")
  modify fun s => { s with toggles := toggles }

def teardown (s : SwitchState) : SwitchState := { s with closed := true }

/-- There is a value for each switch. -/
def InBounds (s : SwitchState) : Prop := s.switches.length = board.nSwitches

/-- Where the switches of a checkpoint convert, `master` and `toggles` do too, or what converts
before the one that does not is what the board has. -/
def Whole (s : SwitchState) (d : PyDict V) : Prop :=
  s.closed = true ∨ ∀ value items master toggles switches, d.lookup "switches" = some value →
    K.list? value = some items → items.length = board.nSwitches →
    d.lookup "master" = some master → d.lookup "toggles" = some toggles →
    items.mapM K.bool = .ok switches →
    (∃ b n, K.bool master = .ok b ∧ K.int toggles = .ok n) ∨
      switches = s.switches ∧ ∀ b, K.bool master = .ok b → b = s.master

/-- The board as an environment. -/
def restorable : Restorable V where
  State := SwitchState
  View := SwitchView
  Call := SwitchCall V
  initial := board.initial
  observe := board.observe
  checkpoint := checkpoint K
  call := board.call K
  restore := board.restore K
  teardown := teardown
  InBounds := board.InBounds
  Whole := board.Whole K

variable {board} {s : SwitchState} {d : PyDict V}

theorem savedSwitches_eq_ok {items : List V} : board.savedSwitches K d = .ok items ↔
    ∃ value, d.lookup "switches" = some value ∧ K.list? value = some items ∧
      items.length = board.nSwitches := by
  unfold savedSwitches savedSwitches.refused
  cases hlookup : d.lookup "switches" with
  | none => simp [K.list?_none]
  | some value =>
    cases hlist : K.list? value with
    | none => simp [hlist]
    | some found =>
      simp only [Option.getD_some, hlist, Option.some.injEq, exists_eq_left']
      split
      · next hlength =>
        simp only [Except.ok.injEq]
        exact ⟨fun h => ⟨h, h ▸ hlength⟩, And.left⟩
      · next hlength =>
        refine iff_of_false nofun ?_
        rintro ⟨rfl, h⟩
        exact hlength h

theorem savedRest_eq_ok {u : Unit} : savedRest d = .ok u ↔
    ∃ master toggles, d.lookup "master" = some master ∧ d.lookup "toggles" = some toggles := by
  unfold savedRest
  cases d.lookup "master" <;> cases d.lookup "toggles" <;> simp

theorem mapM_length {α β : Type} {f : α → Except PyError β} : ∀ {l : List α} {l' : List β},
    l.mapM f = .ok l' → l'.length = l.length
  | [], l', h => by
    cases h
    rfl
  | a :: l, l', h => by
    rw [List.mapM_cons] at h
    obtain ⟨b, -, h⟩ := bind_eq_ok.mp h
    obtain ⟨bs, hbs, h⟩ := bind_eq_ok.mp h
    cases h
    simp [mapM_length hbs]

/-- What a restore leaves behind, wherever it raises. -/
theorem restore_inBounds (hs : board.InBounds s) (d : PyDict V) :
    wp (board.restore K d) (fun _ => board.InBounds) (fun _ => board.InBounds) False s := by
  simp only [restore, wp_bind, wp_get, wp_reading, wp_modify]
  refine ⟨fun _ _ => ⟨fun items hitems => ⟨fun _ _ => ⟨fun switches hswitches => ?_, fun _ _ => hs⟩,
    fun _ _ => hs⟩, fun _ _ => hs⟩, fun _ _ => hs⟩
  obtain ⟨-, -, -, hlength⟩ := (savedSwitches_eq_ok K).mp hitems
  have hnew : switches.length = board.nSwitches := (mapM_length hswitches).trans hlength
  exact ⟨fun _ _ => ⟨fun _ _ => hnew, fun _ _ => hnew⟩, fun _ _ => hnew⟩

theorem observe_eq (hopen : s.closed = false) : board.observe s = .ok (board.state s) := by
  simp [observe, ensureOpen, hopen, bind, Except.bind, pure, Except.pure]

/-- An open board with other values is observed to be the same when they are. -/
theorem observe_eq_iff (hopen : s.closed = false) {switches : List Bool} {master : Bool}
    {toggles : ℤ} :
    board.observe { s with switches := switches, master := master, toggles := toggles } =
      board.observe s ↔ switches = s.switches ∧ master = s.master ∧ toggles = s.toggles := by
  have hnew : board.observe { s with switches := switches, master := master, toggles := toggles } =
      .ok (board.state _) := observe_eq hopen
  rw [hnew, observe_eq hopen]
  constructor
  · intro h
    have hview := Except.ok.inj h
    exact ⟨congrArg SwitchView.switches hview, congrArg SwitchView.master hview,
      congrArg SwitchView.toggles hview⟩
  · rintro ⟨rfl, rfl, rfl⟩
    rfl

theorem clean_iff (d : PyDict V) : (board.restorable K).Clean d s ↔ board.Whole K s d := by
  change wp (board.restore K d) (fun _ => board.InBounds)
    (fun _ s' => board.observe s' = board.observe s) False s ↔ _
  simp only [restore, wp_bind, wp_get, wp_reading, wp_modify]
  constructor
  · intro h
    by_cases hopen : s.closed = true
    · exact .inl hopen
    replace hopen : s.closed = false := by simpa using hopen
    refine .inr fun value items master toggles switches hvalue hlist hlength hmaster htoggles
      hswitches => ?_
    have hitems := (savedSwitches_eq_ok K).mpr ⟨value, hvalue, hlist, hlength⟩
    have hrest := (savedRest_eq_ok (u := ())).mpr ⟨master, toggles, hmaster, htoggles⟩
    obtain ⟨hset, hkept⟩ :=
      (((h.1 () (ensureOpen_eq_ok.mpr hopen)).1 items hitems).1 () hrest).1 switches hswitches
    rw [bool_eq hmaster, int_eq htoggles] at hset
    rw [bool_eq hmaster] at hkept
    cases hbool : K.bool master with
    | error e => exact .inr ⟨((observe_eq_iff hopen).mp (hkept e hbool)).1,
        fun _ h => by cases h⟩
    | ok b =>
      cases hint : K.int toggles with
      | ok n => exact .inl ⟨b, n, rfl, rfl⟩
      | error e =>
        obtain ⟨hsame, hsame', -⟩ := (observe_eq_iff hopen).mp ((hset b hbool).2 e hint)
        refine .inr ⟨hsame, fun b' hb' => ?_⟩
        rw [← Except.ok.inj hb']
        exact hsame'
  · intro h
    refine ⟨fun _ hopen => ⟨fun items hitems => ⟨fun _ hrest => ⟨fun switches hswitches => ?_,
      fun _ _ => trivial⟩, fun _ _ => trivial⟩, fun _ _ => trivial⟩, fun _ _ => trivial⟩
    replace hopen := ensureOpen_eq_ok.mp hopen
    obtain ⟨value, hvalue, hlist, hlength⟩ := (savedSwitches_eq_ok K).mp hitems
    obtain ⟨master, toggles, hmaster, htoggles⟩ := savedRest_eq_ok.mp hrest
    rw [bool_eq hmaster, int_eq htoggles]
    have hnew : switches.length = board.nSwitches := (mapM_length hswitches).trans hlength
    have hwhole := (h.resolve_left (by simp [hopen])) value items master toggles switches hvalue
      hlist hlength hmaster htoggles hswitches
    refine ⟨fun b hbool => ⟨fun _ _ => hnew, fun e hint => ?_⟩, fun e hbool => ?_⟩
    · obtain ⟨hsame, hsame'⟩ := hwhole.resolve_left (by simp [hint])
      exact (observe_eq_iff hopen).mpr ⟨hsame, hsame' b hbool, rfl⟩
    · obtain ⟨hsame, -⟩ := hwhole.resolve_left (by simp [hbool])
      exact (observe_eq_iff hopen).mpr ⟨hsame, rfl, rfl⟩

theorem mapM_ofBool (l : List Bool) : (l.map K.ofBool).mapM K.bool = .ok l := by
  induction l with
  | nil => rfl
  | cons b l ih => simp [List.mapM_cons, K.bool_ofBool, ih, pure, Except.pure]

theorem saved_switches (hs : board.InBounds s) :
    board.savedSwitches K (saved K s) = .ok (s.switches.map K.ofBool) := by
  refine (savedSwitches_eq_ok K).mpr ⟨_, rfl, K.list?_ofList _, ?_⟩
  rw [List.length_map]
  exact hs

theorem saved_rest : savedRest (saved K s) = .ok () :=
  savedRest_eq_ok.mpr ⟨_, _, rfl, rfl⟩

theorem saved_master : (saved K s).bool K "master" = .ok s.master := by
  rw [bool_eq (v := K.ofBool s.master) rfl, K.bool_ofBool]

theorem saved_toggles : (saved K s).int K "toggles" = .ok s.toggles := by
  rw [int_eq (v := K.ofInt s.toggles) rfl, K.int_ofInt]

theorem bringsBack (hs : board.InBounds s) (s' : SwitchState) :
    (board.restorable K).BringsBack s s' := by
  intro d hd
  obtain ⟨_, hopen, h⟩ := bind_eq_ok.mp hd
  replace hopen := ensureOpen_eq_ok.mp hopen
  obtain rfl : saved K s = d := Except.ok.inj h
  change wp (board.restore K _) (fun _ t => board.observe t = board.observe s)
    (fun e _ => board.observe s' = .error e) False s'
  simp only [restore, wp_bind, wp_get, wp_modify, saved_switches K hs, saved_rest, mapM_ofBool,
    saved_master, saved_toggles, reading_ok, wp_pure]
  refine wp_reading.mpr ⟨fun _ hopen' => ?_, fun e he => by simp [observe, he, bind, Except.bind]⟩
  have hagain : board.observe { s with closed := s'.closed } = .ok (board.state s) :=
    observe_eq (ensureOpen_eq_ok.mp hopen')
  exact hagain.trans (observe_eq hopen).symm

theorem lawful : (board.restorable K).Lawful where
  initial := List.length_replicate
  call hs _ := call_length.trans hs
  restore := restore_inBounds K
  teardown hs := hs
  clean_iff _ := clean_iff K
  bringsBack := bringsBack K

end Switchboard

/-! ## The resource flow -/

namespace ResourceFlow

variable (flow : ResourceFlow) (K)

def observe (s : FlowState) : Except PyError FlowView := do
  ensureOpen s.closed
  return flow.state s

/-- The `dict` of a checkpoint. -/
def saved (s : FlowState) : PyDict V :=
  [("raw", K.ofInt s.raw), ("refined", K.ofInt s.refined), ("output", K.ofInt s.output),
    ("catalyst", K.ofBool s.catalyst)]

def checkpoint (s : FlowState) : Except PyError (PyDict V) := do
  ensureOpen s.closed
  return saved K s

/-- A level of a checkpoint is within the capacity. -/
def checkLevel (name : String) (value : ℤ) : Except PyError Unit :=
  if ¬(0 ≤ value ∧ value ≤ flow.capacity) then
    .error ⟨"ValueError", "checkpoint." ++ name ++ " must be in [0, " ++ toString flow.capacity ++
      "], got " ++ toString value⟩
  else .ok ()

/-- The levels of a checkpoint, converted and then checked. -/
def savedLevels (d : PyDict V) : Except PyError (ℤ × ℤ × ℤ) := do
  let raw ← d.int K "raw"
  let refined ← d.int K "refined"
  let output ← d.int K "output"
  flow.checkLevel "raw" raw
  flow.checkLevel "refined" refined
  flow.checkLevel "output" output
  return (raw, refined, output)

def restore (d : PyDict V) : Prog PyError FlowState Unit := do
  let s ← get
  reading (ensureOpen s.closed)
  let (raw, refined, output) ← reading (flow.savedLevels K d)
  modify fun s => { s with raw := raw, refined := refined, output := output }
  let catalyst ← reading (d.bool K "catalyst")
  modify fun s => { s with catalyst := catalyst }

def teardown (s : FlowState) : FlowState := { s with closed := true }

/-- A level within the capacity. -/
def Fits (n : ℤ) : Prop := 0 ≤ n ∧ n ≤ flow.capacity

/-- Where the levels of a checkpoint convert and are within the capacity, `catalyst` converts too,
or they are what the pools have. -/
def Whole (s : FlowState) (d : PyDict V) : Prop :=
  s.closed = true ∨ ∀ raw refined output, ReadsInt K d "raw" raw → ReadsInt K d "refined" refined →
    ReadsInt K d "output" output → flow.Fits raw → flow.Fits refined → flow.Fits output →
    (∃ b, ReadsBool K d "catalyst" b) ∨ raw = s.raw ∧ refined = s.refined ∧ output = s.output

/-- The pools as an environment. -/
def restorable : Restorable V where
  State := FlowState
  View := FlowView
  Call := String
  initial := {}
  observe := flow.observe
  checkpoint := checkpoint K
  call := flow.call
  restore := flow.restore K
  teardown := teardown
  InBounds := InBounds flow
  Whole := flow.Whole K

variable {flow} {s : FlowState} {d : PyDict V}

@[simp]
theorem checkLevel_eq_ok {name : String} {n : ℤ} {u : Unit} :
    flow.checkLevel name n = .ok u ↔ flow.Fits n := by
  unfold checkLevel Fits
  split <;> simp_all

theorem savedLevels_eq_ok {levels : ℤ × ℤ × ℤ} : flow.savedLevels K d = .ok levels ↔
    (ReadsInt K d "raw" levels.1 ∧ ReadsInt K d "refined" levels.2.1 ∧
      ReadsInt K d "output" levels.2.2) ∧
    flow.Fits levels.1 ∧ flow.Fits levels.2.1 ∧ flow.Fits levels.2.2 := by
  obtain ⟨raw, refined, output⟩ := levels
  unfold savedLevels
  simp only [bind_eq_ok, int_eq_ok, checkLevel_eq_ok]
  constructor
  · rintro ⟨_, hraw, _, hrefined, _, houtput, _, hfits, _, hfits', _, hfits'', h⟩
    cases h
    exact ⟨⟨hraw, hrefined, houtput⟩, hfits, hfits', hfits''⟩
  · rintro ⟨⟨hraw, hrefined, houtput⟩, hfits, hfits', hfits''⟩
    exact ⟨raw, hraw, refined, hrefined, output, houtput, (), hfits, (), hfits', (), hfits'', rfl⟩

theorem observe_eq (hopen : s.closed = false) : flow.observe s = .ok (flow.state s) := by
  simp [observe, ensureOpen, hopen, bind, Except.bind, pure, Except.pure]

/-- Open pools at other levels are observed to be the same when those are. -/
theorem observe_eq_iff (hopen : s.closed = false) {raw refined output : ℤ} :
    flow.observe { s with raw := raw, refined := refined, output := output } = flow.observe s ↔
      raw = s.raw ∧ refined = s.refined ∧ output = s.output := by
  have hnew : flow.observe { s with raw := raw, refined := refined, output := output } =
      .ok (flow.state _) := observe_eq hopen
  rw [hnew, observe_eq hopen]
  constructor
  · intro h
    have hview := Except.ok.inj h
    exact ⟨congrArg FlowView.raw hview, congrArg FlowView.refined hview,
      congrArg FlowView.output hview⟩
  · rintro ⟨rfl, rfl, rfl⟩
    rfl

theorem restore_inBounds (hs : InBounds flow s) (d : PyDict V) :
    wp (flow.restore K d) (fun _ => InBounds flow) (fun _ => InBounds flow) False s := by
  simp only [restore, wp_bind, wp_get, wp_reading, wp_modify]
  refine ⟨fun _ _ => ⟨fun levels hlevels => ?_, fun _ _ => hs⟩, fun _ _ => hs⟩
  obtain ⟨-, hraw, hrefined, houtput⟩ := (savedLevels_eq_ok K).mp hlevels
  exact ⟨fun _ _ => ⟨hraw, hrefined, houtput⟩, fun _ _ => ⟨hraw, hrefined, houtput⟩⟩

theorem clean_iff (d : PyDict V) : (flow.restorable K).Clean d s ↔ flow.Whole K s d := by
  change wp (flow.restore K d) (fun _ => InBounds flow)
    (fun _ s' => flow.observe s' = flow.observe s) False s ↔ _
  simp only [restore, wp_bind, wp_get, wp_reading, wp_modify]
  constructor
  · intro h
    by_cases hopen : s.closed = true
    · exact .inl hopen
    replace hopen : s.closed = false := by simpa using hopen
    refine .inr fun raw refined output hraw hrefined houtput hfits hfits' hfits'' => ?_
    have hlevels : flow.savedLevels K d = .ok (raw, refined, output) :=
      (savedLevels_eq_ok K).mpr ⟨⟨hraw, hrefined, houtput⟩, hfits, hfits', hfits''⟩
    obtain ⟨-, hkept⟩ := (h.1 () (ensureOpen_eq_ok.mpr hopen)).1 _ hlevels
    cases hcatalyst : d.bool K "catalyst" with
    | ok b => exact .inl ⟨b, bool_eq_ok.mp hcatalyst⟩
    | error e => exact .inr ((observe_eq_iff hopen).mp (hkept e hcatalyst))
  · intro h
    refine ⟨fun _ hopen => ⟨fun levels hlevels => ?_, fun _ _ => trivial⟩, fun _ _ => trivial⟩
    replace hopen := ensureOpen_eq_ok.mp hopen
    obtain ⟨⟨hraw, hrefined, houtput⟩, hfits, hfits', hfits''⟩ := (savedLevels_eq_ok K).mp hlevels
    refine ⟨fun b _ => ⟨hfits, hfits', hfits''⟩, fun e hcatalyst => ?_⟩
    have hwhole := h.resolve_left (by simp [hopen]) levels.1 levels.2.1 levels.2.2 hraw hrefined
      houtput hfits hfits' hfits''
    refine (observe_eq_iff hopen).mpr (hwhole.resolve_left fun hok => ?_)
    obtain ⟨b, hb⟩ := hok
    rw [bool_eq_ok.mpr hb] at hcatalyst
    cases hcatalyst

theorem saved_levels (hs : InBounds flow s) :
    flow.savedLevels K (saved K s) = .ok (s.raw, s.refined, s.output) :=
  (savedLevels_eq_ok K).mpr ⟨⟨⟨_, rfl, K.int_ofInt _⟩, ⟨_, rfl, K.int_ofInt _⟩,
    ⟨_, rfl, K.int_ofInt _⟩⟩, hs.raw, hs.refined, hs.output⟩

theorem saved_catalyst : (saved K s).bool K "catalyst" = .ok s.catalyst :=
  bool_eq_ok.mpr ⟨_, rfl, K.bool_ofBool _⟩

theorem bringsBack (hs : InBounds flow s) (s' : FlowState) :
    (flow.restorable K).BringsBack s s' := by
  intro d hd
  obtain ⟨_, hopen, h⟩ := bind_eq_ok.mp hd
  replace hopen := ensureOpen_eq_ok.mp hopen
  obtain rfl : saved K s = d := Except.ok.inj h
  change wp (flow.restore K _) (fun _ t => flow.observe t = flow.observe s)
    (fun e _ => flow.observe s' = .error e) False s'
  simp only [restore, wp_bind, wp_get, wp_modify, saved_levels K hs, saved_catalyst, reading_ok,
    wp_pure]
  refine wp_reading.mpr ⟨fun _ hopen' => ?_, fun e he => by simp [observe, he, bind, Except.bind]⟩
  have hagain : flow.observe { s with closed := s'.closed } = .ok (flow.state s) :=
    observe_eq (ensureOpen_eq_ok.mp hopen')
  exact hagain.trans (observe_eq hopen).symm

theorem call_inBounds (hs : InBounds flow s) (binding : String) :
    InBounds flow (flow.call s binding) := by
  by_cases hopen : s.closed = true
  · simpa only [call, actuate, hopen, if_true] using hs
  · exact (Kept.moves ⟨by simpa using hopen, hs⟩ (call_moves binding)).inBounds

theorem lawful : (flow.restorable K).Lawful where
  initial := kept_initial.inBounds
  call := call_inBounds
  restore := restore_inBounds K
  teardown hs := ⟨hs.raw, hs.refined, hs.output⟩
  clean_iff _ := clean_iff K
  bringsBack := bringsBack K

end ResourceFlow

/-! ## The lock chain -/

namespace LockChain

variable (chain : LockChain) (K) (parse : String → Option ℤ)

def observe (s : LockState) : Except PyError LockView := do
  ensureOpen s.closed
  return chain.state s

/-- The `dict` of a checkpoint. -/
def saved (s : LockState) : PyDict V :=
  [("locks_open", K.ofInt s.locksOpen), ("held_key", K.ofInt s.held),
    ("rack_jammed", K.ofBool s.rackJammed)]

def checkpoint (s : LockState) : Except PyError (PyDict V) := do
  ensureOpen s.closed
  return saved K s

def checkLocksOpen (n : ℤ) : Except PyError Unit :=
  if ¬(0 ≤ n ∧ n ≤ chain.depth) then
    .error ⟨"ValueError", "checkpoint.locks_open must be in [0, " ++ toString chain.depth ++
      "], got " ++ toString n⟩
  else .ok ()

def checkHeldKey (key : ℤ) : Except PyError Unit :=
  if ¬(key = NO_KEY ∨ 0 ≤ key ∧ key < chain.depth) then
    .error ⟨"ValueError", "checkpoint.held_key must be " ++ toString NO_KEY ++ " or in [0, " ++
      toString chain.depth ++ "), got " ++ toString key⟩
  else .ok ()

/-- The locks and the key of a checkpoint, converted and then checked. -/
def savedLocks (d : PyDict V) : Except PyError (ℤ × ℤ) := do
  let locksOpen ← d.int K "locks_open"
  let held ← d.int K "held_key"
  chain.checkLocksOpen locksOpen
  chain.checkHeldKey held
  return (locksOpen, held)

def restore (d : PyDict V) : Prog PyError LockState Unit := do
  let s ← get
  reading (ensureOpen s.closed)
  let (locksOpen, held) ← reading (chain.savedLocks K d)
  modify fun s => { s with locksOpen := locksOpen.toNat, held := held }
  let rackJammed ← reading (d.bool K "rack_jammed")
  modify fun s => { s with rackJammed := rackJammed }

def teardown (s : LockState) : LockState := { s with closed := true }

/-- No key, or one of the chain. -/
def KeyInRange (key : ℤ) : Prop := key = NO_KEY ∨ 0 ≤ key ∧ key < chain.depth

/-- No more locks are open than there are, and what is held is a key of the chain. -/
structure InBounds (s : LockState) : Prop where
  opened : s.locksOpen ≤ chain.depth
  held : chain.KeyInRange s.held

/-- Where the locks and the key of a checkpoint convert and are within the chain, `rack_jammed`
converts too, or they are what the chain has. -/
def Whole (s : LockState) (d : PyDict V) : Prop :=
  s.closed = true ∨ ∀ locksOpen held, ReadsInt K d "locks_open" locksOpen →
    ReadsInt K d "held_key" held → (0 ≤ locksOpen ∧ locksOpen ≤ chain.depth) →
    chain.KeyInRange held →
    (∃ b, ReadsBool K d "rack_jammed" b) ∨ locksOpen = s.locksOpen ∧ held = s.held

/-- The chain as an environment. -/
def restorable : Restorable V where
  State := LockState
  View := LockView
  Call := LockCall
  initial := {}
  observe := chain.observe
  checkpoint := checkpoint K
  call := chain.call parse
  restore := chain.restore K
  teardown := teardown
  InBounds := chain.InBounds
  Whole := chain.Whole K

variable {chain parse} {s : LockState} {d : PyDict V}

@[simp]
theorem checkLocksOpen_eq_ok {n : ℤ} {u : Unit} :
    chain.checkLocksOpen n = .ok u ↔ 0 ≤ n ∧ n ≤ chain.depth := by
  unfold checkLocksOpen
  split <;> simp_all

@[simp]
theorem checkHeldKey_eq_ok {key : ℤ} {u : Unit} :
    chain.checkHeldKey key = .ok u ↔ chain.KeyInRange key := by
  unfold checkHeldKey KeyInRange
  split
  · next hrange => exact iff_of_false nofun hrange
  · next hrange => exact iff_of_true rfl (not_not.mp hrange)

theorem savedLocks_eq_ok {locks : ℤ × ℤ} : chain.savedLocks K d = .ok locks ↔
    (ReadsInt K d "locks_open" locks.1 ∧ ReadsInt K d "held_key" locks.2) ∧
      (0 ≤ locks.1 ∧ locks.1 ≤ chain.depth) ∧ chain.KeyInRange locks.2 := by
  obtain ⟨locksOpen, held⟩ := locks
  unfold savedLocks
  simp only [bind_eq_ok, int_eq_ok, checkLocksOpen_eq_ok, checkHeldKey_eq_ok]
  constructor
  · rintro ⟨_, hlocks, _, hheld, _, hfits, _, hrange, h⟩
    cases h
    exact ⟨⟨hlocks, hheld⟩, hfits, hrange⟩
  · rintro ⟨⟨hlocks, hheld⟩, hfits, hrange⟩
    exact ⟨locksOpen, hlocks, held, hheld, (), hfits, (), hrange, rfl⟩

theorem observe_eq (hopen : s.closed = false) : chain.observe s = .ok (chain.state s) := by
  simp [observe, ensureOpen, hopen, bind, Except.bind, pure, Except.pure]

/-- An open chain with other locks open or another key is observed to be the same when those
are. -/
theorem observe_eq_iff (hopen : s.closed = false) {locksOpen : ℕ} {held : ℤ} :
    chain.observe { s with locksOpen := locksOpen, held := held } = chain.observe s ↔
      locksOpen = s.locksOpen ∧ held = s.held := by
  have hnew : chain.observe { s with locksOpen := locksOpen, held := held } =
      .ok (chain.state _) := observe_eq hopen
  rw [hnew, observe_eq hopen]
  constructor
  · intro h
    have hview := Except.ok.inj h
    exact ⟨congrArg LockView.locksOpen hview, congrArg LockView.heldKey hview⟩
  · rintro ⟨rfl, rfl⟩
    rfl

theorem restore_inBounds (hs : chain.InBounds s) (d : PyDict V) :
    wp (chain.restore K d) (fun _ => chain.InBounds) (fun _ => chain.InBounds) False s := by
  simp only [restore, wp_bind, wp_get, wp_reading, wp_modify]
  refine ⟨fun _ _ => ⟨fun locks hlocks => ?_, fun _ _ => hs⟩, fun _ _ => hs⟩
  obtain ⟨-, hfits, hrange⟩ := (savedLocks_eq_ok K).mp hlocks
  have hopened : locks.1.toNat ≤ chain.depth := by omega
  exact ⟨fun _ _ => ⟨hopened, hrange⟩, fun _ _ => ⟨hopened, hrange⟩⟩

theorem clean_iff (d : PyDict V) : (chain.restorable K parse).Clean d s ↔ chain.Whole K s d := by
  change wp (chain.restore K d) (fun _ => chain.InBounds)
    (fun _ s' => chain.observe s' = chain.observe s) False s ↔ _
  simp only [restore, wp_bind, wp_get, wp_reading, wp_modify]
  constructor
  · intro h
    by_cases hopen : s.closed = true
    · exact .inl hopen
    replace hopen : s.closed = false := by simpa using hopen
    refine .inr fun locksOpen held hlocks hheld hfits hrange => ?_
    have hsaved : chain.savedLocks K d = .ok (locksOpen, held) :=
      (savedLocks_eq_ok K).mpr ⟨⟨hlocks, hheld⟩, hfits, hrange⟩
    obtain ⟨-, hkept⟩ := (h.1 () (ensureOpen_eq_ok.mpr hopen)).1 _ hsaved
    cases hjammed : d.bool K "rack_jammed" with
    | ok b => exact .inl ⟨b, bool_eq_ok.mp hjammed⟩
    | error e =>
      obtain ⟨hsame, hsame'⟩ := (observe_eq_iff hopen).mp (hkept e hjammed)
      exact .inr ⟨by omega, hsame'⟩
  · intro h
    refine ⟨fun _ hopen => ⟨fun locks hlocks => ?_, fun _ _ => trivial⟩, fun _ _ => trivial⟩
    replace hopen := ensureOpen_eq_ok.mp hopen
    obtain ⟨⟨hlocks, hheld⟩, hfits, hrange⟩ := (savedLocks_eq_ok K).mp hlocks
    have hopened : locks.1.toNat ≤ chain.depth := by omega
    refine ⟨fun b _ => ⟨hopened, hrange⟩, fun e hjammed => ?_⟩
    have hwhole := h.resolve_left (by simp [hopen]) locks.1 locks.2 hlocks hheld hfits hrange
    obtain ⟨hsame, hsame'⟩ := hwhole.resolve_left <| by
      rintro ⟨b, hb⟩
      rw [bool_eq_ok.mpr hb] at hjammed
      cases hjammed
    exact (observe_eq_iff hopen).mpr ⟨by omega, hsame'⟩

theorem saved_locks (hs : chain.InBounds s) :
    chain.savedLocks K (saved K s) = .ok ((s.locksOpen : ℤ), s.held) := by
  have hopened : (s.locksOpen : ℤ) ≤ chain.depth := Int.ofNat_le.mpr hs.opened
  exact (savedLocks_eq_ok K).mpr ⟨⟨⟨_, rfl, K.int_ofInt _⟩, ⟨_, rfl, K.int_ofInt _⟩⟩,
    ⟨Int.natCast_nonneg _, hopened⟩, hs.held⟩

theorem saved_rackJammed : (saved K s).bool K "rack_jammed" = .ok s.rackJammed :=
  bool_eq_ok.mpr ⟨_, rfl, K.bool_ofBool _⟩

theorem bringsBack (hs : chain.InBounds s) (s' : LockState) :
    (chain.restorable K parse).BringsBack s s' := by
  intro d hd
  obtain ⟨_, hopen, h⟩ := bind_eq_ok.mp hd
  replace hopen := ensureOpen_eq_ok.mp hopen
  obtain rfl : saved K s = d := Except.ok.inj h
  change wp (chain.restore K _) (fun _ t => chain.observe t = chain.observe s)
    (fun e _ => chain.observe s' = .error e) False s'
  simp only [restore, wp_bind, wp_get, wp_modify, saved_locks K hs, saved_rackJammed, reading_ok,
    wp_pure]
  refine wp_reading.mpr ⟨fun _ hopen' => ?_, fun e he => by simp [observe, he, bind, Except.bind]⟩
  have hagain : chain.observe { s with closed := s'.closed } = .ok (chain.state s) :=
    observe_eq (ensureOpen_eq_ok.mp hopen')
  exact hagain.trans (observe_eq hopen).symm

/-- Only a key of the chain is picked. -/
theorem pickKey_held {payload : Payload} {b : Branch}
    (h : chain.pickKey parse s payload = .ok b) (hs : chain.KeyInRange s.held) :
    chain.KeyInRange b.1.held := by
  unfold pickKey at h
  split at h
  · cases h
  obtain ⟨key, -, h⟩ := bind_eq_ok.mp h
  split at h
  · cases h
  · next hrange =>
    split at h
    · cases h
      exact hs
    split at h <;> cases h
    · exact hs
    · exact .inr (not_not.mp hrange)

theorem branch_held {c : LockCall} {b : Branch} (h : chain.branch parse s c = .ok b)
    (hs : chain.KeyInRange s.held) : chain.KeyInRange b.1.held := by
  have hnone : chain.KeyInRange NO_KEY := .inl rfl
  unfold branch at h
  split at h
  · exact pickKey_held h hs
  split at h
  · cases h
    unfold dropKey
    split <;> assumption
  split at h
  · cases h
    unfold openLock
    split_ifs <;> assumption
  split at h
  · cases h
    unfold forceLatch
    split_ifs <;> assumption
  split at h <;> cases h
  exact hs

theorem opened_of_moves {s' : LockState} {binding : String} (hs : s.locksOpen ≤ chain.depth)
    (hmoves : Moves chain s binding s') : s'.locksOpen ≤ chain.depth := by
  cases hmoves with
  | stays | picks | drops => exact hs
  | opens hopen | forces _ hopen => exact hopen

theorem call_inBounds (hs : chain.InBounds s) (c : LockCall) :
    chain.InBounds (chain.call parse s c) := by
  refine ⟨opened_of_moves hs.opened (call_moves c), ?_⟩
  by_cases hopen : s.closed = true
  · simpa only [call, actuate, hopen, if_true] using hs.held
  replace hopen : s.closed = false := by simpa using hopen
  cases h : chain.branch parse s c with
  | error e => simpa [call, actuate, hopen, h, Except.map] using hs.held
  | ok b =>
    rw [call_eq hopen h]
    exact branch_held h hs.held

theorem lawful : (chain.restorable K parse).Lawful where
  initial := ⟨chain.depth.zero_le, .inl rfl⟩
  call := call_inBounds
  restore := restore_inBounds K
  teardown hs := ⟨hs.opened, hs.held⟩
  clean_iff _ := clean_iff K
  bringsBack := bringsBack K

end LockChain

/-! ## All three -/

/-- In every state that calls, restores and a teardown reach, of each of the three environments : a
refused restore changes nothing exactly when the checkpoint is whole, and a checkpoint brings back
what was observed when it was taken. -/
theorem gyms_restore (K : PyValues V) (parse : String → Option ℤ) :
    (∀ board : Switchboard, (board.restorable K).Restores) ∧
      (∀ flow : ResourceFlow, (flow.restorable K).Restores) ∧
      ∀ chain : LockChain, (chain.restorable K parse).Restores :=
  ⟨fun _ => (Switchboard.lawful K).restores, fun _ => (ResourceFlow.lawful K).restores,
    fun _ => (LockChain.lawful K).restores⟩

/-- The values that `json` carries. -/
def Value.pyValues (parse : String → Option ℤ) (repr : Value → String) : PyValues Value where
  int := pyInt parse
  bool v := .ok (ExecutionLoop.truthy v)
  list?
    | .list items => some items
    | _ => none
  repr := repr
  none := .null
  ofInt := .int
  ofBool := .bool
  ofList := .list
  int_ofInt _ := rfl
  bool_ofBool _ := rfl
  list?_ofList _ := rfl
  list?_none := rfl

/-- Pools of three. -/
def threePools : ResourceFlow where
  capacity := 3
  target := 2
  mineRate := 1
  catalystBonus := 1
  target_pos := by decide
  target_le := by decide
  mineRate_pos := by decide
  catalystBonus_pos := by decide

/-- A checkpoint without `catalyst` is refused, and the levels are those of the checkpoint. -/
theorem flow_restore_not_clean :
    let K := Value.pyValues String.toInt? fun v => (repr v).pretty
    let env := threePools.restorable K
    let d : PyDict Value := [("raw", .int 1), ("refined", .int 0), ("output", .int 0)]
    threePools.restore K d {} = some (.error ⟨"KeyError", "'catalyst'"⟩, { raw := 1 }) ∧
      ¬env.Clean d (env.after []) := by
  refine ⟨rfl, fun h => ?_⟩
  have hwhole := (ResourceFlow.clean_iff _ _).mp h
  have hfits : threePools.Fits 0 := ⟨by decide, by decide⟩
  rcases hwhole.resolve_left nofun 1 0 0 ⟨_, rfl, rfl⟩ ⟨_, rfl, rfl⟩ ⟨_, rfl, rfl⟩
    ⟨by decide, by decide⟩ hfits hfits with ⟨b, value, hvalue, -⟩ | ⟨hraw, -⟩
  · cases hvalue
  · cases hraw

end GymAct
