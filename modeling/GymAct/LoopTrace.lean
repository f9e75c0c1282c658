import GymAct.ExecutionLoop

/-!
# What the execution loop leaves behind

Between its commitments the loop only looks around and announces : it asks for facts, and adds
events that are no actuations (`Calm`). The lemmas say so of each part of a run that claims,
executes, records and verifies nothing.
-/

namespace GymAct.ExecutionLoop

open Fallible

/-- A call that asks for a fact about the loop's surroundings. -/
def Call.isAmbient : Call → Bool
  | .isValid _ | .now _ | .availability .. | .capabilities .. | .authorityCeiling .. => true
  | .claim .. | .execute .. | .fetchReceipt .. | .currentSubjectSha .. | .verify .. => false

def Call.isClaim : Call → Bool
  | .claim .. => true
  | _ => false

def Call.isExecute : Call → Bool
  | .execute .. => true
  | _ => false

/-- The objects of an event. -/
def eventObjects (request : ExecutionRequest) (provider : String) : List (String × String) :=
  [("subject", request.subject.repo ++ "@" ++ short request.subject.sha),
    ("originAuthority", request.authority.grant ++ ":" ++ request.authority.actor),
    ("provider", provider), ("worker", request.workOrder)]

/-- The event is about a request. -/
def OcelEvent.Emitted (e : OcelEvent) : Prop :=
  ∃ request provider, e.objects = eventObjects request provider

/-- Calls of a kind, and events that are no actuations, are added to a state. -/
structure Grows {W : Type} (p : Call → Bool) (s s' : LoopState W) : Prop where
  calls : ∃ cs, s'.calls = s.calls ++ cs ∧ ∀ c ∈ cs, p c = true
  events : ∃ es, s'.events = s.events ++ es ∧ ∀ e ∈ es, e.Emitted ∧ e.eventType ≠ "actuation"
  actuations : s'.actuations = s.actuations
  completed : s'.completed = s.completed
  unreconciled : s'.unreconciled = s.unreconciled

/-- What looking around and announcing does to a state. -/
abbrev Calm {W : Type} (s s' : LoopState W) : Prop := Grows Call.isAmbient s s'

section Calmly

variable {W α β : Type} {p q : Call → Bool}

theorem Grows.refl (s : LoopState W) : Grows p s s :=
  ⟨⟨[], by simp⟩, ⟨[], by simp⟩, rfl, rfl, rfl⟩

theorem Grows.trans {s s' s'' : LoopState W} (h : Grows p s s') (h' : Grows p s' s'') :
    Grows p s s'' := by
  obtain ⟨⟨cs, hcs, hp⟩, ⟨es, hes, hemitted⟩, hactuations, hcompleted, hunreconciled⟩ := h
  obtain ⟨⟨cs', hcs', hp'⟩, ⟨es', hes', hemitted'⟩, hactuations', hcompleted', hunreconciled'⟩ := h'
  refine ⟨⟨cs ++ cs', by rw [hcs', hcs, List.append_assoc], ?_⟩,
    ⟨es ++ es', by rw [hes', hes, List.append_assoc], ?_⟩, hactuations'.trans hactuations,
    hcompleted'.trans hcompleted, hunreconciled'.trans hunreconciled⟩
  · exact fun c hc => (List.mem_append.mp hc).elim (hp c) (hp' c)
  · exact fun e he => (List.mem_append.mp he).elim (hemitted e) (hemitted' e)

theorem Grows.mono {s s' : LoopState W} (h : Grows p s s') (hpq : ∀ c, p c = true → q c = true) :
    Grows q s s' := by
  obtain ⟨cs, hcs, hp⟩ := h.calls
  exact ⟨⟨cs, hcs, fun c hc => hpq c (hp c hc)⟩, h.events, h.actuations, h.completed,
    h.unreconciled⟩

/-- A program that makes calls of a kind and announces, and its value. -/
abbrev Growing (p : Call → Bool) (P : α → Prop) (w : LoopM W α) : Prop := Keeps (Grows p) P w

/-- A program that looks around and announces, and its value. -/
abbrev Calmly (P : α → Prop) (w : LoopM W α) : Prop := Growing Call.isAmbient P w

/-- A program that looks around and announces. -/
abbrev Watches (w : LoopM W α) : Prop := Calmly (fun _ => True) w

variable {P : α → Prop}

theorem Growing.pure {a : α} (ha : P a) : Growing p P (Pure.pure a : LoopM W α) :=
  Keeps.pure Grows.refl ha

theorem Growing.throw (e : Raised) : Growing p P (MonadExcept.throw e : LoopM W α) :=
  Keeps.throw Grows.refl e

theorem Growing.bind {Q : β → Prop} {w : LoopM W β} {f : β → LoopM W α} (hw : Growing p Q w)
    (hf : ∀ b, Q b → Growing p P (f b)) : Growing p P (w >>= f) :=
  Keeps.bind (fun _ _ _ h h' => h.trans h') hw hf

theorem Calmly.pure {a : α} (ha : P a) : Calmly P (Pure.pure a : LoopM W α) := Growing.pure ha

theorem Calmly.throw (e : Raised) : Calmly P (MonadExcept.throw e : LoopM W α) := Growing.throw e

theorem Calmly.bind {Q : β → Prop} {w : LoopM W β} {f : β → LoopM W α} (hw : Calmly Q w)
    (hf : ∀ b, Q b → Calmly P (f b)) : Calmly P (w >>= f) := Growing.bind hw hf

theorem Watches.then {w : LoopM W β} {f : β → LoopM W α} (hw : Watches w)
    (hf : ∀ b, Calmly P (f b)) : Calmly P (w >>= f) := Calmly.bind hw fun b _ => hf b

theorem calm_pure {a : α} : Watches (Pure.pure a : LoopM W α) := Calmly.pure trivial

theorem Watches.map {f : β → α} {w : LoopM W β} (hw : Watches w) (hf : ∀ b, P (f b)) :
    Calmly P (f <$> w) := Keeps.map (hw.mono fun b _ => hf b)

theorem calm_get : Watches (get : LoopM W (LoopState W)) := fun s => ⟨trivial, Grows.refl s⟩

theorem calm_modify {f : LoopState W → LoopState W} (hf : ∀ s, Calm s (f s)) :
    Watches (modify f : LoopM W Unit) := by
  intro s
  rw [wp_modify]
  exact ⟨trivial, hf s⟩

theorem growing_ask {reply : Reply W α} {heard : Except Raised α → List Call}
    (h : ∀ answer, ∀ call ∈ heard answer, p call = true) :
    Growing p (fun _ => True) (ask reply heard) := by
  intro s
  simp only [ask, wp_bind, wp_get, wp_set]
  generalize (reply s.world).1 = answer
  have hgrows : Grows p s { s with world := (reply s.world).2, calls := s.calls ++ heard answer } :=
    ⟨⟨heard answer, rfl, h answer⟩, ⟨[], by simp⟩, rfl, rfl, rfl⟩
  cases answer with
  | ok a => exact ⟨trivial, hgrows⟩
  | error e => exact hgrows

theorem growing_askOk {reply : Reply W α} {heard : α → Call} (h : ∀ a, p (heard a) = true) :
    Growing p (fun _ => True) (askOk reply heard) := by
  refine growing_ask fun answer call hcall => ?_
  cases answer with
  | ok a => exact List.mem_singleton.mp hcall ▸ h a
  | error e => exact absurd hcall List.not_mem_nil

theorem calm_askQuietly {reply : Reply W α} : Watches (askQuietly reply) := growing_ask nofun

theorem calm_askOk {reply : Reply W α} {heard : α → Call} (h : ∀ a, (heard a).isAmbient = true) :
    Watches (askOk reply heard) := growing_askOk h

theorem calm_raising {x : Except PyError α} : Watches (raising x : LoopM W α) := by
  cases x with
  | ok a => exact Calmly.pure trivial
  | error e => exact Calmly.throw _

end Calmly

section Helpers

variable {W : Type} {C : Canon} {T : PyText} {L : AutonomousLoop W} {request : ExecutionRequest}
  {v : LoopVars L.providers.length} {i : L.Index}

theorem calm_readNow : Watches L.readNow := calm_askOk fun _ => rfl

theorem calm_transport : Watches (L.transport i) := calm_askQuietly

theorem calm_subjectRef {repo sha : String} : Watches (subjectRef repo sha : LoopM W SubjectRef) := by
  unfold subjectRef
  split
  · exact calm_pure
  · exact Calmly.throw _

/-- The provider that an event names. -/
theorem calm_eventProvider {provider : String} :
    Watches (if provider = "" then L.transport L.first else pure provider) := by
  split
  · exact calm_transport
  · exact calm_pure

theorem calm_emit {eventType : String} {fields : EventFields} (h : eventType ≠ "actuation") :
    Watches (L.emit request eventType fields) := by
  refine Watches.then calm_readNow fun tick => Watches.then calm_eventProvider fun provider => ?_
  refine calm_modify fun s => ⟨⟨[], by simp⟩, ⟨_, rfl, fun e he => ?_⟩, rfl, rfl, rfl⟩
  obtain rfl := List.mem_singleton.mp he
  exact ⟨⟨request, provider, rfl⟩, h⟩

theorem calm_report {outcome : LegalOutcome} {standing : Standing}
    {episodeStanding : EpisodeStanding} {receipt : Option ExecutionReceipt}
    {typedReason : Option String} {brokenTerm : Option BrokenTerm} :
    Watches (AutonomousLoop.report outcome standing episodeStanding receipt typedReason brokenTerm :
      LoopM W LoopResult) :=
  Watches.then calm_get fun _ => calm_pure

theorem calm_refuse {reason : String} {episodeStanding : EpisodeStanding} {broken : BrokenTerm}
    {extra : Payload} : Watches (L.refuse request reason episodeStanding broken extra) :=
  Watches.then (calm_emit (by decide)) fun _ => calm_report

theorem calm_typedBlock {reason : String} {broken : BrokenTerm} {extra : Payload} :
    Watches (L.typedBlock request reason broken extra) :=
  Watches.then (calm_emit (by decide)) fun _ => calm_report

/-! ### Gates -/

theorem calm_expiryGate : Watches (L.expiryGate request) := by
  unfold AutonomousLoop.expiryGate
  split
  · exact calm_pure
  · refine Watches.then calm_readNow fun now => ?_
    split
    · exact Watches.map calm_refuse fun _ => trivial
    · exact calm_pure

theorem calm_authorityGate : Watches (L.authorityGate request) := by
  refine (calm_askOk fun _ => rfl).then fun valid => ?_
  split
  · exact calm_expiryGate
  · exact Watches.map calm_refuse fun _ => trivial

theorem calm_feasible : ∀ {providers : List L.Index}, Watches (L.feasible T request providers)
  | [] => calm_pure
  | i :: providers => by
    refine (calm_askOk fun _ => rfl).then fun names => ?_
    refine (calm_askOk fun _ => rfl).then fun ceiling => ?_
    split
    · exact calm_pure
    · exact calm_feasible

theorem calm_feasibilityGate : Watches (L.feasibilityGate T request) := by
  refine Watches.then calm_feasible fun feasible => ?_
  split
  · exact calm_pure
  · exact Watches.map calm_refuse fun _ => trivial

theorem calm_resourceGate : Watches (L.resourceGate T request) := by
  refine Watches.then calm_askQuietly fun disk => Watches.then calm_askQuietly fun cpu => ?_
  split
  · exact Watches.map calm_typedBlock fun _ => trivial
  · split
    · exact Watches.map calm_typedBlock fun _ => trivial
    · exact calm_pure

theorem calm_unreconciledGate : Watches (L.unreconciledGate C request) := by
  refine Watches.then calm_get fun s => ?_
  split
  · exact calm_pure
  · refine Watches.then calm_raising fun digest => ?_
    split
    · exact Watches.then calm_refuse fun _ => calm_pure
    · exact Watches.then calm_typedBlock fun _ => calm_pure

theorem calm_dedupeGate : Watches (L.dedupeGate C request) := by
  refine Watches.then calm_get fun s => ?_
  split
  · exact calm_unreconciledGate
  · refine Watches.then calm_raising fun digest => ?_
    split
    · exact Watches.map calm_refuse fun _ => trivial
    · exact Watches.then (calm_emit (by decide)) fun _ => Watches.map calm_report fun _ => trivial

theorem calm_firstBlocked : ∀ {gates : List (LoopM W (Option LoopResult))},
    (∀ gate ∈ gates, Watches gate) → Watches (AutonomousLoop.firstBlocked gates)
  | [], _ => calm_pure
  | gate :: gates, h => by
    refine (h gate List.mem_cons_self).then fun blocked => ?_
    split
    · exact calm_pure
    · exact calm_firstBlocked fun gate' hgate => h gate' (List.mem_cons_of_mem _ hgate)

theorem calm_gates : Watches (L.gates C T request) := by
  refine calm_firstBlocked ?_
  simp only [List.forall_mem_cons, List.not_mem_nil, false_implies, implies_true, and_true]
  exact ⟨calm_authorityGate, calm_feasibilityGate, calm_resourceGate, calm_dedupeGate⟩

/-! ### Choosing a provider -/

theorem calm_firstCapable : ∀ {providers : List L.Index},
    Watches (L.firstCapable T request providers)
  | [] => calm_pure
  | i :: providers => by
    refine (calm_askOk fun _ => rfl).then fun available => ?_
    split
    · refine (calm_askOk fun _ => rfl).then fun names => ?_
      split
      · refine (calm_askOk fun _ => rfl).then fun ceiling => ?_
        split
        · exact calm_pure
        · exact calm_firstCapable
      · exact calm_firstCapable
    · exact calm_firstCapable

theorem calm_nextCapableIndex {start : ℤ} : Watches (L.nextCapableIndex T request start) :=
  calm_firstCapable

theorem calm_resolveFresh : Watches (L.resolveFresh request) := by
  refine Calmly.bind (Keeps.attempt calm_askQuietly) fun fresh _ => ?_
  split
  · split
    · exact Watches.then (calm_emit (by decide)) fun _ => calm_pure
    · exact calm_pure
  · exact Watches.then (calm_emit (by decide)) fun _ => Watches.map calm_typedBlock fun _ => trivial
  · exact Calmly.throw _

/-! ### Announcements and receipts -/

theorem calm_emitVerification {verified : Bool} {reason : String} :
    Watches (L.emitVerification request i verified reason) :=
  Watches.then calm_transport fun _ => calm_emit (by decide)

theorem calm_buildReceipt {pin : ClaimPin} {subjectBefore : SubjectRef} {effect : Payload}
    {outcome : LegalOutcome} {observedAfterSha : String} :
    Watches (L.buildReceipt C request i pin subjectBefore effect outcome observedAfterSha) := by
  refine Watches.then calm_subjectRef fun subjectAfter => Watches.then calm_get fun s => ?_
  refine Watches.then calm_raising fun ocelDigest => Watches.then calm_transport fun transport => ?_
  refine Watches.then calm_askQuietly fun capabilities => ?_
  refine Watches.then calm_askQuietly fun ceiling => ?_
  refine Watches.then calm_askQuietly fun protocol => Watches.then calm_readNow fun tick => ?_
  refine Watches.then calm_readNow fun now => Watches.then calm_askQuietly fun durableProtocol => ?_
  exact Watches.then calm_transport fun durableTransport => calm_pure

theorem calm_onTransportFault {fault : TransportFault} {attempts : ℕ} {provider : String} :
    Watches (L.onTransportFault request fault attempts provider) := by
  unfold AutonomousLoop.onTransportFault
  split
  · exact Watches.then calm_askQuietly fun _ => calm_emit (by decide)
  · exact calm_emit (by decide)

theorem calm_exhausted : Watches (L.exhausted request v) := by
  unfold AutonomousLoop.exhausted
  split
  · exact calm_pure
  · exact Watches.then calm_readNow fun _ => calm_pure

end Helpers

end GymAct.ExecutionLoop
