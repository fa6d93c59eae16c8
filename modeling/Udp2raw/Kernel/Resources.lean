import Udp2raw.Core.History

/-!
# Routes and rules of relay addresses

For each relay address it may use, the client keeps a host route and a DROP rule in
the kernel. `EndpointResources` remembers for each of the two whether it is there, and
an address that is no longer wanted is released until both are known to be gone. The
commands that touch the kernel are closures in the source and only their answers count,
so a method takes what each closure would answer and says what it did with them.
-/

namespace Udp2raw

/-- `ManagedState`. -/
inductive ManagedState where
  | notNeeded
  | missing
  | present
  /-- A deletion was due or tried: the object may be there or not. -/
  | removing
  deriving DecidableEq, Repr

/-- `ReconcileResult`. -/
inductive ReconcileResult where
  | present
  | absent
  | unknown
  deriving DecidableEq, Repr

/-- What happens to one of the two objects: a closure is called and answers, or the client changes
its mind about the address. -/
inductive ResourceEvent where
  | marked
  | added (ok : Bool)
  | reconciled (result : ReconcileResult)
  | deleted (ok : Bool)
  | released
  | retained
  deriving DecidableEq, Repr

/-- What a reconciliation makes of an uncertain object. -/
def ReconcileResult.state : ReconcileResult → ManagedState
  | .present => .present
  | .absent => .missing
  | .unknown => .removing

/-- What is done with an object in some state: the new state and what happened. -/
abbrev ResourceAction : Type := ManagedState → ManagedState × List ResourceEvent

namespace ResourceAction

/-- An object in the state `trigger` has something happen to it, another one has not. -/
def act (trigger next : ManagedState) (e : ResourceEvent) : ResourceAction :=
  fun state => if state = trigger then (next, [e]) else (state, [])

/-- The part of `attempt_adds` for one of the two objects. -/
def add (ok : Bool) : ResourceAction :=
  act .missing (if ok then .present else .missing) (.added ok)

/-- The part of `attempt_reconcile_for_retain` for one of the two objects. -/
def reconcile (result : ReconcileResult) : ResourceAction :=
  act .removing result.state (.reconciled result)

/-- The part of `attempt_cleanup` for one of the two objects. -/
def delete (ok : Bool) : ResourceAction :=
  act .removing (if ok then .missing else .removing) (.deleted ok)

/-- The part of `begin_release` for one of the two objects. -/
def release : ResourceAction :=
  fun state => (if state = .present then .removing else state, [.released])

/-- `cancel_release` leaves the objects as they are. -/
def retain : ResourceAction := fun state => (state, [.retained])

/-- Nothing is done. -/
def none : ResourceAction := fun state => (state, [])

/-- What `mark_initial_rule_present` does to the rule. -/
def mark : ResourceAction :=
  fun state => if state ≠ .notNeeded then (.present, [.marked]) else (state, [])

end ResourceAction

namespace ManagedState

/-- `Missing | NotNeeded`. -/
def gone (state : ManagedState) : Bool := state == .missing || state == .notNeeded

/-- `Present | NotNeeded`. -/
def usable (state : ManagedState) : Bool := state == .present || state == .notNeeded

/-- The state of an object before anything was done about it. -/
def initial (needed : Bool) : ManagedState := if needed then .missing else .notNeeded

end ManagedState

/-- `EndpointResources`. -/
structure EndpointResources where
  route : ManagedState
  rule : ManagedState
  releasing : Bool
  deriving DecidableEq, Repr

/-- The resources, and what happened to the route and to the rule so far. -/
structure TrackedResources extends EndpointResources where
  routeLog : List ResourceEvent := []
  ruleLog : List ResourceEvent := []

/-- `EndpointResources::new`. -/
def TrackedResources.new (routeNeeded ruleNeeded : Bool) : TrackedResources :=
  { route := .initial routeNeeded, rule := .initial ruleNeeded, releasing := false }

/-- Do something with the route and something with the rule. -/
def TrackedResources.both (r : TrackedResources) (releasing : Bool) (route rule : ResourceAction) :
    TrackedResources :=
  { route := (route r.route).1
    rule := (rule r.rule).1
    releasing
    routeLog := r.routeLog ++ (route r.route).2
    ruleLog := r.ruleLog ++ (rule r.rule).2 }

namespace EndpointResources

variable (r : EndpointResources)

/-- `cleanup_complete`. -/
def cleanupComplete : Bool := r.releasing && r.route.gone && r.rule.gone

/-- `ready`. -/
def ready : Bool := !r.releasing && r.route.usable && r.rule.usable

end EndpointResources

/-- The methods of `EndpointResources`, with what their closures would answer. -/
inductive ResourceCall where
  | markInitialRulePresent
  | attemptAdds (addRoute addRule : Bool)
  | beginRelease
  | cancelRelease
  | attemptReconcileForRetain (reconcileRoute reconcileRule : ReconcileResult)
  | attemptCleanup (deleteRoute deleteRule : Bool)

/-- What a method does. -/
def ResourceCall.apply (r : TrackedResources) : ResourceCall → TrackedResources
  | .markInitialRulePresent => r.both r.releasing .none .mark
  | .attemptAdds route rule =>
    if r.releasing then r else r.both r.releasing (.add route) (.add rule)
  | .beginRelease => r.both true .release .release
  | .cancelRelease => r.both false .retain .retain
  | .attemptReconcileForRetain route rule =>
    if r.releasing then r else r.both r.releasing (.reconcile route) (.reconcile rule)
  | .attemptCleanup route rule =>
    if !r.releasing then r else r.both r.releasing (.delete route) (.delete rule)

namespace ResourceEvent

/-- What the last event that tells anything told. -/
def last (tells : ResourceEvent → Option Bool) (log : List ResourceEvent) : Bool :=
  (log.filterMap tells).getLast?.getD false

/-- The answer of a closure that settles whether the object is there. A failed command and an
unknown state settle nothing. -/
def presence : ResourceEvent → Option Bool
  | .marked | .added true | .reconciled .present => some true
  | .deleted true | .reconciled .absent => some false
  | _ => none

/-- Whether the client wants to be rid of the object. -/
def release : ResourceEvent → Option Bool
  | .released => some true
  | .retained => some false
  | _ => none

/-- As `presence`, but a release makes the answer doubtful. -/
def confirmation : ResourceEvent → Option Bool
  | .released => some false
  | e => e.presence

/-- The object may be in the kernel: nothing answered since that it is gone. -/
abbrev mayExist (log : List ResourceEvent) : Bool := last presence log

/-- The client is releasing the object. -/
abbrev isReleasing (log : List ResourceEvent) : Bool := last release log

/-- The object was answered to be there and no release was begun since. -/
abbrev isConfirmed (log : List ResourceEvent) : Bool := last confirmation log

/-- When an event may happen: an object is added only where nothing can be there, deleted
only where something may be and is unwanted, and looked for only in doubt. -/
def Due (needed : Bool) (before : List ResourceEvent) : ResourceEvent → Prop
  | .marked => needed
  | .added _ => needed ∧ ¬ mayExist before ∧ ¬ isReleasing before
  | .reconciled _ => needed ∧ mayExist before ∧ ¬ isConfirmed before ∧ ¬ isReleasing before
  | .deleted _ => needed ∧ mayExist before ∧ isReleasing before
  | .released | .retained => True

@[simp] theorem last_nil (tells : ResourceEvent → Option Bool) : last tells [] = false := rfl

@[simp] theorem last_snoc (tells : ResourceEvent → Option Bool) (log : List ResourceEvent)
    (e : ResourceEvent) : last tells (log ++ [e]) = (tells e).getD (last tells log) := by
  cases h : tells e <;> simp [last, h]

/-- The state that follows from what happened to an object. -/
def told (needed : Bool) (log : List ResourceEvent) : ManagedState :=
  if !needed then .notNeeded
  else if !mayExist log then .missing
  else if isConfirmed log then .present
  else .removing

/-- All that is remembered of an object follows from what happened to it, and that was due. -/
structure Sound (needed : Bool) (state : ManagedState) (releasing : Bool)
    (log : List ResourceEvent) : Prop where
  state : state = told needed log
  releasing : releasing = isReleasing log
  certain : isConfirmed log = true → mayExist log = true
  needless : needed = false → mayExist log = false
  due : History.Each (Due needed) log

variable {needed releasing releasing' : Bool} {state trigger next : ManagedState}
  {log : List ResourceEvent} {e : ResourceEvent}

theorem told_eq_missing :
    told needed log = .missing ↔ needed = true ∧ mayExist log = false := by
  unfold told
  split_ifs <;> simp_all

theorem told_eq_removing :
    told needed log = .removing ↔
      needed = true ∧ mayExist log = true ∧ isConfirmed log = false := by
  unfold told
  split_ifs <;> simp_all

/-- An event that was due and after which the state follows. -/
theorem Sound.snoc (h : Sound needed state releasing log) (due : Due needed log e)
    (follows : next = told needed (log ++ [e]) ∧ releasing' = isReleasing (log ++ [e]) ∧
      (isConfirmed (log ++ [e]) = true → mayExist (log ++ [e]) = true) ∧
      (needed = false → mayExist (log ++ [e]) = false)) :
    Sound needed next releasing' (log ++ [e]) :=
  ⟨follows.1, follows.2.1, follows.2.2.1, follows.2.2.2,
    h.due.append ⟨by simpa using due, trivial⟩⟩

/-- An action keeps the objects sound while the client changes from one wish to the other. -/
def Keeps (releasing releasing' : Bool) (action : ResourceAction) : Prop :=
  ∀ needed state log, Sound needed state releasing log →
    Sound needed (action state).1 releasing' (log ++ (action state).2)

/-- An action on one state has to be checked in that state only. -/
theorem keeps_act (hit : ∀ needed log, Sound needed trigger releasing log →
    Sound needed next releasing (log ++ [e])) :
    Keeps releasing releasing (.act trigger next e) := by
  intro needed state log h
  unfold ResourceAction.act
  split_ifs with ht
  · exact hit needed log (ht ▸ h)
  · simpa using h

theorem keeps_add (ok : Bool) : Keeps false false (.add ok) := by
  refine keeps_act fun needed log h => ?_
  obtain ⟨hn, hm⟩ := told_eq_missing.mp h.state.symm
  have hr := h.releasing
  have hc := h.certain
  refine h.snoc ⟨hn, by simp [hm], by simp [← hr]⟩ ?_
  cases ok <;> simp_all [told, presence, confirmation, release]

theorem keeps_reconcile (result : ReconcileResult) : Keeps false false (.reconcile result) := by
  refine keeps_act fun needed log h => ?_
  obtain ⟨hn, hm, hu⟩ := told_eq_removing.mp h.state.symm
  have hr := h.releasing
  refine h.snoc ⟨hn, hm, by simp [hu], by simp [← hr]⟩ ?_
  cases result <;> simp_all [told, presence, confirmation, release, ReconcileResult.state]

theorem keeps_delete (ok : Bool) : Keeps true true (.delete ok) := by
  refine keeps_act fun needed log h => ?_
  obtain ⟨hn, hm, hu⟩ := told_eq_removing.mp h.state.symm
  have hr := h.releasing
  refine h.snoc ⟨hn, hm, by simp [← hr]⟩ ?_
  cases ok <;> simp_all [told, presence, confirmation, release]

/-- After a release the state is what the answers tell. -/
theorem keeps_release : Keeps releasing true .release := by
  intro needed state log h
  have hn := h.needless
  obtain rfl := h.state
  refine h.snoc trivial
    ⟨?_, by simp [release], by simp [confirmation], by simpa [presence] using hn⟩
  simp only [ResourceAction.release, told, last_snoc, presence, confirmation, Option.getD_none,
    Option.getD_some]
  split_ifs <;> simp_all

theorem keeps_retain : Keeps releasing false .retain := by
  intro needed state log h
  refine h.snoc trivial ⟨?_, by simp [release], ?_, ?_⟩
  · simpa [ResourceAction.retain, told, presence, confirmation] using h.state
  · simpa [presence, confirmation] using h.certain
  · simpa [presence] using h.needless

theorem keeps_none : Keeps releasing releasing .none := by
  intro needed state log h
  simpa [ResourceAction.none] using h

theorem keeps_mark : Keeps releasing releasing .mark := by
  intro needed state log h
  have hs := h.state
  have hr := h.releasing
  unfold ResourceAction.mark
  split_ifs with hm
  · have hn : needed = true := by
      cases needed <;> simp_all [told]
    exact h.snoc hn (by simp [told, *, presence, confirmation, release])
  · simpa using h

/-- A resource is usable if it is confirmed or not needed. -/
theorem usable_told (certain : isConfirmed log = true → mayExist log = true) :
    (told needed log).usable = true ↔ (needed = true → isConfirmed log = true) := by
  unfold told
  split_ifs <;> simp_all [ManagedState.usable]

/-- A resource is gone if it cannot exist. -/
theorem gone_told (needless : needed = false → mayExist log = false) :
    (told needed log).gone = true ↔ mayExist log = false := by
  unfold told
  split_ifs <;> simp_all [ManagedState.gone]

end ResourceEvent

open ResourceEvent

variable {routeNeeded ruleNeeded releasing : Bool} {r : TrackedResources}

/-- Both objects are sound. -/
structure TrackedResources.Sound (routeNeeded ruleNeeded : Bool) (r : TrackedResources) : Prop where
  route : ResourceEvent.Sound routeNeeded r.route r.releasing r.routeLog
  rule : ResourceEvent.Sound ruleNeeded r.rule r.releasing r.ruleLog

theorem TrackedResources.Sound.both {route rule : ResourceAction}
    (h : r.Sound routeNeeded ruleNeeded) (hroute : Keeps r.releasing releasing route)
    (hrule : Keeps r.releasing releasing rule) :
    (r.both releasing route rule).Sound routeNeeded ruleNeeded :=
  ⟨hroute _ _ _ h.route, hrule _ _ _ h.rule⟩

/-- Every call keeps both objects sound. -/
theorem ResourceCall.sound_apply (h : r.Sound routeNeeded ruleNeeded) (call : ResourceCall) :
    (call.apply r).Sound routeNeeded ruleNeeded := by
  cases call with
  | markInitialRulePresent => exact h.both keeps_none keeps_mark
  | beginRelease => exact h.both keeps_release keeps_release
  | cancelRelease => exact h.both keeps_retain keeps_retain
  | attemptAdds route rule =>
    cases hr : r.releasing <;> simp only [apply, hr]
    · exact h.both (hr ▸ keeps_add route) (hr ▸ keeps_add rule)
    · exact h
  | attemptReconcileForRetain route rule =>
    cases hr : r.releasing <;> simp only [apply, hr]
    · exact h.both (hr ▸ keeps_reconcile route) (hr ▸ keeps_reconcile rule)
    · exact h
  | attemptCleanup route rule =>
    cases hr : r.releasing <;> simp only [apply, hr]
    · exact h
    · exact h.both (hr ▸ keeps_delete route) (hr ▸ keeps_delete rule)

/-- A deletion that fails leaves the cleanup incomplete until it is repeated. -/
example : ([.attemptAdds true true, .beginRelease, .attemptCleanup true false].foldl
      ResourceCall.apply (.new true true)).cleanupComplete = false ∧
    ([.attemptAdds true true, .beginRelease, .attemptCleanup true false,
        .attemptCleanup true true].foldl
      ResourceCall.apply (.new true true)).cleanupComplete = true := by decide

end Udp2raw
