import Mathlib.Algebra.GroupWithZero.Nat
import Mathlib.Data.List.Chain
import Mathlib.Data.List.Nodup
import Mathlib.Data.List.Perm.Subperm
import Mathlib.Logic.Relation
import LiveQuery.Proofs.Schedule.Isolation
import LiveQuery.Proofs.Schedule.States

/-!
# Runs that settle

A lifecycle stops firing if the firing event never leads back to a state through states in which
activations may fire (`Lifecycle.StopsFiring`).  Then an activation on its own fires from a finite
chain of states, which `Lifecycle.chain` computes; in the simple and the default lifecycle a chain
has one state only.

If all rules stop firing and their jobs ask for changes of facts only (`Scheduler.Tame`), then each
turn of a run takes the first state off the chain of one pending activation and leaves all others
(`Coherent.spends_move`).  So however the run chooses, the states on all chains together tell what
it fires (`Coherent.loop_spends`), and it ends when none of them is left (`run_settles`).
-/

namespace LiveQuery

/-! ## Lifecycles that stop firing -/

namespace Lifecycle

variable {lifecycle : Lifecycle} {state next : ActivationState}

/-- Firing leads from one state to the other, and activations may fire in both. -/
def FiresInto (lifecycle : Lifecycle) (state next : ActivationState) : Prop :=
  lifecycle.isFireable state = true ∧ lifecycle.next? state .fired = some next ∧
    lifecycle.isFireable next = true

/-- Firing never leads back to a state through states in which activations may fire. -/
def StopsFiring (lifecycle : Lifecycle) : Prop :=
  ∀ state, ¬Relation.TransGen lifecycle.FiresInto state state

/-- Firing leads to states in which activations do not fire. -/
def FiresOnce (lifecycle : Lifecycle) : Prop := ∀ state next, ¬lifecycle.FiresInto state next

/-- Firing stops if it leads downwards in some order. -/
theorem stopsFiring_of_rank (rank : ActivationState → Nat)
    (falls : ∀ state next, lifecycle.FiresInto state next → rank next < rank state) :
    lifecycle.StopsFiring := by
  have descends {state next : ActivationState}
      (leads : Relation.TransGen lifecycle.FiresInto state next) : rank next < rank state := by
    induction leads with
    | single step => exact falls _ _ step
    | tail _ step ih => exact (falls _ _ step).trans ih
  exact fun state leads => Nat.lt_irrefl _ (descends leads)

theorem FiresOnce.stopsFiring (once : lifecycle.FiresOnce) : lifecycle.StopsFiring :=
  stopsFiring_of_rank (fun _ => 0) fun state next leads => (once state next leads).elim

theorem FiresInto.listed (leads : lifecycle.FiresInto state next) :
    ((state, EventKind.fired), next) ∈ lifecycle.transitions.entries :=
  Table.mem_of_get? leads.2.1

theorem firesOnce_of_listed (listed : ∀ entry ∈ lifecycle.transitions.entries,
    entry.1.2 = .fired → lifecycle.isFireable entry.2 = false) : lifecycle.FiresOnce :=
  fun _ _ leads => Bool.false_ne_true ((listed _ leads.listed rfl).symm.trans leads.2.2)

theorem firesOnce_simple : simple.FiresOnce := firesOnce_of_listed (by decide)

theorem firesOnce_default : Lifecycle.default.FiresOnce := firesOnce_of_listed (by decide)

/-! ### Chains -/

/-- The states from which an activation fires one after another, but no more than a number of
them. -/
def chainUpTo (lifecycle : Lifecycle) : Nat → ActivationState → List ActivationState
  | 0, _ => []
  | limit + 1, state =>
    if lifecycle.isFireable state then
      state :: ((lifecycle.next? state .fired).map (lifecycle.chainUpTo limit)).getD []
    else []

/-- The states from which an activation fires one after another if nothing else happens to it.
There are no more of them than states in which activations may fire. -/
def chain (lifecycle : Lifecycle) (state : ActivationState) : List ActivationState :=
  lifecycle.chainUpTo lifecycle.fireable.size state

theorem chainUpTo_of_not_fireable (waits : lifecycle.isFireable state = false) (limit : Nat) :
    lifecycle.chainUpTo limit state = [] := by
  cases limit with
  | zero => rfl
  | succ limit => simp [chainUpTo, waits]

theorem chainUpTo_of_leads (fireable : lifecycle.isFireable state = true)
    (leads : lifecycle.next? state .fired = some next) (limit : Nat) :
    lifecycle.chainUpTo (limit + 1) state = state :: lifecycle.chainUpTo limit next := by
  simp [chainUpTo, fireable, leads]

/-- From a state in which activations may fire, firing leads on. -/
theorem exists_next (fireable : lifecycle.isFireable state = true) :
    ∃ next, lifecycle.next? state .fired = some next := by
  have leads := lifecycle.fires_on state (of_decide_eq_true fireable)
  rw [LifecycleDraft.isStuck, Bool.not_eq_false'] at leads
  exact Table.contains_iff.mp leads

theorem take_chainUpTo (lifecycle : Lifecycle) (limit : Nat) (state : ActivationState) :
    (lifecycle.chainUpTo (limit + 1) state).take limit = lifecycle.chainUpTo limit state := by
  induction limit generalizing state with
  | zero => rfl
  | succ limit ih =>
    cases fireable : lifecycle.isFireable state with
    | false =>
      rw [chainUpTo_of_not_fireable fireable, chainUpTo_of_not_fireable fireable, List.take_nil]
    | true =>
      obtain ⟨next, leads⟩ := exists_next fireable
      rw [chainUpTo_of_leads fireable leads, chainUpTo_of_leads fireable leads, List.take_succ_cons,
        ih]

theorem fireable_of_mem_chainUpTo {limit : Nat} {other : ActivationState}
    (member : other ∈ lifecycle.chainUpTo limit state) : lifecycle.isFireable other = true := by
  induction limit generalizing state with
  | zero => cases member
  | succ limit ih =>
    cases fireable : lifecycle.isFireable state with
    | false =>
      rw [chainUpTo_of_not_fireable fireable] at member
      cases member
    | true =>
      obtain ⟨next, leads⟩ := exists_next fireable
      rw [chainUpTo_of_leads fireable leads] at member
      rcases List.mem_cons.mp member with rfl | later
      · exact fireable
      · exact ih later

theorem head_chainUpTo {limit : Nat} {other : ActivationState}
    (first : (lifecycle.chainUpTo limit state).head? = some other) : other = state := by
  cases limit with
  | zero => cases first
  | succ limit =>
    unfold chainUpTo at first
    split at first
    · exact (Option.some.inj first).symm
    · cases first

theorem isChain_chainUpTo (limit : Nat) (state : ActivationState) :
    (lifecycle.chainUpTo limit state).IsChain lifecycle.FiresInto := by
  induction limit generalizing state with
  | zero => exact .nil
  | succ limit ih =>
    cases fireable : lifecycle.isFireable state with
    | false =>
      rw [chainUpTo_of_not_fireable fireable]
      exact .nil
    | true =>
      obtain ⟨next, leads⟩ := exists_next fireable
      rw [chainUpTo_of_leads fireable leads]
      refine List.isChain_cons.mpr ⟨fun other first => ?_, ih next⟩
      obtain rfl := head_chainUpTo first
      exact ⟨fireable, leads, fireable_of_mem_chainUpTo (List.mem_of_head? first)⟩

theorem StopsFiring.length_chainUpTo_le (stops : lifecycle.StopsFiring) (limit : Nat)
    (state : ActivationState) :
    (lifecycle.chainUpTo limit state).length ≤ lifecycle.fireable.size := by
  have ordered : (lifecycle.chainUpTo limit state).Pairwise
      (Relation.TransGen lifecycle.FiresInto) :=
    ((isChain_chainUpTo limit state).imp fun _ _ => .single).pairwise
  have once : (lifecycle.chainUpTo limit state).Nodup := by
    refine ordered.imp ?_
    rintro first _ leads rfl
    exact stops first leads
  refine (once.subperm fun other member => ?_).length_le
  exact of_decide_eq_true (fireable_of_mem_chainUpTo member)

theorem chain_of_not_fireable (waits : lifecycle.isFireable state = false) :
    lifecycle.chain state = [] := chainUpTo_of_not_fireable waits _

/-- The chain of a state is that state and the chain of the next one. -/
theorem StopsFiring.chain_eq (stops : lifecycle.StopsFiring)
    (fireable : lifecycle.isFireable state = true)
    (leads : lifecycle.next? state .fired = some next) :
    lifecycle.chain state = state :: lifecycle.chain next := by
  have short := stops.length_chainUpTo_le (lifecycle.fireable.size + 1) state
  have whole := take_chainUpTo lifecycle lifecycle.fireable.size state
  rw [List.take_of_length_le short] at whole
  unfold chain
  rw [← whole, chainUpTo_of_leads fireable leads]

theorem FiresOnce.chain_eq (once : lifecycle.FiresOnce)
    (fireable : lifecycle.isFireable state = true) : lifecycle.chain state = [state] := by
  obtain ⟨next, leads⟩ := exists_next fireable
  rw [once.stopsFiring.chain_eq fireable leads, chain_of_not_fireable]
  exact Bool.eq_false_iff.mpr fun again => once state next ⟨fireable, leads, again⟩

end Lifecycle

/-! ## Jobs that ask for changes only -/

/-- The jobs of the rule report nothing to rules and complete by firing.  They may fail, and ask for
changes of facts. -/
def Rule.Modest {σ : Type} (rule : Rule σ) : Prop :=
  ∀ state job, rule.jobs.get? state = some job → ∀ activation host,
    (job activation host).agenda.notifications = [] ∧
      (job activation host).agenda.completion = some .fired

theorem Rule.Modest.work {σ : Type} {rule : Rule σ} (modest : rule.Modest) (activation : Activation)
    (host : σ) : (rule.work activation host).agenda.notifications = [] ∧
      (rule.work activation host).agenda.completion = some .fired := by
  unfold Rule.work
  split
  next job found => exact modest _ job found activation host
  next => exact ⟨rfl, rfl⟩

/-- The number of the activation and its state. -/
def Activation.stage (activation : Activation) : ActivationId × ActivationState :=
  (activation.id, activation.state)

namespace Scheduler

variable {σ : Type} {scheduler before between after : Scheduler σ} {rule : Rule σ}
  {activation : Activation} {event : EventKind} {fired others : List Activation}

/-! ## What is still to be fired -/

/-- The states from which a live activation fires if nothing else happens to it. -/
def chainOf (scheduler : Scheduler σ) (activation : Activation) : List ActivationState :=
  ((scheduler.rule? activation.rule).map fun rule => rule.lifecycle.chain activation.state).getD []

/-- The stages in which a live activation fires. -/
def stages (scheduler : Scheduler σ) (activation : Activation) :
    List (ActivationId × ActivationState) :=
  (scheduler.chainOf activation).map (activation.id, ·)

/-- The stages in which live activations fire. -/
def upcoming (scheduler : Scheduler σ) : List (ActivationId × ActivationState) :=
  scheduler.live.flatMap scheduler.stages

theorem chainOf_eq (known : scheduler.rule? activation.rule = some rule) :
    scheduler.chainOf activation = rule.lifecycle.chain activation.state := by
  simp [chainOf, known]

theorem chainOf_congr (rules : after.rules = before.rules) : after.chainOf = before.chainOf := by
  unfold chainOf rule?
  rw [rules]

theorem stages_congr (rules : after.rules = before.rules) : after.stages = before.stages := by
  unfold stages
  rw [chainOf_congr rules]

/-! ## One event -/

/-- An event replaces or removes its activation in the list of live activations. -/
theorem Coherent.live_move (coherent : scheduler.Coherent) (live : activation ∈ scheduler.live)
    (rule : Rule σ) (event : EventKind) :
    ∃ earlier later, scheduler.live = earlier ++ activation :: later ∧
      (scheduler.move activation.rule rule activation.tuple event).live = earlier ++
        (rule.lifecycle.proceed activation.rule activation.tuple event scheduler.fresh.2
          (some activation)).toList ++ later := by
  have stored := (mem_live_iff coherent).mp live
  have indexed := (coherent.entered _ activation stored).indexed
  have state : scheduler.stateOf? activation.rule activation.tuple = some activation.state := by
    rw [stateOf?, (activation?_eq_some_iff coherent).mpr ⟨live, rfl, rfl⟩]
    rfl
  obtain ⟨earlier, later, shape⟩ :=
    List.append_of_mem ((Table.mem_entries_iff coherent.activationsOnce).mpr stored)
  refine ⟨earlier.map Prod.snd, later.map Prod.snd, by simp [Scheduler.live, shape], ?_⟩
  unfold Lifecycle.proceed
  dsimp only [Option.map_some, Option.getD_some]
  cases leads : rule.lifecycle.next? activation.state event with
  | none =>
    rw [move_eq_self (by rw [state]; exact leads)]
    simp [Scheduler.live, shape]
  | some next =>
    rw [move_eq_of_leads (by rw [state]; exact leads), indexed]
    dsimp only
    split
    · simp [Scheduler.live, Scheduler.drop, Table.entries_erase_middle coherent.activationsOnce shape]
    · simp [Scheduler.live, Scheduler.place, Table.entries_insert_middle coherent.activationsOnce shape]

/-- The chain of an activation loses its first state when the activation fires. -/
theorem stages_of_fireable (known : scheduler.rule? activation.rule = some rule)
    (stops : rule.lifecycle.StopsFiring)
    (fireable : rule.lifecycle.isFireable activation.state = true) (fresh : ActivationId) :
    scheduler.stages activation = activation.stage ::
      (rule.lifecycle.proceed activation.rule activation.tuple .fired fresh
        (some activation)).toList.flatMap scheduler.stages := by
  obtain ⟨next, leads⟩ := Lifecycle.exists_next fireable
  have here : scheduler.stages activation =
      activation.stage :: (rule.lifecycle.chain next).map (activation.id, ·) := by
    rw [stages, chainOf_eq known, stops.chain_eq fireable leads]
    rfl
  rw [here]
  congr 1
  unfold Lifecycle.proceed
  dsimp only [Option.map_some, Option.getD_some]
  rw [leads]
  dsimp only
  split
  next terminal =>
    have waits : rule.lifecycle.isFireable next = false := by
      obtain rfl : next = rule.lifecycle.initial := of_decide_eq_true terminal
      exact decide_eq_false rule.lifecycle.initial_waits
    simp [Lifecycle.chain_of_not_fireable waits]
  next => simp [stages, chainOf, known]

/-! ## One turn -/

/-- From one state of a scheduler to another the listed activations fire, and nothing else happens
to any activation. -/
structure Spends (before : Scheduler σ) (fired : List Activation) (after : Scheduler σ) : Prop where
  coherent : after.Coherent
  rules : after.rules = before.rules
  spent : before.upcoming.Perm (fired.map Activation.stage ++ after.upcoming)
  untouched : ∀ activation ∈ before.live, before.chainOf activation = [] → activation ∈ after.live

theorem Spends.refl (coherent : after.Coherent) (rules : after.rules = before.rules)
    (live : after.live = before.live) : Spends before [] after where
  coherent := coherent
  rules := rules
  spent := by
    unfold upcoming
    rw [live, stages_congr rules]
    exact .refl _
  untouched activation member _ := live ▸ member

theorem Spends.trans (earlier : Spends before fired between) (later : Spends between others after) :
    Spends before (fired ++ others) after where
  coherent := later.coherent
  rules := later.rules.trans earlier.rules
  spent := by
    rw [List.map_append, List.append_assoc]
    exact earlier.spent.trans (later.spent.append_left _)
  untouched activation member silent :=
    later.untouched activation (earlier.untouched activation member silent)
      (chainOf_congr earlier.rules ▸ silent)

/-- An activation fires if it is moved on by its firing. -/
theorem Coherent.spends_move (coherent : scheduler.Coherent)
    (mayFire : scheduler.MayFire activation rule) (stops : rule.lifecycle.StopsFiring) :
    Spends scheduler [activation]
      (scheduler.move activation.rule rule activation.tuple .fired) := by
  have rules := rules_move scheduler activation.rule rule activation.tuple .fired
  have stages := stages_of_fireable mayFire.known stops mayFire.fireable scheduler.fresh.2
  obtain ⟨earlier, later, live, liveAfter⟩ := coherent.live_move mayFire.live rule .fired
  refine ⟨coherent.move mayFire.known .., rules, ?_, fun other member silent => ?_⟩
  · unfold upcoming
    rw [live, liveAfter, stages_congr rules]
    simp only [List.flatMap_append, List.flatMap_cons, List.map_cons, List.map_nil, stages,
      List.append_assoc, List.cons_append, List.nil_append]
    exact List.perm_middle
  · rw [live] at member
    rw [liveAfter]
    rcases List.mem_append.mp member with before | after
    · exact List.mem_append_left _ (List.mem_append_left _ before)
    · rcases List.mem_cons.mp after with rfl | after
      · rw [chainOf_eq mayFire.known] at silent
        obtain ⟨next, leads⟩ := Lifecycle.exists_next mayFire.fireable
        rw [stops.chain_eq mayFire.fireable leads] at silent
        cases silent
      · exact List.mem_append_right _ after

/-- Firing an activation whose job is modest moves it on, and nothing else. -/
theorem Coherent.fire_modest (coherent : scheduler.Coherent)
    (mayFire : scheduler.MayFire activation rule) (modest : rule.Modest) :
    ∃ failures host changes, scheduler.fire activation.id =
      ((scheduler.aside failures scheduler.handler scheduler.isRunning host).move
        activation.rule rule activation.tuple .fired, .ok changes) := by
  obtain ⟨failures, host, worked⟩ := work_eq_aside scheduler rule activation
  obtain ⟨silent, completion⟩ := modest.work activation scheduler.host
  have known : (scheduler.aside failures scheduler.handler scheduler.isRunning host).rule?
      activation.rule = some rule := mayFire.known
  have completed : (scheduler.work rule activation).1.complete rule activation
      (scheduler.work rule activation).2.completion =
        .ok ((scheduler.aside failures scheduler.handler scheduler.isRunning host).move
          activation.rule rule activation.tuple .fired) := by
    rw [worked, agenda_work, completion]
    simp [complete, notify, known]
  refine ⟨failures, host, (scheduler.work rule activation).2.changes, ?_⟩
  rw [coherent.fire_eq mayFire completed, agenda_work, silent]
  rfl

theorem upcoming_eq_nil (quiet : ∀ activation rule, ¬scheduler.MayFire activation rule) :
    scheduler.upcoming = [] := by
  refine List.flatMap_eq_nil_iff.mpr fun activation member => List.map_eq_nil_iff.mpr ?_
  unfold chainOf
  cases known : scheduler.rule? activation.rule with
  | none => rfl
  | some rule =>
    refine Lifecycle.chain_of_not_fireable (Bool.eq_false_iff.mpr fun fireable => ?_)
    exact quiet activation rule ⟨member, known, fireable⟩

/-- Every rule stops firing, and its jobs only ask for changes of facts. -/
def Tame (scheduler : Scheduler σ) : Prop :=
  ∀ rule ∈ scheduler.rules, rule.lifecycle.StopsFiring ∧ rule.Modest

section Turns

variable {progress : Progress (List FactChange) σ}

/-- A turn fires one activation, or halts where none is left. -/
theorem Coherent.turn_spends (coherent : progress.scheduler.Coherent)
    (tame : progress.scheduler.Tame) :
    Spends progress.scheduler progress.scheduler.firing?.toList
        (turn collect progress).1.scheduler ∧
      ((turn collect progress).2 = some .settled ∧
          (turn collect progress).1.scheduler.upcoming = [] ∨
        (turn collect progress).2 = none ∧ progress.scheduler.firing?.isSome = true) := by
  rcases coherent.selectNext_cases with ⟨nothing, -⟩ | ⟨activation, rule, mayFire, selected, -, -⟩
  · obtain ⟨halts, silent⟩ := turn_of_nothing nothing
    rw [halts, silent]
    refine ⟨.refl coherent.selectNext rfl rfl, .inl ⟨rfl, upcoming_eq_nil fun _ _ mayFire => ?_⟩⟩
    exact coherent.selectNext_eq_none_iff.mp nothing _ _
      ⟨mayFire.live, mayFire.known, mayFire.fireable⟩
  · obtain ⟨after, continues, fires⟩ := coherent.turn_selected selected
    obtain ⟨stops, modest⟩ := tame rule (List.mem_of_getElem? mayFire.known)
    have chosen : progress.scheduler.selectNext.1.MayFire activation rule := mayFire.selectNext
    obtain ⟨failures, host, changes, fired⟩ := coherent.selectNext.fire_modest chosen modest
    rw [after, continues, fires, fired]
    have kept := coherent.selectNext.aside failures progress.scheduler.selectNext.1.handler
      progress.scheduler.selectNext.1.isRunning host
    have begun : Spends progress.scheduler [] _ := .refl kept rfl rfl
    refine ⟨begun.trans (kept.spends_move ⟨?_, ?_, ?_⟩ stops), .inr ⟨rfl, rfl⟩⟩
    · exact chosen.live
    · exact chosen.known
    · exact chosen.fireable

/-- A run fires one activation after the other until none is left or its turns are used up. -/
theorem Coherent.loop_spends (turns : Nat) (coherent : progress.scheduler.Coherent)
    (tame : progress.scheduler.Tame) :
    Spends progress.scheduler (firings collect turns progress)
        (loop collect turns progress).1.scheduler ∧
      ((loop collect turns progress).2 = .settled ∧
          (loop collect turns progress).1.scheduler.upcoming = [] ∨
        (loop collect turns progress).2 = .unsettled ∧
          (firings collect turns progress).length = turns) := by
  induction turns generalizing progress with
  | zero => exact ⟨.refl coherent rfl rfl, .inr ⟨rfl, rfl⟩⟩
  | succ turns ih =>
    obtain ⟨spends, outcome⟩ := coherent.turn_spends tame
    unfold loop firings
    cases turned : turn collect progress with
    | mk after halt =>
      rw [turned] at spends outcome
      rcases outcome with ⟨rfl, spent⟩ | ⟨rfl, fires⟩
      · dsimp only
        rw [List.append_nil]
        exact ⟨spends, .inl ⟨rfl, spent⟩⟩
      · have still : after.scheduler.Tame := by
          unfold Tame
          rw [spends.rules]
          exact tame
        obtain ⟨rest, ends⟩ := ih spends.coherent still
        refine ⟨spends.trans rest, ends.imp_right fun spread => ⟨spread.1, ?_⟩⟩
        obtain ⟨activation, first⟩ := Option.isSome_iff_exists.mp fires
        rw [first, List.length_append, spread.2, Option.toList_some, List.length_singleton,
          Nat.add_comm]

end Turns

/-! ## Whole runs -/

/-- The live activations that may fire. -/
def pending (scheduler : Scheduler σ) : List Activation :=
  scheduler.live.filter fun activation => scheduler.conflicts.contains activation.id

theorem Coherent.chainOf_eq_nil (coherent : scheduler.Coherent) (live : activation ∈ scheduler.live)
    (waits : activation ∉ scheduler.pending) : scheduler.chainOf activation = [] := by
  unfold chainOf
  cases known : scheduler.rule? activation.rule with
  | none => rfl
  | some rule =>
    refine Lifecycle.chain_of_not_fireable (Bool.eq_false_iff.mpr fun fireable => waits ?_)
    refine List.mem_filter.mpr ⟨live, ?_⟩
    exact (coherent.inOrder.fireable _).mpr ⟨activation, live, rfl, rule, known, fireable⟩

theorem Coherent.mayFire_of_pending (coherent : scheduler.Coherent)
    (pending : activation ∈ scheduler.pending) : ∃ rule, scheduler.MayFire activation rule := by
  obtain ⟨live, filed⟩ := List.mem_filter.mp pending
  obtain ⟨other, otherLive, same, rule, known, fireable⟩ :=
    (coherent.inOrder.fireable activation.id).mp filed
  obtain rfl : other = activation := by
    have stored := (mem_live_iff coherent).mp otherLive
    rw [same] at stored
    exact Option.some.inj (stored.symm.trans ((mem_live_iff coherent).mp live))
  exact ⟨rule, live, known, fireable⟩

theorem Coherent.length_upcoming (coherent : scheduler.Coherent) : scheduler.upcoming.length =
    (scheduler.pending.map fun activation => (scheduler.chainOf activation).length).sum := by
  have silent (activation : Activation) (live : activation ∈ scheduler.live)
      (waits : ¬scheduler.conflicts.contains activation.id = true) :
      scheduler.chainOf activation = [] :=
    coherent.chainOf_eq_nil live fun pending => waits (List.mem_filter.mp pending).2
  unfold upcoming pending
  rw [List.length_flatMap]
  generalize scheduler.live = live at silent
  induction live with
  | nil => rfl
  | cons first rest ih =>
    obtain ⟨here, later⟩ := List.forall_mem_cons.mp silent
    rw [List.map_cons, List.sum_cons, ih later, List.filter_cons]
    split
    · rw [List.map_cons, List.sum_cons, stages, List.length_map]
    next waits => rw [stages, here waits, List.map_nil, List.length_nil, Nat.zero_add]

theorem Coherent.filter_upcoming (coherent : scheduler.Coherent)
    (live : activation ∈ scheduler.live) :
    scheduler.upcoming.filter (·.1 = activation.id) = scheduler.stages activation := by
  have apart := coherent.pairwise_live
  obtain ⟨earlier, later, shape⟩ := List.append_of_mem live
  rw [shape, List.pairwise_append, List.pairwise_cons] at apart
  obtain ⟨-, ⟨after, -⟩, before⟩ := apart
  have others {activations : List Activation}
      (different : ∀ other ∈ activations, other.id ≠ activation.id) :
      (activations.flatMap scheduler.stages).filter (·.1 = activation.id) = [] := by
    simp only [List.filter_eq_nil_iff, List.mem_flatMap, stages, List.mem_map]
    rintro _ ⟨other, member, state, -, rfl⟩
    simpa using different other member
  unfold upcoming
  rw [shape, List.flatMap_append, List.flatMap_cons, List.filter_append, List.filter_append,
    others fun other member => (before other member activation List.mem_cons_self).2,
    others fun other member => (after other member).2.symm, List.append_nil, List.nil_append]
  exact List.filter_eq_self.mpr fun stage member => by
    obtain ⟨state, -, rfl⟩ := List.mem_map.mp member
    simp

theorem Spends.states_fired (spends : Spends before fired after) (coherent : before.Coherent)
    (spent : after.upcoming = []) (live : activation ∈ before.live) :
    ((fired.filter (·.id = activation.id)).map Activation.state).Perm
      (before.chainOf activation) := by
  have all := (spends.spent.filter (·.1 = activation.id)).map Prod.snd
  rw [coherent.filter_upcoming live, spent, List.append_nil, List.filter_map, List.map_map] at all
  refine all.symm.trans ?_
  rw [stages, List.map_map]
  exact .of_eq (List.map_id _)

/-- Rules whose lifecycles stop firing, such as the simple and the default lifecycle, and whose jobs
ask for changes of facts only, keep no run going.  Whatever has happened to a scheduler, whichever
its policy and the order of its buckets, a run fires every pending activation once from each state
on its chain and then ends with nothing left to fire.  Activations that are not pending stay as they
are. -/
theorem run_settles [Draw.Generator] :
    Lifecycle.simple.StopsFiring ∧ Lifecycle.default.StopsFiring ∧
    ∀ {σ : Type} {policy : Policy} {order : BucketOrder} {host : σ} {now : Scheduler σ},
      Evolves (new policy order host) now → now.isRunning = false → now.Tame →
      let total := (now.pending.map fun activation => (now.chainOf activation).length).sum
      ∀ turns, total < turns →
        ∃ summary, (now.run turns).2 = .finished summary ∧ summary.fired = total ∧
          (now.run turns).1.conflicts.isEmpty = true ∧
          (∀ activation ∈ now.pending,
            (((now.fired turns).filter (·.id = activation.id)).map Activation.state).Perm
              (now.chainOf activation)) ∧
          (∀ activation ∈ now.pending, ∀ rule, now.rule? activation.rule = some rule →
            rule.lifecycle = .simple ∨ rule.lifecycle = .default →
              (now.fired turns).countP (·.id = activation.id) = 1) ∧
          ∀ activation ∈ now.live, activation ∉ now.pending →
            activation ∈ (now.run turns).1.live := by
  refine ⟨Lifecycle.firesOnce_simple.stopsFiring, Lifecycle.firesOnce_default.stopsFiring, ?_⟩
  intro σ policy order host now past idle tame total turns enough
  have coherent := (past.follows (coherent_new policy order host)).coherent
  have begun : now.started.scheduler.Coherent :=
    coherent.aside now.failures now.handler true now.host
  obtain ⟨spends, ends⟩ := begun.loop_spends turns tame
  have length := spends.spent.length_eq
  rw [List.length_append, List.length_map] at length
  have count : now.started.scheduler.upcoming.length = total := coherent.length_upcoming
  obtain ⟨settled, spent⟩ := ends.resolve_right fun ⟨_, many⟩ => by omega
  rw [spent, List.length_nil, Nat.add_zero, count] at length
  have empty := ((begun.loop_collect turns).resolve_left (by rw [settled]; exact nofun)).2
  have states (activation : Activation) (pending : activation ∈ now.pending) :
      (((now.fired turns).filter (·.id = activation.id)).map Activation.state).Perm
        (now.chainOf activation) :=
    spends.states_fired begun spent (List.mem_filter.mp pending).1
  rw [run_eq idle, settled]
  refine ⟨_, rfl, ?_, empty, states, fun activation pending rule known plain => ?_,
    fun activation live waits => ?_⟩
  · rw [fired_loop, ← length]
    exact Nat.zero_add _
  · obtain ⟨governor, -, governs, fireable⟩ := coherent.mayFire_of_pending pending
    obtain rfl := Option.some.inj (known.symm.trans governs)
    have once : rule.lifecycle.FiresOnce := by
      rcases plain with simple | default
      · exact simple ▸ Lifecycle.firesOnce_simple
      · exact default ▸ Lifecycle.firesOnce_default
    have many := (states activation pending).length_eq
    rw [chainOf_eq known, once.chain_eq fireable, List.length_map] at many
    exact List.countP_eq_length_filter.trans many
  · exact spends.untouched activation live (coherent.chainOf_eq_nil live waits)

/-- A lifecycle in which activations fire twice and then stay. -/
def relay : Lifecycle where
  initial := "idle"
  transitions := ⟨[(("idle", .appeared), "first"), (("first", .fired), "second"),
    (("second", .fired), "done"), (("done", .disappeared), "idle")]⟩
  fireable := .ofList ["first", "second"]
  initial_waits := by decide
  fires_on := by decide

theorem stopsFiring_relay : relay.StopsFiring :=
  Lifecycle.stopsFiring_of_rank (fun state => if state = "first" then 1 else 0) fun _ _ leads =>
    (by decide : ∀ entry ∈ relay.transitions.entries,
      entry.1.2 = .fired ∧ relay.isFireable entry.2 = true →
        (if entry.2 = "first" then 1 else 0) < if entry.1.1 = "first" then 1 else 0)
      _ leads.listed ⟨rfl, leads.2.2⟩

/-- An activation that fires twice, one that fires once, and one that waits for its match to go.
The job of the first one fails and asks for a change; its second firing comes last. -/
theorem run_settles_relay :
    let failing : Rule Unit := Rule.withJob { name := "relay", query := "edges", lifecycle := relay }
      "first" fun activation host =>
        ⟨{ changes := [⟨.insert, ⟨⟨1⟩, activation.tuple⟩⟩] }, some (.jobFailed "refused"), host⟩
    let watch : Rule Unit := { name := "watch", query := "edges", lifecycle := .default }
    let policy : Policy := .custom fun activation _ => if activation.lastEvent = .fired then 1 else 0
    let now : Scheduler Unit := performAll (new policy .lifo ()) [
      .notify ⟨0⟩ [.int 7] .appeared, .notify ⟨1⟩ [.int 7] .appeared,
      .notify ⟨1⟩ [.int 8] .fired, .notify ⟨1⟩ [.int 8] .appeared, .addRule watch, .addRule failing]
    let relayed : Activation := ⟨⟨3⟩, ⟨0⟩, [.int 7], "first", .appeared⟩
    let watched : Activation := ⟨⟨2⟩, ⟨1⟩, [.int 7], "appeared", .appeared⟩
    let waiting : Activation := ⟨⟨1⟩, ⟨1⟩, [.int 8], "fired", .fired⟩
    now.isRunning = false ∧ now.Tame ∧ now.pending = [watched, relayed] ∧
    now.chainOf relayed = ["first", "second"] ∧
    ∃ summary, (now.run 4).2 = .finished summary ∧ summary.fired = 3 ∧
      (now.run 4).1.failures.length = 1 ∧ (now.run 4).1.conflicts.isEmpty = true ∧
      (now.fired 4).countP (·.id = watched.id) = 1 ∧
      (((now.fired 4).filter (·.id = relayed.id)).map Activation.state).Perm ["first", "second"] ∧
      waiting ∈ (now.run 4).1.live := by
  intro failing watch policy now relayed watched waiting
  have past : Evolves (new policy .lifo ()) now := evolves_performAll _ _
  have idle : now.isRunning = false := by decide +kernel
  have rules : now.rules = [failing, watch] := by
    simp only [now, performAll, List.foldr_cons, List.foldr_nil, rules_perform_notify]
    rfl
  have modest : failing.Modest := by
    intro state job stored activation host
    rw [show failing.jobs = Table.insert .empty "first" _ from rfl, Table.get?_insert] at stored
    split at stored
    · cases stored
      exact ⟨rfl, rfl⟩
    · cases stored
  have tame : now.Tame := by
    unfold Tame
    rw [rules, List.forall_mem_cons, List.forall_mem_singleton]
    refine ⟨⟨stopsFiring_relay, modest⟩, Lifecycle.firesOnce_default.stopsFiring, ?_⟩
    intro state job stored
    cases stored
  have pending : now.pending = [watched, relayed] := by decide +kernel
  have chain : now.chainOf relayed = ["first", "second"] := by decide +kernel
  obtain ⟨summary, finished, count, empty, states, once, untouched⟩ :=
    run_settles.2.2 past idle tame 4 (by decide +kernel)
  have known : now.rule? ⟨1⟩ = some watch := by rw [rule?, rules]; rfl
  refine ⟨idle, tame, pending, chain, summary, finished, ?_, by decide +kernel, empty, ?_, ?_, ?_⟩
  · exact count.trans (by decide +kernel)
  · exact once watched (pending ▸ List.mem_cons_self) watch known (.inr rfl)
  · exact chain ▸ states relayed (pending ▸ List.mem_cons_of_mem _ List.mem_cons_self)
  · exact untouched waiting (by decide +kernel) (by decide +kernel)

end Scheduler
end LiveQuery
