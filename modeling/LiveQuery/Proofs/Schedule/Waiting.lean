import LiveQuery.Proofs.Schedule.Selection

/-!
# Who has waited longest

`waited` counts for how many deeds an activation has had its present urgency without interruption.
It only looks at the records of activations, deed after deed, and not at the conflict set.

A deed files or takes out at most one activation (`Refiles`).  So a bucket loses some of its members
and gets at most one behind the others that was not there before (`Requeues`), and what stands
further behind has waited less (`InTurn`).  What this says of a choice depends on the order of the
buckets.

* First in, first out: the first of a bucket is chosen, which has waited longest
  (`measure_lt_head`).
* Last in, first out: the last of a bucket is chosen, which has waited shortest (`last_lt_measure`).
* Random: the number that is drawn is the place of the chosen one.  As the bucket descends by
  waiting time, an activation stands behind as many others as have waited for longer (`ahead`,
  `countP_lt_getElem`), which again looks at the records only.  Nothing is known of a source but
  that it draws below the bound.  Each such number is drawn by some source, so each activation of
  the bucket may be the one.
-/

namespace LiveQuery

/-! ## Buckets as queues -/

/-- Some leave the queue, the others keep their order, and at most one comes anew, behind them. -/
def Requeues (before after : List ActivationId) : Prop :=
  ∃ kept added, after = kept ++ added ∧ kept.Sublist before ∧ added.length ≤ 1 ∧
    ∀ id ∈ added, id ∉ before

theorem Requeues.refl (queue : List ActivationId) : Requeues queue queue :=
  ⟨queue, [], (List.append_nil _).symm, List.Sublist.refl _, Nat.zero_le _, nofun⟩

namespace ConflictSet

variable {set after : ConflictSet}

/-- What a deed can do to a conflict set. -/
inductive Refiles (set : ConflictSet) : ConflictSet → Prop where
  | nothing : Refiles set set
  | taken (id : ActivationId) : Refiles set (set.remove id)
  | filed (id : ActivationId) (priority : Int32) : Refiles set (set.insert id priority)
  | chosen : Refiles set set.next.1

theorem Refiles.order_eq (refiles : set.Refiles after) : after.order = set.order := by
  have removed (id : ActivationId) : (set.remove id).order = set.order := by
    unfold remove
    split <;> rfl
  cases refiles with
  | nothing => rfl
  | taken id => exact removed id
  | filed id priority =>
    unfold insert
    split
    · rfl
    · exact removed id
  | chosen =>
    unfold next
    split
    · rfl
    · split <;> rfl

theorem Refiles.requeues (refiles : set.Refiles after) (coherent : set.Coherent)
    (priority : Int32) : Requeues (set.bucket priority) (after.bucket priority) := by
  cases refiles with
  | nothing => exact .refl _
  | taken id =>
    rw [coherent.bucket_remove]
    exact ⟨_, [], (List.append_nil _).symm, List.filter_sublist, Nat.zero_le _, nofun⟩
  | filed id filedUnder =>
    by_cases stays : set.priorityOf? id = some filedUnder
    · rw [insert_eq_self stays]
      exact .refl _
    rw [coherent.bucket_insert stays]
    refine ⟨_, _, rfl, List.filter_sublist, by split <;> simp, fun other added present => ?_⟩
    split at added
    next same =>
      obtain rfl := List.mem_singleton.mp added
      exact stays (same ▸ (coherent.filed other priority).mp present)
    next => cases added
  | chosen =>
    have same : set.next.1.bucket priority = set.bucket priority := by
      unfold next
      split
      · rfl
      · split <;> rfl
    exact same ▸ .refl _

end ConflictSet

namespace Scheduler

variable {σ : Type} {scheduler : Scheduler σ}

theorem refiles_place (scheduler : Scheduler σ) (rule : Rule σ) (activation : Activation) :
    scheduler.conflicts.Refiles (scheduler.place rule activation).conflicts := by
  unfold Scheduler.place
  dsimp only
  split
  · exact .filed _ _
  · exact .taken _

theorem Moves.refiles {number : RuleId} {rule : Rule σ} {tuple : Tuple} {event : EventKind}
    {after : Scheduler σ} {state : Option ActivationState}
    (moves : scheduler.Moves number rule tuple event after state) :
    scheduler.conflicts.Refiles after.conflicts := by
  cases moves with
  | nowhere => exact .nothing
  | nothing => exact .nothing
  | ended => exact .taken _
  | moved => exact refiles_place scheduler rule _
  | started => exact refiles_place scheduler.fresh.1 rule _

theorem refiles_perform (scheduler : Scheduler σ) (deed : Deed σ) :
    scheduler.conflicts.Refiles (scheduler.perform deed).conflicts := by
  cases deed with
  | addRule => exact .nothing
  | aside => exact .nothing
  | selectNext => exact .chosen
  | notify number tuple event =>
    unfold perform
    dsimp only
    split
    next rule known => exact (scheduler.moves number rule tuple event).refiles
    next => exact .nothing

/-! ## Waiting -/

/-- For how many of the latest deeds an activation has had an urgency without interruption. -/
def waited (start : Scheduler σ) (id : ActivationId) (priority : Int32) : List (Deed σ) → Nat
  | [] => 0
  | deed :: earlier =>
    if (start.performAll (deed :: earlier)).urgency? id = some priority then
      waited start id priority earlier + 1
    else 0

/-- The tables agree, and in every bucket those that stand further behind have waited less. -/
structure InTurn (start : Scheduler σ) (deeds : List (Deed σ)) : Prop where
  coherent : (start.performAll deeds).Coherent
  policy : (start.performAll deeds).policy = start.policy
  order : (start.performAll deeds).conflicts.order = start.conflicts.order
  queued : ∀ priority, ((start.performAll deeds).conflicts.bucket priority).Pairwise
    fun first second => start.waited second priority deeds < start.waited first priority deeds
  waiting : ∀ priority, ∀ id ∈ (start.performAll deeds).conflicts.bucket priority,
    0 < start.waited id priority deeds

variable {start : Scheduler σ} {deeds : List (Deed σ)}

theorem waited_eq_zero {id : ActivationId} {priority : Int32}
    (apart : (start.performAll deeds).urgency? id ≠ some priority) :
    start.waited id priority deeds = 0 := by
  cases deeds with
  | nil => rfl
  | cons deed earlier => exact if_neg apart

theorem InTurn.perform (inTurn : start.InTurn deeds) (deed : Deed σ) :
    start.InTurn (deed :: deeds) := by
  have follows := (evolves_perform (start.performAll deeds) deed).follows inTurn.coherent
  have refiles := (start.performAll deeds).refiles_perform deed
  have more {id : ActivationId} {priority : Int32}
      (member : id ∈ (start.performAll (deed :: deeds)).conflicts.bucket priority) :
      start.waited id priority (deed :: deeds) = start.waited id priority deeds + 1 :=
    if_pos (follows.coherent.mem_bucket_iff.mp member)
  refine ⟨follows.coherent, follows.policy.trans inTurn.policy,
    refiles.order_eq.trans inTurn.order, fun priority => ?_,
    fun priority id member => more member ▸ Nat.succ_pos _⟩
  obtain ⟨kept, added, now, stays, single, new⟩ :=
    refiles.requeues inTurn.coherent.conflicts priority
  change (start.performAll (deed :: deeds)).conflicts.bucket priority = kept ++ added at now
  -- those that are there now have waited for one deed more
  have keptMore {id : ActivationId} (member : id ∈ kept) :=
    more (now ▸ List.mem_append_left added member)
  have addedMore {id : ActivationId} (member : id ∈ added) :=
    more (now ▸ List.mem_append_right kept member)
  rw [now]
  refine List.pairwise_append.mpr ⟨?_, ?_, fun first firstMember second secondMember => ?_⟩
  · refine ((inTurn.queued priority).sublist stays).imp_of_mem ?_
    intro first second firstMember secondMember less
    rw [keptMore firstMember, keptMore secondMember]
    exact Nat.succ_lt_succ less
  · match added, single with
    | [], _ => exact .nil
    | [_], _ => exact List.pairwise_singleton _ _
  · -- whoever comes anew did not wait before, whoever is kept did
    have waiting := inTurn.waiting priority first (stays.subset firstMember)
    have unfiled := mt inTurn.coherent.mem_bucket_iff.mpr (new second secondMember)
    rw [keptMore firstMember, addedMore secondMember, waited_eq_zero unfiled]
    exact Nat.succ_lt_succ waiting

theorem inTurn_performAll [Draw.Generator] (policy : Policy) (order : BucketOrder) (host : σ)
    (deeds : List (Deed σ)) : (new policy order host).InTurn deeds := by
  induction deeds with
  | nil => exact ⟨coherent_new policy order host, rfl, rfl, fun _ => .nil, fun _ _ => nofun⟩
  | cons deed earlier ih => exact ih.perform deed

/-! ## The choice -/

/-- The scheduler whose draws come from another source. -/
def drawing (scheduler : Scheduler σ) (draws : Option Draw.Source) : Scheduler σ :=
  { scheduler with conflicts := { scheduler.conflicts with draws } }

theorem Coherent.drawing (coherent : scheduler.Coherent) (draws : Option Draw.Source) :
    (scheduler.drawing draws).Coherent where
  activationsOnce := coherent.activationsOnce
  indexOnce := coherent.indexOnce
  conflicts :=
    ⟨coherent.conflicts.tidy, coherent.conflicts.filed, coherent.conflicts.once,
      coherent.conflicts.keys⟩
  entered id activation found :=
    have entered := coherent.entered id activation found
    ⟨entered.named, entered.issued, entered.indexed, entered.governed⟩
  indexed := coherent.indexed
  filed := coherent.filed

theorem Coherent.eq_of_id_eq (coherent : scheduler.Coherent) {first second : Activation}
    (firstLive : first ∈ scheduler.live) (secondLive : second ∈ scheduler.live)
    (same : first.id = second.id) : first = second := by
  rw [mem_live_iff coherent] at firstLive secondLive
  exact Option.some.inj (firstLive.symm.trans (same ▸ secondLive))

theorem mayFire_drawing_iff (scheduler : Scheduler σ) (draws : Option Draw.Source)
    (activation : Activation) (rule : Rule σ) :
    (scheduler.drawing draws).MayFire activation rule ↔ scheduler.MayFire activation rule :=
  ⟨fun ⟨live, known, fireable⟩ => ⟨live, known, fireable⟩,
    fun ⟨live, known, fireable⟩ => ⟨live, known, fireable⟩⟩

theorem measure_lt_head {α : Type} {measure : α → Nat} {list : List α} {head other : α}
    (descends : list.Pairwise fun first second => measure second < measure first)
    (first : list.head? = some head) (member : other ∈ list) (different : other ≠ head) :
    measure other < measure head := by
  obtain ⟨rest, rfl⟩ := List.head?_eq_some_iff.mp first
  exact (List.pairwise_cons.mp descends).1 other
    ((List.mem_cons.mp member).resolve_left different)

theorem last_lt_measure {α : Type} {measure : α → Nat} {list : List α} {last other : α}
    (descends : list.Pairwise fun first second => measure second < measure first)
    (final : list.getLast? = some last) (member : other ∈ list) (different : other ≠ last) :
    measure last < measure other := by
  obtain ⟨front, rfl⟩ := List.getLast?_eq_some_iff.mp final
  have earlier : other ∈ front :=
    (List.mem_append.mp member).resolve_right (by simpa using different)
  exact (List.pairwise_append.mp descends).2.2 other earlier last (List.mem_singleton_self _)

/-- In a list that descends by some measure, as many have a larger one as stand further in front. -/
theorem countP_lt_getElem {α : Type} {measure : α → Nat} {list : List α}
    (descends : list.Pairwise fun first second => measure second < measure first) {place : Nat}
    (bound : place < list.length) :
    list.countP (fun other => measure list[place] < measure other) = place := by
  induction list generalizing place with
  | nil => cases bound
  | cons head rest ih =>
    obtain ⟨largest, later⟩ := List.pairwise_cons.mp descends
    cases place with
    | zero =>
      refine List.countP_eq_zero.mpr (List.forall_mem_cons.mpr ⟨by simp, fun other member => ?_⟩)
      have less := largest other member
      simp only [List.getElem_cons_zero, decide_eq_true_eq]
      omega
    | succ place =>
      have inside : place < rest.length := Nat.lt_of_succ_lt_succ bound
      have first : measure rest[place] < measure head := largest _ (List.getElem_mem inside)
      rw [List.countP_cons_of_pos (by simpa using first)]
      simp only [List.getElem_cons_succ, ih later inside]

/-! ### A random order -/

/-- The live activations that may fire with a priority. -/
def peers (scheduler : Scheduler σ) (priority : Int32) : List Activation :=
  scheduler.live.filter fun activation => scheduler.urgency? activation.id = some priority

/-- How many of the activations with a priority have had it for longer than a given one. -/
def ahead (start : Scheduler σ) (id : ActivationId) (priority : Int32) (deeds : List (Deed σ)) :
    Nat :=
  ((start.performAll deeds).peers priority).countP fun peer =>
    start.waited id priority deeds < start.waited peer.id priority deeds

theorem Coherent.perm_peers (coherent : scheduler.Coherent) (priority : Int32) :
    ((scheduler.peers priority).map Activation.id).Perm (scheduler.conflicts.bucket priority) := by
  have once : ((scheduler.peers priority).map Activation.id).Nodup :=
    List.pairwise_map.mpr ((coherent.pairwise_live.filter _).imp And.right)
  refine (List.perm_ext_iff_of_nodup once (coherent.conflicts.once priority)).mpr fun id => ?_
  rw [coherent.mem_bucket_iff]
  simp only [peers, List.mem_map, List.mem_filter, decide_eq_true_eq]
  constructor
  · rintro ⟨activation, ⟨_, urgent⟩, rfl⟩
    exact urgent
  · intro urgent
    obtain ⟨activation, rule, mayFire, rfl, _⟩ := coherent.urgency?_eq_some_iff.mp urgent
    exact ⟨activation, ⟨mayFire.live, urgent⟩, rfl⟩

/-- An activation stands in its bucket behind as many others as have waited for longer. -/
theorem InTurn.getElem?_bucket_eq_some_iff (inTurn : start.InTurn deeds) {id : ActivationId}
    {priority : Int32} (member : id ∈ (start.performAll deeds).conflicts.bucket priority)
    (place : Nat) : ((start.performAll deeds).conflicts.bucket priority)[place]? = some id ↔
      place = start.ahead id priority deeds := by
  have counted {stands : Nat}
      (bound : stands < ((start.performAll deeds).conflicts.bucket priority).length)
      (here : ((start.performAll deeds).conflicts.bucket priority)[stands] = id) :
      stands = start.ahead id priority deeds := by
    have ids : start.ahead id priority deeds =
        (((start.performAll deeds).peers priority).map Activation.id).countP fun other =>
          start.waited id priority deeds < start.waited other priority deeds := by
      rw [ahead, List.countP_map]
      rfl
    rw [ids, (inTurn.coherent.perm_peers priority).countP_eq, ← here]
    exact (countP_lt_getElem (inTurn.queued priority) bound).symm
  rw [List.getElem?_eq_some_iff]
  constructor
  · rintro ⟨bound, here⟩
    exact counted bound here
  · rintro rfl
    obtain ⟨stands, bound, here⟩ := List.mem_iff_getElem.mp member
    obtain rfl := counted bound here
    exact ⟨bound, here⟩

/-- In a random order, an activation of the least priority is selected by the sources that draw its
place. -/
theorem InTurn.selects_iff (inTurn : start.InTurn deeds) {seed : UInt64}
    (random : start.conflicts.order = .random seed) {other : Activation} {priority : Int32}
    (live : other ∈ (start.performAll deeds).live)
    (urgent : (start.performAll deeds).urgency? other.id = some priority)
    (least : ∀ id urgency, (start.performAll deeds).urgency? id = some urgency →
      priority ≤ urgency) (source : Draw.Source) :
    ((start.performAll deeds).drawing (some source)).selectNext.2 = some other ↔
      (source.below ((start.performAll deeds).peers priority).length).1 =
        start.ahead other.id priority deeds := by
  have coherent := inTurn.coherent.drawing (some source)
  have member := inTurn.coherent.mem_bucket_iff.mpr urgent
  have count : ((start.performAll deeds).peers priority).length =
      ((start.performAll deeds).conflicts.bucket priority).length := by
    rw [← (inTurn.coherent.perm_peers priority).length_eq, List.length_map]
  have chosen : ((start.performAll deeds).drawing (some source)).conflicts.next.2 =
      ConflictSet.pick (start.performAll deeds).conflicts.order (some source)
        ((start.performAll deeds).conflicts.bucket priority) :=
    coherent.conflicts.next_eq_pick (List.ne_nil_of_mem member) fun id urgency filed =>
      least id urgency ((inTurn.coherent.urgency?_eq id).trans filed)
  rw [coherent.selectNext_eq_some_iff live, chosen, inTurn.order, random, count]
  exact inTurn.getElem?_bucket_eq_some_iff member _

/-- Whatever is drawn, what is selected may fire with the least priority of all.  Among those with
this priority it is the one that has waited longest, or shortest, or any of them, as the order of
the buckets has it.  In a random order each of them is selected by exactly those sources that draw,
below the number of them all, how many have waited for longer than it; and there is such a
source. -/
theorem served_in_order [Draw.Generator] (policy : Policy) (order : BucketOrder) (host : σ) :
    (∀ now, Evolves (new policy order host) now ↔ Reaches (new policy order host) now) ∧
    ∀ (deeds : List (Deed σ)) (draws : Option Draw.Source),
      let start := new policy order host
      let now := start.performAll deeds
      let selected := (now.drawing draws).selectNext.2
      (selected = none ↔ ∀ activation rule, ¬now.MayFire activation rule) ∧
      ∀ chosen, selected = some chosen → ∃ rule, now.MayFire chosen rule ∧
        let priority := policy.priority chosen rule.priority
        ∀ other otherRule, now.MayFire other otherRule →
          priority ≤ policy.priority other otherRule.priority ∧
          (policy.priority other otherRule.priority = priority → match order with
            | .fifo => other ≠ chosen →
              start.waited other.id priority deeds < start.waited chosen.id priority deeds
            | .lifo => other ≠ chosen →
              start.waited chosen.id priority deeds < start.waited other.id priority deeds
            | .random _ =>
              let selects (source : Draw.Source) : Prop :=
                (now.drawing (some source)).selectNext.2 = some other
              (∀ source, selects source ↔
                (source.below (now.peers priority).length).1 = start.ahead other.id priority deeds) ∧
              ∃ source, selects source) := by
  refine ⟨fun now => evolves_iff, fun deeds draws => ?_⟩
  intro start now selected
  have inTurn := inTurn_performAll policy order host deeds
  have coherent := inTurn.coherent.drawing draws
  refine ⟨?_, fun chosen chose => ?_⟩
  · simp only [← mayFire_drawing_iff now draws]
    exact coherent.selectNext_eq_none_iff
  rcases coherent.selectNext_cases with ⟨nothing, _⟩ | ⟨activation, rule, mayFire, first, picked, least⟩
  · cases chose.symm.trans nothing
  obtain rfl := Option.some.inj (chose.symm.trans first)
  refine ⟨rule, (mayFire_drawing_iff ..).mp mayFire, ?_⟩
  have ordered : now.conflicts.order = order := inTurn.order
  have ruled : (now.drawing draws).policy = policy := inTurn.policy
  rw [ruled] at picked least
  intro priority other otherRule otherFires
  have live := (mayFire_drawing_iff now draws other otherRule).mpr otherFires
  have urgent : (now.drawing draws).urgency? other.id =
      some (policy.priority other otherRule.priority) :=
    coherent.urgency?_eq_some_iff.mpr ⟨other, otherRule, live, rfl, by rw [ruled]⟩
  refine ⟨least other.id _ urgent, fun same => ?_⟩
  have member : other.id ∈ now.conflicts.bucket priority :=
    coherent.mem_bucket_iff.mpr (same ▸ urgent)
  have apart (different : other ≠ chosen) : other.id ≠ chosen.id := fun equal =>
    different (coherent.eq_of_id_eq live.live mayFire.live equal)
  change ConflictSet.pick now.conflicts.order draws (now.conflicts.bucket priority) = _ at picked
  rw [ordered] at picked
  cases order with
  | fifo =>
    exact fun different =>
      measure_lt_head (inTurn.queued priority) picked member (apart different)
  | lifo =>
    exact fun different =>
      last_lt_measure (inTurn.queued priority) picked member (apart different)
  | random seed =>
    have selects := inTurn.selects_iff rfl live.live (urgent.trans (congrArg some same)) least
    -- the place of the activation is below the bound, so some source draws it
    obtain ⟨bound, _⟩ :=
      List.getElem?_eq_some_iff.mp ((inTurn.getElem?_bucket_eq_some_iff member _).mpr rfl)
    rw [← (inTurn.coherent.perm_peers priority).length_eq, List.length_map] at bound
    exact ⟨selects, _, (selects _).mpr (Draw.Source.below_constantly bound)⟩

/-- An activation that is moved on while it may fire has not been interrupted, so it goes first
although it was moved last. -/
theorem served_in_order_uninterrupted :
    let start : Scheduler Unit := new .fixed .fifo ()
    let watch : Rule Unit := { name := "watch", query := "edges", lifecycle := .default }
    let moves : List (Deed Unit) := [
      .notify ⟨0⟩ [.int 1] .disappeared, .notify ⟨0⟩ [.int 2] .appeared,
      .notify ⟨0⟩ [.int 1] .updated, .notify ⟨0⟩ [.int 1] .fired, .notify ⟨0⟩ [.int 1] .appeared]
    let deeds := moves ++ [.addRule watch]
    let now := start.performAll deeds
    let chosen : Activation := ⟨⟨1⟩, ⟨0⟩, [.int 1], "disappeared", .disappeared⟩
    let other : Activation := ⟨⟨2⟩, ⟨0⟩, [.int 2], "appeared", .appeared⟩
    (now.drawing none).selectNext.2 = some chosen ∧ now.MayFire other watch ∧
    start.waited chosen.id 0 deeds = 3 ∧ start.waited other.id 0 deeds = 2 ∧
    ∃ rule, now.MayFire chosen rule ∧ rule.priority ≤ watch.priority ∧
      (watch.priority = rule.priority →
        start.waited other.id rule.priority deeds < start.waited chosen.id rule.priority deeds) := by
  intro start watch moves deeds now chosen other
  have selected : (now.drawing none).selectNext.2 = some chosen := by decide +kernel
  -- the rule stays what it was, whatever is done later
  have known (moves : List (Deed Unit)) :
      (start.performAll (moves ++ [.addRule watch])).rule? ⟨0⟩ = some watch := by
    have added := inTurn_performAll .fixed .fifo () [.addRule watch]
    have apart : start.performAll (moves ++ [.addRule watch]) =
        (start.performAll [.addRule watch]).performAll moves := List.foldr_append
    rw [apart]
    exact ((evolves_performAll _ moves).follows added.coherent).rules ⟨0⟩ watch rfl
  have waits : now.MayFire other watch := ⟨by decide +kernel, known moves, by decide +kernel⟩
  obtain ⟨rule, mayFire, inOrder⟩ :=
    ((served_in_order .fixed .fifo ()).2 deeds none).2 chosen selected
  obtain ⟨least, longest⟩ := inOrder other watch waits
  exact ⟨selected, waits, by decide +kernel, by decide +kernel, rule, mayFire, least,
    fun same => longest same (by decide)⟩

end Scheduler
end LiveQuery
