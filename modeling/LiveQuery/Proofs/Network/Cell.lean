import LiveQuery.Proofs.Closure.Change
import LiveQuery.Proofs.Checks
import LiveQuery.Proofs.Network.Ledger

/-!
# What a cell has received and sent

`Cell.Holds` says that the memories of a cell hold what the cell has received, and `Cell.sent` is
what it has sent so far, as a function of what it has received.  The main statement is
`receive_spec`: when one more row arrives, the memories follow, and the rows that the cell sends on
lead from what it had sent to what it has sent now.  The only way to fail is a check that fails.
-/

namespace LiveQuery

namespace Cell

/-- Whether rows can arrive on an inlet. -/
def Accepts : Cell → Inlet → Prop
  | .join .., inlet | .antiJoin .., inlet => inlet = .left ∨ inlet = .right
  | .unit _, _ => False
  | _, inlet => inlet = .single

/-- The memories of the cell hold what has been received. -/
def Holds (received : Inlet → Multiset Tuple) : Cell → Prop
  | .join _ _ _ left right =>
    (left.occurrences : Multiset Tuple) = received .left ∧ right.occurrences = received .right
  | .antiJoin _ _ kept blocked =>
    (kept.occurrences : Multiset Tuple) = received .left ∧ blocked.occurrences = received .right
  | .closure _ _ _ state =>
    state.Exact ∧
      (state.edges.occurrences : Multiset _) = (received .single).filterMap Operator.edge?
  | .production produced => (produced.occurrences : Multiset Tuple) = received .single
  | _ => True

/-- What the cell has sent, given what it has received. -/
def sent (truth : CheckId → Tuple → Bool) (received : Inlet → Multiset Tuple) :
    Cell → Multiset Tuple
  | .source _ arity columns equal =>
    (received .single).filterMap (Operator.sourceRow? arity columns equal)
  | .unit row => {row}
  | .filter test => (received .single).filter fun row => test.holds truth row
  | .project columns => (received .single).map (Tuple.project · columns)
  | .join leftKey rightKey output _ _ => (received .left).bind fun row =>
    ((received .right).filter fun other => other.project rightKey = row.project leftKey).map
      (Operator.joinRow output row)
  | .antiJoin _ key _ _ => (received .left).filter fun row => row.project key ∉ received .right
  | .closure _ single swap state => state.pairs.filterMap (Operator.closureRow? single swap)
  | .production _ => (received .single).dedup

/-! ## Memories -/

section Memories

variable {memory : Bag Tuple} {rows : Multiset Tuple} {row : Tuple}

theorem coe_add (holds : (memory.occurrences : Multiset Tuple) = rows) (row : Tuple) :
    ((memory.add row).occurrences : Multiset Tuple) = row ::ₘ rows := by
  rw [← holds]
  rfl

theorem coe_erase (holds : (memory.occurrences : Multiset Tuple) = row ::ₘ rows) :
    ((memory.erase row).occurrences : Multiset Tuple) = rows := by
  simp only [Bag.erase, ← Multiset.coe_erase, holds, Multiset.erase_cons_head]

theorem contains_eq (holds : (memory.occurrences : Multiset Tuple) = rows) (row : Tuple) :
    memory.contains row = decide (row ∈ rows) := by
  rw [Bool.eq_iff_iff, Bag.contains_iff, decide_eq_true_iff, ← holds, Multiset.mem_coe]

theorem presenceOnAdd_eq (holds : (memory.occurrences : Multiset Tuple) = rows) (row : Tuple) :
    memory.presenceOnAdd row = if row ∈ rows then .absorbed else .appeared := by
  simp [Bag.presenceOnAdd, contains_eq holds]

theorem presenceOnErase?_eq (holds : (memory.occurrences : Multiset Tuple) = row ::ₘ rows) :
    memory.presenceOnErase? row =
      some (if row ∈ rows then .absorbed else .disappeared) := by
  have count : memory.count row = rows.count row + 1 := by
    rw [← Multiset.count_cons_self, ← holds, Multiset.coe_count]
    rfl
  by_cases present : row ∈ rows
  · obtain ⟨more, several⟩ := Nat.exists_eq_succ_of_ne_zero (Multiset.count_pos.mpr present).ne'
    simp [Bag.presenceOnErase?, count, several, present]
  · simp [Bag.presenceOnErase?, count, present]

end Memories

theorem remember_spec {memory : Bag Tuple} {before after : Multiset Tuple} {delta : RowDelta}
    (holds : (memory.occurrences : Multiset Tuple) = before) (change : Leads before [delta] after) :
    ∃ changed, remember memory delta = .ok changed ∧
      (changed.occurrences : Multiset Tuple) = after := by
  obtain ⟨kind, row⟩ := delta
  cases kind with
  | insert =>
    obtain rfl := change.of_insert.eq_of_nil
    exact ⟨memory.add row, rfl, coe_add holds row⟩
  | delete =>
    obtain ⟨smaller, rfl, rest⟩ := change.of_delete
    obtain rfl := rest.eq_of_nil
    refine ⟨memory.erase row, ?_, coe_erase holds⟩
    simp [remember, contains_eq holds]

/-- The remembered rows with a key are those of the received rows with that key. -/
theorem coe_matching {memory : Bag Tuple} {rows : Multiset Tuple} (columns : List Nat) (key : Tuple)
    (holds : (memory.occurrences : Multiset Tuple) = rows) :
    (matching memory columns key : Multiset Tuple) =
      rows.filter fun row => row.project columns = key := by
  rw [← holds, Multiset.filter_coe]
  rfl

/-! ## Joins -/

theorem joinLeft_spec {leftKey rightKey : List Nat} {output : List (Side × Nat)}
    {memory : Bag Tuple} {right before after : Multiset Tuple} {delta : RowDelta}
    (holds : (memory.occurrences : Multiset Tuple) = right) (change : Leads before [delta] after) :
    Leads
      (before.bind fun row => (right.filter fun other =>
        other.project rightKey = row.project leftKey).map (Operator.joinRow output row))
      (joinLeft leftKey rightKey output memory delta)
      (after.bind fun row => (right.filter fun other =>
        other.project rightKey = row.project leftKey).map (Operator.joinRow output row)) := by
  have batch := leads_batch change
    (fun rows => rows.bind fun row => (right.filter fun other =>
      other.project rightKey = row.project leftKey).map (Operator.joinRow output row))
    ((matching memory rightKey (delta.row.project leftKey)).map
      (Operator.joinRow output delta.row))
    fun smaller => by
      rw [Multiset.cons_bind, add_comm, ← Multiset.map_coe, coe_matching _ _ holds]
  simpa [joinLeft, Function.comp_def] using batch

theorem joinRight_spec {leftKey rightKey : List Nat} {output : List (Side × Nat)}
    {memory : Bag Tuple} {left before after : Multiset Tuple} {delta : RowDelta}
    (holds : (memory.occurrences : Multiset Tuple) = left) (change : Leads before [delta] after) :
    Leads
      (left.bind fun row => (before.filter fun other =>
        other.project rightKey = row.project leftKey).map (Operator.joinRow output row))
      (joinRight leftKey rightKey output memory delta)
      (left.bind fun row => (after.filter fun other =>
        other.project rightKey = row.project leftKey).map (Operator.joinRow output row)) := by
  have batch := leads_batch change
    (fun rows => left.bind fun row => (rows.filter fun other =>
      other.project rightKey = row.project leftKey).map (Operator.joinRow output row))
    ((matching memory leftKey (delta.row.project rightKey)).map fun other =>
      Operator.joinRow output other delta.row)
    fun smaller => by
      rw [← Multiset.map_coe, coe_matching _ _ holds]
      clear holds change
      -- a row on the left with the key of the new row meets it once
      induction left using Multiset.induction with
      | empty => simp
      | cons row rest ih =>
        rw [Multiset.cons_bind, Multiset.cons_bind, ih, Multiset.filter_cons, Multiset.filter_cons]
        by_cases same : delta.row.project rightKey = row.project leftKey
        · simp [same, add_assoc]
        · simp [same, add_assoc, Ne.symm same]
  simpa [joinRight, Function.comp_def] using batch

/-! ## Anti-joins -/

/-- A fact that was not there takes away the rows with that key, and only those. -/
theorem filter_unblocked {kept blocked : Multiset Tuple} (key : List Nat) {fact : Tuple}
    (absent : fact ∉ blocked) :
    (kept.filter fun row => row.project key ∉ blocked) =
      (kept.filter fun row => row.project key ∉ fact ::ₘ blocked) +
        kept.filter fun row => row.project key = fact := by
  have never : (kept.filter fun row => row.project key ∉ fact ::ₘ blocked ∧
      row.project key = fact) = 0 := by
    rw [Multiset.filter_eq_nil]
    intro row _ found
    obtain ⟨unblocked, rfl⟩ := found
    exact unblocked (Multiset.mem_cons_self _ _)
  calc
    (kept.filter fun row => row.project key ∉ blocked) =
        kept.filter fun row => row.project key ∉ fact ::ₘ blocked ∨ row.project key = fact := by
      refine Multiset.filter_congr ?_
      intro row _
      by_cases same : row.project key = fact
      · simp [same, absent]
      · simp [same]
    _ = (kept.filter fun row => row.project key ∉ fact ::ₘ blocked) +
        kept.filter fun row => row.project key = fact := by
      rw [Multiset.filter_add_filter, never, add_zero]

/-- Further occurrences of a fact change nothing. -/
theorem filter_blocked_again {kept blocked : Multiset Tuple} (key : List Nat) {fact : Tuple}
    (present : fact ∈ blocked) :
    (kept.filter fun row => row.project key ∉ fact ::ₘ blocked) =
      kept.filter fun row => row.project key ∉ blocked := by
  refine Multiset.filter_congr ?_
  intro row _
  rw [Multiset.mem_cons]
  by_cases same : row.project key = fact
  · simp [same, present]
  · simp [same]

theorem block_spec (key : List Nat) {kept blocked : Bag Tuple}
    {left before after : Multiset Tuple} {delta : RowDelta}
    (keptHolds : (kept.occurrences : Multiset Tuple) = left)
    (blockedHolds : (blocked.occurrences : Multiset Tuple) = before)
    (change : Leads before [delta] after) :
    ∃ changed sent, block key kept blocked delta = .ok (changed, sent) ∧
      (changed.occurrences : Multiset Tuple) = after ∧
      Leads (left.filter fun row => row.project key ∉ before) sent
        (left.filter fun row => row.project key ∉ after) := by
  obtain ⟨kind, fact⟩ := delta
  have rows := coe_matching key fact keptHolds
  cases kind with
  | insert =>
    obtain rfl := change.of_insert.eq_of_nil
    have presence := presenceOnAdd_eq blockedHolds fact
    by_cases present : fact ∈ before
    · refine ⟨blocked.add fact, [], ?_, coe_add blockedHolds fact, ?_⟩
      · simp [block, presence, present]
      · rw [filter_blocked_again key present]
        exact .nil _
    · refine ⟨blocked.add fact, (matching kept key fact).map (⟨.delete, ·⟩), ?_,
        coe_add blockedHolds fact, ?_⟩
      · simp [block, presence, present]
      · rw [filter_unblocked key present, ← rows]
        exact leads_deletes _ _
  | delete =>
    obtain ⟨smaller, rfl, rest⟩ := change.of_delete
    obtain rfl := rest.eq_of_nil
    have presence := presenceOnErase?_eq blockedHolds
    by_cases present : fact ∈ smaller
    · refine ⟨blocked.erase fact, [], ?_, coe_erase blockedHolds, ?_⟩
      · simp [block, presence, present]
      · rw [filter_blocked_again key present]
        exact .nil _
    · refine ⟨blocked.erase fact, (matching kept key fact).map (⟨.insert, ·⟩), ?_,
        coe_erase blockedHolds, ?_⟩
      · simp [block, presence, present]
      · rw [filter_unblocked key present, ← rows]
        exact leads_inserts _ _

/-! ## Productions -/

theorem produce_spec {produced : Bag Tuple} {before after : Multiset Tuple} {delta : RowDelta}
    (holds : (produced.occurrences : Multiset Tuple) = before)
    (change : Leads before [delta] after) :
    ∃ changed sent, produce produced delta = .ok (changed, sent) ∧
      (changed.occurrences : Multiset Tuple) = after ∧ Leads before.dedup sent after.dedup := by
  obtain ⟨kind, row⟩ := delta
  cases kind with
  | insert =>
    obtain rfl := change.of_insert.eq_of_nil
    have presence := presenceOnAdd_eq holds row
    -- only the first occurrence of a row is passed on
    by_cases present : row ∈ before
    · refine ⟨produced.add row, [], ?_, coe_add holds row, ?_⟩
      · simp [produce, presence, present]
      · rw [Multiset.dedup_cons_of_mem present]
        exact .nil _
    · refine ⟨produced.add row, [⟨.insert, row⟩], ?_, coe_add holds row, ?_⟩
      · simp [produce, presence, present]
      · rw [Multiset.dedup_cons_of_notMem present]
        exact .insert (.nil _)
  | delete =>
    obtain ⟨smaller, rfl, rest⟩ := change.of_delete
    obtain rfl := rest.eq_of_nil
    have presence := presenceOnErase?_eq holds
    -- and only with its last occurrence it is taken back
    by_cases present : row ∈ smaller
    · refine ⟨produced.erase row, [], ?_, coe_erase holds, ?_⟩
      · simp [produce, presence, present]
      · rw [Multiset.dedup_cons_of_mem present]
        exact .nil _
    · refine ⟨produced.erase row, [⟨.delete, row⟩], ?_, coe_erase holds, ?_⟩
      · simp [produce, presence, present]
      · rw [Multiset.dedup_cons_of_notMem present]
        exact .delete (.nil _)

/-! ## Closures -/

/-- Rows of pairs that a delta reports lead from the old pairs to the new ones. -/
theorem closureRows_spec {before after : Closure Value} {delta : ClosureDelta Value}
    (exactBefore : before.Exact) (exactAfter : after.Exact)
    (reports : Closure.Reports before after delta) (single swap : Bool) :
    Leads (before.pairs.filterMap (Operator.closureRow? single swap))
      (closureRows single swap delta)
      (after.pairs.filterMap (Operator.closureRow? single swap)) := by
  have beforeNodup : (before.pairs ++ delta.appeared).Nodup := by
    refine exactBefore.nodup_pairs.append reports.appearedOnce ?_
    rintro ⟨source, target⟩ old new
    exact ((reports.appeared source target).mp new).2 (exactBefore.mem_pairs.mp old)
  have afterNodup : (after.pairs ++ delta.disappeared).Nodup := by
    refine exactAfter.nodup_pairs.append reports.disappearedOnce ?_
    rintro ⟨source, target⟩ new old
    exact ((reports.disappeared source target).mp old).2 (exactAfter.mem_pairs.mp new)
  -- both lists hold the pairs that are joined before or after
  have same : (before.pairs ++ delta.appeared).Perm (after.pairs ++ delta.disappeared) := by
    rw [List.perm_ext_iff_of_nodup beforeNodup afterNodup]
    intro found
    obtain ⟨source, target⟩ := found
    rw [List.mem_append, List.mem_append, exactBefore.mem_pairs, exactAfter.mem_pairs,
      reports.appeared, reports.disappeared]
    by_cases old : before.Joined source target <;> by_cases new : after.Joined source target <;>
      simp [old, new]
  have rows := Multiset.coe_eq_coe.mpr (same.filterMap (Operator.closureRow? single swap))
  rw [List.filterMap_append, List.filterMap_append, ← Multiset.coe_add, ← Multiset.coe_add] at rows
  have inserts := leads_inserts (before.pairs.filterMap (Operator.closureRow? single swap))
    (delta.appeared.filterMap (Operator.closureRow? single swap))
  rw [rows] at inserts
  exact inserts.append (leads_deletes _ _)

theorem moveEdge_spec {state : Closure Value} {before after : Multiset Tuple} {delta : RowDelta}
    {source target : Value} (exact : state.Exact)
    (holds : (state.edges.occurrences : Multiset _) = before.filterMap Operator.edge?)
    (change : Leads before [delta] after)
    (edge : Operator.edge? delta.row = some (source, target)) :
    ∃ changed moved, moveEdge state delta source target = .ok (changed, moved) ∧ changed.Exact ∧
      (changed.edges.occurrences : Multiset _) = after.filterMap Operator.edge? ∧
      Closure.Reports state changed moved := by
  obtain ⟨kind, row⟩ := delta
  cases kind with
  | insert =>
    obtain rfl := change.of_insert.eq_of_nil
    obtain ⟨exactAfter, edges, reports⟩ := Closure.exact_insertEdge exact source target
    refine ⟨(state.insertEdge source target).1, (state.insertEdge source target).2, rfl, exactAfter,
      ?_, reports⟩
    rw [edges, Multiset.filterMap_cons_some _ _ _ edge, ← holds]
    rfl
  | delete =>
    obtain ⟨smaller, rfl, rest⟩ := change.of_delete
    obtain rfl := rest.eq_of_nil
    rw [Multiset.filterMap_cons_some _ _ _ edge] at holds
    -- the edge that leaves has arrived before
    have present : (source, target) ∈ state.edges.occurrences := by
      rw [← Multiset.mem_coe, holds]
      exact Multiset.mem_cons_self _ _
    cases deleted : state.deleteEdge? source target with
    | none =>
      exact absurd present ((Closure.deleteEdge?_eq_none_iff state source target).mp deleted)
    | some changed =>
      obtain ⟨exactAfter, edges, reports⟩ := Closure.exact_deleteEdge exact deleted
      refine ⟨changed.1, changed.2, ?_, exactAfter, ?_, reports⟩
      · simp [moveEdge, deleted]
      · rw [edges, EdgeGraph.toBag_erase, Bag.erase, ← Multiset.coe_erase, holds,
          Multiset.erase_cons_head]

/-! ## Receiving -/

/-- What the arrival of a row does: the memories follow, the rows sent on lead to what has been sent
now, and nothing but a check can fail. -/
theorem receive_spec {checks : Checks} {truth : CheckId → Tuple → Bool} (agree : checks.Agree truth)
    (label : String) {cell : Cell} {received : Inlet → Multiset Tuple} {inlet : Inlet}
    {delta : RowDelta} {after : Multiset Tuple} (holds : cell.Holds received)
    (accepts : cell.Accepts inlet) (change : Leads (received inlet) [delta] after) :
    Answers (cell.receive checks label inlet delta) fun (changed, rows) =>
      changed.Holds (Function.update received inlet after) ∧
        Leads (cell.sent truth received) rows
          (changed.sent truth (Function.update received inlet after)) := by
  cases cell with
  | source relation arity columns equal =>
    obtain rfl : inlet = .single := accepts
    have batch := change.filterMap (Operator.sourceRow? arity columns equal)
    simp only [receive]
    split
    next row found =>
      refine ⟨trivial, ?_⟩
      simpa [sent, found] using batch
    next found =>
      refine ⟨trivial, ?_⟩
      simpa [sent, found] using batch
  | unit row => exact accepts.elim
  | filter test =>
    obtain rfl : inlet = .single := accepts
    refine (test.passes_spec agree label delta.row).bind ?_
    rintro _ rfl
    refine ⟨trivial, ?_⟩
    simpa [sent] using change.filter fun row => test.holds truth row = true
  | project columns =>
    obtain rfl : inlet = .single := accepts
    refine ⟨trivial, ?_⟩
    simpa [sent] using change.map (Tuple.project · columns)
  | join leftKey rightKey output left right =>
    obtain ⟨leftHolds, rightHolds⟩ := holds
    -- a row from one side meets what is remembered of the other side
    rcases accepts with rfl | rfl
    · obtain ⟨changed, remembered, changedHolds⟩ := remember_spec leftHolds change
      refine Answers.of_eq (congrArg (· >>= _) remembered) ⟨⟨?_, ?_⟩, ?_⟩
      · simpa using changedHolds
      · simpa using rightHolds
      · simpa [sent] using joinLeft_spec rightHolds change
    · obtain ⟨changed, remembered, changedHolds⟩ := remember_spec rightHolds change
      refine Answers.of_eq (congrArg (· >>= _) remembered) ⟨⟨?_, ?_⟩, ?_⟩
      · simpa using leftHolds
      · simpa using changedHolds
      · simpa [sent] using joinRight_spec leftHolds change
  | antiJoin relation key kept blocked =>
    obtain ⟨keptHolds, blockedHolds⟩ := holds
    rcases accepts with rfl | rfl
    · obtain ⟨changed, remembered, changedHolds⟩ := remember_spec keptHolds change
      have known : blocked.contains (delta.row.project key) =
          decide (delta.row.project key ∈ received .right) := contains_eq blockedHolds _
      refine Answers.of_eq (congrArg (· >>= _) remembered) ⟨⟨?_, ?_⟩, ?_⟩
      · simpa using changedHolds
      · simpa using blockedHolds
      · simpa [sent, known] using change.filter fun row => row.project key ∉ received .right
    · obtain ⟨changed, rows, answered, changedHolds, leads⟩ :=
        block_spec key keptHolds blockedHolds change
      refine Answers.of_eq (congrArg (· >>= _) answered) ⟨⟨?_, ?_⟩, ?_⟩
      · simpa using keptHolds
      · simpa using changedHolds
      · simpa [sent] using leads
  | closure relation single swap state =>
    obtain rfl : inlet = .single := accepts
    obtain ⟨exact, edges⟩ := holds
    simp only [receive]
    split
    next edge =>
      -- a fact that is no edge changes neither side
      refine ⟨⟨exact, ?_⟩, .nil _⟩
      rw [Function.update_self, edges]
      rcases change.single with rfl | same
      · rw [Multiset.filterMap_cons_none _ _ edge]
      · rw [same, Multiset.filterMap_cons_none _ _ edge]
    next source target edge =>
      obtain ⟨changed, moved, answered, exactAfter, changedEdges, reports⟩ :=
        moveEdge_spec exact edges change edge
      refine Answers.of_eq (congrArg (· >>= _) answered) ⟨⟨exactAfter, ?_⟩, ?_⟩
      · simpa using changedEdges
      · simpa [sent] using closureRows_spec exact exactAfter reports single swap
  | production produced =>
    obtain rfl : inlet = .single := accepts
    obtain ⟨changed, rows, answered, changedHolds, leads⟩ := produce_spec holds change
    refine Answers.of_eq (congrArg (· >>= _) answered) ⟨?_, ?_⟩
    · simpa [Holds] using changedHolds
    · simpa [sent] using leads

end Cell
end LiveQuery
