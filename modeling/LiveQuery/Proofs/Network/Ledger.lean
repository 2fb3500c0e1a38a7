import Mathlib.Data.Multiset.Bind
import Mathlib.Data.Multiset.Filter
import Mathlib.Algebra.Order.Group.Multiset
import LiveQuery.Network.Node

/-!
# Row changes on collections

Rows are counted: what a node has received or sent is a multiset.  `Leads before deltas after` says
that a sequence of row changes turns one multiset into another without ever taking away a row that
is not there.  The lemmas follow the ways in which nodes answer a change: one row at a time
(`Leads.filterMap`, `Leads.map`, `Leads.filter`), a batch of rows of one kind (`leads_inserts`,
`leads_deletes`), and the copies that several inputs of one node receive (`Leads.copies`).
-/

namespace LiveQuery

/-- The row changes turn the first collection into the second, and every row that leaves is there.
-/
inductive Leads : Multiset Tuple → List RowDelta → Multiset Tuple → Prop where
  | nil (rows : Multiset Tuple) : Leads rows [] rows
  | insert {row : Tuple} {rows after : Multiset Tuple} {deltas : List RowDelta}
      (rest : Leads (row ::ₘ rows) deltas after) : Leads rows (⟨.insert, row⟩ :: deltas) after
  | delete {row : Tuple} {rows after : Multiset Tuple} {deltas : List RowDelta}
      (rest : Leads rows deltas after) : Leads (row ::ₘ rows) (⟨.delete, row⟩ :: deltas) after

namespace Leads

variable {before middle after : Multiset Tuple} {first second deltas : List RowDelta}

theorem eq_of_nil (leads : Leads before [] after) : before = after := by
  cases leads
  rfl

theorem of_insert {row : Tuple} (leads : Leads before (⟨.insert, row⟩ :: deltas) after) :
    Leads (row ::ₘ before) deltas after := by
  cases leads with
  | insert rest => exact rest

theorem of_delete {row : Tuple} (leads : Leads before (⟨.delete, row⟩ :: deltas) after) :
    ∃ smaller, before = row ::ₘ smaller ∧ Leads smaller deltas after := by
  cases leads with
  | delete rest => exact ⟨_, rfl, rest⟩

theorem append (left : Leads before first middle) (right : Leads middle second after) :
    Leads before (first ++ second) after := by
  induction left with
  | nil => exact right
  | insert _ ih => exact .insert (ih right)
  | delete _ ih => exact .delete (ih right)

/-- Every sequence can be cut after its first change. -/
theorem uncons {delta : RowDelta} (leads : Leads before (delta :: deltas) after) :
    ∃ middle, Leads before [delta] middle ∧ Leads middle deltas after := by
  cases leads with
  | insert rest => exact ⟨_, .insert (.nil _), rest⟩
  | delete rest => exact ⟨_, .delete (.nil _), rest⟩

theorem single {delta : RowDelta} (change : Leads before [delta] after) :
    after = delta.row ::ₘ before ∨ before = delta.row ::ₘ after := by
  cases change with
  | insert rest => exact .inl rest.eq_of_nil.symm
  | delete rest => exact .inr (congrArg _ rest.eq_of_nil)

/-- A change that leads to certain rows only leads there from certain rows. -/
theorem eq_of_single {other : Multiset Tuple} {delta : RowDelta}
    (change : Leads before [delta] after) (again : Leads other [delta] after) : before = other := by
  cases change with
  | insert rest =>
    cases again with
    | insert again =>
      exact (Multiset.cons_inj_right _).mp (rest.eq_of_nil.trans again.eq_of_nil.symm)
  | delete rest =>
    cases again with
    | delete again => exact congrArg _ (rest.eq_of_nil.trans again.eq_of_nil.symm)

/-- Rows beside those that change do not matter. -/
theorem add_right (leads : Leads before deltas after) (others : Multiset Tuple) :
    Leads (before + others) deltas (after + others) := by
  induction leads with
  | nil => exact .nil _
  | insert _ ih =>
    refine .insert ?_
    rwa [← Multiset.cons_add]
  | delete _ ih =>
    rw [Multiset.cons_add]
    exact .delete ih

end Leads

/-! ## Batches of one kind -/

theorem leads_inserts (before : Multiset Tuple) (rows : List Tuple) :
    Leads before (rows.map (⟨.insert, ·⟩)) (before + rows) := by
  induction rows generalizing before with
  | nil => simpa using Leads.nil before
  | cons row rest ih =>
    refine .insert ?_
    have later := ih (row ::ₘ before)
    rwa [Multiset.cons_add, ← Multiset.add_cons] at later

theorem leads_deletes (after : Multiset Tuple) (rows : List Tuple) :
    Leads (after + rows) (rows.map (⟨.delete, ·⟩)) after := by
  induction rows with
  | nil => simpa using Leads.nil after
  | cons row rest ih =>
    rw [← Multiset.cons_coe, Multiset.add_cons]
    exact .delete ih

/-- A batch that follows the kind of one change. -/
theorem leads_batch {kind : ChangeKind} {row : Tuple} {before after : Multiset Tuple}
    (change : Leads before [⟨kind, row⟩] after) (batch : Multiset Tuple → Multiset Tuple)
    (rows : List Tuple) (grows : ∀ smaller, batch (row ::ₘ smaller) = batch smaller + rows) :
    Leads (batch before) (rows.map (⟨kind, ·⟩)) (batch after) := by
  cases kind with
  | insert =>
    obtain rfl := change.of_insert.eq_of_nil
    rw [grows before]
    exact leads_inserts _ _
  | delete =>
    obtain ⟨smaller, rfl, rest⟩ := change.of_delete
    obtain rfl := rest.eq_of_nil
    rw [grows smaller]
    exact leads_deletes _ _

/-! ## Rows that are answered one by one -/

theorem Leads.filterMap {before after : Multiset Tuple} {delta : RowDelta}
    (change : Leads before [delta] after) (answer : Tuple → Option Tuple) :
    Leads (before.filterMap answer) ((answer delta.row).toList.map (⟨delta.kind, ·⟩))
      (after.filterMap answer) := by
  refine leads_batch change (fun rows => rows.filterMap answer) _ ?_
  intro smaller
  cases found : answer delta.row with
  | none => simp [Multiset.filterMap_cons_none _ _ found]
  | some row =>
    rw [Multiset.filterMap_cons_some _ _ _ found, Option.toList_some, Multiset.coe_singleton,
      add_comm, Multiset.singleton_add]

theorem Leads.map {before after : Multiset Tuple} {delta : RowDelta}
    (change : Leads before [delta] after) (answer : Tuple → Tuple) :
    Leads (before.map answer) [⟨delta.kind, answer delta.row⟩] (after.map answer) := by
  refine leads_batch change (fun rows => rows.map answer) [answer delta.row] ?_
  intro smaller
  rw [Multiset.map_cons, Multiset.coe_singleton, add_comm, Multiset.singleton_add]

theorem Leads.filter {before after : Multiset Tuple} {delta : RowDelta}
    (change : Leads before [delta] after) (test : Tuple → Prop) [DecidablePred test] :
    Leads (before.filter test) (if test delta.row then [delta] else []) (after.filter test) := by
  by_cases passed : test delta.row
  · rw [if_pos passed]
    refine leads_batch change (fun rows => rows.filter test) [delta.row] ?_
    intro smaller
    rw [Multiset.filter_cons_of_pos _ passed, Multiset.coe_singleton, add_comm,
      Multiset.singleton_add]
  · rw [if_neg passed]
    refine leads_batch change (fun rows => rows.filter test) [] ?_
    intro smaller
    rw [Multiset.filter_cons_of_neg _ passed, Multiset.coe_nil, add_zero]

theorem nsmul_cons (count : ℕ) (row : Tuple) (rows : Multiset Tuple) :
    count • rows + (List.replicate count row : Multiset Tuple) = count • (row ::ₘ rows) :=
  calc
    count • rows + (List.replicate count row : Multiset Tuple) =
        count • rows + count • ({row} : Multiset Tuple) := by
      rw [Multiset.coe_replicate, Multiset.nsmul_singleton]
    _ = count • (row ::ₘ rows) := by
      rw [← nsmul_add, add_comm, Multiset.singleton_add]

/-- Several inputs that bring the same changes. -/
theorem Leads.copies {before after : Multiset Tuple} {deltas : List RowDelta}
    (leads : Leads before deltas after) (count : ℕ) :
    Leads (count • before) (deltas.flatMap (List.replicate count)) (count • after) := by
  induction leads with
  | nil => exact .nil _
  | @insert row rows _ _ _ ih =>
    have copies := leads_inserts (count • rows) (List.replicate count row)
    rw [List.map_replicate, nsmul_cons] at copies
    exact copies.append ih
  | @delete row rows _ _ _ ih =>
    have copies := leads_deletes (count • rows) (List.replicate count row)
    rw [List.map_replicate, nsmul_cons] at copies
    exact copies.append ih

end LiveQuery
