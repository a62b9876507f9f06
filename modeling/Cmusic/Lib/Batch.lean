import Mathlib.Logic.Function.Basic
import Mathlib.Data.List.Basic

/-! Batches of writes to a table, and how one batch takes another one back. -/
namespace Batch

variable {κ ν : Type} [DecidableEq κ]

/-- The rows after a batch. The last write of a row counts; one without a value erases the row. -/
def write (rows : κ → Option ν) (ops : List (κ × Option ν)) : κ → Option ν :=
  ops.foldl (fun rows op => Function.update rows op.1 op.2) rows

variable {rows : κ → Option ν} {ops undo : List (κ × Option ν)} {k : κ}

theorem write_cons (op : κ × Option ν) :
    write rows (op :: ops) = write (Function.update rows op.1 op.2) ops := rfl

theorem write_append : write rows (ops ++ undo) = write (write rows ops) undo :=
  List.foldl_append

theorem write_of_notMem (h : k ∉ ops.map Prod.fst) : write rows ops k = rows k := by
  induction ops generalizing rows with
  | nil => rfl
  | cons op ops ih =>
    rw [List.map_cons, List.mem_cons, not_or] at h
    rw [write_cons, ih h.2, Function.update_of_ne h.1]

/-- A row that is written has the value of one of the writes. -/
theorem exists_of_write (h : k ∈ ops.map Prod.fst) : ∃ op ∈ ops, op.1 = k ∧ write rows ops k = op.2 := by
  induction ops generalizing rows with
  | nil => cases h
  | cons op ops ih =>
    rw [write_cons]
    by_cases hl : k ∈ ops.map Prod.fst
    · obtain ⟨last, hla, hkey, hv⟩ := @ih (Function.update rows op.1 op.2) hl
      exact ⟨last, List.mem_cons_of_mem op hla, hkey, hv⟩
    · obtain rfl : k = op.1 := (List.mem_cons.1 h).resolve_right hl
      exact ⟨op, List.mem_cons_self, rfl, by rw [write_of_notMem hl, Function.update_self]⟩

/-- What all writes of a row agree on. -/
theorem write_of_forall {v : Option ν} (hm : k ∈ ops.map Prod.fst)
    (h : ∀ op ∈ ops, op.1 = k → op.2 = v) : write rows ops k = v := by
  obtain ⟨op, hop, hkey, hv⟩ := @exists_of_write κ ν _ rows ops k hm
  exact hv.trans (h op hop hkey)

/-- A batch that writes every changed row back to what it was. -/
theorem write_write_eq (hu : ∀ op ∈ undo, op.2 = rows op.1)
    (hc : ∀ op ∈ ops, op.1 ∈ undo.map Prod.fst) : write (write rows ops) undo = rows := by
  funext k
  by_cases hk : k ∈ undo.map Prod.fst
  · exact write_of_forall hk fun op hop hkey => hkey ▸ hu op hop
  · rw [write_of_notMem hk, write_of_notMem]
    intro hm
    obtain ⟨op, hop, rfl⟩ := List.mem_map.1 hm
    exact hk (hc op hop)

/-- Steps of a batch and of the batch that undoes it, each of which is taken back on its own. -/
def Undone (rows : κ → Option ν) : List (List (κ × Option ν) × List (κ × Option ν)) → Prop
  | [] => True
  | step :: steps => write (write rows step.1) step.2 = rows ∧ Undone (write rows step.1) steps

/-- The steps are undone from the last to the first. -/
theorem Undone.write_reverse {steps : List (List (κ × Option ν) × List (κ × Option ν))}
    (h : Undone rows steps) :
    write (write rows (steps.flatMap Prod.fst)) (steps.reverse.flatMap Prod.snd) = rows := by
  induction steps generalizing rows with
  | nil => rfl
  | cons step steps ih =>
    rw [List.flatMap_cons, List.reverse_cons, List.flatMap_append, write_append, write_append,
      ih h.2, List.flatMap_singleton]
    exact h.1

end Batch
