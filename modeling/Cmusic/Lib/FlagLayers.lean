import Cmusic.Lib.PlainMap
import Cmusic.Lib.Table

/-! A set kept in two layers of dirty sets over a table. A mark is one of two commands, `on` and
`off`; undoing a command has the effect of the other one. -/

open Std DirtyPair

namespace FlagLayers

variable {κ η τ : Type} {cmp : κ → κ → Ordering} [DecidableEq η] [DecidableEq τ]

/-- What the dirty sets and the table below them say about a key. -/
def holds (on off : τ) (d : DirtyPair κ τ cmp) (t : Table κ η Unit cmp) (k : κ) : Bool :=
  ((d.marks k).value (fun v => decide (v = on)) fun v => decide (v = off)).getD t.db[k]?.isSome

/-- The two layers refine a plain map; the marks are commands for keys in use, and the cached rows
are those of the table. -/
structure Inv (rowKey : κ → η) (K : κ → Prop) (on off : τ) (upper lower : DirtyPair κ τ cmp)
    (t : Table κ η Unit cmp) (m : PlainMap κ Bool) : Prop where
  refines : PlainMap.Refines (fun v => decide (v = on)) (fun v => decide (v = off))
    (fun k => t.db[k]?.isSome) upper lower m
  upperKeys : upper.All fun k v => K k ∧ (v = on ∨ v = off)
  lowerKeys : lower.All fun k v => K k ∧ (v = on ∨ v = off)
  coherent : Table.Coherent rowKey K t

/-- How a dump writes the commands: a command sets its row, and undoing it the opposite. -/
structure Writes (rowKey : κ → η) (on off : τ)
    (onAdd onRemove : Table κ η Unit cmp → κ → τ → Table κ η Unit cmp) : Prop where
  add_on : ∀ t k, onAdd t k on = t.write rowKey k ()
  add_off : ∀ t k, onAdd t k off = t.erase rowKey k
  remove_on : ∀ t k, onRemove t k on = t.erase rowKey k
  remove_off : ∀ t k, onRemove t k off = t.write rowKey k ()

variable [TransCmp cmp] [LawfulEqCmp cmp] {rowKey : κ → η} {K : κ → Prop} {on off : τ}
  {upper lower : DirtyPair κ τ cmp} {t : Table κ η Unit cmp} {m : PlainMap κ Bool} {k : κ}
  {onAdd onRemove : Table κ η Unit cmp → κ → τ → Table κ η Unit cmp}

omit [LawfulEqCmp cmp] in
theorem inv_empty (maxSize : Nat) :
    Inv rowKey K on off ({} : DirtyPair κ τ cmp) {} { cache := { maxSize } }
      (PlainMap.const false) where
  refines := by
    refine ⟨fun k => ?_, fun k => ?_⟩
    · rw [marks_empty]
      rfl
    · rw [marks_empty]
      simp [DirtyPair.Marks.value, PlainMap.const]
  upperKeys := all_empty
  lowerKeys := all_empty
  coherent := Table.coherent_empty maxSize

/-- A command sets its key, its undoing sets it the other way. -/
theorem Inv.putAdd [DecidableEq κ] (h : Inv rowKey K on off upper lower t m) (hne : on ≠ off)
    (hk : K k) (b : Bool) :
    Inv rowKey K on off (upper.putAdd k (if b then on else off)) lower t (m.write k b) := by
  have hv : decide ((if b then on else off) = on) = b := by cases b <;> simp [hne.symm]
  have hr := h.refines.putAdd k (if b then on else off)
  rw [hv] at hr
  exact ⟨hr, h.upperKeys.putAdd ⟨hk, by cases b <;> simp⟩, h.lowerKeys, h.coherent⟩

theorem Inv.putRemove [DecidableEq κ] (h : Inv rowKey K on off upper lower t m) (hne : on ≠ off)
    (hk : K k) (b : Bool) :
    Inv rowKey K on off (upper.putRemove k (if b then on else off)) lower t (m.write k !b) := by
  have hv : decide ((if b then on else off) = off) = !b := by cases b <;> simp [hne]
  have hr := h.refines.putRemove k (if b then on else off)
  rw [hv] at hr
  exact ⟨hr, h.upperKeys.putRemove ⟨hk, by cases b <;> simp⟩, h.lowerKeys, h.coherent⟩

theorem Inv.flush (h : Inv rowKey K on off upper lower t m) :
    Inv rowKey K on off upper (upper.putFlush lower) t m.flush :=
  ⟨h.refines.flush, h.upperKeys, h.upperKeys.putFlush h.lowerKeys, h.coherent⟩

omit [LawfulEqCmp cmp] in
theorem Inv.discard (h : Inv rowKey K on off upper lower t m) :
    Inv rowKey K on off {} lower t m.discard :=
  ⟨h.refines.discard, all_empty, h.lowerKeys, h.coherent⟩

omit [TransCmp cmp] [LawfulEqCmp cmp] in
theorem Inv.load (h : Inv rowKey K on off upper lower t m) {t' : Table κ η Unit cmp}
    (hdb : t'.db = t.db) (hc : Table.Coherent rowKey K t') :
    Inv rowKey K on off upper lower t' m := by
  refine ⟨⟨h.refines.pending, fun k => ?_⟩, h.upperKeys, h.lowerKeys, hc⟩
  rw [hdb]
  exact h.refines.flushed k

/-- The row of a key after a dump. -/
theorem isSome_replay (hwr : Writes rowKey on off onAdd onRemove) (hne : on ≠ off)
    (hke : lower.All fun k v => K k ∧ (v = on ∨ v = off)) (k : κ) :
    (lower.replay onAdd onRemove t).db[k]?.isSome = holds on off lower t k := by
  have ha : ∀ (t : Table κ η Unit cmp) (v : τ), (lower.marks k).added = some v →
      (onAdd t k v).db[k]?.isSome = decide (v = on) := by
    intro t v hv
    rcases (hke k v (Or.inl hv)).2 with rfl | rfl
    · simp [hwr.add_on, Table.write]
    · simp [hwr.add_off, Table.erase, hne.symm]
  have hr : ∀ (t : Table κ η Unit cmp) (v : τ), (lower.marks k).removed = some v →
      (onRemove t k v).db[k]?.isSome = decide (v = off) := by
    intro t v hv
    rcases (hke k v (Or.inr hv)).2 with rfl | rfl
    · simp [hwr.remove_on, Table.erase, hne]
    · simp [hwr.remove_off, Table.write]
  have hw : ∀ (t : Table κ η Unit cmp) (n : κ), n ≠ k →
      (t.write rowKey n ()).db[k]?.isSome = t.db[k]?.isSome := by
    intro t n hn
    have hc : ¬cmp n k = .eq := fun heq => hn (LawfulEqCmp.eq_of_compare heq)
    simp [Table.write, TreeMap.getElem?_insert, hc]
  have he : ∀ (t : Table κ η Unit cmp) (n : κ), n ≠ k →
      (t.erase rowKey n).db[k]?.isSome = t.db[k]?.isSome := by
    intro t n hn
    rw [Table.erase, getElem?_erase_ne hn]
  have hre := lower.observe_replay (fun t : Table κ η Unit cmp => t.db[k]?.isSome) k
    (fun _ v => decide (v = on)) (fun _ v => decide (v = off)) ha
    (fun t n v hv hn => by
      rcases (hke n v (Or.inl hv)).2 with rfl | rfl
      · rw [hwr.add_on, hw t n hn]
      · rw [hwr.add_off, he t n hn]) hr
    (fun t n v hv hn => by
      rcases (hke n v (Or.inr hv)).2 with rfl | rfl
      · rw [hwr.remove_on, he t n hn]
      · rw [hwr.remove_off, hw t n hn]) t
  rw [hre, holds, DirtyPair.Marks.value]
  cases (lower.marks k).removed with
  | some v => rfl
  | none => cases (lower.marks k).added <;> rfl

omit [DecidableEq τ] in
theorem coherent_replay (hw : Writes rowKey on off onAdd onRemove)
    (hke : lower.All fun k v => K k ∧ (v = on ∨ v = off)) (h : Table.Coherent rowKey K t) :
    Table.Coherent rowKey K (lower.replay onAdd onRemove t) := by
  refine replay_invariant (Table.Coherent rowKey K) lower h ?_ ?_
  · intro t k v hv ht
    obtain ⟨hk, rfl | rfl⟩ := hke k v (Or.inl hv)
    · rw [hw.add_on]
      exact Table.coherent_write ht hk ()
    · rw [hw.add_off]
      exact Table.coherent_erase ht
  · intro t k v hv ht
    obtain ⟨hk, rfl | rfl⟩ := hke k v (Or.inr hv)
    · rw [hw.remove_on]
      exact Table.coherent_erase ht
    · rw [hw.remove_off]
      exact Table.coherent_write ht hk ()

theorem Inv.dump (h : Inv rowKey K on off upper lower t m) (hne : on ≠ off)
    (hw : Writes rowKey on off onAdd onRemove) :
    Inv rowKey K on off upper {} (lower.replay onAdd onRemove t) m :=
  ⟨h.refines.dump (isSome_replay hw hne h.lowerKeys), h.upperKeys, all_empty,
    coherent_replay hw h.lowerKeys h.coherent⟩

omit [TransCmp cmp] [LawfulEqCmp cmp] in
/-- What is found through the lower layer is what is in force. -/
theorem Inv.holds_eq (h : Inv rowKey K on off upper lower t m) (k : κ) :
    holds on off lower t k = m.flushed k :=
  h.refines.flushed k

end FlagLayers
