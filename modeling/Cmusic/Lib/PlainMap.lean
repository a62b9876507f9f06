import Cmusic.Lib.DirtyPair

/-! A map with pending writes, and what it takes for two layers of dirty sets to refine it. -/

open Std DirtyPair

/-- The values in force, and the writes that are not in force yet. -/
structure PlainMap (κ α : Type) where
  pending : κ → Option α
  flushed : κ → α

namespace PlainMap

variable {κ α : Type}

/-- The map that has one value everywhere. -/
def const (a : α) : PlainMap κ α := ⟨fun _ => none, fun _ => a⟩

def write [DecidableEq κ] (m : PlainMap κ α) (k : κ) (a : α) : PlainMap κ α :=
  { m with pending := Function.update m.pending k (some a) }

def flush (m : PlainMap κ α) : PlainMap κ α :=
  { m with flushed := fun k => (m.pending k).getD (m.flushed k) }

def discard (m : PlainMap κ α) : PlainMap κ α := { m with pending := fun _ => none }

/-- The values of another map, in force and pending alike. -/
def map {β : Type} (f : α → β) (m : PlainMap κ α) : PlainMap κ β :=
  ⟨fun k => (m.pending k).map f, fun k => f (m.flushed k)⟩

theorem map_write {β : Type} [DecidableEq κ] (f : α → β) (m : PlainMap κ α) (k : κ) (a : α) :
    (m.write k a).map f = (m.map f).write k (f a) := by
  unfold PlainMap.map PlainMap.write
  congr 1
  funext n
  by_cases hn : n = k
  · subst hn
    simp
  · simp [hn]

theorem map_flush {β : Type} (f : α → β) (m : PlainMap κ α) : m.flush.map f = (m.map f).flush := by
  unfold PlainMap.map PlainMap.flush
  congr 1
  funext k
  cases hk : m.pending k <;> simp [hk]

section Refinement

variable {ν : Type} {cmp : κ → κ → Ordering} [TransCmp cmp] [LawfulEqCmp cmp]

/-- The upper dirty sets hold the pending writes, and the lower ones over the values below them the
values in force. -/
structure Refines (added removed : ν → α) (below : κ → α) (upper lower : DirtyPair κ ν cmp)
    (m : PlainMap κ α) : Prop where
  pending : ∀ k, (upper.marks k).value added removed = m.pending k
  flushed : ∀ k, ((lower.marks k).value added removed).getD (below k) = m.flushed k

variable {added removed : ν → α} {below : κ → α} {upper upper' lower : DirtyPair κ ν cmp}
  {m : PlainMap κ α}

omit [TransCmp cmp] [LawfulEqCmp cmp] in
/-- An operation of the upper layer writes where it changes what the marks of a key say. -/
theorem Refines.write [DecidableEq κ] (h : Refines added removed below upper lower m) {k : κ} {a : α}
    (hse : (upper'.marks k).value added removed = some a)
    (ho : ∀ n, k ≠ n → upper'.marks n = upper.marks n) :
    Refines added removed below upper' lower (m.write k a) where
  pending n := by
    by_cases hn : n = k
    · subst hn
      simpa [PlainMap.write] using hse
    · rw [ho n (Ne.symm hn), h.pending]
      simp [PlainMap.write, hn]
  flushed := h.flushed

theorem Refines.putAdd [DecidableEq κ] (h : Refines added removed below upper lower m) (k : κ)
    (v : ν) : Refines added removed below (upper.putAdd k v) lower (m.write k (added v)) :=
  h.write (by rw [marks_putAdd_self]; rfl)
    fun _ hn => marks_putAdd_ne hn upper v

theorem Refines.putRemove [DecidableEq κ] (h : Refines added removed below upper lower m) (k : κ)
    (v : ν) : Refines added removed below (upper.putRemove k v) lower (m.write k (removed v)) :=
  h.write (by rw [marks_putRemove_self]; rfl)
    fun _ hn => marks_putRemove_ne hn upper v

theorem Refines.flush (h : Refines added removed below upper lower m) :
    Refines added removed below upper (upper.putFlush lower) m.flush where
  pending := h.pending
  flushed k := by
    have hk := h.flushed k
    rw [marks_putFlush, DirtyPair.Marks.value_onto, h.pending]
    cases hp : m.pending k <;> simp [PlainMap.flush, hp, hk]

omit [LawfulEqCmp cmp] in
theorem Refines.discard (h : Refines added removed below upper lower m) :
    Refines added removed below {} lower m.discard where
  pending k := by rw [marks_empty]; rfl
  flushed := h.flushed

omit [LawfulEqCmp cmp] in
/-- The lower layer may be written to the values below it. -/
theorem Refines.dump {below' : κ → α} (h : Refines added removed below upper lower m)
    (hb : ∀ k, below' k = ((lower.marks k).value added removed).getD (below k)) :
    Refines added removed below' upper {} m where
  pending := h.pending
  flushed k := by
    rw [marks_empty, ← h.flushed k, ← hb k]
    rfl

end Refinement

end PlainMap
