import Mathlib.Logic.Basic
import Mathlib.Data.Option.Basic

/-! One key of a write-back cache: what is seen through the cache, when its two flags are right, and
what is left of the key where a child cache is written over it. -/
namespace WriteBack

/-- What a cache holds for a key; a key without a value is one that has been deleted. -/
structure Cell (ν : Type) where
  value : Option ν
  dirty : Bool
  fresh : Bool

variable {ν : Type} {parent : Option ν} {ours : Option (Cell ν)} {cell theirs : Cell ν}

/-- The value seen through a cache over a parent. -/
def shown (parent : Option ν) : Option (Cell ν) → Option ν
  | none => parent
  | some cell => cell.value

@[simp] theorem shown_none : shown parent none = parent := rfl

@[simp] theorem shown_some : shown parent (some cell) = cell.value := rfl

/-- A clean cell repeats the parent, and a fresh one has nothing below it. -/
structure Sound (parent : Option ν) (ours : Option (Cell ν)) : Prop where
  clean : ∀ cell, ours = some cell → cell.dirty = false → cell.value = parent
  fresh : ∀ cell, ours = some cell → cell.fresh = true → parent = none

theorem sound_none : Sound parent none where
  clean _ h := by cases h
  fresh _ h := by cases h

theorem sound_of_dirty (hd : cell.dirty = true) (hf : cell.fresh = true → parent = none) :
    Sound parent (some cell) where
  clean c h hc := by
    cases h
    rw [hd] at hc
    cases hc
  fresh c h := by
    cases h
    exact hf

/-- The cell of a value that was read from the parent. -/
theorem sound_of_read (hv : cell.value = parent) (hf : cell.fresh = true → parent = none) :
    Sound parent (some cell) where
  clean c h _ := by
    cases h
    exact hv
  fresh c h := by
    cases h
    exact hf

/-- Forgetting a clean cell changes nothing that is seen. -/
theorem Sound.shown_of_clean (h : Sound parent (some cell)) (hc : cell.dirty = false) :
    shown parent (some cell) = parent :=
  h.clean cell rfl hc

/-- The cell of a cache after that of a child is written over it. Nothing is returned where the child
calls a value fresh that this cache has. -/
def merge (ours : Option (Cell ν)) (theirs : Cell ν) : Option (Option (Cell ν)) :=
  if !theirs.dirty then some ours
  else
    match ours with
    | none =>
      if theirs.fresh && theirs.value.isNone then some none
      else some (some ⟨theirs.value, true, theirs.fresh⟩)
    | some cell =>
      if theirs.fresh && cell.value.isSome then none
      else if cell.fresh && theirs.value.isNone then some none
      else some (some ⟨theirs.value, true, cell.fresh⟩)

/-- Writing a child down shows what the child showed, and the flags stay right. -/
theorem Sound.merge (h : Sound parent ours)
    (hfr : theirs.dirty = true → theirs.fresh = true → shown parent ours = none) :
    ∃ merged, WriteBack.merge ours theirs = some merged ∧ Sound parent merged ∧
      shown parent merged = if theirs.dirty then theirs.value else shown parent ours := by
  unfold WriteBack.merge
  cases hdi : theirs.dirty with
  | false => exact ⟨ours, rfl, h, rfl⟩
  | true =>
    replace hfr := hfr hdi
    cases ours with
    | none =>
      by_cases hd : (theirs.fresh && theirs.value.isNone) = true
      · refine ⟨none, by simp only [hd]; rfl, sound_none, ?_⟩
        simp only [Bool.and_eq_true, Option.isNone_iff_eq_none] at hd
        rw [if_pos rfl, hd.2]
        exact hfr hd.1
      · refine ⟨some ⟨theirs.value, true, theirs.fresh⟩, ?_, sound_of_dirty rfl hfr, rfl⟩
        simp only [Bool.not_true, Bool.false_eq_true, if_false, if_neg hd]
    | some cell =>
      -- what the child calls fresh is deleted here, so that the misapplied flag cannot occur
      have hr : ¬(theirs.fresh && cell.value.isSome) = true := by
        rw [Bool.and_eq_true, Option.isSome_iff_exists]
        rintro ⟨hf, v, hv⟩
        rw [shown_some, hv] at hfr
        cases hfr hf
      by_cases hd : (cell.fresh && theirs.value.isNone) = true
      · refine ⟨none, by simp only [hr, hd]; rfl, sound_none, ?_⟩
        simp only [Bool.and_eq_true, Option.isNone_iff_eq_none] at hd
        rw [if_pos rfl, hd.2]
        exact h.fresh cell rfl hd.1
      · refine ⟨some ⟨theirs.value, true, cell.fresh⟩, ?_, sound_of_dirty rfl (h.fresh cell rfl), rfl⟩
        simp only [Bool.not_true, Bool.false_eq_true, if_false, if_neg hr, if_neg hd]

section Keys

variable {σ κ γ β : Type} {step : σ → κ × γ → Option σ} {obs : σ → κ → β} {P : κ → γ → β → Prop}
  {R : κ → γ → β → β → Prop}

/-- A fold over distinct keys whose steps touch their own key only: every step finds its key as it was
at the start. -/
theorem foldlM_distinct
    (hstep : ∀ s item, P item.1 item.2 (obs s item.1) → ∃ s', step s item = some s' ∧
      R item.1 item.2 (obs s item.1) (obs s' item.1) ∧ ∀ k, k ≠ item.1 → obs s' k = obs s k)
    {items : List (κ × γ)} (hn : (items.map Prod.fst).Nodup) {s : σ}
    (h : ∀ item ∈ items, P item.1 item.2 (obs s item.1)) :
    ∃ s', items.foldlM step s = some s' ∧
      (∀ item ∈ items, R item.1 item.2 (obs s item.1) (obs s' item.1)) ∧
      ∀ k, k ∉ items.map Prod.fst → obs s' k = obs s k := by
  induction items generalizing s with
  | nil => exact ⟨s, rfl, by simp, fun _ _ => rfl⟩
  | cons item items ih =>
    rw [List.map_cons, List.nodup_cons] at hn
    obtain ⟨next, hnext, hit, ho⟩ := hstep s item (h item List.mem_cons_self)
    have hkey : ∀ later ∈ items, later.1 ≠ item.1 := fun later hl heq =>
      hn.1 (heq ▸ List.mem_map_of_mem hl)
    obtain ⟨s', hf, hi, hr⟩ := ih hn.2 fun later hl => by
      rw [ho later.1 (hkey later hl)]
      exact h later (List.mem_cons_of_mem item hl)
    refine ⟨s', by rw [List.foldlM_cons, hnext]; exact hf, ?_, ?_⟩
    · intro later hl
      rcases List.mem_cons.1 hl with rfl | hl
      · rw [hr later.1 hn.1]
        exact hit
      · rw [← ho later.1 (hkey later hl)]
        exact hi later hl
    · intro k hk
      rw [List.map_cons, List.mem_cons, not_or] at hk
      rw [hr k hk.2, ho k hk.1]

end Keys

end WriteBack
