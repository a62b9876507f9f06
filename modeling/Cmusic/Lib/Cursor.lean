import Mathlib.Tactic
import Mathlib.Data.List.Lex

/-! Rows kept in the order of their keys, and the rows a cursor reads from where it was put. -/
namespace Cursor

section Rows

variable {ρ κ : Type} [LinearOrder κ] {key : ρ → κ} {k : κ} {rows : List ρ} {p : ρ → Bool}

/-- The rows from the first one whose key is not below `k`. -/
def seek (key : ρ → κ) (k : κ) (rows : List ρ) : List ρ := rows.dropWhile fun row => key row < k

/-- When the rows with a property come before the others, they are all read before the first other. -/
theorem takeWhile_eq_filter {R : ρ → ρ → Prop} (hrows : rows.Pairwise R)
    (hp : ∀ a ∈ rows, ∀ b ∈ rows, R a b → p b = true → p a = true) :
    rows.takeWhile p = rows.filter p ∧ rows.dropWhile p = rows.filter fun row => !p row := by
  induction rows with
  | nil => exact ⟨rfl, rfl⟩
  | cons row rows ih =>
    obtain ⟨hh, hr⟩ := List.pairwise_cons.1 hrows
    obtain ⟨ht, hd⟩ := ih hr fun a ha b hb =>
      hp a (List.mem_cons_of_mem _ ha) b (List.mem_cons_of_mem _ hb)
    cases hro : p row with
    | true => simp [hro, ht, hd]
    | false =>
      have hn : ∀ b ∈ rows, p b = false := by
        intro b hb
        by_contra hpb
        have hpa := hp row List.mem_cons_self b (List.mem_cons_of_mem _ hb) (hh b hb) (by simpa using hpb)
        rw [hro] at hpa
        cases hpa
      constructor
      · simpa [hro] using hn
      · simpa [hro] using (List.filter_eq_self.2 fun b hb => by rw [hn b hb]; rfl).symm

theorem seek_eq_filter (hr : rows.Pairwise fun a b => key a < key b) :
    seek key k rows = rows.filter fun row => k ≤ key row := by
  have hd := (@takeWhile_eq_filter _ _ (fun row => decide (key row < k)) _ hr (by
    intro a _ b _ hab hb
    simp only [decide_eq_true_eq] at hb ⊢
    exact hab.trans hb)).2
  rw [seek, hd]
  congr 1
  funext row
  rw [← decide_not, decide_eq_decide]
  exact not_lt

/-- What is read up to the first row without a property, when its rows are not interrupted. -/
theorem takeWhile_seek (hr : rows.Pairwise fun a b => key a < key b)
    (hp : ∀ a ∈ rows, ∀ b ∈ rows, k ≤ key a → key a < key b → p b = true → p a = true) :
    (seek key k rows).takeWhile p = rows.filter fun row => k ≤ key row ∧ p row = true := by
  rw [seek_eq_filter hr, (takeWhile_eq_filter (hr.filter _) ?_).1, List.filter_filter]
  · congr 1
    simp [Bool.and_comm]
  · intro a ha b hb hab
    obtain ⟨ha, hka⟩ := List.mem_filter.1 ha
    exact hp a ha b (List.mem_filter.1 hb).1 (by simpa using hka) hab

end Rows

section Front

variable {α : Type} [LinearOrder α] {front x y z : List α}

/-- The lists with a common front are not interrupted by others. -/
theorem isPrefix_of_between (hx : front <+: x) (hz : front <+: z) (hxy : x ≤ y) (hyz : y ≤ z) :
    front <+: y := by
  induction front generalizing x y z with
  | nil => exact List.nil_prefix
  | cons c front ih =>
    obtain ⟨x, rfl, hx'⟩ := List.cons_prefix_iff.1 hx
    obtain ⟨z, rfl, hz'⟩ := List.cons_prefix_iff.1 hz
    cases y with
    | nil => exact absurd hxy (by simp)
    | cons d y =>
      rw [← not_lt, List.cons_lt_cons_iff, not_or] at hxy hyz
      have hd : c = d := le_antisymm (not_lt.1 hxy.1) (not_lt.1 hyz.1)
      subst hd
      have hxy : x ≤ y := by simpa using hxy
      have hyz : y ≤ z := by simpa using hyz
      exact List.cons_prefix_cons.2 ⟨rfl, ih hx' hz' hxy hyz⟩

theorem append_le_append_left (h : x ≤ y) (front : List α) : front ++ x ≤ front ++ y := by
  induction front with
  | nil => exact h
  | cons c front ih =>
    rw [List.cons_append, List.cons_append, ← not_lt, List.cons_lt_cons_iff]
    simpa using ih

end Front

end Cursor
