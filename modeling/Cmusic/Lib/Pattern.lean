import Mathlib.Tactic

/-! Patterns made of quantified character classes, matched against whole words. -/
namespace Pattern

variable {α : Type}

/-- A character class with the least and, when there is one, the greatest number of repetitions. -/
structure Atom (α : Type) where
  cls : α → Bool
  least : Nat
  most : Option Nat

/-- Exactly one character of the class. -/
def one (cls : α → Bool) : Atom α := ⟨cls, 1, some 1⟩

/-- At least `n` characters of the class. -/
def atLeast (n : Nat) (cls : α → Bool) : Atom α := ⟨cls, n, none⟩

def Atom.accepts (a : Atom α) (w : List α) : Bool :=
  w.all a.cls && a.least ≤ w.length && a.most.all (w.length ≤ ·)

/-- Whether the whole word splits into pieces accepted by the atoms in turn. -/
def Matches : List (Atom α) → List α → Bool
  | [], w => w.isEmpty
  | a :: as, w =>
    (List.range (w.length + 1)).any fun k => a.accepts (w.take k) && Matches as (w.drop k)

variable {a : Atom α} {as : List (Atom α)} {cls : α → Bool} {w : List α}

theorem matches_nil : Matches [] w ↔ w = [] := by
  simp [Matches]

theorem matches_cons : Matches (a :: as) w ↔ ∃ u v, w = u ++ v ∧ a.accepts u ∧ Matches as v := by
  simp only [Matches, List.any_eq_true, List.mem_range, Bool.and_eq_true]
  constructor
  · rintro ⟨k, -, ha, has⟩
    exact ⟨w.take k, w.drop k, (List.take_append_drop k w).symm, ha, has⟩
  · rintro ⟨u, v, rfl, ha, has⟩
    refine ⟨u.length, by simp, ?_, ?_⟩
    · simpa using ha
    · simpa using has

theorem accepts_iff : a.accepts w ↔
    (∀ c ∈ w, a.cls c) ∧ a.least ≤ w.length ∧ ∀ m ∈ a.most, w.length ≤ m := by
  cases h : a.most <;> simp [Atom.accepts, h, and_assoc]

theorem accepts_atLeast {n : Nat} :
    (atLeast n cls).accepts w ↔ (∀ c ∈ w, cls c) ∧ n ≤ w.length := by
  simp [accepts_iff, atLeast]

theorem accepts_one : (one cls).accepts w ↔ ∃ c, w = [c] ∧ cls c := by
  simp only [accepts_iff, one, Option.mem_some_iff, forall_eq']
  constructor
  · rintro ⟨hcl, hp, hle⟩
    obtain ⟨c, rfl⟩ := List.length_eq_one_iff.1 (show w.length = 1 by omega)
    exact ⟨c, rfl, hcl c (by simp)⟩
  · rintro ⟨c, rfl, hc⟩
    simp [hc]

/-- Every character of a word is in the class of one of the atoms. -/
theorem exists_cls_of_matches (h : Matches as w) : ∀ c ∈ w, ∃ a ∈ as, a.cls c := by
  induction as generalizing w with
  | nil => simp [matches_nil.1 h]
  | cons a as ih =>
    obtain ⟨u, v, rfl, hu, hv⟩ := matches_cons.1 h
    intro c hc
    rcases List.mem_append.1 hc with hc | hc
    · exact ⟨a, List.mem_cons_self, (accepts_iff.1 hu).1 c hc⟩
    · obtain ⟨b, hb, hcl⟩ := ih hv c hc
      exact ⟨b, List.mem_cons_of_mem _ hb, hcl⟩

end Pattern
