import Cmusic.Lib.Maps

/-! Walking along the edges of a finite graph from a set of nodes. -/

open Std Relation Maps

namespace Walk

variable {α : Type} {cmp : α → α → Ordering}

/-- Puts the nodes on the stage that have not been seen. -/
def enstage (seen : TreeSet α cmp) (stage : TreeSet α cmp) (nodes : List α) : TreeSet α cmp :=
  nodes.foldl (fun stage b => if seen.contains b then stage else stage.insert b) stage

/-- Takes the first node off the stage, marks it as seen and puts its successors on the stage. -/
def walk (next : α → TreeSet α cmp) : Nat → TreeSet α cmp → TreeSet α cmp → TreeSet α cmp
  | 0, _, seen => seen
  | fuel + 1, stage, seen =>
    match stage.toList.head? with
    | none => seen
    | some a =>
      let seen := seen.insert a
      walk next fuel (enstage seen (stage.erase a) (next a).toList) seen

theorem mem_walk_of_seen [TransCmp cmp] {next : α → TreeSet α cmp} {a : α} (fuel : Nat)
    (stage : TreeSet α cmp) {seen : TreeSet α cmp} (h : a ∈ seen) : a ∈ walk next fuel stage seen := by
  induction fuel generalizing stage seen with
  | zero => exact h
  | succ fuel ih =>
    unfold walk
    split
    · exact h
    · exact ih _ (TreeSet.mem_insert.2 (Or.inr h))

/-- From a set that is left through the stage only, every path stays inside or meets the stage. -/
theorem reach_of_closed {R : α → α → Prop} {S T : α → Prop}
    (h : ∀ a, S a → ∀ b, R a b → S b ∨ T b) {a b : α} (ha : S a) (hab : ReflTransGen R a b) :
    S b ∨ ∃ c, T c ∧ ReflTransGen R c b := by
  induction hab using ReflTransGen.head_induction_on with
  | refl => exact Or.inl ha
  | @head a c hac hcb ih =>
    rcases h a ha c hac with hc | hc
    · exact ih hc
    · exact Or.inr ⟨c, hc, hcb⟩

variable [TransCmp cmp] [LawfulEqCmp cmp] {seen stage : TreeSet α cmp}

theorem mem_enstage {nodes : List α} {b : α} :
    b ∈ enstage seen stage nodes ↔ b ∈ stage ∨ b ∈ nodes ∧ b ∉ seen := by
  induction nodes generalizing stage with
  | nil => simp [enstage]
  | cons a nodes ih =>
    rw [enstage, List.foldl_cons, ← enstage, ih]
    by_cases ha : a ∈ seen
    · have hab : b ∉ seen → b ≠ a := fun hb heq => hb (heq ▸ ha)
      simp only [ha, TreeSet.contains_iff_mem, if_true, List.mem_cons]
      tauto
    · have hab : b = a → b ∉ seen := fun heq => heq ▸ ha
      simp only [ha, TreeSet.contains_iff_mem, if_false, List.mem_cons, mem_set_insert]
      tauto

/-- With a step for every node in reach, the walk finds what can be reached from the stage. -/
theorem mem_walk [DecidableEq α] {next : α → TreeSet α cmp} (U : Finset α) {fuel : Nat} {b : α}
    (hdi : ∀ a ∈ stage, a ∉ seen)
    (hcl : ∀ a ∈ seen, ∀ c ∈ next a, c ∈ seen ∨ c ∈ stage)
    (hf : ∀ a ∈ stage, ∀ c, ReflTransGen (fun a b => b ∈ next a) a c → c ∈ U)
    (hfu : (U.filter (· ∉ seen)).card ≤ fuel) :
    b ∈ walk next fuel stage seen ↔
      b ∈ seen ∨ ∃ a ∈ stage, ReflTransGen (fun a b => b ∈ next a) a b := by
  induction fuel generalizing stage seen with
  | zero =>
    have hem : ∀ a, a ∉ stage := by
      intro a ha
      have hm : a ∈ U.filter (· ∉ seen) :=
        Finset.mem_filter.2 ⟨hf a ha a .refl, hdi a ha⟩
      have hp := Finset.card_pos.2 ⟨a, hm⟩
      omega
    simp [walk, hem]
  | succ fuel ih =>
    rw [walk]
    cases hmi : stage.toList.head? with
    | none =>
      have hem : ∀ a, a ∉ stage := by
        intro a ha
        simpa [List.head?_eq_none_iff.1 hmi] using TreeSet.mem_toList.2 ha
      simp [hem]
    | some a =>
      have ha : a ∈ stage := TreeSet.mem_toList.1 (List.mem_of_mem_head? hmi)
      have hst : ∀ c, c ∈ enstage (seen.insert a) (stage.erase a) (next a).toList ↔
          c ≠ a ∧ c ∈ stage ∨ c ∈ next a ∧ c ∉ seen.insert a := by
        intro c
        rw [mem_enstage, mem_set_erase, TreeSet.mem_toList]
      have hc' : ∀ c ∈ seen.insert a, ∀ d ∈ next c, d ∈ seen.insert a ∨
          d ∈ enstage (seen.insert a) (stage.erase a) (next a).toList := by
        intro c hc d hd
        by_cases hds : d ∈ seen.insert a
        · exact Or.inl hds
        refine Or.inr ((hst d).2 ?_)
        rcases mem_set_insert.1 hc with rfl | hc
        · exact Or.inr ⟨hd, hds⟩
        · rw [mem_set_insert, not_or] at hds
          exact Or.inl ⟨hds.1, (hcl c hc d hd).resolve_left hds.2⟩
      have hr : ∀ c ∈ enstage (seen.insert a) (stage.erase a) (next a).toList, ∃ d ∈ stage,
          ReflTransGen (fun a b => b ∈ next a) d c := by
        intro c hc
        rcases (hst c).1 hc with ⟨-, hc⟩ | ⟨hc, -⟩
        · exact ⟨c, hc, .refl⟩
        · exact ⟨a, ha, .single hc⟩
      -- the node taken off the stage is new
      have hcar : (U.filter (· ∉ seen.insert a)).card < (U.filter (· ∉ seen)).card := by
        refine Finset.card_lt_card ⟨fun c hc => ?_, fun hsu => ?_⟩
        · rw [Finset.mem_filter, mem_set_insert, not_or] at hc
          exact Finset.mem_filter.2 ⟨hc.1, hc.2.2⟩
        · have hm : a ∈ U.filter (· ∉ seen) :=
            Finset.mem_filter.2 ⟨hf a ha a .refl, hdi a ha⟩
          exact (Finset.mem_filter.1 (hsu hm)).2 (mem_set_insert.2 (Or.inl rfl))
      rw [ih ?_ hc' ?_ (by omega)]
      · constructor
        · rintro (hb | ⟨c, hc, hcb⟩)
          · rcases mem_set_insert.1 hb with rfl | hb
            · exact Or.inr ⟨b, ha, .refl⟩
            · exact Or.inl hb
          · obtain ⟨d, hd, hdc⟩ := hr c hc
            exact Or.inr ⟨d, hd, hdc.trans hcb⟩
        · rintro (hb | ⟨c, hc, hcb⟩)
          · exact Or.inl (mem_set_insert.2 (Or.inr hb))
          · by_cases hca : c = a
            · exact reach_of_closed hc' (mem_set_insert.2 (Or.inl hca)) hcb
            · exact Or.inr ⟨c, (hst c).2 (Or.inl ⟨hca, hc⟩), hcb⟩
      · intro c hc hcs
        rcases (hst c).1 hc with ⟨hca, hc⟩ | ⟨-, hc⟩
        · exact hdi c hc ((mem_set_insert.1 hcs).resolve_left hca)
        · exact hc hcs
      · intro c hc d hcd
        obtain ⟨e, he, hec⟩ := hr c hc
        exact hf e he d (hec.trans hcd)

end Walk
