import Cmusic.Lib.Walk

/-! A walk along the edges of a finite graph that does not go again where it is known already what lies
below. Some nodes are set apart: what is known below a node leaves them out, and only they are known. -/

open Std Relation Maps

namespace CachedWalk

variable {α : Type} {cmp : α → α → Ordering}

/-- One successor: what is known below it has been seen with it, otherwise it goes on the stage. -/
def visit (known : TreeMap α (TreeSet α cmp) cmp) (walked : TreeSet α cmp × TreeSet α cmp) (b : α) :
    TreeSet α cmp × TreeSet α cmp :=
  match known[b]? with
  | some below => (walked.1, below.toList.foldl (fun seen c => seen.insert c) walked.2)
  | none => if walked.2.contains b then walked else (walked.1.insert b, walked.2)

/-- Takes the first node off the stage, marks it as seen and visits its successors. -/
def walk (next : α → TreeSet α cmp) (known : TreeMap α (TreeSet α cmp) cmp) :
    Nat → TreeSet α cmp → TreeSet α cmp → TreeSet α cmp
  | 0, _, seen => seen
  | fuel + 1, stage, seen =>
    match stage.toList.head? with
    | none => seen
    | some a =>
      let walked := (next a).toList.foldl (visit known) (stage.erase a, seen.insert a)
      walk next known fuel walked.1 walked.2

variable [TransCmp cmp] [LawfulEqCmp cmp] {next : α → TreeSet α cmp} {apart : α → Prop}
  {known : TreeMap α (TreeSet α cmp) cmp} {stage seen : TreeSet α cmp} {a b : α}

/-- One node can be reached from another. -/
abbrev Reach (next : α → TreeSet α cmp) : α → α → Prop := ReflTransGen fun a b => b ∈ next a

/-- The nodes with something known are set apart, and known is what lies below them. -/
def Right (next : α → TreeSet α cmp) (apart : α → Prop) (known : TreeMap α (TreeSet α cmp) cmp) : Prop :=
  ∀ (a : α) (below : TreeSet α cmp), known[a]? = some below →
    apart a ∧ ∀ b, b ∈ below ↔ ¬apart b ∧ Reach next a b

/-- Everything below a node has been seen. -/
def Complete (next : α → TreeSet α cmp) (apart : α → Prop) (seen : TreeSet α cmp) (a : α) : Prop :=
  ∀ b, ¬apart b → Reach next a b → b ∈ seen

omit [TransCmp cmp] [LawfulEqCmp cmp] in
theorem Complete.mono {seen' : TreeSet α cmp} (h : Complete next apart seen a)
    (hsu : ∀ c ∈ seen, c ∈ seen') : Complete next apart seen' a :=
  fun b hb hab => hsu b (h b hb hab)

theorem mem_foldl_insert {l : List α} :
    b ∈ l.foldl (fun seen c => seen.insert c) seen ↔ b ∈ seen ∨ b ∈ l := by
  induction l generalizing seen with
  | nil => simp
  | cons c l ih =>
    rw [List.foldl_cons, ih, mem_set_insert, List.mem_cons]
    tauto

/-- What visiting a list of nodes leaves. -/
structure Visited (next : α → TreeSet α cmp) (apart : α → Prop) (nodes : List α)
    (before after : TreeSet α cmp × TreeSet α cmp) : Prop where
  stage_mono : ∀ c ∈ before.1, c ∈ after.1
  seen_mono : ∀ c ∈ before.2, c ∈ after.2
  stage : ∀ c ∈ after.1, c ∈ before.1 ∨ c ∈ nodes ∧ c ∉ before.2
  seen : ∀ c ∈ after.2, c ∈ before.2 ∨ (∃ b ∈ nodes, Reach next b c) ∧ Complete next apart after.2 c
  covered : ∀ b ∈ nodes, b ∈ after.1 ∨ b ∈ after.2 ∨ Complete next apart after.2 b

theorem visited_visit (h : Right next apart known) (walked : TreeSet α cmp × TreeSet α cmp) (b : α) :
    Visited next apart [b] walked (visit known walked b) := by
  unfold visit
  cases hb : known[b]? with
  | some below =>
    obtain ⟨-, hbe⟩ := h b below hb
    have hm : ∀ c, c ∈ below.toList.foldl (fun seen c => seen.insert c) walked.2 ↔
        c ∈ walked.2 ∨ ¬apart c ∧ Reach next b c := by
      intro c
      rw [mem_foldl_insert, TreeSet.mem_toList, hbe]
    have hco : ∀ c, Reach next b c →
        Complete next apart (below.toList.foldl (fun seen c => seen.insert c) walked.2) c :=
      fun c hbc d hd hcd => (hm d).2 (Or.inr ⟨hd, hbc.trans hcd⟩)
    refine ⟨fun _ => id, fun c hc => (hm c).2 (Or.inl hc), fun _ => Or.inl, fun c hc => ?_, ?_⟩
    · rcases (hm c).1 hc with hc | hc
      · exact Or.inl hc
      · exact Or.inr ⟨⟨b, List.mem_singleton_self b, hc.2⟩, hco c hc.2⟩
    · intro c hc
      obtain rfl := List.mem_singleton.1 hc
      exact Or.inr (Or.inr (hco c .refl))
  | none =>
    by_cases hse : b ∈ walked.2
    · rw [if_pos (TreeSet.contains_iff_mem.2 hse)]
      refine ⟨fun _ => id, fun _ => id, fun _ => Or.inl, fun _ => Or.inl, fun c hc => ?_⟩
      obtain rfl := List.mem_singleton.1 hc
      exact Or.inr (Or.inl hse)
    · rw [if_neg (mt TreeSet.contains_iff_mem.1 hse)]
      refine ⟨fun _ hc => mem_set_insert.2 (Or.inr hc), fun _ => id, fun c hc => ?_, fun _ => Or.inl,
        fun c hc => ?_⟩
      · rcases mem_set_insert.1 hc with rfl | hc
        · exact Or.inr ⟨List.mem_singleton_self c, hse⟩
        · exact Or.inl hc
      · obtain rfl := List.mem_singleton.1 hc
        exact Or.inl (mem_set_insert.2 (Or.inl rfl))

theorem visited_foldl (h : Right next apart known) (nodes : List α)
    (walked : TreeSet α cmp × TreeSet α cmp) :
    Visited next apart nodes walked (nodes.foldl (visit known) walked) := by
  induction nodes generalizing walked with
  | nil => exact ⟨fun _ => id, fun _ => id, fun _ => Or.inl, fun _ => Or.inl, by simp⟩
  | cons b nodes ih =>
    have ho := visited_visit h walked b
    have hr := ih (visit known walked b)
    refine ⟨fun c hc => hr.stage_mono c (ho.stage_mono c hc),
      fun c hc => hr.seen_mono c (ho.seen_mono c hc), fun c hc => ?_, fun c hc => ?_,
      fun c hc => ?_⟩
    · rcases hr.stage c hc with hc | ⟨hc, hnew⟩
      · rcases ho.stage c hc with hc | ⟨hc, hnew⟩
        · exact Or.inl hc
        · obtain rfl := List.mem_singleton.1 hc
          exact Or.inr ⟨List.mem_cons_self, hnew⟩
      · exact Or.inr ⟨List.mem_cons_of_mem b hc, fun hol => hnew (ho.seen_mono c hol)⟩
    · rcases hr.seen c hc with hc | ⟨⟨d, hd, hdc⟩, hco⟩
      · rcases ho.seen c hc with hc | ⟨⟨d, hd, hdc⟩, hco⟩
        · exact Or.inl hc
        · obtain rfl := List.mem_singleton.1 hd
          exact Or.inr ⟨⟨d, List.mem_cons_self, hdc⟩, hco.mono hr.seen_mono⟩
      · exact Or.inr ⟨⟨d, List.mem_cons_of_mem b hd, hdc⟩, hco⟩
    · rcases List.mem_cons.1 hc with rfl | hc
      · rcases ho.covered c (List.mem_singleton_self c) with hc | hc | hc
        · exact Or.inl (hr.stage_mono c hc)
        · exact Or.inr (Or.inl (hr.seen_mono c hc))
        · exact Or.inr (Or.inr (hc.mono hr.seen_mono))
      · exact hr.covered c hc

/-- Where the walk is: `done` are the nodes that were taken off the stage. -/
structure Progress (next : α → TreeSet α cmp) (apart start : α → Prop) (stage seen : TreeSet α cmp)
    (done : Finset α) : Prop where
  reach : ∀ c, c ∈ stage ∨ c ∈ seen → ∃ s, start s ∧ Reach next s c
  starts : ∀ s, start s → s ∈ stage ∨ s ∈ done
  stage_new : ∀ c ∈ stage, c ∉ done
  seen_cases : ∀ c ∈ seen, c ∈ done ∨ Complete next apart seen c
  done_seen : ∀ c ∈ done, c ∈ seen
  done_next : ∀ c ∈ done, ∀ b ∈ next c, b ∈ done ∨ b ∈ stage ∨ Complete next apart seen b

variable {start : α → Prop} {done : Finset α}

omit [TransCmp cmp] [LawfulEqCmp cmp] in
/-- With an empty stage everything below the nodes that were walked has been seen. -/
theorem Progress.complete (h : Progress next apart start stage seen done) (he : ∀ c, c ∉ stage)
    (ha : a ∈ done) : Complete next apart seen a := by
  intro b hb hab
  induction hab using ReflTransGen.head_induction_on with
  | refl => exact h.done_seen b ha
  | @head a c hac hcb ih =>
    rcases h.done_next a ha c hac with hc | hc | hc
    · exact ih hc
    · exact absurd hc (he c)
    · exact hc b hb hcb

omit [TransCmp cmp] [LawfulEqCmp cmp] in
theorem Progress.mem_seen (h : Progress next apart start stage seen done) (he : ∀ c, c ∉ stage)
    (hb : ¬apart b) : b ∈ seen ↔ ∃ s, start s ∧ Reach next s b :=
  ⟨fun hm => h.reach b (Or.inr hm), fun ⟨s, hs, hsb⟩ =>
    h.complete he ((h.starts s hs).resolve_left (he s)) b hb hsb⟩

theorem Progress.step [DecidableEq α] (h : Progress next apart start stage seen done)
    (hkn : Right next apart known) (ha : a ∈ stage) :
    let walked := (next a).toList.foldl (visit known) (stage.erase a, seen.insert a)
    Progress next apart start walked.1 walked.2 (insert a done) := by
  have hv := visited_foldl hkn (next a).toList (stage.erase a, seen.insert a)
  generalize (next a).toList.foldl (visit known) (stage.erase a, seen.insert a) = walked at hv ⊢
  have hm : ∀ c ∈ seen, c ∈ walked.2 := fun c hc => hv.seen_mono c (mem_set_insert.2 (Or.inr hc))
  obtain ⟨s, hs, hsa⟩ := h.reach a (Or.inl ha)
  have hse : ∀ c ∈ walked.2, c ∈ insert a done ∨ Complete next apart walked.2 c := by
    intro c hc
    rcases hv.seen c hc with hc | ⟨-, hc⟩
    · rcases mem_set_insert.1 hc with rfl | hc
      · exact Or.inl (Finset.mem_insert_self c done)
      · rcases h.seen_cases c hc with hc | hc
        · exact Or.inl (Finset.mem_insert_of_mem hc)
        · exact Or.inr (hc.mono hm)
    · exact Or.inr hc
  refine ⟨?_, ?_, ?_, hse, ?_, ?_⟩
  · rintro c (hc | hc)
    · rcases hv.stage c hc with hc | ⟨hc, -⟩
      · exact h.reach c (Or.inl (mem_set_erase.1 hc).2)
      · exact ⟨s, hs, hsa.tail (TreeSet.mem_toList.1 hc)⟩
    · rcases hv.seen c hc with hc | ⟨⟨b, hb, hbc⟩, -⟩
      · rcases mem_set_insert.1 hc with rfl | hc
        · exact ⟨s, hs, hsa⟩
        · exact h.reach c (Or.inr hc)
      · exact ⟨s, hs, (hsa.tail (TreeSet.mem_toList.1 hb)).trans hbc⟩
  · intro t ht
    rcases h.starts t ht with hst | hd
    · by_cases hta : t = a
      · exact Or.inr (hta ▸ Finset.mem_insert_self a done)
      · exact Or.inl (hv.stage_mono t (mem_set_erase.2 ⟨hta, hst⟩))
    · exact Or.inr (Finset.mem_insert_of_mem hd)
  · intro c hc hd
    rcases hv.stage c hc with hc | ⟨-, hnew⟩
    · obtain ⟨hca, hc⟩ := mem_set_erase.1 hc
      exact h.stage_new c hc ((Finset.mem_insert.1 hd).resolve_left hca)
    · rcases Finset.mem_insert.1 hd with rfl | hd
      · exact hnew (mem_set_insert.2 (Or.inl rfl))
      · exact hnew (mem_set_insert.2 (Or.inr (h.done_seen c hd)))
  · intro c hc
    rcases Finset.mem_insert.1 hc with rfl | hc
    · exact hv.seen_mono c (mem_set_insert.2 (Or.inl rfl))
    · exact hm c (h.done_seen c hc)
  · intro c hc b hb
    rcases Finset.mem_insert.1 hc with rfl | hc
    · rcases hv.covered b (TreeSet.mem_toList.2 hb) with hb | hb | hb
      · exact Or.inr (Or.inl hb)
      · exact (hse b hb).imp id Or.inr
      · exact Or.inr (Or.inr hb)
    · rcases h.done_next c hc b hb with hb | hb | hb
      · exact Or.inl (Finset.mem_insert_of_mem hb)
      · by_cases hba : b = a
        · exact Or.inl (hba ▸ Finset.mem_insert_self a done)
        · exact Or.inr (Or.inl (hv.stage_mono b (mem_set_erase.2 ⟨hba, hb⟩)))
      · exact Or.inr (Or.inr (hb.mono hm))

/-- With a step for every node in reach, the walk finds what lies below the nodes it started from. -/
theorem Progress.mem_walk [DecidableEq α] (h : Progress next apart start stage seen done)
    (hkn : Right next apart known) (U : Finset α)
    (hf : ∀ s, start s → ∀ c, Reach next s c → c ∈ U) {fuel : Nat}
    (hfu : (U.filter (· ∉ done)).card ≤ fuel) (hb : ¬apart b) :
    b ∈ walk next known fuel stage seen ↔ ∃ s, start s ∧ Reach next s b := by
  induction fuel generalizing stage seen done with
  | zero =>
    refine h.mem_seen (fun c hc => ?_) hb
    obtain ⟨s, hs, hsc⟩ := h.reach c (Or.inl hc)
    have hm : c ∈ U.filter (· ∉ done) :=
      Finset.mem_filter.2 ⟨hf s hs c hsc, h.stage_new c hc⟩
    have hp := Finset.card_pos.2 ⟨c, hm⟩
    omega
  | succ fuel ih =>
    rw [walk]
    cases hmi : stage.toList.head? with
    | none =>
      refine h.mem_seen (fun c hc => ?_) hb
      simpa [List.head?_eq_none_iff.1 hmi] using TreeSet.mem_toList.2 hc
    | some a =>
      have ha : a ∈ stage := TreeSet.mem_toList.1 (List.mem_of_mem_head? hmi)
      obtain ⟨s, hs, hsa⟩ := h.reach a (Or.inl ha)
      -- the node taken off the stage is new
      have hca : (U.filter (· ∉ insert a done)).card < (U.filter (· ∉ done)).card := by
        refine Finset.card_lt_card ⟨fun c hc => ?_, fun hsu => ?_⟩
        · rw [Finset.mem_filter, Finset.mem_insert, not_or] at hc
          exact Finset.mem_filter.2 ⟨hc.1, hc.2.2⟩
        · have hm := hsu (Finset.mem_filter.2 ⟨hf s hs a hsa, h.stage_new a ha⟩)
          exact (Finset.mem_filter.1 hm).2 (Finset.mem_insert_self a done)
      exact ih (h.step hkn ha) (by omega)

end CachedWalk
