import Mathlib.Tactic

/-! Maps that entries change by taking keys out and putting rows in, as a set of unspent outputs. -/

namespace Ledger

variable {κ ν : Type} [DecidableEq κ] {rows : List (κ × ν)}

def spend (m : κ → Option ν) (keys : List κ) : κ → Option ν :=
  keys.foldl (fun m k => Function.update m k none) m

def create (m : κ → Option ν) (rows : List (κ × ν)) : κ → Option ν :=
  rows.foldl (fun m row => Function.update m row.1 (some row.2)) m

/-- The keys an entry takes out and the rows it puts in. -/
structure Entry (κ ν : Type) where
  spent : List κ
  created : List (κ × ν)

def Entry.keys (e : Entry κ ν) : List κ := e.created.map Prod.fst

def Entry.apply (m : κ → Option ν) (e : Entry κ ν) : κ → Option ν :=
  create (spend m e.spent) e.created

def run (m : κ → Option ν) (es : List (Entry κ ν)) : κ → Option ν := es.foldl Entry.apply m

variable {m : κ → Option ν} {e : Entry κ ν} {es pre post : List (Entry κ ν)} {k : κ}

theorem spend_concat (m : κ → Option ν) (keys : List κ) (k : κ) :
    spend m (keys ++ [k]) = Function.update (spend m keys) k none := List.foldl_concat ..

theorem spend_apply (m : κ → Option ν) (keys : List κ) (k : κ) :
    spend m keys k = if k ∈ keys then none else m k := by
  induction keys generalizing m with
  | nil => simp [spend]
  | cons n keys ih =>
    rw [spend, List.foldl_cons, ← spend, ih]
    by_cases hk : k = n
    · simp [hk]
    · simp [hk]

theorem create_of_notMem (h : k ∉ rows.map Prod.fst) : create m rows k = m k := by
  induction rows generalizing m with
  | nil => rfl
  | cons row rows ih =>
    rw [List.map_cons, List.mem_cons, not_or] at h
    rw [create, List.foldl_cons, ← create, ih h.2, Function.update_of_ne h.1]

theorem isSome_create_of_isSome (h : (m k).isSome) : (create m rows k).isSome := by
  induction rows generalizing m with
  | nil => exact h
  | cons row rows ih =>
    refine ih ?_
    dsimp only
    by_cases hk : k = row.1
    · simp [hk]
    · rwa [Function.update_of_ne hk]

theorem isSome_create_of_mem (h : k ∈ rows.map Prod.fst) : (create m rows k).isSome := by
  induction rows generalizing m with
  | nil => cases h
  | cons row rows ih =>
    rcases List.mem_cons.1 h with rfl | h
    · rw [create, List.foldl_cons, ← create]
      exact isSome_create_of_isSome (by simp)
    · exact ih h

theorem isSome_apply (h : (Entry.apply m e k).isSome) :
    ((m k).isSome ∧ k ∉ e.spent) ∨ k ∈ e.keys := by
  by_cases hke : k ∈ e.keys
  · exact Or.inr hke
  · rw [Entry.apply, create_of_notMem hke, spend_apply] at h
    split at h
    · cases h
    next hsp => exact Or.inl ⟨h, hsp⟩

theorem isSome_apply_of_isSome (h : (m k).isSome) (hsp : k ∉ e.spent) :
    (Entry.apply m e k).isSome := by
  refine isSome_create_of_isSome ?_
  rwa [spend_apply, if_neg hsp]

theorem run_append (m : κ → Option ν) (pre post : List (Entry κ ν)) :
    run m (pre ++ post) = run (run m pre) post := List.foldl_append

/-- What is there at the end was there at the start or has been put in. -/
theorem isSome_of_run (h : (run m es k).isSome) : (m k).isSome ∨ ∃ e ∈ es, k ∈ e.keys := by
  induction es generalizing m with
  | nil => exact Or.inl h
  | cons e es ih =>
    rcases ih h with h | ⟨e', he', hk⟩
    · rcases isSome_apply h with ⟨h, -⟩ | h
      · exact Or.inl h
      · exact Or.inr ⟨e, List.mem_cons_self, h⟩
    · exact Or.inr ⟨e', List.mem_cons_of_mem _ he', hk⟩

theorem create_eq_some {v : ν} (h : create m rows k = some v) : m k = some v ∨ (k, v) ∈ rows := by
  induction rows generalizing m with
  | nil => exact Or.inl h
  | cons row rows ih =>
    rcases ih h with h | h
    · dsimp only at h
      by_cases hk : k = row.1
      · subst hk
        rw [Function.update_self] at h
        cases h
        exact Or.inr List.mem_cons_self
      · rw [Function.update_of_ne hk] at h
        exact Or.inl h
    · exact Or.inr (List.mem_cons_of_mem _ h)

/-- The row of a key at the end is the one of the start or has been put in. -/
theorem run_eq_some {v : ν} (h : run m es k = some v) :
    m k = some v ∨ ∃ e ∈ es, (k, v) ∈ e.created := by
  induction es generalizing m with
  | nil => exact Or.inl h
  | cons e es ih =>
    rcases ih h with h | ⟨e', he', hk⟩
    · rcases create_eq_some h with h | h
      · rw [spend_apply] at h
        split at h
        · cases h
        · exact Or.inl h
      · exact Or.inr ⟨e, List.mem_cons_self, h⟩
    · exact Or.inr ⟨e', List.mem_cons_of_mem _ he', hk⟩

/-- What no entry takes out stays. -/
theorem isSome_run_of_isSome (h : (m k).isSome) (hsp : ∀ e ∈ es, k ∉ e.spent) :
    (run m es k).isSome := by
  induction es generalizing m with
  | nil => exact h
  | cons e es ih =>
    exact ih (isSome_apply_of_isSome h (hsp e List.mem_cons_self))
      fun e' he' => hsp e' (List.mem_cons_of_mem _ he')

theorem isSome_run_of_created (he : e ∈ es) (hk : k ∈ e.keys) (hsp : ∀ e ∈ es, k ∉ e.spent) :
    (run m es k).isSome := by
  obtain ⟨pre, post, rfl⟩ := List.append_of_mem he
  rw [run_append, run, List.foldl_cons, ← run]
  exact isSome_run_of_isSome (isSome_create_of_mem hk) fun e' he' => hsp e' (by simp [he'])

/-- Every key is there when it is taken out. -/
def Available (m : κ → Option ν) (es : List (Entry κ ν)) : Prop :=
  ∀ pre e post, es = pre ++ e :: post → ∀ k ∈ e.spent, (run m pre k).isSome

theorem Available.concat (h : Available m es) (he : ∀ k ∈ e.spent, (run m es k).isSome) :
    Available m (es ++ [e]) := by
  intro pre d post hsp k hk
  rcases List.eq_nil_or_concat post with rfl | ⟨post, last, rfl⟩
  · obtain ⟨rfl, hd⟩ := List.append_inj' hsp rfl
    cases hd
    exact he k hk
  · rw [List.concat_eq_append, ← List.cons_append, ← List.append_assoc] at hsp
    obtain ⟨rfl, -⟩ := List.append_inj' hsp rfl
    exact h pre d post rfl k hk

/-- No key is put in that is there at the start or put in by another entry. -/
structure New (m : κ → Option ν) (es : List (Entry κ ν)) : Prop where
  absent : ∀ e ∈ es, ∀ k ∈ e.keys, m k = none
  distinct : es.Pairwise fun e e' => ∀ k ∈ e.keys, k ∉ e'.keys

/-- Where every key is new, no two entries take out the same one. -/
theorem not_spent_twice {mid : List (Entry κ ν)} {e' : Entry κ ν} (hav : Available m es)
    (hnew : New m es) (hes : es = pre ++ e :: mid ++ e' :: post) (hk : k ∈ e.spent) :
    k ∉ e'.spent := by
  intro hk'
  have hb := hav pre e (mid ++ e' :: post) (by simp [hes]) k hk
  have hl := hav (pre ++ e :: mid) e' post hes k hk'
  -- whoever put the key in did so before the first entry
  have hmi : k ∉ e.keys ∧ ∀ d ∈ mid, k ∉ d.keys := by
    have hdi := hnew.distinct
    rw [hes, List.append_assoc, List.pairwise_append] at hdi
    rcases isSome_of_run hb with hm | ⟨d, hd, hkd⟩
    · have ha : ∀ d ∈ es, k ∉ d.keys := by
        intro d hd hkd
        rw [hnew.absent d hd k hkd] at hm
        cases hm
      exact ⟨ha e (by simp [hes]), fun d hd => ha d (by simp [hes, hd])⟩
    · exact ⟨hdi.2.2 d hd e (by simp) k hkd, fun d' hd' => hdi.2.2 d hd d' (by simp [hd']) k hkd⟩
  rw [run_append, run, List.foldl_cons, ← run] at hl
  rcases isSome_of_run hl with h | ⟨d, hd, hkd⟩
  · rcases isSome_apply h with ⟨-, h⟩ | h
    · exact h hk
    · exact hmi.1 h
  · exact hmi.2 d hd hkd

theorem Available.append {es' : List (Entry κ ν)} (h : Available m es)
    (h' : Available (run m es) es') : Available m (es ++ es') := by
  induction es' using List.reverseRecOn with
  | nil => simpa using h
  | append_singleton es' e ih =>
    rw [← List.append_assoc]
    refine (ih fun pre d post hsp => h' pre d (post ++ [e]) (by simp [hsp])).concat fun k hk => ?_
    rw [run_append]
    exact h' es' e [] rfl k hk

/-- The entries take out different keys. -/
theorem pairwise_spent (hav : Available m es) (hnew : New m es) :
    es.Pairwise fun e e' => ∀ k ∈ e.spent, k ∉ e'.spent := by
  have h : ∀ post pre, es = pre ++ post →
      post.Pairwise fun e e' => ∀ k ∈ e.spent, k ∉ e'.spent := by
    intro post
    induction post with
    | nil => exact fun _ _ => .nil
    | cons e post ih =>
      intro pre hes
      refine List.pairwise_cons.2 ⟨fun e' he k hk => ?_, ih (pre ++ [e]) (by simp [hes])⟩
      obtain ⟨mid, last, rfl⟩ := List.append_of_mem he
      exact not_spent_twice hav hnew (hes.trans (List.append_assoc pre (e :: mid) _).symm) hk
  exact h es [] rfl

end Ledger
