import Mathlib.Tactic

/-! Pairs of keyed sets holding the entries to add to and to remove from a layer below. -/

open Std

/-- The entries to be added to and removed from the layer below. -/
structure DirtyPair (κ ν : Type) (cmp : κ → κ → Ordering) where
  toAdd : TreeMap κ ν cmp := ∅
  toRemove : TreeMap κ ν cmp := ∅

namespace DirtyPair

variable {κ ν : Type} {cmp : κ → κ → Ordering} {k n : κ}

/-- Marks `k` as added; an entry that is already marked so is kept. -/
def add (d : DirtyPair κ ν cmp) (k : κ) (v : ν) : DirtyPair κ ν cmp :=
  ⟨d.toAdd.insertIfNew k v, d.toRemove.erase k⟩

/-- Marks `k` as removed; an entry that is already marked so is kept. -/
def remove (d : DirtyPair κ ν cmp) (k : κ) (v : ν) : DirtyPair κ ν cmp :=
  ⟨d.toAdd.erase k, d.toRemove.insertIfNew k v⟩

/-- Marks `k` as added, replacing an earlier mark. -/
def putAdd (d : DirtyPair κ ν cmp) (k : κ) (v : ν) : DirtyPair κ ν cmp :=
  ⟨d.toAdd.insert k v, d.toRemove.erase k⟩

/-- Marks `k` as removed, replacing an earlier mark. -/
def putRemove (d : DirtyPair κ ν cmp) (k : κ) (v : ν) : DirtyPair κ ν cmp :=
  ⟨d.toAdd.erase k, d.toRemove.insert k v⟩

/-- Replays the marks of `d` on the layer below, additions first. -/
def flush (d below : DirtyPair κ ν cmp) : DirtyPair κ ν cmp :=
  d.toRemove.foldl remove (d.toAdd.foldl add below)

/-- Replays the marks of `d` on the layer below, additions first and replacing earlier marks. -/
def putFlush (d below : DirtyPair κ ν cmp) : DirtyPair κ ν cmp :=
  d.toRemove.foldl putRemove (d.toAdd.foldl putAdd below)

/-- The marks of one key. -/
structure Marks (ν : Type) where
  added : Option ν := none
  removed : Option ν := none

namespace Marks

theorem eq_empty {m : Marks ν} (ha : m.added = none) (hr : m.removed = none) : m = {} := by
  cases m
  cases ha
  cases hr
  rfl

def add (m : Marks ν) (v : ν) : Marks ν := ⟨m.added <|> some v, none⟩

theorem isSome_add (m : Marks ν) (v : ν) : (m.add v).added.isSome = true := by
  cases h : m.added <;> simp [add, h]

def remove (m : Marks ν) (v : ν) : Marks ν := ⟨none, m.removed <|> some v⟩

/-- Marks replayed on those of the layer below, where they replace them. -/
def onto (m below : Marks ν) : Marks ν :=
  match m.removed, m.added with
  | some v, _ => ⟨none, some v⟩
  | none, some v => ⟨some v, none⟩
  | none, none => below

/-- Marks replayed on those of the layer below, where earlier ones are kept. -/
def keepOnto (m below : Marks ν) : Marks ν :=
  let mid := m.added.elim below below.add
  m.removed.elim mid mid.remove

/-- Whether there is a mark at all. -/
def marked (m : Marks ν) : Bool := m.added.isSome || m.removed.isSome

theorem marked_keepOnto (m below : Marks ν) :
    (m.keepOnto below).marked = (m.marked || below.marked) := by
  obtain ⟨added, removed⟩ := m
  obtain ⟨added', removed'⟩ := below
  cases added <;> cases removed <;> cases added' <;> cases removed' <;> rfl

theorem keepOnto_empty (below : Marks ν) : keepOnto {} below = below := rfl

/-- What the marks say about a key, if they say anything. A removal comes first. -/
def value {α : Type} (added removed : ν → α) (m : Marks ν) : Option α :=
  match m.removed with
  | some v => some (removed v)
  | none => m.added.map added

theorem value_onto {α : Type} (added removed : ν → α) (m below : Marks ν) :
    (m.onto below).value added removed =
      (m.value added removed).or (below.value added removed) := by
  unfold onto value
  cases m.removed <;> cases m.added <;> rfl

/-- The marks of a flag: a mark is one of two commands, and undoing one has the effect of the
other. -/
def flag {τ : Type} [DecidableEq τ] (on off : τ) (m : Marks τ) (below : Bool) : Bool :=
  (m.value (fun v => decide (v = on)) fun v => decide (v = off)).getD below

theorem flag_empty {τ : Type} [DecidableEq τ] (on off : τ) (below : Bool) :
    flag on off {} below = below := rfl

theorem flag_onto {τ : Type} [DecidableEq τ] (on off : τ) (m m' : Marks τ) (below : Bool) :
    (m.onto m').flag on off below = m.flag on off (m'.flag on off below) := by
  unfold flag
  rw [value_onto]
  cases m.value (fun v => decide (v = on)) fun v => decide (v = off) <;> rfl

end Marks

def marks (d : DirtyPair κ ν cmp) (k : κ) : Marks ν := ⟨d.toAdd[k]?, d.toRemove[k]?⟩

variable [TransCmp cmp] [LawfulEqCmp cmp]

omit [LawfulEqCmp cmp] in
theorem marks_empty (k : κ) : ({} : DirtyPair κ ν cmp).marks k = {} := by
  simp [marks]

theorem getElem?_insertIfNew_self (t : TreeMap κ ν cmp) (k : κ) (v : ν) :
    (t.insertIfNew k v)[k]? = (t[k]? <|> some v) := by
  rw [TreeMap.getElem?_insertIfNew]
  cases hk : t[k]? <;> simp [TreeMap.mem_iff_isSome_getElem?, hk]

theorem getElem?_insertIfNew_ne (h : k ≠ n) (t : TreeMap κ ν cmp) (v : ν) :
    (t.insertIfNew k v)[n]? = t[n]? := by
  simp [TreeMap.getElem?_insertIfNew, h]

theorem getElem?_erase_ne (h : k ≠ n) (t : TreeMap κ ν cmp) : (t.erase k)[n]? = t[n]? := by
  simp [TreeMap.getElem?_erase, h]

theorem marks_add_self (d : DirtyPair κ ν cmp) (k : κ) (v : ν) :
    (d.add k v).marks k = (d.marks k).add v := by
  simp only [marks, add, Marks.add, getElem?_insertIfNew_self, TreeMap.getElem?_erase_self]

theorem marks_add_ne (h : k ≠ n) (d : DirtyPair κ ν cmp) (v : ν) :
    (d.add k v).marks n = d.marks n := by
  simp only [marks, add, getElem?_insertIfNew_ne h, getElem?_erase_ne h]

theorem marks_remove_self (d : DirtyPair κ ν cmp) (k : κ) (v : ν) :
    (d.remove k v).marks k = (d.marks k).remove v := by
  simp only [marks, remove, Marks.remove, getElem?_insertIfNew_self, TreeMap.getElem?_erase_self]

theorem marks_remove_ne (h : k ≠ n) (d : DirtyPair κ ν cmp) (v : ν) :
    (d.remove k v).marks n = d.marks n := by
  simp only [marks, remove, getElem?_insertIfNew_ne h, getElem?_erase_ne h]

theorem marked_add (d : DirtyPair κ ν cmp) (k n : κ) (v : ν) :
    ((d.add k v).marks n).marked = true ↔ k = n ∨ (d.marks n).marked = true := by
  by_cases h : k = n
  · subst h
    rw [marks_add_self]
    simp [Marks.marked, Marks.isSome_add]
  · simp [marks_add_ne h, h]

theorem marked_remove (d : DirtyPair κ ν cmp) (k n : κ) (v : ν) :
    ((d.remove k v).marks n).marked = true ↔ k = n ∨ (d.marks n).marked = true := by
  by_cases h : k = n
  · subst h
    rw [marks_remove_self]
    cases hk : (d.marks k).removed <;> simp [Marks.marked, Marks.remove, hk]
  · simp [marks_remove_ne h, h]

omit [LawfulEqCmp cmp] in
theorem marks_putAdd_self (d : DirtyPair κ ν cmp) (k : κ) (v : ν) :
    (d.putAdd k v).marks k = ⟨some v, none⟩ := by
  simp only [marks, putAdd, TreeMap.getElem?_insert_self, TreeMap.getElem?_erase_self]

theorem marks_putAdd_ne (h : k ≠ n) (d : DirtyPair κ ν cmp) (v : ν) :
    (d.putAdd k v).marks n = d.marks n := by
  simp [marks, putAdd, TreeMap.getElem?_insert, h, getElem?_erase_ne h]

omit [LawfulEqCmp cmp] in
theorem marks_putRemove_self (d : DirtyPair κ ν cmp) (k : κ) (v : ν) :
    (d.putRemove k v).marks k = ⟨none, some v⟩ := by
  simp only [marks, putRemove, TreeMap.getElem?_insert_self, TreeMap.getElem?_erase_self]

theorem marks_putRemove_ne (h : k ≠ n) (d : DirtyPair κ ν cmp) (v : ν) :
    (d.putRemove k v).marks n = d.marks n := by
  simp [marks, putRemove, TreeMap.getElem?_insert, h, getElem?_erase_ne h]

theorem marks_putAdd [DecidableEq κ] (d : DirtyPair κ ν cmp) (k n : κ) (v : ν) :
    (d.putAdd k v).marks n = if k = n then ⟨some v, none⟩ else d.marks n := by
  split
  next heq => rw [heq, marks_putAdd_self]
  next hne => exact marks_putAdd_ne hne d v

theorem marks_putRemove [DecidableEq κ] (d : DirtyPair κ ν cmp) (k n : κ) (v : ν) :
    (d.putRemove k v).marks n = if k = n then ⟨none, some v⟩ else d.marks n := by
  split
  next heq => rw [heq, marks_putRemove_self]
  next hne => exact marks_putRemove_ne hne d v

section Folds

variable {σ ο : Type} {step onAdd onRemove : σ → κ → ν → σ} {k : κ} {v : ν}

omit [TransCmp cmp] [LawfulEqCmp cmp] in
/-- A loop seen through one observation that some of its steps set to one value and the others
leave alone. -/
theorem observe_list_foldl {α : Type} {step : σ → α → σ} (obs : σ → ο) (sets : α → Prop) (value : ο)
    {l : List α} (hsets : ∀ a ∈ l, sets a → ∀ s, obs (step s a) = value)
    (ho : ∀ a ∈ l, ¬sets a → ∀ s, obs (step s a) = obs s) (s : σ) :
    (∃ a ∈ l, sets a) ∧ obs (l.foldl step s) = value ∨
      (∀ a ∈ l, ¬sets a) ∧ obs (l.foldl step s) = obs s := by
  induction l generalizing s with
  | nil => exact Or.inr ⟨by simp, rfl⟩
  | cons a l ih =>
    obtain ⟨ha, hl⟩ := List.forall_mem_cons.1 hsets
    obtain ⟨ha', hl'⟩ := List.forall_mem_cons.1 ho
    rcases ih hl hl' (step s a) with ⟨⟨b, hb, hse⟩, hv⟩ | ⟨hn, hsa⟩
    · exact Or.inl ⟨⟨b, List.mem_cons_of_mem _ hb, hse⟩, hv⟩
    · by_cases hse : sets a
      · exact Or.inl ⟨⟨a, List.mem_cons_self, hse⟩, hsa.trans (ha hse s)⟩
      · exact Or.inr ⟨List.forall_mem_cons.2 ⟨hse, hn⟩, hsa.trans (ha' hse s)⟩

omit [TransCmp cmp] [LawfulEqCmp cmp] in
theorem observe_foldl_of_ne {obs : σ → ο} {l : List (κ × ν)}
    (ho : ∀ s n v, (n, v) ∈ l → n ≠ k → obs (step s n v) = obs s) (h : ∀ p ∈ l, p.1 ≠ k) (s : σ) :
    obs (l.foldl (fun s p => step s p.1 p.2) s) = obs s :=
  List.foldlRecOn (motive := fun s' => obs s' = obs s) l _ rfl fun s' hs p hp =>
    (ho s' p.1 p.2 hp (h p hp)).trans hs

/-- A fold over a map, seen at one key: only the entry of that key matters. -/
theorem observe_foldl (t : TreeMap κ ν cmp) (obs : σ → ο) (k : κ) (f : ο → ν → ο)
    (hse : ∀ s v, t[k]? = some v → obs (step s k v) = f (obs s) v)
    (ho : ∀ s n v, t[n]? = some v → n ≠ k → obs (step s n v) = obs s) (s : σ) :
    obs (t.foldl step s) = t[k]?.elim (obs s) (f (obs s)) := by
  rw [TreeMap.foldl_eq_foldl_toList]
  have he : ∀ s n v, (n, v) ∈ t.toList → n ≠ k → obs (step s n v) = obs s :=
    fun s n v hm => ho s n v (TreeMap.mem_toList_iff_getElem?_eq_some.1 hm)
  cases hk : t[k]? with
  | none =>
    refine observe_foldl_of_ne he (fun p hp heq => ?_) s
    rw [TreeMap.mem_toList_iff_getElem?_eq_some, heq, hk] at hp
    cases hp
  | some v =>
    -- the keys are distinct, so the entry stands between entries of other keys
    obtain ⟨pre, post, hsp⟩ := List.append_of_mem (TreeMap.mem_toList_iff_getElem?_eq_some.2 hk)
    have hd := t.distinct_keys_toList
    rw [hsp, List.pairwise_append] at hd
    obtain ⟨-, hpo, hpr⟩ := hd
    rw [hsp] at he
    have hb : ∀ s, obs (pre.foldl (fun s p => step s p.1 p.2) s) = obs s := by
      refine observe_foldl_of_ne (fun s n w hm => he s n w (List.mem_append_left _ hm)) ?_
      intro p hp heq
      exact hpr p hp (k, v) List.mem_cons_self (heq ▸ ReflCmp.compare_self)
    have ha : ∀ s, obs (post.foldl (fun s p => step s p.1 p.2) s) = obs s := by
      refine observe_foldl_of_ne (fun s n w hm =>
        he s n w (List.mem_append_right _ (List.mem_cons_of_mem _ hm))) ?_
      intro p hp heq
      exact (List.pairwise_cons.1 hpo).1 p hp (heq ▸ ReflCmp.compare_self)
    rw [hsp, List.foldl_append, List.foldl_cons, ha, hse _ v hk, hb]
    rfl

/-- The rule of invariants for a fold over a map. -/
theorem foldl_invariant (P : σ → Prop) (t : TreeMap κ ν cmp) {s : σ} (h0 : P s)
    (hstep : ∀ s k v, t[k]? = some v → P s → P (step s k v)) : P (t.foldl step s) := by
  rw [TreeMap.foldl_eq_foldl_toList]
  exact List.foldlRecOn _ _ h0 fun s hs p hp =>
    hstep s p.1 p.2 (TreeMap.mem_toList_iff_getElem?_eq_some.1 hp) hs

/-- Replays additions and then removals. -/
def replay (onAdd onRemove : σ → κ → ν → σ) (d : DirtyPair κ ν cmp) (s : σ) : σ :=
  d.toRemove.foldl onRemove (d.toAdd.foldl onAdd s)

/-- A replay, seen at one key. -/
theorem observe_replay (d : DirtyPair κ ν cmp) (obs : σ → ο) (k : κ) (f r : ο → ν → ο)
    (ha : ∀ s v, (d.marks k).added = some v → obs (onAdd s k v) = f (obs s) v)
    (ha' : ∀ s n v, (d.marks n).added = some v → n ≠ k → obs (onAdd s n v) = obs s)
    (hr : ∀ s v, (d.marks k).removed = some v → obs (onRemove s k v) = r (obs s) v)
    (hr' : ∀ s n v, (d.marks n).removed = some v → n ≠ k → obs (onRemove s n v) = obs s)
    (s : σ) :
    obs (d.replay onAdd onRemove s) = let mid := (d.marks k).added.elim (obs s) (f (obs s))
      (d.marks k).removed.elim mid (r mid) := by
  rw [replay, observe_foldl d.toRemove obs k r hr hr', observe_foldl d.toAdd obs k f ha ha']
  rfl

/-- A replay seen through an observation that some of its entries set to one value and the others
leave alone. -/
theorem observe_replay_of_sets (d : DirtyPair κ ν cmp) (obs : σ → ο) (sets : ν → Prop) (value : ο)
    (had : ∀ s k v, (d.marks k).added = some v → sets v → obs (onAdd s k v) = value)
    (ha' : ∀ s k v, (d.marks k).added = some v → ¬sets v → obs (onAdd s k v) = obs s)
    (hr : ∀ s k v, (d.marks k).removed = some v → sets v → obs (onRemove s k v) = value)
    (hr' : ∀ s k v, (d.marks k).removed = some v → ¬sets v → obs (onRemove s k v) = obs s)
    (h : ∃ k v, ((d.marks k).added = some v ∨ (d.marks k).removed = some v) ∧ sets v) (s : σ) :
    obs (d.replay onAdd onRemove s) = value := by
  have hg : ∀ (t : TreeMap κ ν cmp) a, a ∈ t.toList → t[a.1]? = some a.2 :=
    fun t a ha => TreeMap.mem_toList_iff_getElem?_eq_some.1 ha
  rw [replay, TreeMap.foldl_eq_foldl_toList, TreeMap.foldl_eq_foldl_toList]
  rcases observe_list_foldl obs (fun a : κ × ν => sets a.2) value
      (fun a ha hse s => hr s a.1 a.2 (hg d.toRemove a ha) hse)
      (fun a ha hse s => hr' s a.1 a.2 (hg d.toRemove a ha) hse)
      (d.toAdd.toList.foldl (fun s a => onAdd s a.1 a.2) s) with ⟨-, hva⟩ | ⟨hn, hsa⟩
  · exact hva
  · rw [hsa]
    rcases observe_list_foldl obs (fun a : κ × ν => sets a.2) value
        (fun a ha hse s => had s a.1 a.2 (hg d.toAdd a ha) hse)
        (fun a ha hse s => ha' s a.1 a.2 (hg d.toAdd a ha) hse) s with
      ⟨-, hva⟩ | ⟨hn', -⟩
    · exact hva
    · obtain ⟨k, v, hv | hv, hse⟩ := h
      · exact absurd hse (hn' (k, v) (TreeMap.mem_toList_iff_getElem?_eq_some.2 hv))
      · exact absurd hse (hn (k, v) (TreeMap.mem_toList_iff_getElem?_eq_some.2 hv))

theorem replay_invariant (P : σ → Prop) (d : DirtyPair κ ν cmp) {s : σ} (h0 : P s)
    (ha : ∀ s k v, d.toAdd[k]? = some v → P s → P (onAdd s k v))
    (hr : ∀ s k v, d.toRemove[k]? = some v → P s → P (onRemove s k v)) :
    P (d.replay onAdd onRemove s) :=
  foldl_invariant P d.toRemove (foldl_invariant P d.toAdd h0 ha) hr

theorem marks_putFlush (d below : DirtyPair κ ν cmp) (k : κ) :
    (d.putFlush below).marks k = (d.marks k).onto (below.marks k) := by
  have h := observe_replay d (fun b : DirtyPair κ ν cmp => b.marks k) k
    (fun _ v => ⟨some v, none⟩) (fun _ v => ⟨none, some v⟩)
    (fun b v _ => marks_putAdd_self b k v) (fun b n v _ hn => marks_putAdd_ne hn b v)
    (fun b v _ => marks_putRemove_self b k v) (fun b n v _ hn => marks_putRemove_ne hn b v) below
  refine Eq.trans h ?_
  unfold Marks.onto
  cases (d.marks k).removed <;> cases (d.marks k).added <;> rfl

theorem marks_flush (d below : DirtyPair κ ν cmp) (k : κ) :
    (d.flush below).marks k = (d.marks k).keepOnto (below.marks k) :=
  observe_replay d (fun b : DirtyPair κ ν cmp => b.marks k) k Marks.add Marks.remove
    (fun b v _ => marks_add_self b k v) (fun b _ v _ hn => marks_add_ne hn b v)
    (fun b v _ => marks_remove_self b k v) (fun b _ v _ hn => marks_remove_ne hn b v) below

/-- Writing the entries of one map over another. -/
theorem getElem?_foldl_insert (t below : TreeMap κ ν cmp) (k : κ) :
    (t.foldl (fun t k v => t.insert k v) below)[k]? = t[k]?.or below[k]? := by
  refine Eq.trans (observe_foldl t (fun b : TreeMap κ ν cmp => b[k]?) k (fun _ v => some v)
    (fun b v _ => TreeMap.getElem?_insert_self) (fun b n v _ hn => ?_) below) ?_
  · simp [TreeMap.getElem?_insert, hn]
  · cases t[k]? <;> rfl

/-- Every mark of the pair obeys `P`. -/
def All (P : κ → ν → Prop) (d : DirtyPair κ ν cmp) : Prop :=
  ∀ k v, (d.marks k).added = some v ∨ (d.marks k).removed = some v → P k v

variable {P : κ → ν → Prop} {d below : DirtyPair κ ν cmp}

omit [LawfulEqCmp cmp] in
theorem all_empty : All P ({} : DirtyPair κ ν cmp) := by
  intro k v h
  rw [marks_empty] at h
  rcases h with h | h <;> cases h

omit [TransCmp cmp] [LawfulEqCmp cmp] in
/-- An operation keeps `P` if what it marks obeys `P` and it changes no other key. -/
theorem All.update {d' : DirtyPair κ ν cmp} (h : d.All P) (hv : P k v)
    (hse : ∀ w, (d'.marks k).added = some w ∨ (d'.marks k).removed = some w →
      v = w ∨ (d.marks k).added = some w ∨ (d.marks k).removed = some w)
    (ho : ∀ n, k ≠ n → d'.marks n = d.marks n) : d'.All P := by
  intro n w hw
  by_cases hk : k = n
  · subst hk
    rcases hse w hw with rfl | hol
    · exact hv
    · exact h k w hol
  · rw [ho n hk] at hw
    exact h n w hw

theorem All.putAdd (h : d.All P) (hv : P k v) : (d.putAdd k v).All P := by
  refine h.update hv (fun w hw => ?_) fun n hn => marks_putAdd_ne hn d v
  simp_all [marks_putAdd_self]

theorem All.putRemove (h : d.All P) (hv : P k v) : (d.putRemove k v).All P := by
  refine h.update hv (fun w hw => ?_) fun n hn => marks_putRemove_ne hn d v
  simp_all [marks_putRemove_self]

theorem All.add (h : d.All P) (hv : P k v) : (d.add k v).All P := by
  refine h.update hv (fun w hw => ?_) fun n hn => marks_add_ne hn d v
  rw [marks_add_self, Marks.add] at hw
  cases ho : (d.marks k).added <;> simp_all

theorem All.remove (h : d.All P) (hv : P k v) : (d.remove k v).All P := by
  refine h.update hv (fun w hw => ?_) fun n hn => marks_remove_ne hn d v
  rw [marks_remove_self, Marks.remove] at hw
  cases ho : (d.marks k).removed <;> simp_all

theorem All.flush (h : d.All P) (hbe : below.All P) : (d.flush below).All P :=
  replay_invariant (All P) d hbe (fun _ k v hv hb => hb.add (h k v (Or.inl hv)))
    fun _ k v hv hb => hb.remove (h k v (Or.inr hv))

theorem All.putFlush (h : d.All P) (hbe : below.All P) : (d.putFlush below).All P :=
  replay_invariant (All P) d hbe (fun _ k v hv hb => hb.putAdd (h k v (Or.inl hv)))
    fun _ k v hv hb => hb.putRemove (h k v (Or.inr hv))

end Folds

end DirtyPair
