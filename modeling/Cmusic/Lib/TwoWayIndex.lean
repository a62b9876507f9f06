import Mathlib.Tactic

/-! An index that files items under keys and remembers the keys of each item, and pairs of maps that
are inverse to each other. -/

open Std

/-- The items filed under a key, and the keys an item is filed under. -/
structure TwoWayIndex (κ η : Type) (cmp : κ → κ → Ordering) (ord : η → η → Ordering) where
  byKey : TreeMap κ (TreeSet η ord) cmp := ∅
  byItem : TreeMap η (TreeSet κ cmp) ord := ∅

namespace TwoWayIndex

variable {κ η : Type} {cmp : κ → κ → Ordering} {ord : η → η → Ordering} {prune forget : Bool}

/-- The items under a key. -/
def itemsOf (index : TwoWayIndex κ η cmp ord) (k : κ) : TreeSet η ord := index.byKey.getD k ∅

/-- The keys of an item. -/
def keysOf (index : TwoWayIndex κ η cmp ord) (a : η) : TreeSet κ cmp := index.byItem.getD a ∅

def file (index : TwoWayIndex κ η cmp ord) (k : κ) (a : η) : TwoWayIndex κ η cmp ord where
  byKey := index.byKey.insert k ((index.itemsOf k).insert a)
  byItem := index.byItem.insert a ((index.byItem.getD a ∅).insert k)

/-- Takes an item out of the set of a key; with `prune` an empty set is dropped. -/
def withdraw (prune : Bool) (a : η) (byKey : TreeMap κ (TreeSet η ord) cmp) (k : κ) :
    TreeMap κ (TreeSet η ord) cmp :=
  match byKey[k]? with
  | none => byKey
  | some items =>
    if prune && (items.erase a).isEmpty then byKey.erase k else byKey.insert k (items.erase a)

/-- Takes an item out of the sets of its keys; with `forget` its own set goes as well. -/
def unfile (prune forget : Bool) (index : TwoWayIndex κ η cmp ord) (a : η) :
    TwoWayIndex κ η cmp ord :=
  match index.byItem[a]? with
  | none => index
  | some keys => {
      byKey := keys.toList.foldl (withdraw prune a) index.byKey
      byItem := if forget then index.byItem.erase a else index.byItem }

/-- The item occurs in one of the two maps. -/
def Mentions (index : TwoWayIndex κ η cmp ord) (a : η) : Prop :=
  (∃ k, a ∈ index.itemsOf k) ∨ a ∈ index.byItem

variable [TransCmp cmp] [LawfulEqCmp cmp] [TransCmp ord] [LawfulEqCmp ord]
  {index : TwoWayIndex κ η cmp ord} {k n : κ} {a b : η}

omit [TransCmp ord] [LawfulEqCmp ord] in
theorem exists_mem_itemsOf_iff :
    (∃ k, a ∈ index.itemsOf k) ↔ ∃ row ∈ index.byKey.toList, a ∈ row.2 := by
  constructor
  · rintro ⟨k, hk⟩
    rw [itemsOf, TreeMap.getD_eq_getD_getElem?] at hk
    cases hr : index.byKey[k]? with
    | none => simp [hr] at hk
    | some items =>
      rw [hr] at hk
      exact ⟨(k, items), TreeMap.mem_toList_iff_getElem?_eq_some.2 hr, hk⟩
  · rintro ⟨⟨k, items⟩, hr, ha⟩
    have hg := TreeMap.mem_toList_iff_getElem?_eq_some.1 hr
    refine ⟨k, ?_⟩
    rw [itemsOf, TreeMap.getD_eq_getD_getElem?, hg]
    exact ha

instance : Decidable (index.Mentions a) :=
  decidable_of_iff ((∃ row ∈ index.byKey.toList, a ∈ row.2) ∨ a ∈ index.byItem)
    (or_congr exists_mem_itemsOf_iff.symm Iff.rfl)

omit [TransCmp ord] [LawfulEqCmp ord] in
theorem mem_byKey_file : n ∈ (index.file k a).byKey ↔ n = k ∨ n ∈ index.byKey := by
  rw [file, TreeMap.mem_insert, LawfulEqCmp.compare_eq_iff_eq, eq_comm]

theorem mem_itemsOf_file :
    b ∈ (index.file k a).itemsOf n ↔ (n = k ∧ b = a) ∨ b ∈ index.itemsOf n := by
  rw [itemsOf, file, TreeMap.getD_insert]
  by_cases hn : n = k
  · simp [hn, @eq_comm _ a]
  · simp [hn, Ne.symm hn, itemsOf]

theorem mem_keysOf_file : n ∈ (index.file k a).keysOf b ↔ (n = k ∧ b = a) ∨ n ∈ index.keysOf b := by
  rw [keysOf, file, TreeMap.getD_insert]
  by_cases hb : b = a
  · simp [hb, @eq_comm _ k, keysOf]
  · simp [hb, Ne.symm hb, keysOf]

theorem mentions_file : (index.file k a).Mentions b ↔ b = a ∨ index.Mentions b := by
  simp only [Mentions, mem_itemsOf_file]
  rw [file, TreeMap.mem_insert, LawfulEqCmp.compare_eq_iff_eq]
  constructor
  · rintro (⟨n, ⟨-, rfl⟩ | hm⟩ | rfl | hm)
    · exact Or.inl rfl
    · exact Or.inr (Or.inl ⟨n, hm⟩)
    · exact Or.inl rfl
    · exact Or.inr (Or.inr hm)
  · rintro (rfl | ⟨n, hm⟩ | hm)
    · exact Or.inr (Or.inl rfl)
    · exact Or.inl ⟨n, Or.inr hm⟩
    · exact Or.inr (Or.inr hm)

theorem mem_getD_withdraw {byKey : TreeMap κ (TreeSet η ord) cmp} :
    b ∈ (withdraw prune a byKey k).getD n ∅ ↔ b ∈ byKey.getD n ∅ ∧ ¬ (n = k ∧ b = a) := by
  have he : ∀ items : TreeSet η ord, b ∈ items.erase a ↔ b ∈ items ∧ b ≠ a := by
    intro items
    rw [TreeSet.mem_erase, Ne, LawfulEqCmp.compare_eq_iff_eq, and_comm, eq_comm]
  by_cases hn : n = k
  · subst hn
    unfold withdraw
    split
    next hno => simp [TreeMap.getD_eq_getD_getElem?, hno]
    next items hi =>
      have hg : byKey.getD n ∅ = items := by simp [TreeMap.getD_eq_getD_getElem?, hi]
      rw [hg]
      split
      next hem =>
        have hnot : b ∉ items.erase a := by
          intro hm
          simp only [Bool.and_eq_true] at hem
          exact TreeSet.isEmpty_iff_forall_not_mem.1 hem.2 b hm
        rw [he] at hnot
        simpa using hnot
      · rw [TreeMap.getD_insert_self, he]
        simp
  · simp only [hn, false_and, not_false_eq_true, and_true]
    unfold withdraw
    split
    · rfl
    · split
      · simp [TreeMap.getD_erase, Ne.symm hn]
      · simp [TreeMap.getD_insert, Ne.symm hn]

theorem mem_itemsOf_unfile : b ∈ (index.unfile prune forget a).itemsOf n ↔
      b ∈ index.itemsOf n ∧ ¬ (n ∈ index.keysOf a ∧ b = a) := by
  have hf : ∀ (l : List κ) (byKey : TreeMap κ (TreeSet η ord) cmp),
      b ∈ (l.foldl (withdraw prune a) byKey).getD n ∅ ↔ b ∈ byKey.getD n ∅ ∧ ¬ (n ∈ l ∧ b = a) := by
    intro l
    induction l with
    | nil => simp
    | cons m l ih =>
      intro byKey
      rw [List.foldl_cons, ih, mem_getD_withdraw, List.mem_cons]
      tauto
  unfold unfile
  split
  next hn => simp [keysOf, TreeMap.getD_eq_getD_getElem?, hn]
  next keys hke =>
    have hg : index.keysOf a = keys := by simp [keysOf, TreeMap.getD_eq_getD_getElem?, hke]
    rw [itemsOf, hf, TreeSet.mem_toList, hg, itemsOf]

/-- Taking an item out leaves no item mentioned that was not. -/
theorem Mentions.of_unfile (h : (index.unfile prune forget b).Mentions a) : index.Mentions a := by
  rcases h with ⟨k, hk⟩ | hi
  · exact Or.inl ⟨k, (mem_itemsOf_unfile.1 hk).1⟩
  · refine Or.inr ?_
    unfold unfile at hi
    split at hi
    · exact hi
    · dsimp only at hi
      split at hi
      · exact TreeMap.mem_of_mem_erase hi
      · exact hi

omit [TransCmp cmp] [LawfulEqCmp cmp] in
theorem getElem?_byItem_unfile :
    (index.unfile prune true a).byItem[b]? = if ord a b = .eq then none else index.byItem[b]? := by
  unfold unfile
  split
  next hn =>
    split
    next heq => rw [← LawfulEqCmp.eq_of_compare heq, hn]
    · rfl
  · rw [if_pos rfl, TreeMap.getElem?_erase]

omit [TransCmp cmp] [LawfulEqCmp cmp] in
theorem mem_keysOf_unfile :
    n ∈ (index.unfile prune true a).keysOf b ↔ n ∈ index.keysOf b ∧ b ≠ a := by
  rw [keysOf, TreeMap.getD_eq_getD_getElem?, getElem?_byItem_unfile]
  by_cases hb : b = a
  · simp [hb]
  · simp [hb, Ne.symm hb, keysOf, TreeMap.getD_eq_getD_getElem?]

/-- The two maps are inverse relations, and every item that occurs in them has the property. -/
structure Exact (index : TwoWayIndex κ η cmp ord) (S : η → Prop) : Prop where
  inverse : ∀ k a, a ∈ index.itemsOf k ↔ k ∈ index.keysOf a
  within : ∀ a, index.Mentions a → S a

namespace Exact

variable {S T : η → Prop}

omit [LawfulEqCmp cmp] [LawfulEqCmp ord] in
theorem empty : Exact ({} : TwoWayIndex κ η cmp ord) S where
  inverse := by simp [itemsOf, keysOf]
  within := by simp [Mentions, itemsOf]

omit [TransCmp cmp] [LawfulEqCmp cmp] [TransCmp ord] [LawfulEqCmp ord] in
theorem mono (h : index.Exact S) (hST : ∀ a, S a → T a) : index.Exact T :=
  ⟨h.inverse, fun a ha => hST a (h.within a ha)⟩

theorem file (h : index.Exact S) (k : κ) (ha : S a) : (index.file k a).Exact S where
  inverse n b := by rw [mem_itemsOf_file, mem_keysOf_file, h.inverse]
  within b hb := by
    rcases mentions_file.1 hb with rfl | hb
    · exact ha
    · exact h.within b hb

theorem unfile (h : index.Exact S) (prune : Bool) (a : η) :
    (index.unfile prune true a).Exact fun b => S b ∧ b ≠ a where
  inverse n b := by
    rw [mem_itemsOf_unfile, mem_keysOf_unfile, h.inverse]
    constructor
    · rintro ⟨hm, hno⟩
      exact ⟨hm, fun heq => hno ⟨heq ▸ hm, heq⟩⟩
    · rintro ⟨hm, hne⟩
      exact ⟨hm, fun hbo => hne hbo.2⟩
  within b hb := by
    refine ⟨h.within b hb.of_unfile, ?_⟩
    rintro rfl
    rcases hb with ⟨n, hn⟩ | hi
    · obtain ⟨hm, hno⟩ := mem_itemsOf_unfile.1 hn
      exact hno ⟨(h.inverse n b).1 hm, rfl⟩
    · rw [TreeMap.mem_iff_isSome_getElem?, getElem?_byItem_unfile,
        if_pos ReflCmp.compare_self] at hi
      cases hi

end Exact

end TwoWayIndex

/-- One key for an item and one item for a key. -/
def InverseMaps {κ η : Type} {cmp : κ → κ → Ordering} {ord : η → η → Ordering}
    (m : TreeMap κ η cmp) (m' : TreeMap η κ ord) : Prop :=
  ∀ (k : κ) (a : η), m[k]? = some a ↔ m'[a]? = some k

namespace InverseMaps

variable {κ η : Type} {cmp : κ → κ → Ordering} {ord : η → η → Ordering} [TransCmp cmp]
  [LawfulEqCmp cmp] [TransCmp ord] [LawfulEqCmp ord] {m : TreeMap κ η cmp} {m' : TreeMap η κ ord}
  {k : κ} {a : η}

theorem erase (h : InverseMaps m m') (hk : m[k]? = some a) : InverseMaps (m.erase k) (m'.erase a) := by
  intro n b
  have ha := (h k a).1 hk
  simp only [TreeMap.getElem?_erase, LawfulEqCmp.compare_eq_iff_eq]
  by_cases hn : k = n
  · subst hn
    by_cases hb : a = b
    · simp [hb]
    · simp [hb, ← h k b, hk]
  · by_cases hb : a = b
    · subst hb
      simp [hn, h n a, ha]
    · simp [hn, hb, h n b]

theorem insert (h : InverseMaps m m') (hk : m[k]? = none) (ha : m'[a]? = none) :
    InverseMaps (m.insert k a) (m'.insert a k) := by
  intro n b
  simp only [TreeMap.getElem?_insert, LawfulEqCmp.compare_eq_iff_eq]
  by_cases hn : k = n
  · subst hn
    by_cases hb : a = b
    · simp [hb]
    · simp [hb, ← h k b, hk]
  · by_cases hb : a = b
    · subst hb
      simp [hn, h n a, ha]
    · simp [hn, hb, h n b]

omit [TransCmp ord] [LawfulEqCmp ord] [LawfulEqCmp cmp] in
theorem getElem?_insertIfNew_of_none (hk : m[k]? = none) (n : κ) :
    (m.insertIfNew k a)[n]? = (m.insert k a)[n]? := by
  have hm : k ∉ m := by rw [TreeMap.mem_iff_isSome_getElem?, hk]; exact Bool.false_ne_true
  simp [TreeMap.getElem?_insertIfNew, TreeMap.getElem?_insert, hm]

theorem insertIfNew (h : InverseMaps m m') (hk : m[k]? = none) (ha : m'[a]? = none) :
    InverseMaps (m.insertIfNew k a) (m'.insertIfNew a k) := by
  intro n b
  rw [getElem?_insertIfNew_of_none hk, getElem?_insertIfNew_of_none ha]
  exact h.insert hk ha n b

end InverseMaps
