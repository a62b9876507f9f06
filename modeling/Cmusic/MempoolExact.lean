import Cmusic.MempoolStats

/-! What an addition and a removal do to the statistics of the pool. -/
namespace Cmusic

open Std Relation Maps CTxMemPool CTxMemPoolEntry

section Entries

variable {entries : TreeMap UInt256 CTxMemPoolEntry} {k : UInt256}
  {change : CTxMemPoolEntry → CTxMemPoolEntry}

theorem getElem?_modify_entry (hash : UInt256) : (entries.modify hash change)[k]? =
      if k = hash then entries[k]?.map change else entries[k]? := by
  by_cases hk : k = hash
  · simp [hk]
  · simp [TreeMap.getElem?_modify, hk, Ne.symm hk]

theorem getElem?_modifyEach {hashes : List UInt256} (hn : hashes.Nodup) :
    (modifyEach entries hashes change)[k]? =
      if k ∈ hashes then entries[k]?.map change else entries[k]? := by
  induction hashes generalizing entries with
  | nil => rfl
  | cons hash hashes ih =>
    rw [List.nodup_cons] at hn
    have hr : modifyEach entries (hash :: hashes) change =
        modifyEach (entries.modify hash change) hashes change := rfl
    rw [hr, ih hn.2, getElem?_modify_entry]
    by_cases h : k = hash
    · subst h
      simp [hn.1]
    · simp [h]

/-- A loop that changes a figure of some entries in every turn changes it by the sum. -/
theorem getElem?_foldl_modifyEach {M : Type} [AddCommMonoid M]
    (act : M → CTxMemPoolEntry → CTxMemPoolEntry) (hz : ∀ e, act 0 e = e)
    (ha : ∀ a b e, act b (act a e) = act (a + b) e) {touched : UInt256 → List UInt256}
    (hn : ∀ x, (touched x).Nodup) (change : UInt256 → M) (stage : List UInt256) :
    (stage.foldl (fun entries x => modifyEach entries (touched x) (act (change x))) entries)[k]? =
      entries[k]?.map (act (stage.map fun x => if k ∈ touched x then change x else 0).sum) := by
  induction stage generalizing entries with
  | nil =>
    have hid : act 0 = id := funext hz
    simp [hid]
  | cons x stage ih =>
    rw [List.foldl_cons, ih, getElem?_modifyEach (hn x), List.map_cons, List.sum_cons]
    split
    · rw [Option.map_map]
      congr 1
      exact funext fun e => ha _ _ e
    · rw [zero_add]

end Entries

namespace CTxMemPoolEntry

variable (entry : CTxMemPoolEntry)

theorem updateDescendantState_zero : entry.updateDescendantState 0 = entry := by
  rw [updateDescendantState, add_zero]

theorem updateDescendantState_add (a b : PackageStats) :
    (entry.updateDescendantState a).updateDescendantState b = entry.updateDescendantState (a + b) := by
  simp only [updateDescendantState, add_assoc]

theorem updateAncestorState_zero : entry.updateAncestorState 0 = entry := by
  simp [updateAncestorState]

theorem updateAncestorState_add (a b : PackageStats × Int) :
    (entry.updateAncestorState a).updateAncestorState b = entry.updateAncestorState (a + b) := by
  simp only [updateAncestorState, Prod.fst_add, Prod.snd_add, add_assoc]

theorem ancestorCost_updateAncestorState (d : PackageStats × Int) :
    (entry.updateAncestorState d).ancestorCost = entry.ancestorCost + d := rfl

/-- An entry whose package is the transaction itself. -/
def Fresh : Prop := entry.withDescendants = entry.own ∧ entry.ancestorCost = entry.ownCost

theorem fresh_create (nBytesPerSigOp : Nat) (nFee : CAmount) (nTxWeight sigOpCost : Nat) :
    (create nBytesPerSigOp nFee nTxWeight sigOpCost).Fresh := by
  have hf : nFee + 0 = nFee := Int64.add_zero nFee
  refine ⟨?_, ?_⟩ <;> simp only [create, own, ancestorCost, ownCost, getModifiedFee, hf]

/-- A fee delta goes into both packages. -/
theorem Fresh.updateFeeDelta {entry : CTxMemPoolEntry} (h : entry.Fresh) (delta : CAmount) :
    (entry.updateFeeDelta delta).Fresh := by
  obtain ⟨hd, ha⟩ := h
  have ha' : entry.withAncestors = entry.own := congrArg Prod.fst ha
  have hsi : entry.nSigOpCostWithAncestors = entry.sigOpCost := congrArg Prod.snd ha
  have hf : entry.getModifiedFee + (delta - entry.feeDelta) = entry.nFee + delta := by
    rw [getModifiedFee, Int64.sub_eq_add_neg, Int64.add_assoc, Int64.add_comm delta,
      ← Int64.add_assoc entry.feeDelta, Int64.add_right_neg, Int64.zero_add]
  have ho : ∀ stats : PackageStats, stats = entry.own →
      { stats with modFees := stats.modFees + (delta - entry.feeDelta) } =
        (entry.updateFeeDelta delta).own := by
    rintro _ rfl
    exact PackageStats.ext rfl rfl hf
  exact ⟨ho _ hd, Prod.ext (ho _ ha') hsi⟩

end CTxMemPoolEntry

namespace CTxMemPool

variable {pool : CTxMemPool} {tx : CTransaction} {a b : UInt256}

theorem Descends.addUnchecked (hnew : tx.hash ∉ pool.mapTx) (h : pool.Descends a b) :
    (pool.addUnchecked tx).Descends a b :=
  ReflTransGen.mono (fun _ _ hspends => (spendsFrom_addUnchecked hnew).2 (Or.inr hspends)) _ _ h

/-- A path that cannot go on from the new transaction was there before. -/
theorem descends_of_addUnchecked_end (hnew : tx.hash ∉ pool.mapTx)
    (h : (pool.addUnchecked tx).Descends a b)
    (hb : ¬(pool.addUnchecked tx).Descends tx.hash b) : pool.Descends a b := by
  induction h with
  | refl => exact .refl
  | @tail c b _ hspends ih =>
    have hc : ¬(pool.addUnchecked tx).Descends tx.hash c := fun hc => hb (hc.tail hspends)
    rcases (spendsFrom_addUnchecked hnew).1 hspends with ⟨rfl, -⟩ | ho
    · exact absurd .refl hb
    · exact (ih hc).tail ho

/-- A path that does not lead to the new transaction was there before. -/
theorem descends_of_addUnchecked_start (hnew : tx.hash ∉ pool.mapTx)
    (h : (pool.addUnchecked tx).Descends a b)
    (ha : ¬(pool.addUnchecked tx).Descends a tx.hash) : pool.Descends a b := by
  induction h with
  | refl => exact .refl
  | @tail c b hac hspends ih =>
    rcases (spendsFrom_addUnchecked hnew).1 hspends with ⟨rfl, -⟩ | ho
    · exact absurd (hac.tail hspends) ha
    · exact ih.tail ho

/-- Along the links of an entry the walk finds what it descends from. -/
theorem Linked.mem_memPoolAncestors (h : pool.Linked) (hb : b ∈ pool.mapTx) :
    a ∈ pool.memPoolAncestors b ↔
      a ∈ pool.mapTx ∧ ∃ parent, pool.SpendsFrom b parent ∧ pool.Descends a parent := by
  -- following the links upwards stays in the pool and inverts the paths
  have hr : ∀ p ∈ pool.mapTx, ∀ c, ReflTransGen (fun a b => b ∈ (pool.linksOf a).parents) p c ↔
        c ∈ pool.mapTx ∧ pool.Descends c p := by
    intro p hp c
    constructor
    · intro hpc
      induction hpc with
      | refl => exact ⟨hp, .refl⟩
      | tail _ hstep ih =>
        obtain ⟨hm, hspends⟩ := (h.parents _ ih.1 _).1 hstep
        exact ⟨hm, ih.2.head hspends⟩
    · rintro ⟨hc, hcp⟩
      induction hcp using ReflTransGen.head_induction_on with
      | refl => exact .refl
      | head hspends hre ih =>
        have hm := mem_of_spendsFrom hspends
        exact (ih hm).tail ((h.parents _ hm _).2 ⟨hc, hspends⟩)
  have hpar := fun c => h.parents b hb c
  have hsi : (pool.mapTx.keys.toFinset.filter (· ∉ (∅ : TreeSet UInt256))).card ≤ pool.mapTx.size :=
    calc (pool.mapTx.keys.toFinset.filter (· ∉ (∅ : TreeSet UInt256))).card
      _ ≤ pool.mapTx.keys.toFinset.card := Finset.card_filter_le _ _
      _ ≤ pool.mapTx.keys.length := List.toFinset_card_le _
      _ = pool.mapTx.size := TreeMap.length_keys
  rw [memPoolAncestors, Walk.mem_walk pool.mapTx.keys.toFinset (by simp) (by simp) ?_ hsi]
  · constructor
    · rintro (hm | ⟨p, hp, hpa⟩)
      · simp at hm
      · obtain ⟨hpo, hspends⟩ := (hpar p).1 hp
        obtain ⟨ha, hap⟩ := (hr p hpo a).1 hpa
        exact ⟨ha, p, hspends, hap⟩
    · rintro ⟨ha, p, hspends, hap⟩
      have hpo := mem_of_descends ha hap
      exact Or.inr ⟨p, (hpar p).2 ⟨hpo, hspends⟩, (hr p hpo a).2 ⟨ha, hap⟩⟩
  · intro p hp c hpc
    rw [List.mem_toFinset, TreeMap.mem_keys]
    exact ((hr p ((hpar p).1 hp).1 c).1 hpc).1

theorem Linked.mem_memPoolAncestors_of_ne (h : pool.Linked) (hb : b ∈ pool.mapTx) (hne : a ≠ b) :
    a ∈ pool.memPoolAncestors b ↔ a ∈ pool.mapTx ∧ pool.Descends a b := by
  rw [h.mem_memPoolAncestors hb]
  refine and_congr_right fun _ => ⟨fun ⟨p, hspends, hap⟩ => hap.tail hspends, fun hab => ?_⟩
  rcases ReflTransGen.cases_tail hab with heq | ⟨p, hap, hspends⟩
  · exact absurd heq.symm hne
  · exact ⟨p, hspends, hap⟩

end CTxMemPool

namespace MeasuredPool

variable {s : MeasuredPool} {k : UInt256}

section Totals

variable {M : Type} [AddCommMonoid M] {f : CTxMemPoolEntry → M} {P Q : UInt256 → Prop}

open Classical in
/-- A figure summed up over the entries with a property. -/
noncomputable def total (s : MeasuredPool) (f : CTxMemPoolEntry → M) (P : UInt256 → Prop) : M :=
  ∑ hash ∈ s.pool.mapTx.keys.toFinset with P hash, s.figure f hash

/-- Two pools that agree on the entries with a property and on their figures. -/
theorem total_eq_total {t : MeasuredPool}
    (hm : ∀ hash, hash ∈ t.pool.mapTx ∧ Q hash ↔ hash ∈ s.pool.mapTx ∧ P hash)
    (hf : ∀ hash ∈ s.pool.mapTx, P hash → t.figure f hash = s.figure f hash) :
    t.total f Q = s.total f P := by
  classical
  refine Finset.sum_congr (Finset.ext fun hash => ?_) fun hash hin => ?_
  · simp only [Finset.mem_filter, List.mem_toFinset, TreeMap.mem_keys]
    exact hm hash
  · rw [Finset.mem_filter, List.mem_toFinset, TreeMap.mem_keys] at hin
    exact hf hash hin.1 hin.2

theorem total_congr (h : ∀ hash ∈ s.pool.mapTx, P hash ↔ Q hash) : s.total f P = s.total f Q :=
  total_eq_total (fun hash => and_congr_right (h hash)) fun _ _ _ => rfl

/-- The sum over the entries of a set that the code has collected. -/
theorem sum_figure_eq_total {l : List UInt256} (hn : l.Nodup)
    (h : ∀ hash, hash ∈ l ↔ hash ∈ s.pool.mapTx ∧ P hash) :
    (l.map (s.figure f)).sum = s.total f P := by
  classical
  rw [total, ← List.sum_toFinset _ hn]
  refine Finset.sum_congr (Finset.ext fun hash => ?_) fun _ _ => rfl
  rw [List.mem_toFinset, h, Finset.mem_filter, List.mem_toFinset, TreeMap.mem_keys]

theorem total_or (h : ∀ hash, P hash → ¬Q hash) :
    (s.total f fun hash => P hash ∨ Q hash) = s.total f P + s.total f Q := by
  classical
  rw [total, total, total, ← Finset.sum_union (Finset.disjoint_filter.2 fun hash _ hP hQ => h hash hP hQ)]
  refine Finset.sum_congr (Finset.ext fun hash => ?_) fun _ _ => rfl
  simp only [Finset.mem_union, Finset.mem_filter, and_or_left]

theorem total_false (h : ∀ hash ∈ s.pool.mapTx, ¬P hash) : s.total f P = 0 := by
  classical
  rw [total, Finset.filter_false_of_mem, Finset.sum_empty]
  intro hash hm
  rw [List.mem_toFinset, TreeMap.mem_keys] at hm
  exact h hash hm

end Totals

/-- The figures of every entry are the sums over the entries that a relation puts below and above
it. -/
structure ExactFor (s : MeasuredPool) (R : UInt256 → UInt256 → Prop) : Prop where
  descendants : ∀ (k : UInt256) (entry : CTxMemPoolEntry), s.entries[k]? = some entry →
    entry.withDescendants = s.total CTxMemPoolEntry.own (R k)
  ancestors : ∀ (k : UInt256) (entry : CTxMemPoolEntry), s.entries[k]? = some entry →
    entry.ancestorCost = s.total CTxMemPoolEntry.ownCost fun hash => R hash k

/-- Every transaction of the pool has its entry and its links. -/
structure Kept (s : MeasuredPool) : Prop where
  entries : ∀ hash, hash ∈ s.entries ↔ hash ∈ s.pool.mapTx
  links : ∀ hash, hash ∈ s.pool.mapLinks ↔ hash ∈ s.pool.mapTx

theorem Kept.mem_of_getElem? (h : s.Kept) {entry : CTxMemPoolEntry} (he : s.entries[k]? = some entry) :
    k ∈ s.pool.mapTx :=
  (h.entries k).1 (Maps.mem_of_getElem? he)

section Addition

variable {tx : CTransaction} {entry : CTxMemPoolEntry} {setAncestors : TreeSet UInt256}

/-- The entry of a new transaction, with its fee delta. -/
def withDelta (s : MeasuredPool) (hash : UInt256) (entry : CTxMemPoolEntry) : CTxMemPoolEntry :=
  match s.mapDeltas[hash]? with
  | some delta => if delta ≠ 0 then entry.updateFeeDelta delta else entry
  | none => entry

theorem fresh_withDelta (h : entry.Fresh) : (s.withDelta k entry).Fresh := by
  unfold withDelta
  split
  · split
    · exact h.updateFeeDelta _
    · exact h
  · exact h

theorem getElem?_insertEntry {hash : UInt256} (hnew : hash ∉ s.entries) :
    (s.insertEntry hash entry).entries[k]? =
      if k = hash then some (s.withDelta hash entry) else s.entries[k]? := by
  have hn : s.entries[hash]? = none := TreeMap.getElem?_eq_none hnew
  have hi : (s.entries.insertIfNew hash entry)[k]? =
      if k = hash then some entry else s.entries[k]? := by
    by_cases hk : k = hash
    · rw [hk, if_pos rfl, DirtyPair.getElem?_insertIfNew_self, hn]
      rfl
    · rw [if_neg hk, DirtyPair.getElem?_insertIfNew_ne (Ne.symm hk)]
  unfold insertEntry withDelta
  cases s.mapDeltas[hash]? with
  | some delta =>
    dsimp only
    split
    · rw [getElem?_modify_entry, hi]
      by_cases hk : k = hash <;> simp [hk]
    · exact hi
  | none => exact hi

/-- The entries after an addition: the new one, and the ancestors with one more descendant. -/
theorem getElem?_addUnchecked (hnew : tx.hash ∉ s.entries) (hse : tx.hash ∉ setAncestors) :
    (s.addUnchecked tx entry setAncestors).entries[k]? =
      if k = tx.hash then some ((s.withDelta tx.hash entry).updateAncestorState
        (setAncestors.toList.map (s.figure ownCost)).sum)
      else if k ∈ setAncestors then s.entries[k]?.map
        (·.updateDescendantState (s.withDelta tx.hash entry).own)
      else s.entries[k]? := by
  have ho : figure { s.insertEntry tx.hash entry with pool := s.pool.addUnchecked tx }
      CTxMemPoolEntry.own tx.hash = (s.withDelta tx.hash entry).own := by
    rw [figure]
    rw [getElem?_insertEntry hnew, if_pos rfl]
    rfl
  have he : ∀ hash, (modifyEach (s.insertEntry tx.hash entry).entries setAncestors.toList
      (·.updateDescendantState (s.withDelta tx.hash entry).own))[hash]? =
        if hash ∈ setAncestors then (s.insertEntry tx.hash entry).entries[hash]?.map
          (·.updateDescendantState (s.withDelta tx.hash entry).own)
        else (s.insertEntry tx.hash entry).entries[hash]? := by
    intro hash
    rw [getElem?_modifyEach (nodup_toList setAncestors)]
    simp only [TreeSet.mem_toList]
  unfold addUnchecked
  dsimp only
  rw [ho, getElem?_modify_entry, he, getElem?_insertEntry hnew]
  by_cases hk : k = tx.hash
  · subst hk
    rw [if_pos rfl, if_pos rfl, if_pos rfl, if_neg hse, Option.map_some]
    congr 2
    -- the figures of the ancestors are those from before
    refine congrArg List.sum (List.map_congr_left fun hash hm => ?_)
    rw [TreeSet.mem_toList] at hm
    have hne : hash ≠ tx.hash := fun heq => hse (heq ▸ hm)
    rw [figure, figure, he, getElem?_insertEntry hnew, if_pos hm, if_neg hne, Option.map_map]
    rfl
  · simp only [if_neg hk]

/-- A figure that the statistics do not enter is the one from before. -/
theorem figure_addUnchecked {M : Type} [Zero M] {f : CTxMemPoolEntry → M}
    (hd : ∀ e d, f (e.updateDescendantState d) = f e)
    (ha : ∀ e d, f (e.updateAncestorState d) = f e)
    (hnew : tx.hash ∉ s.entries) (hse : tx.hash ∉ setAncestors) :
    (s.addUnchecked tx entry setAncestors).figure f k =
      if k = tx.hash then f (s.withDelta tx.hash entry) else s.figure f k := by
  rw [figure, getElem?_addUnchecked hnew hse]
  split
  · exact ha _ _
  · split
    · rw [Option.map_map, figure]
      congr 2
      exact funext fun e => hd e _
    · rfl

theorem total_addUnchecked {M : Type} [AddCommMonoid M] {f : CTxMemPoolEntry → M}
    (hd : ∀ e d, f (e.updateDescendantState d) = f e)
    (ha : ∀ e d, f (e.updateAncestorState d) = f e) (h : s.Kept)
    (hnew : tx.hash ∉ s.pool.mapTx) (hse : tx.hash ∉ setAncestors) {P : UInt256 → Prop} :
    (P tx.hash → (s.addUnchecked tx entry setAncestors).total f P =
      s.total f P + f (s.withDelta tx.hash entry)) ∧
    (¬P tx.hash → (s.addUnchecked tx entry setAncestors).total f P = s.total f P) := by
  classical
  have hn : tx.hash ∉ s.entries := mt (h.entries _).1 hnew
  have hke : (s.addUnchecked tx entry setAncestors).pool.mapTx.keys.toFinset =
      insert tx.hash s.pool.mapTx.keys.toFinset := by
    ext hash
    rw [Finset.mem_insert, List.mem_toFinset, List.mem_toFinset, TreeMap.mem_keys, TreeMap.mem_keys]
    exact mem_addUnchecked hnew
  have hno : tx.hash ∉ s.pool.mapTx.keys.toFinset := by
    rwa [List.mem_toFinset, TreeMap.mem_keys]
  have hr : ∑ hash ∈ s.pool.mapTx.keys.toFinset with P hash,
      (s.addUnchecked tx entry setAncestors).figure f hash = s.total f P := by
    refine Finset.sum_congr rfl fun hash hm => ?_
    have hne : hash ≠ tx.hash := fun heq => hno (heq ▸ (Finset.mem_filter.1 hm).1)
    rw [figure_addUnchecked hd ha hn hse, if_neg hne]
  constructor <;> intro hP <;> rw [total, hke, Finset.filter_insert]
  · rw [if_pos hP, Finset.sum_insert (fun hm => hno (Finset.mem_filter.1 hm).1), hr,
      figure_addUnchecked hd ha hn hse, if_pos rfl, add_comm]
  · rw [if_neg hP, hr]

/-- An entry that nothing is below goes in below its ancestors. -/
theorem ExactFor.addUnchecked {R R' : UInt256 → UInt256 → Prop} (h : s.ExactFor R) (hke : s.Kept)
    (hf : entry.Fresh) (hnew : tx.hash ∉ s.pool.mapTx)
    (ho : ∀ a ∈ s.pool.mapTx, ∀ b ∈ s.pool.mapTx, R' a b ↔ R a b) (hse : R' tx.hash tx.hash)
    (hbe : ∀ b ∈ s.pool.mapTx, ¬R' tx.hash b)
    (hab : ∀ a, a ∈ setAncestors ↔ a ∈ s.pool.mapTx ∧ R' a tx.hash) :
    (s.addUnchecked tx entry setAncestors).ExactFor R' := by
  have hn : tx.hash ∉ setAncestors := fun hm => hnew ((hab _).1 hm).1
  have hnewE : tx.hash ∉ s.entries := mt (hke.entries _).1 hnew
  obtain ⟨hd, han⟩ := @fresh_withDelta s tx.hash entry hf
  constructor
  case descendants =>
    intro k e he
    rw [getElem?_addUnchecked hnewE hn] at he
    obtain ⟨hwi, hw⟩ := @total_addUnchecked s tx entry setAncestors PackageStats _
      CTxMemPoolEntry.own (fun _ _ => rfl) (fun _ _ => rfl) hke hnew hn (R' k)
    by_cases hkx : k = tx.hash
    · rw [if_pos hkx] at he
      cases he
      subst hkx
      rw [hwi hse, total_false hbe, zero_add]
      exact hd
    · rw [if_neg hkx] at he
      split at he
      next hm =>
        obtain ⟨old, hen, rfl⟩ := Option.map_eq_some_iff.1 he
        have hk := hke.mem_of_getElem? hen
        rw [hwi ((hab k).1 hm).2, total_congr (ho k hk), ← h.descendants k old hen]
        rfl
      next hout =>
        have hk := hke.mem_of_getElem? he
        rw [hw fun hR => hout ((hab k).2 ⟨hk, hR⟩), total_congr (ho k hk), ← h.descendants k e he]
  case ancestors =>
    intro k e he
    rw [getElem?_addUnchecked hnewE hn] at he
    obtain ⟨hwi, hw⟩ := @total_addUnchecked s tx entry setAncestors (PackageStats × Int) _
      ownCost (fun _ _ => rfl) (fun _ _ => rfl) hke hnew hn fun a => R' a k
    by_cases hkx : k = tx.hash
    · rw [if_pos hkx] at he
      cases he
      subst hkx
      have hsu : (setAncestors.toList.map (s.figure ownCost)).sum =
          s.total ownCost fun a => R' a tx.hash :=
        sum_figure_eq_total (nodup_toList _) fun a => TreeSet.mem_toList.trans (hab a)
      rw [hwi hse, ancestorCost_updateAncestorState, hsu, han, add_comm]
    · rw [if_neg hkx] at he
      have hb : ∀ old, s.entries[k]? = some old → old.ancestorCost =
          (s.addUnchecked tx entry setAncestors).total ownCost fun a => R' a k := by
        intro old hen
        have hk := hke.mem_of_getElem? hen
        rw [hw (hbe k hk), total_congr fun a ha => ho a ha k hk, h.ancestors k old hen]
      split at he
      · obtain ⟨old, hen, rfl⟩ := Option.map_eq_some_iff.1 he
        exact hb old hen
      · exact hb e he

end Addition

section Removal

variable {stage : List UInt256} {updateDescendants : Bool} {M : Type} {f : CTxMemPoolEntry → M}

/-- The entries that lose an ancestor when an entry is removed. -/
def losingAncestor (s : MeasuredPool) (updateDescendants : Bool) (removed : UInt256) : List UInt256 :=
  if updateDescendants then ((s.pool.calculateDescendants removed ∅).erase removed).toList else []

/-- What is left of an entry when others are removed. -/
theorem getElem?_removeStaged : (s.removeStaged stage updateDescendants).entries[k]? =
      if k ∈ stage then none
      else (s.entries[k]?.map (·.updateAncestorState (stage.map fun x =>
        if k ∈ s.losingAncestor updateDescendants x then -s.figure ownCost x
          else 0).sum)).map (·.updateDescendantState (stage.map fun x =>
        if k ∈ (s.pool.memPoolAncestors x).toList then -s.figure CTxMemPoolEntry.own x else 0).sum) := by
  have hfirst : (if updateDescendants then stage.foldl (fun entries removed =>
        modifyEach entries ((s.pool.calculateDescendants removed ∅).erase removed).toList
          (·.updateAncestorState (-s.figure ownCost removed))) s.entries
      else s.entries)[k]? = s.entries[k]?.map (·.updateAncestorState (stage.map fun x =>
        if k ∈ s.losingAncestor updateDescendants x then -s.figure ownCost x
          else 0).sum) := by
    cases updateDescendants with
    | true =>
      exact getElem?_foldl_modifyEach (fun d e => e.updateAncestorState d)
        updateAncestorState_zero (fun a b e => e.updateAncestorState_add a b)
        (fun _ => nodup_toList _) _ stage
    | false =>
      have hz : (fun e : CTxMemPoolEntry => e.updateAncestorState 0) = id :=
        funext updateAncestorState_zero
      simp [losingAncestor, hz]
  unfold removeStaged
  rw [getElem?_foldl_erase]
  congr 1
  rw [← hfirst]
  exact getElem?_foldl_modifyEach (fun d e => e.updateDescendantState d)
    updateDescendantState_zero (fun a b e => e.updateDescendantState_add a b)
    (fun _ => nodup_toList _) _ stage

theorem figure_removeStaged [Zero M] (hd : ∀ e d, f (e.updateDescendantState d) = f e)
    (ha : ∀ e d, f (e.updateAncestorState d) = f e) (hk : k ∉ stage) :
    (s.removeStaged stage updateDescendants).figure f k = s.figure f k := by
  rw [figure, getElem?_removeStaged, if_neg hk, figure]
  cases s.entries[k]? with
  | none => rfl
  | some e => exact (hd _ _).trans (ha _ _)

theorem total_removeStaged [AddCommMonoid M]
    (hd : ∀ e d, f (e.updateDescendantState d) = f e)
    (ha : ∀ e d, f (e.updateAncestorState d) = f e) {P : UInt256 → Prop} :
    (s.removeStaged stage updateDescendants).total f P = s.total f fun hash => P hash ∧ hash ∉ stage := by
  refine total_eq_total (fun hash => ?_) fun hash _ hP =>
    figure_removeStaged hd ha hP.2
  rw [removeStaged, mem_removeStaged]
  tauto

/-- The figures that an entry loses are those of the removed entries it was related to. -/
theorem sum_removed [AddCommGroup M] (hn : stage.Nodup) (hst : ∀ x ∈ stage, x ∈ s.pool.mapTx)
    {P Q : UInt256 → Prop} [DecidablePred Q] (h : ∀ x ∈ stage, Q x ↔ P x) :
    (stage.map fun x => if Q x then -s.figure f x else 0).sum =
      -s.total f fun x => P x ∧ x ∈ stage := by
  rw [total, ← Finset.sum_neg_distrib, ← List.sum_toFinset _ hn, ← Finset.sum_filter]
  refine Finset.sum_congr (Finset.ext fun x => ?_) fun _ _ => rfl
  simp only [Finset.mem_filter, List.mem_toFinset, TreeMap.mem_keys]
  constructor
  · rintro ⟨hx, hQ⟩
    exact ⟨hst x hx, (h x hx).1 hQ, hx⟩
  · rintro ⟨-, hP, hx⟩
    exact ⟨hx, (h x hx).2 hP⟩

/-- A removal takes off what the removed entries have added, where it finds those above and below
them. -/
theorem ExactFor.removeStaged {R R' : UInt256 → UInt256 → Prop} (h : s.ExactFor R) (hke : s.Kept)
    (hn : stage.Nodup) (hst : ∀ x ∈ stage, x ∈ s.pool.mapTx)
    (ho : ∀ a ∈ s.pool.mapTx, a ∉ stage → ∀ b ∈ s.pool.mapTx, b ∉ stage → (R' a b ↔ R a b))
    (hab : ∀ x ∈ stage, ∀ a ∈ s.pool.mapTx, a ∉ stage → (a ∈ s.pool.memPoolAncestors x ↔ R a x))
    (hbe : ∀ x ∈ stage, ∀ b ∈ s.pool.mapTx, b ∉ stage →
      (b ∈ s.losingAncestor updateDescendants x ↔ R x b)) :
    (s.removeStaged stage updateDescendants).ExactFor R' := by
  -- what an entry keeps and what it loses make up what it had
  have hsp : ∀ {M : Type} [AddCommGroup M] (f : CTxMemPoolEntry → M) (P : UInt256 → Prop),
      s.total f P + -(s.total f fun x => P x ∧ x ∈ stage) = s.total f fun x => P x ∧ x ∉ stage := by
    intro M _ f P
    have hp : s.total f P =
        (s.total f fun x => P x ∧ x ∉ stage) + s.total f fun x => P x ∧ x ∈ stage := by
      rw [← total_or fun x hout hin => hout.2 hin.2]
      exact total_congr fun x _ => by tauto
    rw [hp, add_neg_cancel_right]
  constructor
  case descendants =>
    intro k e he
    rw [getElem?_removeStaged] at he
    split at he
    · cases he
    next hk =>
      obtain ⟨e', he', rfl⟩ := Option.map_eq_some_iff.1 he
      obtain ⟨old, hen, rfl⟩ := Option.map_eq_some_iff.1 he'
      have hm := hke.mem_of_getElem? hen
      rw [total_removeStaged (fun _ _ => rfl) fun _ _ => rfl,
        total_congr fun b hb => and_congr_left fun hout => ho k hm hk b hb hout, ← hsp,
        ← h.descendants k old hen, ← sum_removed hn hst fun x hx =>
          TreeSet.mem_toList.trans (hab x hx k hm hk)]
      rfl
  case ancestors =>
    intro k e he
    rw [getElem?_removeStaged] at he
    split at he
    · cases he
    next hk =>
      obtain ⟨e', he', rfl⟩ := Option.map_eq_some_iff.1 he
      obtain ⟨old, hen, rfl⟩ := Option.map_eq_some_iff.1 he'
      have hm := hke.mem_of_getElem? hen
      rw [total_removeStaged (fun _ _ => rfl) fun _ _ => rfl,
        total_congr fun a ha => and_congr_left fun hout => ho a ha hout k hm hk, ← hsp,
        ← h.ancestors k old hen, ← sum_removed hn hst fun x hx => hbe x hx k hm hk]
      rfl

end Removal

section Below

variable {x : UInt256} {cached : TreeMap UInt256 (TreeSet UInt256)} {setExclude : List UInt256}

theorem getElem?_updateForDescendants (hx : x ∉ s.foundBelow cached setExclude x) :
    (s.updateForDescendants cached setExclude x).1.entries[k]? =
      if k = x then s.entries[k]?.map (·.updateDescendantState
        ((s.foundBelow cached setExclude x).map (s.figure CTxMemPoolEntry.own)).sum)
      else if k ∈ s.foundBelow cached setExclude x then
        s.entries[k]?.map (·.updateAncestorState (s.figure ownCost x))
      else s.entries[k]? := by
  have hn : (s.foundBelow cached setExclude x).Nodup := (nodup_toList _).filter _
  unfold updateForDescendants
  rw [getElem?_modify_entry]
  change (if k = x then ((modifyEach s.entries (s.foundBelow cached setExclude x) _)[k]?).map _
    else (modifyEach s.entries (s.foundBelow cached setExclude x) _)[k]?) = _
  rw [getElem?_modifyEach hn]
  by_cases hk : k = x
  · subst hk
    rw [if_pos rfl, if_pos rfl, if_neg hx]
    rfl
  · rw [if_neg hk, if_neg hk]

theorem figure_updateForDescendants {M : Type} [Zero M] {f : CTxMemPoolEntry → M}
    (hd : ∀ e d, f (e.updateDescendantState d) = f e)
    (ha : ∀ e d, f (e.updateAncestorState d) = f e)
    (hx : x ∉ s.foundBelow cached setExclude x) :
    (s.updateForDescendants cached setExclude x).1.figure f k = s.figure f k := by
  change (_ : Option M).getD 0 = (s.entries[k]?.map f).getD 0
  rw [getElem?_updateForDescendants hx]
  congr 1
  split
  · rw [Option.map_map]
    congr 1
    exact funext fun e => hd e _
  · split
    · rw [Option.map_map]
      congr 1
      exact funext fun e => ha e _
    · rfl

theorem total_updateForDescendants {M : Type} [AddCommMonoid M] {f : CTxMemPoolEntry → M}
    (hd : ∀ e d, f (e.updateDescendantState d) = f e)
    (ha : ∀ e d, f (e.updateAncestorState d) = f e)
    (hx : x ∉ s.foundBelow cached setExclude x) {P : UInt256 → Prop} :
    (s.updateForDescendants cached setExclude x).1.total f P = s.total f P :=
  total_eq_total (fun _ => Iff.rfl) fun _ _ _ => figure_updateForDescendants hd ha hx

/-- What the update finds goes below the entry. -/
theorem ExactFor.updateForDescendants {R R' : UInt256 → UInt256 → Prop} (h : s.ExactFor R)
    (hke : s.Kept) (hx : x ∈ s.pool.mapTx) (hn : x ∉ s.foundBelow cached setExclude x)
    (hf : ∀ b ∈ s.foundBelow cached setExclude x, b ∈ s.pool.mapTx ∧ ¬R x b)
    (hR : ∀ a ∈ s.pool.mapTx, ∀ b ∈ s.pool.mapTx,
      (R' a b ↔ R a b ∨ a = x ∧ b ∈ s.foundBelow cached setExclude x)) :
    (s.updateForDescendants cached setExclude x).1.ExactFor R' := by
  constructor
  case descendants =>
    intro k e he
    rw [getElem?_updateForDescendants hn] at he
    rw [total_updateForDescendants (fun _ _ => rfl) (fun _ _ => rfl) hn]
    split at he
    next hk =>
      subst hk
      obtain ⟨old, hen, rfl⟩ := Option.map_eq_some_iff.1 he
      have hsu : ((s.foundBelow cached setExclude k).map (s.figure CTxMemPoolEntry.own)).sum =
          s.total CTxMemPoolEntry.own fun b => b ∈ s.foundBelow cached setExclude k :=
        sum_figure_eq_total ((nodup_toList _).filter _) fun b =>
          ⟨fun hb => ⟨(hf b hb).1, hb⟩, And.right⟩
      have hbo : ∀ b ∈ s.pool.mapTx, R' k b ↔ R k b ∨ b ∈ s.foundBelow cached setExclude k :=
        fun b hb => (hR k hx b hb).trans (by simp)
      rw [total_congr hbo, total_or fun b hRb hb => (hf b hb).2 hRb,
        ← h.descendants k old hen, ← hsu]
      rfl
    next hk =>
      have hsa : ∀ old, s.entries[k]? = some old →
          old.withDescendants = s.total CTxMemPoolEntry.own (R' k) := by
        intro old hen
        rw [h.descendants k old hen]
        exact total_congr fun b hb =>
          ((hR k (hke.mem_of_getElem? hen) b hb).trans (by simp [hk])).symm
      split at he
      · obtain ⟨old, hen, rfl⟩ := Option.map_eq_some_iff.1 he
        exact hsa old hen
      · exact hsa e he
  case ancestors =>
    intro k e he
    rw [getElem?_updateForDescendants hn] at he
    rw [total_updateForDescendants (fun _ _ => rfl) (fun _ _ => rfl) hn]
    have hsa : ∀ old, s.entries[k]? = some old → k ∉ s.foundBelow cached setExclude x →
        old.ancestorCost = s.total ownCost fun a => R' a k := by
      intro old hen hout
      rw [h.ancestors k old hen]
      exact total_congr fun a ha =>
        ((hR a ha k (hke.mem_of_getElem? hen)).trans (by simp [hout])).symm
    split at he
    next hk =>
      subst hk
      obtain ⟨old, hen, rfl⟩ := Option.map_eq_some_iff.1 he
      exact hsa old hen hn
    next hk =>
      split at he
      next hin =>
        obtain ⟨old, hen, rfl⟩ := Option.map_eq_some_iff.1 he
        have hm := (hf k hin).1
        have ho : s.figure ownCost x = s.total ownCost fun a => a = x := by
          rw [← sum_figure_eq_total (List.nodup_singleton x) fun a => ?_]
          · exact (List.sum_singleton).symm
          · rw [List.mem_singleton]
            exact ⟨fun ha => ⟨ha ▸ hx, ha⟩, And.right⟩
        have hbo : ∀ a ∈ s.pool.mapTx, R' a k ↔ R a k ∨ a = x :=
          fun a ha => (hR a ha k hm).trans (by simp [hin])
        rw [total_congr hbo, total_or, ← h.ancestors k old hen, ← ho]
        · rfl
        · rintro a hRa rfl
          exact (hf k hin).2 hRa
      next hout => exact hsa e he hout

end Below

end MeasuredPool

end Cmusic
