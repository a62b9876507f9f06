import Cmusic.AssetsCache

/-! Rewards for the owners of an asset, paid in batches. A batch is known by its number only, and the
list it is cut from is generated anew by every call. -/
namespace Cmusic

open Std

structure OwnerAndAmount where
  address : Str
  amount : Int
  deriving DecidableEq

/-- A scheduled distribution and the ownership snapshot that it is about. -/
structure CRewardSnapshot where
  strDistributionAsset : Str
  strExceptionAddresses : Str
  nDistributionAmount : CAmount
  ownersAndAmounts : List (Str × CAmount)

/-- The transactions of a distribution: those that the database knows by the number of their batch,
and what was paid by those that were built. -/
structure Distribution where
  transactions : TreeMap Nat UInt256 := ∅
  built : List (Nat × List OwnerAndAmount) := []

/-- What a call finds: whether it gets as far as the payments, the units of the distributed asset, the
depth of a transaction that the wallet knows, and what comes of building one. -/
structure DistributeCall where
  ready : Bool := true
  units : Nat
  depth : UInt256 → Option Int
  build : Nat → Option UInt256

def maxPaymentsPerTransaction : Nat := 1000

namespace CRewardSnapshot

variable (isBurnAddress : Str → Bool) (snapshot : CRewardSnapshot) (units : Nat)

/-- The owners that are neither excepted nor burn addresses. -/
def ownerships : List (Str × CAmount) :=
  snapshot.ownersAndAmounts.filter fun pair =>
    !(snapshot.strExceptionAddresses.splitOn 44).contains pair.1 && !isBurnAddress pair.1

/-- The reward of each owner, in the order of the addresses: the share in whole units of the asset. -/
def rewards : List OwnerAndAmount :=
  let units := if snapshot.strDistributionAsset = str "cmusicai" then 8 else units
  let divisor : Int := 10 ^ (8 - units)
  let ownerships := snapshot.ownerships isBurnAddress
  let totalAmtOwned := (ownerships.map fun pair => pair.2.toInt).sum
  let nonExceptionOwnerships : StrMap CAmount :=
    ownerships.foldl (fun set pair => set.insertIfNew pair.1 pair.2) ∅
  nonExceptionOwnerships.toList.map fun pair =>
    ⟨pair.1, pair.2.toInt * (snapshot.nDistributionAmount.toInt / divisor) / totalAmtOwned * divisor⟩

def generateDistributionList : Option (List OwnerAndAmount) :=
  let rewards := snapshot.rewards isBurnAddress units
  if rewards.isEmpty then none else some (rewards.filter fun owner => owner.amount > 0)

end CRewardSnapshot

/-- The payments of one transaction. -/
def batch (payments : List OwnerAndAmount) (i : Nat) : List OwnerAndAmount :=
  (payments.drop (i * maxPaymentsPerTransaction)).take maxPaymentsPerTransaction

namespace Distribution

/-- One turn of `DistributeRewardSnapshot`, and whether the next one follows. A transaction without a
recipient is never built. -/
def distributeBatch (call : DistributeCall) (payments : List OwnerAndAmount) (st : Distribution) (i : Nat) :
    Bool × Distribution :=
  match st.transactions[i]? with
  | some txid =>
    match call.depth txid with
    | some depth => (depth > 0, st)
    | none => (true, st)
  | none =>
    if (batch payments i).isEmpty then (false, st)
    else match call.build i with
    | none => (false, st)
    | some txid => (true, ⟨st.transactions.insert i txid, st.built ++ [(i, batch payments i)]⟩)

/-- `DistributeRewardSnapshot`, and whether it ran through all batches. -/
def distribute (isBurnAddress : Str → Bool) (snapshot : CRewardSnapshot) (st : Distribution)
    (call : DistributeCall) : Bool × Distribution :=
  match snapshot.generateDistributionList isBurnAddress call.units with
  | none => (false, st)
  | some payments =>
    (List.range (payments.length / maxPaymentsPerTransaction + 1)).foldl (fun (follows, st) i =>
      if follows then st.distributeBatch call payments i else (false, st)) (call.ready, st)

/-- The addresses that were paid, as often as they were. -/
def paid (st : Distribution) : List Str :=
  st.built.flatMap fun tx => tx.2.map OwnerAndAmount.address

/-- The transactions that were built are batches of these payments, each of them built once. -/
structure Sound (payments : List OwnerAndAmount) (st : Distribution) : Prop where
  known : ∀ i, i ∈ st.transactions ↔ i ∈ st.built.map Prod.fst
  nodup : (st.built.map Prod.fst).Nodup
  batches : ∀ tx ∈ st.built, tx.2 = batch payments tx.1 ∧ tx.2 ≠ []

variable {isBurnAddress : Str → Bool} {snapshot : CRewardSnapshot} {st : Distribution}
  {call : DistributeCall} {payments : List OwnerAndAmount} {i n : Nat}

theorem sound_empty : Sound payments {} := ⟨by simp, by simp, by simp⟩

/-- A turn stops the loop, finds its batch in the database, or builds it. -/
theorem distributeBatch_cases : st.distributeBatch call payments i = (false, st) ∨
    i ∈ st.transactions ∧ st.distributeBatch call payments i = (true, st) ∨
    i ∉ st.transactions ∧ batch payments i ≠ [] ∧ ∃ txid, st.distributeBatch call payments i =
      (true, ⟨st.transactions.insert i txid, st.built ++ [(i, batch payments i)]⟩) := by
  unfold distributeBatch
  cases hg : st.transactions[i]? with
  | some txid =>
    have hm := Maps.mem_of_getElem? hg
    dsimp only
    split
    next depth _ =>
      cases decide (depth > 0)
      · exact Or.inl rfl
      · exact Or.inr (Or.inl ⟨hm, rfl⟩)
    · exact Or.inr (Or.inl ⟨hm, rfl⟩)
  | none =>
    dsimp only
    split
    · exact Or.inl rfl
    next hb =>
      split
      · exact Or.inl rfl
      next txid _ =>
        refine Or.inr (Or.inr ⟨fun hm => ?_, by simpa using hb, txid, rfl⟩)
        obtain ⟨_, hso⟩ := Maps.exists_getElem? hm
        cases hg.symm.trans hso

theorem Sound.distributeBatch (h : Sound payments st) :
    Sound payments (st.distributeBatch call payments i).2 := by
  rcases @distributeBatch_cases st call payments i with hst | ⟨-, hkn⟩ | ⟨hnew, hba, txid, hbu⟩
  · rwa [hst]
  · rwa [hkn]
  · rw [hbu]
    refine ⟨fun j => ?_, ?_, ?_⟩
    · rw [Maps.mem_insert_iff, List.map_append, List.mem_append, h.known, or_comm]
      simp
    · rw [List.map_append, List.nodup_append]
      refine ⟨h.nodup, List.nodup_singleton i, ?_⟩
      rintro a ha b hb rfl
      rw [List.mem_singleton.1 hb] at ha
      exact hnew ((h.known i).2 ha)
    · intro tx htx
      rcases List.mem_append.1 htx with htx | htx
      · exact h.batches tx htx
      · rw [List.mem_singleton.1 htx]
        exact ⟨rfl, hba⟩

/-- The loop keeps the batches sound, and those that it went through are in the database. -/
theorem Sound.loop (h : Sound payments st) (n : Nat) (ready : Bool) :
    let after := (List.range n).foldl (fun (follows, st) i =>
      if follows then Distribution.distributeBatch call payments st i else (false, st)) (ready, st)
    Sound payments after.2 ∧ (after.1 = true → ∀ i < n, i ∈ after.2.transactions) := by
  induction n with
  | zero => exact ⟨h, fun _ _ hlt => absurd hlt (Nat.not_lt_zero _)⟩
  | succ n ih =>
    rw [List.range_succ, List.foldl_append, List.foldl_cons, List.foldl_nil]
    generalize (List.range n).foldl _ (ready, st) = mid at ih ⊢
    obtain ⟨follows, mid⟩ := mid
    obtain ⟨hm, hd⟩ := ih
    cases follows with
    | false => exact ⟨hm, nofun⟩
    | true =>
      refine ⟨hm.distributeBatch, fun hnext i hi => ?_⟩
      have hb := hd rfl i
      dsimp only at hnext hb ⊢
      rw [if_pos rfl] at hnext ⊢
      rcases @distributeBatch_cases mid call payments n with hst | ⟨hme, hkn⟩ | ⟨-, -, txid, hbu⟩
      · rw [hst] at hnext
        cases hnext
      · rw [hkn]
        rcases Nat.lt_succ_iff_lt_or_eq.1 hi with hlt | rfl
        · exact hb hlt
        · exact hme
      · rw [hbu, Maps.mem_insert_iff]
        rcases Nat.lt_succ_iff_lt_or_eq.1 hi with hlt | rfl
        · exact Or.inr (hb hlt)
        · exact Or.inl rfl

theorem mem_batch {owner : OwnerAndAmount} : owner ∈ batch payments i ↔
    ∃ k, payments[k]? = some owner ∧ k / maxPaymentsPerTransaction = i := by
  have hp : 0 < maxPaymentsPerTransaction := by decide
  rw [batch, List.mem_iff_getElem?]
  constructor
  · rintro ⟨k, hk⟩
    rw [List.getElem?_take] at hk
    split at hk
    next hlt =>
      rw [List.getElem?_drop] at hk
      exact ⟨_, hk, by rw [Nat.mul_comm, Nat.mul_add_div hp, Nat.div_eq_of_lt hlt, Nat.add_zero]⟩
    · cases hk
  · rintro ⟨k, hk, rfl⟩
    refine ⟨k % maxPaymentsPerTransaction, ?_⟩
    rw [List.getElem?_take_of_lt (Nat.mod_lt _ hp), List.getElem?_drop, Nat.div_add_mod', hk]

/-- No address is paid twice, as no two batches share one. -/
theorem Sound.nodup_paid (h : Sound payments st) (hp : (payments.map OwnerAndAmount.address).Nodup) :
    st.paid.Nodup := by
  rw [paid, List.nodup_flatMap]
  refine ⟨fun tx htx => ?_, ?_⟩
  · rw [(h.batches tx htx).1]
    exact hp.sublist (((List.take_sublist _ _).trans (List.drop_sublist _ _)).map _)
  · refine (List.Pairwise.and_mem.1 (List.pairwise_map.1 h.nodup)).imp ?_
    rintro tx tx' ⟨htx, ht', hne⟩ address hm hm'
    obtain ⟨owner, ho, rfl⟩ := List.mem_map.1 hm
    obtain ⟨owner', ho', heq⟩ := List.mem_map.1 hm'
    rw [(h.batches tx htx).1] at ho
    rw [(h.batches tx' ht').1] at ho'
    obtain ⟨k, hk, hb⟩ := mem_batch.1 ho
    obtain ⟨k', hk', hb'⟩ := mem_batch.1 ho'
    have hsa : (payments.map OwnerAndAmount.address)[k]? =
        (payments.map OwnerAndAmount.address)[k']? := by
      rw [List.getElem?_map, List.getElem?_map, hk, hk', Option.map_some, Option.map_some, heq]
    obtain ⟨hlt, -⟩ := List.getElem?_eq_some_iff.1 hk
    obtain rfl := (List.getElem?_inj (by simpa using hlt) hp).1 hsa
    exact hne (hb.symm.trans hb')

theorem nodup_rewards (units : Nat) :
    ((snapshot.rewards isBurnAddress units).map OwnerAndAmount.address).Nodup := by
  unfold CRewardSnapshot.rewards
  rw [List.map_map]
  exact TreeMap.map_fst_toList_eq_keys ▸ TreeMap.nodup_keys

/-- A call with these units keeps the batches of their list, and pays all of it when it runs through. -/
theorem Sound.distribute (h : Sound ((snapshot.generateDistributionList isBurnAddress call.units).getD []) st) :
    Sound ((snapshot.generateDistributionList isBurnAddress call.units).getD [])
        (st.distribute isBurnAddress snapshot call).2 ∧
      ((st.distribute isBurnAddress snapshot call).1 = true →
        ∀ owner ∈ snapshot.rewards isBurnAddress call.units, owner.amount > 0 →
          owner.address ∈ (st.distribute isBurnAddress snapshot call).2.paid) := by
  unfold Distribution.distribute
  cases hl : snapshot.generateDistributionList isBurnAddress call.units with
  | none =>
    rw [hl] at h
    exact ⟨h, nofun⟩
  | some payments =>
    rw [hl] at h
    obtain ⟨hso, hd⟩ := @Sound.loop st call payments h
      (payments.length / maxPaymentsPerTransaction + 1) call.ready
    refine ⟨hso, fun ht owner ho hp => ?_⟩
    have hm : owner ∈ payments := by
      unfold CRewardSnapshot.generateDistributionList at hl
      dsimp only at hl
      split at hl
      · cases hl
      · cases hl
        exact List.mem_filter.2 ⟨ho, decide_eq_true hp⟩
    obtain ⟨k, hk, hg⟩ := List.getElem_of_mem hm
    have hb := (hso.known _).1 (hd ht (k / maxPaymentsPerTransaction)
      (Nat.lt_succ_of_le (Nat.div_le_div_right hk.le)))
    obtain ⟨tx, htx, htxb⟩ := List.mem_map.1 hb
    refine List.mem_flatMap.2 ⟨tx, htx, List.mem_map_of_mem ?_⟩
    rw [(hso.batches tx htx).1, htxb]
    exact mem_batch.2 ⟨k, List.getElem?_eq_some_iff.2 ⟨hk, hg⟩, rfl⟩

variable (isBurnAddress snapshot) in
/-- A sequence of calls for one distribution. -/
def run (calls : List DistributeCall) : Distribution :=
  calls.foldl (fun st call => (st.distribute isBurnAddress snapshot call).2) {}

/-- While the units of the asset stay the same, every owner with a reward is paid once. -/
theorem payout_of_units {units : Nat} {calls : List DistributeCall} (h : ∀ c ∈ calls, c.units = units)
    (hcall : call.units = units) :
    let after := (run isBurnAddress snapshot calls).distribute isBurnAddress snapshot call
    (∀ tx ∈ after.2.built, tx.2 ≠ []) ∧ (∀ address, after.2.paid.count address ≤ 1) ∧
      (after.1 = true → ∀ owner ∈ snapshot.rewards isBurnAddress units, owner.amount > 0 →
        after.2.paid.count owner.address = 1) := by
  subst hcall
  have hr : Sound ((snapshot.generateDistributionList isBurnAddress call.units).getD [])
      (run isBurnAddress snapshot calls) := by
    refine List.foldlRecOn calls _ sound_empty fun st hst c hc => ?_
    rw [← h c hc] at hst ⊢
    exact hst.distribute.1
  obtain ⟨hso, hd⟩ := hr.distribute
  have hn := hso.nodup_paid (by
    unfold CRewardSnapshot.generateDistributionList
    dsimp only
    split
    · exact List.nodup_nil
    · exact (@nodup_rewards isBurnAddress snapshot call.units).sublist (List.filter_sublist.map _))
  refine ⟨fun tx htx => (hso.batches tx htx).2, List.nodup_iff_count_le_one.1 hn, ?_⟩
  intro ht owner ho hp
  exact List.count_eq_one_of_mem hn (hd ht owner ho hp)

/-- Two owners share five units of an asset, nine to one. -/
def sampleSnapshot : CRewardSnapshot where
  strDistributionAsset := str "MUSIC"
  strExceptionAddresses := []
  nDistributionAmount := 500000000
  ownersAndAmounts := [(str "C1", 9), (str "C2", 1)]

/-- A call whose transaction is built, and is in a block later on. -/
def sampleCall (units : Nat) : DistributeCall where
  units := units
  depth := fun _ => some 1
  build := fun _ => some 1

theorem payout_of_units_sampleCall :
    (run (fun _ => false) sampleSnapshot [sampleCall 8, sampleCall 8]).paid.count (str "C2") = 1 :=
  (@payout_of_units (fun _ => false) sampleSnapshot (sampleCall 8) 8 [sampleCall 8] (by simp [sampleCall]) rfl).2.2
    (by decide +kernel) ⟨str "C2", 50000000⟩ (by decide +kernel) (by decide)

/-- The share of the second owner is less than a unit when the batch is built. After a reissue with
more units it is not, but the batch is in a block and is skipped. -/
theorem payout_skips :
    let after := (run (fun _ => false) sampleSnapshot [sampleCall 0]).distribute (fun _ => false)
      sampleSnapshot (sampleCall 8)
    after.1 = true ∧ ⟨str "C2", 50000000⟩ ∈ sampleSnapshot.rewards (fun _ => false) 8 ∧
      after.2.paid.count (str "C2") = 0 := by
  decide +kernel

end Distribution

end Cmusic
