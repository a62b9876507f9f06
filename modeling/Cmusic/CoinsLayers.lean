import Cmusic.Utxo
import Cmusic.Lib.WriteBack

/-! Caches of coins over caches of coins, and the one map of coins they stand for. -/
namespace Cmusic

open Std WriteBack Maps

abbrev CCoinsMap := TreeMap COutPoint CCoinsCacheEntry

/-- A view is the map of a database, or a cache over another view. -/
inductive CCoinsView where
  | db (coins : TreeMap COutPoint Coin)
  | cache (base : CCoinsView) (cacheCoins : CCoinsMap)

/-- The cache on top of a stack of views. -/
structure LayeredCache where
  base : CCoinsView
  cacheCoins : CCoinsMap := ∅

/-- A coin where it is not spent. -/
def Coin.unspent (coin : Coin) : Option Coin := if coin.isSpent then none else some coin

def LayeredCache.view (top : LayeredCache) : CCoinsView := .cache top.base top.cacheCoins

/-- `FetchCoin`, where `found` is what the parent answers, together with the parent after it was
asked. A parent that has only an empty entry makes the new one fresh. -/
def LayeredCache.fetchFrom (found : Option Coin × CCoinsView) (top : LayeredCache)
    (outpoint : COutPoint) : Option CCoinsCacheEntry × LayeredCache :=
  match top.cacheCoins[outpoint]? with
  | some entry => (some entry, top)
  | none =>
    match found with
    | (none, base) => (none, { top with base })
    | (some coin, base) =>
      let entry := ⟨coin, false, coin.isSpent⟩
      (some entry, ⟨base, top.cacheCoins.insert outpoint entry⟩)

namespace CCoinsView

/-- `GetCoin`. A database answers with the coin it has, a cache with an unspent one only; on the way
every cache of the stack keeps what it read. -/
def getCoin (outpoint : COutPoint) : CCoinsView → Option Coin × CCoinsView
  | .db coins => (coins[outpoint]?, .db coins)
  | .cache base cacheCoins =>
    let fetched := LayeredCache.fetchFrom (getCoin outpoint base) ⟨base, cacheCoins⟩ outpoint
    (fetched.1.bind fun entry => entry.coin.unspent, fetched.2.view)

/-- One entry of a child in `CCoinsViewDB::BatchWrite`. -/
def writeCoin (coins : TreeMap COutPoint Coin) (outpoint : COutPoint) (entry : CCoinsCacheEntry) :
    TreeMap COutPoint Coin :=
  if entry.dirty then
    if entry.coin.isSpent then coins.erase outpoint else coins.insert outpoint entry.coin
  else coins

/-- One entry of a child in `CCoinsViewCache::BatchWrite`; `none` stands for the exception on a
misapplied flag. -/
def writeEntry (cacheCoins : CCoinsMap) (item : COutPoint × CCoinsCacheEntry) : Option CCoinsMap :=
  let (outpoint, entry) := item
  if !entry.dirty then some cacheCoins
  else
    match cacheCoins[outpoint]? with
    | none =>
      if entry.fresh && entry.coin.isSpent then some cacheCoins
      else some (cacheCoins.insert outpoint ⟨entry.coin, true, entry.fresh⟩)
    | some ours =>
      if entry.fresh && !ours.coin.isSpent then none
      else if ours.fresh && entry.coin.isSpent then some (cacheCoins.erase outpoint)
      else some (cacheCoins.insert outpoint ⟨entry.coin, true, ours.fresh⟩)

def batchWrite (mapCoins : CCoinsMap) : CCoinsView → Option CCoinsView
  | .db coins => some (.db (mapCoins.foldl writeCoin coins))
  | .cache base cacheCoins => (mapCoins.toList.foldlM writeEntry cacheCoins).map (.cache base)

end CCoinsView

namespace LayeredCache

variable (top : LayeredCache) (outpoint : COutPoint)

def fetchCoin : Option CCoinsCacheEntry × LayeredCache :=
  fetchFrom (top.base.getCoin outpoint) top outpoint

def getCoin : Option Coin × LayeredCache :=
  let fetched := top.fetchCoin outpoint
  (fetched.1.bind fun entry => entry.coin.unspent, fetched.2)

/-- `AddCoin`; `none` stands for the assertion on a spent coin and for the exception on an unspent
coin in the cache that must not be overwritten. -/
def addCoin (coin : Coin) (possibleOverwrite : Bool) : Option LayeredCache :=
  if coin.isSpent then none
  else if CScript.isUnspendable coin.out.scriptPubKey then some top
  else
    let entry := top.cacheCoins[outpoint]?.getD ⟨Coin.cleared, false, false⟩
    if !possibleOverwrite && !entry.coin.isSpent then none
    else
      let fresh := entry.fresh || (!possibleOverwrite && !entry.dirty)
      some { top with cacheCoins := top.cacheCoins.insert outpoint ⟨coin, true, fresh⟩ }

/-- `SpendCoin` on the coins alone. -/
def spendCoin : LayeredCache :=
  match top.fetchCoin outpoint with
  | (none, top) => top
  | (some entry, top) =>
    if entry.fresh then { top with cacheCoins := top.cacheCoins.erase outpoint }
    else { top with cacheCoins := top.cacheCoins.insert outpoint ⟨Coin.cleared, true, false⟩ }

def uncache : LayeredCache :=
  match top.cacheCoins[outpoint]? with
  | some entry =>
    if !entry.dirty && !entry.fresh then { top with cacheCoins := top.cacheCoins.erase outpoint }
    else top
  | none => top

def flush : Option LayeredCache := do
  let base ← top.base.batchWrite top.cacheCoins
  return { base }

/-- `BatchWrite` on the top cache, with the entries of a cache that was over it. -/
def batchWrite (mapCoins : CCoinsMap) : Option LayeredCache := do
  let cacheCoins ← mapCoins.toList.foldlM CCoinsView.writeEntry top.cacheCoins
  return { top with cacheCoins }

end LayeredCache

/-- The calls on the top cache. -/
inductive CoinsCall where
  | addCoin (outpoint : COutPoint) (coin : Coin) (possibleOverwrite : Bool)
  | spendCoin (outpoint : COutPoint)
  | getCoin (outpoint : COutPoint)
  | uncache (outpoint : COutPoint)
  | flush
  | batchWrite (mapCoins : CCoinsMap)

def LayeredCache.apply (top : LayeredCache) : CoinsCall → Option LayeredCache
  | .addCoin outpoint coin possibleOverwrite => top.addCoin outpoint coin possibleOverwrite
  | .spendCoin outpoint => some (top.spendCoin outpoint)
  | .getCoin outpoint => some (top.getCoin outpoint).2
  | .uncache outpoint => some (top.uncache outpoint)
  | .flush => top.flush
  | .batchWrite mapCoins => top.batchWrite mapCoins

def LayeredCache.run (top : LayeredCache) (calls : List CoinsCall) : Option LayeredCache :=
  calls.foldlM LayeredCache.apply top

/-- One map of unspent coins. -/
abbrev FlatCoins := COutPoint → Option Coin

namespace FlatCoins

variable (coins : FlatCoins)

/-- The coins after the dirty entries of a cache are written over them. -/
def written (mapCoins : CCoinsMap) : FlatCoins := fun outpoint =>
  match mapCoins[outpoint]? with
  | some entry => if entry.dirty then entry.coin.unspent else coins outpoint
  | none => coins outpoint

/-- What a call means for one map: coins are added and deleted, and moving them between the layers is
nothing. Adding a spent coin fails, and adding over an unspent one that must not be overwritten. -/
def apply : CoinsCall → Option FlatCoins
  | .addCoin outpoint coin possibleOverwrite =>
    if coin.isSpent then none
    else if CScript.isUnspendable coin.out.scriptPubKey then some coins
    else if !possibleOverwrite && (coins outpoint).isSome then none
    else some (Function.update coins outpoint (some coin))
  | .spendCoin outpoint => some (Function.update coins outpoint none)
  | .getCoin _ => some coins
  | .uncache _ => some coins
  | .flush => some coins
  | .batchWrite mapCoins => some (coins.written mapCoins)

def run (calls : List CoinsCall) : Option FlatCoins := calls.foldlM apply coins

end FlatCoins

/-- The cell of a cache for an outpoint: a spent coin is no value. -/
def CCoinsCacheEntry.cell (entry : CCoinsCacheEntry) : Cell Coin :=
  ⟨entry.coin.unspent, entry.dirty, entry.fresh⟩

namespace CCoinsView

/-- The unspent coins of a view, without reading them into its caches. -/
def shows : CCoinsView → FlatCoins
  | .db coins => fun outpoint => coins[outpoint]?.bind Coin.unspent
  | .cache base cacheCoins => fun outpoint =>
    shown (base.shows outpoint) (cacheCoins[outpoint]?.map CCoinsCacheEntry.cell)

/-- Every entry of every cache has the right flags. -/
def Consistent : CCoinsView → Prop
  | .db _ => True
  | .cache base cacheCoins => base.Consistent ∧
    ∀ outpoint, WriteBack.Sound (base.shows outpoint) (cacheCoins[outpoint]?.map CCoinsCacheEntry.cell)

/-- The view has no coin for an outpoint, or a spent one. -/
def Lacks (view : CCoinsView) (outpoint : COutPoint) : Prop :=
  ∀ coin, (view.getCoin outpoint).1 = some coin → coin.isSpent = true

/-- The parent view has no coin under a fresh entry, or a spent one. -/
def FreshAbsent : CCoinsView → Prop
  | .db _ => True
  | .cache base cacheCoins => base.FreshAbsent ∧
    ∀ (outpoint : COutPoint) (entry : CCoinsCacheEntry), cacheCoins[outpoint]? = some entry →
      entry.fresh = true → base.Lacks outpoint

end CCoinsView

namespace LayeredCache

/-- What a caller owes: a coin is added as new only where the parent has no unspent one, and a child
that is written down calls fresh only what this view does not have. -/
def Permits (top : LayeredCache) : CoinsCall → Prop
  | .addCoin outpoint _ possibleOverwrite =>
    possibleOverwrite = false → top.base.Lacks outpoint
  | .batchWrite mapCoins => ∀ (outpoint : COutPoint) (entry : CCoinsCacheEntry),
    mapCoins[outpoint]? = some entry → entry.dirty = true → entry.fresh = true →
      top.view.Lacks outpoint
  | _ => True

def PermitsAll (top : LayeredCache) : List CoinsCall → Prop
  | [] => True
  | call :: calls => top.Permits call ∧ ∀ next, top.apply call = some next → next.PermitsAll calls

/-- The stacks of caches that come about over a database: a cache is put on top, the calls go to the
top one, and it is dropped again, flushed or not. -/
inductive Reachable : LayeredCache → Prop
  | create (coins : TreeMap COutPoint Coin) : Reachable { base := .db coins }
  | push {top : LayeredCache} (h : Reachable top) : Reachable { base := top.view }
  | pop {base : CCoinsView} {lower upper : CCoinsMap}
      (h : Reachable ⟨.cache base lower, upper⟩) : Reachable ⟨base, lower⟩
  | call {top next : LayeredCache} (call : CoinsCall) (h : Reachable top)
      (hpermits : top.Permits call) (hnext : top.apply call = some next) : Reachable next

end LayeredCache

namespace CCoinsView

variable {view base : CCoinsView} {cacheCoins mapCoins : CCoinsMap} {outpoint k : COutPoint}
  {entry : CCoinsCacheEntry} {top : LayeredCache}

theorem shows_cache (k : COutPoint) : (cache base cacheCoins).shows k =
    shown (base.shows k) (cacheCoins[k]?.map CCoinsCacheEntry.cell) := rfl

theorem shows_view (top : LayeredCache) : top.view.shows outpoint =
    shown (top.base.shows outpoint) (top.cacheCoins[outpoint]?.map CCoinsCacheEntry.cell) := rfl

/-- Writing one entry of a consistent cache. -/
theorem Consistent.update {cacheCoins' : CCoinsMap} (h : (cache base cacheCoins).Consistent)
    (ho : ∀ k, k ≠ outpoint → cacheCoins'[k]? = cacheCoins[k]?)
    (hse : WriteBack.Sound (base.shows outpoint) (cacheCoins'[outpoint]?.map CCoinsCacheEntry.cell)) :
    (cache base cacheCoins').Consistent ∧ (cache base cacheCoins').shows =
      Function.update (cache base cacheCoins).shows outpoint
        (shown (base.shows outpoint) (cacheCoins'[outpoint]?.map CCoinsCacheEntry.cell)) := by
  refine ⟨⟨h.1, fun k => ?_⟩, funext fun k => ?_⟩ <;> by_cases hk : k = outpoint
  · exact hk ▸ hse
  · rw [ho k hk]
    exact h.2 k
  · subst hk
    rw [Function.update_self, shows_cache]
  · rw [Function.update_of_ne hk, shows_cache, shows_cache, ho k hk]

theorem Consistent.insert (h : (cache base cacheCoins).Consistent)
    (he : WriteBack.Sound (base.shows outpoint) (some entry.cell)) :
    (cache base (cacheCoins.insert outpoint entry)).Consistent ∧
      (cache base (cacheCoins.insert outpoint entry)).shows =
        Function.update (cache base cacheCoins).shows outpoint entry.coin.unspent := by
  have hse : (cacheCoins.insert outpoint entry)[outpoint]? = some entry :=
    TreeMap.getElem?_insert_self
  have hu := @h.update _ _ outpoint (cacheCoins.insert outpoint entry)
    (fun k hk => getElem?_insert_of_ne hk cacheCoins entry)
  rw [hse] at hu
  exact hu he

theorem Consistent.erase (h : (cache base cacheCoins).Consistent) :
    (cache base (cacheCoins.erase outpoint)).Consistent ∧
      (cache base (cacheCoins.erase outpoint)).shows =
        Function.update (cache base cacheCoins).shows outpoint (base.shows outpoint) := by
  have hse : (cacheCoins.erase outpoint)[outpoint]? = none := TreeMap.getElem?_erase_self
  have hu := @h.update _ _ outpoint (cacheCoins.erase outpoint)
    (fun k hk => getElem?_erase_of_ne hk cacheCoins)
  rw [hse] at hu
  exact hu sound_none

/-- A cache over a parent that shows the same. -/
theorem Consistent.rebase {base' : CCoinsView} (h : (cache base cacheCoins).Consistent)
    (hb : base'.Consistent) (hsh : base'.shows = base.shows) :
    (cache base' cacheCoins).Consistent ∧
      (cache base' cacheCoins).shows = (cache base cacheCoins).shows := by
  refine ⟨⟨hb, fun k => ?_⟩, ?_⟩
  · rw [hsh]
    exact h.2 k
  · rw [shows, shows, hsh]

theorem unspent_bind_unspent (coin : Coin) : coin.unspent.bind Coin.unspent = coin.unspent := by
  unfold Coin.unspent
  split
  · rfl
  next h => rw [Option.bind_some, if_neg h]

/-- What reading an outpoint leaves: the same coins, and the entry that was found. -/
structure Reads (top : LayeredCache) (outpoint : COutPoint)
    (fetched : Option CCoinsCacheEntry × LayeredCache) : Prop where
  consistent : fetched.2.view.Consistent
  shows : fetched.2.view.shows = top.view.shows
  entry : fetched.2.cacheCoins[outpoint]? = fetched.1
  absent : fetched.1 = none → top.view.shows outpoint = none

/-- The coin of the entry that was found is the one that the view shows. -/
theorem Reads.unspent {fetched : Option CCoinsCacheEntry × LayeredCache}
    (h : Reads top outpoint fetched) :
    (fetched.1.bind fun entry => entry.coin.unspent) = top.view.shows outpoint := by
  cases he : fetched.1 with
  | none => exact (h.absent he).symm
  | some entry =>
    have hsh : fetched.2.view.shows outpoint = entry.coin.unspent := by
      rw [shows_view, h.entry, he]
      rfl
    rw [← h.shows, hsh]
    rfl

theorem reads_fetchFrom {found : Option Coin × CCoinsView} (h : top.view.Consistent)
    (hf : found.1.bind Coin.unspent = top.base.shows outpoint) (hb : found.2.Consistent)
    (hsh : found.2.shows = top.base.shows) :
    Reads top outpoint (top.fetchFrom found outpoint) := by
  obtain ⟨answer, base⟩ := found
  obtain ⟨hco, hvi⟩ := h.rebase hb hsh
  unfold LayeredCache.fetchFrom
  cases hc : top.cacheCoins[outpoint]? with
  | some entry => exact ⟨h, rfl, hc, by simp⟩
  | none =>
    have ha : top.view.shows outpoint = top.base.shows outpoint := by
      rw [shows_view, hc]
      rfl
    cases answer with
    | none => exact ⟨hco, hvi, hc, fun _ => ha.trans hf.symm⟩
    | some coin =>
      have hv : coin.unspent = base.shows outpoint := by rw [hsh, ← hf]; rfl
      -- the parent has a coin, so that the new entry is fresh only over a spent one
      have he : WriteBack.Sound (base.shows outpoint)
          (some (CCoinsCacheEntry.cell ⟨coin, false, coin.isSpent⟩)) := by
        refine sound_of_read hv fun (hsp : coin.isSpent = true) => ?_
        rw [← hv, Coin.unspent, if_pos hsp]
      obtain ⟨hc', hv'⟩ := hco.insert he
      refine ⟨hc', ?_, TreeMap.getElem?_insert_self, by simp⟩
      rw [LayeredCache.view, hv', hvi, hv, hsh, ← ha]
      exact Function.update_eq_self outpoint _

/-- Asking a view leaves its coins as they are. -/
theorem getCoin_spec (h : view.Consistent) (outpoint : COutPoint) :
    (view.getCoin outpoint).1.bind Coin.unspent = view.shows outpoint ∧
      (view.getCoin outpoint).2.Consistent ∧ (view.getCoin outpoint).2.shows = view.shows := by
  induction view with
  | db coins => exact ⟨rfl, h, rfl⟩
  | cache base cacheCoins ih =>
    obtain ⟨hf, hb, hsh⟩ := ih h.1
    have hr := @reads_fetchFrom outpoint ⟨base, cacheCoins⟩ _ h hf hb hsh
    refine ⟨?_, hr.consistent, hr.shows⟩
    rw [getCoin, Option.bind_assoc]
    simp only [unspent_bind_unspent]
    exact hr.unspent

theorem lacks_iff (h : view.Consistent) : view.Lacks outpoint ↔ view.shows outpoint = none := by
  rw [← (getCoin_spec h outpoint).1, Lacks, Option.bind_eq_none_iff]
  refine forall₂_congr fun coin _ => ?_
  rw [Coin.unspent]
  split <;> simp_all

theorem freshAbsent_of_consistent (h : view.Consistent) : view.FreshAbsent := by
  induction view with
  | db => trivial
  | cache base cacheCoins ih =>
    refine ⟨ih h.1, fun outpoint entry he hf => (lacks_iff h.1).2 ?_⟩
    refine (h.2 outpoint).fresh entry.cell ?_ hf
    rw [he, Option.map_some]

theorem isNone_unspent (coin : Coin) : coin.unspent.isNone = coin.isSpent := by
  unfold Coin.unspent
  cases h : coin.isSpent <;> rfl

theorem isSome_unspent (coin : Coin) : coin.unspent.isSome = !coin.isSpent := by
  rw [← isNone_unspent, Option.not_isNone]

/-- An entry of a child is written over the one of the cache as their cells are merged. -/
theorem writeEntry_of_merge {merged : Option (Cell Coin)}
    (h : merge (cacheCoins[outpoint]?.map CCoinsCacheEntry.cell) entry.cell = some merged) :
    ∃ cacheCoins', writeEntry cacheCoins (outpoint, entry) = some cacheCoins' ∧
      cacheCoins'[outpoint]?.map CCoinsCacheEntry.cell = merged ∧
      ∀ k, k ≠ outpoint → cacheCoins'[k]? = cacheCoins[k]? := by
  have hi : ∀ fresh, ∃ cacheCoins',
      some (cacheCoins.insert outpoint ⟨entry.coin, true, fresh⟩) = some cacheCoins' ∧
      cacheCoins'[outpoint]?.map CCoinsCacheEntry.cell = some ⟨entry.coin.unspent, true, fresh⟩ ∧
      ∀ k, k ≠ outpoint → cacheCoins'[k]? = cacheCoins[k]? := fun fresh =>
    ⟨_, rfl, by rw [TreeMap.getElem?_insert_self]; rfl, fun k hk => getElem?_insert_of_ne hk _ _⟩
  unfold merge at h
  unfold writeEntry
  dsimp only [CCoinsCacheEntry.cell] at h ⊢
  simp only [isNone_unspent] at h
  split at h
  next hcl =>
    cases h
    exact ⟨cacheCoins, if_pos hcl, rfl, fun _ _ => rfl⟩
  next hdi =>
    rw [if_neg hdi]
    cases hc : cacheCoins[outpoint]? with
    | none =>
      rw [hc, Option.map_none] at h
      dsimp only at h ⊢
      split at h <;> cases h
      next hd => exact ⟨cacheCoins, if_pos hd, by rw [hc]; rfl, fun _ _ => rfl⟩
      next hke =>
        rw [if_neg hke]
        exact hi entry.fresh
    | some ours =>
      rw [hc, Option.map_some] at h
      dsimp only [CCoinsCacheEntry.cell] at h ⊢
      rw [isSome_unspent] at h
      split at h
      · cases h
      next hr =>
        rw [if_neg hr]
        split at h <;> cases h
        next hd =>
          rw [if_pos hd]
          exact ⟨_, rfl, by rw [TreeMap.getElem?_erase_self]; rfl,
            fun k hk => getElem?_erase_of_ne hk _⟩
        next hke =>
          rw [if_neg hke]
          exact hi ours.fresh

theorem batchWrite_cache (h : (cache base cacheCoins).Consistent)
    (hfr : ∀ (outpoint : COutPoint) (entry : CCoinsCacheEntry),
      mapCoins[outpoint]? = some entry → entry.dirty = true → entry.fresh = true →
        (cache base cacheCoins).shows outpoint = none) :
    ∃ cacheCoins', mapCoins.toList.foldlM writeEntry cacheCoins = some cacheCoins' ∧
      (cache base cacheCoins').Consistent ∧
      (cache base cacheCoins').shows = (cache base cacheCoins).shows.written mapCoins := by
  -- one entry: it finds its cell sound, and leaves it sound with the coin of the child in it
  have hf := @foldlM_distinct CCoinsMap COutPoint CCoinsCacheEntry (Option (Cell Coin)) writeEntry
    (fun m k => m[k]?.map CCoinsCacheEntry.cell)
    (fun k entry ours => WriteBack.Sound (base.shows k) ours ∧ (entry.dirty = true → entry.fresh = true →
      shown (base.shows k) ours = none))
    (fun k entry ours merged => WriteBack.Sound (base.shows k) merged ∧ shown (base.shows k) merged =
      if entry.dirty then entry.coin.unspent else shown (base.shows k) ours)
    (by
      rintro m ⟨k, entry⟩ ⟨hso, he⟩
      obtain ⟨merged, hm, hr, hsh⟩ := @WriteBack.Sound.merge _ _ _ entry.cell hso he
      obtain ⟨m', hw, hse, ho⟩ := writeEntry_of_merge hm
      refine ⟨m', hw, ?_, fun n hn => ?_⟩
      · rw [hse]
        exact ⟨hr, hsh⟩
      · rw [ho n hn])
    mapCoins.toList (KeyedSum.nodup_keys mapCoins) cacheCoins
    (fun item hi => ⟨h.2 item.1, hfr item.1 item.2
      (TreeMap.mem_toList_iff_getElem?_eq_some.1 hi)⟩)
  obtain ⟨cacheCoins', hf, hit, hre⟩ := hf
  have hc : ∀ k, WriteBack.Sound (base.shows k) (cacheCoins'[k]?.map CCoinsCacheEntry.cell) ∧
      (cache base cacheCoins').shows k = (cache base cacheCoins).shows.written mapCoins k := by
    intro k
    unfold FlatCoins.written
    cases hk : mapCoins[k]? with
    | some entry => exact hit (k, entry) (TreeMap.mem_toList_iff_getElem?_eq_some.2 hk)
    | none =>
      have hno : k ∉ mapCoins.toList.map Prod.fst := by
        intro hme
        obtain ⟨item, hi, rfl⟩ := List.mem_map.1 hme
        rw [TreeMap.mem_toList_iff_getElem?_eq_some.1 hi] at hk
        cases hk
      rw [shows_cache, hre k hno]
      exact ⟨h.2 k, rfl⟩
  exact ⟨cacheCoins', hf, ⟨h.1, fun k => (hc k).1⟩, funext fun k => (hc k).2⟩

/-- A database takes over the dirty entries of the cache above it. -/
theorem shows_batchWrite_db (coins : TreeMap COutPoint Coin) (mapCoins : CCoinsMap) :
    (db (mapCoins.foldl writeCoin coins)).shows = (db coins).shows.written mapCoins := by
  funext k
  have hf : (mapCoins.foldl writeCoin coins)[k]? = mapCoins[k]?.elim coins[k]? fun entry =>
      CCoinsViewCache.flushed entry coins[k]? :=
    CCoinsViewCache.getElem?_flush ⟨coins, mapCoins⟩ k
  show (mapCoins.foldl writeCoin coins)[k]?.bind Coin.unspent = _
  rw [hf, FlatCoins.written]
  cases mapCoins[k]? with
  | none => rfl
  | some entry =>
    rw [Option.elim_some, CCoinsViewCache.flushed]
    dsimp only
    split
    · rw [← unspent_bind_unspent]
      rfl
    · rfl

theorem Consistent.batchWrite (h : view.Consistent)
    (hfr : ∀ (outpoint : COutPoint) (entry : CCoinsCacheEntry),
      mapCoins[outpoint]? = some entry → entry.dirty = true → entry.fresh = true →
        view.shows outpoint = none) :
    ∃ view', view.batchWrite mapCoins = some view' ∧ view'.Consistent ∧
      view'.shows = view.shows.written mapCoins := by
  cases view with
  | db coins => exact ⟨_, rfl, trivial, shows_batchWrite_db coins mapCoins⟩
  | cache base cacheCoins =>
    obtain ⟨cacheCoins', hf, hc, hsh⟩ := batchWrite_cache h hfr
    refine ⟨.cache base cacheCoins', ?_, hc, hsh⟩
    rw [CCoinsView.batchWrite, hf, Option.map_some]

end CCoinsView

namespace LayeredCache

open CCoinsView

variable {top next : LayeredCache} {outpoint : COutPoint} {coins : FlatCoins}
  {entry : CCoinsCacheEntry}

theorem reads_fetchCoin (h : top.view.Consistent) : Reads top outpoint (top.fetchCoin outpoint) := by
  obtain ⟨hf, hb, hsh⟩ := getCoin_spec h.1 outpoint
  exact reads_fetchFrom h hf hb hsh

/-- `GetCoin` on the top cache answers with what the stack shows. -/
theorem getCoin_eq_shows (h : top.view.Consistent) :
    (top.getCoin outpoint).1 = top.view.shows outpoint :=
  (reads_fetchCoin h).unspent

theorem consistent_empty {base : CCoinsView} (h : base.Consistent) :
    (LayeredCache.view { base }).Consistent :=
  ⟨h, fun k => by rw [TreeMap.getElem?_emptyc]; exact sound_none⟩

/-- A cache and a map that stand for the same coins. -/
structure Shows (top : LayeredCache) (coins : FlatCoins) : Prop where
  consistent : top.view.Consistent
  shows : top.view.shows = coins

theorem Shows.insert (h : Shows top coins)
    (he : WriteBack.Sound (top.base.shows outpoint) (some entry.cell)) :
    Shows { top with cacheCoins := top.cacheCoins.insert outpoint entry }
      (Function.update coins outpoint entry.coin.unspent) := by
  obtain ⟨hc, hsh⟩ := h.consistent.insert he
  exact ⟨hc, h.shows ▸ hsh⟩

theorem Shows.erase (h : Shows top coins) :
    Shows { top with cacheCoins := top.cacheCoins.erase outpoint }
      (Function.update coins outpoint (top.base.shows outpoint)) := by
  obtain ⟨hc, hsh⟩ := @h.consistent.erase _ _ outpoint
  exact ⟨hc, h.shows ▸ hsh⟩

/-- The entry of the cache as its cell. -/
theorem Shows.sound (h : Shows top coins) (hca : top.cacheCoins[outpoint]? = some entry) :
    WriteBack.Sound (top.base.shows outpoint) (some entry.cell) ∧ coins outpoint = entry.coin.unspent := by
  have hso := h.consistent.2 outpoint
  have hc := @shows_view outpoint top
  rw [hca, Option.map_some] at hso hc
  exact ⟨hso, h.shows ▸ hc⟩

theorem Shows.addCoin {coin : Coin} {possibleOverwrite : Bool} (h : Shows top coins)
    (hnew : possibleOverwrite = false → top.base.shows outpoint = none) :
    Option.Rel Shows (top.addCoin outpoint coin possibleOverwrite)
      (coins.apply (.addCoin outpoint coin possibleOverwrite)) := by
  -- the entry that the cache starts from is unspent where the map has a coin, unless that coin is in
  -- the parent; and it is fresh only over a parent without one
  have he : ∀ entry, top.cacheCoins[outpoint]?.getD ⟨Coin.cleared, false, false⟩ = entry →
      (possibleOverwrite = false → (!entry.coin.isSpent) = (coins outpoint).isSome) ∧
      (entry.fresh = true → top.base.shows outpoint = none) := by
    rintro entry rfl
    cases hc : top.cacheCoins[outpoint]? with
    | none =>
      refine ⟨fun ho => ?_, by simp⟩
      rw [← h.shows, shows_view, hc, Option.map_none, shown_none, hnew ho]
      rfl
    | some entry =>
      obtain ⟨hso, hco⟩ := h.sound hc
      refine ⟨fun _ => ?_, hso.fresh entry.cell rfl⟩
      rw [hco, isSome_unspent]
      rfl
  unfold LayeredCache.addCoin FlatCoins.apply
  generalize top.cacheCoins[outpoint]?.getD ⟨Coin.cleared, false, false⟩ = entry at he ⊢
  obtain ⟨hsp, hfr⟩ := he entry rfl
  dsimp only
  split
  · exact .none
  next hu =>
    split
    · exact .some h
    have hg : (!possibleOverwrite && !entry.coin.isSpent) =
        (!possibleOverwrite && (coins outpoint).isSome) := by
      cases possibleOverwrite with
      | true => rfl
      | false => rw [hsp rfl]
    rw [hg]
    split
    · exact .none
    have hv : coin.unspent = some coin := if_neg hu
    rw [← hv]
    refine .some (h.insert (sound_of_dirty rfl fun hf => ?_))
    rcases Bool.or_eq_true_iff.1 hf with hf | hf
    · exact hfr hf
    · rw [Bool.and_eq_true, Bool.not_eq_true'] at hf
      exact hnew hf.1

theorem Shows.fetchCoin (h : Shows top coins) : Shows (top.fetchCoin outpoint).2 coins :=
  have hr := reads_fetchCoin h.consistent
  ⟨hr.consistent, hr.shows.trans h.shows⟩

theorem Shows.spendCoin (h : Shows top coins) :
    Shows (top.spendCoin outpoint) (Function.update coins outpoint none) := by
  have hr := @reads_fetchCoin top outpoint h.consistent
  have hnext := @h.fetchCoin _ outpoint
  unfold LayeredCache.spendCoin
  rcases hf : top.fetchCoin outpoint with ⟨_ | entry, read⟩ <;> rw [hf] at hr hnext
  · -- nothing to spend
    have hn : coins outpoint = none := h.shows ▸ hr.absent rfl
    rw [← hn, Function.update_eq_self]
    exact hnext
  · dsimp only
    split
    next hfr =>
      have hb := (hnext.sound hr.entry).1.fresh entry.cell rfl hfr
      rw [← hb]
      exact hnext.erase
    · exact hnext.insert (sound_of_dirty rfl (by simp [CCoinsCacheEntry.cell]))

theorem Shows.uncache (h : Shows top coins) : Shows (top.uncache outpoint) coins := by
  unfold LayeredCache.uncache
  split
  next entry hca =>
    split
    next hc =>
      obtain ⟨hso, hco⟩ := h.sound hca
      rw [Bool.and_eq_true, Bool.not_eq_true'] at hc
      have hb : coins outpoint = top.base.shows outpoint :=
        hco.trans (hso.shown_of_clean hc.1)
      have he := @h.erase _ outpoint
      rwa [← hb, Function.update_eq_self] at he
    · exact h
  · exact h

/-- Writing the entries of a cache over what its parent shows gives what the cache shows. -/
theorem written_shows (h : top.view.Consistent) :
    top.base.shows.written top.cacheCoins = top.view.shows := by
  funext k
  rw [FlatCoins.written, shows_view]
  cases hc : top.cacheCoins[k]? with
  | none => rfl
  | some entry =>
    dsimp only
    split
    · rfl
    next hcl =>
      have hso := h.2 k
      rw [hc] at hso
      exact (hso.clean entry.cell rfl (Bool.eq_false_iff.2 hcl)).symm

theorem Shows.flush (h : Shows top coins) : Option.Rel Shows top.flush (some coins) := by
  obtain ⟨base, hw, hco, hsh⟩ := @Consistent.batchWrite top.base top.cacheCoins h.consistent.1
    fun k entry hc _ => (h.sound hc).1.fresh entry.cell rfl
  rw [LayeredCache.flush, hw]
  refine .some ⟨consistent_empty hco, ?_⟩
  rw [← h.shows, ← written_shows h.consistent, ← hsh]
  funext k
  rfl

/-- One call means the same for the stack and for the one map. -/
theorem Shows.apply (h : Shows top coins) {call : CoinsCall} (hpermits : top.Permits call) :
    Option.Rel Shows (top.apply call) (coins.apply call) := by
  cases call with
  | addCoin outpoint coin possibleOverwrite =>
    exact h.addCoin fun ho => (lacks_iff h.consistent.1).1 (hpermits ho)
  | spendCoin outpoint => exact .some h.spendCoin
  | getCoin outpoint => exact .some h.fetchCoin
  | uncache outpoint => exact .some h.uncache
  | flush => exact h.flush
  | batchWrite mapCoins =>
    obtain ⟨cacheCoins, hfo, hc, hsh⟩ := @batchWrite_cache top.base top.cacheCoins mapCoins
      h.consistent fun k entry he hd hf =>
        (lacks_iff h.consistent).1 (hpermits k entry he hd hf)
    rw [LayeredCache.apply, LayeredCache.batchWrite, hfo]
    refine .some ⟨hc, hsh.trans ?_⟩
    rw [← h.shows]
    rfl

theorem Shows.run {calls : List CoinsCall} (h : Shows top coins) (hpermits : top.PermitsAll calls) :
    Option.Rel Shows (top.run calls) (coins.run calls) := by
  induction calls generalizing top coins with
  | nil => exact .some h
  | cons call calls ih =>
    have hstep := h.apply hpermits.1
    rw [LayeredCache.run, FlatCoins.run, List.foldlM_cons, List.foldlM_cons]
    generalize hc : top.apply call = after at hstep ⊢
    generalize coins.apply call = coins' at hstep ⊢
    cases hstep with
    | none => exact .none
    | some hnext => exact ih hnext (hpermits.2 _ hc)

theorem Reachable.consistent (h : Reachable top) : top.view.Consistent := by
  induction h with
  | create coins => exact consistent_empty trivial
  | push _ ih => exact consistent_empty ih
  | pop _ ih => exact ih.1
  | @call top next call _ hpermits hnext ih =>
    have hstep := Shows.apply ⟨ih, rfl⟩ hpermits
    rw [hnext] at hstep
    generalize FlatCoins.apply top.view.shows call = coins at hstep
    cases hstep with
    | some hsh => exact hsh.consistent

/-- The calls on a stack of caches mean what they mean for one map: they fail together, and otherwise
`GetCoin` answers for every outpoint with what the map holds. A fresh entry, in any of the caches, has
no coin below it or a spent one. -/
theorem Reachable.refines_flat (h : Reachable top) {calls : List CoinsCall}
    (hpermits : top.PermitsAll calls) :
    ((top.run calls).map fun after outpoint => (after.getCoin outpoint).1) =
        FlatCoins.run (fun outpoint => (top.getCoin outpoint).1) calls ∧
      ∀ after, top.run calls = some after → after.view.FreshAbsent := by
  have hst : (fun outpoint => (top.getCoin outpoint).1) = top.view.shows :=
    funext fun _ => getCoin_eq_shows h.consistent
  have hr := Shows.run ⟨h.consistent, rfl⟩ hpermits
  rw [hst]
  generalize top.run calls = after at hr ⊢
  generalize FlatCoins.run top.view.shows calls = coins at hr ⊢
  cases hr with
  | none => exact ⟨rfl, by simp⟩
  | @some after coins hsh =>
    refine ⟨?_, fun _ heq => ?_⟩
    · rw [Option.map_some, ← hsh.shows]
      congr 1
      exact funext fun _ => getCoin_eq_shows hsh.consistent
    · cases heq
      exact freshAbsent_of_consistent hsh.consistent

/-- A coin in the database, and two caches over it. -/
def twoLayers : LayeredCache :=
  { base := LayeredCache.view
      { base := .db ((∅ : TreeMap COutPoint Coin).insert ⟨7, 0⟩ ⟨⟨5, []⟩, 1, false⟩) } }

def layerCalls : List CoinsCall :=
  [.addCoin ⟨8, 0⟩ ⟨⟨3, []⟩, 2, false⟩ false, .spendCoin ⟨7, 0⟩, .flush, .getCoin ⟨8, 0⟩,
    .spendCoin ⟨8, 0⟩, .uncache ⟨7, 0⟩, .flush]

theorem refines_flat_twoLayers : (twoLayers.run layerCalls).isSome = true ∧
    ((twoLayers.run layerCalls).map fun after outpoint => (after.getCoin outpoint).1) =
        FlatCoins.run (fun outpoint => (twoLayers.getCoin outpoint).1) layerCalls ∧
      ∀ after, twoLayers.run layerCalls = some after → after.view.FreshAbsent := by
  have hnew : (twoLayers.base.getCoin ⟨8, 0⟩).1 = none := by decide +kernel
  refine ⟨by decide +kernel, (Reachable.create _).push.refines_flat ⟨fun _ coin hc => ?_, ?_⟩⟩
  · rw [twoLayers] at hnew
    cases hc
  · simp [PermitsAll, Permits]

end LayeredCache

namespace CCoinsViewCache

variable (view : CCoinsViewCache) (outpoint : COutPoint)

/-- The view of a block is a stack of one cache. -/
def layer : LayeredCache := ⟨.db view.base, view.cacheCoins⟩

theorem getCoin_layer : (view.layer.getCoin outpoint).1 = view.getCoin outpoint := by
  have hf : ∀ coin : Coin, coin.unspent = (some coin).filter fun coin => !coin.isSpent := by
    intro coin
    rw [Coin.unspent, Option.filter_some]
    cases coin.isSpent <;> rfl
  unfold LayeredCache.getCoin LayeredCache.fetchCoin LayeredCache.fetchFrom
  dsimp only [layer, CCoinsView.getCoin]
  cases hc : view.cacheCoins[outpoint]? with
  | some entry =>
    rw [getCoin, findEntry_of_cached hc]
    exact hf entry.coin
  | none =>
    rw [getCoin_of_not_cached hc, baseCoin]
    cases view.base[outpoint]? with
    | none => rfl
    | some coin => exact hf coin

theorem addCoin_layer (coin : Coin) (possibleOverwrite : Bool) :
    view.layer.addCoin outpoint coin possibleOverwrite =
      (view.addCoin outpoint coin possibleOverwrite).map layer := by
  unfold LayeredCache.addCoin CCoinsViewCache.addCoin addSpendable entryOrEmpty
  dsimp only [layer]
  split_ifs <;> rfl

theorem spendCoin_layer : (view.layer.spendCoin outpoint).base = .db view.base ∧ ∀ key : COutPoint,
    (view.layer.spendCoin outpoint).cacheCoins[key]? =
      (((view.spendEntry outpoint).map Prod.snd).getD view).cacheCoins[key]? := by
  unfold LayeredCache.spendCoin LayeredCache.fetchCoin LayeredCache.fetchFrom spendEntry findEntry
  dsimp only [layer, CCoinsView.getCoin, baseCoin]
  cases hc : view.cacheCoins[outpoint]? with
  | some entry => cases hf : entry.fresh <;> simp [hf]
  | none =>
    cases view.base[outpoint]? with
    | none => simp
    | some coin =>
      -- what the lookup has cached is erased or overwritten
      have hm : outpoint ∉ view.cacheCoins := by
        simp [TreeMap.mem_iff_isSome_getElem?, hc]
      cases hs : coin.isSpent with
      | _ =>
        refine ⟨by simp [hs], fun key => ?_⟩
        by_cases hk : outpoint = key
        · simp [hs, hm, ← hk, Option.filter_some]
        · simp [hs, hk, Option.filter_some, TreeMap.getElem?_erase, TreeMap.getElem?_insert]

theorem flush_layer : view.layer.flush = some (layer { base := view.flush }) := rfl

end CCoinsViewCache

end Cmusic
