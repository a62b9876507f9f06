import Cmusic.DatabaseRows

/-! Snapshot requests and ownership snapshots. Both databases file an entry under the height followed
by the name of the asset. -/
namespace Cmusic

def heightAndName (height : Nat) (assetName : Str) : Str := str (toString height) ++ assetName

structure CSnapshotRequestDBEntry where
  assetName : Str
  heightForSnapshot : Nat
  deriving DecidableEq

structure CAssetSnapshotDBEntry where
  assetName : Str
  height : Nat
  ownersAndAmounts : Finset (Str × CAmount)
  deriving DecidableEq

/-- The two databases of the rewards code. -/
structure SnapshotDBs where
  requests : StrMap CSnapshotRequestDBEntry := ∅
  ownership : StrMap CAssetSnapshotDBEntry := ∅

namespace SnapshotDBs

def maxRetrievalCount : Nat := 100

/-- The holders with a valid address, collected page by page. -/
def ownersOf (isValidDestination : Str → Bool) (passetsdb : CAssetsDB) (assetName : Str) :
    Finset (Str × CAmount) :=
  let totalEntryCount := passetsdb.dirTotal assetAddressQuantityFlag assetName
  let offsets := List.range' 0 ((totalEntryCount + (maxRetrievalCount - 1)) / maxRetrievalCount) maxRetrievalCount
  (offsets.flatMap fun retrievalOffset : Nat =>
    (passetsdb.assetAddressDir assetName maxRetrievalCount retrievalOffset).filter fun pair =>
      isValidDestination pair.1).toFinset

variable (s : SnapshotDBs) (isValidDestination : Str → Bool) (assetName : Str) (height : Nat)

def scheduleSnapshot : SnapshotDBs :=
  { s with requests := s.requests.insert (heightAndName height assetName) ⟨assetName, height⟩ }

def removeSnapshotRequest : SnapshotDBs :=
  { s with requests := s.requests.erase (heightAndName height assetName) }

def retrieveSnapshotRequest : Option CSnapshotRequestDBEntry := s.requests[heightAndName height assetName]?

def containsSnapshotRequest : Bool := (s.requests[heightAndName height assetName]?).isSome

/-- Height 0 and the empty name stand for all heights and all names. -/
def retrieveSnapshotRequestsForHeight : Finset CSnapshotRequestDBEntry :=
  ((s.requests.toList.map Prod.snd).filter fun entry =>
    (height = 0 || entry.heightForSnapshot = height) &&
      (assetName = [] || entry.assetName = assetName)).toFinset

/-- An asset without owners leaves the database as it is. -/
def addAssetOwnershipSnapshot (passetsdb : CAssetsDB) : Bool × SnapshotDBs :=
  let owners := ownersOf isValidDestination passetsdb assetName
  if owners = ∅ then (false, s)
  else (true, { s with
    ownership := s.ownership.insert (heightAndName height assetName) ⟨assetName, height, owners⟩ })

def retrieveOwnershipSnapshot : Option CAssetSnapshotDBEntry := s.ownership[heightAndName height assetName]?

def removeOwnershipSnapshot : SnapshotDBs :=
  { s with ownership := s.ownership.erase (heightAndName height assetName) }

end SnapshotDBs

section Owners

variable {isValidDestination : Str → Bool} {passetsdb : CAssetsDB} {assetName : Str}

/-- Every position lies on one page. -/
theorem exists_page {α : Type} {x : α} {l : List α} {n : Nat} (hn : 0 < n) :
    (∃ offset ∈ List.range' 0 ((l.length + (n - 1)) / n) n, x ∈ (l.drop offset).take n) ↔ x ∈ l := by
  constructor
  · rintro ⟨offset, -, hx⟩
    exact List.mem_of_mem_drop (List.mem_of_mem_take hx)
  · intro hx
    obtain ⟨i, hi⟩ := List.mem_iff_getElem?.1 hx
    have hlt : i < l.length := (List.getElem?_eq_some_iff.1 hi).1
    refine ⟨n * (i / n), List.mem_range'.2 ⟨i / n, ?_, by simp⟩, ?_⟩
    · rw [Nat.div_lt_iff_lt_mul hn]
      have hp := Nat.lt_div_mul_add hn (a := l.length + (n - 1))
      omega
    · refine List.mem_iff_getElem?.2 ⟨i % n, ?_⟩
      rw [List.getElem?_take_of_lt (Nat.mod_lt i hn), List.getElem?_drop, Nat.div_add_mod]
      exact hi

theorem nodup_entries (flag : UInt8) : (passetsdb.entries flag assetName).Nodup := by
  have hr : passetsdb.rows.Nodup := passetsdb.ordered.imp fun hlt heq => by
    rw [heq] at hlt
    exact hlt.false
  refine hr.filterMap fun a a' entry ha ha' => ?_
  rw [Option.mem_def, Database.find_eq_some] at ha ha'
  rw [ha, ha']

/-- The pages together are the rows of the asset. -/
theorem ownersOf_val : (SnapshotDBs.ownersOf isValidDestination passetsdb assetName).val =
    ((passetsdb.entries assetAddressQuantityFlag assetName).filter fun pair =>
      isValidDestination pair.1 : List _) := by
  have hse : SnapshotDBs.ownersOf isValidDestination passetsdb assetName =
      ((passetsdb.entries assetAddressQuantityFlag assetName).filter fun pair =>
        isValidDestination pair.1).toFinset := by
    ext pair
    have hpa : ∀ offset : Nat, passetsdb.assetAddressDir assetName SnapshotDBs.maxRetrievalCount offset =
        ((passetsdb.entries assetAddressQuantityFlag assetName).drop offset).take
          SnapshotDBs.maxRetrievalCount :=
      fun offset => Database.dir_natCast List.mem_cons_self assetName _ offset
    have hp := @exists_page _ pair (passetsdb.entries assetAddressQuantityFlag assetName)
      SnapshotDBs.maxRetrievalCount (by decide)
    rw [← Database.dirTotal_eq] at hp
    rw [SnapshotDBs.ownersOf, List.mem_toFinset, List.mem_toFinset, List.mem_filter, ← hp]
    simp only [List.mem_flatMap, List.mem_filter, hpa, ← and_assoc, exists_and_right]
  rw [hse, List.toFinset_val, ((nodup_entries _).filter _).dedup]

/-- A snapshot that was added holds exactly the rows of the asset with a valid address, each once. -/
theorem retrieve_addAssetOwnershipSnapshot {s s' : SnapshotDBs} {height : Nat}
    (h : s.addAssetOwnershipSnapshot isValidDestination assetName height passetsdb = (true, s')) :
    ∃ entry, s'.retrieveOwnershipSnapshot assetName height = some entry ∧
      entry.ownersAndAmounts.val = ((passetsdb.entries assetAddressQuantityFlag assetName).filter
        fun pair => isValidDestination pair.1 : List _) := by
  unfold SnapshotDBs.addAssetOwnershipSnapshot at h
  dsimp only at h
  split at h
  · cases h
  · cases h
    exact ⟨_, Std.TreeMap.getElem?_insert_self, ownersOf_val⟩

/-- Three holders, one of them with an address that is not valid, and one of another asset. -/
def holdersDB : CAssetsDB where
  rows := [.pair assetAddressQuantityFlag (str "ABC") (str "C1") 5,
    .pair assetAddressQuantityFlag (str "ABC") (str "C2") 7,
    .pair assetAddressQuantityFlag (str "ABC") (str "XX") 9,
    .pair assetAddressQuantityFlag (str "MUSIC") (str "C1") 3]
  ordered := by decide +kernel
  readable := by decide +kernel

theorem retrieve_addAssetOwnershipSnapshot_holders :
    let valid := fun address : Str => address.head? = some 67
    let added := SnapshotDBs.addAssetOwnershipSnapshot {} (valid ·) (str "ABC") 7 holdersDB
    added.1 = true ∧ ∃ entry, added.2.retrieveOwnershipSnapshot (str "ABC") 7 = some entry ∧
      entry.ownersAndAmounts.val = ([(str "C1", 5), (str "C2", 7)] : List (Str × CAmount)) := by
  intro valid added
  have ha : added.1 = true := by decide +kernel
  obtain ⟨entry, he, hv⟩ := retrieve_addAssetOwnershipSnapshot (Prod.ext ha rfl)
  refine ⟨ha, entry, he, hv.trans (congrArg _ ?_)⟩
  decide +kernel

end Owners

section Isolation

/-- The calls that change one of the databases for a name and a height. -/
inductive SnapshotCall where
  | scheduleSnapshot
  | removeSnapshotRequest
  | addAssetOwnershipSnapshot (passetsdb : CAssetsDB)
  | removeOwnershipSnapshot

namespace SnapshotDBs

def call (isValidDestination : Str → Bool) (s : SnapshotDBs) (assetName : Str) (height : Nat) :
    SnapshotCall → SnapshotDBs
  | .scheduleSnapshot => s.scheduleSnapshot assetName height
  | .removeSnapshotRequest => s.removeSnapshotRequest assetName height
  | .addAssetOwnershipSnapshot passetsdb =>
    (s.addAssetOwnershipSnapshot isValidDestination assetName height passetsdb).2
  | .removeOwnershipSnapshot => s.removeOwnershipSnapshot assetName height

/-- What the four queries return for a name and a height. -/
def answers (s : SnapshotDBs) (assetName : Str) (height : Nat) : Option CSnapshotRequestDBEntry ×
    Bool × Finset CSnapshotRequestDBEntry × Option CAssetSnapshotDBEntry :=
  (s.retrieveSnapshotRequest assetName height, s.containsSnapshotRequest assetName height,
    s.retrieveSnapshotRequestsForHeight assetName height, s.retrieveOwnershipSnapshot assetName height)

/-- The names are valid and the heights are those of an `int`. -/
def Valid (assetName : Str) (height : Nat) : Prop := isAssetNameOk assetName = true ∧ height < 2 ^ 31

/-- The databases after calls with valid arguments, starting empty. -/
inductive Reached (isValidDestination : Str → Bool) : SnapshotDBs → Prop
  | start : Reached isValidDestination {}
  | call {s : SnapshotDBs} {assetName : Str} {height : Nat} (hs : Reached isValidDestination s)
      (hvalid : Valid assetName height) (c : SnapshotCall) :
      Reached isValidDestination (s.call isValidDestination assetName height c)

/-- The two keys are the same, or the query is for all heights and one of them has this key. -/
def SharesKey (a : Str) (h : Nat) (b : Str) (k : Nat) : Prop :=
  heightAndName h a = heightAndName k b ∨
    k = 0 ∧ ∃ j < 2 ^ 31, heightAndName h a = heightAndName j b

/-- Requests are filed under their own height and name. -/
def Filed (s : SnapshotDBs) : Prop := ∀ key entry, s.requests[key]? = some entry →
  key = heightAndName entry.heightForSnapshot entry.assetName ∧ entry.heightForSnapshot < 2 ^ 31

variable {isValidDestination : Str → Bool} {s : SnapshotDBs} {a b : Str} {h k : Nat}

theorem Filed.call (hs : s.Filed) (hh : h < 2 ^ 31) (c : SnapshotCall) :
    (s.call isValidDestination a h c).Filed := by
  intro key entry he
  cases c with
  | scheduleSnapshot =>
    simp only [SnapshotDBs.call, scheduleSnapshot, Maps.getElem?_insert_eq] at he
    split at he
    next hkey =>
      cases he
      exact ⟨hkey, hh⟩
    · exact hs key entry he
  | removeSnapshotRequest =>
    simp only [SnapshotDBs.call, removeSnapshotRequest, Std.TreeMap.getElem?_erase] at he
    split at he
    · cases he
    · exact hs key entry he
  | addAssetOwnershipSnapshot passetsdb =>
    simp only [SnapshotDBs.call, addAssetOwnershipSnapshot] at he
    split at he <;> exact hs key entry he
  | removeOwnershipSnapshot => exact hs key entry he

theorem Reached.filed (hs : Reached isValidDestination s) : s.Filed := by
  induction hs with
  | start => simp [Filed]
  | call _ hvalid c ih => exact ih.call hvalid.2 c

/-- A call changes only the row with its own key. -/
theorem getElem?_call {key : Str} (hkey : key ≠ heightAndName h a) (c : SnapshotCall) :
    (s.call isValidDestination a h c).requests[key]? = s.requests[key]? ∧
      (s.call isValidDestination a h c).ownership[key]? = s.ownership[key]? := by
  cases c with
  | scheduleSnapshot =>
    simp [SnapshotDBs.call, scheduleSnapshot, Maps.getElem?_insert_of_ne hkey]
  | removeSnapshotRequest =>
    simp [SnapshotDBs.call, removeSnapshotRequest, Maps.getElem?_erase_of_ne hkey]
  | addAssetOwnershipSnapshot passetsdb =>
    simp only [SnapshotDBs.call, addAssetOwnershipSnapshot]
    split
    · exact ⟨rfl, rfl⟩
    · simp [Maps.getElem?_insert_of_ne hkey]
  | removeOwnershipSnapshot =>
    simp [SnapshotDBs.call, removeOwnershipSnapshot, Maps.getElem?_erase_of_ne hkey]

theorem mem_retrieveSnapshotRequestsForHeight {entry : CSnapshotRequestDBEntry} :
    entry ∈ s.retrieveSnapshotRequestsForHeight b k ↔ (∃ key : Str, s.requests[key]? = some entry) ∧
      (k = 0 ∨ entry.heightForSnapshot = k) ∧ (b = [] ∨ entry.assetName = b) := by
  simp [retrieveSnapshotRequestsForHeight, Std.TreeMap.mem_toList_iff_getElem?_eq_some]

/-- A request that the query returns for a name lies under a key of that name. -/
theorem ne_key_of_mem (hs : s.Filed) (hb : b ≠ []) (hsh : ¬SharesKey a h b k) {key : Str}
    {entry : CSnapshotRequestDBEntry} (he : s.requests[key]? = some entry)
    (hh : k = 0 ∨ entry.heightForSnapshot = k) (hname : b = [] ∨ entry.assetName = b) :
    key ≠ heightAndName h a := by
  rintro rfl
  obtain ⟨hkey, hbo⟩ := hs _ _ he
  have hname : entry.assetName = b := hname.resolve_left hb
  rw [hname] at hkey
  rcases hh with rfl | hh
  · exact hsh (Or.inr ⟨rfl, _, hbo, hkey⟩)
  · rw [hh] at hkey
    exact hsh (Or.inl hkey)

theorem answers_call (hs : s.Filed) (hh : h < 2 ^ 31) (hb : b ≠ []) (hsh : ¬SharesKey a h b k)
    (c : SnapshotCall) : (s.call isValidDestination a h c).answers b k = s.answers b k := by
  obtain ⟨hr, ho⟩ :=
    @getElem?_call isValidDestination s a h _ (fun heq => hsh (Or.inl heq.symm)) c
  have hse : (s.call isValidDestination a h c).retrieveSnapshotRequestsForHeight b k =
      s.retrieveSnapshotRequestsForHeight b k := by
    ext entry
    rw [mem_retrieveSnapshotRequestsForHeight, mem_retrieveSnapshotRequestsForHeight]
    refine and_congr_left fun ⟨hhe, hname⟩ => exists_congr fun key => ?_
    constructor
    · intro he
      have hkey := ne_key_of_mem (hs.call hh c) hb hsh he hhe hname
      rwa [(getElem?_call hkey c).1] at he
    · intro he
      have hkey := ne_key_of_mem hs hb hsh he hhe hname
      rwa [(getElem?_call hkey c).1]
  simp only [answers, retrieveSnapshotRequest, containsSnapshotRequest, retrieveOwnershipSnapshot,
    hr, ho, hse]

/-- A call leaves the answers for another name and height alone exactly when they share no key. -/
theorem answers_call_iff (ha : Valid a h) (hb : Valid b k) :
    (∀ s, Reached isValidDestination s → ∀ c,
      (s.call isValidDestination a h c).answers b k = s.answers b k) ↔ ¬SharesKey a h b k := by
  have hne : b ≠ [] := by
    rintro rfl
    exact absurd hb.1 (by decide +kernel)
  constructor
  · rintro hsa (hkey | ⟨rfl, j, hj, hkey⟩)
    · -- scheduling the one makes the other appear
      have hc := congrArg (·.2.1) (hsa {} .start .scheduleSnapshot)
      simp [answers, containsSnapshotRequest, SnapshotDBs.call, scheduleSnapshot, hkey] at hc
    · -- removing the one removes a request of the other name
      have hse := congrArg (·.2.2.1)
        (hsa _ (.call .start ⟨hb.1, hj⟩ .scheduleSnapshot) .removeSnapshotRequest)
      have hm : (⟨b, j⟩ : CSnapshotRequestDBEntry) ∈
          (SnapshotDBs.call isValidDestination {} b j .scheduleSnapshot).retrieveSnapshotRequestsForHeight b 0 :=
        mem_retrieveSnapshotRequestsForHeight.2
          ⟨⟨_, Std.TreeMap.getElem?_insert_self⟩, Or.inl rfl, Or.inr rfl⟩
      change _ = (SnapshotDBs.call isValidDestination {} b j .scheduleSnapshot).retrieveSnapshotRequestsForHeight
        b 0 at hse
      rw [← hse] at hm
      obtain ⟨⟨key, he⟩, -⟩ := mem_retrieveSnapshotRequestsForHeight.1 hm
      simp [SnapshotDBs.call, scheduleSnapshot, removeSnapshotRequest, hkey] at he
  · intro hsh s hs c
    exact answers_call hs.filed ha.2 hne hsh c

theorem answers_call_iff_distinct : ¬SharesKey (str "ABC") 1 (str "XYZ") 2 ∧
    ∀ s, Reached (fun _ => true) s → ∀ c,
      (s.call (fun _ => true) (str "ABC") 1 c).answers (str "XYZ") 2 = s.answers (str "XYZ") 2 := by
  have hsh : ¬SharesKey (str "ABC") 1 (str "XYZ") 2 := by
    rintro (hkey | ⟨hz, -⟩)
    · exact absurd hkey (by decide +kernel)
    · cases hz
  exact ⟨hsh, (answers_call_iff ⟨by decide +kernel, by decide⟩ ⟨by decide +kernel, by decide⟩).2 hsh⟩

/-- A name may start with a digit: height 1 of one name and height 12 of another have the same key. -/
theorem answers_call_digit : Valid (str "2ABC") 1 ∧ Valid (str "ABC") 12 ∧
      (SnapshotDBs.call (fun _ => true) {} (str "2ABC") 1 .scheduleSnapshot).containsSnapshotRequest
        (str "ABC") 12 = true ∧
      SnapshotDBs.containsSnapshotRequest {} (str "ABC") 12 = false := by
  unfold Valid
  decide +kernel

end SnapshotDBs

end Isolation

end Cmusic
