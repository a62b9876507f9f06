import Cmusic.AssetStore
import Cmusic.Lib.Cursor

/-! The rows of the asset databases in the order of their serialized keys, and the scans over them. -/
namespace Cmusic

/-- A row whose key is a flag with two strings, or a row of a table that no scan asks for. -/
inductive DBRow (ν : Type) where
  | pair (flag : UInt8) (first second : Str) (value : ν)
  | other (flag : UInt8) (key : Str)

namespace DBRow

variable {ν : Type}

def pairKey (flag : UInt8) (first second : Str) : Str := flag :: (writeString first ++ writeString second)

/-- The serialized key. -/
def key : DBRow ν → Str
  | pair flag first second _ => pairKey flag first second
  | other flag key => flag :: key

/-- The database compares serialized keys byte by byte. -/
def order (row : DBRow ν) : List ℕ := row.key.map UInt8.toNat

/-- The second string and the value when the key has this flag and this first string. -/
def find (flag : UInt8) (first : Str) : DBRow ν → Option (Str × ν)
  | pair f a b value => if f = flag ∧ a = first then some (b, value) else none
  | other _ _ => none

/-- The strings of a key can be read back, and the flag tells what follows it. -/
def Readable (pairFlags : List UInt8) : DBRow ν → Prop
  | pair flag first second _ =>
    flag ∈ pairFlags ∧ first.length ≤ maxSize ∧ second.length ≤ maxSize
  | other flag _ => flag ∉ pairFlags

instance (pairFlags : List UInt8) (row : DBRow ν) : Decidable (row.Readable pairFlags) :=
  match row with
  | pair _ _ _ _ => inferInstanceAs (Decidable (_ ∧ _))
  | other _ _ => inferInstanceAs (Decidable (¬_))

end DBRow

/-- A database in which the tables with the given flags have two strings in their keys. -/
structure Database (pairFlags : List UInt8) (ν : Type) where
  rows : List (DBRow ν)
  ordered : rows.Pairwise fun a b => a.order < b.order
  readable : ∀ row ∈ rows, row.Readable pairFlags

namespace Database

variable {ν : Type} {pairFlags : List UInt8} (db : Database pairFlags ν)

/-- The cursor behind `Seek(make_pair(flag, make_pair(first, second)))`. -/
def seek (flag : UInt8) (first second : Str) : List (DBRow ν) :=
  Cursor.seek DBRow.order ((DBRow.pairKey flag first second).map UInt8.toNat) db.rows

/-- The rows with this flag and this first string, in key order. -/
def entries (flag : UInt8) (first : Str) : List (Str × ν) := db.rows.filterMap (DBRow.find flag first)

def maxDatabaseResults : Nat := 50000

/-- The number of rows for a key from the cursor on; the loop runs to the end of the database. -/
def dirTotal (flag : UInt8) (first : Str) : Nat :=
  ((db.seek flag first []).filterMap (DBRow.find flag first)).length

/-- The loop that loads rows: `skip` of them are passed over, `left` more may be loaded, and the first
row for another key ends it. -/
def load (flag : UInt8) (first : Str) : Nat → Nat → List (DBRow ν) → List (Str × ν)
  | _, _, [] => []
  | _, 0, _ => []
  | skip, left + 1, row :: rows =>
    match row.find flag first, skip with
    | none, _ => []
    | some _, skip + 1 => load flag first skip (left + 1) rows
    | some entry, 0 => entry :: load flag first 0 left rows

/-- A negative start counts from the end: the rows are counted, and the cursor then stands at the
first row of the database. -/
def dir (flag : UInt8) (first : Str) (count : Nat) (start : ℤ) : List (Str × ν) :=
  if 0 ≤ start then
    load flag first start.toNat (min count maxDatabaseResults) (db.seek flag first [])
  else
    load flag first ((db.dirTotal flag first + start) % 2 ^ 64).toNat (min count maxDatabaseResults) db.rows

section Scans

variable {db} {flag : UInt8} {first second : Str}

theorem injective_toNat : Function.Injective UInt8.toNat := fun _ _ h => UInt8.toNat_inj.1 h

theorem find_eq_some {row : DBRow ν} {entry : Str × ν} :
    row.find flag first = some entry ↔ row = .pair flag first entry.1 entry.2 := by
  cases row with
  | pair f a b value =>
    simp only [DBRow.find, Option.ite_none_right_eq_some, Option.some.injEq, DBRow.pair.injEq,
      Prod.ext_iff, and_assoc]
  | other f key => simp [DBRow.find]

theorem isPrefix_pairKey (flag : UInt8) (first second : Str) :
    (flag :: writeString first).map UInt8.toNat <+: (DBRow.pairKey flag first second).map UInt8.toNat :=
  List.IsPrefix.map _ ⟨writeString second, rfl⟩

/-- The rows for a key follow each other: no other key lies between two that start with the same
flag and string. -/
theorem find_of_between (hfl : flag ∈ pairFlags) {a b : DBRow ν} (ha : a ∈ db.rows) (hb : b ∈ db.rows)
    (hle : (DBRow.pairKey flag first second).map UInt8.toNat ≤ a.order) (hlt : a.order < b.order)
    (hfi : (b.find flag first).isSome) : (a.find flag first).isSome := by
  obtain ⟨entry, he⟩ := Option.isSome_iff_exists.1 hfi
  rw [find_eq_some] at he
  subst he
  obtain ⟨-, hfirst, -⟩ := db.readable _ hb
  have hf : (flag :: writeString first).map UInt8.toNat <+: a.order :=
    Cursor.isPrefix_of_between (isPrefix_pairKey flag first second)
      (isPrefix_pairKey flag first entry.1) hle hlt.le
  have hr := db.readable a ha
  cases a with
  | pair f a' b' value =>
    obtain ⟨tail, ht⟩ := (List.prefix_map_iff_of_injective injective_toNat).1 hf
    obtain ⟨rfl, hst⟩ := List.cons.inj ht
    obtain ⟨rfl, -⟩ := writeString_append_inj hfirst hr.2.1 hst
    simp [DBRow.find]
  | other f key =>
    obtain ⟨tail, ht⟩ := (List.prefix_map_iff_of_injective injective_toNat).1 hf
    obtain ⟨rfl, -⟩ := List.cons.inj ht
    exact absurd hfl hr

theorem takeWhile_seek (hf : flag ∈ pairFlags) (first second : Str) :
    (db.seek flag first second).takeWhile (fun row => (row.find flag first).isSome) =
      db.rows.filter fun row => (DBRow.pairKey flag first second).map UInt8.toNat ≤ row.order ∧
        (row.find flag first).isSome :=
  Cursor.takeWhile_seek db.ordered fun _ ha _ hb => find_of_between hf ha hb

/-- The empty string comes before every other one. -/
theorem pairKey_nil_le {row : DBRow ν} (h : (row.find flag first).isSome) :
    (DBRow.pairKey flag first []).map UInt8.toNat ≤ row.order := by
  obtain ⟨entry, he⟩ := Option.isSome_iff_exists.1 h
  rw [find_eq_some] at he
  subst he
  have hse : (writeString []).map UInt8.toNat ≤ (writeString entry.1).map UInt8.toNat := by
    rw [← not_lt]
    have hne : writeString entry.1 ≠ [] := by
      rw [writeString, writeCompactSize]
      split_ifs <;> simp [writeLE]
    obtain ⟨b, tail, ht⟩ := List.exists_cons_of_ne_nil hne
    rw [ht]
    change ¬b.toNat :: tail.map UInt8.toNat < [0]
    simp [List.cons_lt_cons_iff]
  have hke := Cursor.append_le_append_left hse ((flag :: writeString first).map UInt8.toNat)
  rwa [← List.map_append, ← List.map_append] at hke

theorem filterMap_filter_find {rows : List (DBRow ν)} {p : DBRow ν → Bool}
    (hp : ∀ row, (row.find flag first).isSome → p row = true) :
    (rows.filter p).filterMap (DBRow.find flag first) = rows.filterMap (DBRow.find flag first) := by
  rw [List.filterMap_filter]
  congr 1
  funext row
  cases hr : row.find flag first with
  | none => simp
  | some entry =>
    rw [hp row (by rw [hr]; rfl)]
    rfl

/-- From its first possible row on, a scan reads all rows for a key. -/
theorem filterMap_seek (hf : flag ∈ pairFlags) (first : Str) :
    ((db.seek flag first []).takeWhile fun row => (row.find flag first).isSome).filterMap
      (DBRow.find flag first) = db.entries flag first := by
  rw [takeWhile_seek hf first []]
  exact filterMap_filter_find fun row hr => decide_eq_true ⟨pairKey_nil_le hr, hr⟩

theorem dirTotal_eq (flag : UInt8) (first : Str) :
    db.dirTotal flag first = (db.entries flag first).length := by
  unfold dirTotal seek entries
  rw [Cursor.seek_eq_filter db.ordered]
  exact congrArg List.length (filterMap_filter_find fun row hr => decide_eq_true (pairKey_nil_le hr))

theorem load_eq (rows : List (DBRow ν)) (skip left : Nat) : load flag first skip left rows =
      (((rows.takeWhile fun row => (row.find flag first).isSome).filterMap
        (DBRow.find flag first)).drop skip).take left := by
  fun_induction load flag first skip left rows with
  | case1 => simp
  | case2 => simp
  | case3 skip left row rows hr => simp [hr]
  | case4 left row rows skip entry hr ih => simp [hr, ih]
  | case5 left row rows entry hr ih => simp [hr, ih]

/-- Forward paging. -/
theorem dir_natCast (hf : flag ∈ pairFlags) (first : Str) (count start : Nat) :
    db.dir flag first count start =
      ((db.entries flag first).drop start).take (min count maxDatabaseResults) := by
  rw [dir, if_pos (Int.natCast_nonneg start), load_eq, filterMap_seek hf, Int.toNat_natCast]

end Scans

end Database

def assetFlag : UInt8 := 65

def assetAddressQuantityFlag : UInt8 := 66

def addressAssetQuantityFlag : UInt8 := 67

/-- The database of the assets: their data under one string, and the two balance tables. -/
abbrev CAssetsDB := Database [assetAddressQuantityFlag, addressAssetQuantityFlag] CAmount

namespace CAssetsDB

variable (db : CAssetsDB)

/-- `AddressDir`: the assets of an address with their amounts. -/
def addressDir (address : Str) (count : Nat) (start : ℤ) : List (Str × CAmount) :=
  db.dir addressAssetQuantityFlag address count start

/-- `AssetAddressDir`: the holders of an asset with their amounts. -/
def assetAddressDir (assetName : Str) (count : Nat) (start : ℤ) : List (Str × CAmount) :=
  db.dir assetAddressQuantityFlag assetName count start

variable {db}

/-- The first row is one of the assets' own data, so a scan that starts there ends at once. -/
theorem dir_eq_nil {flag : UInt8} {name : Str} (ha : .other assetFlag (writeString name) ∈ db.rows)
    (hf : assetFlag < flag) (first : Str) (count : Nat) {start : ℤ} (hst : start < 0) :
    db.dir flag first count start = [] := by
  rw [Database.dir, if_neg (not_le.2 hst), Database.load_eq]
  have ho := db.ordered
  cases hr : db.rows with
  | nil => simp
  | cons row rest =>
    rw [hr] at ha ho
    have hn : row.find flag first = none := by
      by_contra hso
      obtain ⟨entry, he⟩ := Option.ne_none_iff_exists'.1 hso
      rw [Database.find_eq_some] at he
      subst he
      rcases List.mem_cons.1 ha with heq | hre
      · cases heq
      · have hlt := (List.pairwise_cons.1 ho).1 _ hre
        have hh : flag.toNat < assetFlag.toNat ∨ flag.toNat = assetFlag.toNat := by
          rcases List.cons_lt_cons_iff.1 hlt with hl | ⟨heq, -⟩
          · exact Or.inl hl
          · exact Or.inr heq
        have hl : assetFlag.toNat < flag.toNat := UInt8.lt_iff_toNat_lt.1 hf
        omega
    simp [hn]

/-- With a start counted from the end no rows are returned, although there are some to return. -/
theorem dir_backward_ne {name : Str} (hasset : .other assetFlag (writeString name) ∈ db.rows) (first : Str)
    {count k : Nat} (hk : 1 ≤ k) (hcount : 1 ≤ count) :
    (k ≤ (db.entries addressAssetQuantityFlag first).length → db.addressDir first count (-k) ≠
      ((db.entries addressAssetQuantityFlag first).drop
        ((db.entries addressAssetQuantityFlag first).length - k)).take count) ∧
    (k ≤ (db.entries assetAddressQuantityFlag first).length → db.assetAddressDir first count (-k) ≠
      ((db.entries assetAddressQuantityFlag first).drop
        ((db.entries assetAddressQuantityFlag first).length - k)).take count) := by
  have hne : ∀ flag, assetFlag < flag → k ≤ (db.entries flag first).length →
      db.dir flag first count (-k) ≠ ((db.entries flag first).drop
        ((db.entries flag first).length - k)).take count := by
    intro flag hf hle heq
    rw [dir_eq_nil hasset hf first count (by omega)] at heq
    have hl := congrArg List.length heq
    simp only [List.length_nil, List.length_take, List.length_drop] at hl
    omega
  exact ⟨hne _ (by decide), hne _ (by decide)⟩

/-- An asset, and a holder with one row in each table. -/
def sampleAssetsDB : CAssetsDB where
  rows := [.other assetFlag (writeString (str "ABC")),
    .pair assetAddressQuantityFlag (str "ABC") (str "C1") 5,
    .pair addressAssetQuantityFlag (str "C1") (str "ABC") 5]
  ordered := by decide +kernel
  readable := by decide +kernel

theorem dir_backward_ne_sampleAssetsDB :
    sampleAssetsDB.addressDir (str "C1") 1 (-1) ≠ [(str "ABC", 5)] :=
  (@dir_backward_ne sampleAssetsDB (str "ABC") List.mem_cons_self (str "C1") 1 1 le_rfl le_rfl).1
    (by decide +kernel)

/-- The last row of an address is asked for, and nothing is returned. -/
theorem sampleAssetsDB_backward : sampleAssetsDB.addressDir (str "C1") 1 (-1) = [] ∧
      sampleAssetsDB.addressDir (str "C1") 1 0 = [(str "ABC", 5)] := by
  decide +kernel

end CAssetsDB

def addressQualifierFlag : UInt8 := 84

def qualifierAddressFlag : UInt8 := 81

def restrictedAddressFlag : UInt8 := 82

/-- The database of tags and freezes; only the keys of its rows are read. -/
abbrev CRestrictedDB :=
  Database [addressQualifierFlag, qualifierAddressFlag, restrictedAddressFlag] Unit

namespace CRestrictedDB

/-- The tag is the qualifier or one of its sub qualifiers. -/
def isUnder (qualifier tag : Str) : Bool := tag = qualifier || (qualifier ++ str "/").isPrefixOf tag

/-- The loop of `CheckForAddressRootQualifier`. -/
def scanRootQualifier (address qualifier : Str) : List (DBRow Unit) → Bool
  | [] => false
  | row :: rows =>
    match row.find addressQualifierFlag address with
    | none => false
    | some (tag, _) => if isUnder qualifier tag then true else scanRootQualifier address qualifier rows

def checkForAddressRootQualifier (db : CRestrictedDB) (address qualifier : Str) : Bool :=
  scanRootQualifier address qualifier (db.seek addressQualifierFlag address qualifier)

variable {db : CRestrictedDB} {address q tag : Str}

theorem scanRootQualifier_iff {rows : List (DBRow Unit)} :
    scanRootQualifier address q rows = true ↔ ∃ row ∈ rows.takeWhile fun row =>
      (row.find addressQualifierFlag address).isSome,
        ∃ entry, row.find addressQualifierFlag address = some entry ∧ isUnder q entry.1 = true := by
  fun_induction scanRootQualifier address q rows with
  | case1 => simp
  | case2 row rows hr => simp [hr]
  | case3 row rows tag _ hr hu => simp [hr, hu]
  | case4 row rows tag _ hr hu ih => simp [hr, hu, ih]

/-- A string with a one-byte length comes before every longer one. -/
theorem writeString_le (hq : q.length < 253) (h : isUnder q tag = true) :
    (writeString q).map UInt8.toNat ≤ (writeString tag).map UInt8.toNat := by
  rcases Bool.or_eq_true_iff.1 h with heq | hf
  · rw [of_decide_eq_true heq]
  · have hl : q.length < tag.length := by
      have hle := (List.isPrefixOf_iff_prefix.1 hf).length_le
      rw [List.length_append] at hle
      exact hle
    have hb : writeString q = q.length.toUInt8 :: q := by
      rw [writeString, writeCompactSize, if_pos hq]
      rfl
    have hh : ∃ b rest, writeString tag = b :: rest ∧ q.length < b.toNat := by
      rw [writeString, writeCompactSize]
      split_ifs
      · exact ⟨_, _, rfl, by rw [toNat_toUInt8]; omega⟩
      · exact ⟨253, _, rfl, hq⟩
      · exact ⟨254, _, rfl, hq.trans (by decide)⟩
      · exact ⟨255, _, rfl, hq.trans (by decide)⟩
    obtain ⟨b, rest, ht, hles⟩ := hh
    rw [hb, ht]
    refine le_of_lt (List.cons_lt_cons_iff.2 (Or.inl ?_))
    rw [toNat_toUInt8]
    omega

/-- The scan starts at the qualifier itself, and its sub qualifiers are longer and come behind it. -/
theorem scan_seek_iff (hq : isAssetNameAQualifier q true = true) :
    checkForAddressRootQualifier db address q = true ↔
      ∃ tag, .pair addressQualifierFlag address tag () ∈ db.rows ∧ isUnder q tag = true := by
  have hl : q.length < 253 := by
    have hok : isAssetNameOk q = true := (Bool.and_eq_true_iff.1 hq).1
    exact (length_of_isAssetNameOk hok).trans_lt (by decide)
  rw [checkForAddressRootQualifier, scanRootQualifier_iff,
    Database.takeWhile_seek (List.mem_cons_self) address q]
  simp only [List.mem_filter, Database.find_eq_some, decide_eq_true_eq]
  constructor
  · rintro ⟨row, ⟨hr, -⟩, entry, rfl, hu⟩
    exact ⟨entry.1, hr, hu⟩
  · rintro ⟨tag, hr, hu⟩
    refine ⟨_, ⟨hr, ?_, by simp [DBRow.find]⟩, (tag, ()), rfl, hu⟩
    have hke := Cursor.append_le_append_left (writeString_le hl hu)
      ((addressQualifierFlag :: writeString address).map UInt8.toNat)
    rwa [← List.map_append, ← List.map_append] at hke

theorem checkForAddressRootQualifier_iff (hq : isAssetNameAQualifier q true = true) :
    checkForAddressRootQualifier db address q = true ↔
      ∃ tag, .pair addressQualifierFlag address tag () ∈ db.rows ∧
        (tag = q ∨ q ++ str "/" <+: tag) := by
  rw [scan_seek_iff hq]
  simp only [isUnder, Bool.or_eq_true, decide_eq_true_eq, List.isPrefixOf_iff_prefix]

/-- The scan answers as the filter over a table with the same tags. -/
theorem checkForAddressRootQualifier_eq {table : PairMap Unit}
    (hta : ∀ tag, (tag, address) ∈ table ↔ .pair addressQualifierFlag address tag () ∈ db.rows)
    (hq : isAssetNameAQualifier q true = true) :
    checkForAddressRootQualifier db address q = Cmusic.checkForAddressRootQualifier table (q, address) := by
  rw [Bool.eq_iff_iff, scan_seek_iff hq, Cmusic.checkForAddressRootQualifier, List.any_eq_true]
  simp only [Std.TreeMap.mem_keys, ← hta, Bool.and_eq_true, decide_eq_true_eq]
  constructor
  · rintro ⟨tag, hm, ht⟩
    exact ⟨(tag, address), hm, rfl, ht⟩
  · rintro ⟨⟨tag, address⟩, hm, rfl, ht⟩
    exact ⟨tag, hm, ht⟩

/-- A tag that is filed under a longer sub qualifier only. -/
def sampleTags : CRestrictedDB where
  rows := [.pair addressQualifierFlag (str "C1") (str "#ABD") (),
    .pair addressQualifierFlag (str "C1") (str "#ABC/#D") ()]
  ordered := by decide +kernel
  readable := by decide +kernel

theorem checkForAddressRootQualifier_iff_sampleTags :
    checkForAddressRootQualifier sampleTags (str "C1") (str "#ABC") = true :=
  (checkForAddressRootQualifier_iff (by decide +kernel)).2 ⟨str "#ABC/#D",
    List.mem_cons_of_mem _ List.mem_cons_self, Or.inr (by decide +kernel)⟩

end CRestrictedDB

end Cmusic
