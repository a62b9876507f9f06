import Mathlib.Data.List.TakeWhile
import Mathlib.Data.Nat.Digits.Lemmas
import Cmusic.Serialize

/-! Base58 text of byte strings. -/
namespace Cmusic

def base58Alphabet : Str := str "123456789ABCDEFGHJKLMNPQRSTUVWXYZabcdefghijkmnopqrstuvwxyz"

/-- Base58 digits of `n`, least significant first, at most `size` of them. -/
def base58Digits : Nat → Nat → List Nat
  | 0, _ => []
  | size + 1, n => if n = 0 then [] else n % 58 :: base58Digits size (n / 58)

/-- Each leading zero byte becomes a `1`; the rest is written in base 58. -/
def encodeBase58 (vch : Str) : Str :=
  let zeroes := vch.takeWhile (· = 0)
  let rest := vch.drop zeroes.length
  zeroes.map (fun _ => 49) ++
    (base58Digits (rest.length * 138 / 100 + 1) (littleEndian rest.reverse)).reverse.map
      fun digit => base58Alphabet.getD digit 0

theorem littleEndian_append_pos {bytes : Str} {b : UInt8} (h : b ≠ 0) :
    0 < littleEndian (bytes ++ [b]) := by
  have hb : 0 < b.toNat := Nat.pos_of_ne_zero fun h0 => h (UInt8.toNat_inj.1 h0)
  induction bytes with
  | nil => simpa [littleEndian] using hb
  | cons c bytes ih =>
    simp only [List.cons_append, littleEndian]
    omega

/-- Only the empty text stands for no bytes at all. -/
theorem encodeBase58_ne_nil {vch : Str} (h : vch ≠ []) : encodeBase58 vch ≠ [] := by
  cases vch with
  | nil => exact absurd rfl h
  | cons b vch =>
    by_cases hb : b = 0
    · simp [encodeBase58, hb]
    · have hp : littleEndian (vch.reverse ++ [b]) ≠ 0 := (littleEndian_append_pos hb).ne'
      simp [encodeBase58, hb, base58Digits, hp]

/-- The text carries the first four bytes of the double hash of the data. -/
def encodeBase58Check (hash256 : Str → Str) (vchIn : Str) : Str :=
  encodeBase58 (vchIn ++ (hash256 vchIn).take 4)

section InPlace

variable {mul base num den extra size inUse carry length : Nat} {digits input : List Nat}

/-- The inner loop of either direction, from the lowest digit: `digits * mul + carry` in place,
while there is a carry or a digit in use; it returns the digits then in use and the carry. -/
def mulAdd (mul base : Nat) : (digits : List Nat) → (inUse carry : Nat) → List Nat × Nat × Nat
  | [], _, carry => ([], 0, carry)
  | d :: digits, inUse, carry =>
    if carry ≠ 0 ∨ inUse ≠ 0 then
      let n := carry + mul * d
      let rest := mulAdd mul base digits (inUse - 1) (n / base)
      (n % base :: rest.1, rest.2.1 + 1, rest.2.2)
    else (d :: digits, 0, carry)

/-- The outer loop over the input; `none` where the assertion on the carry fails. -/
def convert (mul base size : Nat) (input : List Nat) : Option (List Nat × Nat) :=
  input.foldlM (fun (digits, length) n =>
    let next := mulAdd mul base digits length n
    if next.2.2 = 0 then some (next.1, next.2.1) else none) (List.replicate size 0, 0)

/-- Either direction: leading zeroes are kept, and the rest changes its base. -/
def recode (mul base num den extra : Nat) (input : List Nat) : Option (List Nat) := do
  let zeroes := (input.takeWhile (· = 0)).length
  let rest := input.dropWhile (· = 0)
  let (digits, length) ← convert mul base ((rest.length + extra) * num / den + 1) rest
  some (List.replicate zeroes 0 ++ (digits.take length).reverse.dropWhile (· = 0))

/-- Digits of the base, with zeroes only above those in use. -/
structure InUse (base : Nat) (digits : List Nat) (inUse : Nat) : Prop where
  lt : ∀ d ∈ digits, d < base
  above : ∀ d ∈ digits.drop inUse, d = 0

theorem InUse.ofDigits_take (h : InUse base digits inUse) :
    Nat.ofDigits base (digits.take inUse) = Nat.ofDigits base digits := by
  conv_rhs => rw [← List.take_append_drop inUse digits, List.eq_replicate_of_mem h.above]
  exact (Nat.ofDigits_append_replicate_zero _).symm

theorem mulAdd_spec (hb : 0 < base) (h : InUse base digits inUse) :
    let next := mulAdd mul base digits inUse carry
    InUse base next.1 next.2.1 ∧ next.1.length = digits.length ∧
      Nat.ofDigits base next.1 + base ^ digits.length * next.2.2 =
        mul * Nat.ofDigits base digits + carry := by
  induction digits generalizing inUse carry with
  | nil => exact ⟨⟨by simp [mulAdd], by simp [mulAdd]⟩, rfl, by simp [mulAdd]⟩
  | cons d digits ih =>
    obtain ⟨hd, hdi⟩ := List.forall_mem_cons.1 h.lt
    rw [mulAdd]
    split
    next hr =>
      have hnext : InUse base digits (inUse - 1) := by
        refine ⟨hdi, fun e he => h.above e ?_⟩
        cases inUse with
        | zero => exact List.mem_cons_of_mem _ he
        | succ inUse => exact he
      obtain ⟨ha, hl, hv⟩ := @ih _ ((carry + mul * d) / base) hnext
      refine ⟨⟨List.forall_mem_cons.2 ⟨Nat.mod_lt _ hb, ha.lt⟩, ha.above⟩, congrArg (· + 1) hl, ?_⟩
      dsimp only
      rw [List.length_cons, pow_succ', Nat.ofDigits_cons, Nat.ofDigits_cons]
      linear_combination base * hv + Nat.mod_add_div (carry + mul * d) base
    next hst =>
      obtain ⟨rfl, rfl⟩ : carry = 0 ∧ inUse = 0 := by simpa using hst
      have hz : 0 = Nat.ofDigits base (d :: digits) := h.ofDigits_take
      exact ⟨h, rfl, by simp [← hz]⟩

theorem convert_spec (hm : 1 < mul) (hb : 0 < base) (hi : ∀ n ∈ input, n < mul)
    (hsi : mul ^ input.length ≤ base ^ size) :
    ∃ digits length, convert mul base size input = some (digits, length) ∧
      InUse base digits length ∧ digits.length = size ∧
      Nat.ofDigits base digits = Nat.ofDigits mul input.reverse := by
  induction input using List.reverseRecOn with
  | nil =>
    refine ⟨_, _, rfl, ⟨fun d hd => ?_, fun d hd => List.eq_of_mem_replicate hd⟩,
      List.length_replicate, Nat.ofDigits_append_replicate_zero []⟩
    rwa [List.eq_of_mem_replicate hd]
  | append_singleton input n ih =>
    have ha : ∀ d ∈ (input ++ [n]).reverse, d < mul :=
      fun d hd => hi d (List.mem_reverse.1 hd)
    have hi := (List.forall_mem_append.1 hi).1
    rw [List.length_append, List.length_singleton] at hsi
    obtain ⟨digits, length, hco, h, hl, hv⟩ :=
      ih hi ((Nat.pow_le_pow_right (by omega) (Nat.le_succ _)).trans hsi)
    obtain ⟨hnext, hsa, hsu⟩ := @mulAdd_spec mul _ _ n _ hb h
    have ht : Nat.ofDigits mul (input ++ [n]).reverse =
        n + mul * Nat.ofDigits mul input.reverse := by
      rw [List.reverse_append, List.reverse_singleton, List.singleton_append, Nat.ofDigits_cons]
    have hlt : Nat.ofDigits mul (input ++ [n]).reverse < base ^ size := by
      refine (Nat.ofDigits_lt_base_pow_length hm ha).trans_le ?_
      simpa using hsi
    have hc : (mulAdd mul base digits length n).2.2 = 0 := by
      by_contra hne
      have hle := Nat.le_mul_of_pos_right (base ^ size) (Nat.pos_of_ne_zero hne)
      rw [hl, hv] at hsu
      omega
    refine ⟨_, _, ?_, hnext, hsa.trans hl, ?_⟩
    · rw [convert, List.foldlM_append, ← convert, hco]
      simp [hc]
    · rw [hc, hv] at hsu
      omega

/-- Without its leading zeroes a buffer holds the digits of its value. -/
theorem dropWhile_reverse (hb : 1 < base) (h : ∀ d ∈ digits, d < base) :
    digits.reverse.dropWhile (· = 0) = (base.digits (Nat.ofDigits base digits)).reverse := by
  induction digits using List.reverseRecOn with
  | nil => simp
  | append_singleton digits d ih =>
    rw [List.reverse_append, List.reverse_singleton, List.singleton_append, List.dropWhile_cons]
    split
    next hd =>
      obtain rfl : d = 0 := by simpa using hd
      rw [ih (List.forall_mem_append.1 h).1]
      congr 2
      exact (Nat.ofDigits_append_replicate_zero (k := 1) digits).symm
    next hd =>
      rw [Nat.digits_ofDigits base hb _ h (by simpa using hd)]
      simp

/-- A ratio of lengths that is at least the ratio of the logarithms. -/
theorem pow_le_pow_ratio (hd : den ≠ 0) (h : mul ^ den ≤ base ^ num) (hb : 0 < base)
    (n : Nat) : mul ^ n ≤ base ^ (n * num / den + 1) := by
  have hle : n * num ≤ (n * num / den + 1) * den := by
    have := Nat.lt_div_mul_add (Nat.pos_of_ne_zero hd) (a := n * num)
    rw [add_mul]
    omega
  rw [← Nat.pow_le_pow_iff_left hd]
  calc (mul ^ n) ^ den = (mul ^ den) ^ n := pow_right_comm _ _ _
    _ ≤ (base ^ num) ^ n := Nat.pow_le_pow_left h n
    _ = base ^ (n * num) := by rw [← pow_mul, mul_comm]
    _ ≤ base ^ ((n * num / den + 1) * den) := Nat.pow_le_pow_right hb hle
    _ = (base ^ (n * num / den + 1)) ^ den := pow_mul _ _ _

/-- What either direction computes. -/
def recoded (mul base : Nat) (input : List Nat) : List Nat :=
  List.replicate (input.takeWhile (· = 0)).length 0 ++
    (base.digits (Nat.ofDigits mul (input.dropWhile (· = 0)).reverse)).reverse

theorem recode_eq (hm : 1 < mul) (hb : 1 < base) (hde : den ≠ 0) (h : mul ^ den ≤ base ^ num)
    (hi : ∀ n ∈ input, n < mul) :
    recode mul base num den extra input = some (recoded mul base input) := by
  have hsi := (Nat.pow_le_pow_right (by omega) (Nat.le_add_right _ extra)).trans
    (pow_le_pow_ratio hde h (by omega) ((input.dropWhile (· = 0)).length + extra))
  obtain ⟨digits, length, hc, hdi, -, hv⟩ := convert_spec hm (by omega)
    (fun n hn => hi n ((List.dropWhile_sublist _).subset hn)) hsi
  rw [recode, hc]
  simp only [Option.bind_eq_bind, Option.bind_some]
  rw [dropWhile_reverse hb fun d hd => hdi.lt d (List.mem_of_mem_take hd), hdi.ofDigits_take, hv]
  rfl

theorem recoded_lt (hb : 1 < base) : ∀ d ∈ recoded mul base input, d < base := by
  refine List.forall_mem_append.2 ⟨fun d hd => ?_, fun d hd => ?_⟩
  · rw [List.eq_of_mem_replicate hd]
    omega
  · exact Nat.digits_lt_base hb (List.mem_reverse.1 hd)

/-- Leading zeroes are counted right, since a numeral has none. -/
theorem span_recoded (hb : 1 < base) : (recoded mul base input).takeWhile (· = 0) =
      List.replicate (input.takeWhile (· = 0)).length 0 ∧
    (recoded mul base input).dropWhile (· = 0) =
      (base.digits (Nat.ofDigits mul (input.dropWhile (· = 0)).reverse)).reverse := by
  unfold recoded
  generalize Nat.ofDigits mul (input.dropWhile (· = 0)).reverse = v
  have hdr := dropWhile_reverse hb fun d hd => Nat.digits_lt_base hb (m := v) hd
  have ht := List.takeWhile_append_dropWhile (p := (· = 0)) (l := (base.digits v).reverse)
  rw [Nat.ofDigits_digits] at hdr
  rw [hdr, List.append_left_eq_self] at ht
  have hz : ∀ d ∈ List.replicate (input.takeWhile (· = 0)).length 0, decide (d = 0) = true :=
    fun d hd => decide_eq_true (List.eq_of_mem_replicate hd)
  rw [List.takeWhile_append_of_pos hz, List.dropWhile_append_of_pos hz, ht, hdr, List.append_nil]
  exact ⟨rfl, rfl⟩

theorem recoded_recoded (hm : 1 < mul) (hb : 1 < base) (hi : ∀ n ∈ input, n < mul) :
    recoded base mul (recoded mul base input) = input := by
  have hz : List.replicate (input.takeWhile (· = 0)).length 0 = input.takeWhile (· = 0) := by
    refine (List.eq_replicate_of_mem fun d hd => ?_).symm
    simpa using List.all_eq_true.1 List.all_takeWhile d hd
  rw [recoded, (span_recoded hb).1, (span_recoded hb).2, List.reverse_reverse,
    Nat.ofDigits_digits, List.length_replicate, hz, Nat.digits_ofDigits mul hm,
    List.reverse_reverse, List.takeWhile_append_dropWhile]
  · exact fun d hd => hi d ((List.dropWhile_sublist _).subset (List.mem_reverse.1 hd))
  · intro hne
    rw [List.getLast_reverse]
    simpa using List.head_dropWhile_not (· = 0) (l := input) (by simpa using hne)

end InPlace

def isspace (c : UInt8) : Bool := c = 32 || (9 ≤ c && c ≤ 13)

/-- `EncodeBase58`; `none` where an assertion fails. -/
def encodeBase58InPlace (vch : Str) : Option Str :=
  (recode 256 58 138 100 0 (vch.map UInt8.toNat)).map fun digits =>
    digits.map fun digit => base58Alphabet.getD digit 0

/-- `DecodeBase58` of a text without zero bytes; the outer `none` is a failed assertion, the inner
one the result `false`. -/
def decodeBase58 (psz : Str) : Option (Option Str) := do
  let psz := psz.dropWhile isspace
  let digits := psz.takeWhile fun c => c ∈ base58Alphabet
  let rest := psz.dropWhile fun c => c ∈ base58Alphabet
  let b256 ← recode 58 256 733 1000 rest.length (digits.map fun c => base58Alphabet.idxOf c)
  some (if rest.dropWhile isspace = [] then some (b256.map UInt8.ofNat) else none)

theorem alphabet_spec : ∀ c ∈ base58Alphabet, isspace c = false ∧ base58Alphabet.idxOf c < 58 ∧
    base58Alphabet.getD (base58Alphabet.idxOf c) 0 = c := by
  decide +kernel

theorem idxOf_getD : ∀ digit < 58, base58Alphabet.getD digit 0 ∈ base58Alphabet ∧
    base58Alphabet.idxOf (base58Alphabet.getD digit 0) = digit := by
  decide +kernel

theorem map_map_cancel {α β : Type} {f : α → β} {g : β → α} {l : List α}
    (h : ∀ x ∈ l, g (f x) = x) : (l.map f).map g = l := by
  rw [List.map_map]
  exact (List.map_congr_left h).trans (List.map_id l)

theorem encodeBase58InPlace_eq (vch : Str) : encodeBase58InPlace vch =
    some ((recoded 256 58 (vch.map UInt8.toNat)).map fun digit => base58Alphabet.getD digit 0) := by
  rw [encodeBase58InPlace, recode_eq (by decide) (by decide) (by decide) (by decide +kernel),
    Option.map_some]
  exact List.forall_mem_map.2 fun b _ => b.toNat_lt

/-- The assertions of the decoder hold, and it reads the digits up to the first other character. -/
theorem decodeBase58_eq (psz : Str) : decodeBase58 psz =
    let digits := (psz.dropWhile isspace).takeWhile fun c => c ∈ base58Alphabet
    let rest := (psz.dropWhile isspace).dropWhile fun c => c ∈ base58Alphabet
    some (if rest.dropWhile isspace = [] then
      some ((recoded 58 256 (digits.map fun c => base58Alphabet.idxOf c)).map UInt8.ofNat)
    else none) := by
  rw [decodeBase58, recode_eq (by decide) (by decide) (by decide) (by decide +kernel),
    Option.bind_eq_bind, Option.bind_some]
  exact List.forall_mem_map.2 fun c hc =>
    (alphabet_spec c (by simpa using List.all_eq_true.1 List.all_takeWhile c hc)).2.1

theorem dropWhile_of_head? {text : Str} (h : ∀ c ∈ text.head?, isspace c = false) :
    text.dropWhile isspace = text := by
  cases text with
  | nil => rfl
  | cons c text => simp [h c rfl]

theorem decodeBase58_of_alphabet {psz : Str} (h : ∀ c ∈ psz, c ∈ base58Alphabet) :
    decodeBase58 psz =
      some (some ((recoded 58 256 (psz.map fun c => base58Alphabet.idxOf c)).map UInt8.ofNat)) := by
  have ha : ∀ c ∈ psz, decide (c ∈ base58Alphabet) = true := fun c hc => decide_eq_true (h c hc)
  rw [decodeBase58_eq,
    dropWhile_of_head? fun c hc => (alphabet_spec c (h c (List.mem_of_mem_head? hc))).1,
    List.takeWhile_eq_self_iff.2 ha, List.dropWhile_eq_nil_iff.2 ha]
  rfl

theorem base58Digits_eq {size n : Nat} (h : n < 58 ^ size) :
    base58Digits size n = Nat.digits 58 n := by
  induction size generalizing n with
  | zero =>
    obtain rfl : n = 0 := by simpa using h
    rfl
  | succ size ih =>
    rw [base58Digits]
    split
    next hn => simp [hn]
    next hn =>
      rw [ih (Nat.div_lt_of_lt_mul (by rwa [pow_succ'] at h)),
        Nat.digits_def' (by decide) (Nat.pos_of_ne_zero hn)]

theorem littleEndian_eq (bytes : Str) :
    littleEndian bytes = Nat.ofDigits 256 (bytes.map UInt8.toNat) := by
  induction bytes with
  | nil => rfl
  | cons b bytes ih => rw [littleEndian, ih, List.map_cons, Nat.ofDigits_cons]

/-- The in-place loops compute the numeral of `encodeBase58`. -/
theorem encodeBase58InPlace_eq_encodeBase58 (vch : Str) :
    encodeBase58InPlace vch = some (encodeBase58 vch) := by
  have hz : (fun n => decide (n = 0)) ∘ UInt8.toNat = fun b => decide (b = 0) := by
    funext b
    simp [← UInt8.toNat_inj]
  have hlt (rest : Str) :
      Nat.ofDigits 256 (rest.reverse.map UInt8.toNat) < 58 ^ (rest.length * 138 / 100 + 1) := by
    refine (Nat.ofDigits_lt_base_pow_length (by decide) (List.forall_mem_map.2 fun b _ =>
      b.toNat_lt)).trans_le ?_
    simpa using pow_le_pow_ratio (by decide) (by decide +kernel) (by decide) rest.length
  rw [encodeBase58InPlace_eq, recoded, encodeBase58, List.takeWhile_map, List.dropWhile_map, hz,
    ← List.map_reverse, List.length_map]
  have hd : vch.drop (vch.takeWhile (· = 0)).length = vch.dropWhile (· = 0) := by
    have h := @List.drop_left _ (vch.takeWhile (· = 0)) (vch.dropWhile (· = 0))
    rwa [List.takeWhile_append_dropWhile] at h
  rw [hd, littleEndian_eq, base58Digits_eq (hlt _), List.map_append, List.map_replicate,
    List.map_const']
  rfl

/-- The two directions undo each other, and none of their assertions fails. -/
theorem base58_spec : (∀ b : Str, b.length < 2 ^ 20 → ∃ text, encodeBase58InPlace b = some text ∧
      decodeBase58 text = some (some b)) ∧
    (∀ text, decodeBase58 text ≠ none) ∧
    ∀ text b, (∀ c ∈ text.head?, isspace c = false) → (∀ c ∈ text.getLast?, isspace c = false) →
      decodeBase58 text = some (some b) → encodeBase58InPlace b = some text := by
  refine ⟨fun b _ => ⟨_, encodeBase58InPlace_eq b, ?_⟩, fun text => by simp [decodeBase58_eq], ?_⟩
  · have hlt : ∀ d ∈ recoded 256 58 (b.map UInt8.toNat), d < 58 := recoded_lt (by decide)
    rw [decodeBase58_of_alphabet, map_map_cancel fun d hd => (idxOf_getD d (hlt d hd)).2,
      recoded_recoded (by decide) (by decide) (List.forall_mem_map.2 fun b _ => b.toNat_lt),
      map_map_cancel (by simp)]
    intro c hc
    obtain ⟨d, hd, rfl⟩ := List.mem_map.1 hc
    exact (idxOf_getD d (hlt d hd)).1
  · intro text b hh hl hde
    have ha : ∀ c ∈ text, c ∈ base58Alphabet := by
      rw [decodeBase58_eq, dropWhile_of_head? hh, Option.some.injEq] at hde
      simp only [Option.ite_none_right_eq_some, List.dropWhile_eq_nil_iff] at hde
      obtain hni | ⟨l, c, hc⟩ :=
        List.eq_nil_or_concat' (text.dropWhile fun c => c ∈ base58Alphabet)
      · exact fun c hc => of_decide_eq_true (List.dropWhile_eq_nil_iff.1 hni c hc)
      · have hsp := hl c (by
          rw [← List.takeWhile_append_dropWhile (p := fun c => c ∈ base58Alphabet) (l := text), hc]
          simp)
        rw [hde.1 c (by simp [hc])] at hsp
        cases hsp
    rw [decodeBase58_of_alphabet ha] at hde
    obtain rfl := Option.some.inj (Option.some.inj hde)
    rw [encodeBase58InPlace_eq,
      map_map_cancel fun n hn => Nat.mod_eq_of_lt (recoded_lt (by decide) n hn),
      recoded_recoded (by decide) (by decide) (List.forall_mem_map.2 fun c hc =>
        (alphabet_spec c (ha c hc)).2.1),
      map_map_cancel fun c hc => (alphabet_spec c (ha c hc)).2.2]

end Cmusic
