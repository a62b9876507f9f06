import Cmusic.Verifier

/-! The evaluator of verifier strings: where the scan of a formula for an operator starts, where it
cuts, and when the evaluation ends without an exception. -/
namespace Cmusic

namespace LibBoolEE

/-- The state of `singleParse` with the text since the last start in place of its position. -/
structure Scan where
  current : Option Str := none
  parity : Int := 0
  pieces : List Str := []

namespace Scan

/-- The text joins the current piece, or starts one. -/
def add (sc : Scan) (text : Str) : Scan := { sc with current := some (sc.current.getD [] ++ text) }

def step (op : UInt8) (sc : Scan) (c : UInt8) : Option Scan :=
  if isOneOf ")" c then
    some { sc with parity := sc.parity - 1, current := sc.current.map (· ++ [c]) }
  else if isOneOf "(" c then some { sc.add [c] with parity := sc.parity + 1 }
  else if sc.parity = 0 then
    match sc.current with
    | none => if belongsToName c || isOneOf "!" c then some (sc.add [c]) else some sc
    | some text =>
      if belongsToName c || isOneOf "!" c then some (sc.add [c])
      else if c = op then some { sc with pieces := sc.pieces ++ [text], current := some [] }
      else if isOneOf "&|" c then some (sc.add [c])
      else none
  else some { sc with current := sc.current.map (· ++ [c]) }

def run (sc : Scan) (op : UInt8) (s : Str) : Option Scan := s.foldlM (step op) sc

def finish (sc : Scan) : Option (List Str) :=
  if sc.parity ≠ 0 then none else some (sc.pieces ++ sc.current.toList)

/-- `sc` is the state `st` of the loop behind the text `front`. -/
structure Of (front : Str) (st : ParseState) (sc : Scan) : Prop where
  current : sc.current = st.startPos.map front.drop
  start : ∀ start, st.startPos = some start → start ≤ front.length
  parity : sc.parity = st.parityCount
  pieces : sc.pieces = st.subexpressions

variable {op c : UInt8} {front rest formula : Str} {st : ParseState} {sc : Scan}

theorem run_append (a b : Str) : run sc op (a ++ b) = (run sc op a).bind fun sc => run sc op b := by
  unfold run
  rw [List.foldlM_append]
  rfl

theorem run_cons : run sc op (c :: rest) = (step op sc c).bind fun sc => run sc op rest := by
  unfold run
  rw [List.foldlM_cons]
  rfl

theorem Of.pass (h : Of front st sc) {parity : Int} :
    Of (front ++ [c]) { st with parityCount := parity }
      { sc with parity := parity, current := sc.current.map (· ++ [c]) } where
  current := by
    change sc.current.map (· ++ [c]) = st.startPos.map (front ++ [c]).drop
    rw [h.current]
    cases hst : st.startPos with
    | none => rfl
    | some start => simp [List.drop_append_of_le_length (h.start start hst)]
  start start hst := (h.start start hst).trans (by simp)
  parity := rfl
  pieces := h.pieces

theorem Of.add (h : Of front st sc) {parity : Int} :
    Of (front ++ [c]) { st with parityCount := parity, startPos := st.startPos <|> some front.length }
      { sc.add [c] with parity := parity } where
  current := by
    change some (sc.current.getD [] ++ [c]) =
      (st.startPos <|> some front.length).map (front ++ [c]).drop
    rw [h.current]
    cases hst : st.startPos with
    | none => simp
    | some start => simp [List.drop_append_of_le_length (h.start start hst)]
  start := by
    intro start hst
    rw [Option.orElse_eq_orElse, Option.orElse_eq_or] at hst
    rw [List.length_append]
    rcases Option.or_eq_some_iff.1 hst with hp | ⟨-, hp⟩
    · exact Nat.le_add_right_of_le (h.start start hp)
    · cases hp
      exact Nat.le_add_right _ _
  parity := rfl
  pieces := h.pieces

theorem Of.step (h : Of front st sc) : Option.Rel (Of (front ++ [c]))
      (singleParseStep (front ++ c :: rest) op st (c, front.length)) (Scan.step op sc c) := by
  obtain ⟨startPos, parity, pieces⟩ := st
  obtain ⟨current, parity', pieces'⟩ := sc
  obtain rfl : parity' = parity := h.parity
  obtain rfl : pieces' = pieces := h.pieces
  obtain rfl : current = startPos.map front.drop := h.current
  unfold singleParseStep Scan.step
  cases startPos with
  | none =>
    dsimp only [Option.map_none]
    split_ifs
    · exact .some h.pass
    · exact .some h.add
    · exact .some (@Of.add _ _ _ _ h parity')
    · exact .some (@Of.pass _ _ _ _ h parity')
    · exact .some (@Of.pass _ _ _ _ h parity')
  | some start =>
    have hst := h.start start rfl
    -- the piece between the start and this operator
    have hp : ((front ++ c :: rest).drop start).take (front.length - start) = front.drop start := by
      rw [List.drop_append_of_le_length hst, List.take_append_of_le_length (by simp),
        List.take_of_length_le (by simp)]
    dsimp only [Option.map_some]
    rw [hp]
    split_ifs
    · exact .some h.pass
    · exact .some h.add
    · exact .some (@Of.add _ _ _ _ h parity')
    · refine .some ⟨?_, ?_, rfl, rfl⟩
      · change some [] = some ((front ++ [c]).drop (front.length + 1))
        rw [List.drop_of_length_le (by simp)]
      · rintro _ ⟨⟩
        simp
    · exact .some (@Of.add _ _ _ _ h parity')
    · exact .none
    · exact .some (@Of.pass _ _ _ _ h parity')

theorem Of.run (h : Of front st sc) : Option.Rel (Of (front ++ rest))
      ((rest.zipIdx front.length).foldlM (singleParseStep (front ++ rest) op) st)
      (run sc op rest) := by
  induction rest generalizing front st sc with
  | nil =>
    rw [List.append_nil]
    exact .some h
  | cons c rest ih =>
    rw [run_cons, List.zipIdx_cons, List.foldlM_cons]
    have hstep := @Of.step op c front rest st sc h
    generalize singleParseStep (front ++ c :: rest) op st (c, front.length) = next at hstep
    generalize Scan.step op sc c = next' at hstep
    cases hstep with
    | none => exact .none
    | some hnext =>
      have hr := ih hnext
      rw [List.append_assoc, List.length_append] at hr
      exact hr

theorem singleParse_eq : singleParse formula op = (run {} op formula).bind finish := by
  have hi : Of [] {} {} := ⟨rfl, nofun, rfl, rfl⟩
  have hr := @Of.run op [] formula {} {} hi
  unfold singleParse
  change Option.Rel (Of formula) (formula.zipIdx.foldlM (singleParseStep formula op) {}) _ at hr
  generalize formula.zipIdx.foldlM (singleParseStep formula op) {} = last at hr ⊢
  generalize run {} op formula = last' at hr ⊢
  cases hr with
  | none => rfl
  | @some st sc h =>
    change (if st.parityCount ≠ 0 then none else _) = finish sc
    unfold finish
    rw [h.parity, h.pieces, h.current]
    split
    · rfl
    · cases st.startPos with
      | none => rw [Option.map_none, Option.toList_none, List.append_nil]
      | some start => rfl

end Scan

/-- The characters that belong to an operand at the top level of a formula. -/
def isOperand (c : UInt8) : Bool := belongsToName c || isOneOf "!" c

/-- The characters that `singleParse` passes over in front of the first operand. -/
def isSkipped (c : UInt8) : Bool := !(isOperand c || isOneOf "()" c)

/-- The parentheses that a text opens and does not close. -/
def depth : Str → Int
  | [] => 0
  | c :: s => (if c = 41 then -1 else if c = 40 then 1 else 0) + depth s

/-- The characters of a text outside of all parentheses, where `n` are open in front of it. -/
def outer : Int → Str → Str
  | _, [] => []
  | n, c :: s =>
    if c = 41 then outer (n - 1) s
    else if c = 40 then outer (n + 1) s
    else if n = 0 then c :: outer n s
    else outer n s

/-- Nothing outside of the parentheses stops the scan for `op` or cuts the text. -/
def Uncut (op : UInt8) (n : Int) (s : Str) : Prop :=
  ∀ c ∈ outer n s, isOperand c = true ∨ c ≠ op ∧ isOneOf "&|" c = true

theorem isSkipped_iff {c : UInt8} : isSkipped c = true ↔ isOperand c = false ∧ c ≠ 40 ∧ c ≠ 41 := by
  simp [isSkipped, isOneOf, str]

section Depth

variable {op c : UInt8} {n : Int} {s k : Str} {pieces : List Str}

theorem depth_append (a b : Str) : depth (a ++ b) = depth a + depth b := by
  induction a with
  | nil => simp [depth]
  | cons c a ih =>
    rw [List.cons_append, depth, depth, ih]
    omega

theorem depth_cons (c : UInt8) (s : Str) : depth (c :: s) = depth [c] + depth s := depth_append [c] s

theorem outer_append (n : Int) (a b : Str) :
    outer n (a ++ b) = outer n a ++ outer (n + depth a) b := by
  induction a generalizing n with
  | nil => simp [outer, depth]
  | cons c a ih =>
    rw [List.cons_append, outer, outer, depth]
    split_ifs
    · rw [ih, ← Int.add_assoc]
      rfl
    · rw [ih, ← Int.add_assoc]
    · rw [ih, Int.zero_add]
      rfl
    · rw [ih, Int.zero_add]

theorem outer_cons : outer n (c :: s) = outer n [c] ++ outer (n + depth [c]) s := outer_append n [c] s

theorem uncut_append {a b : Str} (h : n + depth a = 0) :
    Uncut op n (a ++ b) ↔ Uncut op n a ∧ Uncut op 0 b := by
  unfold Uncut
  rw [outer_append, h]
  simp only [List.mem_append, or_imp, forall_and]

theorem outer_of_ne (ho : c ≠ 40) (hc : c ≠ 41) : outer 0 (c :: s) = c :: outer 0 s := by
  simp [outer, ho, hc]

theorem depth_of_ne (ho : c ≠ 40) (hc : c ≠ 41) : depth (c :: s) = depth s := by
  simp [depth, ho, hc]

/-- A text that closes what it opens, and nothing else. -/
structure Closed (s : Str) : Prop where
  depth_eq : depth s = 0
  hidden : ∀ n, 0 < n → outer n s = []

theorem Closed.append {a b : Str} (ha : Closed a) (hb : Closed b) : Closed (a ++ b) where
  depth_eq := by rw [depth_append, ha.depth_eq, hb.depth_eq, Int.add_zero]
  hidden n hn := by
    rw [outer_append, ha.hidden n hn, ha.depth_eq, Int.add_zero, hb.hidden n hn]
    rfl

theorem Closed.cons (ho : c ≠ 40) (hc : c ≠ 41) (h : Closed s) : Closed (c :: s) where
  depth_eq := by rw [depth_of_ne ho hc, h.depth_eq]
  hidden n hn := by
    rw [outer, if_neg hc, if_neg ho, if_neg (ne_of_gt hn)]
    exact h.hidden n hn

theorem Closed.of_forall (h : ∀ c ∈ s, c ≠ 40 ∧ c ≠ 41) : Closed s := by
  induction s with
  | nil => exact ⟨rfl, fun _ _ => rfl⟩
  | cons c s ih =>
    obtain ⟨ho, hc⟩ := h c List.mem_cons_self
    exact .cons ho hc (ih fun d hd => h d (List.mem_cons_of_mem _ hd))

theorem outer_of_forall (h : ∀ c ∈ s, c ≠ 40 ∧ c ≠ 41) : outer 0 s = s := by
  induction s with
  | nil => rfl
  | cons c s ih =>
    obtain ⟨ho, hc⟩ := h c List.mem_cons_self
    rw [outer_of_ne ho hc, ih fun d hd => h d (List.mem_cons_of_mem _ hd)]

theorem Closed.paren (h : Closed s) : Closed (40 :: (s ++ [41])) where
  depth_eq := by
    rw [depth, depth_append, h.depth_eq]
    decide
  hidden n hn := by
    rw [outer, if_neg (by decide), if_pos rfl, outer_append, h.hidden (n + 1) (by omega)]
    rfl

theorem Closed.intercalate (ho : op ≠ 40) (hc : op ≠ 41)
    (h : ∀ piece ∈ pieces, Closed piece) : Closed ([op].intercalate pieces) := by
  induction pieces with
  | nil => exact .of_forall nofun
  | cons piece pieces ih =>
    have hr := ih fun piece hp => h piece (List.mem_cons_of_mem _ hp)
    have hp := h piece List.mem_cons_self
    cases pieces with
    | nil =>
      rw [List.intercalate_singleton]
      exact hp
    | cons next pieces =>
      rw [List.intercalate_cons_cons, List.append_assoc]
      exact hp.append (.cons ho hc hr)

/-- The characters outside of the parentheses of a list of pieces. -/
theorem mem_outer_intercalate (ho : op ≠ 40) (hc : op ≠ 41)
    (h : ∀ piece ∈ pieces, depth piece = 0) :
    c ∈ outer 0 ([op].intercalate pieces) ↔
      (∃ piece ∈ pieces, c ∈ outer 0 piece) ∨ c = op ∧ 1 < pieces.length := by
  induction pieces with
  | nil => simp [outer]
  | cons piece pieces ih =>
    have ih := ih fun piece hp => h piece (List.mem_cons_of_mem _ hp)
    have hp := h piece List.mem_cons_self
    cases pieces with
    | nil => simp
    | cons next pieces =>
      rw [List.intercalate_cons_cons, List.append_assoc, outer_append, hp, Int.zero_add,
        List.singleton_append, outer_of_ne ho hc, List.mem_append, List.mem_cons, ih]
      simp only [List.mem_cons, List.length_cons, exists_eq_or_imp]
      constructor
      · rintro (h | h | h | ⟨h, -⟩)
        · exact Or.inl (Or.inl h)
        · exact Or.inr ⟨h, by omega⟩
        · exact Or.inl (Or.inr h)
        · exact Or.inr ⟨h, by omega⟩
      · rintro ((h | h) | ⟨h, -⟩)
        · exact Or.inl h
        · exact Or.inr (Or.inr (Or.inl h))
        · exact Or.inr (Or.inl h)

/-- The text starts with an operand. -/
def Starts (s : Str) : Prop := ∃ c t, s = c :: t ∧ (isOperand c = true ∨ c = 40)

/-- The texts that no scan cuts. -/
structure Atomic (s : Str) : Prop where
  closed : Closed s
  start : Starts s
  operands : ∀ c ∈ outer 0 s, isOperand c = true

theorem belongsToName_of_isNameChar (h : isNameChar c = true) : belongsToName c = true := by
  simp only [isNameChar, isOneOf, str, Bool.or_eq_true] at h
  simp only [belongsToName, isAlnum, isOneOf, str, Bool.or_eq_true]
  rcases h with (h | h) | h
  · exact Or.inl (Or.inl (Or.inl h))
  · exact Or.inl (Or.inr h)
  · refine Or.inr ?_
    simp at h ⊢
    tauto

theorem isOperand_of_isNameChar (h : isNameChar c = true) : isOperand c = true := by
  rw [isOperand, belongsToName_of_isNameChar h]
  rfl

theorem Atomic.word (h : ∀ c ∈ s, isNameChar c = true) (hne : s ≠ []) : Atomic s := by
  have hcl : ∀ c ∈ s, c ≠ 40 ∧ c ≠ 41 := by
    intro c hc
    have hname := h c hc
    constructor <;> rintro rfl <;> revert hname <;> decide
  refine ⟨.of_forall hcl, ?_, fun c hc => ?_⟩
  · obtain ⟨c, t, rfl⟩ := List.exists_cons_of_ne_nil hne
    exact ⟨c, t, rfl, Or.inl (isOperand_of_isNameChar (h c List.mem_cons_self))⟩
  · rw [outer_of_forall hcl] at hc
    exact isOperand_of_isNameChar (h c hc)

theorem Atomic.not (h : Atomic s) : Atomic (33 :: s) := by
  refine ⟨.cons (by decide) (by decide) h.closed, ⟨33, s, rfl, Or.inl (by decide)⟩, fun c hc => ?_⟩
  rw [outer_of_ne (by decide) (by decide)] at hc
  rcases List.mem_cons.1 hc with rfl | hc
  · decide
  · exact h.operands c hc

theorem Atomic.paren (h : Closed s) : Atomic (40 :: (s ++ [41])) := by
  refine ⟨h.paren, ⟨40, _, rfl, Or.inr rfl⟩, fun c hc => ?_⟩
  rw [outer, if_neg (by decide), if_pos rfl, outer_append, h.hidden (0 + 1) (by decide)] at hc
  cases hc

theorem Atomic.uncut (h : Atomic s) : Uncut op 0 s := fun c hc => Or.inl (h.operands c hc)

/-- No conjunction is cut at a disjunction sign. -/
theorem uncut_intercalate (h : ∀ piece ∈ pieces, Atomic piece) :
    Uncut 124 0 ([38].intercalate pieces) := by
  intro c hc
  rw [mem_outer_intercalate (by decide) (by decide) fun piece hp =>
    (h piece hp).closed.depth_eq] at hc
  rcases hc with ⟨piece, hp, hc⟩ | ⟨rfl, -⟩
  · exact (h piece hp).uncut c hc
  · exact Or.inr (by decide)

end Depth

section Cut

variable {op c : UInt8} {n : Int} {s k first piece text : Str} {rest pieces : List Str}
  {sc sc' : Scan}

/-- The pieces of a text that is cut at each `op` outside of its parentheses, where `n` are open in
front of it and none behind it. -/
structure Cut (op : UInt8) (n : Int) (s first : Str) (rest : List Str) : Prop where
  text : s = [op].intercalate (first :: rest)
  depth_first : n + depth first = 0
  uncut_first : Uncut op n first
  pieces : ∀ piece ∈ rest, depth piece = 0 ∧ Uncut op 0 piece

theorem intercalate_cons_char (c : UInt8) :
    [op].intercalate ((c :: first) :: rest) = c :: [op].intercalate (first :: rest) := by
  cases rest <;> simp

/-- The character does not cut the text where `n` parentheses are open. -/
def Joins (op : UInt8) (n : Int) (c : UInt8) : Prop :=
  c = 41 ∨ c = 40 ∨ n ≠ 0 ∨ isOperand c = true ∨ c ≠ op ∧ isOneOf "&|" c = true

instance : Decidable (Joins op n c) := by unfold Joins; infer_instance

theorem uncut_cons : Uncut op n (c :: s) ↔ Joins op n c ∧ Uncut op (n + depth [c]) s := by
  unfold Uncut Joins
  rw [outer_cons]
  simp only [List.mem_append, or_imp, forall_and, outer]
  refine and_congr_left fun _ => ?_
  split_ifs with hc ho hz <;> simp [*]

/-- A character that does not cut the text joins its first piece. -/
theorem Cut.cons (h : Cut op (n + depth [c]) s first rest) (hc : Joins op n c) :
    Cut op n (c :: s) (c :: first) rest where
  text := by rw [intercalate_cons_char, ← h.text]
  depth_first := by rw [depth_cons, ← Int.add_assoc, h.depth_first]
  uncut_first := uncut_cons.2 ⟨hc, h.uncut_first⟩
  pieces := h.pieces

namespace Scan

theorem isOneOf_of_ne (ho : c ≠ 40) (hc : c ≠ 41) :
    isOneOf ")" c = false ∧ isOneOf "(" c = false := by
  simp [isOneOf, str, ho, hc]

/-- One character of the scan in front of the first operand. -/
theorem step_unstarted (h : sc.current = none) : step op sc c =
    if c = 40 ∨ sc.parity = 0 ∧ isOperand c = true then
      some ⟨some [c], sc.parity + depth [c], sc.pieces⟩
    else some ⟨none, sc.parity + depth [c], sc.pieces⟩ := by
  obtain ⟨current, parity, pieces⟩ := sc
  obtain rfl : current = none := h
  by_cases hc : c = 41
  · subst hc
    have hw : isOperand 41 = false := by decide
    simp only [hw, reduceCtorEq, and_false, or_false]
    rfl
  by_cases ho : c = 40
  · subst ho
    rfl
  obtain ⟨hc', ho'⟩ := isOneOf_of_ne ho hc
  have hd : depth [c] = 0 := depth_of_ne ho hc
  simp only [step, hc', ho', hd, ho, false_or, Int.add_zero, ite_and, isOperand]
  rfl

/-- One character of the scan, once an operand has started. -/
theorem step_started (h : sc.current = some text) : step op sc c =
    if Joins op sc.parity c then some ⟨some (text ++ [c]), sc.parity + depth [c], sc.pieces⟩
    else if c = op then some ⟨some [], sc.parity, sc.pieces ++ [text]⟩
    else none := by
  obtain ⟨current, parity, pieces⟩ := sc
  obtain rfl : current = some text := h
  by_cases hc : c = 41
  · refine Eq.trans ?_ (if_pos (Or.inl hc)).symm
    subst hc
    rfl
  by_cases ho : c = 40
  · refine Eq.trans ?_ (if_pos (Or.inr (Or.inl ho))).symm
    subst ho
    rfl
  obtain ⟨hc', ho'⟩ := isOneOf_of_ne ho hc
  have hd : depth [c] = 0 := depth_of_ne ho hc
  simp only [step, Joins, hc', ho', hd, ho, hc, false_or, Int.add_zero]
  split_ifs <;> simp_all [add, isOperand]

theorem parity_of_step (h : step op sc c = some sc') : sc'.parity = sc.parity + depth [c] := by
  cases hc : sc.current with
  | none =>
    rw [step_unstarted hc] at h
    split at h
    all_goals
      cases h
      rfl
  | some text =>
    rw [step_started hc] at h
    split_ifs at h with hj hop
    · cases h
      rfl
    · have hd : depth [c] = 0 :=
        depth_of_ne (fun ho => hj (Or.inr (Or.inl ho))) fun hcl => hj (Or.inl hcl)
      cases h
      rw [hd, Int.add_zero]

theorem parity_of_run (h : sc.run op s = some sc') : sc'.parity = sc.parity + depth s := by
  induction s generalizing sc with
  | nil =>
    cases h
    exact (Int.add_zero _).symm
  | cons c s ih =>
    rw [run_cons] at h
    obtain ⟨next, hstep, hr⟩ := Option.bind_eq_some_iff.1 h
    rw [ih hr, parity_of_step hstep, depth_cons c s, Int.add_assoc]

/-- Once an operand has started, the scan cuts the text into pieces. -/
theorem cut_of_run (hcu : sc.current = some text) (h : sc.run op s = some sc')
    (he : sc'.parity = 0) :
    ∃ first rest, sc'.pieces ++ sc'.current.toList = sc.pieces ++ (text ++ first) :: rest ∧
      Cut op sc.parity s first rest := by
  induction s generalizing sc text with
  | nil =>
    cases h
    refine ⟨[], [], ?_, ⟨rfl, ?_, nofun, nofun⟩⟩
    · rw [hcu, List.append_nil]
      rfl
    · rw [he]
      rfl
  | cons c s ih =>
    rw [run_cons, step_started hcu] at h
    obtain ⟨next, hstep, hr⟩ := Option.bind_eq_some_iff.1 h
    split_ifs at hstep with hj hop
    · cases hstep
      obtain ⟨first, rest, hp, hc⟩ := ih rfl hr
      refine ⟨c :: first, rest, ?_, hc.cons hj⟩
      rw [hp, List.append_assoc]
      rfl
    · cases hstep
      obtain ⟨first, rest, hp, hc⟩ := ih rfl hr
      have hpa : sc.parity = 0 := by
        by_contra hne
        exact hj (Or.inr (Or.inr (Or.inl hne)))
      have hfirst := hc.depth_first
      have hu := hc.uncut_first
      rw [hpa, Int.zero_add] at hfirst
      rw [hpa] at hu
      refine ⟨[], first :: rest, ?_, ?_, ?_, nofun, ?_⟩
      · rw [hp, List.append_assoc, List.append_nil]
        rfl
      · rw [List.intercalate_cons_cons, ← hc.text, hop]
        rfl
      · rw [hpa]
        rfl
      · exact List.forall_mem_cons.2 ⟨⟨hfirst, hu⟩, hc.pieces⟩

/-- A text that nothing cuts joins the current piece. -/
theorem run_of_uncut (hc : sc.current = some text) (h : Uncut op sc.parity s) :
    sc.run op s = some ⟨some (text ++ s), sc.parity + depth s, sc.pieces⟩ := by
  induction s generalizing sc text with
  | nil =>
    rw [List.append_nil, depth, Int.add_zero, ← hc]
    rfl
  | cons c s ih =>
    obtain ⟨hj, hu⟩ := uncut_cons.1 h
    rw [run_cons, step_started hc, if_pos hj, Option.bind_some, ih rfl hu, depth_cons c s,
      List.append_assoc, Int.add_assoc]
    rfl

/-- Pieces that nothing cuts are cut at the operators between them. -/
theorem run_intercalate (hop : op = 38 ∨ op = 124) (hc : sc.current = some text)
    (hfirst : sc.parity + depth first = 0) (hu : Uncut op sc.parity first)
    (h : ∀ piece ∈ rest, depth piece = 0 ∧ Uncut op 0 piece) :
    ∃ sc', sc.run op ([op].intercalate (first :: rest)) = some sc' ∧ sc'.parity = 0 ∧
      sc'.pieces ++ sc'.current.toList = sc.pieces ++ (text ++ first) :: rest := by
  induction rest generalizing sc text first with
  | nil =>
    rw [List.intercalate_singleton]
    exact ⟨_, run_of_uncut hc hu, hfirst, rfl⟩
  | cons next rest ih =>
    have hcu : ¬Joins op 0 op := by
      rcases hop with rfl | rfl
      all_goals decide
    obtain ⟨⟨hd, hnext⟩, hr⟩ := List.forall_mem_cons.1 h
    obtain ⟨sc', hru, hp, hpi⟩ := @ih next [] ⟨some [], 0, sc.pieces ++ [text ++ first]⟩
      rfl ((Int.zero_add _).trans hd) hnext hr
    refine ⟨sc', ?_, hp, ?_⟩
    · rw [List.intercalate_cons_cons, List.append_assoc, run_append, run_of_uncut hc hu,
        hfirst, Option.bind_some, List.singleton_append, run_cons, step_started rfl, if_neg hcu,
        if_pos rfl]
      exact hru
    · rw [hpi, List.append_assoc]
      rfl

/-- The scan in front of the first operand. Behind a closing parenthesis it starts only where more
are closed than opened. -/
theorem cut_of_unstarted (hc : sc.current = none) (hp : sc.pieces = [])
    (hle : sc.parity ≤ 0) (h : sc.run op s = some sc') (he : sc'.parity = 0) :
    sc'.pieces ++ sc'.current.toList = [] ∨ ∃ k t first rest, s = k ++ t ∧ Starts t ∧
      sc'.pieces ++ sc'.current.toList = first :: rest ∧
      Cut op (sc.parity + depth k) t first rest ∧ sc.parity + depth k ≤ sc.parity ∧
      (sc.parity + depth k = 0 → ∀ d ∈ k, isSkipped d = true) := by
  induction s generalizing sc with
  | nil =>
    cases h
    rw [hp, hc]
    exact Or.inl rfl
  | cons c s ih =>
    rw [run_cons, step_unstarted hc] at h
    split_ifs at h with hst
    · obtain ⟨first, rest, heq, hcu⟩ := cut_of_run rfl h he
      have hj : Joins op sc.parity c := by
        unfold Joins
        tauto
      refine Or.inr ⟨[], c :: s, c :: first, rest, rfl, ⟨c, s, rfl, by tauto⟩, ?_, ?_, ?_, nofun⟩
      · rw [heq, hp]
        rfl
      · exact Cut.cons (by rw [depth, Int.add_zero]; exact hcu) (by rwa [depth, Int.add_zero])
      · exact Int.le_of_eq (Int.add_zero _)
    · push Not at hst
      have hd : depth [c] ≤ 0 ∧ (depth [c] = 0 → c ≠ 41) := by
        simp only [depth, if_neg hst.1]
        split_ifs <;> simp_all
      rcases @ih ⟨none, sc.parity + depth [c], sc.pieces⟩ rfl hp (by dsimp only; omega) h with
        hn | ⟨k, t, first, rest, rfl, ht, heq, hcu, hl, hk⟩
      · exact Or.inl hn
      · dsimp only at hcu hl hk
        have hsu : sc.parity + depth [c] + depth k = sc.parity + depth (c :: k) := by
          rw [depth_cons c k, Int.add_assoc]
        rw [hsu] at hcu hl hk
        refine Or.inr ⟨c :: k, t, first, rest, rfl, ht, heq, hcu, by omega, fun hz => ?_⟩
        refine List.forall_mem_cons.2 ⟨isSkipped_iff.2 ⟨?_, hst.1, hd.2 (by omega)⟩, hk hz⟩
        exact Bool.eq_false_iff.2 (hst.2 (by omega))

/-- Nothing in front of the first operand is kept. -/
theorem run_skipped (h : ∀ c ∈ k, isSkipped c = true) : run {} op k = some {} := by
  induction k with
  | nil => rfl
  | cons c k ih =>
    obtain ⟨hw, ho, hc⟩ := isSkipped_iff.1 (h c List.mem_cons_self)
    rw [run_cons, step_unstarted rfl, if_neg (by simp [hw, ho]), depth_of_ne ho hc]
    exact ih fun d hd => h d (List.mem_cons_of_mem _ hd)

/-- The first character of an operand starts the first piece. -/
theorem step_start (hc : isOperand c = true ∨ c = 40) :
    step op {} c = some ⟨some [c], depth [c], []⟩ := by
  rw [step_unstarted rfl, if_pos (by tauto)]
  exact congrArg (fun n => some (Scan.mk (some [c]) n [])) (Int.zero_add _)

end Scan

theorem singleParse_skipped (h : ∀ c ∈ k, isSkipped c = true) :
    singleParse (k ++ s) op = singleParse s op := by
  rw [Scan.singleParse_eq, Scan.singleParse_eq, Scan.run_append, Scan.run_skipped h]
  rfl

theorem finish_eq_some (h : (sc.run op s).bind Scan.finish = some pieces) :
    ∃ sc', sc.run op s = some sc' ∧ sc'.parity = 0 ∧ sc'.pieces ++ sc'.current.toList = pieces := by
  obtain ⟨sc', hr, hf⟩ := Option.bind_eq_some_iff.1 h
  unfold Scan.finish at hf
  split at hf
  · cases hf
  next hp => exact ⟨sc', hr, not_not.1 hp, Option.some.inj hf⟩

theorem depth_of_singleParse (h : singleParse s op = some pieces) : depth s = 0 := by
  rw [Scan.singleParse_eq] at h
  obtain ⟨sc', hr, hp, -⟩ := finish_eq_some h
  rw [Scan.parity_of_run hr] at hp
  exact (Int.zero_add _).symm.trans hp

/-- A formula is cut at its operators from its first operand on. -/
theorem cut_of_singleParse (h : singleParse s op = some pieces) (hne : pieces ≠ []) :
    ∃ k t first rest, s = k ++ t ∧ Starts t ∧ pieces = first :: rest ∧
      Cut op (depth k) t first rest ∧ (depth k = 0 → ∀ d ∈ k, isSkipped d = true) := by
  rw [Scan.singleParse_eq] at h
  obtain ⟨sc', hr, hp, rfl⟩ := finish_eq_some h
  rcases Scan.cut_of_unstarted rfl rfl (Int.le_refl 0) hr hp with
    hn | ⟨k, t, first, rest, hs, ht, hpi, hc, -, hk⟩
  · exact absurd hn hne
  · have hz : (Scan.parity {} : Int) + depth k = depth k := Int.zero_add _
    rw [hz] at hc hk
    exact ⟨k, t, first, rest, hs, ht, hpi, hc, hk⟩

/-- The same for a formula that starts with an operand. -/
theorem cut_of_singleParse_start (hs : Starts s) (h : singleParse s op = some pieces) :
    ∃ first rest, pieces = first :: rest ∧ Cut op 0 s first rest := by
  obtain ⟨c, s, rfl, hc⟩ := hs
  rw [Scan.singleParse_eq, Scan.run_cons, Scan.step_start hc, Option.bind_some] at h
  obtain ⟨sc', hr, hp, rfl⟩ := finish_eq_some h
  obtain ⟨first, rest, hpi, hcu⟩ := Scan.cut_of_run rfl hr hp
  refine ⟨c :: first, rest, hpi, Cut.cons ?_ ?_⟩
  · rw [Int.zero_add]
    exact hcu
  · unfold Joins
    tauto

theorem length_of_mem_intercalate (hp : piece ∈ pieces) (hm : 1 < pieces.length) :
    piece.length < ([op].intercalate pieces).length := by
  induction pieces with
  | nil => cases hp
  | cons first rest ih =>
    cases rest with
    | nil => exact absurd hm (lt_irrefl 1)
    | cons next rest =>
      rw [List.intercalate_cons_cons, List.length_append, List.length_append, List.length_singleton]
      rcases List.mem_cons.1 hp with rfl | hp
      · omega
      · cases rest with
        | nil =>
          rw [List.mem_singleton.1 hp, List.intercalate_singleton]
          omega
        | cons third rest =>
          have hsh := ih hp (by simp)
          omega

/-- The pieces of a formula that was split are shorter than the formula. -/
theorem length_of_singleParse (h : singleParse s op = some pieces) (hm : 1 < pieces.length)
    (hp : piece ∈ pieces) : piece.length < s.length := by
  obtain ⟨k, t, first, rest, rfl, -, rfl, hc, -⟩ :=
    cut_of_singleParse h (List.ne_nil_of_mem hp)
  rw [List.length_append, hc.text]
  exact Nat.lt_add_left _ (length_of_mem_intercalate hp hm)

/-- Pieces that nothing cuts are what the scan finds. -/
theorem singleParse_of_uncut (hop : op = 38 ∨ op = 124) (hst : Starts first)
    (h : ∀ piece ∈ first :: rest, depth piece = 0 ∧ Uncut op 0 piece) :
    singleParse ([op].intercalate (first :: rest)) op = some (first :: rest) := by
  obtain ⟨c, first, rfl, hc⟩ := hst
  obtain ⟨⟨hd, hu⟩, hr⟩ := List.forall_mem_cons.1 h
  rw [depth_cons] at hd
  have ht := (uncut_cons.1 hu).2
  rw [Int.zero_add] at ht
  obtain ⟨sc', hru, hp, hpi⟩ := @Scan.run_intercalate op first [c] rest
    ⟨some [c], depth [c], []⟩ hop rfl hd ht hr
  rw [Scan.singleParse_eq, intercalate_cons_char, Scan.run_cons, Scan.step_start hc, Option.bind_some,
    hru, Option.bind_some, Scan.finish, if_neg (not_not_intro hp), hpi]
  rfl

theorem Starts.intercalate (h : Starts first) : Starts ([op].intercalate (first :: rest)) := by
  obtain ⟨c, t, rfl, hc⟩ := h
  exact ⟨c, _, intercalate_cons_char c, hc⟩

end Cut

section Evaluation

variable {op c : UInt8} {s k a b : Str} {pieces : List Str} {P : Str → Prop}
  {valuation valuation' : Str → Option Bool} {fuel : Nat}

/-- `resolveRec` on a formula without a binary operator at its top level. -/
def resolveOne (valuation resolve : Str → Option Bool) (source : Str) : Option Bool :=
  if source.head? = some 33 then (resolve (source.drop 1)).map (!·)
  else if source.head? = some 40 then resolve ((source.drop 1).take (source.length - 2))
  else if source = str "1" then some true
  else if source = str "0" then some false
  else valuation source

theorem resolveOne_not {resolve : Str → Option Bool} :
    resolveOne valuation resolve (33 :: s) = (resolve s).map (!·) :=
  if_pos List.head?_cons

theorem take_drop_paren {last : UInt8} :
    ((c :: (s ++ [last])).drop 1).take ((c :: (s ++ [last])).length - 2) = s := by
  simp

theorem resolveOne_paren {resolve : Str → Option Bool} :
    resolveOne valuation resolve (40 :: (s ++ [41])) = resolve s := by
  rw [resolveOne, if_neg (by simp), if_pos List.head?_cons, take_drop_paren]

theorem resolveRec_succ : resolveRec valuation (fuel + 1) s = if s = [] then none
    else (singleParse s 124).bind fun ors =>
      if ors.length > 1 then
        (ors.mapM fun s => resolveRec valuation fuel (removeWhitespaces s)).map (·.any id)
      else (if ors.length = 1 then singleParse s 38 else some ors).bind fun ands =>
        if ands.length > 1 then
          (ands.mapM fun s => resolveRec valuation fuel (removeWhitespaces s)).map (·.all id)
        else if ands.length = 0 then none
        else resolveOne valuation (fun s => resolveRec valuation fuel (removeWhitespaces s)) s := by
  simp only [resolveRec, resolveOne, Option.map_eq_bind]
  refine if_congr Iff.rfl rfl ?_
  refine Option.bind_congr fun ors _ => if_congr Iff.rfl rfl ?_
  split
  · rfl
  · rfl

/-- `resolveRec` with the end of the fuel, `none`, kept apart from the exception, `some none`. -/
def resolveRun (valuation : Str → Option Bool) : Nat → Str → OptionT Option Bool
  | 0, _ => OptionT.mk none
  | fuel + 1, source => do
    if source = [] then failure
    else
      let resolve (s : Str) := resolveRun valuation fuel (removeWhitespaces s)
      let ors ← OptionT.mk (some (singleParse source 124))
      if ors.length > 1 then
        return (← ors.mapM resolve).any id
      else
        let ands ← OptionT.mk (some (if ors.length = 1 then singleParse source 38 else some ors))
        if ands.length > 1 then
          return (← ands.mapM resolve).all id
        else if ands.length = 0 then failure
        else if source.head? = some 33 then
          return !(← resolve (source.drop 1))
        else if source.head? = some 40 then
          resolve ((source.drop 1).take (source.length - 2))
        else if source = str "1" then return true
        else if source = str "0" then return false
        else OptionT.mk (some (valuation source))

theorem length_removeWhitespaces (s : Str) : (removeWhitespaces s).length ≤ s.length :=
  List.length_filter_le _ s

theorem run_bind_eq_some {α β : Type} {x : OptionT Option α} {f : α → OptionT Option β}
    {y : Option α} {g : α → Option β} (hx : x.run = some y)
    (hf : ∀ a, y = some a → (f a).run = some (g a)) : (x >>= f).run = some (y.bind g) := by
  rw [OptionT.run_bind, hx]
  cases y with
  | none => rfl
  | some a => exact hf a rfl

theorem run_mapM_eq_some {α β : Type} {f : α → OptionT Option β} {g : α → Option β} {l : List α}
    (h : ∀ a ∈ l, (f a).run = some (g a)) : (l.mapM f).run = some (l.mapM g) := by
  induction l with
  | nil => rfl
  | cons a l ih =>
    rw [List.mapM_cons, List.mapM_cons]
    refine run_bind_eq_some (h a List.mem_cons_self) fun b hb => ?_
    exact run_bind_eq_some (ih fun a ha => h a (List.mem_cons_of_mem _ ha)) fun _ _ => rfl

/-- The fuel never ends before the evaluation. -/
theorem run_resolveRun (h : s.length < fuel) :
    (resolveRun valuation fuel s).run = some (resolveRec valuation fuel s) := by
  induction fuel generalizing s with
  | zero => omega
  | succ fuel ih =>
    have hr : ∀ t : Str, t.length < s.length →
        (resolveRun valuation fuel (removeWhitespaces t)).run =
          some (resolveRec valuation fuel (removeWhitespaces t)) := by
      intro t ht
      have hle := length_removeWhitespaces t
      exact ih (by omega)
    have hp : ∀ {op : UInt8} {pieces : List Str}, singleParse s op = some pieces →
        pieces.length > 1 →
        (pieces.mapM fun t => resolveRun valuation fuel (removeWhitespaces t)).run =
          some (pieces.mapM fun t => resolveRec valuation fuel (removeWhitespaces t)) := by
      intro op pieces hpa hm
      exact run_mapM_eq_some fun t ht => hr t (length_of_singleParse hpa hm ht)
    rw [resolveRec_succ, resolveRun]
    by_cases he : s = []
    · rw [if_pos he, if_pos he]
      rfl
    have hpo := List.length_pos_iff.2 he
    rw [if_neg he, if_neg he]
    refine run_bind_eq_some rfl fun ors ho => ?_
    by_cases hm : ors.length > 1
    · rw [if_pos hm, if_pos hm, Option.map_eq_bind]
      exact run_bind_eq_some (hp ho hm) fun _ _ => rfl
    rw [if_neg hm, if_neg hm]
    refine run_bind_eq_some rfl fun ands ha => ?_
    by_cases hm' : ands.length > 1
    · rw [if_pos hm', if_pos hm', Option.map_eq_bind]
      split at ha
      · exact run_bind_eq_some (hp ha hm') fun _ _ => rfl
      · cases ha
        exact absurd hm' hm
    rw [if_neg hm', if_neg hm', resolveOne]
    split_ifs
    · rfl
    · rw [Option.map_eq_bind]
      exact run_bind_eq_some (hr _ (by rw [List.length_drop]; omega)) fun _ _ => rfl
    · exact hr _ (by rw [List.length_take, List.length_drop]; omega)
    all_goals rfl

theorem isSome_mapM {α β : Type} {f : α → Option β} {l : List α} :
    (l.mapM f).isSome = l.all fun a => (f a).isSome := by
  induction l with
  | nil => rfl
  | cons a l ih =>
    rw [List.mapM_cons, List.all_cons, ← ih]
    cases f a with
    | none => rfl
    | some b => cases l.mapM f <;> rfl

/-- When the evaluation ends without an exception. -/
theorem isSome_resolveRec_succ : (resolveRec valuation (fuel + 1) s).isSome ↔
    s ≠ [] ∧ ∃ ors, singleParse s 124 = some ors ∧
      (1 < ors.length ∧ (∀ piece ∈ ors, (resolveRec valuation fuel (removeWhitespaces piece)).isSome) ∨
        ors.length = 1 ∧ ∃ ands, singleParse s 38 = some ands ∧ (1 < ands.length ∧
              (∀ piece ∈ ands, (resolveRec valuation fuel (removeWhitespaces piece)).isSome) ∨
            ands.length = 1 ∧ (resolveOne valuation
              (fun piece => resolveRec valuation fuel (removeWhitespaces piece)) s).isSome)) := by
  rw [resolveRec_succ]
  by_cases he : s = []
  · rw [if_pos he]
    exact iff_of_false nofun fun h => h.1 he
  rw [if_neg he, and_iff_right he]
  cases hor : singleParse s 124 with
  | none => simp
  | some ors =>
    simp only [Option.bind_some, Option.some.injEq, exists_eq_left']
    split_ifs with hm ho
    · simp [isSome_mapM, hm, ne_of_gt hm]
    · cases ha : singleParse s 38 with
      | none => simp [hm]
      | some ands =>
        simp only [Option.bind_some, Option.some.injEq, exists_eq_left', ho, lt_irrefl]
        split_ifs with hm' hz
        · simp [isSome_mapM, hm', ne_of_gt hm']
        · simp [hz]
        · have hl : ands.length = 1 := by omega
          simp [hl]
    · have hz : ors = [] := List.length_eq_zero_iff.1 (by omega)
      simp [hz]

/-- Whether an exception is thrown depends only on which names the valuation knows. -/
theorem isSome_resolveRec (h : ∀ q, (valuation q).isSome = (valuation' q).isSome) :
    (resolveRec valuation fuel s).isSome = (resolveRec valuation' fuel s).isSome := by
  induction fuel generalizing s with
  | zero => rfl
  | succ fuel ih =>
    have ho : (resolveOne valuation (fun t => resolveRec valuation fuel (removeWhitespaces t)) s).isSome =
        (resolveOne valuation' (fun t => resolveRec valuation' fuel (removeWhitespaces t)) s).isSome := by
      unfold resolveOne
      split_ifs <;> simp only [Option.isSome_map, ih, h]
    rw [Bool.eq_iff_iff]
    simp only [isSome_resolveRec_succ, ih, ho]

theorem depth_removeWhitespaces (s : Str) : depth (removeWhitespaces s) = depth s := by
  induction s with
  | nil => rfl
  | cons c s ih =>
    unfold removeWhitespaces at ih ⊢
    rw [List.filter_cons]
    split
    · rw [depth, depth, ih]
    next hsp =>
      rw [ih, depth_of_ne]
      all_goals
        rintro rfl
        exact hsp (by decide)

theorem depth_of_resolveRec (h : (resolveRec valuation fuel (removeWhitespaces s)).isSome) :
    depth s = 0 := by
  cases fuel with
  | zero => cases h
  | succ fuel =>
    obtain ⟨-, ors, ho, -⟩ := isSome_resolveRec_succ.1 h
    rw [← depth_removeWhitespaces]
    exact depth_of_singleParse ho

/-- A formula that is split into pieces which can all be evaluated starts with an operand, but for
what the scan passes over. -/
theorem cut_of_resolve (hp : singleParse s op = some pieces) (hne : pieces ≠ [])
    (h : ∀ piece ∈ pieces, (resolveRec valuation fuel (removeWhitespaces piece)).isSome) :
    ∃ k t first rest, s = k ++ t ∧ (∀ c ∈ k, isSkipped c = true) ∧ Starts t ∧
      pieces = first :: rest ∧ Cut op 0 t first rest := by
  obtain ⟨k, t, first, rest, rfl, ht, rfl, hc, hk⟩ := cut_of_singleParse hp hne
  have hfirst := depth_of_resolveRec (h first List.mem_cons_self)
  have hd := hc.depth_first
  rw [hfirst, Int.add_zero] at hd
  rw [hd] at hc
  exact ⟨k, t, first, rest, rfl, hk hd, ht, rfl, hc⟩

/-- The text has no whitespace, and every name in it satisfies `P`. -/
structure Legible (P : Str → Prop) (s : Str) : Prop where
  space : ∀ c ∈ s, isSpace c = false
  names : ∀ q ∈ nameRuns s, P q

theorem Legible.removeWhitespaces_eq (h : Legible P s) : removeWhitespaces s = s := by
  refine List.filter_eq_self.2 fun c hc => ?_
  rw [h.space c hc]
  rfl

theorem nameRuns_append (hc : isNameChar c = false) :
    nameRuns (a ++ c :: b) = nameRuns a ++ nameRuns b := by
  unfold nameRuns
  rw [List.splitOnP_append_cons _ _ (by rw [hc]; rfl), List.filter_append]

theorem nameRuns_cons (hc : isNameChar c = false) : nameRuns (c :: s) = nameRuns s :=
  nameRuns_append (a := []) hc

theorem isNameChar_of_isSkipped (h : isSkipped c = true) : isNameChar c = false := by
  rw [Bool.eq_false_iff]
  intro hname
  have hw := (isSkipped_iff.1 h).1
  rw [isOperand_of_isNameChar hname] at hw
  cases hw

theorem nameRuns_skipped (hk : ∀ c ∈ k, isSkipped c = true) : nameRuns (k ++ s) = nameRuns s := by
  induction k with
  | nil => rfl
  | cons c k ih =>
    rw [List.cons_append, nameRuns_cons (isNameChar_of_isSkipped (hk c List.mem_cons_self)),
      ih fun d hd => hk d (List.mem_cons_of_mem _ hd)]

/-- The names between two separators. -/
theorem mem_nameRuns_intercalate {q : Str} (hop : isNameChar op = false) :
    q ∈ nameRuns ([op].intercalate pieces) ↔ ∃ piece ∈ pieces, q ∈ nameRuns piece := by
  induction pieces with
  | nil => simp [nameRuns]
  | cons first rest ih =>
    cases rest with
    | nil => simp
    | cons next rest =>
      rw [List.intercalate_cons_cons, List.append_assoc, List.singleton_append, nameRuns_append hop,
        List.mem_append, ih, List.exists_mem_cons_iff (a := first)]

/-- A part of a legible text whose names are names of the whole. -/
theorem Legible.part (h : Legible P s) (hsu : a ⊆ s) (hn : nameRuns a ⊆ nameRuns s) :
    Legible P a where
  space c hc := h.space c (hsu hc)
  names q hq := h.names q (hn hq)

theorem Legible.tail (h : Legible P (c :: s)) (hc : isNameChar c = false) : Legible P s :=
  h.part (List.subset_cons_self _ _) (by rw [nameRuns_cons hc]; exact List.Subset.refl _)

theorem Legible.skipped (h : Legible P (k ++ s)) (hk : ∀ c ∈ k, isSkipped c = true) : Legible P s :=
  h.part (List.subset_append_right _ _) (by rw [nameRuns_skipped hk]; exact List.Subset.refl _)

theorem Legible.left (h : Legible P (a ++ c :: b)) (hc : isNameChar c = false) : Legible P a :=
  h.part (List.subset_append_left _ _) (by rw [nameRuns_append hc]; exact List.subset_append_left _ _)

theorem Legible.right (h : Legible P (a ++ c :: b)) (hc : isNameChar c = false) : Legible P b :=
  h.part (fun _ hd => List.mem_append_right _ (List.mem_cons_of_mem _ hd))
    (by rw [nameRuns_append hc]; exact List.subset_append_right _ _)

theorem Legible.piece {piece : Str} (hop : isNameChar op = false)
    (h : Legible P ([op].intercalate pieces)) (hp : piece ∈ pieces) : Legible P piece := by
  induction pieces with
  | nil => cases hp
  | cons first rest ih =>
    cases rest with
    | nil =>
      rw [List.intercalate_singleton] at h
      rwa [List.mem_singleton.1 hp]
    | cons next rest =>
      rw [List.intercalate_cons_cons, List.append_assoc] at h
      rcases List.mem_cons.1 hp with rfl | hp
      · exact h.left hop
      · exact ih (h.right hop) hp

end Evaluation

end LibBoolEE

end Cmusic
