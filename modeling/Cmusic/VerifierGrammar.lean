import Cmusic.RestrictedEnforcement
import Cmusic.VerifierScan

/-! The expressions of verifier strings, and the value that the evaluator gives them. -/
namespace Cmusic

open Fallible LibBoolEE

/-- The levels of the grammar, with the weakest operator first. -/
inductive VerifierLevel where
  | disjunction
  | conjunction
  | literal

/-- A qualifier name written without its number sign. -/
def QualifierWord : Type := { q : Str // isQualifierNameValid (qualifierChar :: q) = true }

/-- The expressions of the grammar. -/
inductive VerifierExpr : VerifierLevel → Type where
  | or (left : VerifierExpr .conjunction) (right : VerifierExpr .disjunction) :
      VerifierExpr .disjunction
  | ofConjunction (e : VerifierExpr .conjunction) : VerifierExpr .disjunction
  | and (left : VerifierExpr .literal) (right : VerifierExpr .conjunction) :
      VerifierExpr .conjunction
  | ofLiteral (e : VerifierExpr .literal) : VerifierExpr .conjunction
  | not (e : VerifierExpr .literal) : VerifierExpr .literal
  | paren (e : VerifierExpr .disjunction) : VerifierExpr .literal
  | name (q : QualifierWord) : VerifierExpr .literal

namespace VerifierExpr

variable {level : VerifierLevel} {carries : Str → Bool} {valuation resolve : Str → Option Bool}

def print {level : VerifierLevel} : VerifierExpr level → Str
  | or left right => left.print ++ 124 :: right.print
  | ofConjunction e => e.print
  | and left right => left.print ++ 38 :: right.print
  | ofLiteral e => e.print
  | not e => 33 :: e.print
  | paren e => 40 :: (e.print ++ [41])
  | name q => q.1

/-- The Boolean value when `carries` says which names are true. -/
def eval {level : VerifierLevel} (carries : Str → Bool) : VerifierExpr level → Bool
  | or left right => left.eval carries || right.eval carries
  | ofConjunction e => e.eval carries
  | and left right => left.eval carries && right.eval carries
  | ofLiteral e => e.eval carries
  | not e => !e.eval carries
  | paren e => e.eval carries
  | name q => carries q.1

def names {level : VerifierLevel} : VerifierExpr level → List Str
  | or left right => left.names ++ right.names
  | ofConjunction e => e.names
  | and left right => left.names ++ right.names
  | ofLiteral e => e.names
  | not e => e.names
  | paren e => e.names
  | name q => [q.1]

def disjuncts : VerifierExpr .disjunction → List (VerifierExpr .conjunction)
  | or left right => left :: right.disjuncts
  | ofConjunction e => [e]

def conjuncts : VerifierExpr .conjunction → List (VerifierExpr .literal)
  | and left right => left :: right.conjuncts
  | ofLiteral e => [e]

theorem word_spec (q : QualifierWord) : (∀ c ∈ q.1, isNameChar c = true) ∧ 3 ≤ q.1.length := by
  have hq := q.2
  simp only [isQualifierNameValid, Bool.and_eq_true, qualifierNameCharacters, Pattern.matches_cons,
    Pattern.matches_nil, Pattern.accepts_atLeast, Pattern.accepts_one] at hq
  obtain ⟨⟨⟨⟨⟨_, _, heq, ⟨c, rfl, -⟩, rest, _, rfl, ⟨hr, hl⟩, rfl⟩, -⟩, -⟩, -⟩, -⟩ := hq
  rw [List.append_nil, List.singleton_append, List.cons.injEq] at heq
  rw [heq.2]
  exact ⟨hr, hl⟩

theorem word_ne_nil (q : QualifierWord) : q.1 ≠ [] :=
  List.ne_nil_of_length_pos (Nat.lt_of_lt_of_le (by decide) (word_spec q).2)

open LibBoolEE (singleParse Starts Closed Atomic)

theorem atomic_word (q : QualifierWord) : Atomic q.1 := .word (word_spec q).1 (word_ne_nil q)

theorem closed_print (e : VerifierExpr level) : Closed e.print := by
  induction e with
  | or left right hl hr => exact hl.append (.cons (by decide) (by decide) hr)
  | ofConjunction e ih => exact ih
  | and left right hl hr => exact hl.append (.cons (by decide) (by decide) hr)
  | ofLiteral e ih => exact ih
  | not e ih => exact .cons (by decide) (by decide) ih
  | paren e ih => exact ih.paren
  | name q => exact (atomic_word q).closed

/-- No literal is split. -/
theorem atomic_print : ∀ e : VerifierExpr .literal, Atomic e.print
  | not e => (atomic_print e).not
  | paren e => .paren (closed_print e)
  | name q => atomic_word q

theorem disjuncts_ne_nil (e : VerifierExpr .disjunction) : e.disjuncts ≠ [] := by
  cases e <;> simp [disjuncts]

theorem conjuncts_ne_nil (e : VerifierExpr .conjunction) : e.conjuncts ≠ [] := by
  cases e <;> simp [conjuncts]

theorem print_disjunction (e : VerifierExpr .disjunction) :
    e.print = [124].intercalate (e.disjuncts.map print) := by
  match e with
  | or left right =>
    have hne : right.disjuncts.map print ≠ [] := by
      simpa using disjuncts_ne_nil right
    rw [disjuncts, List.map_cons, List.intercalate_cons_of_ne_nil hne, ← print_disjunction right,
      List.append_assoc]
    rfl
  | ofConjunction e =>
    rw [disjuncts, List.map_singleton, List.intercalate_singleton]
    rfl

theorem print_conjunction (e : VerifierExpr .conjunction) :
    e.print = [38].intercalate (e.conjuncts.map print) := by
  match e with
  | and left right =>
    have hne : right.conjuncts.map print ≠ [] := by
      simpa using conjuncts_ne_nil right
    rw [conjuncts, List.map_cons, List.intercalate_cons_of_ne_nil hne, ← print_conjunction right,
      List.append_assoc]
    rfl
  | ofLiteral e =>
    rw [conjuncts, List.map_singleton, List.intercalate_singleton]
    rfl

theorem starts_conjunction : ∀ e : VerifierExpr .conjunction, Starts e.print
  | and left right => by
    obtain ⟨c, t, hp, hc⟩ := (atomic_print left).start
    exact ⟨c, t ++ 38 :: right.print, by rw [print, hp, List.cons_append], hc⟩
  | ofLiteral e => (atomic_print e).start

/-- The first pass finds the disjuncts. -/
theorem singleParse_disjunction (e : VerifierExpr .disjunction) :
    singleParse e.print 124 = some (e.disjuncts.map print) := by
  obtain ⟨first, parts, hp⟩ := List.exists_cons_of_ne_nil (disjuncts_ne_nil e)
  rw [print_disjunction, hp, List.map_cons]
  refine singleParse_of_uncut (Or.inr rfl) (starts_conjunction first) ?_
  rw [← List.map_cons, List.forall_mem_map]
  refine fun part _ => ⟨part.closed_print.depth_eq, ?_⟩
  rw [print_conjunction]
  exact uncut_intercalate (List.forall_mem_map.2 fun literal _ => literal.atomic_print)

/-- The second pass finds the conjuncts. -/
theorem singleParse_conjunction (e : VerifierExpr .conjunction) :
    singleParse e.print 38 = some (e.conjuncts.map print) := by
  obtain ⟨first, parts, hp⟩ := List.exists_cons_of_ne_nil (conjuncts_ne_nil e)
  rw [print_conjunction, hp, List.map_cons]
  refine singleParse_of_uncut (Or.inl rfl) first.atomic_print.start ?_
  rw [← List.map_cons, List.forall_mem_map]
  exact fun part _ => ⟨part.closed_print.depth_eq, part.atomic_print.uncut⟩

theorem eval_disjunction (e : VerifierExpr .disjunction) :
    e.eval carries = (e.disjuncts.map (eval carries)).any id := by
  match e with
  | or left right => rw [eval, eval_disjunction right, disjuncts, List.map_cons, List.any_cons, id]
  | ofConjunction e => simp [eval, disjuncts]

theorem eval_conjunction (e : VerifierExpr .conjunction) :
    e.eval carries = (e.conjuncts.map (eval carries)).all id := by
  match e with
  | and left right => rw [eval, eval_conjunction right, conjuncts, List.map_cons, List.all_cons, id]
  | ofLiteral e => simp [eval, conjuncts]

theorem names_disjunction (e : VerifierExpr .disjunction) : e.names = e.disjuncts.flatMap names := by
  match e with
  | or left right => rw [names, names_disjunction right, disjuncts, List.flatMap_cons]
  | ofConjunction e => simp [names, disjuncts]

theorem names_conjunction (e : VerifierExpr .conjunction) : e.names = e.conjuncts.flatMap names := by
  match e with
  | and left right => rw [names, names_conjunction right, conjuncts, List.flatMap_cons]
  | ofLiteral e => simp [names, conjuncts]

/-- The characters of a printed expression. -/
theorem mem_print (e : VerifierExpr level) :
    ∀ c ∈ e.print, isNameChar c = true ∨ c ∈ ([33, 38, 40, 41, 124] : Str) := by
  induction e with
  | or left right hl hr =>
    exact List.forall_mem_append.2 ⟨hl, List.forall_mem_cons.2 ⟨by decide, hr⟩⟩
  | ofConjunction e ih => exact ih
  | and left right hl hr =>
    exact List.forall_mem_append.2 ⟨hl, List.forall_mem_cons.2 ⟨by decide, hr⟩⟩
  | ofLiteral e ih => exact ih
  | not e ih => exact List.forall_mem_cons.2 ⟨by decide, ih⟩
  | paren e ih =>
    exact List.forall_mem_cons.2 ⟨by decide, List.forall_mem_append.2 ⟨ih, by decide +kernel⟩⟩
  | name q => exact fun c hc => Or.inl ((word_spec q).1 c hc)

theorem ne_of_mem_print {c d : UInt8} (e : VerifierExpr level) (h : c ∈ e.print)
    (hd : ¬(isNameChar d = true ∨ d ∈ ([33, 38, 40, 41, 124] : Str))) : c ≠ d := by
  rintro rfl
  exact hd (mem_print e c h)

theorem print_ne_nil (e : VerifierExpr level) : e.print ≠ [] := by
  induction e with
  | ofConjunction e ih => exact ih
  | ofLiteral e ih => exact ih
  | name q => exact word_ne_nil q
  | _ => simp [print]

theorem removeWhitespaces_print (e : VerifierExpr level) :
    LibBoolEE.removeWhitespaces e.print = e.print := by
  refine List.filter_eq_self.2 fun c hc => ?_
  rw [Bool.not_eq_true', Bool.eq_false_iff]
  intro hsp
  have hspa : c ∈ ([32, 9, 10, 11, 12, 13] : Str) := by
    simp only [isSpace, Bool.or_eq_true, Bool.and_eq_true, decide_eq_true_eq] at hsp
    rcases hsp with rfl | ⟨hl, hh⟩
    · decide
    · have hl := UInt8.le_iff_toNat_le.1 hl
      have hh := UInt8.le_iff_toNat_le.1 hh
      have heq := UInt8.ofNat_toNat (x := c)
      change 9 ≤ c.toNat at hl
      change c.toNat ≤ 13 at hh
      rw [← heq]
      interval_cases c.toNat <;> decide
  have hn : ∀ d ∈ ([32, 9, 10, 11, 12, 13] : Str),
      ¬(isNameChar d = true ∨ d ∈ ([33, 38, 40, 41, 124] : Str)) := by decide +kernel
  exact ne_of_mem_print e hc (hn c hspa) rfl

theorem mapM_print {parts : List (VerifierExpr level)} {f : Str → Option Bool}
    (h : ∀ part ∈ parts, f part.print = some (part.eval carries)) :
    (parts.map print).mapM f = some (parts.map (eval carries)) := by
  induction parts with
  | nil => rfl
  | cons part parts ih =>
    rw [List.map_cons, List.mapM_cons, h part List.mem_cons_self,
      ih fun part hp => h part (List.mem_cons_of_mem _ hp)]
    rfl

/-- A word is looked up in the valuation. -/
theorem resolveOne_word (q : QualifierWord) : resolveOne valuation resolve q.1 = valuation q.1 := by
  obtain ⟨hclass, hl⟩ := word_spec q
  have hh : ∀ c, isNameChar c = false → q.1.head? ≠ some c := by
    intro c hc heq
    rw [hclass c (List.mem_of_mem_head? heq)] at hc
    cases hc
  have hwo : ∀ w : Str, w.length < 3 → q.1 ≠ w := by
    rintro w hw rfl
    omega
  rw [resolveOne, if_neg (hh 33 (by decide)), if_neg (hh 40 (by decide)),
    if_neg (hwo _ (by decide)), if_neg (hwo _ (by decide))]

/-- A literal is not split; its value comes from the part behind its first character or from the
valuation. -/
theorem resolveOne_print (e : VerifierExpr .literal)
    (hn : ∀ q ∈ e.names, valuation q = some (carries q))
    (hr : ∀ part : VerifierExpr .disjunction, part.names ⊆ e.names →
      part.print.length < e.print.length → resolve part.print = some (part.eval carries)) :
    resolveOne valuation resolve e.print = some (e.eval carries) := by
  match e with
  | not e =>
    have hp := hr (.ofConjunction (.ofLiteral e)) (fun q hq => by simpa [names] using hq)
      (by simp [print])
    rw [print, print, eval, eval] at hp
    rw [print, resolveOne_not, hp, eval]
    rfl
  | paren e =>
    have hp := hr e (fun q hq => by simpa [names] using hq) (by simp [print])
    rw [print, resolveOne_paren, hp, eval]
  | name q =>
    rw [print, resolveOne_word, eval]
    exact hn q.1 (by simp [names])

/-- The evaluator gives an expression its Boolean value. -/
theorem resolveRec_print {fuel : Nat} (e : VerifierExpr .disjunction)
    (hn : ∀ q ∈ e.names, valuation q = some (carries q)) (hf : e.print.length < fuel) :
    resolveRec valuation fuel e.print = some (e.eval carries) := by
  induction fuel generalizing e with
  | zero => omega
  | succ fuel ih =>
    -- a part of the expression that is shorter than the whole
    have hpa : ∀ part : VerifierExpr .disjunction, part.names ⊆ e.names →
        part.print.length < e.print.length →
        resolveRec valuation fuel (LibBoolEE.removeWhitespaces part.print) =
          some (part.eval carries) := by
      intro part hsu hl
      rw [removeWhitespaces_print]
      exact ih part (fun q hq => hn q (hsu hq)) (by omega)
    have hp := singleParse_disjunction e
    rw [resolveRec_succ, if_neg (print_ne_nil e), hp, Option.bind_some]
    by_cases hm : (e.disjuncts.map print).length > 1
    · rw [if_pos hm, mapM_print, Option.map_some, eval_disjunction]
      intro part hme
      have hn : part.names ⊆ e.names := by
        rw [names_disjunction]
        exact fun q hq => List.mem_flatMap.2 ⟨part, hme, hq⟩
      exact hpa (.ofConjunction part) hn
        (length_of_singleParse hp hm (List.mem_map_of_mem hme))
    · rw [if_neg hm]
      match e with
      | or left right =>
        have hne := List.length_pos_iff.2 (disjuncts_ne_nil right)
        rw [disjuncts, List.length_map, List.length_cons] at hm
        omega
      | ofConjunction e =>
        have hp := singleParse_conjunction e
        rw [disjuncts, List.map_singleton, if_pos List.length_singleton, print, hp,
          Option.bind_some]
        by_cases hm : (e.conjuncts.map print).length > 1
        · rw [if_pos hm, mapM_print, Option.map_some, eval, eval_conjunction]
          intro part hme
          have hn : part.names ⊆ e.names := by
            rw [names_conjunction]
            exact fun q hq => List.mem_flatMap.2 ⟨part, hme, hq⟩
          exact hpa (.ofConjunction (.ofLiteral part)) hn
            (length_of_singleParse hp hm (List.mem_map_of_mem hme))
        · rw [if_neg hm]
          match e with
          | and left right =>
            have hne := List.length_pos_iff.2 (conjuncts_ne_nil right)
            rw [conjuncts, List.length_map, List.length_cons] at hm
            omega
          | ofLiteral e =>
            rw [conjuncts, List.map_singleton, if_neg (by simp), print, eval, eval]
            exact resolveOne_print e hn hpa

/-- The search finds the names of an expression in their order. -/
theorem nameRuns_print (e : VerifierExpr level) : nameRuns e.print = e.names := by
  induction e with
  | or left right hl hr =>
    rw [print, nameRuns_append (by decide), hl, hr, names]
  | ofConjunction e ih => exact ih
  | and left right hl hr =>
    rw [print, nameRuns_append (by decide), hl, hr, names]
  | ofLiteral e ih => exact ih
  | not e ih => rw [print, nameRuns_cons (by decide), ih, names]
  | paren e ih =>
    rw [print, nameRuns_cons (by decide), nameRuns_append (by decide), ih, names]
    exact List.append_nil _
  | name q =>
    have hclass : ∀ c ∈ q.1, (!isNameChar c) = false := fun c hc => by
      rw [(word_spec q).1 c hc]
      rfl
    rw [print, nameRuns, List.splitOnP_eq_singleton hclass]
    simp [word_ne_nil q, names]

theorem valid_of_mem_names (e : VerifierExpr level) :
    ∀ q ∈ e.names, isQualifierNameValid (qualifierChar :: q) = true := by
  induction e with
  | or left right hl hr => exact List.forall_mem_append.2 ⟨hl, hr⟩
  | ofConjunction e ih => exact ih
  | and left right hl hr => exact List.forall_mem_append.2 ⟨hl, hr⟩
  | ofLiteral e ih => exact ih
  | not e ih => exact ih
  | paren e ih => exact ih
  | name word => exact List.forall_mem_singleton.2 word.2

variable {s : Str} (e : VerifierExpr .disjunction)

/-- Writing the expression with whitespace does not change its value. -/
theorem resolve_of_removeWhitespaces (hs : LibBoolEE.removeWhitespaces s = e.print)
    (hn : ∀ q ∈ e.names, valuation q = some (carries q)) :
    LibBoolEE.resolve s valuation = some (e.eval carries) := by
  have hl := LibBoolEE.length_removeWhitespaces s
  rw [hs] at hl
  rw [LibBoolEE.resolve, hs]
  exact resolveRec_print e hn (by omega)

theorem contains_names {q : Str} (h : q ∈ e.names) :
    (Std.TreeSet.ofList e.names).contains q = true := by
  rw [Std.TreeSet.contains_ofList, List.contains_iff_mem]
  exact h

theorem ne_true_of_removeWhitespaces (hs : LibBoolEE.removeWhitespaces s = e.print) :
    s ≠ str "true" := by
  rintro rfl
  have hm : (116 : UInt8) ∈ e.print := by
    rw [← hs]
    decide
  exact ne_of_mem_print e hm (by decide) rfl

end VerifierExpr

section Check

variable {env : Env} {g : AssetGlobals} {cache : CAssetsCache} {s address err : Str}
  {found : Std.TreeSet Str}

/-- What the check without context looks at. -/
theorem checkVerifierString_eq_ok (hne : s ≠ str "true") :
    checkVerifierString s = .ok found ↔ s ≠ [] ∧ (getStrippedVerifierString s).length ≤ 80 ∧
      extractVerifierStringQualifiers (getStrippedVerifierString s) = found ∧
      found.toList.find? (fun q => !isQualifierNameValid (qualifierChar :: q)) = none ∧
      (LibBoolEE.resolve s fun q => if found.contains q then some true else none).isSome := by
  unfold checkVerifierString
  rw [if_neg hne]
  by_cases he : s = []
  · rw [if_pos he]
    exact iff_of_false nofun fun h => h.1 he
  rw [if_neg he]
  by_cases hl : (getStrippedVerifierString s).length > 80
  · simp only [if_pos hl]
    exact iff_of_false nofun fun h => absurd h.2.1 (Nat.not_le.2 hl)
  simp only [if_neg hl]
  generalize extractVerifierStringQualifiers (getStrippedVerifierString s) = names
  constructor
  · intro h
    split at h
    · cases h
    next hvalid =>
      split at h
      next hr =>
        cases h
        exact ⟨he, Nat.le_of_not_lt hl, rfl, hvalid, by rw [hr]; rfl⟩
      · cases h
  · rintro ⟨-, -, rfl, hvalid, hr⟩
    obtain ⟨value, hv⟩ := Option.isSome_iff_exists.1 hr
    simp only [hvalid, hv]
    rfl

/-- An accepted string is evaluated without an exception whatever the names are worth. -/
theorem isSome_resolve_of_check (hne : s ≠ str "true") (h : checkVerifierString s = .ok found)
    (value : Str → Bool) :
    (LibBoolEE.resolve s fun q => if found.contains q then some (value q) else none).isSome := by
  obtain ⟨-, -, -, -, hr⟩ := (checkVerifierString_eq_ok hne).1 h
  refine Eq.trans (isSome_resolveRec fun q => ?_) hr
  split <;> rfl

/-- The check has one error that depends on the address. -/
theorem contextualCheckVerifierString_eq_error
    (he : err ≠ str "bad-txns-null-verifier-address-failed-verification") :
    contextualCheckVerifierString env g cache s address = .error err ↔
      s ≠ str "true" ∧ (checkVerifierString s = .error err ∨ ∃ found,
        checkVerifierString s = .ok found ∧
        (!found.toList.all fun q => cache.checkIfAssetExists env g (qualifierChar :: q)) = true ∧
        str "bad-txns-null-verifier-contains-non-issued-qualifier" = err) := by
  unfold contextualCheckVerifierString
  by_cases ht : s = str "true"
  · rw [if_pos ht]
    exact iff_of_false nofun fun h => h.1 ht
  rw [if_neg ht, and_iff_right ht, bind_eq_error]
  refine or_congr Iff.rfl (exists_congr fun found => and_congr_right fun hc => ?_)
  rw [bind_eq_error, failIf_eq_error, or_iff_left]
  rintro ⟨_, -, h⟩
  split at h
  · cases h
  · -- the evaluation cannot throw, so only the value is left to complain about
    have hso := isSome_resolve_of_check ht hc
      fun q => cache.checkForAddressQualifier g (qualifierChar :: q) address true
    dsimp only at h
    split at h
    next hn =>
      rw [hn] at hso
      cases hso
    next ret _ => exact he (failIf_eq_error.1 h).2.symm

namespace VerifierExpr

variable (e : VerifierExpr .disjunction)

/-- The expressions of the grammar pass the check without context. -/
theorem checkVerifierString_print (hs : LibBoolEE.removeWhitespaces s = e.print)
    (hl : e.print.length ≤ 80) :
    checkVerifierString s = .ok (Std.TreeSet.ofList e.names) := by
  have hst : getStrippedVerifierString s = e.print := by
    unfold getStrippedVerifierString removeCharacter
    rw [hs]
    refine List.filter_eq_self.2 fun c hc => decide_eq_true ?_
    exact ne_of_mem_print e hc (by decide)
  rw [checkVerifierString_eq_ok (ne_true_of_removeWhitespaces e hs), hst]
  refine ⟨?_, hl, ?_, ?_, ?_⟩
  · rintro rfl
    exact print_ne_nil e hs.symm
  · rw [extractVerifierStringQualifiers, nameRuns_print]
  · refine List.find?_eq_none.2 fun q hq => ?_
    rw [Std.TreeSet.mem_toList, Std.TreeSet.mem_ofList, List.contains_iff_mem] at hq
    rw [valid_of_mem_names e q hq]
    decide
  · have hn : ∀ q ∈ e.names,
        (if (Std.TreeSet.ofList e.names).contains q then some true else none) = some true :=
      fun q hq => if_pos (contains_names e hq)
    rw [resolve_of_removeWhitespaces e hs hn]
    rfl

/-- The check of an address computes the value of the expression. -/
theorem contextualCheckVerifierString_print (hs : LibBoolEE.removeWhitespaces s = e.print)
    (hl : e.print.length ≤ 80)
    (he : ∀ q ∈ e.names, cache.checkIfAssetExists env g (qualifierChar :: q) = true)
    (ha : address ≠ []) :
    contextualCheckVerifierString env g cache s address =
      if e.eval (fun q => cache.checkForAddressQualifier g (qualifierChar :: q) address true) then
        .ok ()
      else .error (str "bad-txns-null-verifier-address-failed-verification") := by
  have hc := checkVerifierString_print e hs hl
  have hal : ((Std.TreeSet.ofList e.names).toList.all fun q =>
      cache.checkIfAssetExists env g (qualifierChar :: q)) = true := by
    refine List.all_eq_true.2 fun q hq => he q ?_
    rwa [Std.TreeSet.mem_toList, Std.TreeSet.mem_ofList, List.contains_iff_mem] at hq
  have hr : LibBoolEE.resolve s (fun q => if (Std.TreeSet.ofList e.names).contains q then
        some (cache.checkForAddressQualifier g (qualifierChar :: q) address true) else none) =
      some (e.eval fun q => cache.checkForAddressQualifier g (qualifierChar :: q) address true) :=
    resolve_of_removeWhitespaces e hs fun q hq => if_pos (contains_names e hq)
  unfold contextualCheckVerifierString
  rw [if_neg (ne_true_of_removeWhitespaces e hs), hc]
  simp only [hal, bind, Except.bind, failIf, Bool.not_true, Bool.false_eq_true, if_false,
    if_neg ha, hr]
  cases e.eval fun q => cache.checkForAddressQualifier g (qualifierChar :: q) address true with
  | true => rfl
  | false => rfl

end VerifierExpr

/-- The check of an address computes the Boolean value of an expression of the grammar. The
evaluation of any string ends within its length, and the errors other than the failed verification
do not depend on the tags of the address. -/
theorem contextualCheckVerifierString_meaning (env : Env) (g : AssetGlobals) (cache : CAssetsCache) :
    (∀ (e : VerifierExpr .disjunction) (s address : Str),
      LibBoolEE.removeWhitespaces s = e.print → e.print.length ≤ 80 →
      (∀ q ∈ e.names, cache.checkIfAssetExists env g (qualifierChar :: q) = true) → address ≠ [] →
      contextualCheckVerifierString env g cache s address =
        if e.eval (fun q => cache.checkForAddressQualifier g (qualifierChar :: q) address true) then
          .ok ()
        else .error (str "bad-txns-null-verifier-address-failed-verification")) ∧
    (∀ (valuation : Str → Option Bool) (s : Str),
      (LibBoolEE.resolveRun valuation (s.length + 1) (LibBoolEE.removeWhitespaces s)).run =
        some (LibBoolEE.resolve s valuation)) ∧
    ∀ (g' : AssetGlobals) (cache' : CAssetsCache) (s address address' err : Str),
      (∀ name, cache'.checkIfAssetExists env g' name = cache.checkIfAssetExists env g name) →
      err ≠ str "bad-txns-null-verifier-address-failed-verification" →
      (contextualCheckVerifierString env g' cache' s address' = .error err ↔
        contextualCheckVerifierString env g cache s address = .error err) := by
  refine ⟨fun e s address hs hl he ha => ?_, fun valuation s => ?_, ?_⟩
  · exact VerifierExpr.contextualCheckVerifierString_print e hs hl he ha
  · have hl := LibBoolEE.length_removeWhitespaces s
    exact run_resolveRun (by omega)
  · intro g' cache' s address address' err he her
    rw [contextualCheckVerifierString_eq_error her, contextualCheckVerifierString_eq_error her]
    simp only [he]

def kycWord : QualifierWord := ⟨str "KYC", by decide⟩

/-- The expression `!(KYC)|KYC&KYC`. -/
def kycExpr : VerifierExpr .disjunction :=
  .or (.ofLiteral (.not (.paren (.ofConjunction (.ofLiteral (.name kycWord))))))
    (.ofConjunction (.and (.name kycWord) (.ofLiteral (.name kycWord))))

theorem contextualCheckVerifierString_meaning_kycExpr :
    contextualCheckVerifierString sampleEnv restrictedGlobals {} (str "!(KYC) | KYC & KYC") (str "A") =
        .ok () ∧
      (LibBoolEE.resolveRun (fun _ => none) 2 (str "&")).run = some none := by
  obtain ⟨hv, he, -⟩ := contextualCheckVerifierString_meaning sampleEnv restrictedGlobals {}
  refine ⟨?_, he (fun _ => none) (str "&")⟩
  rw [hv kycExpr _ _ (by decide) (by decide) (by decide) (by decide)]
  decide

end Check

end Cmusic
