import MisraPlatform.Semantics.IntegerConstants
import Mathlib.Data.Bool.AllAny

/-
This file proves which integer constants of C get the least type that holds them.
-/

namespace MisraPlatform

open EssentialType EssentialTypeAnalyzer EssentialTypeEngine

section Digits

variable {base : Nat} {digits : List Char}

/-- The digits of a constant read as their values. -/
theorem digitOf_eq {radix : Radix} {digit : Char} (legal : digit ∈ radix.digitChars) :
    digitOf radix.base digit = some (digitValue digit) := by
  have decimals : ∀ digit ∈ "0123456789".toList, digitOf 10 digit = some (digitValue digit) :=
    List.all_iff_forall_prop.mp (by decide)
  have octals : ∀ digit ∈ "01234567".toList, digitOf 8 digit = some (digitValue digit) :=
    List.all_iff_forall_prop.mp (by decide)
  have others : ∀ digit ∈ "0123456789abcdefABCDEF".toList, digitOf 16 digit = some (digitValue digit) :=
    List.all_iff_forall_prop.mp (by decide)
  cases radix with
  | decimal => exact decimals digit legal
  | octal => exact octals digit legal
  | hexadecimal capital => exact others digit legal

/-- The digits of every base are hexadecimal ones. -/
theorem mem_hexadecimal {radix : Radix} {digit : Char} (legal : digit ∈ radix.digitChars) :
    digit ∈ "0123456789abcdefABCDEF".toList := by
  have decimals : ∀ digit ∈ "0123456789".toList, digit ∈ "0123456789abcdefABCDEF".toList :=
    List.all_iff_forall_prop.mp (by decide)
  have octals : ∀ digit ∈ "01234567".toList, digit ∈ "0123456789abcdefABCDEF".toList :=
    List.all_iff_forall_prop.mp (by decide)
  cases radix with
  | decimal => exact decimals digit legal
  | octal => exact octals digit legal
  | hexadecimal capital => exact legal

theorem moreDigits_eq (read : ∀ digit ∈ digits, digitOf base digit = some (digitValue digit)) (value : Nat) :
    moreDigits base value digits = some (digits.foldl (fun value digit => value * base + digitValue digit) value) := by
  induction digits generalizing value with
  | nil => rfl
  | cons digit rest ih =>
      have here := read digit List.mem_cons_self
      have mark : digit ≠ '_' := by
        rintro rfl
        have none_read : digitOf base '_' = none := rfl
        rw [none_read] at here
        cases here
      have step : moreDigits base value (digit :: rest) =
          (digitOf base digit).bind fun found => moreDigits base (value * base + found) rest := by
        rw [moreDigits.eq_3 _ _ _ _ fun next later same _ => mark same]
        rfl
      rw [step, here, Option.bind_some, ih fun other listed => read other (List.mem_cons_of_mem _ listed)]
      rfl

theorem readDigits_eq (read : ∀ digit ∈ digits, digitOf base digit = some (digitValue digit)) (some_digit : digits ≠ []) :
    readDigits base digits = some (digitsValue base digits) := by
  cases digits with
  | nil => exact absurd rfl some_digit
  | cons digit rest =>
      have first := read digit List.mem_cons_self
      have others := moreDigits_eq fun other listed => read other (List.mem_cons_of_mem _ listed)
      rw [readDigits, first]
      refine (others (digitValue digit)).trans ?_
      rw [digitsValue, List.foldl_cons, Nat.zero_mul, Nat.zero_add]

/-- Digits have the value zero in one base exactly when they have it in another. -/
theorem digitsValue_eq_zero_iff (positive : 0 < base) : digitsValue base digits = 0 ↔ ∀ digit ∈ digits, digitValue digit = 0 := by
  have general : ∀ value, digits.foldl (fun value digit => value * base + digitValue digit) value = 0 ↔
      value = 0 ∧ ∀ digit ∈ digits, digitValue digit = 0 := by
    induction digits with
    | nil => simp
    | cons digit rest ih =>
        intro value
        rw [List.foldl_cons, ih, List.forall_mem_cons, Nat.add_eq_zero_iff, Nat.mul_eq_zero]
        have nonzero : base ≠ 0 := Nat.ne_of_gt positive
        tauto
  rw [digitsValue, general]
  exact and_iff_right rfl

end Digits

section Texts

variable (constant : IntegerConstant)

/-- These characters are those of constants without suffixes. -/
def bodyChars : List Char := "0123456789abcdefABCDEFxX".toList

theorem mem_bodyChars : ∀ char ∈ constant.body, char ∈ bodyChars := by
  intro char listed
  rcases List.mem_append.mp listed with leading | digit
  · have closed : ∀ capital, ∀ char ∈ (Radix.hexadecimal capital).lead, char ∈ bodyChars := by
      intro capital
      exact List.all_iff_forall_prop.mp (by cases capital <;> decide)
    cases radix : constant.radix with
    | decimal => simp [radix, Radix.lead] at leading
    | octal =>
        rw [radix] at leading
        rw [List.mem_singleton.mp leading]
        decide
    | hexadecimal capital =>
        rw [radix] at leading
        exact closed capital char leading
  · have closed : ∀ char ∈ "0123456789abcdefABCDEF".toList, char ∈ bodyChars :=
      List.all_iff_forall_prop.mp (by decide)
    exact closed char (mem_hexadecimal (constant.legalDigits char digit))

/-- The suffix is stripped, and nothing else is. -/
theorem strip_text : constant.text.toList.rdropWhile (fun char => "uUlL".toList.contains char) = constant.body := by
  have stripped : ∀ suffix ∈ integerSuffixes, suffix.toList.reverse.all ("uUlL".toList.contains ·) = true := by decide
  have kept : ∀ char ∈ bodyChars, "uUlL".toList.contains char = false := List.all_iff_forall_prop.mp (by decide)
  have whole : constant.body.rdropWhile (fun char => "uUlL".toList.contains char) = constant.body := by
    refine List.rdropWhile_eq_self_iff.mpr fun some_char last => ?_
    rw [kept _ (mem_bodyChars constant _ (List.getLast_mem some_char))] at last
    exact Bool.false_ne_true last
  have text : constant.text.toList = constant.body ++ constant.suffix.toList := String.toList_ofList
  rw [text, List.rdropWhile, List.reverse_append,
    List.dropWhile_append_of_pos (List.all_eq_true.mp (stripped constant.suffix constant.legalSuffix))]
  exact whole

/-- An octal constant is read only if its value is zero. -/
theorem magnitude_body : magnitude constant.body =
    if constant.radix = .octal ∧ constant.value ≠ 0 then none else some constant.value := by
  have admitted := constant.admitted
  have legal := constant.legalDigits
  unfold IntegerConstant.body IntegerConstant.value
  generalize constant.digits = digits at *
  cases radix : constant.radix with
  | decimal =>
      rw [radix] at admitted legal
      obtain ⟨first, rest, rfl, nonzero⟩ := admitted
      have starts : magnitude (first :: rest) = readDigits 10 (first :: rest) := by
        rw [magnitude.eq_8]
        all_goals
          intro
          intros
          rename_i same
          exact nonzero (List.cons.inj same).1
      rw [if_neg (by simp), ← readDigits_eq (fun digit listed => digitOf_eq (legal digit listed)) (List.cons_ne_nil _ _)]
      exact starts
  | octal =>
      rw [radix] at legal
      have starts : magnitude ('0' :: digits) = (readDigits 10 ('0' :: digits)).filter fun value => value = 0 := by
        rw [magnitude.eq_7]
        all_goals
          intro later same
          have listed := legal _ (same ▸ List.mem_cons_self)
          exact absurd listed (by decide)
      have decimal : ∀ digit ∈ '0' :: digits, digitOf 10 digit = some (digitValue digit) := by
        have closed : ∀ digit ∈ "01234567".toList, digitOf 10 digit = some (digitValue digit) :=
          List.all_iff_forall_prop.mp (by decide)
        intro digit listed
        rcases List.mem_cons.mp listed with rfl | later
        · rfl
        · exact closed digit (legal digit later)
      have zero : digitsValue 10 ('0' :: digits) = 0 ↔ digitsValue 8 digits = 0 := by
        rw [digitsValue_eq_zero_iff (by omega), digitsValue_eq_zero_iff (by omega), List.forall_mem_cons]
        exact and_iff_right rfl
      change magnitude ('0' :: digits) = _
      rw [starts, readDigits_eq decimal (List.cons_ne_nil _ _), Option.filter_some]
      change _ = if Radix.octal = Radix.octal ∧ digitsValue 8 digits ≠ 0 then none else some (digitsValue 8 digits)
      by_cases none_set : digitsValue 8 digits = 0
      · rw [if_pos (decide_eq_true (zero.mpr none_set)), if_neg fun taken => taken.2 none_set, none_set,
          zero.mpr none_set]
      · rw [if_neg fun taken => none_set (zero.mp (of_decide_eq_true taken)), if_pos ⟨rfl, none_set⟩]
  | hexadecimal capital =>
      rw [radix] at legal admitted
      obtain ⟨first, rest, rfl⟩ := List.exists_cons_of_ne_nil admitted
      have mark : ∀ digit ∈ "0123456789abcdefABCDEF".toList, digit ≠ '_' := List.all_iff_forall_prop.mp (by decide)
      have starts : magnitude ((Radix.hexadecimal capital).lead ++ first :: rest) = readDigits 16 (first :: rest) := by
        have unmarked : markedDigits 16 (first :: rest) = readDigits 16 (first :: rest) := by
          rw [markedDigits.eq_2]
          intro later same
          exact mark first (legal first List.mem_cons_self) (List.cons.inj same).1
        cases capital with
        | false => exact unmarked
        | true => exact unmarked
      rw [if_neg (by simp), ← readDigits_eq (fun digit listed => digitOf_eq (legal digit listed)) (List.cons_ne_nil _ _)]
      exact starts

theorem toInteger_body : toInteger constant.body = (magnitude constant.body).map Int.ofNat := by
  have inner : ∀ char ∈ bodyChars, whitespace.contains char = false := List.all_iff_forall_prop.mp (by decide)
  have known := mem_bodyChars constant
  have left : constant.body.dropWhile whitespace.contains = constant.body := by
    refine List.dropWhile_eq_self_iff.mpr fun some_char first => ?_
    rw [inner _ (known _ (List.getElem_mem _))] at first
    exact Bool.false_ne_true first
  have right : constant.body.rdropWhile whitespace.contains = constant.body := by
    refine List.rdropWhile_eq_self_iff.mpr fun some_char last => ?_
    rw [inner _ (known _ (List.getLast_mem some_char))] at last
    exact Bool.false_ne_true last
  rw [toInteger, left, right]
  split
  · rename_i rest same
    exact absurd (known '-' (same ▸ List.mem_cons_self)) (by decide)
  · rename_i rest same
    exact absurd (known '+' (same ▸ List.mem_cons_self)) (by decide)
  · rfl

/-- The suffix ends with one of the marks of an unsigned constant exactly when it contains one. -/
theorem isUnsignedText_append {body suffix : List Char} (apart : ∀ char ∈ body, char ≠ 'u' ∧ char ≠ 'l')
    (legal : suffix ∈ [[], ['u'], ['l'], ['l', 'l'], ['u', 'l'], ['l', 'u'], ['u', 'l', 'l'], ['l', 'l', 'u']]) :
    isUnsignedText (body ++ suffix) = suffix.contains 'u' := by
  have ends : ∀ marks, List.isSuffixOf marks (body ++ suffix) =
      marks.reverse.isPrefixOf (suffix.reverse ++ body.reverse) := by
    intro marks
    rw [List.isSuffixOf, List.reverse_append]
  simp only [isUnsignedText, ends]
  cases reversed : body.reverse with
  | nil =>
      simp only [List.mem_cons, List.not_mem_nil, or_false] at legal
      rcases legal with rfl | rfl | rfl | rfl | rfl | rfl | rfl | rfl <;> decide
  | cons last rest =>
      have other := apart last (List.mem_reverse.mp (reversed ▸ List.mem_cons_self))
      simp only [List.mem_cons, List.not_mem_nil, or_false] at legal
      rcases legal with rfl | rfl | rfl | rfl | rfl | rfl | rfl | rfl <;>
        simp [List.isPrefixOf, other.1.symm, other.2.symm]

theorem lower_text : constant.text.toList.map Char.toLower =
    constant.body.map Char.toLower ++ constant.lowerSuffix := by
  have text : constant.text.toList = constant.body ++ constant.suffix.toList := String.toList_ofList
  rw [text, List.map_append]
  rfl

theorem lower_body : ∀ char ∈ constant.body.map Char.toLower, char ≠ 'u' ∧ char ≠ 'l' := by
  have closed : ∀ char ∈ bodyChars, char.toLower ≠ 'u' ∧ char.toLower ≠ 'l' := List.all_iff_forall_prop.mp (by decide)
  intro char listed
  obtain ⟨source, inside, rfl⟩ := List.mem_map.mp listed
  exact closed source (mem_bodyChars constant source inside)

theorem isUnsignedText_text : isUnsignedText (constant.text.toList.map Char.toLower) = constant.isUnsigned := by
  have closed : ∀ suffix ∈ integerSuffixes, suffix.toList.map Char.toLower ∈
      [[], ['u'], ['l'], ['l', 'l'], ['u', 'l'], ['l', 'u'], ['u', 'l', 'l'], ['l', 'l', 'u']] := by decide
  rw [lower_text]
  exact isUnsignedText_append (lower_body constant) (closed constant.suffix constant.legalSuffix)

theorem isLong_text : (constant.text.toList.map Char.toLower).contains 'l' = constant.isLong := by
  have apart : (constant.body.map Char.toLower).contains 'l' = false := by
    rw [Bool.eq_false_iff]
    intro listed
    exact (lower_body constant 'l' (List.contains_iff_mem.mp listed)).2 rfl
  rw [lower_text, List.contains_append, apart, Bool.false_or]
  rfl

/-- The engine types a constant by its sign, its length and the value that it reads. -/
theorem literalEssentialType_text : literalEssentialType constant.text =
    if constant.radix = .octal ∧ constant.value ≠ 0 then unknown
    else smallest constant.value ((candidates constant.isUnsigned).drop (if constant.isLong then 2 else 0))
      (if constant.isUnsigned then unsignedLongLong else signedLongLong) := by
  rw [literalEssentialType, strip_text, toInteger_body, magnitude_body, isUnsignedText_text, isLong_text]
  split_ifs <;> rfl

end Texts

section Candidates

variable {value : Int} {last : EssentialType}

theorem smallest_cons (candidate : EssentialType × Int) (rest : List (EssentialType × Int)) :
    smallest value (candidate :: rest) last = if value ≤ candidate.2 then candidate.1 else smallest value rest last := by
  unfold smallest
  rw [List.find?_cons]
  by_cases fits : value ≤ candidate.2
  · rw [if_pos fits, decide_eq_true fits]
  · rw [if_neg fits, decide_eq_false fits]

/-- The search returns the least of the candidates that can represent the value. -/
theorem smallest_least {candidates : List (EssentialType × Int)}
    (sorted : candidates.Pairwise fun first second => rank first.1 ≤ rank second.1)
    (some_fits : ∃ candidate ∈ candidates, value ≤ candidate.2) :
    (∃ limit, (smallest value candidates last, limit) ∈ candidates ∧ value ≤ limit) ∧
      ∀ other ∈ candidates, value ≤ other.2 → rank (smallest value candidates last) ≤ rank other.1 := by
  induction candidates with
  | nil =>
      obtain ⟨candidate, listed, -⟩ := some_fits
      exact absurd listed List.not_mem_nil
  | cons first rest ih =>
      obtain ⟨below, sorted⟩ := List.pairwise_cons.mp sorted
      rw [smallest_cons]
      by_cases fits : value ≤ first.2
      · rw [if_pos fits]
        refine ⟨⟨first.2, List.mem_cons_self, fits⟩, fun other listed _ => ?_⟩
        rcases List.mem_cons.mp listed with rfl | later
        · exact Nat.le_refl _
        · exact below other later
      · rw [if_neg fits]
        obtain ⟨candidate, listed, candidateFits⟩ := some_fits
        have later : candidate ∈ rest := by
          rcases List.mem_cons.mp listed with rfl | later
          · exact absurd candidateFits fits
          · exact later
        obtain ⟨⟨limit, found, enough⟩, least⟩ := ih sorted ⟨candidate, later, candidateFits⟩
        refine ⟨⟨limit, List.mem_cons_of_mem _ found, enough⟩, fun other inside otherFits => ?_⟩
        rcases List.mem_cons.mp inside with rfl | inside
        · exact absurd otherFits fits
        · exact least other inside otherFits

end Candidates

/-- The engine gives a constant of at most 64 bits its least type exactly when it can read the constant and
the value of a long one exceeds every `int` of its sign. -/
theorem isLeast_literal_iff (constant : IntegerConstant) (small : constant.value < 2 ^ 64) :
    constant.IsLeast (literalEssentialType constant.text) ↔
      (constant.radix = .octal → constant.value = 0) ∧
        (constant.isLong = true → constant.intLimit < constant.value) := by
  have sorted : ∀ isUnsigned, (candidates isUnsigned).Pairwise fun first second => rank first.1 ≤ rank second.1 := by
    decide
  rw [literalEssentialType_text]
  by_cases unread : constant.radix = .octal ∧ constant.value ≠ 0
  · rw [if_pos unread]
    refine iff_of_false ?_ fun holds => unread.2 (holds.1 unread.1)
    rintro ⟨⟨limit, listed, -⟩, -⟩
    have known : ∀ isUnsigned, ∀ candidate ∈ candidates isUnsigned, candidate.1 ≠ unknown := by decide
    exact known _ _ listed rfl
  · rw [if_neg unread]
    have read : constant.radix = .octal → constant.value = 0 := by tauto
    have wide : ∃ candidate ∈ (candidates constant.isUnsigned).drop 3, (constant.value : Int) ≤ candidate.2 := by
      cases constant.isUnsigned with
      | false => exact ⟨(signedLongLong, 2 ^ 127 - 1), by decide, by dsimp only; omega⟩
      | true => exact ⟨(unsignedLongLong, 2 ^ 128 - 1), by decide, by dsimp only; omega⟩
    cases long : constant.isLong with
    | false =>
        obtain ⟨candidate, listed, fits⟩ := wide
        obtain ⟨⟨limit, found, enough⟩, least⟩ := smallest_least (sorted constant.isUnsigned)
          ⟨candidate, List.mem_of_mem_drop listed, fits⟩
        refine iff_of_true ⟨⟨limit, found, enough, fun isLong => ?_⟩, fun other ⟨_, otherListed, otherFits, _⟩ =>
          least _ otherListed otherFits⟩ ⟨read, fun isLong => absurd isLong Bool.false_ne_true⟩
        rw [long] at isLong
        cases isLong
    | true =>
        have head : ∀ isUnsigned, (candidates isUnsigned).drop 2 =
            (if isUnsigned then unsignedInt else signedInt, if isUnsigned then 0xFFFFFFFF else 0x7FFFFFFF) ::
              (candidates isUnsigned).drop 3 := by decide
        have limit : (if constant.isUnsigned then 0xFFFFFFFF else 0x7FFFFFFF : Int) = constant.intLimit := by
          unfold IntegerConstant.intLimit
          cases constant.isUnsigned <;> rfl
        rw [if_pos rfl, head, smallest_cons, limit]
        by_cases short : (constant.value : Int) ≤ constant.intLimit
        · rw [if_pos short]
          refine iff_of_false ?_ fun holds => ?_
          · rintro ⟨⟨_, _, _, isLong⟩, -⟩
            have tooShort : ∀ isUnsigned, ¬ rank signedLong ≤ rank (if isUnsigned = true then unsignedInt else signedInt) := by
              decide
            exact tooShort _ (isLong long)
          · have above := holds.2 rfl
            omega
        · rw [if_neg short]
          obtain ⟨⟨limit, found, enough⟩, least⟩ := smallest_least
            ((sorted constant.isUnsigned).sublist (List.drop_sublist 3 _)) wide
          have ranked : ∀ isUnsigned, ∀ candidate ∈ (candidates isUnsigned).drop 3,
              rank signedLong ≤ rank candidate.1 := by decide
          have later : ∀ isUnsigned, ∀ candidate ∈ candidates isUnsigned, rank signedLong ≤ rank candidate.1 →
              candidate ∈ (candidates isUnsigned).drop 3 := by decide
          refine iff_of_true ⟨⟨limit, List.mem_of_mem_drop found, enough, fun _ => ranked _ _ found⟩, ?_⟩
            ⟨read, fun _ => by omega⟩
          rintro other ⟨otherLimit, otherListed, otherFits, isLong⟩
          exact least _ (later _ _ otherListed (isLong long)) otherFits

section Sample

/-- This is the constant `017`. -/
def seventeen : IntegerConstant where
  radix := .octal
  digits := ['1', '7']
  suffix := ""
  legalDigits := List.all_iff_forall_prop.mp (by decide)
  admitted := trivial
  legalSuffix := by decide

/-- This is the constant `5l`. -/
def longFive : IntegerConstant where
  radix := .decimal
  digits := ['5']
  suffix := "l"
  legalDigits := List.all_iff_forall_prop.mp (by decide)
  admitted := ⟨'5', [], rfl, by decide⟩
  legalSuffix := by decide

/-- This is the constant `0xFFu`. -/
def maskFF : IntegerConstant where
  radix := .hexadecimal false
  digits := ['F', 'F']
  suffix := "u"
  legalDigits := List.all_iff_forall_prop.mp (by decide)
  admitted := List.cons_ne_nil _ _
  legalSuffix := by decide

theorem octal_and_long_missed :
    (literalEssentialType seventeen.text = unknown ∧ ¬ seventeen.IsLeast unknown) ∧
      literalEssentialType longFive.text = signedInt ∧ ¬ longFive.IsLeast signedInt := by
  refine ⟨⟨by decide, ?_⟩, by decide, ?_⟩
  · rintro ⟨⟨limit, listed, -⟩, -⟩
    have known : ∀ candidate ∈ candidates seventeen.isUnsigned, candidate.1 ≠ unknown := by decide
    exact known _ listed rfl
  · rintro ⟨⟨_, _, _, isLong⟩, -⟩
    exact absurd (isLong (by decide)) (by decide)

theorem maskFF_least : maskFF.IsLeast unsignedChar :=
  (isLeast_literal_iff maskFF (by decide)).mpr ⟨by decide, by decide⟩

end Sample

end MisraPlatform
