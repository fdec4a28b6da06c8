import Mathlib.Data.List.Sort
import Mathlib.Data.String.Basic

/-
This file is the compact JSON text of nested strings, lists and dictionaries.
-/

namespace MisraPlatform

inductive Json where
  | string (text : String)
  | array (items : List Json)
  | object (entries : List (String × Json))

namespace Json

/-! ### Strings -/

def hexDigit (value : Nat) : Char := "0123456789abcdef".toList.getD value '0'

/-- Four digits are enough for a number below 65536. -/
def hexDigits (value : Nat) : List Char :=
  [hexDigit (value / 4096 % 16), hexDigit (value / 256 % 16), hexDigit (value / 16 % 16), hexDigit (value % 16)]

def unicodeEscape (value : Nat) : List Char := '\\' :: 'u' :: hexDigits value

/-- A character outside the basic plane is written as two surrogates. -/
def escapeCode (code : Nat) : List Char :=
  if code < 0x10000 then unicodeEscape code
  else unicodeEscape (0xd800 + (code - 0x10000) / 1024) ++ unicodeEscape (0xdc00 + (code - 0x10000) % 1024)

/-- Only the printable ASCII characters stand for themselves. -/
def escapeChar (char : Char) : List Char :=
  if char = '"' then ['\\', '"']
  else if char = '\\' then ['\\', '\\']
  else if char = '\n' then ['\\', 'n']
  else if char = '\r' then ['\\', 'r']
  else if char = '\t' then ['\\', 't']
  else if char = '\x08' then ['\\', 'b']
  else if char = '\x0c' then ['\\', 'f']
  else if 0x20 ≤ char.toNat ∧ char.toNat ≤ 0x7e then [char]
  else escapeCode char.toNat

def quote (text : String) : List Char := '"' :: text.toList.flatMap escapeChar ++ ['"']

/-! ### Values -/

mutual

/-- The separators have no blanks. -/
def dumps : Json → List Char
  | .string text => quote text
  | .array [] => ['[', ']']
  | .array (item :: rest) => '[' :: dumps item ++ dumpsItems rest ++ [']']
  | .object [] => ['\x7b', '\x7d']
  | .object ((key, value) :: rest) => '\x7b' :: quote key ++ ':' :: dumps value ++ dumpsEntries rest ++ ['\x7d']

/-- These items follow another one. -/
def dumpsItems : List Json → List Char
  | [] => []
  | item :: rest => ',' :: dumps item ++ dumpsItems rest

def dumpsEntries : List (String × Json) → List Char
  | [] => []
  | (key, value) :: rest => ',' :: quote key ++ ':' :: dumps value ++ dumpsEntries rest

end

mutual

/-- Every dictionary lists its entries by increasing key. -/
def sortKeys : Json → Json
  | .string text => .string text
  | .array items => .array (sortItems items)
  | .object entries => .object ((sortEntries entries).insertionSort fun first second => first.1 ≤ second.1)

def sortItems : List Json → List Json
  | [] => []
  | item :: rest => sortKeys item :: sortItems rest

def sortEntries : List (String × Json) → List (String × Json)
  | [] => []
  | (key, value) :: rest => (key, sortKeys value) :: sortEntries rest

end

example : String.ofList (dumps (sortKeys (.object [("b", .array [.string "x", .string "y"]),
    ("a", .object [("k", .string "\"é😀\n")])]))) =
    "\x7b\"a\":\x7b\"k\":\"\\\"\\u00e9\\ud83d\\ude00\\n\"\x7d,\"b\":[\"x\",\"y\"]\x7d" := by
  decide

/-! ### Reading a character back -/

def hexValue (digit : Char) : Nat := "0123456789abcdef".toList.idxOf digit

def readHex (first second third fourth : Char) : Nat :=
  ((hexValue first * 16 + hexValue second) * 16 + hexValue third) * 16 + hexValue fourth

/-- A high surrogate is followed by a low one. -/
def readUnicode : List Char → Option (Char × List Char)
  | first :: second :: third :: fourth :: rest =>
      let code := readHex first second third fourth
      if 0xd800 ≤ code ∧ code < 0xdc00 then
        match rest with
        | _ :: _ :: first :: second :: third :: fourth :: rest =>
            some (Char.ofNat (0x10000 + (code - 0xd800) * 1024 + (readHex first second third fourth - 0xdc00)),
              rest)
        | _ => none
      else some (Char.ofNat code, rest)
  | _ => none

def shortEscape (char : Char) : Char :=
  if char = 'n' then '\n' else if char = 'r' then '\r' else if char = 't' then '\t'
  else if char = 'b' then '\x08' else if char = 'f' then '\x0c' else char

def readChar : List Char → Option (Char × List Char)
  | [] => none
  | char :: rest =>
      if char = '\\' then
        match rest with
        | [] => none
        | escape :: rest => if escape = 'u' then readUnicode rest else some (shortEscape escape, rest)
      else some (char, rest)

theorem hexValue_hexDigit (value : Nat) : hexValue (hexDigit (value % 16)) = value % 16 := by
  have each : ∀ digit : Fin 16, hexValue (hexDigit digit) = digit := by decide
  exact each ⟨value % 16, Nat.mod_lt _ (by decide)⟩

theorem readHex_digits {value : Nat} (small : value < 0x10000) :
    readHex (hexDigit (value / 4096 % 16)) (hexDigit (value / 256 % 16)) (hexDigit (value / 16 % 16))
      (hexDigit (value % 16)) = value := by
  simp only [readHex, hexValue_hexDigit]
  omega

theorem readChar_code (char : Char) (rest : List Char) :
    readChar (escapeCode char.toNat ++ rest) = some (char, rest) := by
  have valid : char.toNat < 0xd800 ∨ (0xdfff < char.toNat ∧ char.toNat < 0x110000) := char.valid
  rw [escapeCode]
  by_cases small : char.toNat < 0x10000
  · have code := readHex_digits small
    have plain : ¬ (0xd800 ≤ char.toNat ∧ char.toNat < 0xdc00) := by omega
    rw [if_pos small]
    simp only [unicodeEscape, hexDigits, List.cons_append, List.nil_append, readChar, if_true, readUnicode,
      code, plain, if_false, Char.ofNat_toNat]
  · have high := @readHex_digits (0xd800 + (char.toNat - 0x10000) / 1024) (by omega)
    have low := @readHex_digits (0xdc00 + (char.toNat - 0x10000) % 1024) (by omega)
    have surrogate : 0xd800 ≤ 0xd800 + (char.toNat - 0x10000) / 1024 ∧
        0xd800 + (char.toNat - 0x10000) / 1024 < 0xdc00 := by omega
    have joined : 0x10000 + (0xd800 + (char.toNat - 0x10000) / 1024 - 0xd800) * 1024 +
        (0xdc00 + (char.toNat - 0x10000) % 1024 - 0xdc00) = char.toNat := by omega
    rw [if_neg small]
    simp only [unicodeEscape, hexDigits, List.cons_append, List.nil_append, readChar, if_true, readUnicode,
      high, low, surrogate, and_self, joined, Char.ofNat_toNat]

/-- The reader inverts the escape of a character. -/
theorem readChar_escape (char : Char) (rest : List Char) :
    readChar (escapeChar char ++ rest) = some (char, rest) := by
  unfold escapeChar
  split_ifs with quotation backslash newline carriage tab backspace feed printable
  · subst quotation
    rfl
  · subst backslash
    rfl
  · subst newline
    rfl
  · subst carriage
    rfl
  · subst tab
    rfl
  · subst backspace
    rfl
  · subst feed
    rfl
  · simp [readChar, backslash]
  · exact readChar_code char rest

/-! ### Injectivity -/

theorem escapeChar_cancel {first second : Char} {left right : List Char}
    (same : escapeChar first ++ left = escapeChar second ++ right) : first = second ∧ left = right := by
  have read := congrArg readChar same
  rw [readChar_escape, readChar_escape, Option.some.injEq, Prod.mk.injEq] at read
  exact read

/-- An escaped character never starts with the quotation mark that ends a string. -/
theorem escapeChar_head (char : Char) : ∃ head rest, escapeChar char = head :: rest ∧ head ≠ '"' := by
  unfold escapeChar
  split_ifs with quotation backslash newline carriage tab backspace feed printable
  case pos => exact ⟨'\\', _, rfl, by decide⟩
  case pos => exact ⟨'\\', _, rfl, by decide⟩
  case pos => exact ⟨'\\', _, rfl, by decide⟩
  case pos => exact ⟨'\\', _, rfl, by decide⟩
  case pos => exact ⟨'\\', _, rfl, by decide⟩
  case pos => exact ⟨'\\', _, rfl, by decide⟩
  case pos => exact ⟨'\\', _, rfl, by decide⟩
  case pos => exact ⟨char, [], rfl, quotation⟩
  case neg =>
    unfold escapeCode
    split <;> exact ⟨'\\', _, rfl, by decide⟩

theorem escapeChar_ne_quote (char : Char) (left right : List Char) :
    escapeChar char ++ left ≠ '"' :: right := by
  obtain ⟨head, rest, escaped, differs⟩ := escapeChar_head char
  intro same
  rw [escaped, List.cons_append, List.cons.injEq] at same
  exact differs same.1

theorem body_cancel (first second : List Char) {left right : List Char}
    (same : first.flatMap escapeChar ++ '"' :: left = second.flatMap escapeChar ++ '"' :: right) :
    first = second ∧ left = right := by
  induction first generalizing second with
  | nil =>
      cases second with
      | nil => simpa using same
      | cons char rest =>
          rw [List.flatMap_nil, List.nil_append, List.flatMap_cons, List.append_assoc] at same
          exact absurd same.symm (escapeChar_ne_quote _ _ _)
  | cons char rest ih =>
      cases second with
      | nil =>
          rw [List.flatMap_nil, List.nil_append, List.flatMap_cons, List.append_assoc] at same
          exact absurd same (escapeChar_ne_quote _ _ _)
      | cons other others =>
          rw [List.flatMap_cons, List.flatMap_cons, List.append_assoc, List.append_assoc] at same
          obtain ⟨sameChar, remains⟩ := escapeChar_cancel same
          obtain ⟨sameRest, tails⟩ := ih others remains
          exact ⟨by rw [sameChar, sameRest], tails⟩

theorem quote_cancel {first second : String} {left right : List Char}
    (same : quote first ++ left = quote second ++ right) : first = second ∧ left = right := by
  simp only [quote, List.cons_append, List.append_assoc, List.nil_append, List.cons.injEq, true_and] at same
  obtain ⟨texts, tails⟩ := body_cancel _ _ same
  exact ⟨String.toList_inj.mp texts, tails⟩

/-- A value starts with the mark of its kind, which closes nothing. -/
theorem dumps_head (value : Json) :
    ∃ head rest, dumps value = head :: rest ∧ (head = '"' ∨ head = '[' ∨ head = '\x7b') := by
  cases value with
  | string text => exact ⟨'"', _, by rw [dumps, quote, List.cons_append], .inl rfl⟩
  | array items =>
      cases items with
      | nil => exact ⟨'[', [']'], by rw [dumps], .inr (.inl rfl)⟩
      | cons item rest => exact ⟨'[', _, by rw [dumps]; rfl, .inr (.inl rfl)⟩
  | object entries =>
      cases entries with
      | nil => exact ⟨'\x7b', ['\x7d'], by rw [dumps], .inr (.inr rfl)⟩
      | cons entry rest => exact ⟨'\x7b', _, by rw [dumps]; rfl, .inr (.inr rfl)⟩

theorem dumps_ne_bracket (value : Json) (left right : List Char) : dumps value ++ left ≠ ']' :: right := by
  obtain ⟨head, rest, text, starts⟩ := dumps_head value
  intro same
  rw [text, List.cons_append, List.cons.injEq] at same
  revert starts
  rw [same.1]
  decide

mutual

/-- The text of a value ends where the value ends. -/
theorem dumps_cancel (first second : Json) {left right : List Char}
    (same : dumps first ++ left = dumps second ++ right) : first = second ∧ left = right := by
  match first, second with
  | .string text, .string other =>
      rw [dumps, dumps] at same
      obtain ⟨texts, tails⟩ := quote_cancel same
      exact ⟨by rw [texts], tails⟩
  | .string text, .array [] => simp [dumps, quote] at same
  | .string text, .array (_ :: _) => simp [dumps, quote] at same
  | .string text, .object [] => simp [dumps, quote] at same
  | .string text, .object (_ :: _) => simp [dumps, quote] at same
  | .array [], .string other => simp [dumps, quote] at same
  | .array [], .array [] =>
      rw [dumps] at same
      exact ⟨rfl, by simpa using same⟩
  | .array [], .array (item :: rest) =>
      simp only [dumps, List.cons_append, List.nil_append, List.append_assoc, List.cons.injEq, true_and] at same
      exact absurd same.symm (dumps_ne_bracket _ _ _)
  | .array [], .object [] => simp [dumps] at same
  | .array [], .object (_ :: _) => simp [dumps] at same
  | .array (_ :: _), .string other => simp [dumps, quote] at same
  | .array (item :: rest), .array [] =>
      simp only [dumps, List.cons_append, List.nil_append, List.append_assoc, List.cons.injEq, true_and] at same
      exact absurd same (dumps_ne_bracket _ _ _)
  | .array (item :: rest), .array (other :: others) =>
      simp only [dumps, List.cons_append, List.nil_append, List.append_assoc, List.cons.injEq, true_and] at same
      obtain ⟨sameItem, remains⟩ := dumps_cancel item other same
      obtain ⟨sameRest, tails⟩ := dumpsItems_cancel rest others remains
      exact ⟨by rw [sameItem, sameRest], tails⟩
  | .array (_ :: _), .object [] => simp [dumps] at same
  | .array (_ :: _), .object (_ :: _) => simp [dumps] at same
  | .object [], .string other => simp [dumps, quote] at same
  | .object [], .array [] => simp [dumps] at same
  | .object [], .array (_ :: _) => simp [dumps] at same
  | .object [], .object [] =>
      rw [dumps] at same
      exact ⟨rfl, by simpa using same⟩
  | .object [], .object ((_, _) :: _) => simp [dumps, quote] at same
  | .object ((_, _) :: _), .string other => simp [dumps, quote] at same
  | .object ((_, _) :: _), .array [] => simp [dumps] at same
  | .object ((_, _) :: _), .array (_ :: _) => simp [dumps] at same
  | .object ((_, _) :: _), .object [] => simp [dumps, quote] at same
  | .object ((key, value) :: rest), .object ((otherKey, other) :: others) =>
      simp only [dumps, List.cons_append, List.nil_append, List.append_assoc, List.cons.injEq, true_and] at same
      obtain ⟨sameKey, colon⟩ := quote_cancel same
      rw [List.cons.injEq] at colon
      obtain ⟨sameValue, remains⟩ := dumps_cancel value other colon.2
      obtain ⟨sameRest, tails⟩ := dumpsEntries_cancel rest others remains
      exact ⟨by rw [sameKey, sameValue, sameRest], tails⟩

theorem dumpsItems_cancel (first second : List Json) {left right : List Char}
    (same : dumpsItems first ++ ']' :: left = dumpsItems second ++ ']' :: right) :
    first = second ∧ left = right := by
  match first, second with
  | [], [] =>
      rw [dumpsItems] at same
      exact ⟨rfl, by simpa using same⟩
  | [], _ :: _ => simp [dumpsItems] at same
  | _ :: _, [] => simp [dumpsItems] at same
  | item :: rest, other :: others =>
      simp only [dumpsItems, List.cons_append, List.append_assoc, List.cons.injEq, true_and] at same
      obtain ⟨sameItem, remains⟩ := dumps_cancel item other same
      obtain ⟨sameRest, tails⟩ := dumpsItems_cancel rest others remains
      exact ⟨by rw [sameItem, sameRest], tails⟩

theorem dumpsEntries_cancel (first second : List (String × Json)) {left right : List Char}
    (same : dumpsEntries first ++ '\x7d' :: left = dumpsEntries second ++ '\x7d' :: right) :
    first = second ∧ left = right := by
  match first, second with
  | [], [] =>
      rw [dumpsEntries] at same
      exact ⟨rfl, by simpa using same⟩
  | [], (_, _) :: _ => simp [dumpsEntries] at same
  | (_, _) :: _, [] => simp [dumpsEntries] at same
  | (key, value) :: rest, (otherKey, other) :: others =>
      simp only [dumpsEntries, List.cons_append, List.append_assoc, List.cons.injEq, true_and] at same
      obtain ⟨sameKey, colon⟩ := quote_cancel same
      rw [List.cons.injEq] at colon
      obtain ⟨sameValue, remains⟩ := dumps_cancel value other colon.2
      obtain ⟨sameRest, tails⟩ := dumpsEntries_cancel rest others remains
      exact ⟨by rw [sameKey, sameValue, sameRest], tails⟩

end

theorem dumps_injective : Function.Injective dumps := by
  intro first second same
  have ends : dumps first ++ [] = dumps second ++ [] := by rw [same]
  exact (dumps_cancel first second ends).1

end Json
end MisraPlatform
