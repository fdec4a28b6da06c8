import MisraPlatform.Construction.EssentialTypeEngine

/-
This file states the integer constants of C and the least type that holds one.
-/

namespace MisraPlatform

inductive Radix where
  | decimal
  | octal
  | hexadecimal (capital : Bool)
  deriving DecidableEq

namespace Radix

def base : Radix → Nat
  | decimal => 10
  | octal => 8
  | hexadecimal _ => 16

def digitChars : Radix → List Char
  | decimal => "0123456789".toList
  | octal => "01234567".toList
  | hexadecimal _ => "0123456789abcdefABCDEF".toList

/-- A constant starts with these characters before its digits. -/
def lead : Radix → List Char
  | decimal => []
  | octal => ['0']
  | hexadecimal capital => ['0', if capital then 'X' else 'x']

/-- The leading zero alone is an octal constant. -/
def Admits : Radix → List Char → Prop
  | decimal, digits => ∃ first rest, digits = first :: rest ∧ first ≠ '0'
  | octal, _ => True
  | hexadecimal _, digits => digits ≠ []

end Radix

/-- The value of a digit is its place among the digits. -/
def digitValue (digit : Char) : Nat := "0123456789abcdef".toList.idxOf digit.toLower

def digitsValue (base : Nat) (digits : List Char) : Nat :=
  digits.foldl (fun value digit => value * base + digitValue digit) 0

/-- The letters of `u` and of `l` or `ll` come in either order and in either case. -/
def integerSuffixes : List String :=
  ["", "u", "U", "l", "L", "ll", "LL", "ul", "uL", "Ul", "UL", "lu", "lU", "Lu", "LU", "ull", "uLL", "Ull", "ULL",
    "llu", "llU", "LLu", "LLU"]

/-- This is an integer constant of C. -/
structure IntegerConstant where
  radix : Radix
  digits : List Char
  suffix : String
  legalDigits : ∀ digit ∈ digits, digit ∈ radix.digitChars
  admitted : radix.Admits digits
  legalSuffix : suffix ∈ integerSuffixes

namespace IntegerConstant

open EssentialType EssentialTypeAnalyzer EssentialTypeEngine

variable (constant : IntegerConstant)

def body : List Char := constant.radix.lead ++ constant.digits

def text : String := String.ofList (constant.body ++ constant.suffix.toList)

def value : Nat := digitsValue constant.radix.base constant.digits

def lowerSuffix : List Char := constant.suffix.toList.map Char.toLower

def isUnsigned : Bool := constant.lowerSuffix.contains 'u'

def isLong : Bool := constant.lowerSuffix.contains 'l'

/-- The type has the sign of the constant, it can represent its value, and it is as long as the suffix asks. -/
def Fits (type : EssentialType) : Prop :=
  ∃ limit, (type, limit) ∈ candidates constant.isUnsigned ∧ (constant.value : Int) ≤ limit ∧
    (constant.isLong = true → rank signedLong ≤ rank type)

structure IsLeast (type : EssentialType) : Prop where
  fits : constant.Fits type
  least : ∀ other, constant.Fits other → rank type ≤ rank other

/-- This is the largest value of the `int` of the sign. -/
def intLimit : Nat := if constant.isUnsigned then 0xFFFFFFFF else 0x7FFFFFFF

end IntegerConstant

end MisraPlatform
