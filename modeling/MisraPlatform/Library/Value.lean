import Mathlib.Data.List.Basic

/-
This file is the values of a dynamic language that nest lists and dictionaries.
-/

namespace MisraPlatform

inductive Value where
  | text (value : String)
  | number (value : Nat)
  | flag (value : Bool)
  | list (items : List Value)
  | dict (entries : List (String × Value))

namespace Value

/-- Only a dictionary has keys. -/
def get (value : Value) (key : String) : Option Value :=
  match value with
  | dict entries => entries.lookup key
  | _ => none

/-- A missing dictionary is empty. -/
def getDict (value : Value) (key : String) : Value := (value.get key).getD (dict [])

def getText (value : Value) (key default : String) : String :=
  match value.get key with
  | some (text found) => found
  | _ => default

def getNumber (value : Value) (key : String) (default : Nat) : Nat :=
  match value.get key with
  | some (number found) => found
  | _ => default

def getList (value : Value) (key : String) : List Value :=
  match value.get key with
  | some (list items) => items
  | _ => []

/-- An absent value is false, and so are the empty and the zero ones. -/
def truthy (value : Value) (key : String) : Bool :=
  match value.get key with
  | none => false
  | some (text found) => found ≠ ""
  | some (number found) => found ≠ 0
  | some (flag found) => found
  | some (list items) => !items.isEmpty
  | some (dict entries) => !entries.isEmpty

/-- The items that are no text are left out. -/
def texts (items : List Value) : List String :=
  items.filterMap fun item =>
    match item with
    | text found => some found
    | _ => none

def textEntries (value : Value) : List (String × String) :=
  match value with
  | dict entries => entries.filterMap fun entry =>
      match entry.2 with
      | text found => some (entry.1, found)
      | _ => none
  | _ => []

def flagEntries (value : Value) : List (String × Bool) :=
  match value with
  | dict entries => entries.filterMap fun entry =>
      match entry.2 with
      | flag found => some (entry.1, found)
      | _ => none
  | _ => []

@[simp] theorem get_dict (entries : List (String × Value)) (key : String) :
    (dict entries).get key = entries.lookup key := rfl

@[simp] theorem texts_map (items : List String) : texts (items.map text) = items := by
  unfold texts
  rw [List.filterMap_map]
  exact List.filterMap_some

@[simp] theorem textEntries_map (entries : List (String × String)) :
    textEntries (dict (entries.map fun entry => (entry.1, text entry.2))) = entries := by
  unfold textEntries
  dsimp only
  rw [List.filterMap_map]
  exact List.filterMap_some

@[simp] theorem flagEntries_map (entries : List (String × String)) :
    flagEntries (dict (entries.map fun entry => (entry.1, text entry.2))) = [] := by
  unfold flagEntries
  dsimp only
  rw [List.filterMap_map, List.filterMap_eq_nil_iff]
  exact fun _ _ => rfl

theorem get_texts_ne_number (entries : List (String × String)) {key : String} {value : Nat} :
    (dict (entries.map fun entry => (entry.1, text entry.2))).get key ≠ some (number value) := by
  induction entries with
  | nil => simp
  | cons entry rest ih =>
      simp only [get_dict, List.map_cons, List.lookup_cons] at ih ⊢
      split
      · simp
      · exact ih

end Value
end MisraPlatform
