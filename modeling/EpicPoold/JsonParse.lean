import EpicPoold.Foundations.JsonPrint
import EpicPoold.Json

/-! JSON lines as values, with their numbers kept as the library keeps them. -/

namespace EpicPoold

open Foundations Foundations.JsonText

def integerOf (n : Int) : Number :=
  if inRange : -2 ^ 63 ≤ n ∧ n < 2 ^ 64 then .integer n inRange else .double

def numberOf (text : List UInt8) : Number :=
  if text.all isNumeric then integerOf (decimalValue text)
  else if text.headD 0 = 0x2d ∧ text.tail.all isNumeric then integerOf (-decimalValue text.tail)
  else .double

mutual

def valueOf : Doc → Value
  | .null => .null
  | .bool b => .bool b
  | .number text => .number (numberOf text)
  | .string text => .string text
  | .array items => .array (valuesOf items)
  | .object members => .object (membersOf members)

def valuesOf : List Doc → List Value
  | [] => []
  | item :: rest => valueOf item :: valuesOf rest

def membersOf : List (List UInt8 × Doc) → List (List UInt8 × Value)
  | [] => []
  | (key, item) :: rest => (key, valueOf item) :: membersOf rest

end

def parseJson (text : List UInt8) : Option Value := (JsonText.parse text).map valueOf

def lineOf (doc : Doc) : List UInt8 := doc.print ++ [0x0a]

theorem cstr_of_visible {text : List UInt8} (visible : Visible text) : cstr text = text := by
  apply cstr_of_nonzero
  rintro b among rfl
  exact absurd (visible 0 among) (by decide)

theorem findIdx_lineOf {doc : Doc} (printable : Printable doc) :
    (lineOf doc).findIdx? (· = 0x0a) = some doc.print.length := by
  have none : doc.print.findIdx? (· = 0x0a) = none := by
    rw [List.findIdx?_eq_none_iff]
    intro b among
    refine decide_eq_false ?_
    rintro rfl
    exact absurd (printable.visible 0x0a among) (by decide)
  have newline : [(0x0a : UInt8)].findIdx? (· = 0x0a) = some 0 := by decide
  rw [lineOf, List.findIdx?_append, none, newline, Option.none_or, Option.map_some, Nat.zero_add]

theorem parse_firstLine {doc : Doc} (printable : Printable doc) :
    parseJson (cstr ((lineOf doc).take doc.print.length)) = some (valueOf doc) := by
  rw [lineOf, List.take_left, cstr_of_visible printable.visible, parseJson, parse_print printable]
  rfl

theorem parse_lineOf {doc : Doc} (printable : Printable doc) :
    parseJson (cstr (lineOf doc).dropLast) = some (valueOf doc) := by
  have first := parse_firstLine printable
  rw [lineOf, List.take_left] at first
  rw [lineOf, List.dropLast_concat, first]

end EpicPoold
