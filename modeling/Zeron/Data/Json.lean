import Mathlib

namespace Zeron.Data

/-! # JSON values

The values registry fields hold, and the compact text both `serde_json` and
`JSON.stringify` print for them.  Numbers are the integers the registry writes
(epoch milliseconds, counters, generations).
-/

inductive Json where
  | null
  | bool (value : Bool)
  | number (value : Int)
  | string (value : String)
  | array (items : List Json)
  | object (entries : List (String × Json))
deriving Inhabited

namespace Json

mutual
def decEq : (left right : Json) → Decidable (left = right)
  | .null, other => match other with
    | .null => .isTrue rfl
    | .bool _ | .number _ | .string _ | .array _ | .object _ => .isFalse nofun
  | .bool a, other => match other with
    | .bool b => decidable_of_iff (a = b) (by simp)
    | .null | .number _ | .string _ | .array _ | .object _ => .isFalse nofun
  | .number a, other => match other with
    | .number b => decidable_of_iff (a = b) (by simp)
    | .null | .bool _ | .string _ | .array _ | .object _ => .isFalse nofun
  | .string a, other => match other with
    | .string b => decidable_of_iff (a = b) (by simp)
    | .null | .bool _ | .number _ | .array _ | .object _ => .isFalse nofun
  | .array a, other => match other with
    | .array b => @decidable_of_iff _ (a = b) (by simp) (decEqItems a b)
    | .null | .bool _ | .number _ | .string _ | .object _ => .isFalse nofun
  | .object a, other => match other with
    | .object b => @decidable_of_iff _ (a = b) (by simp) (decEqEntries a b)
    | .null | .bool _ | .number _ | .string _ | .array _ => .isFalse nofun

def decEqItems : (left right : List Json) → Decidable (left = right)
  | [], [] => .isTrue rfl
  | a :: as, b :: bs =>
      @decidable_of_iff _ (a = b ∧ as = bs) (by simp)
        (@instDecidableAnd _ _ (decEq a b) (decEqItems as bs))
  | [], _ :: _ | _ :: _, [] => .isFalse (by simp)

def decEqEntries : (left right : List (String × Json)) → Decidable (left = right)
  | [], [] => .isTrue rfl
  | (k, a) :: as, (l, b) :: bs =>
      @decidable_of_iff _ (k = l ∧ a = b ∧ as = bs) (by simp [and_assoc])
        (@instDecidableAnd _ _ _ (@instDecidableAnd _ _ (decEq a b) (decEqEntries as bs)))
  | [], _ :: _ | _ :: _, [] => .isFalse (by simp)
end

instance : DecidableEq Json := decEq

/-- `Value::is_null`. -/
def isNull : Json → Bool
  | .null => true
  | _ => false

/-- What a field write stores: `null` clears the field. -/
def stored (value : Json) : Option Json := if value.isNull then none else some value

/-- `typeof v === "number" ? v : undefined`. -/
def num : Option Json → Option Int
  | some (.number value) => some value
  | _ => none

/-- `typeof v === "string" ? v : undefined`. -/
def str : Option Json → Option String
  | some (.string value) => some value
  | _ => none

/-! ## Compact text -/

def numberText : Int → List Char
  | .ofNat value => Nat.toDigits 10 value
  | .negSucc value => '-' :: Nat.toDigits 10 (value + 1)

/-- Both printers escape the quote, the backslash and the C0 controls, and
print every other character as it is. -/
def escape (c : Char) : List Char :=
  if c = '"' then ['\\', '"']
  else if c = '\\' then ['\\', '\\']
  else if c = '\n' then ['\\', 'n']
  else if c = '\r' then ['\\', 'r']
  else if c = '\t' then ['\\', 't']
  else if c.toNat = 8 then ['\\', 'b']
  else if c.toNat = 12 then ['\\', 'f']
  else if c.toNat < 32 then
    ['\\', 'u', '0', '0', Nat.digitChar (c.toNat / 16), Nat.digitChar (c.toNat % 16)]
  else [c]

def quote (text : String) : List Char := '"' :: (text.toList.flatMap escape ++ ['"'])

mutual
def render : Json → List Char
  | .null => "null".toList
  | .bool true => "true".toList
  | .bool false => "false".toList
  | .number value => numberText value
  | .string value => quote value
  | .array items => '[' :: (renderItems items ++ [']'])
  | .object entries => '\x7b' :: (renderEntries entries ++ ['\x7d'])

def renderItems : List Json → List Char
  | [] => []
  | [item] => render item
  | item :: rest => render item ++ ',' :: renderItems rest

def renderEntries : List (String × Json) → List Char
  | [] => []
  | [(key, value)] => quote key ++ ':' :: render value
  | (key, value) :: rest => quote key ++ ':' :: render value ++ ',' :: renderEntries rest
end

end Json

/-! ## Text sizes

Rust measures a text in UTF-8 bytes, JavaScript in UTF-16 code units.
-/

def utf8Length (text : List Char) : Nat := (text.map Char.utf8Size).sum

def utf16Size (c : Char) : Nat := if c.toNat ≤ 0xFFFF then 1 else 2

def utf16Length (text : List Char) : Nat := (text.map utf16Size).sum

theorem utf16Size_le_utf8Size (c : Char) : utf16Size c ≤ c.utf8Size := by
  have positive := c.utf8Size_pos
  unfold utf16Size
  split
  · omega
  · rename_i wide
    have large : ¬ c.val ≤ 127 := fun small => wide (by
      have := UInt32.le_iff_toNat_le.mp small
      simp only [Char.toNat]
      exact this.trans (by decide))
    have notOne : c.utf8Size ≠ 1 := fun one => large (Char.utf8Size_eq_one_iff.mp one)
    omega

theorem utf16Length_le_utf8Length (text : List Char) : utf16Length text ≤ utf8Length text := by
  induction text with
  | nil => exact Nat.le_refl _
  | cons c rest ih =>
      have width := utf16Size_le_utf8Size c
      simp only [utf16Length, utf8Length, List.map_cons, List.sum_cons] at *
      omega

end Zeron.Data
