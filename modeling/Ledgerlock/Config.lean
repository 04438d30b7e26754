import Ledgerlock.Routes

/-!
# Ledgerlock.Config

`SUPPORTED_CURRENCIES` in `core/config.py`: the two validators of
`Settings.supported_currencies`, one before and one after the value is coerced to a
list of strings.

They use `str.upper` and `str.isalpha`, which look characters up in the Unicode
character database. That is a parameter here (`CharacterData`), with what the
validators rely on.
-/

namespace Ledgerlock

/-- What Python's `str` methods take from the Unicode character database. -/
structure CharacterData where
  isAlpha : Char → Bool
  /-- The full upper-case mapping: `'ß'.upper()` is `'SS'`. -/
  upper : Char → List Char
  isAlpha_ascii : ∀ c, c.toNat < 128 → isAlpha c = c.isAlpha
  isAlpha_space : ∀ c, isSpace c = true → isAlpha c = false
  upper_ne_nil : ∀ c, upper c ≠ []
  upper_space : ∀ c, isSpace c = false → ∀ u ∈ upper c, isSpace u = false
  upper_upper : ∀ c, ∀ u ∈ upper c, upper u = [u]

/-- `str.upper` -/
def CharacterData.upperStr (data : CharacterData) (s : String) : String :=
  String.ofList (s.toList.flatMap data.upper)

/-- `str.isalpha` -/
def CharacterData.isAlphaStr (data : CharacterData) (s : String) : Bool :=
  s ≠ "" && s.toList.all data.isAlpha

/-- `str.split(",")` -/
def splitAtCommas (s : String) : List String := (s.toList.splitOn ',').map String.ofList

/-- `",".join` -/
def joinWithCommas (parts : List String) : String := String.intercalate "," parts

/-- What a setting is given as. -/
inductive CurrencySetting
  /-- The text of the environment variable, or of a keyword argument. -/
  | text (value : String)
  | list (value : List String)
  deriving Repr, DecidableEq

section Settings

/- `loads` is `json.loads`, and what pydantic makes of its result: a list of strings, or
the message of an error. `repr` is Python's. -/
variable (data : CharacterData) (loads : String → Except String (List String))
  (repr : String → String)

/-- `Settings.parse_currency_list` -/
def parseCurrencyList : CurrencySetting → Except String (List String)
  | .text value =>
      let stripped := strip value
      if stripped.toList.head? = some '[' then loads stripped
      else .ok (((splitAtCommas stripped).filter fun part => strip part ≠ "").map fun part =>
        data.upperStr (strip part))
  | .list value => .ok value

/-- The test of `validate_currency_codes`: `len(code) != 3 or not code.isalpha()` fails. -/
def isThreeLetters (code : String) : Bool := code.toList.length == 3 && data.isAlphaStr code

/-- `Settings.validate_currency_codes` -/
def validateCurrencyCodes (value : List String) : Except String (List String) :=
  if value = [] then .error "SUPPORTED_CURRENCIES must list at least one currency"
  else
    let normalised := value.map fun code => data.upperStr (strip code)
    match normalised.find? fun code => !isThreeLetters data code with
    | some code => .error (repr code ++ " is not a 3-letter ISO 4217 alphabetic currency code")
    -- `list(dict.fromkeys(normalised))`
    | none => .ok normalised.eraseDups

/-- `Settings(supported_currencies=...).supported_currencies` -/
def supportedCurrencies (setting : CurrencySetting) : Except String (List String) := do
  let value ← parseCurrencyList data loads setting
  validateCurrencyCodes data repr value

end Settings

end Ledgerlock
