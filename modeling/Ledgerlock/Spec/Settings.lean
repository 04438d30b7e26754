import Ledgerlock.Config
import Ledgerlock.Spec.Provisioning

/-!
# Ledgerlock.Spec.Settings

What `Settings` makes of a comma-separated `SUPPORTED_CURRENCIES`, and whether the
service can start with it.

`str.isalpha` accepts the letters of every script, the account model only A to Z. So an
accepted setting is as good as it should be (`UsableSetting`) unless all its codes are
three letters and one of the letters is another one (`usableSetting_iff`).
-/

namespace Ledgerlock

open Interleave (Run)
open Text (trim trimmed_trim FirstOccurrences)

/-- The comma-separated parts of a text that are not blank, stripped and upper-cased. -/
def currencyParts (data : CharacterData) (s : String) : List String :=
  (((splitAtCommas s).map strip).filter fun part => part ≠ "").map data.upperStr

/-- The text is accepted if it lists codes as the account model has them and only then;
the value is what it lists, each once; the joined value is the same setting; and the
boundary accounts of an accepted setting can be made. -/
structure UsableSetting (data : CharacterData) (loads : String → Except String (List String))
    (repr : String → String) (s : String) : Prop where
  accepted_iff : (∃ codes, supportedCurrencies data loads repr (.text s) = .ok codes) ↔
    currencyParts data s ≠ [] ∧ ∀ part ∈ currencyParts data s, isCurrencyCode part = true
  value : ∀ codes, supportedCurrencies data loads repr (.text s) = .ok codes →
    FirstOccurrences (currencyParts data s) codes
  reparsed : ∀ codes, supportedCurrencies data loads repr (.text s) = .ok codes →
    supportedCurrencies data loads repr (.text (joinWithCommas codes)) = .ok codes
  provisions : ∀ codes, supportedCurrencies data loads repr (.text s) = .ok codes →
    ∀ currency ∈ codes, ∀ x, ∃ account, systemAccountDocument currency x = .ok account

/-! ### Text -/

/-- The parts of a text are those of the stripped text, once they are stripped too. -/
theorem map_strip_splitAtCommas (s : String) :
    (splitAtCommas (strip s)).map strip = (splitAtCommas s).map strip := by
  have hstrip : strip ∘ String.ofList = String.ofList ∘ trim isSpace := funext strip_ofList
  rw [splitAtCommas, splitAtCommas, List.map_map, List.map_map, hstrip, ← List.map_map,
    ← List.map_map, toList_strip, Text.splitOn_trim (by decide)]

theorem isUpper_iff {c : Char} : c.isUpper = true ↔ 65 ≤ c.toNat ∧ c.toNat ≤ 90 := by
  show decide (65 ≤ c.val ∧ c.val ≤ 90) = true ↔ _
  rw [decide_eq_true_eq, UInt32.le_iff_toNat_le, UInt32.le_iff_toNat_le]
  rfl

theorem isLower_iff {c : Char} : c.isLower = true ↔ 97 ≤ c.toNat ∧ c.toNat ≤ 122 := by
  show (decide (97 ≤ c.val) && decide (c.val ≤ 122)) = true ↔ _
  rw [Bool.and_eq_true, decide_eq_true_eq, decide_eq_true_eq, UInt32.le_iff_toNat_le,
    UInt32.le_iff_toNat_le]
  rfl

theorem isAlpha_iff {c : Char} : c.isAlpha = true ↔ c.isUpper = true ∨ c.isLower = true := by
  show (c.isUpper || c.isLower) = true ↔ _
  rw [Bool.or_eq_true]

section Data

variable {data : CharacterData}

theorem CharacterData.upperStr_upperStr (s : String) :
    data.upperStr (data.upperStr s) = data.upperStr s := by
  rw [← String.toList_inj]
  simp only [upperStr, String.toList_ofList, List.flatMap_assoc]
  refine List.flatMap_congr fun c _ => ?_
  calc (data.upper c).flatMap data.upper
      = (data.upper c).flatMap fun u => [u] := List.flatMap_congr (data.upper_upper c)
    _ = data.upper c := List.flatMap_singleton' _

theorem CharacterData.strip_upperStr_strip (s : String) :
    strip (data.upperStr (strip s)) = data.upperStr (strip s) := by
  rw [← String.toList_inj, toList_strip, upperStr, String.toList_ofList, toList_strip]
  exact ((trimmed_trim isSpace s.toList).flatMap data.upper_ne_nil data.upper_space).trim_eq

/-- A part is not changed when it is stripped and upper-cased once more. -/
theorem normalise_of_mem_currencyParts {s part : String} (h : part ∈ currencyParts data s) :
    data.upperStr (strip part) = part := by
  obtain ⟨stripped, hstripped, rfl⟩ := List.mem_map.mp h
  obtain ⟨field, -, rfl⟩ := List.mem_map.mp (List.mem_of_mem_filter hstripped)
  rw [data.strip_upperStr_strip, data.upperStr_upperStr]

theorem isAlpha_of_isThreeLetters {code : String} (h : isThreeLetters data code = true) :
    code.toList.length = 3 ∧ ∀ c ∈ code.toList, data.isAlpha c = true := by
  simp only [isThreeLetters, CharacterData.isAlphaStr, Bool.and_eq_true, beq_iff_eq,
    List.all_eq_true] at h
  exact ⟨h.1, h.2.2⟩

theorem CharacterData.not_isSpace_of_isAlpha {c : Char} (h : data.isAlpha c = true) :
    isSpace c = false := by
  by_contra hspace
  rw [data.isAlpha_space c (by simpa using hspace)] at h
  cases h

/-- Neither a comma nor a bracket is a letter. -/
theorem CharacterData.ne_of_isAlpha {c : Char} (h : data.isAlpha c = true) : c ≠ ',' ∧ c ≠ '[' := by
  constructor
  · rintro rfl
    rw [data.isAlpha_ascii ',' (by decide)] at h
    exact absurd h (by decide)
  · rintro rfl
    rw [data.isAlpha_ascii '[' (by decide)] at h
    exact absurd h (by decide)

/-- A code of the account model is three letters. -/
theorem isThreeLetters_of_isCurrencyCode {code : String} (h : isCurrencyCode code = true) :
    isThreeLetters data code = true := by
  simp only [isCurrencyCode, Bool.and_eq_true, beq_iff_eq, List.all_eq_true] at h
  have hne : code ≠ "" := by
    rintro rfl
    cases h.1
  simp only [isThreeLetters, CharacterData.isAlphaStr, Bool.and_eq_true, beq_iff_eq,
    List.all_eq_true, decide_eq_true_eq, ne_eq]
  refine ⟨h.1, hne, fun c hc => ?_⟩
  have hupper := h.2 c hc
  simp only [isUpperAscii, Bool.and_eq_true, decide_eq_true_eq, Char.le_def,
    UInt32.le_iff_toNat_le] at hupper
  have hascii : c.toNat < 128 := lt_of_le_of_lt hupper.2 (by decide)
  rw [data.isAlpha_ascii c hascii, isAlpha_iff, isUpper_iff]
  exact .inl hupper

/-! ### The validators -/

variable {loads : String → Except String (List String)} {repr : String → String}

/-- Before the coercion, the text is cut into its parts. -/
theorem parseCurrencyList_text {s : String} (h : (strip s).toList.head? ≠ some '[') :
    parseCurrencyList data loads (.text s) = .ok (currencyParts data s) := by
  show (if _ then _ else _) = _
  rw [if_neg h, currencyParts, ← map_strip_splitAtCommas, List.filter_map, List.map_map]
  rfl

/-- After it, three letters are all that is asked of a code. -/
theorem validateCurrencyCodes_eq_ok {value codes : List String}
    (hnormal : ∀ code ∈ value, data.upperStr (strip code) = code) :
    validateCurrencyCodes data repr value = .ok codes ↔
      value ≠ [] ∧ (∀ code ∈ value, isThreeLetters data code = true) ∧
        codes = value.eraseDups := by
  have hvalue : (value.map fun code => data.upperStr (strip code)) = value :=
    (List.map_congr_left hnormal).trans (List.map_id value)
  simp only [validateCurrencyCodes, hvalue]
  by_cases hnone : value = []
  · simp [hnone]
  · rw [if_neg hnone]
    cases hbad : value.find? fun code => !isThreeLetters data code with
    | some code =>
        have hcode := List.find?_some hbad
        have hmem := List.mem_of_find?_eq_some hbad
        refine iff_of_false (by simp) fun h => ?_
        simp [h.2.1 code hmem] at hcode
    | none =>
        have hall : ∀ code ∈ value, isThreeLetters data code = true := by
          simpa using List.find?_eq_none.mp hbad
        simp only [Except.ok.injEq]
        exact ⟨fun h => ⟨hnone, hall, h.symm⟩, fun h => h.2.2.symm⟩

/-- What is accepted, and its value. -/
theorem supportedCurrencies_eq_ok {s : String} (h : (strip s).toList.head? ≠ some '[')
    {codes : List String} : supportedCurrencies data loads repr (.text s) = .ok codes ↔
      currencyParts data s ≠ [] ∧
        (∀ part ∈ currencyParts data s, isThreeLetters data part = true) ∧
        codes = (currencyParts data s).eraseDups := by
  rw [supportedCurrencies, parseCurrencyList_text h]
  exact validateCurrencyCodes_eq_ok fun part hpart => normalise_of_mem_currencyParts hpart

/-! ### The joined value -/

section Joined

variable {codes : List String}

theorem toList_joinWithCommas (codes : List String) :
    (joinWithCommas codes).toList = [','].intercalate (codes.map String.toList) := by
  rw [joinWithCommas, String.toList_intercalate]
  rfl

/-- In joined codes there is nothing but commas and letters. -/
theorem strip_joinWithCommas (hcodes : ∀ code ∈ codes, isThreeLetters data code = true) :
    strip (joinWithCommas codes) = joinWithCommas codes ∧
      (joinWithCommas codes).toList.head? ≠ some '[' := by
  have hchars : ∀ c ∈ (joinWithCommas codes).toList, c = ',' ∨ data.isAlpha c = true := by
    intro c hc
    rw [toList_joinWithCommas] at hc
    rcases Text.mem_intercalate hc with rfl | ⟨l, hl, hc⟩
    · exact .inl rfl
    · obtain ⟨code, hcode, rfl⟩ := List.mem_map.mp hl
      exact .inr ((isAlpha_of_isThreeLetters (hcodes code hcode)).2 c hc)
  constructor
  · refine strip_eq_self fun c hc => ?_
    rcases hchars c hc with rfl | halpha
    · decide
    · exact data.not_isSpace_of_isAlpha halpha
  · intro hhead
    rcases hchars '[' (List.mem_of_mem_head? hhead) with hcomma | halpha
    · exact absurd hcomma (by decide)
    · exact (data.ne_of_isAlpha halpha).2 rfl

theorem currencyParts_joinWithCommas (hne : codes ≠ [])
    (hcodes : ∀ code ∈ codes, isThreeLetters data code = true)
    (hnormal : ∀ code ∈ codes, data.upperStr (strip code) = code) :
    currencyParts data (joinWithCommas codes) = codes := by
  have hstrip : ∀ code ∈ codes, strip code = code := fun code hcode =>
    strip_eq_self fun c hc =>
      data.not_isSpace_of_isAlpha ((isAlpha_of_isThreeLetters (hcodes code hcode)).2 c hc)
  have hfields : splitAtCommas (joinWithCommas codes) = codes := by
    have hcommas : ∀ l ∈ codes.map String.toList, ',' ∉ l := by
      intro l hl hcomma
      obtain ⟨code, hcode, rfl⟩ := List.mem_map.mp hl
      have halpha := (isAlpha_of_isThreeLetters (hcodes code hcode)).2 ',' hcomma
      exact (data.ne_of_isAlpha halpha).1 rfl
    rw [splitAtCommas, toList_joinWithCommas,
      List.splitOn_intercalate ',' hcommas (by simpa using hne), List.map_map]
    simp
  have hnonblank : ∀ code ∈ codes, code ≠ "" := by
    rintro _ hcode rfl
    cases (isAlpha_of_isThreeLetters (hcodes _ hcode)).1
  rw [currencyParts, hfields, (List.map_congr_left hstrip).trans (List.map_id codes),
    List.filter_eq_self.mpr (by simpa using hnonblank)]
  refine (List.map_congr_left fun code hcode => ?_).trans (List.map_id codes)
  rw [← hstrip code hcode]
  exact (hnormal code hcode).trans (hstrip code hcode).symm

/-- A value, joined, is accepted as the same value. -/
theorem supportedCurrencies_joinWithCommas {s : String}
    (h : (strip s).toList.head? ≠ some '[')
    (hok : supportedCurrencies data loads repr (.text s) = .ok codes) :
    supportedCurrencies data loads repr (.text (joinWithCommas codes)) = .ok codes := by
  obtain ⟨hne, hletters, hcodes⟩ := (supportedCurrencies_eq_ok h).mp hok
  have hkept : FirstOccurrences (currencyParts data s) codes :=
    hcodes ▸ Text.firstOccurrences_eraseDups _
  have hthree : ∀ code ∈ codes, isThreeLetters data code = true := fun code hcode =>
    hletters code ((hkept.mem_iff code).mp hcode)
  have hsome : codes ≠ [] := by
    obtain ⟨part, hpart⟩ := List.exists_mem_of_ne_nil _ hne
    exact List.ne_nil_of_mem ((hkept.mem_iff part).mpr hpart)
  obtain ⟨hstrip, hhead⟩ := strip_joinWithCommas hthree
  rw [supportedCurrencies_eq_ok (hstrip.symm ▸ hhead), currencyParts_joinWithCommas hsome hthree
    fun code hcode => normalise_of_mem_currencyParts ((hkept.mem_iff code).mp hcode)]
  exact ⟨hsome, hthree, (Text.eraseDups_of_nodup hkept.nodup).symm⟩

end Joined

/-- A comma-separated setting is usable unless all that it lists is three letters each and
some of it is not a code of the account model. -/
theorem usableSetting_iff {s : String} (h : (strip s).toList.head? ≠ some '[') :
    UsableSetting data loads repr s ↔
      ((∀ part ∈ currencyParts data s, isThreeLetters data part = true) →
        ∀ part ∈ currencyParts data s, isCurrencyCode part = true) := by
  constructor
  · intro husable hletters part hpart
    exact (husable.accepted_iff.mp
      ⟨_, (supportedCurrencies_eq_ok h).mpr ⟨List.ne_nil_of_mem hpart, hletters, rfl⟩⟩).2 part hpart
  · intro hcond
    refine ⟨⟨fun ⟨codes, hok⟩ => ?_, fun ⟨hne, hcodes⟩ => ?_⟩, fun codes hok => ?_, fun codes hok =>
      supportedCurrencies_joinWithCommas h hok, fun codes hok currency hcurrency x => ?_⟩
    · obtain ⟨hne, hletters, -⟩ := (supportedCurrencies_eq_ok h).mp hok
      exact ⟨hne, hcond hletters⟩
    · exact ⟨_, (supportedCurrencies_eq_ok h).mpr
        ⟨hne, fun part hpart => isThreeLetters_of_isCurrencyCode (hcodes part hpart), rfl⟩⟩
    · obtain ⟨-, -, rfl⟩ := (supportedCurrencies_eq_ok h).mp hok
      exact Text.firstOccurrences_eraseDups _
    · obtain ⟨-, hletters, rfl⟩ := (supportedCurrencies_eq_ok h).mp hok
      obtain ⟨account, haccount, -⟩ := systemAccountDocument_eq_ok
        (hcond hletters currency (List.mem_eraseDups.mp hcurrency)) x
      exact ⟨account, haccount⟩

end Data

/-! ### A letter of another alphabet -/

namespace Example

theorem toUpper_cases (c : Char) : c.toUpper.isUpper = true ∨ c.toUpper = c := by
  by_cases h : 'a'.val ≤ c.val ∧ c.val ≤ 'z'.val
  · have hbounds : 97 ≤ c.val.toNat ∧ c.val.toNat ≤ 122 :=
      ⟨UInt32.le_iff_toNat_le.mp h.1, UInt32.le_iff_toNat_le.mp h.2⟩
    have hupper : c.toUpper = ⟨c.val + ('A'.val - 'a'.val), _⟩ := dif_pos h
    have hval : c.toUpper.val.toNat = (c.val.toNat + 4294967264) % 4294967296 := by
      rw [hupper, UInt32.toNat_add]
      rfl
    refine .inl (isUpper_iff.mpr ?_)
    show 65 ≤ c.toUpper.val.toNat ∧ c.toUpper.val.toNat ≤ 90
    omega
  · exact .inr (dif_neg h)

theorem toUpper_of_isUpper {c : Char} (h : c.isUpper = true) : c.toUpper = c := by
  refine dif_neg fun hlower => ?_
  have hbounds : 97 ≤ c.toNat := UInt32.le_iff_toNat_le.mp hlower.1
  have hupper := isUpper_iff.mp h
  omega

/-- The letters: those of ASCII, and É. -/
def isLetter (c : Char) : Bool := c.isAlpha || c == 'É'

theorem isLetter_ascii (c : Char) (h : c.toNat < 128) : isLetter c = c.isAlpha := by
  have hne : c ≠ 'É' := by
    rintro rfl
    exact absurd h (by decide)
  simp [isLetter, hne]

theorem isLetter_space (c : Char) (h : isSpace c = true) : isLetter c = false := by
  by_contra hletter
  have hne : c ≠ 'É' := by
    rintro rfl
    exact absurd h (by decide)
  have halpha : c.isAlpha = true := by simpa [isLetter, hne] using hletter
  have hbounds : 32 < c.toNat ∧ c.toNat < 128 := by
    rw [isAlpha_iff, isUpper_iff, isLower_iff] at halpha
    omega
  rw [isSpace_eq_false hbounds] at h
  cases h

theorem toUpper_space (c : Char) (h : isSpace c = false) :
    ∀ u ∈ [c.toUpper], isSpace u = false := by
  intro u hu
  obtain rfl := List.mem_singleton.mp hu
  rcases toUpper_cases c with hupper | hupper
  · have hbounds := isUpper_iff.mp hupper
    exact isSpace_eq_false (by omega)
  · rwa [hupper]

theorem toUpper_toUpper (c : Char) : ∀ u ∈ [c.toUpper], [u.toUpper] = [u] := by
  intro u hu
  obtain rfl := List.mem_singleton.mp hu
  rcases toUpper_cases c with hupper | hupper
  · rw [toUpper_of_isUpper hupper]
  · rw [hupper, hupper]

/-- ASCII text and the letter É. -/
def characters : CharacterData where
  isAlpha := isLetter
  upper c := [c.toUpper]
  isAlpha_ascii := isLetter_ascii
  isAlpha_space := isLetter_space
  upper_ne_nil c := List.cons_ne_nil c.toUpper []
  upper_space := toUpper_space
  upper_upper := toUpper_toUpper

/-- No text in brackets is given. -/
def loads (_ : String) : Except String (List String) := .error "Expecting value"

def quoted (s : String) : String := "'" ++ s ++ "'"

/-- A replica that starts with the codes `USD` and `ÉUR`. -/
def accented : Interleave.Config Unit Database AccountStamp StartupError SystemAccountIds :=
  startup (fun _ => ["USD", "ÉUR"]) ⟨[], [], []⟩

/-- The account in USD is made, the one in ÉUR is refused. -/
theorem accented_stops : ∃ c, Run startupEnv accented [some (), some (), some (), some ()] c ∧
    c.prog () = .raise (.python (.validationError ["currency"])) := by
  refine ⟨_, .concat (.concat (.concat (.concat .nil (.act (x := ⟨0, 0, 4⟩) rfl ?_))
    (.act (x := ⟨0, 0, 4⟩) rfl ?_)) (.act (x := ⟨0, 0, 5⟩) rfl ?_))
    (.act (x := ⟨0, 0, 5⟩) rfl ?_), rfl⟩
  · exact fun a ha => absurd ha List.not_mem_nil
  · exact fun a ha => absurd ha List.not_mem_nil
  · decide
  · decide

/-- With `USD,ÉUR` the settings are accepted, and the start-up fails with them. -/
theorem accented_accepted :
    supportedCurrencies characters loads quoted (.text "USD,ÉUR") = .ok ["USD", "ÉUR"] ∧
      ¬ UsableSetting characters loads quoted "USD,ÉUR" ∧
      ∃ c, Run startupEnv accented [some (), some (), some (), some ()] c ∧
        c.prog () = .raise (.python (.validationError ["currency"])) := by
  have hok : supportedCurrencies characters loads quoted (.text "USD,ÉUR") =
      .ok ["USD", "ÉUR"] := rfl
  refine ⟨hok, fun husable => ?_, accented_stops⟩
  obtain ⟨account, haccount⟩ := husable.provisions _ hok "ÉUR" (by simp) ⟨0, 0, 0⟩
  cases haccount

end Example

/-- ` usd , EUR ,usd` is usable, and so is what it is read as. -/
theorem usableSetting_usd : UsableSetting Example.characters Example.loads Example.quoted
    " usd , EUR ,usd" :=
  (usableSetting_iff (by decide)).mpr (by decide)

end Ledgerlock
