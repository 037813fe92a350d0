import Sentora.Eol.CpeOrder
import Sentora.Library.CpeNames

/-!
# The identity of CPE products

What becomes of the vendor and the product of a CPE name on its way from the dictionary
(`domains/library/adapters/nist_cpe.py`) through the library to the table of products
(`cpe_to_eol_product` of `domains/eol/matching.py`).
-/

namespace Sentora.Eol

open Library

/-- Letters, digits, dots, hyphens and underscores. -/
def cpeWordChar (c : Char) : Bool := c.isAlphanum || ['.', '-', '_'].contains c

/-- A vendor or a product of these characters. -/
structure CpeWord (s : String) : Prop where
  ne_empty : s ≠ ""
  chars : ∀ c ∈ s.toList, cpeWordChar c = true

/-- `str.lower` on ASCII. -/
def LowersAscii (text : Text) : Prop :=
  ∀ s, (∀ c ∈ s.toList, c.toNat < 128) → text.lower s = String.ofList (s.toList.map Char.toLower)

section Words

variable {c : Char} {s vendor product vendor' product' : String} {text : Text}

theorem isAscii_of_cpeWordChar (h : cpeWordChar c = true) : c.toNat < 128 := by
  unfold cpeWordChar at h
  rw [Bool.or_eq_true] at h
  rcases h with h | h
  · unfold Char.isAlphanum Char.isAlpha Char.isUpper Char.isLower Char.isDigit at h
    simp only [Bool.or_eq_true, Bool.and_eq_true, decide_eq_true_eq, ge_iff_le,
      UInt32.le_iff_toNat_le] at h
    have hval : c.toNat = c.val.toNat := rfl
    have hbounds : 'Z'.val.toNat = 90 ∧ 'z'.val.toNat = 122 ∧ '9'.val.toNat = 57 := by decide
    omega
  · simp only [List.contains_iff_mem, List.mem_cons, List.not_mem_nil, or_false] at h
    rcases h with rfl | rfl | rfl <;> decide

/-- What such a character is not, also in lower case. -/
structure WordChar (c : Char) : Prop where
  ascii : c.toNat < 128
  plain : c ∉ [':', '\\', '*', ' ']
  lower_word : cpeWordChar c.toLower = true
  lower_lower : c.toLower.toLower = c.toLower
  lower_underscore : c.toLower = '_' ↔ c = '_'

theorem wordChar_of (h : cpeWordChar c = true) : WordChar c := by
  have hall : ∀ n < 128, cpeWordChar (Char.ofNat n) = true →
      Char.ofNat n ∉ [':', '\\', '*', ' '] ∧ cpeWordChar (Char.ofNat n).toLower = true ∧
        (Char.ofNat n).toLower.toLower = (Char.ofNat n).toLower ∧
        ((Char.ofNat n).toLower = '_' ↔ Char.ofNat n = '_') := by
    decide
  have hascii := isAscii_of_cpeWordChar h
  have hchar := hall c.toNat hascii (by rw [Char.ofNat_toNat]; exact h)
  rw [Char.ofNat_toNat] at hchar
  obtain ⟨hplain, hlower, htwice, hunderscore⟩ := hchar
  exact ⟨hascii, hplain, hlower, htwice, hunderscore⟩

def lowered (s : String) : String := String.ofList (s.toList.map Char.toLower)

theorem CpeWord.lower_eq (h : CpeWord s) (hlower : LowersAscii text) :
    text.lower s = lowered s :=
  hlower s fun c hc => (wordChar_of (h.chars c hc)).ascii

theorem CpeWord.not_mem (h : CpeWord s) (hc : c ∈ [':', '\\', '*', ' ']) : c ∉ s.toList :=
  fun hmem => (wordChar_of (h.chars c hmem)).plain hc

theorem CpeWord.cpeClean_eq (h : CpeWord s) : cpeClean s = cpeSpaced s := by
  refine removeChar_of_not_mem fun hc => ?_
  exact h.not_mem (by decide) ((mem_toList_cpeSpaced_iff (by decide) (by decide)).mp hc)

variable {version : String} {attributes : List String}

variable {py : Python} {titles : List CpeTitle}

end Words

/-- `str` on ASCII. -/
def asciiPython : Python := ⟨⟨⟨lowered, fun a b => a == b⟩, id, id, fun s => [s]⟩, Char.isDigit⟩

end Sentora.Eol
