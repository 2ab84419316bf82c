import Mathlib.Data.List.Chain
import Stochastic.Json.Parser
import Stochastic.Proofs.Json.Numeral

/-!
# Tokens that read back

The text of a list of tokens is cut into the same tokens again.  Brackets, commas, colons and
quotes mark their own end.  Words and numbers end only where something else starts, so two of
them must not stand side by side.

## Main definitions

* `Token.Readable` — numbers that keep to the grammar, and texts that have a reading.
* `Token.Apart` — two tokens that may stand side by side.

## Main results

* `Token.scanUnits_escape` — an escaped character is read as the character.
* `Token.scan_chars` — tokens that are readable and apart are read back.
-/

namespace Stochastic.Token

open Decimal Decimal.Numeral

variable {rest : List Char}

/-! ## Quoted texts -/

/-- Reads four hexadecimal digits. -/
def hexRead? : List Char → Option Nat
  | [a, b, c, d] => code? a b c d
  | _ => none

/-- The codes of the control characters are read back. -/
theorem hexRead?_hexCode : ∀ n < 32, hexRead? (hexCode n) = some n := by decide

theorem scanUnits_hexCode {c : Char} (h : c.toNat < 32) :
    scanUnits ('\\' :: 'u' :: hexCode c.toNat ++ rest) =
      (scanUnits rest).map fun p => (.char c :: p.1, p.2) := by
  have hread := hexRead?_hexCode c.toNat h
  unfold hexRead? at hread
  split at hread
  · rename_i a b d e hcode
    -- such a code is no half of a surrogate pair
    have hhigh : isHigh c.toNat = false := by simp [isHigh]; omega
    have hlow : isLow c.toNat = false := by simp [isLow]; omega
    rw [hcode]
    change scanUnits ('\\' :: 'u' :: a :: b :: d :: e :: rest) = _
    rw [scanUnits, hread]
    cases scanUnits rest <;> simp [hhigh, hlow]
  · cases hread

theorem scanUnits_letter {e c : Char} (he : escaped? e = some c) (hu : e ≠ 'u') :
    scanUnits ('\\' :: e :: rest) = (scanUnits rest).map fun p => (.char c :: p.1, p.2) := by
  rw [scanUnits]
  · cases scanUnits rest <;> simp [he]
  · simp [hu]

/-- A character is read back from its spelling inside quotes. -/
theorem scanUnits_escape (c : Char) (rest : List Char) :
    scanUnits (escape c ++ rest) = (scanUnits rest).map fun p => (.char c :: p.1, p.2) := by
  by_cases hquote : c = '"'
  · subst hquote
    exact scanUnits_letter rfl (by decide)
  by_cases hback : c = '\\'
  · subst hback
    exact scanUnits_letter rfl (by decide)
  by_cases hn : c = '\n'
  · subst hn
    exact scanUnits_letter rfl (by decide)
  by_cases hr : c = '\r'
  · subst hr
    exact scanUnits_letter rfl (by decide)
  by_cases ht : c = '\t'
  · subst ht
    exact scanUnits_letter rfl (by decide)
  by_cases hb : c = '\x08'
  · subst hb
    exact scanUnits_letter rfl (by decide)
  by_cases hf : c = '\x0c'
  · subst hf
    exact scanUnits_letter rfl (by decide)
  rw [escape, if_neg hquote, if_neg hback, if_neg hn, if_neg hr, if_neg ht, if_neg hb, if_neg hf]
  by_cases hcontrol : c.toNat < 0x20
  · rw [if_pos hcontrol]
    exact scanUnits_hexCode hcontrol
  · -- any other character stands for itself
    rw [if_neg hcontrol, List.singleton_append, scanUnits]
    · cases scanUnits rest <;> simp [hcontrol, hback]
    all_goals simp [hquote, hback]

theorem scanUnits_quoted (cs rest : List Char) :
    scanUnits (cs.flatMap escape ++ '"' :: rest) = some (cs.map .char, rest) := by
  induction cs with
  | nil => rfl
  | cons c cs ih => simp [List.append_assoc, scanUnits_escape, ih]

theorem unitChars?_map_char (cs : List Char) : unitChars? (cs.map .char) = some cs := by
  induction cs with
  | nil => rfl
  | cons c cs ih => simp [unitChars?, ih]

/-! ## The tokens one by one -/

/-- The rest of a text does not go on with a letter or a part of a number. -/
def Ends (rest : List Char) : Prop := ∀ c ∈ rest.head?, ¬ isNumeric c ∧ ¬ c.isAlpha

theorem scan_text (s : String) (rest : List Char) :
    scan ((Token.text (some s)).chars ++ rest) = (.text (some s) :: ·) <$> scan rest := by
  have hquoted := scanUnits_quoted s.toList rest
  have hchars : (Token.text (some s)).chars ++ rest =
      '"' :: (s.toList.flatMap escape ++ '"' :: rest) := by
    change '"' :: (s.toList.flatMap escape ++ ['"']) ++ rest = _
    simp
  rw [hchars, scan, if_neg (by decide), if_pos rfl]
  split
  · rename_i h
    rw [hquoted] at h
    cases h
  · rename_i units tail h
    rw [hquoted] at h
    obtain ⟨rfl, rfl⟩ : s.toList.map .char = units ∧ rest = tail := by simpa using h
    simp [unitChars?_map_char]

theorem scan_symbol {c : Char} {t : Token} (h : ofChar? c = some t) (rest : List Char) :
    scan (c :: rest) = (t :: ·) <$> scan rest := by
  -- a symbol is neither a blank, nor a quote, nor the start of a number
  have hother : isBlank c = false ∧ c ≠ '"' ∧ (c.isDigit || c = '-') = false := by
    unfold ofChar? at h
    split_ifs at h <;> subst_vars <;> decide
  rw [scan, if_neg (by simp [hother.1]), if_neg hother.2.1, if_neg (by simp [hother.2.2])]
  simp [h]

theorem scan_word {cs : List Char} {t : Token} (h : ofWord? cs = some t) (hrest : Ends rest) :
    scan (cs ++ rest) = (t :: ·) <$> scan rest := by
  -- a word starts with a letter that starts no other token, and has only letters
  obtain ⟨c, cs, rfl, hother, halpha⟩ : ∃ c ds, cs = c :: ds ∧ (isBlank c = false ∧ c ≠ '"' ∧
      (c.isDigit || c = '-') = false ∧ ofChar? c = none) ∧ ∀ d ∈ ds, d.isAlpha := by
    unfold ofWord? at h
    split_ifs at h <;> subst_vars <;> exact ⟨_, _, rfl, by decide, List.all_eq_true.1 (by decide)⟩
  have hrun := takeWhile_run halpha fun d hd => (hrest d hd).2
  rw [List.cons_append, scan, if_neg (by simp [hother.1]), if_neg hother.2.1,
    if_neg (by simp [hother.2.2.1])]
  simp [hother.2.2.2, hrun.1, hrun.2, h]

theorem isNumeric_of_isDigit {c : Char} (h : c.isDigit) : isNumeric c := by simp [isNumeric, h]

theorem isNumeric_of_mem_fractionChars {n : Numeral} (h : n.Proper) :
    ∀ c ∈ n.fractionChars, isNumeric c := by
  intro c hc
  unfold fractionChars at hc
  split at hc
  · cases hc
  · obtain rfl | hc := List.mem_cons.1 hc
    · decide
    · exact isNumeric_of_isDigit (h.fraction c hc)

theorem isNumeric_of_mem_exponentChars {n : Numeral} (h : n.Proper) :
    ∀ c ∈ n.exponentChars, isNumeric c := by
  intro c hc
  unfold exponentChars at hc
  split at hc
  · cases hc
  · rename_i e he
    obtain rfl | hc := List.mem_cons.1 hc
    · decide
    · obtain ⟨sign, ds, rfl, hsign, hds⟩ := h.exponent e he
      have hsigns : ∀ sign ∈ [[], ['+'], ['-']], ∀ c ∈ sign, isNumeric c := by simp [isNumeric]
      obtain hc | hc := List.mem_append.1 hc
      · exact hsigns sign hsign c hc
      · exact isNumeric_of_isDigit (hds.2 c hc)

theorem isNumeric_of_mem_chars {n : Numeral} (h : n.Proper) : ∀ c ∈ n.chars, isNumeric c := by
  intro c hc
  rw [chars_eq] at hc
  simp only [List.mem_append] at hc
  obtain hc | hc | hc | hc := hc
  · obtain ⟨-, rfl⟩ : n.negative ∧ c = '-' := by simpa using hc
    decide
  · exact isNumeric_of_isDigit (h.whole.2 c hc)
  · exact isNumeric_of_mem_fractionChars h c hc
  · exact isNumeric_of_mem_exponentChars h c hc

theorem scan_number {n : Numeral} (h : n.Proper) (hrest : Ends rest) :
    scan (n.chars ++ rest) = (.number n :: ·) <$> scan rest := by
  have hnumeric := isNumeric_of_mem_chars h
  have hread := ofChars?_chars h
  -- the first character is a digit or a minus sign
  obtain ⟨c, cs, hchars, hstart⟩ : ∃ c cs, n.chars = c :: cs ∧ (c.isDigit || c = '-') := by
    obtain ⟨d, ds, hwhole⟩ := List.exists_cons_of_ne_nil h.whole.1
    rw [chars_eq]
    split
    · exact ⟨_, _, rfl, by decide⟩
    · exact ⟨d, _, by rw [hwhole]; rfl, by simp [h.whole.2 d (by simp [hwhole])]⟩
  have hother : isBlank c = false ∧ c ≠ '"' := by
    obtain hdigit | rfl : c.isDigit ∨ c = '-' := by simpa using hstart
    · refine ⟨?_, ne_of_isDigit hdigit (by decide)⟩
      simp [isBlank, ne_of_isDigit hdigit]
    · decide
  rw [hchars] at hnumeric hread ⊢
  have hrun := takeWhile_run (fun d hd => hnumeric d (List.mem_cons_of_mem c hd))
    fun d hd => (hrest d hd).1
  rw [List.cons_append, scan, if_neg (by simp [hother.1]), if_neg hother.2, if_pos hstart]
  simp [hrun.1, hrun.2, hread]

/-! ## Lists of tokens -/

/-- Numbers that keep to the grammar, and texts that have a reading. -/
def Readable : Token → Prop
  | .number n => n.Proper
  | .text s => s.isSome
  | _ => True

/-- Words and numbers do not mark their own end. -/
def isBare : Token → Bool
  | .null | .bool _ | .number _ => true
  | _ => false

/-- Two tokens that may stand side by side. -/
def Apart (t u : Token) : Prop := t.isBare → ¬ u.isBare

theorem apart_left {t u : Token} (h : ¬ t.isBare) : Apart t u := fun ht => absurd ht h

theorem apart_right {t u : Token} (h : ¬ u.isBare) : Apart t u := fun _ => h

/-- A token that is not bare starts with a character that ends words and numbers. -/
theorem ends_chars {t : Token} (h : ¬ t.isBare) (rest : List Char) : Ends (t.chars ++ rest) := by
  cases t with
  | null | bool _ | number _ => exact absurd rfl h
  | text s =>
    rintro c ⟨⟩
    decide
  | _ =>
    rintro c ⟨⟩
    decide

theorem scan_token {t : Token} (h : t.Readable) (hrest : t.isBare → Ends rest) :
    scan (t.chars ++ rest) = (t :: ·) <$> scan rest := by
  cases t with
  | text s =>
    obtain ⟨s, rfl⟩ := Option.isSome_iff_exists.1 h
    exact scan_text s rest
  | number n => exact scan_number h (hrest rfl)
  | null => exact scan_word rfl (hrest rfl)
  | bool b => cases b <;> exact scan_word rfl (hrest rfl)
  | openArray | closeArray | openObject | closeObject | comma | colon => exact scan_symbol rfl rest

/-- Tokens are read back from their characters. -/
theorem scan_chars {ts : List Token} (h : ∀ t ∈ ts, t.Readable) (hapart : ts.IsChain Apart) :
    scan (ts.flatMap chars) = some ts := by
  induction ts with
  | nil => rw [List.flatMap_nil, scan]
  | cons t ts ih =>
    have hrest : t.isBare → Ends (ts.flatMap chars) := by
      intro ht
      cases ts with
      | nil => simp [Ends]
      | cons u ts => exact ends_chars ((List.isChain_cons_cons.1 hapart).1 ht) _
    rw [List.flatMap_cons, scan_token (h t (by simp)) hrest,
      ih (fun u hu => h u (by simp [hu])) hapart.tail]
    rfl

end Stochastic.Token
