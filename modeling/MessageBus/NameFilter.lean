import Mathlib.Tactic

/-!
# Names of players

`CStrTool::CheckValidNameGBK` of `mmlib/util/util.cpp`.  A name is a sequence of
single bytes and of GBK characters of two bytes; what is not allowed in a name
is replaced by something of the same length.  Both replacements are allowed
themselves, and read in the same way as what they replace, so that a second pass
finds nothing to do.
-/

namespace MessageBus.NameFilter

/-- The bytes in front of a NUL. -/
abbrev Text := List UInt8

def maxCheckNameLen : ℕ := 1024

def underscore : UInt8 := 95

/-- The single bytes of a name: digits, letters and the underscore. -/
def isNameChar (now : UInt8) : Bool :=
  (48 ≤ now ∧ now ≤ 57) ∨ (65 ≤ now ∧ now ≤ 90) ∨ (97 ≤ now ∧ now ≤ 122) ∨
    now = underscore

/-- The five regions of GBK. -/
def isGbk (now next : UInt8) : Bool :=
  (0xA1 ≤ now ∧ now ≤ 0xA9 ∧ 0xA1 ≤ next ∧ next ≤ 0xFE) ∨
    (0xB0 ≤ now ∧ now ≤ 0xF7 ∧ 0xA1 ≤ next ∧ next ≤ 0xFE) ∨
    (0x81 ≤ now ∧ now ≤ 0xA0 ∧ 0x40 ≤ next ∧ next ≤ 0xFE) ∨
    (0xAA ≤ now ∧ now ≤ 0xFE ∧ 0x40 ≤ next ∧ next ≤ 0xA0) ∨
    (0xA8 ≤ now ∧ now ≤ 0xA9 ∧ 0x40 ≤ next ∧ next ≤ 0xA0)

/-- The GBK characters that a name must not have. -/
def isForbidden (now next : UInt8) : Bool :=
  (now = 0xA1 ∧ next = 0xA1) ∨ (now = 0xA1 ∧ next = 0xB2) ∨
    (now = 0xA1 ∧ next = 0xB3) ∨ (now = 0xA3 ∧ next = 0xA8) ∨
    (now = 0xA3 ∧ next = 0xA9) ∨ (now = 0xA9 ∧ next = 0x76) ∨
    (now = 0xA9 ∧ next = 0x77) ∨ (now = 0xA9 ∧ next = 0x7A) ∨
    (now = 0xA9 ∧ next = 0x7B) ∨
    (now = 0xA8 ∧ 0xA1 ≤ next ∧ next ≤ 0xC0) ∨
    (0x81 ≤ now ∧ now ≤ 0xA0 ∧ next = 0x7F) ∨
    (0xAA ≤ now ∧ now ≤ 0xFE ∧ next = 0x7F) ∨
    (0xA8 ≤ now ∧ now ≤ 0xA9 ∧ next = 0x7F)

/-- A byte alone, with whether it is allowed. -/
def single (now : UInt8) : Bool × Text :=
  if now < 0x80 ∧ isNameChar now then (true, [now]) else (false, [underscore])

/-- A GBK character, with whether it is allowed; the other is the square. -/
def double (now next : UInt8) : Bool × Text :=
  if isForbidden now next then (false, [0xA1, 0xF5]) else (true, [now, next])

/-- The end of a round of the loop, when `iStrLen` bytes have been written. -/
def endRound (iStrLen : ℕ) (character later : Bool × Text) : Bool × Text :=
  if maxCheckNameLen ≤ iStrLen then (false, character.2)
  else (character.1 && later.1, character.2 ++ later.2)

/-- The loop, with what it returns and writes from here on.  Behind the last
byte stands the NUL, which is the second byte of no GBK character. -/
def checkLoop : ℕ → Text → Bool × Text
  | _, [] => (true, [])
  | iStrLen, [now] => endRound (iStrLen + 1) (single now) (true, [])
  | iStrLen, now :: next :: rest =>
      if 0x80 ≤ now ∧ isGbk now next then
        endRound (iStrLen + 2) (double now next) (checkLoop (iStrLen + 2) rest)
      else
        endRound (iStrLen + 1) (single now)
          (checkLoop (iStrLen + 1) (next :: rest))

/-- `CheckValidNameGBK`; of the output only whether its pointer is NULL. -/
def checkValidNameGBK (pszInStr : Option Text) (pszOutStr : Bool) :
    Bool × Option Text :=
  match pszInStr, pszOutStr with
  | some name, true => ((checkLoop 0 name).1, some (checkLoop 0 name).2)
  | _, _ => (false, none)

/-! ## What is written -/

theorem not_isGbk_nul (now : UInt8) : isGbk now 0 = false := by
  simp [isGbk]

theorem single_underscore : single underscore = (true, [underscore]) := by
  decide

theorem double_square : double 0xA1 0xF5 = (true, [0xA1, 0xF5]) := by decide

theorem isGbk_square : isGbk 0xA1 0xF5 = true := by decide

/-- A byte is either kept or replaced by an underscore that is not that byte. -/
theorem single_cases (now : UInt8) :
    single now = (true, [now]) ∨
      single now = (false, [underscore]) ∧ now ≠ underscore := by
  unfold single
  split_ifs with hname
  · exact Or.inl rfl
  · refine Or.inr ⟨rfl, ?_⟩
    rintro rfl
    exact hname (by decide)

theorem double_cases (now next : UInt8) :
    double now next = (true, [now, next]) ∨
      double now next = (false, [0xA1, 0xF5]) ∧
        ¬ (now = 0xA1 ∧ next = 0xF5) := by
  unfold double
  split_ifs with hforbidden
  · refine Or.inr ⟨rfl, ?_⟩
    rintro ⟨rfl, rfl⟩
    exact absurd hforbidden (by decide)
  · exact Or.inl rfl

/-! ## The loop -/

section Loop

variable {iStrLen : ℕ} {now next : UInt8} {rest : Text}

/-- A byte that is allowed alone stays alone, whatever follows. -/
theorem checkLoop_single (hnow : single now = (true, [now])) :
    checkLoop iStrLen (now :: rest) =
      endRound (iStrLen + 1) (true, [now]) (checkLoop (iStrLen + 1) rest) := by
  have hsmall : ¬ 0x80 ≤ now := by
    intro hle
    unfold single at hnow
    rw [if_neg (fun hname => UInt8.not_lt.mpr hle hname.1)] at hnow
    cases hnow
  cases rest with
  | nil => simp only [checkLoop, hnow]
  | cons next rest =>
      rw [checkLoop, if_neg (fun hgbk => hsmall hgbk.1), hnow]

theorem checkLoop_double (hhigh : 0x80 ≤ now) (hgbk : isGbk now next = true)
    (hdouble : double now next = (true, [now, next])) :
    checkLoop iStrLen (now :: next :: rest) =
      endRound (iStrLen + 2) (true, [now, next])
        (checkLoop (iStrLen + 2) rest) := by
  rw [checkLoop, if_pos ⟨hhigh, hgbk⟩, hdouble]

end Loop

/-- What a pass over a name that fits leaves. -/
structure Cleans (iStrLen : ℕ) (name : Text) (answer : Bool × Text) : Prop where
  length_eq : answer.2.length = name.length
  kept_iff : answer.1 = true ↔ answer.2 = name
  again : checkLoop iStrLen answer.2 = (true, answer.2)
  nul_notMem : 0 ∉ answer.2

/-- One more round in front. -/
theorem Cleans.endRound
    {iStrLen : ℕ} (head : Text) {name written : Text} {kept : Bool}
    {later : Bool × Text}
    (hlater : Cleans (iStrLen + head.length) name later)
    (hroom : iStrLen + head.length < maxCheckNameLen)
    (hlength : written.length = head.length)
    (hkept : kept = true ↔ written = head)
    (hagain : ∀ rest, checkLoop iStrLen (written ++ rest) =
      NameFilter.endRound (iStrLen + head.length) (true, written)
        (checkLoop (iStrLen + head.length) rest))
    (hnul : 0 ∉ written) :
    Cleans iStrLen (head ++ name)
      (NameFilter.endRound (iStrLen + head.length) (kept, written) later) := by
  have hround : ∀ character after, NameFilter.endRound
      (iStrLen + head.length) character after =
        (character.1 && after.1, character.2 ++ after.2) := by
    intro character after
    exact if_neg (by omega)
  rw [hround]
  constructor
  · simp only [List.length_append, hlength, hlater.length_eq]
  · rw [Bool.and_eq_true, hkept, hlater.kept_iff]
    constructor
    · rintro ⟨rfl, hrest⟩
      rw [hrest]
    · intro hsame
      exact List.append_inj hsame hlength
  · rw [hagain, hround, hlater.again]
    rfl
  · simp only [List.mem_append, not_or]
    exact ⟨hnul, hlater.nul_notMem⟩

theorem Cleans.single
    {iStrLen : ℕ} {now : UInt8} {name : Text} {later : Bool × Text}
    (hlater : Cleans (iStrLen + 1) name later)
    (hroom : iStrLen + 1 < maxCheckNameLen) :
    Cleans iStrLen (now :: name)
      (NameFilter.endRound (iStrLen + 1) (single now) later) := by
  rcases single_cases now with hkept | ⟨hreplaced, hne⟩
  · rw [hkept]
    refine Cleans.endRound [now] hlater hroom rfl (by simp) ?_ ?_
    · intro rest
      exact checkLoop_single hkept
    · rw [List.mem_singleton]
      rintro rfl
      exact absurd hkept (by decide)
  · rw [hreplaced]
    refine Cleans.endRound [now] hlater hroom rfl ?_ ?_ (by decide)
    · simp [hne.symm]
    · intro rest
      exact checkLoop_single single_underscore

theorem Cleans.double
    {iStrLen : ℕ} {now next : UInt8} {name : Text} {later : Bool × Text}
    (hlater : Cleans (iStrLen + 2) name later)
    (hroom : iStrLen + 2 < maxCheckNameLen)
    (hhigh : 0x80 ≤ now) (hgbk : isGbk now next = true) :
    Cleans iStrLen (now :: next :: name)
      (NameFilter.endRound (iStrLen + 2) (double now next) later) := by
  rcases double_cases now next with hkept | ⟨hreplaced, hne⟩
  · rw [hkept]
    refine Cleans.endRound [now, next] hlater hroom rfl (by simp) ?_ ?_
    · intro rest
      exact checkLoop_double hhigh hgbk hkept
    · have hnow : now ≠ 0 := by
        rintro rfl
        exact absurd hhigh (by decide)
      have hnext : next ≠ 0 := by
        rintro rfl
        rw [not_isGbk_nul] at hgbk
        cases hgbk
      simp [hnow.symm, hnext.symm]
  · rw [hreplaced]
    refine Cleans.endRound [now, next] hlater hroom rfl ?_ ?_ (by decide)
    · simp only [Bool.false_eq_true, false_iff]
      intro hsame
      simp only [List.cons.injEq, and_true] at hsame
      exact hne ⟨hsame.1.symm, hsame.2.symm⟩
    · intro rest
      exact checkLoop_double (by decide) isGbk_square double_square

theorem checkLoop_cleans (iStrLen : ℕ) (name : Text)
    (hfits : iStrLen + name.length < maxCheckNameLen) :
    Cleans iStrLen name (checkLoop iStrLen name) := by
  induction iStrLen, name using checkLoop.induct with
  | case1 iStrLen => exact ⟨rfl, by simp [checkLoop], rfl, by simp [checkLoop]⟩
  | case2 iStrLen now =>
      have hend : Cleans (iStrLen + 1) [] (true, []) :=
        ⟨rfl, by simp, rfl, by simp⟩
      exact hend.single hfits
  | case3 iStrLen now next rest hgbk ih =>
      simp only [List.length_cons] at hfits
      rw [checkLoop, if_pos hgbk]
      exact (ih (by omega)).double (by omega) hgbk.1 hgbk.2
  | case4 iStrLen now next rest hgbk ih =>
      simp only [List.length_cons] at hfits ih
      rw [checkLoop, if_neg hgbk]
      exact (ih (by omega)).single (by omega)

/-- A name that fits is cleaned to one of the same length, which is the name
itself exactly if it is reported valid, and which is valid. -/
theorem clean_name_stays (name : Text) (hfits : name.length < 1024) :
    ∃ valid cleaned, checkValidNameGBK (some name) true =
        (valid, some cleaned) ∧
      cleaned.length = name.length ∧ 0 ∉ cleaned ∧
      (valid = true ↔ cleaned = name) ∧
      checkValidNameGBK (some cleaned) true = (true, some cleaned) := by
  have hcleans := checkLoop_cleans 0 name (by simpa [maxCheckNameLen] using hfits)
  refine ⟨_, _, rfl, hcleans.length_eq, hcleans.nul_notMem, hcleans.kept_iff, ?_⟩
  simp only [checkValidNameGBK, hcleans.again]

/-- Half a character in front of a letter, and a bracket that is not allowed. -/
theorem clean_name_stays_four :
    ∃ valid cleaned, checkValidNameGBK (some [0x81, 0x30, 0xA1, 0xA1]) true =
        (valid, some cleaned) ∧
      cleaned.length = 4 ∧ 0 ∉ cleaned ∧
      (valid = true ↔ cleaned = [0x81, 0x30, 0xA1, 0xA1]) ∧
      checkValidNameGBK (some cleaned) true = (true, some cleaned) :=
  clean_name_stays [0x81, 0x30, 0xA1, 0xA1] (by decide)

example : checkValidNameGBK (some [0x81, 0x30, 0xA1, 0xA1]) true =
    (false, some [95, 0x30, 0xA1, 0xF5]) := by
  decide

end MessageBus.NameFilter
