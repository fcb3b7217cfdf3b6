import Mathlib.Data.List.Infix
import Mathlib.Tactic

/-!
# Texts for JSON

`CStrTool::FilterUtf8ForJson` of `mmlib/util/util.cpp`.  It keeps the forms of
UTF-8 in a text, escapes quotation marks and backslashes and turns five of the
control characters into blanks; the others go through.  The text is counted with
an `int`.
-/

namespace MessageBus.JsonFilter

abbrev Text := List UInt8

def intMax : ℤ := 2147483647

/-- The conversion of a `size_t` to an `int`. -/
def asInt (number : ℕ) : ℤ := Int.bmod number (2 ^ 32)

def quote : UInt8 := 34
def backslash : UInt8 := 92

/-- The control characters with a case of their own: backspace, tabulator, line
feed, form feed and carriage return. -/
def isBlanked (c : UInt8) : Bool := c = 8 ∨ c = 9 ∨ c = 10 ∨ c = 12 ∨ c = 13

def isSpecial (c : UInt8) : Bool := c = quote ∨ c = backslash

/-- What is written for a byte of ASCII. -/
def asciiOut (c : UInt8) : Text :=
  if isBlanked c then [32] else if isSpecial c then [backslash, c] else [c]

/-- The number of bytes that follow the first byte of a form. -/
def formBytes (c : UInt8) : Option ℕ :=
  if c &&& 0xE0 = 0xC0 then some 1
  else if c &&& 0xF0 = 0xE0 then some 2
  else if c &&& 0xF8 = 0xF0 then some 3
  else if c &&& 0xFC = 0xF8 then some 4
  else if c &&& 0xFE = 0xFC then some 5
  else none

def isFollowing (c : UInt8) : Bool := c &&& 0xC0 = 0x80

/-- The loop from `i` on.  The sum of three `int`s that is compared with the
length may not exceed an `int`. -/
def filterLoop (strIn : Text) (nStrLen : ℤ) : ℕ → ℕ → Option Text
  | 0, _ => none
  | fuel + 1, i =>
      if nStrLen ≤ i then some []
      else
        let c := strIn.getD i 0
        if c < 0x80 then
          (filterLoop strIn nStrLen fuel (i + 1)).map (asciiOut c ++ ·)
        else
          match formBytes c with
          | none => filterLoop strIn nStrLen fuel (i + 1)
          | some nBytes =>
              if intMax < nBytes + i + 1 then none
              else if nStrLen < nBytes + i + 1 then
                filterLoop strIn nStrLen fuel (i + 1)
              else if ((strIn.drop (i + 1)).take nBytes).all isFollowing then
                (filterLoop strIn nStrLen fuel (i + nBytes + 1)).map
                  ((strIn.drop i).take (1 + nBytes) ++ ·)
              else filterLoop strIn nStrLen fuel (i + 1)

def filterUtf8ForJson (strIn : Text) : Option Text :=
  filterLoop strIn (asInt strIn.length) (strIn.length + 1) 0

/-! ## What the result should be -/

/-- One of the forms that the comment lists. -/
def IsForm (form : Text) : Prop :=
  (∃ c < 0x80, form = [c]) ∨
    ∃ c following, form = c :: following ∧
      formBytes c = some following.length ∧ following.all isFollowing

/-- A sequence of forms. -/
inductive Forms : Text → Prop where
  | nil : Forms []
  | cons {form rest : Text} : IsForm form → Forms rest → Forms (form ++ rest)

/-- The bytes behind the backslashes of a text without other quotation marks
and backslashes. -/
def escapes : Text → Option (List UInt8)
  | [] => some []
  | [c] => if isSpecial c then none else some []
  | c :: next :: rest =>
      if c = backslash then
        if isSpecial next then (escapes rest).map (next :: ·) else none
      else if isSpecial c then none
      else escapes (next :: rest)

/-- Nothing in the text is to be changed. -/
structure Clean (text : Text) : Prop where
  forms : Forms text
  printable : ∀ c ∈ text, 0x20 ≤ c
  plain : ∀ c ∈ text, isSpecial c = false

/-- The result is safe as the content of a string of JSON. -/
structure SafeFor (strIn strOut : Text) : Prop where
  forms : Forms strOut
  printable : ∀ c ∈ strOut, 0x20 ≤ c
  escaped : escapes strOut = some (strIn.filter isSpecial)
  kept : Clean strIn → strOut = strIn

/-! ## The text that is seen -/

/-- The part of the text that the loop runs over. -/
def seen (strIn : Text) : Text := strIn.take (asInt strIn.length).toNat

/-- The loop on a text of any length, with sums of any size. -/
def filtered : Text → Text
  | [] => []
  | c :: rest =>
      if c < 0x80 then asciiOut c ++ filtered rest
      else
        match formBytes c with
        | none => filtered rest
        | some nBytes =>
            if nBytes ≤ rest.length ∧ (rest.take nBytes).all isFollowing then
              c :: rest.take nBytes ++ filtered (rest.drop nBytes)
            else filtered rest
termination_by text => text.length
decreasing_by all_goals simp only [List.length_cons, List.length_drop]; omega

/-! ## Bytes -/

section Bytes

variable {c mask value : UInt8} {n : ℕ}

theorem le_of_and_eq (heq : c &&& mask = value) : value ≤ c := by
  rw [← heq, UInt8.le_iff_toNat_le, UInt8.toNat_and]
  exact Nat.and_le_left

theorem high_of_isFollowing (hfollowing : isFollowing c = true) : 0x80 ≤ c :=
  le_of_and_eq (of_decide_eq_true hfollowing)

theorem first_of_formBytes (hbytes : formBytes c = some n) : 0xC0 ≤ c := by
  have hhigh : ∀ {value mask : UInt8}, 0xC0 ≤ value → c &&& mask = value →
      0xC0 ≤ c :=
    fun hle heq => UInt8.le_trans hle (le_of_and_eq heq)
  unfold formBytes at hbytes
  split_ifs at hbytes with h1 h2 h3 h4 h5
  · exact hhigh (by decide) h1
  · exact hhigh (by decide) h2
  · exact hhigh (by decide) h3
  · exact hhigh (by decide) h4
  · exact hhigh (by decide) h5

theorem high_of_formBytes (hbytes : formBytes c = some n) : 0x80 ≤ c :=
  UInt8.le_trans (by decide) (first_of_formBytes hbytes)

theorem formBytes_le (hbytes : formBytes c = some n) : n ≤ 5 := by
  unfold formBytes at hbytes
  split_ifs at hbytes <;>
    · obtain rfl := Option.some.inj hbytes
      decide

theorem low_of_isFollowing (hfollowing : isFollowing c = true) : c < 0xC0 := by
  have hall : ∀ number < 256, number &&& 0xC0 = 0x80 → number < 0xC0 := by
    decide +kernel
  have hmask : c &&& 0xC0 = 0x80 := of_decide_eq_true hfollowing
  have hnat := congrArg UInt8.toNat hmask
  rw [UInt8.toNat_and] at hnat
  exact UInt8.lt_iff_toNat_lt.mpr (hall c.toNat c.toNat_lt hnat)

theorem not_formBytes_of_isFollowing (hfollowing : isFollowing c = true) :
    formBytes c ≠ some n := by
  intro hbytes
  exact UInt8.not_lt.mpr (first_of_formBytes hbytes)
    (low_of_isFollowing hfollowing)

theorem plain_of_high (hhigh : 0x80 ≤ c) : isSpecial c = false := by
  apply decide_eq_false
  rintro (rfl | rfl) <;> exact absurd hhigh (by decide)

theorem printable_of_high (hhigh : 0x80 ≤ c) : 0x20 ≤ c :=
  UInt8.le_trans (by decide) hhigh

theorem isForm_ascii (hlow : c < 0x80) : IsForm [c] := Or.inl ⟨c, hlow, rfl⟩

end Bytes

/-! ## Escapes -/

section Escapes

variable {c : UInt8} {text rest : Text}

theorem escapes_plain (hplain : isSpecial c = false) :
    escapes (c :: rest) = escapes rest := by
  have hne : c ≠ backslash := by
    rintro rfl
    exact absurd hplain (by decide)
  cases rest with
  | nil => simp [escapes, hplain]
  | cons next rest => rw [escapes, if_neg hne, if_neg (by simp [hplain])]

theorem escapes_append (hplain : ∀ c ∈ text, isSpecial c = false) :
    escapes (text ++ rest) = escapes rest := by
  induction text with
  | nil => rfl
  | cons c text ih =>
      rw [List.cons_append, escapes_plain (hplain c List.mem_cons_self)]
      exact ih fun c hc => hplain c (List.mem_cons_of_mem _ hc)

theorem escapes_asciiOut (c : UInt8) (rest : Text) :
    escapes (asciiOut c ++ rest) =
      (escapes rest).map ([c].filter isSpecial ++ ·) := by
  unfold asciiOut
  split_ifs with hblanked hspecial
  · have hplain : isSpecial c = false := by
      apply decide_eq_false
      rintro (rfl | rfl) <;> exact absurd hblanked (by decide)
    rw [List.singleton_append, escapes_plain (by decide)]
    simp [hplain]
  · simp [escapes, hspecial]
  · rw [List.singleton_append, escapes_plain (by simpa using hspecial)]
    simp [hspecial]

end Escapes

/-! ## The loop on a text of any length -/

section Filtered

variable {c : UInt8} {text rest : Text} {n : ℕ}

theorem filtered_ascii (hlow : c < 0x80) :
    filtered (c :: rest) = asciiOut c ++ filtered rest := by
  rw [filtered, if_pos hlow]

theorem filtered_form (hbytes : formBytes c = some n)
    (hlen : n ≤ rest.length) (hall : (rest.take n).all isFollowing) :
    filtered (c :: rest) = c :: rest.take n ++ filtered (rest.drop n) := by
  rw [filtered, if_neg (UInt8.not_lt.mpr (high_of_formBytes hbytes)), hbytes]
  exact if_pos ⟨hlen, hall⟩

theorem filtered_skip (hhigh : ¬ c < 0x80)
    (hno : ∀ n, formBytes c = some n →
      ¬ (n ≤ rest.length ∧ (rest.take n).all isFollowing)) :
    filtered (c :: rest) = filtered rest := by
  rw [filtered, if_neg hhigh]
  split
  · rfl
  · rename_i n hbytes
    exact if_neg (hno n hbytes)

/-- The rounds of the loop: a byte of ASCII, a form that is kept, or a byte that
is left out. -/
theorem filtered_induction {motive : Text → Prop} (nil : motive [])
    (ascii : ∀ c rest, c < 0x80 → motive rest → motive (c :: rest))
    (form : ∀ c rest n, formBytes c = some n → n ≤ rest.length →
      (rest.take n).all isFollowing → motive (rest.drop n) →
      motive (c :: rest))
    (skip : ∀ c rest, ¬ c < 0x80 → (∀ n, formBytes c = some n →
        ¬ (n ≤ rest.length ∧ (rest.take n).all isFollowing)) →
      motive rest → motive (c :: rest))
    (text : Text) : motive text := by
  induction text using filtered.induct with
  | case1 => exact nil
  | case2 c rest hlow ih => exact ascii c rest hlow ih
  | case3 c rest hhigh hnone ih =>
      exact skip c rest hhigh (fun n hbytes => by simp [hnone] at hbytes) ih
  | case4 c rest hhigh n hbytes hfits ih =>
      exact form c rest n hbytes hfits.1 hfits.2 ih
  | case5 c rest hhigh n hbytes hfits ih =>
      refine skip c rest hhigh (fun m hm => ?_) ih
      rw [hbytes] at hm
      exact Option.some.inj hm ▸ hfits

theorem Forms.asciiOut_append (hlow : c < 0x80) (hrest : Forms rest) :
    Forms (asciiOut c ++ rest) := by
  have hblank : IsForm [32] := isForm_ascii (by decide)
  have hback : IsForm [backslash] := isForm_ascii (by decide)
  unfold asciiOut
  split_ifs
  · exact .cons hblank hrest
  · change Forms ([backslash] ++ ([c] ++ rest))
    exact .cons hback (.cons (isForm_ascii hlow) hrest)
  · exact .cons (isForm_ascii hlow) hrest

theorem forms_filtered (text : Text) : Forms (filtered text) := by
  induction text using filtered_induction with
  | nil =>
      rw [filtered]
      exact .nil
  | ascii c rest hlow ih =>
      rw [filtered_ascii hlow]
      exact ih.asciiOut_append hlow
  | form c rest n hbytes hlen hall ih =>
      rw [filtered_form hbytes hlen hall]
      refine .cons (Or.inr ⟨c, rest.take n, rfl, ?_, hall⟩) ih
      rw [hbytes, List.length_take, min_eq_left hlen]
  | skip c rest hhigh hno ih =>
      rw [filtered_skip hhigh hno]
      exact ih

/-- The bytes of a form of several bytes are no characters of ASCII. -/
theorem high_of_form (hbytes : formBytes c = some n)
    (hall : (rest.take n).all isFollowing) :
    ∀ b ∈ c :: rest.take n, 0x80 ≤ b := by
  intro b hb
  rcases List.mem_cons.mp hb with rfl | hb
  · exact high_of_formBytes hbytes
  · exact high_of_isFollowing (List.all_eq_true.mp hall b hb)

theorem escapes_filtered (text : Text) :
    escapes (filtered text) = some (text.filter isSpecial) := by
  induction text using filtered_induction with
  | nil => rw [filtered, escapes, List.filter_nil]
  | ascii c rest hlow ih =>
      rw [filtered_ascii hlow, escapes_asciiOut, ih, Option.map_some,
        ← List.filter_append, List.singleton_append]
  | form c rest n hbytes hlen hall ih =>
      have hplain : ∀ b ∈ c :: rest.take n, isSpecial b = false :=
        fun b hb => plain_of_high (high_of_form hbytes hall b hb)
      have hnone : (c :: rest.take n).filter isSpecial = [] := by
        rw [List.filter_eq_nil_iff]
        intro b hb
        simp [hplain b hb]
      rw [filtered_form hbytes hlen hall, escapes_append hplain, ih]
      conv_rhs => rw [← List.take_append_drop n rest, ← List.cons_append,
        List.filter_append, hnone, List.nil_append]
  | skip c rest hhigh hno ih =>
      have hplain := plain_of_high (UInt8.not_lt.mp hhigh)
      rw [filtered_skip hhigh hno, ih, List.filter_cons_of_neg (by simp [hplain])]

theorem mem_asciiOut_low {b : UInt8} (hlow : b < 0x20) :
    b ∈ asciiOut c ↔ b = c ∧ isBlanked c = false := by
  have hblank : b ≠ 32 := by
    rintro rfl
    exact absurd hlow (by decide)
  have hback : b ≠ backslash := by
    rintro rfl
    exact absurd hlow (by decide)
  unfold asciiOut
  split_ifs with hblanked hspecial
  · simp [hblank, hblanked]
  · simp [hback, hblanked]
  · simp [hblanked]

theorem mem_filtered_low {b : UInt8} (hlow : b < 0x20) :
    b ∈ filtered text ↔ b ∈ text ∧ isBlanked b = false := by
  have hnotHigh : ∀ {c : UInt8}, 0x80 ≤ c → b ≠ c := by
    rintro c hhigh rfl
    exact UInt8.not_le.mpr hlow (printable_of_high hhigh)
  induction text using filtered_induction with
  | nil => simp [filtered]
  | ascii c rest hc ih =>
      have hrest : b ∈ filtered rest ↔ b ∈ rest ∧ isBlanked b = false := ih
      rw [filtered_ascii hc, List.mem_append, mem_asciiOut_low hlow, hrest,
        List.mem_cons]
      constructor
      · rintro (⟨rfl, hblanked⟩ | ⟨hmem, hblanked⟩)
        · exact ⟨Or.inl rfl, hblanked⟩
        · exact ⟨Or.inr hmem, hblanked⟩
      · rintro ⟨rfl | hmem, hblanked⟩
        · exact Or.inl ⟨rfl, hblanked⟩
        · exact Or.inr ⟨hmem, hblanked⟩
  | form c rest n hbytes hlen hall ih =>
      have hhead : b ∉ c :: rest.take n :=
        fun hb => hnotHigh (high_of_form hbytes hall b hb) rfl
      have hrest : b ∈ filtered (rest.drop n) ↔
          b ∈ rest.drop n ∧ isBlanked b = false := ih
      rw [filtered_form hbytes hlen hall, List.mem_append, hrest]
      conv_rhs => rw [← List.take_append_drop n rest, ← List.cons_append,
        List.mem_append]
      simp only [hhead, false_or]
  | skip c rest hhigh hno ih =>
      have hne := hnotHigh (UInt8.not_lt.mp hhigh)
      have hrest : b ∈ filtered rest ↔ b ∈ rest ∧ isBlanked b = false := ih
      rw [filtered_skip hhigh hno, hrest, List.mem_cons]
      simp only [hne, false_or]

theorem printable_filtered_iff :
    (∀ c ∈ filtered text, 0x20 ≤ c) ↔
      ∀ c ∈ text, c < 0x20 → isBlanked c = true := by
  constructor
  · intro hprintable c hc hlow
    by_contra hblanked
    have hmem := (mem_filtered_low hlow).mpr ⟨hc, by simpa using hblanked⟩
    exact UInt8.not_le.mpr hlow (hprintable c hmem)
  · intro hblanked c hc
    by_contra hlow
    have hlow := UInt8.not_le.mp hlow
    obtain ⟨hmem, hno⟩ := (mem_filtered_low hlow).mp hc
    rw [hblanked c hmem hlow] at hno
    cases hno

/-! ## Texts that are clean already -/

theorem asciiOut_eq (hprintable : 0x20 ≤ c) (hplain : isSpecial c = false) :
    asciiOut c = [c] := by
  have hblanked : ¬ isBlanked c = true := by
    intro hblanked
    rcases of_decide_eq_true hblanked with rfl | rfl | rfl | rfl | rfl <;>
      exact absurd hprintable (by decide)
  unfold asciiOut
  rw [if_neg hblanked, if_neg (by simp [hplain])]

theorem filtered_eq_of_forms (hforms : Forms text)
    (hprintable : ∀ c ∈ text, 0x20 ≤ c)
    (hplain : ∀ c ∈ text, isSpecial c = false) : filtered text = text := by
  induction hforms with
  | nil => rw [filtered]
  | @cons first rest hform hrest ih =>
      have hlater : filtered rest = rest :=
        ih (fun c hc => hprintable c (List.mem_append_right _ hc))
          (fun c hc => hplain c (List.mem_append_right _ hc))
      rcases hform with ⟨c, hlow, rfl⟩ | ⟨c, following, rfl, hbytes, hall⟩
      · rw [List.singleton_append, filtered_ascii hlow, hlater,
          asciiOut_eq (hprintable c (by simp)) (hplain c (by simp)),
          List.singleton_append]
      · rw [List.cons_append, filtered_form hbytes (by simp) (by simpa using hall)]
        simp [hlater]

theorem length_filtered_le (hplain : ∀ c ∈ text, isSpecial c = false) :
    (filtered text).length ≤ text.length := by
  induction text using filtered_induction with
  | nil => simp [filtered]
  | ascii c rest hlow ih =>
      have hrest : (filtered rest).length ≤ rest.length :=
        ih fun c hc => hplain c (List.mem_cons_of_mem _ hc)
      have hone : (asciiOut c).length = 1 := by
        have hnot : ¬ isSpecial c = true := by
          simp [hplain c List.mem_cons_self]
        unfold asciiOut
        rw [if_neg hnot]
        split_ifs <;> rfl
      rw [filtered_ascii hlow, List.length_append, hone, List.length_cons]
      omega
  | form c rest n hbytes hlen hall ih =>
      have hrest : (filtered (rest.drop n)).length ≤ (rest.drop n).length :=
        ih fun c hc => hplain c (List.mem_cons_of_mem _ (List.mem_of_mem_drop hc))
      rw [List.length_drop] at hrest
      rw [filtered_form hbytes hlen hall, List.length_append, List.length_cons,
        List.length_take, List.length_cons]
      omega
  | skip c rest hhigh hno ih =>
      have hrest : (filtered rest).length ≤ rest.length :=
        ih fun c hc => hplain c (List.mem_cons_of_mem _ hc)
      rw [filtered_skip hhigh hno, List.length_cons]
      omega

end Filtered

/-! ## The loop of the source -/

section Loop

variable {strIn strOut : Text} {nStrLen : ℤ} {fuel i : ℕ}

theorem seen_drop (hle : nStrLen ≤ strIn.length) (hlt : (i : ℤ) < nStrLen) :
    (strIn.take nStrLen.toNat).drop i =
      strIn.getD i 0 :: (strIn.take nStrLen.toNat).drop (i + 1) := by
  have hi : i < (strIn.take nStrLen.toNat).length := by
    rw [List.length_take]
    omega
  have hin : i < strIn.length := by omega
  rw [List.drop_eq_getElem_cons hi, List.getElem_take,
    List.getD_eq_getElem?_getD, List.getElem?_eq_getElem hin, Option.getD_some]

/-- What the loop reads behind a first byte. -/
theorem seen_take {nBytes : ℕ} (hfits : (nBytes : ℤ) + i + 1 ≤ nStrLen) :
    ((strIn.take nStrLen.toNat).drop (i + 1)).take nBytes =
      (strIn.drop (i + 1)).take nBytes := by
  rw [List.drop_take, List.take_take, min_eq_left (by omega)]

/-- No sum that the loop compares with the length leaves an `int`. -/
def Counted (strIn : Text) (nStrLen : ℤ) (i : ℕ) : Prop :=
  ∀ j c nBytes, i ≤ j → (j : ℤ) < nStrLen → strIn[j]? = some c →
    formBytes c = some nBytes → (nBytes : ℤ) + j + 1 ≤ intMax

theorem Counted.later (hcounted : Counted strIn nStrLen i) {later : ℕ}
    (hle : i ≤ later) : Counted strIn nStrLen later :=
  fun j c nBytes hj => hcounted j c nBytes (hle.trans hj)

theorem filterLoop_eq (hle : nStrLen ≤ strIn.length) (hpos : 0 < fuel)
    (hfuel : nStrLen < i + fuel) (hcounted : Counted strIn nStrLen i) :
    filterLoop strIn nStrLen fuel i =
      some (filtered ((strIn.take nStrLen.toNat).drop i)) := by
  induction fuel generalizing i with
  | zero => omega
  | succ fuel ih =>
      unfold filterLoop
      push_cast at hfuel
      split_ifs with hend
      · rw [List.drop_eq_nil_of_le (by rw [List.length_take]; omega), filtered]
      · have hlt : (i : ℤ) < nStrLen := by omega
        have hlater : ∀ later, i < later → (later : ℤ) ≤ nStrLen →
            filterLoop strIn nStrLen fuel later =
              some (filtered ((strIn.take nStrLen.toNat).drop later)) :=
          fun later hi hin =>
            ih (by omega) (by omega) (hcounted.later (by omega))
        have hrest : ((strIn.take nStrLen.toNat).drop (i + 1)).length =
            nStrLen.toNat - (i + 1) := by
          rw [List.length_drop, List.length_take]
          omega
        have hnext := hlater (i + 1) (by omega) (by push_cast; omega)
        have hseen := seen_drop hle hlt
        dsimp only
        split_ifs with hlow
        · rw [hnext, hseen, filtered_ascii hlow, Option.map_some]
        · rw [hseen]
          split
          · rename_i hnone
            rw [hnext, filtered_skip hlow]
            intro n hbytes
            rw [hnone] at hbytes
            cases hbytes
          · rename_i nBytes hbytes
            have hget : strIn[i]? = some (strIn.getD i 0) := by
              rw [List.getD_eq_getElem?_getD,
                List.getElem?_eq_getElem (by omega : i < strIn.length),
                Option.getD_some]
            have hfits := hcounted i _ nBytes le_rfl hlt hget hbytes
            rw [if_neg (by omega)]
            split_ifs with hshort hall
            · rw [hnext, filtered_skip hlow]
              intro n hn
              obtain rfl : nBytes = n := Option.some.inj (hbytes.symm.trans hn)
              omega
            · have hin : (nBytes : ℤ) + i + 1 ≤ nStrLen := by omega
              have htake := @seen_take strIn nStrLen i nBytes hin
              rw [hlater (i + nBytes + 1) (by omega) (by push_cast; omega),
                filtered_form hbytes (by omega) (by rw [htake]; exact hall),
                htake, List.drop_drop, Option.map_some,
                List.drop_eq_getElem_cons (by omega : i < strIn.length),
                Nat.add_comm 1, List.take_succ_cons,
                show i + 1 + nBytes = i + nBytes + 1 by omega]
              congr 3
              rw [List.getD_eq_getElem?_getD,
                List.getElem?_eq_getElem (by omega : i < strIn.length),
                Option.getD_some]
            · rw [hnext, filtered_skip hlow]
              rintro n hn ⟨-, hallN⟩
              obtain rfl : nBytes = n := Option.some.inj (hbytes.symm.trans hn)
              rw [seen_take (by omega)] at hallN
              exact hall hallN

/-- The loop comes to every first byte of a form. -/
theorem counted_of_filterLoop
    (hloop : filterLoop strIn nStrLen fuel i = some strOut) :
    Counted strIn nStrLen i := by
  induction fuel generalizing i strOut with
  | zero => cases hloop
  | succ fuel ih =>
      intro j c nBytes hij hj hget hbytes
      unfold filterLoop at hloop
      rw [if_neg (by omega)] at hloop
      have hgetD : ∀ {k : ℕ} {b : UInt8}, strIn[k]? = some b →
          strIn.getD k 0 = b := by
        intro k b hk
        rw [List.getD_eq_getElem?_getD, hk, Option.getD_some]
      have hgo : ∀ {later : ℕ} {out : Text}, later ≤ j →
          filterLoop strIn nStrLen fuel later = some out →
          (nBytes : ℤ) + j + 1 ≤ intMax :=
        fun hlater hout => ih hout j c nBytes hlater hj hget hbytes
      dsimp only at hloop
      split_ifs at hloop with hlow
      · obtain ⟨out, hout, -⟩ := Option.map_eq_some_iff.mp hloop
        refine hgo ?_ hout
        rcases eq_or_lt_of_le hij with rfl | hlt
        · rw [hgetD hget] at hlow
          exact absurd hlow (UInt8.not_lt.mpr (high_of_formBytes hbytes))
        · exact hlt
      · split at hloop
        · rename_i hnone
          refine hgo ?_ hloop
          rcases eq_or_lt_of_le hij with rfl | hlt
          · rw [hgetD hget, hbytes] at hnone
            cases hnone
          · exact hlt
        · rename_i n hn
          split_ifs at hloop with hover hshort hall
          · rcases eq_or_lt_of_le hij with rfl | hlt
            · rw [hgetD hget, hbytes] at hn
              obtain rfl := Option.some.inj hn
              omega
            · exact hgo hlt hloop
          · obtain ⟨out, hout, -⟩ := Option.map_eq_some_iff.mp hloop
            rcases eq_or_lt_of_le hij with rfl | hlt
            · rw [hgetD hget, hbytes] at hn
              obtain rfl := Option.some.inj hn
              omega
            · rcases Nat.lt_or_ge j (i + n + 1) with hin | hout'
              · -- a byte inside a form begins no form
                exfalso
                have hmem : c ∈ (strIn.drop (i + 1)).take n := by
                  rw [List.mem_iff_getElem?]
                  refine ⟨j - (i + 1), ?_⟩
                  rw [List.getElem?_take_of_lt (by omega), List.getElem?_drop,
                    show i + 1 + (j - (i + 1)) = j by omega]
                  exact hget
                have hfollowing := List.all_eq_true.mp hall c hmem
                exact not_formBytes_of_isFollowing hfollowing hbytes
              · exact hgo hout' hout
          · rcases eq_or_lt_of_le hij with rfl | hlt
            · rw [hgetD hget, hbytes] at hn
              obtain rfl := Option.some.inj hn
              omega
            · exact hgo hlt hloop

end Loop

/-! ## When the result is safe -/

/-- The text has no control characters but those that become blanks, and the
`int`s count it.  What is behind the end that they see has nothing to escape,
and then the text is not clean anyway. -/
structure Filterable (strIn : Text) : Prop where
  counted : Counted strIn (asInt strIn.length) 0
  blanked : ∀ c ∈ seen strIn, c < 0x20 → isBlanked c = true
  whole : seen strIn = strIn ∨ ¬ Clean strIn ∧
    ∀ c ∈ strIn.drop (asInt strIn.length).toNat, isSpecial c = false

section Safe

variable {strIn strOut : Text}

theorem asInt_le (number : ℕ) : asInt number ≤ number := by
  have hmod := Int.emod_nonneg (number : ℤ) (show (4294967296 : ℤ) ≠ 0 by decide)
  change Int.bmod number 4294967296 ≤ _
  rw [Int.bmod_def]
  split_ifs <;> omega

theorem filterUtf8ForJson_eq (hcounted : Counted strIn (asInt strIn.length) 0) :
    filterUtf8ForJson strIn = some (filtered (seen strIn)) := by
  have hle := asInt_le strIn.length
  have hloop := filterLoop_eq hle (Nat.succ_pos strIn.length)
    (by push_cast; omega) hcounted
  rw [List.drop_zero] at hloop
  exact hloop

theorem filter_seen_iff :
    (seen strIn).filter isSpecial = strIn.filter isSpecial ↔
      ∀ c ∈ strIn.drop (asInt strIn.length).toNat, isSpecial c = false := by
  have hsplit : strIn.filter isSpecial = (seen strIn).filter isSpecial ++
      (strIn.drop (asInt strIn.length).toNat).filter isSpecial := by
    rw [← List.filter_append, seen, List.take_append_drop]
  rw [hsplit, List.self_eq_append_right, List.filter_eq_nil_iff]
  simp only [Bool.not_eq_true]

/-- A clean text of which only a part is seen is not kept. -/
theorem seen_eq_of_kept (hclean : Clean strIn)
    (hkept : filtered (seen strIn) = strIn) : seen strIn = strIn := by
  have hplain : ∀ c ∈ seen strIn, isSpecial c = false :=
    fun c hc => hclean.plain c (List.mem_of_mem_take hc)
  have hle := length_filtered_le hplain
  rw [hkept] at hle
  exact List.take_of_length_le (by
    rw [seen, List.length_take] at hle
    omega)

/-- The result is safe exactly for the texts without other control characters
that an `int` counts. -/
theorem filtered_safe_iff (strIn : Text) :
    (∃ strOut, filterUtf8ForJson strIn = some strOut ∧ SafeFor strIn strOut) ↔
      Filterable strIn := by
  constructor
  · rintro ⟨strOut, hrun, hsafe⟩
    have hcounted : Counted strIn (asInt strIn.length) 0 :=
      counted_of_filterLoop hrun
    obtain rfl : filtered (seen strIn) = strOut :=
      Option.some.inj ((filterUtf8ForJson_eq hcounted).symm.trans hrun)
    refine ⟨hcounted, printable_filtered_iff.mp hsafe.printable, ?_⟩
    by_cases hclean : Clean strIn
    · exact Or.inl (seen_eq_of_kept hclean (hsafe.kept hclean))
    · refine Or.inr ⟨hclean, filter_seen_iff.mp ?_⟩
      exact Option.some.inj ((escapes_filtered _).symm.trans hsafe.escaped)
  · intro hfilter
    refine ⟨_, filterUtf8ForJson_eq hfilter.counted, forms_filtered _,
      printable_filtered_iff.mpr hfilter.blanked, ?_, ?_⟩
    · rw [escapes_filtered]
      rcases hfilter.whole with hwhole | ⟨-, hrest⟩
      · rw [hwhole]
      · rw [filter_seen_iff.mpr hrest]
    · intro hclean
      rcases hfilter.whole with hwhole | ⟨hnot, -⟩
      · rw [hwhole]
        exact filtered_eq_of_forms hclean.forms hclean.printable hclean.plain
      · exact absurd hclean hnot

/-- The control character 1 goes through. -/
theorem control_character_kept :
    ¬ ∃ strOut, filterUtf8ForJson [1] = some strOut ∧ SafeFor [1] strOut := by
  rintro ⟨strOut, hrun, hsafe⟩
  have hout : filterUtf8ForJson [1] = some [1] := by decide
  obtain rfl : [1] = strOut := Option.some.inj (hout.symm.trans hrun)
  exact absurd (hsafe.printable 1 (by simp)) (by decide)

/-- For the texts of any usual length only the control characters matter. -/
theorem filterable_iff_of_short (hshort : (strIn.length : ℤ) + 5 ≤ intMax) :
    Filterable strIn ↔ ∀ c ∈ strIn, c < 0x20 → isBlanked c = true := by
  have hlen : asInt strIn.length = strIn.length := by
    unfold intMax at hshort
    change Int.bmod strIn.length 4294967296 = _
    rw [Int.bmod_def]
    split_ifs <;> omega
  have hseen : seen strIn = strIn := by
    rw [seen, hlen, Int.toNat_natCast, List.take_length]
  constructor
  · intro hfilter
    rw [← hseen]
    exact hfilter.blanked
  · intro hblanked
    refine ⟨?_, by rwa [hseen], Or.inl hseen⟩
    intro j c nBytes _ hj _ hbytes
    have hmost := formBytes_le hbytes
    omega

end Safe

end MessageBus.JsonFilter
