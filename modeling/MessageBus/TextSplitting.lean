import Mathlib.Data.List.TakeWhile
import Mathlib.Tactic

/-!
# Splitting and joining texts

`SplitStringUsing`, `MySplit2` and `JoinStrings` of `mmlib/util/util.cpp`.  The
two loops that split keep different books and agree with each other and with the
splitting of lists.  `JoinStrings` adds up the length of its result in an `int`,
for `reserve`, which refuses a length that has become negative.
-/

namespace MessageBus.TextSplitting

abbrev Text := List UInt8

def intMax : ℤ := 2147483647

/-- The conversion to an `int`. -/
def toInt32 (value : ℤ) : ℤ := Int.bmod value (2 ^ 32)

/-- The C string in the memory of a text. -/
def cStr (text : Text) : Text := text.takeWhile (· ≠ 0)

def findFirstOf (text delims : Text) (pos : ℕ) : Option ℕ :=
  ((text.drop pos).findIdx? (· ∈ delims)).map (pos + ·)

/-- The loop of `SplitStringUsing`, with what it still adds to `vsResult`;
`none` when it has not ended within `fuel` rounds.  `iCurSplitTimes`, an `int`
that is counted up in each round and never read, is left out: it overflows
from 2^31 delimiters on. -/
def splitLoop (sFull delims : Text) : ℕ → ℕ → Option (List Text)
  | 0, _ => none
  | fuel + 1, iBeginIndex =>
      match findFirstOf sFull delims iBeginIndex with
      | none => some [sFull.drop iBeginIndex]
      | some iEndIndex =>
          (splitLoop sFull delims fuel (iEndIndex + 1)).map
            ((sFull.drop iBeginIndex).take (iEndIndex - iBeginIndex) :: ·)

/-- `SplitStringUsing`; `none` for a delimiter that is NULL. -/
def splitStringUsing (sFull : Text) (pszDelim : Option Text) :
    Option (List Text) :=
  if sFull = [] then some [sFull]
  else
    match pszDelim with
    | none => some [sFull]
    | some delim =>
        if cStr delim = [] then some [sFull]
        else splitLoop sFull (cStr delim) (sFull.length + 1) 0

/-- The loop of `MySplit2`, on what is left of the text. -/
def mySplit2Loop (separator : Text) : ℕ → Text → Option (List Text)
  | 0, _ => none
  | fuel + 1, str =>
      match findFirstOf str separator 0 with
      | none => some [str]
      | some index =>
          (mySplit2Loop separator fuel (str.drop (index + 1))).map
            (str.take index :: ·)

def mySplit2 (src separator : Text) : Option (List Text) :=
  if src = [] ∨ separator = [] then some []
  else mySplit2Loop separator (src.length + 1) src

/-- The first loop of `JoinStrings`.  The length of the delimiter is added to
an `int`, which may not overflow; the sum with a `size_t` is cut to an `int`. -/
def joinLength (iDelimLen : ℤ) : Bool → ℤ → List Text → Option ℤ
  | _, iLength, [] => some iLength
  | first, iLength, item :: items =>
      let iLength := if first then iLength else iLength + iDelimLen
      if intMax < iLength then none
      else joinLength iDelimLen false (toInt32 (iLength + item.length)) items

/-- The second loop of `JoinStrings`. -/
def appendItems (delim : Text) : Bool → List Text → Text
  | _, [] => []
  | first, item :: items =>
      (if first then [] else delim) ++ item ++ appendItems delim false items

/-- `JoinStrings`; `none` when `reserve` throws. -/
def joinStrings (vsItems : List Text) (pszDelim : Text) : Option Text :=
  let delim := cStr pszDelim
  (joinLength (toInt32 delim.length) true 0 vsItems).bind fun iLength =>
    if iLength < 0 then none else some (appendItems delim true vsItems)

/-! ## Splitting -/

section Splitting

variable {text delims : Text} {pos i fuel : ℕ}

theorem splitOnP_of_findIdx?_none {p : UInt8 → Bool}
    (hnone : text.findIdx? p = none) : text.splitOnP p = [text] :=
  List.splitOnP_eq_singleton (List.findIdx?_eq_none_iff.mp hnone)

theorem splitOnP_of_findIdx? {p : UInt8 → Bool}
    (hfound : text.findIdx? p = some i) :
    text.splitOnP p = text.take i :: (text.drop (i + 1)).splitOnP p := by
  obtain ⟨hi, hp, hbefore⟩ := List.findIdx?_eq_some_iff_getElem.mp hfound
  have hsplit : text = text.take i ++ text[i] :: text.drop (i + 1) := by
    rw [← List.drop_eq_getElem_cons hi, List.take_append_drop]
  conv_lhs => rw [hsplit]
  apply List.splitOnP_append_cons_of_forall_mem _ _ hp
  intro c hc
  obtain ⟨j, hj, rfl⟩ := List.getElem_of_mem hc
  rw [List.length_take] at hj
  rw [List.getElem_take]
  simpa using hbefore j (by omega)

theorem splitLoop_eq (hfuel : text.length < pos + fuel) (hpos : pos ≤ text.length) :
    splitLoop text delims fuel pos =
      some ((text.drop pos).splitOnP (· ∈ delims)) := by
  induction fuel generalizing pos with
  | zero => omega
  | succ fuel ih =>
      rw [splitLoop, findFirstOf]
      cases hfind : (text.drop pos).findIdx? (· ∈ delims) with
      | none => rw [splitOnP_of_findIdx?_none hfind, Option.map_none]
      | some i =>
          obtain ⟨hi, -, -⟩ := List.findIdx?_eq_some_iff_getElem.mp hfind
          rw [List.length_drop] at hi
          rw [splitOnP_of_findIdx? hfind, Option.map_some]
          simp only [List.drop_drop]
          rw [ih (by omega) (by omega), Option.map_some, Nat.add_sub_cancel_left]
          rfl

theorem mySplit2Loop_eq (hfuel : text.length < fuel) :
    mySplit2Loop delims fuel text = some (text.splitOnP (· ∈ delims)) := by
  induction fuel generalizing text with
  | zero => omega
  | succ fuel ih =>
      rw [mySplit2Loop, findFirstOf, List.drop_zero]
      cases hfind : text.findIdx? (· ∈ delims) with
      | none => rw [splitOnP_of_findIdx?_none hfind, Option.map_none]
      | some i =>
          obtain ⟨hi, -, -⟩ := List.findIdx?_eq_some_iff_getElem.mp hfind
          rw [splitOnP_of_findIdx? hfind, Option.map_some]
          simp only [Nat.zero_add]
          rw [ih (by rw [List.length_drop]; omega), Option.map_some]

theorem splitStringUsing_eq (hdelims : cStr delims ≠ []) :
    splitStringUsing text (some delims) =
      some (text.splitOnP (· ∈ cStr delims)) := by
  unfold splitStringUsing
  split_ifs with hempty
  · rw [hempty, List.splitOnP_nil]
  · dsimp only
    rw [if_neg hdelims, splitLoop_eq (by omega) (Nat.zero_le _), List.drop_zero]

theorem cStr_eq (hnul : (0 : UInt8) ∉ text) : cStr text = text := by
  rw [cStr, List.takeWhile_eq_self_iff]
  intro c hc
  simpa using fun heq : c = 0 => hnul (heq ▸ hc)

theorem splitStringUsing_char {d : UInt8} (hd : d ≠ 0) :
    splitStringUsing text (some [d]) = some (text.splitOn d) := by
  have hstr : cStr [d] = [d] := cStr_eq (by simpa using hd.symm)
  rw [splitStringUsing_eq (by simp [hstr]), hstr, List.splitOn_eq_splitOnP]
  congr 2
  funext c
  simp [beq_eq_decide]

end Splitting

/-! ## Joining -/

/-- What the second loop appends behind the first item. -/
def behind (delim : Text) (items : List Text) : Text :=
  items.flatMap (delim ++ ·)

/-- The delimiters of a text that begins at `start` stand where an `int` can
count one more byte. -/
def DelimsFit (d : UInt8) (start : ℕ) (text : Text) : Prop :=
  ∀ i, text[i]? = some d → (start + i) % 2 ^ 32 ≠ 2 ^ 31 - 1

/-- The length of a joined text, and of what stands in front of each of its
delimiters, is counted by an `int`. -/
structure Countable (d : UInt8) (text : Text) : Prop where
  length : text.length % 2 ^ 32 < 2 ^ 31
  delims : DelimsFit d 0 text

section Joining

variable {d : UInt8} {item text : Text} {items : List Text} {start : ℕ}

theorem appendItems_false (delim : Text) (items : List Text) :
    appendItems delim false items = behind delim items := by
  induction items with
  | nil => rfl
  | cons item items ih =>
      simp only [appendItems, ih, behind, List.flatMap_cons]
      rfl

theorem intercalate_eq (delim item : Text) (items : List Text) :
    delim.intercalate (item :: items) = item ++ behind delim items := by
  induction items generalizing item with
  | nil => simp [behind]
  | cons next items ih =>
      rw [List.intercalate_cons_cons, ih]
      simp [behind]

theorem appendItems_true (delim : Text) (items : List Text) :
    appendItems delim true items = delim.intercalate items := by
  cases items with
  | nil => rfl
  | cons item items =>
      rw [intercalate_eq, appendItems, appendItems_false]
      rfl

theorem toInt32_nonneg_iff (number : ℕ) :
    0 ≤ toInt32 number ↔ number % 2 ^ 32 < 2 ^ 31 := by
  change 0 ≤ Int.bmod number 4294967296 ↔ number % 4294967296 < 2147483648
  rw [Int.bmod_def]
  split_ifs <;> omega

theorem toInt32_overflows_iff (number : ℕ) :
    intMax < toInt32 number + 1 ↔ number % 2 ^ 32 = 2 ^ 31 - 1 := by
  change intMax < Int.bmod number 4294967296 + 1 ↔
    number % 4294967296 = 2147483647
  rw [Int.bmod_def, intMax]
  split_ifs <;> omega

theorem delimsFit_append_of_notMem (hitem : d ∉ item) :
    DelimsFit d start (item ++ text) ↔
      DelimsFit d (start + item.length) text := by
  constructor
  · intro hfit i hi
    have hat : (item ++ text)[item.length + i]? = some d := by
      rw [List.getElem?_append_right (by omega), Nat.add_sub_cancel_left, hi]
    rw [Nat.add_assoc]
    exact hfit _ hat
  · intro hfit i hi
    rcases Nat.lt_or_ge i item.length with hlt | hge
    · rw [List.getElem?_append_left hlt] at hi
      exact absurd (List.mem_of_getElem? hi) hitem
    · rw [List.getElem?_append_right hge] at hi
      have hat := hfit _ hi
      rwa [show start + item.length + (i - item.length) = start + i by omega]
        at hat

theorem delimsFit_cons_delim :
    DelimsFit d start (d :: text) ↔
      start % 2 ^ 32 ≠ 2 ^ 31 - 1 ∧ DelimsFit d (start + 1) text := by
  constructor
  · intro hfit
    refine ⟨hfit 0 rfl, fun i hi => ?_⟩
    rw [Nat.add_right_comm, Nat.add_assoc]
    exact hfit (i + 1) hi
  · rintro ⟨hstart, hfit⟩ i hi
    cases i with
    | zero => exact hstart
    | succ i =>
        rw [← Nat.add_assoc, Nat.add_right_comm]
        exact hfit i hi

theorem toInt32_add (number : ℤ) (more : ℤ) :
    toInt32 (toInt32 number + more) = toInt32 (number + more) :=
  Int.bmod_add_bmod ..

/-- The rounds of the first loop behind the first item. -/
theorem joinLength_eq (hitems : ∀ item ∈ items, d ∉ item) (iLength : ℤ) :
    joinLength 1 false (toInt32 start) items = some iLength ↔
      DelimsFit d start (behind [d] items) ∧
        iLength = toInt32 (start + (behind [d] items).length : ℕ) := by
  induction items generalizing start with
  | nil => simp [joinLength, behind, DelimsFit, eq_comm]
  | cons item items ih =>
      have hbehind : behind [d] (item :: items) =
          d :: (item ++ behind [d] items) := rfl
      have hitem := hitems item List.mem_cons_self
      have hsum : toInt32 (toInt32 start + 1 + item.length) =
          toInt32 (start + 1 + item.length : ℕ) := by
        rw [Int.add_assoc, toInt32_add]
        push_cast
        rw [Int.add_assoc]
      rw [hbehind, delimsFit_cons_delim, delimsFit_append_of_notMem hitem,
        ne_eq, ← toInt32_overflows_iff, joinLength]
      simp only [Bool.false_eq_true, if_false]
      by_cases hover : intMax < toInt32 start + 1
      · simp [hover]
      · rw [if_neg hover, hsum,
          ih fun item hmem => hitems item (List.mem_cons_of_mem _ hmem)]
        simp only [hover, not_false_eq_true, true_and, List.length_cons,
          List.length_append]
        rw [show start + 1 + item.length + (behind [d] items).length =
          start + (item.length + (behind [d] items).length + 1) by omega]

theorem joinStrings_eq (hd : d ≠ 0) (hne : items ≠ [])
    (hitems : ∀ item ∈ items, d ∉ item) :
    joinStrings items [d] = some text ↔
      Countable d ([d].intercalate items) ∧ text = [d].intercalate items := by
  have hstr : cStr [d] = [d] := cStr_eq (by simpa using hd.symm)
  obtain ⟨item, rest, rfl⟩ := List.exists_cons_of_ne_nil hne
  have hitem := hitems item List.mem_cons_self
  have hrest : ∀ item ∈ rest, d ∉ item :=
    fun item hmem => hitems item (List.mem_cons_of_mem _ hmem)
  have hfirst : joinLength 1 true 0 (item :: rest) =
      joinLength 1 false (toInt32 item.length) rest := by
    simp [joinLength, intMax]
  have hdelims : DelimsFit d 0 ([d].intercalate (item :: rest)) ↔
      DelimsFit d item.length (behind [d] rest) := by
    rw [intercalate_eq, delimsFit_append_of_notMem hitem, Nat.zero_add]
  have hone : toInt32 ((1 : ℕ) : ℤ) = 1 := by
    change Int.bmod 1 4294967296 = 1
    decide
  have hlength : ([d].intercalate (item :: rest)).length =
      item.length + (behind [d] rest).length := by
    rw [intercalate_eq, List.length_append]
  unfold joinStrings
  simp only [hstr, List.length_singleton, hone]
  rw [hfirst, appendItems_true, Option.bind_eq_some_iff]
  constructor
  · rintro ⟨iLength, hloop, hresult⟩
    obtain ⟨hfit, hvalue⟩ := (joinLength_eq hrest iLength).mp hloop
    split_ifs at hresult with hneg
    refine ⟨⟨?_, hdelims.mpr hfit⟩, (Option.some.inj hresult).symm⟩
    rw [hlength, ← toInt32_nonneg_iff, ← hvalue]
    exact not_lt.mp hneg
  · rintro ⟨⟨hlen, hfit⟩, rfl⟩
    refine ⟨_, (joinLength_eq hrest _).mpr ⟨hdelims.mp hfit, rfl⟩, ?_⟩
    rw [hlength, ← toInt32_nonneg_iff] at hlen
    exact if_neg (not_lt.mpr hlen)

end Joining

/-! ## Both together -/

section Both

variable {d : UInt8} {text : Text} {items : List Text}

theorem notMem_of_mem_splitOn {item : Text} (hmem : item ∈ text.splitOn d) :
    d ∉ item := by
  induction text generalizing item with
  | nil =>
      rw [List.splitOn_nil, List.mem_singleton] at hmem
      simp [hmem]
  | cons c text ih =>
      rw [List.splitOn_cons_eq_if_modifyHead] at hmem
      split_ifs at hmem with hc
      · rcases List.mem_cons.mp hmem with rfl | hmem
        · simp
        · exact ih hmem
      · obtain ⟨first, rest, hsplit⟩ :=
          List.exists_cons_of_ne_nil (List.splitOn_ne_nil d text)
        rw [hsplit, List.modifyHead_cons] at hmem
        rcases List.mem_cons.mp hmem with rfl | hmem
        · have hfirst : d ∉ first := ih (by rw [hsplit]; simp)
          have hne : d ≠ c := by
            rintro rfl
            simp at hc
          simp [hfirst, hne]
        · exact ih (by rw [hsplit]; exact List.mem_cons_of_mem _ hmem)

/-- A text is split and joined to itself if it is counted. -/
theorem join_split_iff (hd : d ≠ 0) (text : Text) :
    (splitStringUsing text (some [d])).bind (joinStrings · [d]) = some text ↔
      Countable d text := by
  have hjoin : joinStrings (text.splitOn d) [d] = some text ↔ _ :=
    joinStrings_eq hd (List.splitOn_ne_nil d text)
      fun item hmem => notMem_of_mem_splitOn hmem
  rw [List.intercalate_splitOn] at hjoin
  rw [splitStringUsing_char hd, Option.bind_some, hjoin]
  simp

/-- A list without the delimiter is joined and split to itself if its text is
counted. -/
theorem split_join_iff (hd : d ≠ 0) (hne : items ≠ [])
    (hitems : ∀ item ∈ items, d ∉ item) :
    (joinStrings items [d]).bind (splitStringUsing · (some [d])) =
        some items ↔
      Countable d ([d].intercalate items) := by
  rw [Option.bind_eq_some_iff]
  constructor
  · rintro ⟨text, hjoin, -⟩
    exact ((joinStrings_eq hd hne hitems).mp hjoin).1
  · intro hcount
    refine ⟨_, (joinStrings_eq hd hne hitems).mpr ⟨hcount, rfl⟩, ?_⟩
    rw [splitStringUsing_char hd, List.splitOn_intercalate d hitems hne]

theorem countable_of_short (hshort : text.length < 2 ^ 31) :
    Countable d text := by
  refine ⟨by rw [Nat.mod_eq_of_lt] <;> omega, fun i hi => ?_⟩
  obtain ⟨hlt, -⟩ := List.getElem?_eq_some_iff.mp hi
  omega

/-- Splitting and joining undo each other for the texts that are counted, and
both ways to split agree. -/
theorem split_join_agree (hd : d ≠ 0) (s : Text) (hne : items ≠ [])
    (hitems : ∀ item ∈ items, d ∉ item) {src separator : Text} (hsrc : src ≠ [])
    (hseparator : separator ≠ []) (hnul : (0 : UInt8) ∉ separator) :
    ((splitStringUsing s (some [d])).bind (joinStrings · [d]) = some s ↔
      Countable d s) ∧
    ((joinStrings items [d]).bind (splitStringUsing · (some [d])) = some items ↔
      Countable d ([d].intercalate items)) ∧
    mySplit2 src separator = splitStringUsing src (some separator) := by
  refine ⟨join_split_iff hd s, split_join_iff hd hne hitems, ?_⟩
  rw [splitStringUsing_eq (by rwa [cStr_eq hnul]), cStr_eq hnul, mySplit2,
    if_neg (by simp [hsrc, hseparator]), mySplit2Loop_eq (Nat.lt_succ_self _)]

theorem split_join_agree_comma :
    (splitStringUsing [97, 44] (some [44])).bind (joinStrings · [44]) =
        some [97, 44] ∧
      (joinStrings [[97], []] [44]).bind (splitStringUsing · (some [44])) =
        some [[97], []] ∧
      mySplit2 [97, 44] [44] = splitStringUsing [97, 44] (some [44]) := by
  have hne : [[97], []] ≠ ([] : List Text) := by decide
  have hitems : ∀ item ∈ ([[97], []] : List Text), 44 ∉ item := by decide
  have hsrc : ([97, 44] : Text) ≠ [] := by decide
  have hseparator : ([44] : Text) ≠ [] := by decide
  obtain ⟨hjoin, hsplit, hsame⟩ := split_join_agree (by decide) [97, 44] hne
    hitems hsrc hseparator (by decide)
  exact ⟨hjoin.mpr (countable_of_short (by decide)),
    hsplit.mpr (countable_of_short (by decide)), hsame⟩

/-- A text of 2^31 bytes without the delimiter cannot be joined. -/
theorem long_text_not_joined :
    (splitStringUsing (List.replicate (2 ^ 31) 97) (some [44])).bind
        (joinStrings · [44]) ≠ some (List.replicate (2 ^ 31) 97) := by
  intro hjoined
  have hcount := ((join_split_iff (by decide) _).mp hjoined).length
  rw [List.length_replicate] at hcount
  omega

end Both

end MessageBus.TextSplitting
