import MessageBus.IniFileSearch

/-!
# Which items are read as the grammar says

The value of an item is taken from the next `=` behind the start of its line, on
whatever line that is.  With the searches this says for which texts `GetString`
does what the grammar says.
-/

namespace MessageBus.IniFile

open TextSearch

/-- What stands behind the next `=`, on whatever line that is. -/
def behindEquals (tail : Text) : Text := (tail.dropWhile (· ≠ equals)).tail

/-- `GetString` does what it is for. -/
def FollowsGrammar (file : CIniFile) (szSection szItem : Text)
    (iValueLen : ℕ) : Prop :=
  match entry szSection szItem file.buffer with
  | some raw => ∀ szDefault,
      Returns (file.getString szSection szItem szDefault iValueLen)
        (success, readValue iValueLen raw)
  | none =>
      (∀ szDefault, ∃ szValue,
        Returns (file.getString szSection szItem szDefault iValueLen)
          (eIniFile, szValue)) ∧
      (∀ iDefault piValue,
        Returns (file.getInt szSection szItem iDefault piValue)
          (eIniFile, iDefault)) ∧
      ∀ ullDefault pullValue,
        Returns (file.getULongLong szSection szItem ullDefault pullValue)
          (eIniFile, ullDefault)

/-- The text does not lead `GetString` astray: it is not empty and starts with
the name of a section only when it has nothing for the item; the occurrences of a
name that the searches do not find do not end it; and the first line of the item
has an `=`, with something behind it, or what the next `=` has is read the
same. -/
def Readable (text szSection szItem : Text) (iValueLen : ℕ) : Prop :=
  text ≠ [] ∧
  if szSection <+: text then entry szSection szItem text = none
  else
    match sectionText szSection text with
    | none => ¬ RunsOff text szSection
    | some body =>
        szItem ≠ [] ∧
        match itemText szItem body with
        | none =>
            ¬ (RunsOff body.tail szItem ∧
              ∀ tail ∈ laterLines lineFeed body,
                tail.head? ≠ some openBracket)
        | some tail =>
            if equals ∈ lineOf tail then behindEquals tail ≠ []
            else
              (entry szSection szItem text).map (readValue iValueLen) =
                if behindEquals tail = [] then none
                else some (readValue iValueLen (lineOf (behindEquals tail)))

/-! ## Values -/

section Value

variable {buffer text : Text} {iValueLen place : ℕ}

theorem extractValue_eq :
    extractValue buffer iValueLen place =
      if behindEquals (buffer.drop place) = [] then none
      else some (copyValue iValueLen 0 0 (behindEquals (buffer.drop place))) := by
  unfold extractValue behindEquals
  have hsplit := List.takeWhile_append_dropWhile (p := (· ≠ equals))
    (l := buffer.drop place)
  have hbefore : ∀ byte ∈ (buffer.drop place).takeWhile (· ≠ equals),
      byte ≠ equals := fun byte hmem => by
    simpa using List.mem_takeWhile_imp hmem
  generalize (buffer.drop place).takeWhile (· ≠ equals) = before at *
  cases hbehind : (buffer.drop place).dropWhile (· ≠ equals) with
  | nil =>
      rw [hbehind, List.append_nil] at hsplit
      have hnone : strstr buffer [equals] place = none := by
        rw [strstr_eq_none_iff (by simp)]
        intro found hle hoccurs
        obtain ⟨offset, rfl⟩ := Nat.exists_eq_add_of_le hle
        rw [occurs_singleton, ← List.getElem?_drop, ← hsplit] at hoccurs
        exact hbefore equals (List.mem_of_getElem? hoccurs) rfl
      rw [hnone]
      rfl
  | cons byte behind =>
      have hequals := List.head?_dropWhile_not (· ≠ equals)
        (buffer.drop place)
      rw [hbehind] at hequals hsplit
      obtain rfl : byte = equals := by simpa using hequals
      have hsome : strstr buffer [equals] place =
          some (place + before.length) := by
        rw [strstr_eq_some_iff (by simp)]
        refine ⟨Nat.le_add_right _ _, ?_, ?_⟩
        · rw [occurs_singleton, ← List.getElem?_drop, ← hsplit]
          simp
        · intro earlier hle hlt hoccurs
          obtain ⟨offset, rfl⟩ := Nat.exists_eq_add_of_le hle
          rw [occurs_singleton, ← List.getElem?_drop, ← hsplit,
            List.getElem?_append_left (by omega)] at hoccurs
          exact hbefore equals (List.mem_of_getElem? hoccurs) rfl
      have hdrop : buffer.drop (place + before.length + 1) = behind := by
        rw [Nat.add_assoc, ← List.drop_drop, ← hsplit, ← List.drop_drop,
          List.drop_left]
        rfl
      have hend : buffer.length ≤ place + before.length + 1 ↔ behind = [] := by
        rw [← hdrop, List.drop_eq_nil_iff]
      rw [hsome]
      simp only [hdrop, List.tail_cons]
      exact if_congr hend rfl rfl

/-- What the loop that copies the value sees. -/
def content (text : Text) : Text :=
  (lineOf text).takeWhile (· ≠ carriageReturn)

theorem content_cons (byte : UInt8) (rest : Text) :
    content (byte :: rest) =
      if byte = carriageReturn ∨ byte = lineFeed then []
      else byte :: content rest := by
  unfold content lineOf
  by_cases hfeed : byte = lineFeed
  · simp [hfeed]
  · by_cases hreturn : byte = carriageReturn
    · simp [hreturn, carriageReturn, lineFeed]
    · simp [hfeed, hreturn]

@[simp] theorem uncomment_nil : uncomment [] = [] := by
  rw [uncomment.eq_def]

theorem uncomment_cons {byte : UInt8} {rest : Text} (hne : byte ≠ semicolon) :
    uncomment (byte :: rest) = byte :: uncomment rest := by
  rw [uncomment.eq_def]
  simp [hne]

theorem uncomment_pair (rest : Text) :
    uncomment (semicolon :: semicolon :: rest) =
      semicolon :: uncomment rest := by
  rw [uncomment.eq_def]
  simp

theorem uncomment_comment {rest : Text} (hne : rest.head? ≠ some semicolon) :
    uncomment (semicolon :: rest) = [] := by
  rw [uncomment.eq_def]
  cases rest with
  | nil => simp
  | cons following rest =>
      have hfollowing : following ≠ semicolon := by simpa using hne
      simp [hfollowing]

/-- The blanks on the left go as long as nothing is copied. -/
def trimLeft (iPos : ℕ) (text : Text) : Text :=
  if iPos = 0 then text.dropWhile (isBlank ·) else text

theorem trimLeft_of_not {iPos : ℕ} {byte : UInt8} {rest : Text}
    (hnot : ¬ (isBlank byte = true ∧ iPos = 0)) :
    trimLeft iPos (byte :: rest) = byte :: rest := by
  unfold trimLeft
  split_ifs with hzero
  · rw [List.dropWhile_cons, if_neg fun hblank => hnot ⟨hblank, hzero⟩]
  · rfl

theorem copyValue_eq {n iPos : ℕ} (hzero : ∀ byte ∈ text, byte ≠ 0)
    (hstart : 0 < n ∨ text.head? ≠ some semicolon) :
    copyValue iValueLen n iPos text =
      (uncomment (trimLeft iPos (content text))).take
        (iValueLen - 1 - iPos) := by
  fun_induction copyValue iValueLen n iPos text with
  | case1 n iPos => simp [content, lineOf, trimLeft]
  | case2 n iPos byte rest hstop =>
      rcases hstop with hfull | hend
      · rw [Nat.sub_eq_zero_of_le hfull, List.take_zero]
      · have hline : byte = carriageReturn ∨ byte = lineFeed := by
          have hbyte := hzero byte List.mem_cons_self
          tauto
        simp [content_cons, hline, trimLeft]
  | case3 n iPos byte rest hgo hblank ih =>
      obtain ⟨hblank, rfl⟩ := hblank
      rw [ih (fun later hlater => hzero later (List.mem_cons_of_mem _ hlater))
        (Or.inl (Nat.succ_pos n)), content_cons, if_neg (by tauto)]
      simp [trimLeft, hblank]
  | case4 n iPos hgo hblank =>
      rw [content_cons, if_neg (by decide), trimLeft_of_not hblank,
        uncomment_comment (by simp [content, lineOf]), List.take_nil]
  | case5 n iPos following rest hpair hgo hblank ih =>
      obtain ⟨-, rfl⟩ := hpair
      have hroom : iValueLen - 1 - iPos = iValueLen - 1 - (iPos + 1) + 1 := by
        omega
      rw [ih (fun later hlater => hzero later (by simp [hlater]))
        (Or.inl (by omega)), content_cons, if_neg (by decide), content_cons,
        if_neg (by decide), trimLeft_of_not hblank, uncomment_pair, hroom,
        List.take_succ_cons]
      rfl
  | case6 n iPos following rest hnot hgo hblank =>
      have hfollowing : following ≠ semicolon := by
        rintro rfl
        rcases hstart with hpos | hne
        · exact hnot ⟨hpos, rfl⟩
        · exact hne rfl
      have hhead : (content (following :: rest)).head? ≠ some semicolon := by
        rw [content_cons]
        split_ifs <;> simp [hfollowing]
      rw [content_cons, if_neg (by decide), trimLeft_of_not hblank,
        uncomment_comment hhead, List.take_nil]
  | case7 n iPos byte rest hgo hblank hne ih =>
      have hroom : iValueLen - 1 - iPos = iValueLen - 1 - (iPos + 1) + 1 := by
        omega
      rw [ih (fun later hlater => hzero later (List.mem_cons_of_mem _ hlater))
        (Or.inl (Nat.succ_pos n)), content_cons, if_neg (by tauto),
        trimLeft_of_not hblank, uncomment_cons hne, hroom,
        List.take_succ_cons]
      rfl

theorem uncomment_sublist (text : Text) : (uncomment text).Sublist text := by
  fun_induction uncomment text with
  | case1 => exact List.Sublist.slnil
  | case2 => exact List.nil_sublist _
  | case3 rest ih => exact (ih.cons semicolon).cons_cons semicolon
  | case4 following rest hne => exact List.nil_sublist _
  | case5 first rest hne ih => exact ih.cons_cons first

theorem head?_uncomment {byte : UInt8}
    (hbyte : (uncomment text).head? = some byte) : text.head? = some byte := by
  fun_cases uncomment text with
  | case1 => exact hbyte
  | case2 =>
      rw [uncomment_comment (by simp)] at hbyte
      cases hbyte
  | case3 rest => rwa [uncomment_pair] at hbyte
  | case4 following rest hne =>
      rw [uncomment_comment (by simpa using hne)] at hbyte
      cases hbyte
  | case5 first rest hne => rwa [uncomment_cons hne] at hbyte

theorem rdropWhile_congr {first second : UInt8 → Bool}
    (hagree : ∀ byte ∈ text, first byte = second byte) :
    text.rdropWhile first = text.rdropWhile second := by
  induction text using List.reverseRecOn with
  | nil => simp
  | append_singleton text byte ih =>
      rw [List.rdropWhile_concat, List.rdropWhile_concat,
        hagree byte (by simp), ih fun other hother => hagree other (by simp [hother])]

/-- On what is copied `TrimString` takes away blanks on the right. -/
theorem trimString_eq
    (hends : ∀ byte ∈ text, byte ≠ carriageReturn ∧ byte ≠ lineFeed)
    (hhead : ∀ byte, text.head? = some byte → isBlank byte = false) :
    trimString text = text.rdropWhile (isBlank ·) := by
  have hagree : ∀ byte ∈ text, isWhite byte = isBlank byte := by
    intro byte hmem
    simp [isWhite, hends byte hmem]
  rw [trimString, rdropWhile_congr hagree]
  have hbegins := text.rdropWhile_prefix (isBlank ·)
  cases hkept : text.rdropWhile (isBlank ·) with
  | nil => rfl
  | cons byte kept =>
      obtain ⟨rest, hrest⟩ := hbegins
      rw [hkept] at hrest
      have hblank := hhead byte (by rw [← hrest]; rfl)
      rw [List.dropWhile_cons, hagree byte (by rw [← hrest]; simp), hblank,
        if_neg Bool.false_ne_true]

theorem mem_content {byte : UInt8} (hmem : byte ∈ content text) :
    byte ≠ carriageReturn ∧ byte ≠ lineFeed := by
  have hline : byte ∈ lineOf text := (List.takeWhile_sublist _).mem hmem
  exact ⟨by simpa using List.mem_takeWhile_imp hmem,
    by simpa using List.mem_takeWhile_imp hline⟩

theorem trimString_copyValue
    (hzero : ∀ byte ∈ text, byte ≠ 0) :
    trimString (copyValue iValueLen 0 0 text) =
      readValue iValueLen (lineOf text) := by
  change _ = (List.take (iValueLen - 1) (if (content text).head? = some semicolon
    then [] else uncomment (trimLeft 0 (content text)))).rdropWhile (isBlank ·)
  by_cases hcomment : text.head? = some semicolon
  · cases text with
    | nil => cases hcomment
    | cons byte rest =>
        obtain rfl : byte = semicolon := by simpa using hcomment
        have hcopy : copyValue iValueLen 0 0 (semicolon :: rest) = [] := by
          rw [copyValue.eq_def]
          cases rest <;> simp [semicolon, isBlank]
        have hcontent : (content (semicolon :: rest)).head? =
            some semicolon := by
          rw [content_cons, if_neg (by decide)]
          rfl
        rw [hcopy, if_pos hcontent]
        simp [trimString]
  · have hcontent : (content text).head? ≠ some semicolon := by
      cases text with
      | nil => simp [content, lineOf]
      | cons byte rest =>
          rw [content_cons]
          split_ifs
          · simp
          · simpa using hcomment
    rw [if_neg hcontent, copyValue_eq hzero (Or.inr hcomment)]
    apply trimString_eq
    · intro byte hmem
      have hcopied := (uncomment_sublist _).mem (List.mem_of_mem_take hmem)
      exact mem_content ((List.dropWhile_sublist _).mem hcopied)
    · intro byte hhead
      have hfirst : (uncomment (trimLeft 0 (content text))).head? =
          some byte := by
        rw [List.head?_take] at hhead
        split_ifs at hhead
        exact hhead
      have hnot := List.head?_dropWhile_not (isBlank ·) (content text)
      rwa [show (content text).dropWhile (isBlank ·) =
        trimLeft 0 (content text) from rfl, head?_uncomment hfirst] at hnot

end Value

/-! ## Entries -/

section Entry

variable {szSection szItem text body tail : Text}

theorem lineOf_behindEquals (hequals : equals ∈ lineOf tail) :
    ((lineOf tail).dropWhile (· ≠ equals)).tail =
      lineOf (behindEquals tail) := by
  induction tail with
  | nil => cases hequals
  | cons byte rest ih =>
      unfold lineOf at hequals ih ⊢
      by_cases hfeed : byte = lineFeed
      · simp [hfeed] at hequals
      · by_cases hbyte : byte = equals
        · simp [behindEquals, hbyte, show ¬ equals = lineFeed by decide]
        · simp only [behindEquals] at ih
          simpa [behindEquals, hfeed, hbyte] using
            ih (by simpa [hfeed, Ne.symm hbyte] using hequals)

theorem head?_lineOf :
    (lineOf tail).head? = some openBracket ↔
      tail.head? = some openBracket := by
  cases tail with
  | nil => rfl
  | cons byte rest =>
      by_cases hfeed : byte = lineFeed
      · simp [lineOf, hfeed, lineFeed, openBracket]
      · simp [lineOf, hfeed]

theorem header_lineOf (hsection : IsName szSection) :
    header szSection <+: lineOf tail ↔ header szSection <+: tail := by
  apply prefix_takeWhile_iff
  intro byte hbyte
  rw [header, List.mem_append, List.mem_cons, List.mem_singleton] at hbyte
  rcases hbyte with (rfl | hmem) | rfl
  · decide
  · simpa using (hsection byte hmem).2.1
  · decide

theorem isItemLine_lineOf (hitem : IsName szItem) :
    IsItemLine szItem (lineOf tail) ↔ IsItemLine szItem tail := by
  have hline : ∀ byte ∈ szItem, decide (byte ≠ lineFeed) = true :=
    fun byte hbyte => by simpa using (hitem byte hbyte).2.1
  unfold IsItemLine lineOf
  rw [prefix_takeWhile_iff hline]
  refine and_congr_right ?_
  rintro ⟨rest, rfl⟩
  rw [List.takeWhile_append_of_pos hline, List.drop_left, List.drop_left]
  cases rest with
  | nil => rfl
  | cons byte rest =>
      by_cases hfeed : byte = lineFeed
      · simp [hfeed, lineFeed, isBlank, equals]
      · simp [hfeed]

/-- The lines of the section, as what the text is from each of them on. -/
theorem entry_eq (hsection : IsName szSection) :
    entry szSection szItem text =
      match sectionText szSection text with
      | none => none
      | some body =>
          ((laterLines lineFeed body).takeWhile fun tail =>
            tail.head? ≠ some openBracket).findSome? fun tail =>
              itemValue szItem (lineOf tail) := by
  have hheader : ((fun line => decide ¬ header szSection <+: line) ∘ lineOf) =
      fun tail => !decide (header szSection <+: tail) := by
    funext tail
    simp [header_lineOf hsection]
  have hbracket : ((fun line : Text =>
      decide (line.head? ≠ some openBracket)) ∘ lineOf) =
      fun tail => decide (tail.head? ≠ some openBracket) := by
    funext tail
    simp [head?_lineOf]
  have hlines : List.dropWhile (fun tail => !decide (header szSection <+: tail))
      (text :: laterLines lineFeed text) = _ := dropWhile_lines _
  unfold entry sectionLines
  rw [splitOn_eq]
  change List.findSome? _ (List.takeWhile _ (List.tail (List.dropWhile
    (fun line => decide ¬ header szSection <+: line) (List.map lineOf _)))) = _
  rw [List.dropWhile_map, hheader, hlines]
  change _ = match sectionText szSection text with
    | none => none
    | some body => _
  rw [← sectionText]
  cases hbody : sectionText szSection text with
  | none => rfl
  | some body =>
      simp only [List.map_cons, List.tail_cons]
      rw [List.takeWhile_map, hbracket, List.findSome?_map]
      rfl

theorem entry_of_no_section (hsection : IsName szSection)
    (hnone : sectionText szSection text = none) :
    entry szSection szItem text = none := by
  rw [entry_eq hsection, hnone]

theorem entry_of_no_item (hsection : IsName szSection) (hitem : IsName szItem)
    (hbody : sectionText szSection text = some body)
    (hnone : itemText szItem body = none) :
    entry szSection szItem text = none := by
  rw [entry_eq hsection, hbody]
  simp only [List.findSome?_eq_none_iff]
  intro tail hmem
  have hline := List.find?_eq_none.mp hnone tail hmem
  rw [decide_eq_true_eq, ← isItemLine_lineOf hitem] at hline
  rw [itemValue, if_neg fun hboth => hline hboth.1]

theorem entry_of_item (hsection : IsName szSection) (hitem : IsName szItem)
    (hbody : sectionText szSection text = some body)
    (htail : itemText szItem body = some tail)
    (hequals : equals ∈ lineOf tail) :
    entry szSection szItem text = some (lineOf (behindEquals tail)) := by
  rw [entry_eq hsection, hbody]
  obtain ⟨hline, before, after, hsplit, hbefore⟩ :=
    List.find?_eq_some_iff_append.mp htail
  rw [decide_eq_true_eq, ← isItemLine_lineOf hitem] at hline
  have hnone : before.findSome? (fun tail => itemValue szItem (lineOf tail)) =
      none := by
    rw [List.findSome?_eq_none_iff]
    intro other hmem
    have hother := hbefore other hmem
    rw [Bool.not_eq_true', decide_eq_false_iff_not,
      ← isItemLine_lineOf hitem] at hother
    rw [itemValue, if_neg fun hboth => hother hboth.1]
  change List.findSome? _ (List.takeWhile _ _) = _
  rw [hsplit, List.findSome?_append, hnone, Option.none_or,
    List.findSome?_cons, itemValue, if_pos ⟨hline, hequals⟩,
    lineOf_behindEquals hequals]

end Entry

/-! ## What the calls return -/

section Answers

variable {file : CIniFile} {szSection szItem : Text} {iValueLen : ℕ}
  {outcome : Outcome}

theorem afterSection_stays {buffer : Text} (outcome : Outcome) :
    Stays (afterSection buffer szItem outcome) := by
  cases outcome with
  | failed => exact Stays.const _
  | found pszTemp => exact itemLoop_stays
  | ended pszTemp => exact itemLoop_stays

theorem findItem_stays {buffer : Text} :
    Stays (findItem buffer szSection szItem) :=
  searchLoop_stays.bind afterSection_stays

/-- The value that comes of an outcome of the searches. -/
def valueOf (file : CIniFile) (iValueLen : ℕ) : Outcome → Option Text
  | .found pszItem =>
      let behind := behindEquals (file.buffer.drop pszItem)
      if behind = [] then none else some (readValue iValueLen (lineOf behind))
  | _ => none

theorem answer_eq (hended : ∀ place, outcome ≠ .ended place)
    (szDefault : Text) :
    file.answer szDefault iValueLen outcome =
      match valueOf file iValueLen outcome with
      | none => some (eIniFile, szDefault.take iValueLen)
      | some value => some (success, value) := by
  cases outcome with
  | failed => rfl
  | ended place => exact absurd rfl (hended place)
  | found pszItem =>
      have hzero : ∀ byte ∈ behindEquals (file.buffer.drop pszItem),
          byte ≠ 0 := by
        intro byte hmem
        have hdropped := (List.dropWhile_sublist _).mem
          (List.mem_of_mem_tail hmem)
        exact file.nul_free byte (List.mem_of_mem_drop hdropped)
      simp only [CIniFile.answer, extractValue_eq, valueOf]
      by_cases hbehind : behindEquals (file.buffer.drop pszItem) = []
      · simp [hbehind]
      · simp [hbehind, trimString_copyValue hzero]

/-- With the searches done, what `GetString` returns. -/
theorem returns_getString_iff (hbuffer : file.buffer ≠ [])
    (houtcome : Returns (findItem file.buffer szSection szItem) outcome)
    {szDefault : Text} {result : ℤ × Text} :
    Returns (file.getString szSection szItem szDefault iValueLen) result ↔
      file.answer szDefault iValueLen outcome = some result := by
  have hcall : file.getString szSection szItem szDefault iValueLen =
      fun fuel => (findItem file.buffer szSection szItem fuel).bind
        (file.answer szDefault iValueLen) := by
    funext fuel
    simp [CIniFile.getString, CIniFile.isValid, hbuffer]
  rw [hcall]
  refine (findItem_stays.returns_bind_iff
    (fun result => Stays.const (file.answer szDefault iValueLen result))
    houtcome).trans ?_
  exact ⟨fun ⟨_, hresult⟩ => hresult, fun hresult => ⟨0, hresult⟩⟩

theorem valueOf_eq_none_iff (otherLen : ℕ) :
    valueOf file iValueLen outcome = none ↔
      valueOf file otherLen outcome = none := by
  cases outcome with
  | failed => exact Iff.rfl
  | ended place => exact Iff.rfl
  | found pszItem =>
      simp only [valueOf]
      split_ifs <;> simp

theorem getInt_of_failure (hbuffer : file.buffer ≠ []) {szValue : Text}
    (hfailure : Returns (file.getString szSection szItem [] 32)
      (eIniFile, szValue)) (iDefault piValue : ℤ) :
    Returns (file.getInt szSection szItem iDefault piValue)
      (eIniFile, iDefault) := by
  obtain ⟨fuel, hfuel⟩ := hfailure
  exact ⟨fuel, by
    simp [CIniFile.getInt, CIniFile.isValid, hbuffer, hfuel, eIniFile]⟩

theorem getULongLong_of_failure (hbuffer : file.buffer ≠ []) {szValue : Text}
    (hfailure : Returns (file.getString szSection szItem [] 32)
      (eIniFile, szValue)) (ullDefault pullValue : ℕ) :
    Returns (file.getULongLong szSection szItem ullDefault pullValue)
      (eIniFile, ullDefault) := by
  obtain ⟨fuel, hfuel⟩ := hfailure
  exact ⟨fuel, by
    simp [CIniFile.getULongLong, CIniFile.isValid, hbuffer, hfuel, eIniFile]⟩

theorem follows_iff (hbuffer : file.buffer ≠ [])
    (houtcome : Returns (findItem file.buffer szSection szItem) outcome)
    (hended : ∀ place, outcome ≠ .ended place) :
    FollowsGrammar file szSection szItem iValueLen ↔
      (entry szSection szItem file.buffer).map (readValue iValueLen) =
        valueOf file iValueLen outcome := by
  unfold FollowsGrammar
  cases entry szSection szItem file.buffer with
  | some raw =>
      simp only [returns_getString_iff hbuffer houtcome, answer_eq hended,
        Option.map_some]
      cases valueOf file iValueLen outcome with
      | none => simp [eIniFile, success]
      | some value => simp [eq_comm]
  | none =>
      simp only [Option.map_none]
      constructor
      · rintro ⟨hstring, -⟩
        obtain ⟨szValue, hreturns⟩ := hstring []
        rw [returns_getString_iff hbuffer houtcome, answer_eq hended]
          at hreturns
        cases hvalue : valueOf file iValueLen outcome with
        | none => rfl
        | some value => simp [hvalue, eIniFile, success] at hreturns
      · intro hvalue
        have hfailure : ∀ (szDefault : Text) (len : ℕ),
            Returns (file.getString szSection szItem szDefault len)
              (eIniFile, szDefault.take len) := by
          intro szDefault len
          rw [returns_getString_iff hbuffer houtcome, answer_eq hended,
            (valueOf_eq_none_iff len).mp hvalue.symm]
        exact ⟨fun szDefault => ⟨_, hfailure szDefault iValueLen⟩,
          getInt_of_failure hbuffer (hfailure [] 32),
          getULongLong_of_failure hbuffer (hfailure [] 32)⟩

/-- A search that runs off the file is taken for one that found the item. -/
theorem not_follows_of_ended (hbuffer : file.buffer ≠ [])
    (hentry : entry szSection szItem file.buffer = none) {place : ℕ}
    (houtcome :
      Returns (findItem file.buffer szSection szItem) (.ended place)) :
    ¬ FollowsGrammar file szSection szItem iValueLen := by
  unfold FollowsGrammar
  rw [hentry]
  rintro ⟨hstring, -⟩
  obtain ⟨szValue, hreturns⟩ := hstring []
  rw [returns_getString_iff hbuffer houtcome, CIniFile.answer] at hreturns
  split_ifs at hreturns
  simp [eIniFile, success] at hreturns

theorem not_follows_of_never (hbuffer : file.buffer ≠ [])
    (hnever : ∀ outcome,
      ¬ Returns (findItem file.buffer szSection szItem) outcome) :
    ¬ FollowsGrammar file szSection szItem iValueLen := by
  have hreturns : ∀ result,
      ¬ Returns (file.getString szSection szItem [] iValueLen) result := by
    rintro result ⟨fuel, hfuel⟩
    simp only [CIniFile.getString, CIniFile.isValid, hbuffer, ne_eq,
      not_false_eq_true, decide_true, Bool.true_eq_false, if_false] at hfuel
    obtain ⟨outcome, houtcome, -⟩ := Option.bind_eq_some_iff.mp hfuel
    exact hnever outcome ⟨fuel, houtcome⟩
  unfold FollowsGrammar
  split
  · exact fun hstring => hreturns _ (hstring [])
  · rintro ⟨hstring, -⟩
    obtain ⟨szValue, hvalue⟩ := hstring []
    exact hreturns _ hvalue

/-- `GetInt` leaves the caller's variable as it is when the file is empty. -/
theorem not_follows_of_empty (hsection : IsName szSection)
    (hbuffer : file.buffer = []) :
    ¬ FollowsGrammar file szSection szItem iValueLen := by
  have hentry : entry szSection szItem file.buffer = none := by
    apply entry_of_no_section hsection
    simp [hbuffer, sectionText, laterLines, header]
  unfold FollowsGrammar
  rw [hentry]
  rintro ⟨-, hint, -⟩
  obtain ⟨fuel, hfuel⟩ := hint 0 1
  simp [CIniFile.getInt, CIniFile.isValid, hbuffer] at hfuel

theorem returns_findItem {buffer : Text} {found : Outcome}
    (hsection : Returns (sectionLoop buffer szSection) found)
    (hitem : Returns (afterSection buffer szItem found) outcome) :
    Returns (findItem buffer szSection szItem) outcome :=
  (searchLoop_stays.returns_bind_iff afterSection_stays hsection).mpr hitem

theorem itemLoop_end {buffer : Text} :
    Returns (itemLoop buffer szItem buffer.length) (.ended buffer.length) :=
  ⟨1, by simp [itemLoop, nextSection, searchLoop]⟩

theorem follows_iff_of_no_section (hsection : IsName szSection)
    (hbuffer : file.buffer ≠ []) (hbegins : ¬ szSection <+: file.buffer)
    (hnone : sectionText szSection file.buffer = none) :
    FollowsGrammar file szSection szItem iValueLen ↔
      ¬ RunsOff file.buffer szSection := by
  have hentry : entry szSection szItem file.buffer = none :=
    entry_of_no_section hsection hnone
  have hloop := sectionLoop_of_none hbegins hnone
  by_cases hends : RunsOff file.buffer szSection
  · rw [if_pos hends] at hloop
    exact iff_of_false
      (not_follows_of_ended hbuffer hentry (returns_findItem hloop itemLoop_end))
      (not_not.mpr hends)
  · rw [if_neg hends] at hloop
    have hfailed : Returns (findItem file.buffer szSection szItem) .failed :=
      returns_findItem hloop ⟨0, rfl⟩
    rw [follows_iff hbuffer hfailed (by simp), hentry]
    exact iff_of_true rfl hends

theorem follows_iff_of_section (hsection : IsName szSection)
    (hitem : IsName szItem) (hbuffer : file.buffer ≠ [])
    (hbegins : ¬ szSection <+: file.buffer) {body : Text}
    (hbody : sectionText szSection file.buffer = some body) :
    FollowsGrammar file szSection szItem iValueLen ↔
      szItem ≠ [] ∧
      match itemText szItem body with
      | none =>
          ¬ (RunsOff body.tail szItem ∧
            ∀ tail ∈ laterLines lineFeed body,
              tail.head? ≠ some openBracket)
      | some tail =>
          if equals ∈ lineOf tail then behindEquals tail ≠ []
          else
            (entry szSection szItem file.buffer).map (readValue iValueLen) =
              if behindEquals tail = [] then none
              else some (readValue iValueLen (lineOf (behindEquals tail))) := by
  have hheader := List.find?_some hbody
  obtain ⟨place, rfl, hloop⟩ := sectionLoop_of_some hsection hbegins hbody
  obtain ⟨hopen, -, hclose⟩ :=
    header_prefix_iff.mp (of_decide_eq_true hheader)
  have hlength : place + 1 < file.buffer.length := by
    have hlt := (List.getElem?_eq_some_iff.mp hclose).1
    omega
  rcases eq_or_ne szItem [] with rfl | hne
  · refine iff_of_false (not_follows_of_never hbuffer ?_) (by simp)
    intro outcome houtcome
    exact itemLoop_nil hopen hlength ((searchLoop_stays.returns_bind_iff
      afterSection_stays hloop).mp houtcome)
  · rw [and_iff_right hne]
    cases hfind : itemText szItem (file.buffer.drop place) with
    | none =>
        have hentry : entry szSection szItem file.buffer = none :=
          entry_of_no_item hsection hitem hbody hfind
        have hitems := itemLoop_of_none hitem hne hopen hlength hfind
        split_ifs at hitems with hends
        · exact iff_of_false (not_follows_of_ended hbuffer hentry
            (returns_findItem hloop hitems)) (not_not.mpr hends)
        · rw [follows_iff hbuffer (returns_findItem hloop hitems) (by simp), hentry]
          exact iff_of_true rfl hends
    | some tail =>
        obtain ⟨pszItem, rfl, hitems⟩ :=
          itemLoop_of_some hitem hne hopen hlength hfind
        rw [follows_iff hbuffer (returns_findItem hloop hitems) (by simp), valueOf]
        simp only
        by_cases hequals : equals ∈ lineOf (file.buffer.drop pszItem)
        · rw [if_pos hequals,
            entry_of_item hsection hitem hbody hfind hequals]
          split_ifs with hbehind <;> simp [hbehind]
        · rw [if_neg hequals]

end Answers

/-- `GetString`, `GetInt` and `GetULongLong` do what the grammar says exactly on
the texts that do not lead them astray. -/
theorem get_string_follows_iff
    (file : CIniFile) (szSection szItem : Text) (hsection : IsName szSection)
    (hitem : IsName szItem) (iValueLen : ℕ) :
    FollowsGrammar file szSection szItem iValueLen ↔
      Readable file.buffer szSection szItem iValueLen := by
  unfold Readable
  by_cases hbuffer : file.buffer = []
  · exact iff_of_false (not_follows_of_empty hsection hbuffer)
      fun hreadable => hreadable.1 hbuffer
  · rw [and_iff_right hbuffer]
    split_ifs with hbegins
    · have hfailed : Returns (findItem file.buffer szSection szItem) .failed :=
        returns_findItem (sectionLoop_of_begins hbuffer hbegins) ⟨0, rfl⟩
      rw [follows_iff hbuffer hfailed (by simp)]
      exact Option.map_eq_none_iff
    · cases hbody : sectionText szSection file.buffer with
      | none => exact follows_iff_of_no_section hsection hbuffer hbegins hbody
      | some body =>
          exact follows_iff_of_section hsection hitem hbuffer hbegins hbody

/-- The file `[b]`, `k = 7;;8 ;9`. -/
def smallFile : CIniFile where
  buffer := [91, 98, 93, 10, 107, 32, 61, 32, 55, 59, 59, 56, 32, 59, 57, 10]
  nul_free := by simp

theorem isName_singleton {byte : UInt8}
    (hbyte : byte ≠ 0 ∧ byte ≠ lineFeed ∧ byte ≠ carriageReturn ∧
      byte ≠ openBracket ∧ byte ≠ closeBracket) : IsName [byte] := by
  intro other hother
  rwa [List.mem_singleton.mp hother]

theorem get_string_follows_small :
    FollowsGrammar smallFile [98] [107] 8 ∧
      entry [98] [107] smallFile.buffer =
        some [32, 55, 59, 59, 56, 32, 59, 57] := by
  constructor
  · refine (get_string_follows_iff smallFile [98] [107]
      (isName_singleton (by decide)) (isName_singleton (by decide)) 8).mpr ?_
    refine ⟨by simp [smallFile], ?_⟩
    rw [if_neg (by decide)]
    refine ⟨by simp, ?_⟩
    change if equals ∈ [107, 32, 61, 32, 55, 59, 59, 56, 32, 59, 57] then
      _ else _
    rw [if_pos (by decide)]
    decide
  · decide

/-- The file `[b]`, `k=a`, which ends in the name of a section it has not. -/
def endingFile : CIniFile where
  buffer := [91, 98, 93, 10, 107, 61, 97]
  nul_free := by simp

theorem get_string_runs_off :
    ¬ ∀ (file : CIniFile) (szSection szItem : Text), IsName szSection →
      IsName szItem → ∀ iValueLen, 2 ≤ iValueLen →
        FollowsGrammar file szSection szItem iValueLen := by
  intro hall
  have hended : Returns (findItem endingFile.buffer [97] [107]) (.ended 7) :=
    ⟨20, by decide⟩
  exact not_follows_of_ended (by simp [endingFile])
    (show entry [97] [107] endingFile.buffer = none by decide) hended
    (hall endingFile [97] [107] (isName_singleton (by decide))
      (isName_singleton (by decide)) 8 (by decide))

end MessageBus.IniFile
