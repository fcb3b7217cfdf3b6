import MessageBus.IniFileModel

/-!
# What the searches of `GetString` find

The two searches look for the names anywhere in the file and go on behind each
occurrence that is not at the right place.  They find the first line that the
grammar means.  Without such a line they fail, but when the last occurrence ends
the file they leave their loops as if something had been found.
-/

namespace MessageBus.IniFile

open TextSearch

/-- What a name of a section or an item has not. -/
def IsName (name : Text) : Prop :=
  ∀ byte ∈ name, byte ≠ 0 ∧ byte ≠ lineFeed ∧ byte ≠ carriageReturn ∧
    byte ≠ openBracket ∧ byte ≠ closeBracket

/-- The line of a text, from where the text starts. -/
def lineOf (tail : Text) : Text := tail.takeWhile (· ≠ lineFeed)

def header (szSection : Text) : Text :=
  openBracket :: szSection ++ [closeBracket]

/-- The text from the first line of the section on. -/
def sectionText (szSection text : Text) : Option Text :=
  (text :: laterLines lineFeed text).find? fun tail =>
    header szSection <+: tail

/-- The text from the first line of the item on. -/
def itemText (szItem body : Text) : Option Text :=
  ((laterLines lineFeed body).takeWhile fun tail =>
    tail.head? ≠ some openBracket).find? fun tail => IsItemLine szItem tail

/-! ## Bytes and lines -/

section Bytes

variable {buffer szSection szItem : Text} {place start : ℕ} {byte : UInt8}

theorem byteAt_eq_iff (hbyte : byte ≠ 0) :
    byteAt buffer place = byte ↔ buffer[place]? = some byte := by
  unfold byteAt
  rw [List.getD_eq_getElem?_getD]
  cases buffer[place]? with
  | none => simp [hbyte.symm]
  | some found => simp

theorem occurs_singleton :
    Occurs buffer [byte] place ↔ buffer[place]? = some byte := by
  rw [Occurs, ← List.head?_drop]
  cases buffer.drop place with
  | nil => simp
  | cons found rest => simp [eq_comm]

theorem concat_prefix_iff :
    szSection ++ [byte] <+: buffer ↔
      szSection <+: buffer ∧ buffer[szSection.length]? = some byte := by
  constructor
  · rintro ⟨rest, rfl⟩
    simp
  · rintro ⟨⟨rest, rfl⟩, hbyte⟩
    cases rest with
    | nil => simp at hbyte
    | cons found rest =>
        obtain rfl : found = byte := by simpa using hbyte
        simp

theorem header_prefix_iff :
    header szSection <+: buffer.drop place ↔
      buffer[place]? = some openBracket ∧
        Occurs buffer szSection (place + 1) ∧
        buffer[place + 1 + szSection.length]? = some closeBracket := by
  rw [Occurs, ← List.getElem?_drop, ← concat_prefix_iff, ← List.head?_drop,
    ← List.tail_drop, header]
  cases buffer.drop place with
  | nil => simp
  | cons found rest => simp [List.cons_prefix_cons, eq_comm]

theorem startsLine_drop (hplace : 0 < place) :
    StartsLine lineFeed (buffer.drop start) place ↔
      StartsLine lineFeed buffer (start + place) := by
  unfold StartsLine
  rw [List.getElem?_drop, Nat.add_sub_assoc hplace]
  simp only [hplace, true_and, show 0 < start + place by omega]

/-- What the search for the item wants of a place. -/
theorem isItemLine_drop_iff :
    IsItemLine szItem (buffer.drop place) ↔
      Occurs buffer szItem place ∧
        (isBlank (byteAt buffer (place + szItem.length)) = true ∨
          byteAt buffer (place + szItem.length) = equals) := by
  unfold IsItemLine byteAt
  rw [List.drop_drop, List.head?_drop, List.getD_eq_getElem?_getD]
  cases buffer[place + szItem.length]? with
  | none => simp [isBlank, equals]
  | some byte => simp

end Bytes

/-! ## The search for the section -/

section Search

variable {buffer szSection szItem : Text} (hsection : IsName szSection)
  (hitem : IsName szItem)

/-- A line of the text starts at a place. -/
def IsLine (buffer : Text) (place : ℕ) : Prop :=
  place = 0 ∨ StartsLine lineFeed buffer place

theorem exists_of_sectionText {body : Text}
    (hbody : sectionText szSection buffer = some body) :
    ∃ place, body = buffer.drop place ∧ IsLine buffer place ∧
      header szSection <+: body ∧
      ∀ earlier < place, IsLine buffer earlier →
        ¬ header szSection <+: buffer.drop earlier := by
  have hwanted := List.find?_some hbody
  unfold sectionText at hbody
  rw [List.find?_cons] at hbody
  split at hbody
  · cases hbody
    exact ⟨0, rfl, Or.inl rfl, by simpa using hwanted, by simp⟩
  · next hfirst =>
      obtain ⟨place, hstarts, rfl, hearlier⟩ :=
        exists_of_find?_laterLines hbody
      refine ⟨place, rfl, Or.inr hstarts, by simpa using hwanted, ?_⟩
      rintro earlier hlt (rfl | hline)
      · simpa using hfirst
      · simpa using hearlier earlier hlt hline

theorem not_header_of_sectionText
    (hnone : sectionText szSection buffer = none) {place : ℕ}
    (hline : IsLine buffer place) :
    ¬ header szSection <+: buffer.drop place := by
  rw [sectionText, List.find?_eq_none] at hnone
  rcases hline with rfl | hline
  · simpa using hnone buffer List.mem_cons_self
  · simpa using hnone _ (List.mem_cons_of_mem _
      (mem_laterLines_iff.mpr ⟨place, hline, rfl⟩))

/-- What the search for the section wants of a place. -/
theorem wants_section_iff {place : ℕ} (hplace : 0 < place)
    (hoccurs : Occurs buffer szSection place) :
    (byteAt buffer (place - 1) = openBracket ∧
        byteAt buffer (place + szSection.length) = closeBracket ∧
        (1 < place → byteAt buffer (place - 2) = lineFeed)) ↔
      IsLine buffer (place - 1) ∧
        header szSection <+: buffer.drop (place - 1) := by
  rw [header_prefix_iff, byteAt_eq_iff (by decide), byteAt_eq_iff (by decide),
    byteAt_eq_iff (by decide), Nat.sub_add_cancel hplace]
  have hline : (1 < place → buffer[place - 2]? = some lineFeed) ↔
      IsLine buffer (place - 1) := by
    unfold IsLine StartsLine
    rw [Nat.sub_sub]
    rcases Nat.lt_or_ge 1 place with hlt | hge
    · simp [hlt, show ¬ place - 1 = 0 by omega]
    · simp [hge.not_gt, show place - 1 = 0 by omega]
  rw [hline]
  tauto

theorem sectionLoop_of_begins
    (hbuffer : buffer ≠ []) (hbegins : szSection <+: buffer) :
    Returns (sectionLoop buffer szSection) .failed := by
  have hstrstr : strstr buffer szSection 0 = some 0 := by
    rcases eq_or_ne szSection [] with rfl | hne
    · exact strstr_nil
    · exact (strstr_eq_some_iff hne).mpr ⟨le_rfl, hbegins, by simp⟩
  exact returns_failed_of_givesUp (List.length_pos_iff.mpr hbuffer) hstrstr
    (by simp)

theorem pos_of_occurs (hne : ¬ szSection <+: buffer) {place : ℕ}
    (hoccurs : Occurs buffer szSection place) : 0 < place := by
  rcases Nat.eq_zero_or_pos place with rfl | hpos
  · exact absurd hoccurs hne
  · exact hpos

theorem sectionLoop_of_none
    (hne : ¬ szSection <+: buffer)
    (hnone : sectionText szSection buffer = none) :
    Returns (sectionLoop buffer szSection)
      (if RunsOff buffer szSection then .ended buffer.length
        else .failed) := by
  have hneedle : szSection ≠ [] := by
    rintro rfl
    exact hne List.nil_prefix
  refine searchLoop_of_unwanted hneedle (Nat.zero_le _) ?_
  intro place _ hoccurs
  have hpos := pos_of_occurs hne hoccurs
  rw [decide_eq_false_iff_not, decide_eq_false_iff_not,
    wants_section_iff hpos hoccurs]
  exact ⟨hpos.ne', fun hwants =>
    not_header_of_sectionText hnone hwants.1 hwants.2⟩

include hsection in
theorem sectionLoop_of_some
    (hne : ¬ szSection <+: buffer) {body : Text}
    (hbody : sectionText szSection buffer = some body) :
    ∃ place, body = buffer.drop place ∧
      Returns (sectionLoop buffer szSection) (.found (place + 1)) := by
  have hneedle : szSection ≠ [] := by
    rintro rfl
    exact hne List.nil_prefix
  obtain ⟨place, rfl, hline, hheader, hleast⟩ := exists_of_sectionText hbody
  obtain ⟨hopen, hoccurs, -⟩ := header_prefix_iff.mp hheader
  refine ⟨place, rfl, searchLoop_found hneedle (Nat.zero_le _) hoccurs ?_ ?_ ?_⟩
  · rw [decide_eq_true_eq, wants_section_iff (Nat.succ_pos _) hoccurs]
    exact ⟨hline, hheader⟩
  · intro earlier _ hlt hocc
    have hpos := pos_of_occurs hne hocc
    constructor
    · rw [decide_eq_false_iff_not, wants_section_iff hpos hocc]
      exact fun hwants => hleast (earlier - 1) (by omega) hwants.1 hwants.2
    · by_contra hover
      -- the bracket before the section would belong to the name
      exact (hsection _ (hocc.mem hopen (by omega) (by omega))).2.2.2.1 rfl
  · intro earlier _ _ hocc
    rw [decide_eq_false_iff_not]
    exact (pos_of_occurs hne hocc).ne'

end Search

/-! ## The search for the item -/

/-- A line that starts with a bracket. -/
def OpensLine (buffer : Text) (place : ℕ) : Prop :=
  StartsLine lineFeed buffer place ∧ buffer[place]? = some openBracket

/-- Where the section at a place ends. -/
structure IsNext (buffer : Text) (place next : ℕ) : Prop where
  place_lt : place + 1 < next
  le_length : next ≤ buffer.length
  not_before : ∀ between, place < between → between < next →
    ¬ OpensLine buffer between
  ends : next = buffer.length ∨ OpensLine buffer next

section Item

variable {buffer szItem : Text} {place next : ℕ}

theorem OpensLine.lt_length (hopens : OpensLine buffer place) :
    place < buffer.length :=
  (List.getElem?_eq_some_iff.mp hopens.2).1

theorem mem_laterLines_drop_iff {tail : Text} :
    tail ∈ laterLines lineFeed (buffer.drop place) ↔
      ∃ later, place < later ∧ StartsLine lineFeed buffer later ∧
        tail = buffer.drop later := by
  rw [mem_laterLines_iff]
  constructor
  · rintro ⟨offset, hstarts, rfl⟩
    exact ⟨place + offset, Nat.lt_add_of_pos_right hstarts.1,
      (startsLine_drop hstarts.1).mp hstarts, List.drop_drop⟩
  · rintro ⟨later, hlt, hstarts, rfl⟩
    obtain ⟨offset, rfl⟩ := Nat.exists_eq_add_of_le hlt.le
    exact ⟨offset, (startsLine_drop (by omega)).mpr hstarts,
      List.drop_drop.symm⟩

/-- There is no later section exactly when the section ends with the text. -/
theorem IsNext.eq_length_iff (hnext : IsNext buffer place next) :
    next = buffer.length ↔
      ∀ tail ∈ laterLines lineFeed (buffer.drop place),
        tail.head? ≠ some openBracket := by
  constructor
  · rintro rfl tail htail hopen
    obtain ⟨later, hlt, hstarts, rfl⟩ := mem_laterLines_drop_iff.mp htail
    rw [List.head?_drop] at hopen
    have hopens : OpensLine buffer later := ⟨hstarts, hopen⟩
    exact hnext.not_before later hlt hopens.lt_length hopens
  · intro hnone
    rcases hnext.ends with hend | hopens
    · exact hend
    · have hplace := hnext.place_lt
      refine absurd hopens.2 ?_
      rw [← List.head?_drop]
      exact hnone _ (mem_laterLines_drop_iff.mpr
        ⟨next, by omega, hopens.1, rfl⟩)

/-- What the search for the next section wants of a bracket. -/
theorem opensLine_iff (hplace : 0 < place)
    (hoccurs : Occurs buffer [openBracket] place) :
    byteAt buffer (place - 1) = lineFeed ↔ OpensLine buffer place := by
  rw [byteAt_eq_iff (by decide), OpensLine, StartsLine]
  simp only [hplace, true_and, occurs_singleton.mp hoccurs, and_true]

theorem exists_nextSection
    (hopen : buffer[place]? = some openBracket)
    (hlength : place + 1 < buffer.length) :
    ∃ next, IsNext buffer place next ∧
      Returns (nextSection buffer (place + 1)) next := by
  classical
  by_cases hlater : ∃ later, place < later ∧ OpensLine buffer later
  · obtain ⟨hlt, hopens⟩ := Nat.find_spec hlater
    have hleast : ∀ between, place < between → between < Nat.find hlater →
        ¬ OpensLine buffer between := by
      intro between hbetween hfind hopens
      exact Nat.find_min hlater hfind ⟨hbetween, hopens⟩
    generalize Nat.find hlater = next at hlt hopens hleast
    have hplace : place + 1 ≠ next := by
      rintro rfl
      have hfeed := hopens.1.2
      rw [Nat.add_sub_cancel, hopen] at hfeed
      exact absurd hfeed (by decide)
    have hoccurs := occurs_singleton.mpr hopens.2
    refine ⟨next, ⟨by omega, hopens.lt_length.le, hleast, Or.inr hopens⟩, ?_⟩
    refine (searchLoop_found (by simp) hlt hoccurs ?_ ?_ fun _ _ _ _ => rfl).map _
    · rw [decide_eq_true_eq, opensLine_iff (by omega) hoccurs]
      exact hopens
    · intro earlier hle hearlier hocc
      refine ⟨?_, hearlier⟩
      rw [decide_eq_false_iff_not, opensLine_iff (by omega) hocc]
      exact hleast earlier hle hearlier
  · refine ⟨buffer.length, ⟨hlength, le_rfl, ?_, Or.inl rfl⟩, ?_⟩
    · intro between hlt _ hopens
      exact hlater ⟨between, hlt, hopens⟩
    · have hunwanted : ∀ later, place + 1 ≤ later →
          Occurs buffer [openBracket] later → false = false ∧
            decide (byteAt buffer (later - 1) = lineFeed) = false := by
        intro later hle hocc
        rw [decide_eq_false_iff_not, opensLine_iff (by omega) hocc]
        exact ⟨rfl, fun hopens => hlater ⟨later, hle, hopens⟩⟩
      obtain ⟨fuel, hfuel⟩ :=
        searchLoop_of_unwanted (by simp) hlength.le hunwanted
      refine ⟨fuel, Option.map_eq_some_iff.mpr ⟨_, hfuel, ?_⟩⟩
      split_ifs <;> rfl

theorem nextSection_stays : Stays (nextSection buffer place) :=
  searchLoop_stays.map _

theorem itemLoop_stays : Stays (itemLoop buffer szItem place) :=
  nextSection_stays.bind fun _ => searchLoop_stays

/-- The first of the later lines of a section, in places of the whole text. -/
theorem exists_of_find?_drop {wants : Text → Bool} {tail : Text}
    (hfind : (laterLines lineFeed (buffer.drop place)).find? wants =
      some tail) :
    ∃ later, place < later ∧ StartsLine lineFeed buffer later ∧
      tail = buffer.drop later ∧ wants tail = true ∧
      ∀ between, place < between → between < later →
        StartsLine lineFeed buffer between →
          wants (buffer.drop between) = false := by
  obtain ⟨offset, hstarts, rfl, hleast⟩ := exists_of_find?_laterLines hfind
  refine ⟨place + offset, Nat.lt_add_of_pos_right hstarts.1,
    (startsLine_drop hstarts.1).mp hstarts, List.drop_drop,
    List.find?_some hfind, ?_⟩
  intro between hlt hbetween hline
  obtain ⟨before, rfl⟩ := Nat.exists_eq_add_of_le hlt.le
  rw [← List.drop_drop]
  exact hleast before (by omega) ((startsLine_drop (by omega)).mpr hline)

theorem exists_of_itemText {tail : Text}
    (hfind : itemText szItem (buffer.drop place) = some tail) :
    ∃ later, place < later ∧ StartsLine lineFeed buffer later ∧
      tail = buffer.drop later ∧ IsItemLine szItem tail ∧
      (∀ between, place < between → between < later →
        StartsLine lineFeed buffer between →
          ¬ IsItemLine szItem (buffer.drop between)) ∧
      ∀ between, place < between → between ≤ later →
        ¬ OpensLine buffer between := by
  rw [itemText, find?_takeWhile, Option.filter_eq_some_iff] at hfind
  obtain ⟨hfind, hinside⟩ := hfind
  obtain ⟨later, hlt, hstarts, rfl, hwants, hleast⟩ := exists_of_find?_drop hfind
  simp only [Bool.or_eq_true, Bool.not_eq_true', decide_eq_true_eq,
    decide_eq_false_iff_not, Bool.or_eq_false_iff, Bool.not_eq_false',
    ne_eq, not_not] at hinside hwants hleast
  refine ⟨later, hlt, hstarts, rfl, hwants.resolve_right hinside,
    fun between hbetween hbefore hline =>
      (hleast between hbetween hbefore hline).1, ?_⟩
  intro between hbetween hle hopens
  rw [List.head?_drop] at hinside
  rcases hle.eq_or_lt with rfl | hbefore
  · exact hinside hopens.2
  · have hunwanted := (hleast between hbetween hbefore hopens.1).2
    rw [List.head?_drop] at hunwanted
    exact hunwanted hopens.2

/-- Without a line of the item, all such lines are in later sections. -/
theorem exists_of_itemText_eq_none
    (hfind : itemText szItem (buffer.drop place) = none) {later : ℕ}
    (hlt : place < later) (hstarts : StartsLine lineFeed buffer later)
    (hline : IsItemLine szItem (buffer.drop later)) :
    ∃ between, place < between ∧ between ≤ later ∧
      OpensLine buffer between := by
  rw [itemText, find?_takeWhile, Option.filter_eq_none_iff] at hfind
  have hmem : buffer.drop later ∈ laterLines lineFeed (buffer.drop place) :=
    mem_laterLines_drop_iff.mpr ⟨later, hlt, hstarts, rfl⟩
  cases hfirst : (laterLines lineFeed (buffer.drop place)).find? fun tail =>
      decide (IsItemLine szItem tail) ||
        !decide (tail.head? ≠ some openBracket) with
  | none =>
      have hunwanted := List.find?_eq_none.mp hfirst _ hmem
      simp [hline] at hunwanted
  | some tail =>
      have hopen := hfind tail hfirst
      obtain ⟨between, hbetween, hbegins, rfl, -, hleast⟩ :=
        exists_of_find?_drop hfirst
      rw [decide_eq_true_eq, not_not, List.head?_drop] at hopen
      refine ⟨between, hbetween, ?_, hbegins, hopen⟩
      by_contra hless
      have hunwanted := hleast later hlt (not_le.mp hless) hstarts
      simp [hline] at hunwanted

theorem wants_item_iff {later : ℕ} (hlt : place < later)
    (hoccurs : Occurs buffer szItem later) :
    (byteAt buffer (later - 1) = lineFeed ∧
        (isBlank (byteAt buffer (later + szItem.length)) = true ∨
          byteAt buffer (later + szItem.length) = equals)) ↔
      StartsLine lineFeed buffer later ∧
        IsItemLine szItem (buffer.drop later) := by
  rw [isItemLine_drop_iff, byteAt_eq_iff (by decide), StartsLine]
  simp only [hoccurs, true_and, show 0 < later by omega]

variable (hitem : IsName szItem) (hne : szItem ≠ [])
  (hopen : buffer[place]? = some openBracket)
  (hlength : place + 1 < buffer.length)

include hitem hne hopen hlength

theorem itemLoop_of_some {tail : Text}
    (hfind : itemText szItem (buffer.drop place) = some tail) :
    ∃ pszItem, tail = buffer.drop pszItem ∧
      Returns (itemLoop buffer szItem (place + 1)) (.found pszItem) := by
  obtain ⟨next, hnext, hreturns⟩ := exists_nextSection hopen hlength
  obtain ⟨later, hlt, hstarts, rfl, hline, hleast, hinside⟩ :=
    exists_of_itemText hfind
  have hoccurs := (isItemLine_drop_iff.mp hline).1
  have hend := hoccurs.add_length_le hne
  have hpos := List.length_pos_iff.mpr hne
  have hbefore : later < next := by
    by_contra hge
    rcases hnext.ends with hends | hopens
    · omega
    · have hplace := hnext.place_lt
      exact hinside next (by omega) (not_lt.mp hge) hopens
  refine ⟨later, rfl, (nextSection_stays.returns_bind_iff
    (fun _ => searchLoop_stays) hreturns).mpr
      (searchLoop_found hne hlt hoccurs ?_ ?_ ?_)⟩
  · rw [decide_eq_true_eq, wants_item_iff hlt hoccurs]
    exact ⟨hstarts, hline⟩
  · intro earlier hearlier hlater hocc
    constructor
    · rw [decide_eq_false_iff_not, wants_item_iff hearlier hocc]
      exact fun hwants => hleast earlier hearlier hlater hwants.1 hwants.2
    · by_contra hover
      -- the line feed before the item would belong to the name
      exact (hitem _ (hocc.mem hstarts.2 (by omega) (by omega))).2.1 rfl
  · intro earlier _ hle _
    rw [decide_eq_false_iff_not]
    omega

theorem itemLoop_of_none
    (hfind : itemText szItem (buffer.drop place) = none) :
    Returns (itemLoop buffer szItem (place + 1))
      (if RunsOff (buffer.drop place).tail szItem ∧
          ∀ tail ∈ laterLines lineFeed (buffer.drop place),
            tail.head? ≠ some openBracket then
        .ended buffer.length else .failed) := by
  obtain ⟨next, hnext, hreturns⟩ := exists_nextSection hopen hlength
  have hunwanted : ∀ later, place < later → later < next →
      Occurs buffer szItem later →
        ¬ (StartsLine lineFeed buffer later ∧
          IsItemLine szItem (buffer.drop later)) := by
    rintro later hlt hbefore - ⟨hstarts, hline⟩
    obtain ⟨between, hbetween, hle, hopens⟩ :=
      exists_of_itemText_eq_none hfind hlt hstarts hline
    exact hnext.not_before between hbetween (by omega) hopens
  refine (nextSection_stays.returns_bind_iff
    (fun _ => searchLoop_stays) hreturns).mpr ?_
  rw [List.tail_drop]
  by_cases hlast : next = buffer.length
  · rw [if_congr (and_iff_left (hnext.eq_length_iff.mp hlast)) rfl rfl]
    refine searchLoop_of_unwanted hne hlength.le ?_
    intro later hlt hoccurs
    have hend := hoccurs.add_length_le hne
    have hpos := List.length_pos_iff.mpr hne
    rw [decide_eq_false_iff_not, decide_eq_false_iff_not,
      wants_item_iff hlt hoccurs]
    exact ⟨by omega, hunwanted later hlt (by omega) hoccurs⟩
  · rw [if_neg fun hboth => hlast (hnext.eq_length_iff.mpr hboth.2)]
    have hopens := hnext.ends.resolve_left hlast
    refine searchLoop_failed hne hnext.place_lt.le hopens.lt_length
      (fun later _ hle => decide_eq_true hle) ?_
    intro later hlt hbefore hoccurs _
    constructor
    · rw [decide_eq_false_iff_not, wants_item_iff hlt hoccurs]
      exact hunwanted later hlt hbefore hoccurs
    · by_contra hover
      -- the bracket of the next section would belong to the name
      exact (hitem _ (hoccurs.mem hopens.2 hbefore.le
        (by omega))).2.2.2.1 rfl

end Item

/-- The empty name is looked for in the line of the section for ever. -/
theorem itemLoop_nil {buffer : Text} {place : ℕ} {outcome : Outcome}
    (hopen : buffer[place]? = some openBracket)
    (hlength : place + 1 < buffer.length) :
    ¬ Returns (itemLoop buffer [] (place + 1)) outcome := by
  obtain ⟨next, hnext, hreturns⟩ := exists_nextSection hopen hlength
  intro hitem
  obtain ⟨fuel, hfuel⟩ := (nextSection_stays.returns_bind_iff
    (fun _ => searchLoop_stays) hreturns).mp hitem
  have hfeed : byteAt buffer place ≠ lineFeed := by
    rw [(byteAt_eq_iff (by decide)).mpr hopen]
    decide
  have hnever : some outcome = none := by
    refine hfuel.symm.trans (searchLoop_nil hlength
      (decide_eq_false hnext.place_lt.not_ge) (decide_eq_false ?_) fuel)
    exact fun hwants => hfeed hwants.1
  cases hnever

end MessageBus.IniFile
