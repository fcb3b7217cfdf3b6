import Mathlib.Data.List.Infix
import Mathlib.Tactic

/-!
# Searching a text for a name

`strstr` finds the first place of a name from a place on.  A loop that wants the
name at certain places only goes on behind each other occurrence.  Such a loop
misses nothing, as long as no occurrence that it passes over reaches into one
that it wants.
-/

namespace MessageBus.TextSearch

variable {α : Type} [DecidableEq α]

/-- The name stands at a place of the text. -/
abbrev Occurs (text needle : List α) (place : ℕ) : Prop :=
  needle <+: text.drop place

def strstr (text needle : List α) (start : ℕ) : Option ℕ :=
  ((text.drop start).tails.findIdx? fun tail => needle.isPrefixOf tail).map
    (start + ·)

/-- How a loop over the occurrences ends: it gives up, it finds a place that it
wants, or it comes to the end of the text. -/
inductive Outcome where
  | failed
  | found (place : ℕ)
  | ended (place : ℕ)
deriving DecidableEq

/-- `none` when the loop has not ended within `fuel` rounds. -/
def searchLoop (text needle : List α) (givesUp wants : ℕ → Bool) :
    ℕ → ℕ → Option Outcome
  | 0, _ => none
  | fuel + 1, start =>
      if text.length ≤ start then some (.ended start)
      else
        match strstr text needle start with
        | none => some .failed
        | some place =>
            if givesUp place then some .failed
            else if wants place then some (.found place)
            else
              searchLoop text needle givesUp wants fuel (place + needle.length)

/-- The text behind the last occurrence, when they are taken one after the
other. -/
def behindLast (needle : List α) : ℕ → List α → List α
  | 0, text => text
  | fuel + 1, text =>
      match strstr text needle 0 with
      | none => text
      | some place => behindLast needle fuel (text.drop (place + needle.length))

/-- The occurrences, taken one after the other, end the text. -/
def RunsOff (text needle : List α) : Prop :=
  behindLast needle text.length text = []

instance (text needle : List α) : Decidable (RunsOff text needle) :=
  inferInstanceAs (Decidable (_ = _))

/-! ## Rounds -/

section Rounds

variable {β γ : Type} {call : ℕ → Option β} {later : β → ℕ → Option γ}
  {result : β} {answer : γ}

/-- A call returns when it has rounds enough. -/
def Returns (call : ℕ → Option β) (result : β) : Prop :=
  ∃ fuel, call fuel = some result

/-- More rounds than enough change nothing. -/
def Stays (call : ℕ → Option β) : Prop :=
  ∀ fuel more result, call fuel = some result → fuel ≤ more →
    call more = some result

theorem Stays.unique (hstays : Stays call) {other : β}
    (hresult : Returns call result) (hother : Returns call other) :
    result = other := by
  obtain ⟨fuel, hfuel⟩ := hresult
  obtain ⟨more, hmore⟩ := hother
  have hleft := hstays _ (max fuel more) _ hfuel (le_max_left _ _)
  have hright := hstays _ (max fuel more) _ hmore (le_max_right _ _)
  exact Option.some.inj (hleft.symm.trans hright)

theorem Stays.bind (hstays : Stays call) (hlater : ∀ result, Stays (later result)) :
    Stays fun fuel => (call fuel).bind (later · fuel) := by
  intro fuel more answer hanswer hle
  obtain ⟨result, hresult, hafter⟩ := Option.bind_eq_some_iff.mp hanswer
  exact Option.bind_eq_some_iff.mpr
    ⟨result, hstays _ _ _ hresult hle, hlater result _ _ _ hafter hle⟩

theorem Stays.const (outcome : Option β) : Stays fun _ => outcome :=
  fun _ _ _ hresult _ => hresult

theorem Stays.map (hstays : Stays call) (change : β → γ) :
    Stays fun fuel => (call fuel).map change := by
  intro fuel more answer hanswer hle
  obtain ⟨result, hresult, rfl⟩ := Option.map_eq_some_iff.mp hanswer
  exact Option.map_eq_some_iff.mpr ⟨result, hstays _ _ _ hresult hle, rfl⟩

/-- Of two calls, the second is what matters once the first has returned. -/
theorem Stays.returns_bind_iff
    (hstays : Stays call) (hlater : ∀ result, Stays (later result))
    (hresult : Returns call result) :
    Returns (fun fuel => (call fuel).bind (later · fuel)) answer ↔
      Returns (later result) answer := by
  constructor
  · rintro ⟨fuel, hfuel⟩
    obtain ⟨found, hfound, hafter⟩ := Option.bind_eq_some_iff.mp hfuel
    rw [hstays.unique hresult ⟨fuel, hfound⟩]
    exact ⟨fuel, hafter⟩
  · rintro ⟨more, hmore⟩
    obtain ⟨fuel, hfuel⟩ := hresult
    exact ⟨max fuel more, Option.bind_eq_some_iff.mpr
      ⟨result, hstays _ _ _ hfuel (le_max_left _ _),
        hlater result _ _ _ hmore (le_max_right _ _)⟩⟩

theorem Returns.map (hresult : Returns call result) (change : β → γ) :
    Returns (fun fuel => (call fuel).map change) (change result) := by
  obtain ⟨fuel, hfuel⟩ := hresult
  exact ⟨fuel, Option.map_eq_some_iff.mpr ⟨result, hfuel, rfl⟩⟩

end Rounds

section Strstr

variable {text needle : List α} {start place index : ℕ}

omit [DecidableEq α] in
theorem Occurs.getElem? (hoccurs : Occurs text needle place)
    (hindex : index < needle.length) :
    text[place + index]? = needle[index]? := by
  obtain ⟨rest, hrest⟩ := hoccurs
  rw [← List.getElem?_drop, ← hrest, List.getElem?_append_left hindex]

omit [DecidableEq α] in
/-- What stands inside an occurrence belongs to the name. -/
theorem Occurs.mem (hoccurs : Occurs text needle place) {letter : α}
    (hletter : text[index]? = some letter) (hle : place ≤ index)
    (hlt : index < place + needle.length) : letter ∈ needle := by
  obtain ⟨offset, rfl⟩ := Nat.exists_eq_add_of_le hle
  rw [hoccurs.getElem? (by omega)] at hletter
  exact List.mem_of_getElem? hletter

omit [DecidableEq α] in
theorem Occurs.add_length_le (hneedle : needle ≠ [])
    (hoccurs : Occurs text needle place) :
    place + needle.length ≤ text.length := by
  have hlength := hoccurs.length_le
  have hpos := List.length_pos_iff.mpr hneedle
  rw [List.length_drop] at hlength
  omega

theorem strstr_nil : strstr text [] start = some start := by
  cases hdrop : text.drop start with
  | nil => simp [strstr, hdrop]
  | cons letter rest => simp [strstr, hdrop, List.findIdx?_cons]

theorem strstr_eq_some_iff (hneedle : needle ≠ []) :
    strstr text needle start = some place ↔
      start ≤ place ∧ Occurs text needle place ∧
        ∀ earlier, start ≤ earlier → earlier < place →
          ¬ Occurs text needle earlier := by
  simp only [strstr, Option.map_eq_some_iff,
    List.findIdx?_eq_some_iff_getElem, List.getElem_tails, List.length_tails,
    List.isPrefixOf_iff_prefix, List.drop_drop]
  constructor
  · rintro ⟨offset, ⟨-, hoccurs, hfirst⟩, rfl⟩
    refine ⟨Nat.le_add_right _ _, hoccurs, ?_⟩
    intro earlier hle hlt
    obtain ⟨before, rfl⟩ := Nat.exists_eq_add_of_le hle
    exact hfirst before (by omega)
  · rintro ⟨hle, hoccurs, hfirst⟩
    obtain ⟨offset, rfl⟩ := Nat.exists_eq_add_of_le hle
    have hlength := Occurs.add_length_le hneedle hoccurs
    refine ⟨offset, ⟨?_, hoccurs, ?_⟩, rfl⟩
    · rw [List.length_drop]
      omega
    · intro before hlt
      exact hfirst (start + before) (by omega) (by omega)

theorem strstr_eq_none_iff (hneedle : needle ≠ []) :
    strstr text needle start = none ↔
      ∀ place, start ≤ place → ¬ Occurs text needle place := by
  constructor
  · intro hnone place hle hoccurs
    -- The least of the places would have been found.
    classical
    have hexists : ∃ place, start ≤ place ∧ Occurs text needle place :=
      ⟨place, hle, hoccurs⟩
    obtain ⟨hstart, hfirst⟩ := Nat.find_spec hexists
    have hsome := (strstr_eq_some_iff hneedle).mpr ⟨hstart, hfirst,
      fun earlier hearlier hlt hocc =>
        Nat.find_min hexists hlt ⟨hearlier, hocc⟩⟩
    rw [hnone] at hsome
    cases hsome
  · intro hnone
    cases hstrstr : strstr text needle start with
    | none => rfl
    | some place =>
        obtain ⟨hle, hoccurs, -⟩ := (strstr_eq_some_iff hneedle).mp hstrstr
        exact absurd hoccurs (hnone place hle)

end Strstr

section Loop

variable {text needle : List α} {givesUp wants : ℕ → Bool}
  {start place : ℕ}

theorem searchLoop_stays :
    Stays fun fuel => searchLoop text needle givesUp wants fuel start := by
  intro fuel more outcome hresult hle
  induction fuel generalizing more start with
  | zero => cases hresult
  | succ fuel ih =>
      obtain ⟨more, rfl⟩ :=
        Nat.exists_eq_add_of_le' (show 1 ≤ more by omega)
      simp only [searchLoop] at hresult ⊢
      split_ifs at hresult ⊢ with hend
      · exact hresult
      · split at hresult
        · exact hresult
        · split_ifs at hresult ⊢ with hgive hwant
          · exact hresult
          · exact hresult
          · exact ih _ hresult (by omega)

/-- The empty name is found where the loop stands, for ever. -/
theorem searchLoop_nil
    (hstart : start < text.length) (hgive : givesUp start = false)
    (hwant : wants start = false) (fuel : ℕ) :
    searchLoop text [] givesUp wants fuel start = none := by
  induction fuel with
  | zero => rfl
  | succ fuel ih =>
      rw [searchLoop, if_neg (by omega), strstr_nil]
      simpa [hgive, hwant] using ih

/-! One round. -/

section Round

variable {fuel : ℕ} {outcome : Outcome} (hstart : start < text.length)

include hstart

theorem returns_failed_of_none (hstrstr : strstr text needle start = none) :
    Returns (fun fuel => searchLoop text needle givesUp wants fuel start)
      .failed :=
  ⟨1, by simp [searchLoop, hstart.not_ge, hstrstr]⟩

variable (hstrstr : strstr text needle start = some place)

include hstrstr

theorem returns_failed_of_givesUp (hgive : givesUp place = true) :
    Returns (fun fuel => searchLoop text needle givesUp wants fuel start)
      .failed :=
  ⟨1, by simp [searchLoop, hstart.not_ge, hstrstr, hgive]⟩

theorem returns_found_of_wants (hgive : givesUp place = false)
    (hwant : wants place = true) :
    Returns (fun fuel => searchLoop text needle givesUp wants fuel start)
      (.found place) :=
  ⟨1, by simp [searchLoop, hstart.not_ge, hstrstr, hgive, hwant]⟩

theorem Returns.next
    (hlater : Returns (fun fuel => searchLoop text needle givesUp wants fuel
      (place + needle.length)) outcome)
    (hgive : givesUp place = false) (hwant : wants place = false) :
    Returns (fun fuel => searchLoop text needle givesUp wants fuel start)
      outcome := by
  obtain ⟨fuel, hfuel⟩ := hlater
  refine ⟨fuel + 1, ?_⟩
  simpa [searchLoop, hstart.not_ge, hstrstr, hgive, hwant] using hfuel

end Round

variable (hneedle : needle ≠ [])

include hneedle

/-- A wanted place is found when no occurrence before it makes the loop give up
or reaches into it. -/
theorem searchLoop_found
    (hle : start ≤ place) (hoccurs : Occurs text needle place)
    (hwant : wants place = true)
    (hfirst : ∀ earlier, start ≤ earlier → earlier < place →
      Occurs text needle earlier →
        wants earlier = false ∧ earlier + needle.length ≤ place)
    (hgive : ∀ earlier, start ≤ earlier → earlier ≤ place →
      Occurs text needle earlier → givesUp earlier = false) :
    Returns (fun fuel => searchLoop text needle givesUp wants fuel start)
      (.found place) := by
  obtain ⟨rounds, hrounds⟩ : ∃ rounds, rounds = place - start := ⟨_, rfl⟩
  have hpos := List.length_pos_iff.mpr hneedle
  have hlength := hoccurs.add_length_le hneedle
  induction rounds using Nat.strong_induction_on generalizing start with
  | _ rounds ih =>
      cases hstrstr : strstr text needle start with
      | none =>
          exact absurd hoccurs
            ((strstr_eq_none_iff hneedle).mp hstrstr place hle)
      | some first =>
          obtain ⟨hstart, hocc, hleast⟩ :=
            (strstr_eq_some_iff hneedle).mp hstrstr
          have hfirstLe : first ≤ place := by
            by_contra hlt
            exact hleast place hle (not_le.mp hlt) hoccurs
          have hgoes := hgive first hstart hfirstLe hocc
          rcases hfirstLe.eq_or_lt with rfl | hlt
          · exact returns_found_of_wants (by omega) hstrstr hgoes hwant
          · obtain ⟨hnot, hbehind⟩ := hfirst first hstart hlt hocc
            have hlater := ih (place - (first + needle.length)) (by omega)
              hbehind (fun earlier hearlier => hfirst earlier (by omega))
              (fun earlier hearlier => hgive earlier (by omega)) rfl
            exact hlater.next (by omega) hstrstr hgoes hnot

theorem searchLoop_failed
    {bound : ℕ} (hle : start ≤ bound) (hbound : bound < text.length)
    (hgive : ∀ place, Occurs text needle place → bound ≤ place →
      givesUp place = true)
    (hbefore : ∀ place, start ≤ place → place < bound →
      Occurs text needle place → givesUp place = false →
        wants place = false ∧ place + needle.length ≤ bound) :
    Returns (fun fuel => searchLoop text needle givesUp wants fuel start)
      .failed := by
  obtain ⟨rounds, hrounds⟩ : ∃ rounds, rounds = bound - start := ⟨_, rfl⟩
  have hpos := List.length_pos_iff.mpr hneedle
  induction rounds using Nat.strong_induction_on generalizing start with
  | _ rounds ih =>
      cases hstrstr : strstr text needle start with
      | none => exact returns_failed_of_none (by omega) hstrstr
      | some first =>
          obtain ⟨hstart, hocc, -⟩ := (strstr_eq_some_iff hneedle).mp hstrstr
          cases hgoes : givesUp first with
          | true => exact returns_failed_of_givesUp (by omega) hstrstr hgoes
          | false =>
              have hlt : first < bound := by
                by_contra hnot
                simp [hgive first hocc (not_lt.mp hnot)] at hgoes
              obtain ⟨hnot, hbehind⟩ := hbefore first hstart hlt hocc hgoes
              have hlater := ih (bound - (first + needle.length)) (by omega)
                hbehind (fun place hplace => hbefore place (by omega)) rfl
              exact hlater.next (by omega) hstrstr hgoes hnot

/-- The rounds of `behindLast` do not matter when they are enough. -/
theorem searchLoop_behindLast
    (hstart : start ≤ text.length)
    (hnone : ∀ place, start ≤ place → Occurs text needle place →
      givesUp place = false ∧ wants place = false)
    {rounds : ℕ} (hrounds : text.length - start ≤ rounds) :
    Returns (fun fuel => searchLoop text needle givesUp wants fuel start)
      (if behindLast needle rounds (text.drop start) = [] then
        .ended text.length else .failed) := by
  have hpos := List.length_pos_iff.mpr hneedle
  induction rounds generalizing start with
  | zero =>
      obtain rfl : start = text.length := by omega
      exact ⟨1, by simp [searchLoop, behindLast]⟩
  | succ rounds ih =>
      have hdrop : strstr text needle start =
          (strstr (text.drop start) needle 0).map (start + ·) := by
        simp [strstr]
      cases hstrstr : strstr (text.drop start) needle 0 with
      | none =>
          rw [hstrstr, Option.map_none] at hdrop
          rw [behindLast, hstrstr]
          simp only [List.drop_eq_nil_iff]
          split_ifs with hend
          · exact ⟨1, by simp [searchLoop, hstart.antisymm hend]⟩
          · exact returns_failed_of_none (not_le.mp hend) hdrop
      | some offset =>
          rw [hstrstr, Option.map_some] at hdrop
          obtain ⟨hle, hocc, -⟩ := (strstr_eq_some_iff hneedle).mp hdrop
          have hlength := hocc.add_length_le hneedle
          obtain ⟨hgoes, hnot⟩ := hnone _ hle hocc
          have hlater := ih hlength
            (fun place hplace => hnone place (by omega)) (by omega)
          rw [behindLast, hstrstr]
          simp only [List.drop_drop, ← Nat.add_assoc]
          exact hlater.next (by omega) hdrop hgoes hnot

/-- A loop that never finds what it wants ends with the text when the
occurrences do, and fails otherwise. -/
theorem searchLoop_of_unwanted
    (hstart : start ≤ text.length)
    (hnone : ∀ place, start ≤ place → Occurs text needle place →
      givesUp place = false ∧ wants place = false) :
    Returns (fun fuel => searchLoop text needle givesUp wants fuel start)
      (if RunsOff (text.drop start) needle then .ended text.length
        else .failed) :=
  searchLoop_behindLast hneedle hstart hnone List.length_drop.ge

end Loop

/-! ## Lines -/

section Lines

variable (lineFeed : α)

/-- What the text is from the start of each line on, the first line apart. -/
def laterLines : List α → List (List α)
  | [] => []
  | letter :: rest =>
      if letter = lineFeed then rest :: laterLines rest else laterLines rest

/-- A later line starts at a place of the text. -/
def StartsLine (text : List α) (place : ℕ) : Prop :=
  0 < place ∧ text[place - 1]? = some lineFeed

variable {lineFeed} {text : List α} {place : ℕ}

theorem splitOn_eq (text : List α) :
    text.splitOn lineFeed =
      (text :: laterLines lineFeed text).map
        (·.takeWhile (· ≠ lineFeed)) := by
  induction text with
  | nil => rfl
  | cons letter rest ih =>
      rw [List.splitOn, List.splitOnP_cons_eq_if_modifyHead,
        ← List.splitOn, ih, laterLines]
      by_cases hletter : letter = lineFeed
      · simp [hletter]
      · simp [hletter]

omit [DecidableEq α] in
theorem startsLine_cons {letter : α} :
    StartsLine lineFeed (letter :: text) (place + 1) ↔
      place = 0 ∧ letter = lineFeed ∨ StartsLine lineFeed text place := by
  cases place with
  | zero => simp [StartsLine]
  | succ place => simp [StartsLine]

theorem mem_laterLines_iff {tail : List α} :
    tail ∈ laterLines lineFeed text ↔
      ∃ place, StartsLine lineFeed text place ∧ tail = text.drop place := by
  induction text with
  | nil => simp [laterLines, StartsLine]
  | cons letter rest ih =>
      have hlater : tail ∈ laterLines lineFeed (letter :: rest) ↔
          letter = lineFeed ∧ tail = rest ∨ tail ∈ laterLines lineFeed rest := by
        rw [laterLines]
        split_ifs with hletter <;> simp [hletter]
      rw [hlater, ih]
      constructor
      · rintro (⟨hletter, rfl⟩ | ⟨place, hstarts, rfl⟩)
        · exact ⟨1, startsLine_cons.mpr (Or.inl ⟨rfl, hletter⟩), rfl⟩
        · exact ⟨place + 1, startsLine_cons.mpr (Or.inr hstarts), rfl⟩
      · rintro ⟨place, hstarts, rfl⟩
        obtain ⟨place, rfl⟩ := Nat.exists_eq_add_of_le' hstarts.1
        rcases startsLine_cons.mp hstarts with ⟨rfl, hletter⟩ | hstarts
        · exact Or.inl ⟨hletter, rfl⟩
        · exact Or.inr ⟨place, hstarts, rfl⟩

/-- The first of the later lines that is wanted. -/
theorem exists_of_find?_laterLines {wants : List α → Bool} {tail : List α}
    (hfind : (laterLines lineFeed text).find? wants = some tail) :
    ∃ place, StartsLine lineFeed text place ∧ tail = text.drop place ∧
      ∀ earlier < place, StartsLine lineFeed text earlier →
        wants (text.drop earlier) = false := by
  induction text with
  | nil => cases hfind
  | cons letter rest ih =>
      -- What holds of the places in the rest holds one place later.
      have hshift : (laterLines lineFeed rest).find? wants = some tail →
          (letter = lineFeed → wants rest = false) →
          ∃ place, StartsLine lineFeed (letter :: rest) place ∧
            tail = (letter :: rest).drop place ∧
            ∀ earlier < place, StartsLine lineFeed (letter :: rest) earlier →
              wants ((letter :: rest).drop earlier) = false := by
        intro hrest hunwanted
        obtain ⟨place, hstarts, rfl, hfirst⟩ := ih hrest
        refine ⟨place + 1, startsLine_cons.mpr (Or.inr hstarts), rfl, ?_⟩
        intro earlier hlt hearlier
        obtain ⟨earlier, rfl⟩ := Nat.exists_eq_add_of_le' hearlier.1
        rcases startsLine_cons.mp hearlier with ⟨rfl, hletter⟩ | hearlier
        · exact hunwanted hletter
        · exact hfirst earlier (by omega) hearlier
      rw [laterLines] at hfind
      split_ifs at hfind with hletter
      · rw [List.find?_cons] at hfind
        split at hfind
        · cases hfind
          refine ⟨1, startsLine_cons.mpr (Or.inl ⟨rfl, hletter⟩), rfl, ?_⟩
          rintro earlier hlt ⟨hpos, -⟩
          omega
        · next hunwanted => exact hshift hfind fun _ => hunwanted
      · exact hshift hfind fun hfeed => absurd hfeed hletter

theorem dropWhile_laterLines (wants : List α → Bool) :
    (laterLines lineFeed text).dropWhile (fun tail => !wants tail) =
      match (laterLines lineFeed text).find? wants with
      | none => []
      | some tail => tail :: laterLines lineFeed tail := by
  induction text with
  | nil => rfl
  | cons letter rest ih =>
      rw [laterLines]
      split_ifs
      · cases hwants : wants rest with
        | true => simp [hwants]
        | false => simpa [hwants] using ih
      · exact ih

theorem dropWhile_lines (wants : List α → Bool) :
    (text :: laterLines lineFeed text).dropWhile (fun tail => !wants tail) =
      match (text :: laterLines lineFeed text).find? wants with
      | none => []
      | some tail => tail :: laterLines lineFeed tail := by
  cases hwants : wants text with
  | true => simp [hwants]
  | false => simpa [hwants] using dropWhile_laterLines wants

end Lines

/-- The first element that is wanted, as long as all elements are let in. -/
theorem find?_takeWhile {β : Type} (inside wants : β → Bool) (list : List β) :
    (list.takeWhile inside).find? wants =
      (list.find? fun element => wants element || !inside element).filter
        inside := by
  induction list with
  | nil => rfl
  | cons element list ih =>
      cases hinside : inside element with
      | false => simp [hinside, Option.filter]
      | true =>
          cases hwants : wants element with
          | true => simp [hinside, hwants, Option.filter]
          | false => simpa [hinside, hwants] using ih

omit [DecidableEq α] in
/-- A name without the letter is in the text before it or not at all. -/
theorem prefix_takeWhile_iff {needle text : List α} {inside : α → Bool}
    (hneedle : ∀ letter ∈ needle, inside letter = true) :
    needle <+: text.takeWhile inside ↔ needle <+: text := by
  constructor
  · exact fun hbegins => hbegins.trans (List.takeWhile_prefix _)
  · rintro ⟨rest, rfl⟩
    rw [List.takeWhile_append_of_pos hneedle]
    exact List.prefix_append _ _

end MessageBus.TextSearch
