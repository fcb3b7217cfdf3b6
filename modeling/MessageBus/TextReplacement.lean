import MessageBus.TextSearch

/-!
# Replacing in texts

`MyReplaceAll` and the two `StringReplace` of `mmlib/util/util.cpp`.
`MyReplaceAll` searches from the start again after each replacement, the others
go on behind it.  They agree as long as no replacement makes an occurrence that
the search from the start finds before the next one.
-/

namespace MessageBus.TextReplacement

open TextSearch

abbrev Text := List UInt8

/-- `string::replace`. -/
def replaceAt (text : Text) (pos len : ℕ) (sub : Text) : Text :=
  text.take pos ++ sub ++ text.drop (pos + len)

/-- `MyReplaceAll`; `none` when it has not ended within `fuel` rounds. -/
def myReplaceAll (strOld strNew : Text) : ℕ → Text → Option Text
  | 0, _ => none
  | fuel + 1, strInput =>
      match strstr strInput strOld 0 with
      | none => some strInput
      | some pos =>
          myReplaceAll strOld strNew fuel
            (replaceAt strInput pos strOld.length strNew)

/-- The loop of `StringReplace`, with where it stops and `sRes`. -/
def replaceLoop (sStr sOldSub sNewSub : Text) (bReplaceAll : Bool) :
    ℕ → ℕ → Text → Option (ℕ × Text)
  | 0, _, _ => none
  | fuel + 1, iStartPos, sRes =>
      match strstr sStr sOldSub iStartPos with
      | none => some (iStartPos, sRes)
      | some iPos =>
          let sRes := sRes ++ (sStr.drop iStartPos).take (iPos - iStartPos)
          let sRes := sRes ++ sNewSub
          let iStartPos := iPos + sOldSub.length
          if bReplaceAll then
            replaceLoop sStr sOldSub sNewSub bReplaceAll fuel iStartPos sRes
          else some (iStartPos, sRes)

/-- The `StringReplace` that appends to `sRes`. -/
def stringReplaceTo (sStr sOldSub sNewSub : Text) (bReplaceAll : Bool)
    (sRes : Text) : Option Text :=
  if sOldSub = [] then some (sRes ++ sStr)
  else
    (replaceLoop sStr sOldSub sNewSub bReplaceAll (sStr.length + 1) 0 sRes).map
      fun (iStartPos, sRes) =>
        sRes ++ (sStr.drop iStartPos).take (sStr.length - iStartPos)

/-- The `StringReplace` that returns its result. -/
def stringReplace (sStr sOldSub sNewSub : Text) (bReplaceAll : Bool) :
    Option Text :=
  stringReplaceTo sStr sOldSub sNewSub bReplaceAll []

/-! ## The occurrences that stand side by side -/

section Cuts

variable {old new front text tail : Text} {pos : ℕ}

/-- The gaps between the occurrences of a text, taken from left to right. -/
def cutLoop (old : Text) : ℕ → Text → Text × List Text
  | 0, text => (text, [])
  | fuel + 1, text =>
      match strstr text old 0 with
      | none => (text, [])
      | some pos =>
          let later := cutLoop old fuel (text.drop (pos + old.length))
          (text.take pos, later.1 :: later.2)

def cut (old text : Text) : Text × List Text :=
  cutLoop old text.length text

/-- The gaps with a text between them. -/
def fill (between : Text) (front : Text) (gaps : List Text) : Text :=
  front ++ gaps.flatMap (between ++ ·)

/-- The gaps are those between the occurrences from left to right. -/
def IsCut (old : Text) : Text → List Text → Prop
  | front, [] => strstr front old 0 = none
  | front, gap :: gaps =>
      strstr (fill old front (gap :: gaps)) old 0 = some front.length ∧
        IsCut old gap gaps

@[simp] theorem fill_nil (between front : Text) : fill between front [] = front := by
  simp [fill]

theorem fill_cons (between front gap : Text) (gaps : List Text) :
    fill between front (gap :: gaps) = front ++ between ++ fill between gap gaps := by
  simp [fill]

theorem fill_append (between front gap : Text) (gaps : List Text) :
    fill between (front ++ gap) gaps = front ++ fill between gap gaps := by
  simp [fill]

theorem take_append_of_strstr (hold : old ≠ [])
    (hfind : strstr text old 0 = some pos) :
    text = text.take pos ++ old ++ text.drop (pos + old.length) := by
  obtain ⟨-, ⟨tail, htail⟩, -⟩ := (strstr_eq_some_iff hold).mp hfind
  rw [← List.drop_drop, ← htail, List.drop_left, List.append_assoc, htail,
    List.take_append_drop]

theorem strstr_length_le (hold : old ≠ []) (hfind : strstr text old 0 = some pos) :
    pos + old.length ≤ text.length := by
  obtain ⟨-, hoccurs, -⟩ := (strstr_eq_some_iff hold).mp hfind
  exact Occurs.add_length_le hold hoccurs

/-- More rounds than letters change nothing. -/
theorem cutLoop_eq (hold : old ≠ []) {fuel : ℕ} (hfuel : text.length ≤ fuel) :
    cutLoop old fuel text = cut old text := by
  have hpos := List.length_pos_iff.mpr hold
  suffices ∀ fuel more (text : Text), text.length ≤ fuel → text.length ≤ more →
      cutLoop old fuel text = cutLoop old more text from
    this _ _ _ hfuel le_rfl
  intro fuel
  induction fuel with
  | zero =>
      intro more text hle hmore
      cases more with
      | zero => rfl
      | succ more =>
          rw [Nat.le_zero, List.length_eq_zero_iff] at hle
          cases hfind : strstr text old 0 with
          | none => simp [cutLoop, hfind]
          | some pos =>
              have hlength := strstr_length_le hold hfind
              rw [hle, List.length_nil] at hlength
              omega
  | succ fuel ih =>
      intro more text hle hmore
      cases hfind : strstr text old 0 with
      | none => cases more <;> simp [cutLoop, hfind]
      | some pos =>
          have hlength := strstr_length_le hold hfind
          cases more with
          | zero => omega
          | succ more =>
              simp only [cutLoop, hfind]
              rw [ih more _ (by rw [List.length_drop]; omega)
                (by rw [List.length_drop]; omega)]

theorem cut_of_none (hfind : strstr text old 0 = none) :
    cut old text = (text, []) := by
  rw [cut]
  cases hlength : text.length <;> simp [cutLoop, hfind]

theorem cut_of_some (hold : old ≠ []) (hfind : strstr text old 0 = some pos) :
    cut old text =
      (text.take pos, (cut old (text.drop (pos + old.length))).1 ::
        (cut old (text.drop (pos + old.length))).2) := by
  have hlength := strstr_length_le hold hfind
  have hpos := List.length_pos_iff.mpr hold
  obtain ⟨fuel, hfuel⟩ : ∃ fuel, text.length = fuel + 1 :=
    ⟨text.length - 1, by omega⟩
  rw [cut, hfuel]
  simp only [cutLoop, hfind]
  rw [cutLoop_eq hold (by rw [List.length_drop]; omega)]

theorem cutLoop_fill (hold : old ≠ []) (fuel : ℕ) (text : Text) :
    fill old (cutLoop old fuel text).1 (cutLoop old fuel text).2 = text := by
  induction fuel generalizing text with
  | zero => simp [cutLoop]
  | succ fuel ih =>
      rw [cutLoop]
      cases hfind : strstr text old 0 with
      | none => simp
      | some pos =>
          rw [fill_cons, ih]
          exact (take_append_of_strstr hold hfind).symm

theorem cutLoop_isCut (hold : old ≠ []) {fuel : ℕ} (hfuel : text.length ≤ fuel) :
    IsCut old (cutLoop old fuel text).1 (cutLoop old fuel text).2 := by
  induction fuel generalizing text with
  | zero =>
      rw [Nat.le_zero, List.length_eq_zero_iff] at hfuel
      rw [hfuel, cutLoop, IsCut, strstr_eq_none_iff hold]
      intro place _ hoccurs
      rw [Occurs, List.drop_nil, List.prefix_nil] at hoccurs
      exact hold hoccurs
  | succ fuel ih =>
      have hwhole := cutLoop_fill hold (fuel + 1) text
      rw [cutLoop] at hwhole ⊢
      cases hfind : strstr text old 0 with
      | none => exact hfind
      | some pos =>
          rw [hfind] at hwhole
          have hle := strstr_length_le hold hfind
          have hpos := List.length_pos_iff.mpr hold
          refine ⟨?_, ih (by rw [List.length_drop]; omega)⟩
          rw [hwhole, hfind, List.length_take, Nat.min_eq_left (by omega)]

theorem cut_fill (hold : old ≠ []) (text : Text) :
    fill old (cut old text).1 (cut old text).2 = text :=
  cutLoop_fill hold _ _

theorem cut_isCut (hold : old ≠ []) (text : Text) :
    IsCut old (cut old text).1 (cut old text).2 :=
  cutLoop_isCut hold le_rfl

end Cuts

/-! ## Going on behind each replacement -/

section StringReplace

variable {old new text : Text} {pos start fuel : ℕ}

theorem strstr_drop (start : ℕ) :
    strstr text old start = (strstr (text.drop start) old 0).map (start + ·) := by
  simp [strstr]

theorem replaceLoop_fill (hold : old ≠ []) (hfuel : text.length < fuel + start)
    (hstart : start ≤ text.length) (sRes : Text) :
    ((replaceLoop text old new true fuel start sRes).map
      fun (iStartPos, sRes) =>
        sRes ++ (text.drop iStartPos).take (text.length - iStartPos)) =
      some (sRes ++ fill new (cut old (text.drop start)).1
        (cut old (text.drop start)).2) := by
  induction fuel generalizing start sRes with
  | zero => omega
  | succ fuel ih =>
      rw [replaceLoop]
      cases hfind : strstr (text.drop start) old 0 with
      | none =>
          simp only [strstr_drop start, hfind, Option.map_none, Option.map_some]
          rw [cut_of_none hfind, fill_nil, ← List.length_drop, List.take_length]
      | some pos =>
          have hlength := strstr_length_le hold hfind
          have hpos := List.length_pos_iff.mpr hold
          rw [List.length_drop] at hlength
          simp only [strstr_drop start, hfind, Option.map_some, if_true,
            Nat.add_sub_cancel_left]
          rw [ih (by omega) (by omega), cut_of_some hold hfind, fill_cons, List.drop_drop,
            ← Nat.add_assoc]
          simp only [List.append_assoc]

theorem stringReplace_fill (hold : old ≠ []) (text new : Text) :
    stringReplace text old new true =
      some (fill new (cut old text).1 (cut old text).2) := by
  rw [stringReplace, stringReplaceTo, if_neg hold,
    replaceLoop_fill hold (by omega) (Nat.zero_le _)]
  simp

end StringReplace

/-! ## Searching from the start again -/

section MyReplaceAll

variable {old new front gap text tail result : Text} {gaps : List Text}
  {pos fuel : ℕ}

/-- With the first occurrences replaced, the next one is found first, or one
that does as well, and at the end none is left. -/
def Undisturbed (old new : Text) : Text → List Text → Prop
  | front, [] => strstr front old 0 = none
  | front, gap :: gaps =>
      (strstr (front ++ old) old 0).map
          (replaceAt (front ++ old) · old.length new) = some (front ++ new) ∧
        Undisturbed old new (front ++ new ++ gap) gaps

instance decidableUndisturbed (old new : Text) :
    ∀ front gaps, Decidable (Undisturbed old new front gaps)
  | front, [] => inferInstanceAs (Decidable (strstr front old 0 = none))
  | front, gap :: gaps =>
      have := decidableUndisturbed old new (front ++ new ++ gap) gaps
      inferInstanceAs (Decidable (_ ∧ _))

theorem returns_of_none (hfind : strstr text old 0 = none) :
    Returns (myReplaceAll old new · text) text :=
  ⟨1, by simp [myReplaceAll, hfind]⟩

theorem returns_some_iff (hfind : strstr text old 0 = some pos) :
    Returns (myReplaceAll old new · text) result ↔
      Returns (myReplaceAll old new · (replaceAt text pos old.length new))
        result := by
  constructor
  · rintro ⟨_ | fuel, hfuel⟩
    · cases hfuel
    · refine ⟨fuel, ?_⟩
      simpa [myReplaceAll, hfind] using hfuel
  · rintro ⟨fuel, hfuel⟩
    exact ⟨fuel + 1, by simpa [myReplaceAll, hfind] using hfuel⟩

/-- What is returned has no occurrence. -/
theorem strstr_of_returns (hresult : Returns (myReplaceAll old new · text) result) :
    strstr result old 0 = none := by
  obtain ⟨fuel, hfuel⟩ := hresult
  induction fuel generalizing text with
  | zero => cases hfuel
  | succ fuel ih =>
      simp only [myReplaceAll] at hfuel
      cases hfind : strstr text old 0 with
      | none =>
          rw [hfind] at hfuel
          rwa [← Option.some.inj hfuel]
      | some pos =>
          rw [hfind] at hfuel
          exact ih hfuel

theorem replaceAt_append (hle : pos + old.length ≤ text.length) :
    replaceAt (text ++ tail) pos old.length new =
      replaceAt text pos old.length new ++ tail := by
  rw [replaceAt, List.take_append_of_le_length (by omega),
    List.drop_append_of_le_length hle, replaceAt]
  simp only [List.append_assoc]

theorem occurs_append_iff (hle : pos ≤ front.length) :
    Occurs (front ++ old ++ tail) old pos ↔ Occurs (front ++ old) old pos := by
  rw [Occurs, Occurs, List.drop_append_of_le_length
    (by rw [List.length_append]; omega)]
  constructor
  · intro hoccurs
    refine List.prefix_of_prefix_length_le hoccurs (List.prefix_append ..) ?_
    rw [List.length_drop, List.length_append]
    omega
  · exact fun hoccurs => hoccurs.trans (List.prefix_append ..)

theorem strstr_append_left (hold : old ≠ []) (front tail : Text) :
    strstr (front ++ old ++ tail) old 0 = strstr (front ++ old) old 0 := by
  have hlast : Occurs (front ++ old) old front.length := by
    rw [Occurs, List.drop_left]
  cases hfind : strstr (front ++ old) old 0 with
  | none => exact absurd hlast ((strstr_eq_none_iff hold).mp hfind _ (Nat.zero_le _))
  | some pos =>
      obtain ⟨-, hoccurs, hfirst⟩ := (strstr_eq_some_iff hold).mp hfind
      have hle : pos ≤ front.length := by
        by_contra hlt
        exact hfirst _ (Nat.zero_le _) (not_le.mp hlt) hlast
      refine (strstr_eq_some_iff hold).mpr ⟨Nat.zero_le _,
        (occurs_append_iff hle).mpr hoccurs, ?_⟩
      intro earlier hstart hlt hearlier
      exact hfirst earlier hstart hlt
        ((occurs_append_iff (by omega)).mp hearlier)

theorem returns_of_undisturbed (hold : old ≠ [])
    (hundisturbed : Undisturbed old new front gaps) :
    Returns (myReplaceAll old new · (fill old front gaps))
      (fill new front gaps) := by
  induction gaps generalizing front with
  | nil =>
      rw [fill_nil, fill_nil]
      exact returns_of_none hundisturbed
  | cons gap gaps ih =>
      obtain ⟨hnext, hlater⟩ := hundisturbed
      obtain ⟨pos, hfind, hreplace⟩ := Option.map_eq_some_iff.mp hnext
      have hle := strstr_length_le hold hfind
      rw [fill_cons, returns_some_iff ((strstr_append_left hold ..).trans hfind),
        replaceAt_append hle, hreplace, fill_cons, ← fill_append, ← fill_append]
      exact ih hlater

end MyReplaceAll

/-! ## What a replacement cannot undo -/

section Sinks

variable {old new front gap text result : Text} {gaps : List Text}
  {pos place depth : ℕ} {upper lower : UInt8}

/-- The first letter that differs is the one letter here, the other there. -/
structure Sinks (upper lower : UInt8) (text : Text) (place : ℕ) (result : Text) :
    Prop where
  before : ∀ i < place, result[i]? = text[i]?
  here : text[place]? = some upper
  there : result[place]? = some lower

theorem exists_sinks (hleft : ¬ old <+: new) (hright : ¬ new <+: old) :
    ∃ upper lower place, upper ≠ lower ∧ Sinks upper lower old place new := by
  induction old generalizing new with
  | nil => exact absurd List.nil_prefix hleft
  | cons letter old ih =>
      cases new with
      | nil => exact absurd List.nil_prefix hright
      | cons other new =>
          by_cases hletter : letter = other
          · subst hletter
            rw [List.cons_prefix_cons, not_and] at hleft hright
            obtain ⟨upper, lower, place, hne, hsinks⟩ := ih (hleft rfl) (hright rfl)
            refine ⟨upper, lower, place + 1, hne, ?_, hsinks.here, hsinks.there⟩
            rintro (_ | i) hi
            · rfl
            · exact hsinks.before i (by omega)
          · exact ⟨letter, other, 0, hletter, fun i hi => absurd hi (Nat.not_lt_zero i),
              rfl, rfl⟩

/-- A replacement puts the first letter in which the two differ. -/
theorem Sinks.replaceAt (hsinks : Sinks upper lower old depth new)
    (hoccurs : Occurs text old pos) :
    Sinks upper lower text (pos + depth)
      (replaceAt text pos old.length new) := by
  obtain ⟨hdepth, -⟩ := List.getElem?_eq_some_iff.mp hsinks.here
  obtain ⟨hnew, -⟩ := List.getElem?_eq_some_iff.mp hsinks.there
  have hletter : text[pos + depth]? = some upper :=
    (hoccurs.getElem? hdepth).trans hsinks.here
  obtain ⟨hlength, -⟩ := List.getElem?_eq_some_iff.mp hletter
  have htake : (text.take pos).length = pos := by
    rw [List.length_take, Nat.min_eq_left (by omega)]
  have hinside : ∀ i < new.length,
      (TextReplacement.replaceAt text pos old.length new)[pos + i]? = new[i]? := by
    intro i hi
    rw [TextReplacement.replaceAt, List.append_assoc,
      List.getElem?_append_right (by omega), htake, Nat.add_sub_cancel_left,
      List.getElem?_append_left hi]
  refine ⟨?_, hletter, (hinside depth hnew).trans hsinks.there⟩
  intro i hi
  by_cases hbefore : i < pos
  · rw [TextReplacement.replaceAt, List.append_assoc,
      List.getElem?_append_left (by omega), List.getElem?_take_of_lt hbefore]
  · obtain ⟨j, rfl⟩ := Nat.exists_eq_add_of_le (not_lt.mp hbefore)
    rw [hinside j (by omega), hsinks.before j (by omega),
      hoccurs.getElem? (by omega)]

theorem Sinks.trans (hne : upper ≠ lower) {middle : Text} {later : ℕ}
    (hfirst : Sinks upper lower text place middle)
    (hsecond : Sinks upper lower middle later result) :
    ∃ both ≤ place, Sinks upper lower text both result := by
  rcases lt_trichotomy later place with hlt | rfl | hlt
  · refine ⟨later, hlt.le, fun i hi => ?_, ?_, hsecond.there⟩
    · rw [hsecond.before i hi, hfirst.before i (by omega)]
    · rw [← hfirst.before later hlt, hsecond.here]
  · exact absurd (Option.some.inj (hsecond.here.symm.trans hfirst.there)) hne
  · refine ⟨place, le_rfl, fun i hi => ?_, hfirst.here, ?_⟩
    · rw [hsecond.before i (by omega), hfirst.before i hi]
    · rw [hsecond.before place hlt, hfirst.there]

/-- Nothing that `MyReplaceAll` does later brings the letter back. -/
theorem sinks_of_returns (hold : old ≠ []) (hne : upper ≠ lower)
    (hsinks : Sinks upper lower old depth new)
    (hresult : Returns (myReplaceAll old new · text) result) :
    result = text ∨ ∃ place, Sinks upper lower text place result := by
  obtain ⟨fuel, hfuel⟩ := hresult
  induction fuel generalizing text with
  | zero => cases hfuel
  | succ fuel ih =>
      simp only [myReplaceAll] at hfuel
      cases hfind : strstr text old 0 with
      | none =>
          rw [hfind] at hfuel
          exact .inl (Option.some.inj hfuel).symm
      | some pos =>
          rw [hfind] at hfuel
          obtain ⟨-, hoccurs, -⟩ := (strstr_eq_some_iff hold).mp hfind
          have hstep := hsinks.replaceAt hoccurs
          rcases ih hfuel with rfl | ⟨place, hlater⟩
          · exact .inr ⟨_, hstep⟩
          · obtain ⟨both, -, hboth⟩ := hstep.trans hne hlater
            exact .inr ⟨both, hboth⟩

theorem strstr_le_front (hold : old ≠ []) (front tail : Text) :
    ∃ pos ≤ front.length, strstr (front ++ old ++ tail) old 0 = some pos := by
  have hlast : Occurs (front ++ old ++ tail) old front.length := by
    rw [Occurs, List.append_assoc, List.drop_left]
    exact List.prefix_append ..
  cases hfind : strstr (front ++ old ++ tail) old 0 with
  | none => exact absurd hlast ((strstr_eq_none_iff hold).mp hfind _ (Nat.zero_le _))
  | some pos =>
      refine ⟨pos, ?_, rfl⟩
      by_contra hlt
      obtain ⟨-, -, hfirst⟩ := (strstr_eq_some_iff hold).mp hfind
      exact hfirst _ (Nat.zero_le _) (not_le.mp hlt) hlast

/-- A result that begins like the text cannot be reached by a replacement in
front of where they begin to differ. -/
theorem le_of_returns (hold : old ≠ []) (hne : upper ≠ lower)
    (hsinks : Sinks upper lower old depth new) (hfind : strstr text old 0 = some pos)
    (hresult : Returns (myReplaceAll old new · text) result)
    (hsame : ∀ i < place + depth, result[i]? = text[i]?) :
    place ≤ pos := by
  obtain ⟨-, hoccurs, -⟩ := (strstr_eq_some_iff hold).mp hfind
  have hstep := hsinks.replaceAt hoccurs
  obtain ⟨both, hboth, hall⟩ :
      ∃ both ≤ pos + depth, Sinks upper lower text both result := by
    rcases sinks_of_returns hold hne hsinks
      ((returns_some_iff hfind).mp hresult) with rfl | ⟨later, hlater⟩
    · exact ⟨_, le_rfl, hstep⟩
    · exact hstep.trans hne hlater
  by_contra hlt
  have hletter := hsame both (by omega)
  rw [hall.there, hall.here] at hletter
  exact hne (Option.some.inj hletter).symm

theorem undisturbed_of_sinks (hold : old ≠ []) (hne : upper ≠ lower)
    (hsinks : Sinks upper lower old depth new)
    (hresult : Returns (myReplaceAll old new · (fill old front gaps))
      (fill new front gaps)) :
    Undisturbed old new front gaps := by
  induction gaps generalizing front with
  | nil =>
      have hnone := strstr_of_returns hresult
      rwa [fill_nil] at hnone
  | cons gap gaps ih =>
      rw [fill_cons, fill_cons] at hresult
      obtain ⟨pos, hle, hfind⟩ := strstr_le_front hold front (fill old gap gaps)
      -- The result has the letters of `new` where the text has those of `old`.
      have hge : front.length ≤ pos := by
        refine le_of_returns hold hne hsinks hfind hresult fun i hi => ?_
        by_cases hfront : i < front.length
        · simp only [List.append_assoc, List.getElem?_append_left hfront]
        · obtain ⟨j, rfl⟩ := Nat.exists_eq_add_of_le (not_lt.mp hfront)
          obtain ⟨hold', -⟩ := List.getElem?_eq_some_iff.mp hsinks.here
          obtain ⟨hnew', -⟩ := List.getElem?_eq_some_iff.mp hsinks.there
          simp only [List.append_assoc,
            List.getElem?_append_right (Nat.le_add_right _ _),
            Nat.add_sub_cancel_left]
          rw [List.getElem?_append_left (by omega),
            List.getElem?_append_left (by omega), hsinks.before j (by omega)]
      obtain rfl : pos = front.length := le_antisymm hle hge
      have hreplace : replaceAt (front ++ old) front.length old.length new =
          front ++ new := by
        simp [TextReplacement.replaceAt]
      have hhere : strstr (front ++ old) old 0 = some front.length :=
        (strstr_append_left hold ..).symm.trans hfind
      refine ⟨by rw [hhere, Option.map_some, hreplace], ih ?_⟩
      rw [returns_some_iff hfind, replaceAt_append (by simp), hreplace] at hresult
      rwa [fill_append, fill_append]

end Sinks

/-! ## Both together -/

section Both

variable {old new text result : Text} {fuel : ℕ}

theorem strstr_ne_none_of_inside (hold : old ≠ []) (hinside : old <:+: text) :
    strstr text old 0 ≠ none := by
  obtain ⟨front, tail, rfl⟩ := hinside
  obtain ⟨pos, -, hfind⟩ := strstr_le_front hold front tail
  rw [hfind]
  exact Option.some_ne_none pos

/-- `MyReplaceAll` ends with what `StringReplace` gives. -/
def Agree (s old new : Text) : Prop :=
  ∃ result, Returns (myReplaceAll old new · s) result ∧
    stringReplace s old new true = some result

theorem agree_iff (hold : old ≠ []) :
    Agree text old new ↔
      Returns (myReplaceAll old new ·
        (fill old (cut old text).1 (cut old text).2))
        (fill new (cut old text).1 (cut old text).2) := by
  rw [Agree, cut_fill hold, stringReplace_fill hold]
  simp [eq_comm]

theorem undisturbed_of_agree (hold : old ≠ [])
    (hnew : new <+: old → old <+: new) (hagree : Agree text old new) :
    Undisturbed old new (cut old text).1 (cut old text).2 := by
  rw [agree_iff hold] at hagree
  by_cases hbegins : old <+: new
  · cases hgaps : (cut old text).2 with
    | nil =>
        rw [hgaps, fill_nil, fill_nil] at hagree
        exact strstr_of_returns hagree
    | cons gap gaps =>
        rw [hgaps, fill_cons, fill_cons] at hagree
        have hinside : old <:+: (cut old text).1 ++ new ++ fill new gap gaps :=
          hbegins.isInfix.trans ⟨_, _, rfl⟩
        exact absurd (strstr_of_returns hagree)
          (strstr_ne_none_of_inside hold hinside)
  · obtain ⟨upper, lower, depth, hne, hsinks⟩ :=
      exists_sinks hbegins fun hback => hbegins (hnew hback)
    exact undisturbed_of_sinks hold hne hsinks hagree

/-- `MyReplaceAll` ends with the replacement of the occurrences from left to
right if no replacement disturbs the search; and only then, unless the new text
is a shorter beginning of the old one. -/
theorem myReplaceAll_agrees (s old new : Text) (hold : old ≠ []) :
    (∃ front gaps, cut old s = (front, gaps) ∧ fill old front gaps = s ∧
      IsCut old front gaps ∧
      stringReplace s old new true = some (fill new front gaps)) ∧
    (Undisturbed old new (cut old s).1 (cut old s).2 → Agree s old new) ∧
    ((new <+: old → old <+: new) → Agree s old new →
      Undisturbed old new (cut old s).1 (cut old s).2) := by
  refine ⟨⟨_, _, rfl, cut_fill hold s, cut_isCut hold s,
    stringReplace_fill hold s new⟩, ?_, undisturbed_of_agree hold⟩
  intro hundisturbed
  exact (agree_iff hold).mpr (returns_of_undisturbed hold hundisturbed)

theorem myReplaceAll_agrees_three :
    Undisturbed [97, 98] [99] [100] [[]] ∧ Agree [100, 97, 98] [97, 98] [99] :=
  ⟨by decide, (myReplaceAll_agrees [100, 97, 98] [97, 98] [99] (by decide)).2.1
    (by decide)⟩

/-- In "aab", with "b" for "ab", one call replaces twice and the other once. -/
theorem aab_not_agreed : ¬ Agree [97, 97, 98] [97, 98] [98] := by
  intro hagree
  have hundisturbed := undisturbed_of_agree (by decide) (by decide) hagree
  revert hundisturbed
  decide

end Both

end MessageBus.TextReplacement
