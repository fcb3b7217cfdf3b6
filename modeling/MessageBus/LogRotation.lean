import Mathlib.Data.Nat.Digits.Lemmas
import Mathlib.Tactic

/-!
# Turning over the log files

`RenameFile` of `mmlib/log/log.cpp` and `logsvr/logsvr_proc.cpp`.  The file that
is written becomes number 1 and each older one the next number, up to a gap in
the numbers or to the largest number that is allowed, whose file is deleted.
-/

namespace MessageBus.LogRotation

abbrev Text := List UInt8

def logDefaultMaxFileNum : ℕ := 16

/-- The files that there are, each under its path. -/
abbrev Files (File : Type) := Text → Option File

variable {File : Type}

/-! ## The system -/

/-- `open` with `O_CREAT`. -/
def openFile (empty : File) (path : Text) (files : Files File) : Files File :=
  Function.update files path (some ((files path).getD empty))

def unlink (path : Text) (files : Files File) : Files File :=
  Function.update files path none

def rename (old new : Text) (files : Files File) : Files File :=
  match files old with
  | none => files
  | some file =>
      if old = new then files
      else Function.update (Function.update files new (some file)) old none

/-! ## `RenameFile` -/

/-- `%02d`. -/
def twoDigits (number : ℕ) : Text :=
  (Nat.digits 10 number ++
    List.replicate (2 - (Nat.digits 10 number).length) 0).reverse.map
      fun digit => (48 + digit).toUInt8

/-- `%s.%02d` in 1024 bytes. -/
def fileName (pszFileName : Text) (i : ℕ) : Text :=
  (pszFileName ++ 46 :: twoDigits i).take 1023

/-- The loop that looks for the files; `rounds` are left from `i` on. -/
def countLoop (pszFileName : Text) (files : Files File) : ℕ → ℕ → ℕ → ℕ
  | 0, _, iCurrFileNum => iCurrFileNum
  | rounds + 1, i, iCurrFileNum =>
      if (files (fileName pszFileName i)).isSome then
        countLoop pszFileName files rounds (i + 1) i
      else iCurrFileNum

/-- The loop that renames the files, from `i` down. -/
def moveLoop (pszFileName : Text) : ℕ → Files File → Files File
  | 0, files => files
  | i + 1, files =>
      moveLoop pszFileName i
        (rename (fileName pszFileName (i + 1)) (fileName pszFileName (i + 2)) files)

def maxFileNum (iMaxFileNum : ℤ) : ℕ :=
  if iMaxFileNum ≤ 0 then logDefaultMaxFileNum else iMaxFileNum.toNat

/-- The files are renamed, with the lock held. -/
def turnOver (pszFileName : Text) (iMaxFileNum : ℕ) (files : Files File) :
    Files File :=
  let iCurrFileNum := countLoop pszFileName files (iMaxFileNum - 1) 1 0
  let (iCurrFileNum, files) :=
    if iCurrFileNum = iMaxFileNum - 1 then
      (iCurrFileNum - 1, unlink (fileName pszFileName iCurrFileNum) files)
    else (iCurrFileNum, files)
  rename pszFileName (fileName pszFileName 1)
    (moveLoop pszFileName iCurrFileNum files)

/-- `RenameFile`, of both classes; whether the file can be opened and whether it
can be locked is up to the system. -/
def renameFile (opens locks : Bool) (empty : File) (pszFileName : Text)
    (iMaxFileNum : ℤ) (files : Files File) : ℤ × Files File :=
  if !opens then (-1, files)
  else
    let files := openFile empty pszFileName files
    if !locks then (-2, files)
    else (0, turnOver pszFileName (maxFileNum iMaxFileNum) files)

/-- `CLog::RenameFile`. -/
def CLog.renameFile (opens locks : Bool) (empty : File) (pszFileName : Text)
    (iMaxFileNum : ℤ) (files : Files File) : ℤ × Files File :=
  LogRotation.renameFile opens locks empty pszFileName iMaxFileNum files

/-- `CLogSvrProc::RenameFile`. -/
def CLogSvrProc.renameFile (opens locks : Bool) (empty : File) (pszFileName : Text)
    (iMaxFileNum : ℤ) (files : Files File) : ℤ × Files File :=
  LogRotation.renameFile opens locks empty pszFileName iMaxFileNum files

/-! ## What turning over does -/

/-- The numbers of the files go from 1 to `count` without a gap, and on to the
largest one that is allowed or to a gap. -/
structure IsRun (files : Files File) (pszFileName : Text) (iMaxFileNum count : ℕ) :
    Prop where
  lt_max : count < iMaxFileNum
  there : ∀ i, 1 ≤ i → i ≤ count → (files (fileName pszFileName i)).isSome
  ends : count + 1 < iMaxFileNum → files (fileName pszFileName (count + 1)) = none

/-- The files are turned over. -/
structure Rotated (before after : Files File) (pszFileName : Text)
    (iMaxFileNum count : ℕ) : Prop where
  gone : after pszFileName = none
  first : after (fileName pszFileName 1) = before pszFileName
  moved : ∀ i, 1 ≤ i → i ≤ count → i + 1 < iMaxFileNum →
    after (fileName pszFileName (i + 1)) = before (fileName pszFileName i)
  others : ∀ path, path ≠ pszFileName →
    (∀ i, 1 ≤ i → i ≤ count + 1 → i < iMaxFileNum →
      path ≠ fileName pszFileName i) →
    after path = before path

/-- The paths fit into the buffers. -/
def Fits (pszFileName : Text) (iMaxFileNum : ℕ) : Prop :=
  ∀ i < iMaxFileNum, (pszFileName ++ 46 :: twoDigits i).length ≤ 1023

/-! ## The names -/

section Names

variable {pszFileName : Text} {iMaxFileNum i j : ℕ}

theorem twoDigits_value (number : ℕ) :
    (twoDigits number).map (fun byte => byte.toNat - 48) =
      (Nat.digits 10 number ++
        List.replicate (2 - (Nat.digits 10 number).length) 0).reverse := by
  rw [twoDigits, List.map_map]
  refine (List.map_congr_left fun digit hmem => ?_).trans (List.map_id _)
  have hlt : digit < 10 := by
    rcases List.mem_append.mp (List.mem_reverse.mp hmem) with hmem | hmem
    · exact Nat.digits_lt_base (by decide) hmem
    · rw [List.eq_of_mem_replicate hmem]
      decide
  interval_cases digit <;> decide

theorem twoDigits_inj (heq : twoDigits i = twoDigits j) : i = j := by
  have hdigits := twoDigits_value i
  rw [heq, twoDigits_value j] at hdigits
  have hvalues := congrArg (Nat.ofDigits 10) (List.reverse_injective hdigits)
  rw [Nat.ofDigits_append_replicate_zero, Nat.ofDigits_append_replicate_zero,
    Nat.ofDigits_digits, Nat.ofDigits_digits] at hvalues
  exact hvalues.symm

theorem Fits.fileName_eq (hfits : Fits pszFileName iMaxFileNum)
    (hi : i < iMaxFileNum) :
    fileName pszFileName i = pszFileName ++ 46 :: twoDigits i :=
  List.take_of_length_le (hfits i hi)

theorem Fits.fileName_ne (hfits : Fits pszFileName iMaxFileNum)
    (hi : i < iMaxFileNum) : fileName pszFileName i ≠ pszFileName := by
  rw [hfits.fileName_eq hi]
  intro heq
  have hlength := congrArg List.length heq
  simp at hlength

theorem Fits.fileName_inj (hfits : Fits pszFileName iMaxFileNum)
    (hi : i < iMaxFileNum) (hj : j < iMaxFileNum)
    (heq : fileName pszFileName i = fileName pszFileName j) : i = j := by
  rw [hfits.fileName_eq hi, hfits.fileName_eq hj] at heq
  exact twoDigits_inj (List.cons.inj (List.append_cancel_left heq)).2

end Names

/-! ## The loops -/

section Loops

variable {pszFileName path old new : Text} {files : Files File} {file : File}
  {iMaxFileNum i j count : ℕ}

theorem rename_eq (hfile : files old = some file) (hne : old ≠ new) :
    rename old new files =
      Function.update (Function.update files new (some file)) old none := by
  rw [rename, hfile]
  exact if_neg hne

theorem rename_of_ne (hold : path ≠ old) (hnew : path ≠ new) :
    rename old new files path = files path := by
  unfold rename
  cases files old with
  | none => rfl
  | some file =>
      by_cases hsame : old = new
      · simp only [if_pos hsame]
      · simp only [if_neg hsame, Function.update_of_ne hold,
          Function.update_of_ne hnew]

/-- The loop stops at a gap or at the end, and remembers the last file. -/
theorem countLoop_isRun {rounds : ℕ} (hi : 1 ≤ i)
    (hrounds : i + rounds = iMaxFileNum)
    (hbefore : ∀ j, 1 ≤ j → j < i → (files (fileName pszFileName j)).isSome) :
    IsRun files pszFileName iMaxFileNum
      (countLoop pszFileName files rounds i (i - 1)) := by
  induction rounds generalizing i with
  | zero =>
      rw [countLoop]
      exact ⟨by omega, fun j hj hle => hbefore j hj (by omega), by omega⟩
  | succ rounds ih =>
      rw [countLoop]
      split_ifs with hthere
      · refine ih (by omega) (by omega) fun j hj hlt => ?_
        rcases (Nat.lt_succ_iff.mp hlt).eq_or_lt with rfl | hlt
        · exact hthere
        · exact hbefore j hj hlt
      · refine ⟨by omega, fun j hj hle => hbefore j hj (by omega), fun _ => ?_⟩
        rw [Nat.sub_add_cancel hi]
        simpa using hthere

/-- What the loop has renamed stands under the next number, and number 1 is
free. -/
structure Shifted (before after : Files File) (pszFileName : Text) (count : ℕ) :
    Prop where
  moved : ∀ i, 1 ≤ i → i ≤ count →
    after (fileName pszFileName (i + 1)) = before (fileName pszFileName i)
  free : 1 ≤ count → after (fileName pszFileName 1) = none
  others : ∀ path, (∀ i, 1 ≤ i → i ≤ count + 1 → path ≠ fileName pszFileName i) →
    after path = before path

theorem moveLoop_shifted (hfits : Fits pszFileName iMaxFileNum)
    (hlt : count + 1 < iMaxFileNum)
    (hthere : ∀ i, 1 ≤ i → i ≤ count → (files (fileName pszFileName i)).isSome) :
    Shifted files (moveLoop pszFileName count files) pszFileName count := by
  induction count generalizing files with
  | zero => exact ⟨by omega, by omega, fun _ _ => rfl⟩
  | succ count ih =>
      have hname : ∀ i j, i < iMaxFileNum → j < iMaxFileNum → i ≠ j →
          fileName pszFileName i ≠ fileName pszFileName j :=
        fun i j hi hj hne heq => hne (hfits.fileName_inj hi hj heq)
      obtain ⟨file, hfile⟩ :=
        Option.isSome_iff_exists.mp (hthere (count + 1) (by omega) le_rfl)
      have hrename := rename_eq hfile (hname _ (count + 2) (by omega) (by omega)
        (by omega))
      set files' := rename (fileName pszFileName (count + 1))
        (fileName pszFileName (count + 2)) files with hfiles'
      have hsame : ∀ i ≤ count, files' (fileName pszFileName i) =
          files (fileName pszFileName i) := fun i hi =>
        rename_of_ne (hname _ _ (by omega) (by omega) (by omega))
          (hname _ _ (by omega) (by omega) (by omega))
      have hshifted := @ih files' (by omega) fun i hi hle => by
        rw [hsame i hle]
        exact hthere i hi (by omega)
      rw [moveLoop, ← hfiles']
      refine ⟨fun i hi hle => ?_, fun _ => ?_, fun path hpath => ?_⟩
      · rcases hle.eq_or_lt with rfl | hlt'
        · rw [hshifted.others _ fun j hj hjle => hname _ _ (by omega) (by omega)
            (by omega), hrename, Function.update_of_ne (hname _ _ (by omega)
            (by omega) (by omega)), Function.update_self, hfile]
        · rw [hshifted.moved i hi (by omega), hsame i (by omega)]
      · rcases Nat.eq_zero_or_pos count with rfl | hpos
        · rw [moveLoop, hrename, Function.update_self]
        · exact hshifted.free hpos
      · rw [hshifted.others path fun i hi hle => hpath i hi (by omega)]
        exact rename_of_ne (hpath _ (by omega) (by omega))
          (hpath _ (by omega) (by omega))

end Loops

/-! ## Turning over -/

section Rotation

variable {pszFileName path : Text} {files after : Files File} {file empty : File}
  {iMaxFileNum count : ℕ}

/-- Of the files that are counted, the moved ones and perhaps a last one that is
deleted, the moved ones make room for the file itself. -/
theorem Rotated.of_shifted (hfits : Fits pszFileName iMaxFileNum)
    (hbase : files pszFileName = some file) {before middle : Files File} {moves : ℕ}
    (hshifted : Shifted before middle pszFileName moves)
    (hmoves : moves + 1 < iMaxFileNum) (hle : moves ≤ count)
    (hreach : ∀ i ≤ count, i + 1 < iMaxFileNum → i ≤ moves)
    (hsame : ∀ path,
      (∀ i ≤ count, moves < i → i < iMaxFileNum → path ≠ fileName pszFileName i) →
      before path = files path) :
    Rotated files (rename pszFileName (fileName pszFileName 1) middle) pszFileName
      iMaxFileNum count := by
  have hfree : ∀ i < iMaxFileNum, pszFileName ≠ fileName pszFileName i :=
    fun i hi => (hfits.fileName_ne hi).symm
  have hname : ∀ i j, i < iMaxFileNum → j < iMaxFileNum → i ≠ j →
      fileName pszFileName i ≠ fileName pszFileName j :=
    fun i j hi hj hne heq => hne (hfits.fileName_inj hi hj heq)
  have hmiddle : middle pszFileName = some file := by
    rw [hshifted.others _ fun i _ hi => hfree i (by omega),
      hsame _ fun i _ _ hi => hfree i hi, hbase]
  have hrename := rename_eq hmiddle (hfree 1 (by omega))
  refine ⟨?_, ?_, fun i hi hicount hlt => ?_, fun path hpath hother => ?_⟩
  · rw [hrename, Function.update_self]
  · rw [hrename, Function.update_of_ne (hfree 1 (by omega)).symm,
      Function.update_self, hbase]
  · have himoves := hreach i hicount hlt
    rw [rename_of_ne (hfree _ hlt).symm (hname _ _ hlt (by omega) (by omega)),
      hshifted.moved i hi himoves,
      hsame _ fun j _ hj hjlt => hname _ _ (by omega) hjlt (by omega)]
  · rw [rename_of_ne hpath (hother 1 le_rfl (by omega) (by omega)),
      hshifted.others path fun i hi hile => hother i hi (by omega) (by omega),
      hsame path fun i hicount hi hlt => hother i (by omega) (by omega) hlt]

theorem turnOver_rotated (hfits : Fits pszFileName iMaxFileNum)
    (hmax : 2 ≤ iMaxFileNum) (hbase : files pszFileName = some file) :
    ∃ count, IsRun files pszFileName iMaxFileNum count ∧
      Rotated files (turnOver pszFileName iMaxFileNum files) pszFileName
        iMaxFileNum count := by
  have hrun : IsRun files pszFileName iMaxFileNum
      (countLoop pszFileName files (iMaxFileNum - 1) 1 0) :=
    countLoop_isRun le_rfl (by omega) (by omega)
  refine ⟨_, hrun, ?_⟩
  dsimp only [turnOver]
  generalize countLoop pszFileName files (iMaxFileNum - 1) 1 0 = count at hrun ⊢
  have hlt := hrun.lt_max
  have hother : ∀ i < iMaxFileNum, i ≠ count →
      fileName pszFileName i ≠ fileName pszFileName count :=
    fun i hi hne heq => hne (hfits.fileName_inj hi hlt heq)
  by_cases hfull : count = iMaxFileNum - 1
  · -- The last file is deleted, so that the one before it can be moved.
    simp only [if_pos hfull]
    have hthere : ∀ i, 1 ≤ i → i ≤ count - 1 →
        (unlink (fileName pszFileName count) files
          (fileName pszFileName i)).isSome := by
      intro i hi hle
      unfold unlink
      rw [Function.update_of_ne (hother i (by omega) (by omega))]
      exact hrun.there i hi (by omega)
    have hshifted := moveLoop_shifted hfits (by omega) hthere
    refine .of_shifted hfits hbase hshifted (by omega) (by omega) (by omega) ?_
    intro path hpath
    exact Function.update_of_ne (hpath count le_rfl (by omega) hlt) _ _
  · simp only [if_neg hfull]
    exact .of_shifted hfits hbase
      (moveLoop_shifted hfits (by omega) hrun.there) (by omega) le_rfl
      (fun i hi _ => hi) fun _ _ => rfl

/-- No file is lost unless the numbers are used up, and then it is the oldest. -/
theorem Rotated.kept (hrotated : Rotated files after pszFileName iMaxFileNum count)
    (hrun : IsRun files pszFileName iMaxFileNum count)
    (hpath : files path = some file)
    (hkept : ¬ (count + 1 = iMaxFileNum ∧ path = fileName pszFileName count)) :
    ∃ new, after new = some file := by
  have hlt := hrun.lt_max
  by_cases hbase : path = pszFileName
  · exact ⟨_, hrotated.first.trans (hbase ▸ hpath)⟩
  by_cases hmoved : ∃ i, 1 ≤ i ∧ i ≤ count ∧ path = fileName pszFileName i
  · obtain ⟨i, hi, hle, rfl⟩ := hmoved
    have hne : count + 1 = iMaxFileNum → i ≠ count := by
      rintro hend rfl
      exact hkept ⟨hend, rfl⟩
    exact ⟨_, (hrotated.moved i hi hle (by omega)).trans hpath⟩
  · refine ⟨path, (hrotated.others path hbase fun i hi hle hilt heq => ?_).trans hpath⟩
    obtain rfl : i = count + 1 := by
      by_contra hne
      exact hmoved ⟨i, hi, by omega, heq⟩
    rw [heq, hrun.ends hilt] at hpath
    cases hpath

theorem Rotated.deleted (hrotated : Rotated files after pszFileName iMaxFileNum count)
    (hrun : IsRun files pszFileName iMaxFileNum count)
    (hfits : Fits pszFileName iMaxFileNum) (hmax : 2 ≤ iMaxFileNum)
    (hfull : count + 1 = iMaxFileNum)
    (hdistinct : ∀ left right file, files left = some file →
      files right = some file → left = right)
    (path : Text) : after path ≠ files (fileName pszFileName count) := by
  obtain ⟨file, hfile⟩ :=
    Option.isSome_iff_exists.mp (hrun.there count (by omega) le_rfl)
  rw [hfile]
  intro hafter
  have honly : ∀ other, files other = some file → other = fileName pszFileName count :=
    fun other hother => hdistinct _ _ _ hother hfile
  by_cases hbase : path = pszFileName
  · rw [hbase, hrotated.gone] at hafter
    cases hafter
  by_cases hname : ∃ i, 1 ≤ i ∧ i < iMaxFileNum ∧ path = fileName pszFileName i
  · obtain ⟨i, hi, hlt, rfl⟩ := hname
    rcases hi.eq_or_lt with rfl | hi
    · rw [hrotated.first] at hafter
      exact (hfits.fileName_ne (by omega)) (honly _ hafter).symm
    · obtain ⟨before, rfl⟩ := Nat.exists_eq_add_of_le' hi.le
      rw [hrotated.moved before (by omega) (by omega) hlt] at hafter
      have hsame := hfits.fileName_inj (by omega) (by omega) (honly _ hafter)
      omega
  · rw [hrotated.others path hbase fun i hi _ hlt heq => hname ⟨i, hi, hlt, heq⟩]
      at hafter
    exact hname ⟨count, by omega, by omega, honly _ hafter⟩

/-- Both classes turn the files over, as far as there are numbers. -/
theorem renameFile_rotates {iMaxFileNum : ℤ}
    (hmax : 2 ≤ iMaxFileNum ∨ iMaxFileNum ≤ 0)
    (hfits : Fits pszFileName (maxFileNum iMaxFileNum)) (empty : File)
    (files : Files File) :
    ∃ count after,
      CLog.renameFile true true empty pszFileName iMaxFileNum files = (0, after) ∧
      (∀ opens locks,
        CLogSvrProc.renameFile opens locks empty pszFileName iMaxFileNum files =
          CLog.renameFile opens locks empty pszFileName iMaxFileNum files) ∧
      IsRun (openFile empty pszFileName files) pszFileName
        (maxFileNum iMaxFileNum) count ∧
      Rotated (openFile empty pszFileName files) after pszFileName
        (maxFileNum iMaxFileNum) count ∧
      (∀ path file, openFile empty pszFileName files path = some file →
        (∃ new, after new = some file) ∨
          count + 1 = maxFileNum iMaxFileNum ∧
            path = fileName pszFileName count) ∧
      (count + 1 = maxFileNum iMaxFileNum →
        (∀ left right file, openFile empty pszFileName files left = some file →
          openFile empty pszFileName files right = some file → left = right) →
        ∀ path, after path ≠
          openFile empty pszFileName files (fileName pszFileName count)) := by
  have htwo : 2 ≤ maxFileNum iMaxFileNum := by
    unfold maxFileNum logDefaultMaxFileNum
    split_ifs <;> omega
  have hbase : openFile empty pszFileName files pszFileName = some _ :=
    Function.update_self ..
  obtain ⟨count, hrun, hrotated⟩ := turnOver_rotated hfits htwo hbase
  refine ⟨count, _, rfl, fun _ _ => rfl, hrun, hrotated, fun path file hpath => ?_,
    fun hfull hdistinct => hrotated.deleted hrun hfits htwo hfull hdistinct⟩
  by_cases hlost : count + 1 = maxFileNum iMaxFileNum ∧
      path = fileName pszFileName count
  · exact .inr hlost
  · exact .inl (hrotated.kept hrun hpath hlost)

theorem fits_short (hshort : pszFileName.length ≤ 1000) (hmax : iMaxFileNum ≤ 16) :
    Fits pszFileName iMaxFileNum := by
  intro i hi
  have hdigits : (Nat.digits 10 i).length ≤ 2 :=
    (Nat.digits_length_le_iff (by decide) _).mpr (by omega)
  simp only [twoDigits, List.length_append, List.length_cons, List.length_map,
    List.length_reverse, List.length_replicate]
  omega

/-- The files "a", "a.01" and "a.02". -/
def threeFiles : Files ℕ := fun path =>
  if path = [97] then some 0
  else if path = fileName [97] 1 then some 1
  else if path = fileName [97] 2 then some 2
  else none

theorem renameFile_rotates_three :
    ∃ count after,
      CLog.renameFile true true 3 [97] 3 threeFiles = (0, after) ∧
      IsRun (openFile 3 [97] threeFiles) [97] 3 count ∧
      Rotated (openFile 3 [97] threeFiles) after [97] 3 count := by
  obtain ⟨count, after, hrename, -, hrun, hrotated, -⟩ :=
    renameFile_rotates (.inl (by decide) : (2 : ℤ) ≤ 3 ∨ (3 : ℤ) ≤ 0)
      (fits_short (by decide) (by decide) : Fits [97] (maxFileNum 3)) 3 threeFiles
  exact ⟨count, after, hrename, hrun, hrotated⟩

theorem fits_a : Fits [97] 16 := fits_short (by decide) le_rfl

theorem threeFiles_name (i : ℕ) (hi : i < 16) :
    threeFiles (fileName [97] i) =
      if i = 1 then some 1 else if i = 2 then some 2 else none := by
  have hname : ∀ j < 16, fileName [97] i = fileName [97] j ↔ i = j :=
    fun j hj => ⟨fits_a.fileName_inj hi hj, fun heq => heq ▸ rfl⟩
  rw [threeFiles, if_neg (fits_a.fileName_ne hi)]
  simp only [hname 1 (by decide), hname 2 (by decide)]

/-- Two numbers are used and one is allowed: "a.02" is not moved, and "a.01" is
gone although the numbers go on behind it. -/
theorem longer_run_not_moved :
    ¬ ∀ length, (∀ i, 1 ≤ i → i ≤ length → (threeFiles (fileName [97] i)).isSome) →
      threeFiles (fileName [97] (length + 1)) = none →
      ∀ i, 1 ≤ i → i ≤ length → i ≠ 1 →
        (CLog.renameFile true true 3 [97] 2 threeFiles).2 (fileName [97] (i + 1)) =
          threeFiles (fileName [97] i) := by
  intro hall
  have hthere : ∀ i, 1 ≤ i → i ≤ 2 → (threeFiles (fileName [97] i)).isSome := by
    intro i hi hle
    rw [threeFiles_name i (by omega)]
    interval_cases i <;> rfl
  have hmoved := hall 2 hthere (threeFiles_name 3 (by decide)) 2 (by decide) le_rfl
    (by decide)
  have hbase : openFile 3 [97] threeFiles [97] = some 0 := by
    simp [openFile, threeFiles]
  obtain ⟨count, -, hrotated⟩ :=
    turnOver_rotated (fits_short (by decide) (by decide) : Fits [97] 2) le_rfl hbase
  have hsame := hrotated.others (fileName [97] 3) (fits_a.fileName_ne (by decide))
    fun i _ _ hlt heq => by
      have hi := fits_a.fileName_inj (by decide) (by omega) heq
      omega
  have hopen : openFile 3 [97] threeFiles (fileName [97] 3) = none := by
    rw [openFile, Function.update_of_ne (fits_a.fileName_ne (by decide)),
      threeFiles_name 3 (by decide)]
    rfl
  have hafter := hmoved.symm.trans (hsame.trans hopen)
  rw [threeFiles_name 2 (by decide)] at hafter
  cases hafter

end Rotation

end MessageBus.LogRotation
