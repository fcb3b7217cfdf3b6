import Mathlib.Data.List.TakeWhile
import MessageBus.ClientPackets
import MessageBus.SqlText

/-!
# Passwords from registration to login

`Register` of `auth/auth_proc.cpp` prints the password into the text of an
insert statement as it is, and takes what `snprintf` returns for the length of
the text; `LoginCheck` reads the password back and compares.

MySQL is a parameter: what the code relies on is that an insert statement with
one literal stores its value, and that a select statement returns it.
-/

namespace MessageBus.Auth

open Conn (Text)
open SqlText

def userDatabaseNum : ℕ := 2
def userTableNum : ℕ := 2

/-- `sizeof(SqlStr)`. -/
def sqlStrSize : ℕ := 1024

/-! ## Texts -/

def ascii (text : String) : Text :=
  text.toList.map fun char => char.toNat.toUInt8

/-- `%lu` and `%d` of a number that is not negative. -/
def decimal (number : ℕ) : Text :=
  if number = 0 then [48]
  else (Nat.digits 10 number).reverse.map fun digit => (48 + digit).toUInt8

/-- `c_str()`: the text up to the first NUL. -/
def cStr (text : Text) : Text := text.takeWhile (· ≠ 0)

/-- A byte of a name that MySQL takes without quotes. -/
def NameByte (byte : UInt8) : Prop :=
  48 ≤ byte ∧ byte ≤ 57 ∨ 65 ≤ byte ∧ byte ≤ 90 ∨ 97 ≤ byte ∧ byte ≤ 122 ∨
    byte = 95 ∨ byte = 36

instance : DecidablePred NameByte := fun _ =>
  inferInstanceAs (Decidable (_ ∨ _))

/-- A name as the configuration gives it, in an array of 256 bytes. -/
structure Name where
  text : Text
  length_lt : text.length < 256
  valid : ∀ byte ∈ text, NameByte byte

/-- The part of `DBConfig` that the statements name. -/
structure DBConfig where
  dbName : Name
  tableName : Name

/-! ## Statements -/

def getUserDBIndex (userID : UInt64) : ℕ := userID.toNat % userDatabaseNum

def getUserTableIndex (userID : UInt64) : ℕ :=
  userID.toNat / 10 % userTableNum

section

variable (dbConfig : ℕ → DBConfig) (userID : UInt64)

/-- `%s.%s_%d`. -/
def tableText : Text :=
  (dbConfig (getUserDBIndex userID)).dbName.text ++ ascii "." ++
    (dbConfig (getUserDBIndex userID)).tableName.text ++ ascii "_" ++
      decimal (getUserTableIndex userID)

/-- The statement of `LoginCheck`. -/
def selectText : Text :=
  ascii "select passwd from " ++ tableText dbConfig userID ++
    ascii " where userid=" ++ decimal userID.toNat

/-- The statement of `Register` up to the first quote. -/
def insertHead : Text :=
  ascii "insert into " ++ tableText dbConfig userID ++
    ascii " (userid, passwd) values (" ++ decimal userID.toNat ++ ascii ", "

/-- The statement of `Register` around the text between the quotes. -/
def insertText (body : Text) : Text :=
  insertHead dbConfig userID ++ quote :: (body ++ quote :: ascii ")")

end

/-! ## `snprintf` and `Query` -/

/-- `SqlStr`, all zero before, after `snprintf`. -/
def sqlStr (printed : Text) : Text :=
  printed.take (sqlStrSize - 1) ++
    List.replicate (sqlStrSize - min printed.length (sqlStrSize - 1)) 0

/-- The bytes that `Query` is given: `SqlLen` is the length of all that was to
be printed, and behind `SqlStr` there are other bytes of the stack. -/
def handed (stack : ℕ → UInt8) (printed : Text) : Text :=
  (sqlStr printed ++ (List.range (printed.length - sqlStrSize)).map stack).take
    printed.length

/-- What `Query` makes of a statement: the first columns of the rows. -/
inductive Reply where
  | failed
  | rows (rows : List (Option Text))

/-- The database servers behind `m_DBConn`: what a statement does in a state,
and the password of a user. -/
structure MySql where
  State : Type
  query : ℕ → Text → State → Reply × State
  passwd : State → Option Text

/-! ## `Register` and `LoginCheck` -/

section

variable (dbConfig : ℕ → DBConfig) (mysql : MySql) (stack : ℕ → UInt8)
  (userID : UInt64)

/-- `Register`, in which `time` has returned `userID`. -/
def register (strPasswd : Text) (state : mysql.State) : ℤ × mysql.State :=
  let printed := insertText dbConfig userID (cStr strPasswd)
  match mysql.query (getUserDBIndex userID) (handed stack printed) state with
  | (.failed, after) => (1, after)
  | (.rows _, after) => (0, after)

def loginCheck (strPasswd : Text) (state : mysql.State) : ℤ :=
  let printed := selectText dbConfig userID
  match (mysql.query (getUserDBIndex userID) (handed stack printed) state).1 with
  | .failed => 1
  | .rows [] => 2
  | .rows (none :: _) => 1
  | .rows (some strResult :: _) =>
      if strResult.length = 0 then 1
      else if strResult ≠ strPasswd then 2
      else 0

/-- What the code relies on.  `passwd` is the row of this user. -/
structure Documented (unescape : UInt8 → UInt8) : Prop where
  insert : ∀ body value state,
    literals unescape (insertText dbConfig userID body) = some [value] →
    mysql.passwd state = none →
    ∃ after, mysql.query (getUserDBIndex userID)
        (insertText dbConfig userID body) state = (.rows [], after) ∧
      mysql.passwd after = some value
  select : ∀ state,
    (mysql.query (getUserDBIndex userID) (selectText dbConfig userID)
      state).1 = .rows ((mysql.passwd state).map some).toList

/-- The statement has the length that is given with it, lies in `SqlStr` and
has the password as its one literal, and then the login takes this password
and no other. -/
structure PasswordSurvives
    (unescape : UInt8 → UInt8) (strPasswd : Text) (state : mysql.State) :
    Prop where
  length : (cStr (sqlStr
      (insertText dbConfig userID (cStr strPasswd)))).length =
    (insertText dbConfig userID (cStr strPasswd)).length
  inside : (insertText dbConfig userID (cStr strPasswd)).length ≤ sqlStrSize
  literal : literals unescape
      (handed stack (insertText dbConfig userID (cStr strPasswd))) =
    some [strPasswd]
  login : ∀ other,
    loginCheck dbConfig mysql stack userID other
        (register dbConfig mysql stack userID strPasswd state).2 = 0 ↔
      other = strPasswd

end

/-! ## What is printed -/

theorem decimal_digit {number : ℕ} {byte : UInt8}
    (hbyte : byte ∈ decimal number) : NameByte byte := by
  unfold decimal at hbyte
  split_ifs at hbyte
  · rw [List.mem_singleton.mp hbyte]
    decide
  · obtain ⟨digit, hdigit, rfl⟩ := List.mem_map.mp hbyte
    have hlt : digit < 10 :=
      Nat.digits_lt_base (by decide) (List.mem_reverse.mp hdigit)
    interval_cases digit <;> decide

theorem NameByte.plain {byte : UInt8} (hbyte : NameByte byte) :
    byte ≠ 0 ∧ byte ≠ quote ∧ byte ≠ backslash := by
  refine ⟨?_, ?_, ?_⟩ <;> rintro rfl <;> revert hbyte <;> decide

/-- Neither a NUL nor a byte that a statement reads specially. -/
def Safe (text : Text) : Prop :=
  ∀ byte ∈ text, byte ≠ 0 ∧ byte ≠ quote ∧ byte ≠ backslash

theorem safe_append {text later : Text} :
    Safe (text ++ later) ↔ Safe text ∧ Safe later :=
  List.forall_mem_append

theorem safe_of_all {text : Text}
    (hall : text.all (fun byte =>
      byte ≠ 0 ∧ byte ≠ quote ∧ byte ≠ backslash) = true) : Safe text := by
  simpa only [Safe, List.all_eq_true, decide_eq_true_eq] using hall

theorem Safe.plain {text : Text} (hsafe : Safe text) : Plain text :=
  fun byte hbyte => (hsafe byte hbyte).2

variable {dbConfig : ℕ → DBConfig} {userID : UInt64} {mysql : MySql}
  {stack : ℕ → UInt8} {unescape : UInt8 → UInt8} {strPasswd : Text}
  {state : mysql.State}

theorem safe_tableText : Safe (tableText dbConfig userID) := by
  unfold tableText
  simp only [safe_append, and_assoc]
  exact ⟨fun byte hbyte => (Name.valid _ byte hbyte).plain,
    safe_of_all (by decide), fun byte hbyte => (Name.valid _ byte hbyte).plain,
    safe_of_all (by decide), fun byte hbyte => (decimal_digit hbyte).plain⟩

theorem safe_insertHead : Safe (insertHead dbConfig userID) := by
  unfold insertHead
  simp only [safe_append, and_assoc]
  exact ⟨safe_of_all (by decide), safe_tableText, safe_of_all (by decide),
    fun byte hbyte => (decimal_digit hbyte).plain, safe_of_all (by decide)⟩

/-! ## What is handed over -/

theorem cStr_of_ne_zero {text : Text} (htext : ∀ byte ∈ text, byte ≠ 0) :
    cStr text = text :=
  List.takeWhile_eq_self_iff.mpr fun byte hbyte => by simpa using htext byte hbyte

theorem ne_zero_of_mem_cStr {text : Text} {byte : UInt8}
    (hbyte : byte ∈ cStr text) : byte ≠ 0 := by
  simpa using List.mem_takeWhile_imp hbyte

theorem cStr_append_zeros {text : Text} (htext : ∀ byte ∈ text, byte ≠ 0)
    (count : ℕ) : cStr (text ++ List.replicate count 0) = text := by
  have hzeros : cStr (List.replicate count 0) = [] := by
    cases count with
    | zero => rfl
    | succ count => simp [cStr, List.replicate_succ]
  unfold cStr at hzeros ⊢
  rw [List.takeWhile_append_of_pos fun byte hbyte => by
    simpa using htext byte hbyte, hzeros, List.append_nil]

theorem length_cStr_sqlStr {printed : Text}
    (hprinted : ∀ byte ∈ printed, byte ≠ 0) :
    (cStr (sqlStr printed)).length = min (sqlStrSize - 1) printed.length := by
  unfold sqlStr
  rw [cStr_append_zeros fun byte hbyte => hprinted byte (List.mem_of_mem_take hbyte),
    List.length_take]

theorem handed_of_fits {printed : Text} (hfits : printed.length < sqlStrSize) :
    handed stack printed = printed := by
  have hwhole : printed.take (sqlStrSize - 1) = printed :=
    List.take_of_length_le (by omega)
  unfold handed sqlStr
  rw [hwhole, List.append_assoc, List.take_left]

theorem length_decimal_le (userID : UInt64) :
    (decimal userID.toNat).length ≤ 20 := by
  unfold decimal
  split_ifs
  · decide
  · rw [List.length_map, List.length_reverse]
    exact (Nat.digits_length_le_iff (by decide) _).mpr
      (userID.toNat_lt.trans (by decide))

theorem length_tableText_le : (tableText dbConfig userID).length ≤ 513 := by
  have hdb := (dbConfig (getUserDBIndex userID)).dbName.length_lt
  have htable := (dbConfig (getUserDBIndex userID)).tableName.length_lt
  have hindex : (decimal (getUserTableIndex userID)).length = 1 := by
    have hlt : getUserTableIndex userID < 2 := Nat.mod_lt _ (by decide)
    interval_cases getUserTableIndex userID <;> decide
  have hdot : (ascii ".").length = 1 := by decide
  have hunder : (ascii "_").length = 1 := by decide
  simp only [tableText, List.length_append]
  omega

theorem length_selectText_lt :
    (selectText dbConfig userID).length < sqlStrSize := by
  have hid := length_decimal_le userID
  have htable : (tableText dbConfig userID).length ≤ 513 := length_tableText_le
  have hselect : (ascii "select passwd from ").length = 19 := by decide
  have hwhere : (ascii " where userid=").length = 14 := by decide
  simp only [selectText, List.length_append, sqlStrSize]
  omega

/-- 447 bytes of a password have room whatever the names are. -/
theorem length_insertText_lt {body : Text} (hbody : body.length ≤ 447) :
    (insertText dbConfig userID body).length < sqlStrSize := by
  have hid := length_decimal_le userID
  have htable : (tableText dbConfig userID).length ≤ 513 := length_tableText_le
  have hinsert : (ascii "insert into ").length = 12 := by decide
  have hvalues : (ascii " (userid, passwd) values (").length = 26 := by decide
  have hcomma : (ascii ", ").length = 2 := by decide
  have hclose : (ascii ")").length = 1 := by decide
  simp only [insertText, insertHead, List.length_append, List.length_cons,
    sqlStrSize]
  omega

theorem ne_zero_of_mem_insertText {body : Text} {byte : UInt8}
    (hbyte : byte ∈ insertText dbConfig userID (cStr body)) : byte ≠ 0 := by
  have hclose : Safe (ascii ")") := safe_of_all (by decide)
  unfold insertText at hbyte
  simp only [List.mem_append, List.mem_cons] at hbyte
  obtain hhead | rfl | hbody | rfl | hclosing := hbyte
  · exact (safe_insertHead byte hhead).1
  · decide
  · exact ne_zero_of_mem_cStr hbody
  · decide
  · exact (hclose byte hclosing).1

theorem literals_insertText_iff
    {body value : Text} (hlength : body.length ≤ value.length) :
    literals unescape (insertText dbConfig userID body) = some [value] ↔
      Plain body ∧ value = body := by
  refine literals_quoted_iff (fun hmem => (safe_insertHead quote hmem).2.1 rfl)
    (safe_of_all (by decide)).plain hlength

/-! ## Which passwords survive -/

theorem loginCheck_eq
    (hdoc : Documented dbConfig mysql userID unescape) (other : Text) :
    loginCheck dbConfig mysql stack userID other state =
      match mysql.passwd state with
      | none => 2
      | some strResult =>
          if strResult.length = 0 then 1
          else if strResult ≠ other then 2
          else 0 := by
  unfold loginCheck
  dsimp only
  rw [handed_of_fits length_selectText_lt, hdoc.select]
  cases mysql.passwd state with
  | none => rfl
  | some strResult => rfl

/-- A password survives its registration exactly when it has no NUL, no quote
and no backslash and the statement has room in `SqlStr`. -/
theorem password_survives_iff
    (hdoc : Documented dbConfig mysql userID unescape)
    (hnonempty : strPasswd ≠ []) (hnew : mysql.passwd state = none) :
    PasswordSurvives dbConfig mysql stack userID unescape strPasswd state ↔
      Safe strPasswd ∧
        (insertText dbConfig userID strPasswd).length < sqlStrSize := by
  constructor
  · intro hsurvives
    have hlength := hsurvives.length
    rw [length_cStr_sqlStr fun _ => ne_zero_of_mem_insertText] at hlength
    have hfits : (insertText dbConfig userID (cStr strPasswd)).length <
        sqlStrSize := by
      unfold sqlStrSize at hlength ⊢
      omega
    have hliteral := hsurvives.literal
    have hshort : (cStr strPasswd).length ≤ strPasswd.length :=
      (List.takeWhile_sublist _).length_le
    rw [handed_of_fits hfits, literals_insertText_iff hshort] at hliteral
    obtain ⟨hplain, hsame⟩ := hliteral
    rw [← hsame] at hplain hfits
    refine ⟨fun byte hbyte => ⟨?_, hplain byte hbyte⟩, hfits⟩
    rw [hsame] at hbyte
    exact ne_zero_of_mem_cStr hbyte
  · rintro ⟨hsafe, hfits⟩
    have hcStr : cStr strPasswd = strPasswd :=
      cStr_of_ne_zero fun byte hbyte => (hsafe byte hbyte).1
    have hliteral : literals unescape (insertText dbConfig userID strPasswd) =
        some [strPasswd] :=
      (literals_insertText_iff le_rfl).mpr ⟨hsafe.plain, rfl⟩
    obtain ⟨after, hquery, hpasswd⟩ := hdoc.insert _ _ state hliteral hnew
    have hafter : (register dbConfig mysql stack userID strPasswd state).2 =
        after := by
      unfold register
      simp only [hcStr, handed_of_fits hfits, hquery]
    exact
      { length := by
          rw [length_cStr_sqlStr fun _ => ne_zero_of_mem_insertText, hcStr]
          exact min_eq_right (by omega)
        inside := by rw [hcStr]; exact hfits.le
        literal := by rw [hcStr, handed_of_fits hfits, hliteral]
        login := by
          intro other
          rw [hafter, loginCheck_eq hdoc, hpasswd]
          have hlen : strPasswd.length ≠ 0 :=
            fun hzero => hnonempty (List.eq_nil_of_length_eq_zero hzero)
          simp only [hlen, if_false]
          split_ifs with hne
          · exact iff_of_false (by decide) (Ne.symm hne)
          · exact iff_of_true rfl (not_not.mp hne).symm }

/-! ## One user -/

/-- A database with the row of one user. -/
def oneRow (dbConfig : ℕ → DBConfig) (userID : UInt64) : MySql where
  State := Option Text
  query := fun _ text state =>
    if text = selectText dbConfig userID then
      (.rows (state.map some).toList, state)
    else
      match literals id text, state with
      | some [value], none => (.rows [], some value)
      | _, _ => (.failed, state)
  passwd := id

theorem documented_oneRow (dbConfig : ℕ → DBConfig) (userID : UInt64) :
    Documented dbConfig (oneRow dbConfig userID) userID id where
  insert := by
    rintro body value state hliteral (rfl : state = none)
    have hne : insertText dbConfig userID body ≠ selectText dbConfig userID := by
      intro heq
      have hfirst : (insertText dbConfig userID body).head? = some 105 := rfl
      rw [heq] at hfirst
      exact absurd hfirst (show some 115 ≠ some 105 by decide)
    refine ⟨some value, ?_, rfl⟩
    simp only [oneRow, if_neg hne, hliteral]
  select := by
    intro state
    simp only [oneRow, if_true, id]

theorem nameBytes_of_all {text : Text}
    (hall : text.all (fun byte => NameByte byte) = true) :
    ∀ byte ∈ text, NameByte byte := by
  simpa only [List.all_eq_true, decide_eq_true_eq] using hall

def userDB : ℕ → DBConfig := fun _ =>
  { dbName := ⟨ascii "user", by decide, nameBytes_of_all (by decide)⟩
    tableName := ⟨ascii "account", by decide, nameBytes_of_all (by decide)⟩ }

theorem password_survives :
    PasswordSurvives userDB (oneRow userDB 1700000000) (fun _ => 0) 1700000000
      id (ascii "secret") none :=
  (password_survives_iff (documented_oneRow userDB 1700000000) (by decide)
    rfl).mpr
    ⟨safe_of_all (by decide), length_insertText_lt (by decide)⟩

/-- The password of one quote. -/
theorem password_lost :
    ¬ ∀ (dbConfig : ℕ → DBConfig) (mysql : MySql) (stack : ℕ → UInt8)
        (userID : UInt64) (strPasswd : Text) (state : mysql.State),
      Documented dbConfig mysql userID id → strPasswd ≠ [] →
      mysql.passwd state = none →
      PasswordSurvives dbConfig mysql stack userID id strPasswd state := by
  intro hall
  have hsurvives := hall userDB (oneRow userDB 1700000000) (fun _ => 0)
    1700000000 [quote] none (documented_oneRow userDB 1700000000) (by decide)
    rfl
  have hliteral := hsurvives.literal
  have hcStr : cStr [quote] = [quote] := by decide
  rw [hcStr, handed_of_fits (length_insertText_lt (by decide)),
    literals_insertText_iff le_rfl] at hliteral
  exact (hliteral.1 quote List.mem_cons_self).1 rfl

end MessageBus.Auth
