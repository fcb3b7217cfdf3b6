import Mathlib.Tactic

/-!
# Module names as keys of a hash list

`CModuleName` of `mmlib/log/log.h`: an array of `char` which is a key of
`CHashList`.  A name may have any bytes; only those in front of its NUL count,
and of these the first `LOG_MODULE_NAME_LEN`.
-/

namespace MessageBus.Log

def logModuleNameLen : ℕ := 16

/-- A string of C, by its bytes in front of the NUL. -/
structure CString where
  bytes : List UInt8
  noNul : 0 ∉ bytes

/-- `strncpy` to the front of an array. -/
def strncpy (dest : List UInt8) (src : CString) (n : ℕ) : List UInt8 :=
  src.bytes.take n ++ List.replicate (n - src.bytes.length) 0 ++ dest.drop n

/-- `strncmp`; no value where it reads behind an array. -/
def strncmp : ℕ → List UInt8 → List UInt8 → Option ℤ
  | 0, _, _ => some 0
  | n + 1, left :: lefts, right :: rights =>
      if left ≠ right then some ((left.toNat : ℤ) - right.toNat)
      else if left = 0 then some 0
      else strncmp n lefts rights
  | _ + 1, _, _ => none

structure CModuleName where
  m_szModuleName : List UInt8
  length_eq : m_szModuleName.length = logModuleNameLen + 1
deriving DecidableEq

/-- `operator==`. -/
def CModuleName.equals (name other : CModuleName) : Bool :=
  strncmp logModuleNameLen name.m_szModuleName other.m_szModuleName = some 0

theorem length_strncpy (dest : List UInt8) (src : CString) {n : ℕ}
    (hn : n ≤ dest.length) : (strncpy dest src n).length = dest.length := by
  simp [strncpy]
  omega

/-- `operator=` for a string: `memset`, then `strncpy`. -/
def CModuleName.assign (name : CModuleName) (pszModuleName : CString) :
    CModuleName where
  m_szModuleName :=
    strncpy (List.replicate name.m_szModuleName.length 0) pszModuleName
      logModuleNameLen
  length_eq := by
    have := name.length_eq
    rw [length_strncpy _ _ (by rw [List.length_replicate]; omega),
      List.length_replicate, name.length_eq]

/-- A round of the loop of `Hash`.  A `char` is signed. -/
def hashStep (h : Int32) (key : UInt8) : Int32 :=
  let h := (h <<< 4) + key.toInt8.toInt32
  let g := h &&& (0xF0000000 : UInt32).toInt32
  let h := if g ≠ 0 then h ^^^ (g >>> 24) else h
  h &&& ~~~g

/-- The loop of `Hash`, from a place in memory on; no value where it reads
behind the array. -/
def hashLoop : Int32 → List UInt8 → Option Int32
  | _, [] => none
  | h, key :: keys => if key = 0 then some h else hashLoop (hashStep h key) keys

/-- `CModuleName::Hash`. -/
def CModuleName.hash (name : CModuleName) : Option Int32 :=
  hashLoop 0 name.m_szModuleName

/-- `operator%`. -/
def CModuleName.mod (name : CModuleName) (iHashIndexNum : Int32) :
    Option Int32 :=
  name.hash.map (· % iHashIndexNum)

/-- `CHashList::Hash` on a given number of index nodes. -/
def CHashList.hash (iIndexNodeNum : Int32) (key : CModuleName) : Option Int32 :=
  key.mod iIndexNodeNum

/-! ## One round of the loop -/

theorem sign_shiftRight (g : Int32) :
    (g >>> 24).toBitVec.msb = g.toBitVec.msb := by
  rw [Int32.toBitVec_shiftRight, BitVec.msb_sshiftRight']

/-- Whatever comes in, the sign bit is cleared: `g` has it if it is set, and the
shift of `g` brings no other one in. -/
theorem hashStep_nonneg (h : Int32) (key : UInt8) :
    0 ≤ (hashStep h key).toInt := by
  refine BitVec.toInt_nonneg_of_msb_false ?_
  generalize hmixed : (h <<< 4) + key.toInt8.toInt32 = mixed
  have hmask : (0xF0000000 : UInt32).toInt32.toBitVec.msb = true := by decide
  have hsign : (mixed &&& (0xF0000000 : UInt32).toInt32).toBitVec.msb =
      mixed.toBitVec.msb := by
    rw [Int32.toBitVec_and, BitVec.msb_and, hmask, Bool.and_true]
  simp only [hashStep, hmixed]
  rw [Int32.toBitVec_and, BitVec.msb_and, Int32.toBitVec_not, BitVec.msb_not,
    hsign]
  split_ifs with hg
  · rw [Int32.toBitVec_xor, BitVec.msb_xor, sign_shiftRight, hsign]
    cases mixed.toBitVec.msb <;> rfl
  · cases mixed.toBitVec.msb <;> rfl

/-! ## The whole loop -/

theorem foldl_hashStep_nonneg {h : Int32} (hh : 0 ≤ h.toInt)
    (keys : List UInt8) : 0 ≤ (keys.foldl hashStep h).toInt := by
  induction keys generalizing h with
  | nil => exact hh
  | cons key keys ih => exact ih (hashStep_nonneg h key)

/-- The loop reads the bytes in front of the first NUL. -/
theorem hashLoop_append (h : Int32) {keys : List UInt8} (hkeys : 0 ∉ keys)
    (rest : List UInt8) :
    hashLoop h (keys ++ 0 :: rest) = some (keys.foldl hashStep h) := by
  induction keys generalizing h with
  | nil => simp [hashLoop]
  | cons key keys ih =>
      have hkey : key ≠ 0 := Ne.symm (List.ne_of_not_mem_cons hkeys)
      rw [List.cons_append, hashLoop, if_neg hkey,
        ih _ (List.not_mem_of_not_mem_cons hkeys), List.foldl_cons]

theorem strncmp_cons {n : ℕ} {key other : UInt8} {keys others : List UInt8}
    (hequal : strncmp (n + 1) (key :: keys) (other :: others) = some 0) :
    key = other ∧ (key = 0 ∨ strncmp n keys others = some 0) := by
  unfold strncmp at hequal
  split_ifs at hequal with hkey hnul
  · -- bytes that differ have a difference that is not zero
    have hsub : (key.toNat : ℤ) - other.toNat = 0 := Option.some.inj hequal
    exact absurd (UInt8.toNat_inj.mp (by omega)) hkey
  · exact ⟨not_not.mp hkey, Or.inl hnul⟩
  · exact ⟨not_not.mp hkey, Or.inr hequal⟩

/-- Two arrays that agree up to a NUL or in all but the last byte have the same
hash, unless one of them has no NUL at all. -/
theorem hashLoop_eq_of_strncmp {n : ℕ} {left right : List UInt8}
    (hleft : left.length = n + 1) (hright : right.length = n + 1)
    (hequal : strncmp n left right = some 0) {h first second : Int32}
    (hfirst : hashLoop h left = some first)
    (hsecond : hashLoop h right = some second) : first = second := by
  induction n generalizing left right h with
  | zero =>
      obtain ⟨key, rfl⟩ := List.length_eq_one_iff.mp hleft
      obtain ⟨other, rfl⟩ := List.length_eq_one_iff.mp hright
      simp only [hashLoop] at hfirst hsecond
      split_ifs at hfirst hsecond
      exact Option.some.inj (hfirst.symm.trans hsecond)
  | succ n ih =>
      obtain ⟨key, keys, rfl⟩ := List.exists_cons_of_length_eq_add_one hleft
      obtain ⟨other, others, rfl⟩ :=
        List.exists_cons_of_length_eq_add_one hright
      obtain ⟨rfl, hrest⟩ := strncmp_cons hequal
      unfold hashLoop at hfirst hsecond
      split_ifs at hfirst hsecond with hkey
      · exact Option.some.inj (hfirst.symm.trans hsecond)
      · exact ih (Nat.succ.inj hleft) (Nat.succ.inj hright)
          (hrest.resolve_left hkey) hfirst hsecond

/-! ## Names from strings -/

section Assign

variable (name : CModuleName) (pszModuleName : CString)

/-- What a name keeps of a string: its first bytes, with a NUL behind them. -/
theorem assign_bytes : ∃ zeros,
    (name.assign pszModuleName).m_szModuleName =
      pszModuleName.bytes.take logModuleNameLen ++ 0 :: zeros := by
  have hlength : name.m_szModuleName.length = logModuleNameLen + 1 :=
    name.length_eq
  refine
    ⟨List.replicate (logModuleNameLen - pszModuleName.bytes.length) 0, ?_⟩
  simp only [CModuleName.assign, strncpy, hlength, List.drop_replicate,
    Nat.add_sub_cancel_left, List.append_assoc]
  rw [List.replicate_append_replicate, List.replicate_succ]

/-- `Hash` ends inside the array, and is that of the bytes kept. -/
theorem hash_assign : (name.assign pszModuleName).hash =
    some ((pszModuleName.bytes.take logModuleNameLen).foldl hashStep 0) := by
  obtain ⟨zeros, hbytes⟩ := assign_bytes name pszModuleName
  rw [CModuleName.hash, hbytes]
  refine hashLoop_append 0 (fun hmem => ?_) zeros
  exact pszModuleName.noNul (List.mem_of_mem_take hmem)

end Assign

/-! ## Index nodes -/

theorem mod_in_range {h iIndexNodeNum : Int32} (hh : 0 ≤ h.toInt)
    (hnum : 1 ≤ iIndexNodeNum.toInt) :
    0 ≤ (h % iIndexNodeNum).toInt ∧
      (h % iIndexNodeNum).toInt < iIndexNodeNum.toInt := by
  rw [Int32.toInt_mod]
  exact ⟨Int.tmod_nonneg _ hh, Int.tmod_lt_of_pos _ (by omega)⟩

/-- Names with `operator==` have the same hash: whatever their arrays are, as
long as `Hash` ends inside both. -/
theorem hash_eq_of_equals {name other : CModuleName}
    (hequal : name.equals other = true) {h k : Int32}
    (hname : name.hash = some h) (hother : other.hash = some k) : h = k :=
  hashLoop_eq_of_strncmp name.length_eq other.length_eq
    (of_decide_eq_true hequal) hname hother

/-- A name that is assigned a string of any bytes and any length has a hash
that is not negative, whose index node is one of the array; and names that are
equal have the same hash. -/
theorem hash_selects_index_node :
    (∀ (name : CModuleName) (pszModuleName : CString), ∃ h,
      (name.assign pszModuleName).hash = some h ∧ 0 ≤ h.toInt ∧
        ∀ iIndexNodeNum : Int32, 1 ≤ iIndexNodeNum.toInt → ∃ index,
          CHashList.hash iIndexNodeNum (name.assign pszModuleName) =
              some index ∧
            0 ≤ index.toInt ∧ index.toInt < iIndexNodeNum.toInt) ∧
      ∀ (name other : CModuleName) (h k : Int32), name.hash = some h →
        other.hash = some k → name.equals other = true → h = k := by
  refine ⟨fun name pszModuleName => ?_, fun name other h k hname hother
    hequal => hash_eq_of_equals hequal hname hother⟩
  have hhash := hash_assign name pszModuleName
  have hnonneg : 0 ≤
      ((pszModuleName.bytes.take logModuleNameLen).foldl hashStep 0).toInt :=
    foldl_hashStep_nonneg le_rfl _
  refine ⟨_, hhash, hnonneg, fun iIndexNodeNum hnum => ?_⟩
  refine ⟨_, ?_, mod_in_range hnonneg hnum⟩
  rw [CHashList.hash, CModuleName.mod, hhash, Option.map_some]

end MessageBus.Log
