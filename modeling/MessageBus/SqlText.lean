import Mathlib.Tactic

/-!
# Quoted literals in a statement

A statement is read byte by byte.  A single quote begins a literal and ends it
again; inside a literal a backslash and the byte behind it stand for one byte.
A text put between quotes unchanged is read back as it was exactly when it has
neither quotes nor backslashes.
-/

namespace MessageBus.SqlText

def quote : UInt8 := 39
def backslash : UInt8 := 92

/-- How far a statement has been read: the literals so far, and the value of
the one that has begun. -/
inductive Scan where
  | outside (literals : List (List UInt8))
  | inside (literals : List (List UInt8)) (value : List UInt8)
  | escaping (literals : List (List UInt8)) (value : List UInt8)
deriving DecidableEq

/-- The literals that have ended. -/
def Scan.closed : Scan → List (List UInt8)
  | .outside literals => literals
  | .inside literals _ => literals
  | .escaping literals _ => literals

variable (unescape : UInt8 → UInt8)

def Scan.step : Scan → UInt8 → Scan
  | .outside literals, byte =>
      if byte = quote then .inside literals [] else .outside literals
  | .inside literals value, byte =>
      if byte = quote then .outside (literals ++ [value])
      else if byte = backslash then .escaping literals value
      else .inside literals (value ++ [byte])
  | .escaping literals value, byte =>
      .inside literals (value ++ [unescape byte])

def scan (state : Scan) (text : List UInt8) : Scan :=
  text.foldl (Scan.step unescape) state

/-- The values of the literals of a statement; nothing if one is not closed. -/
def literals (text : List UInt8) : Option (List (List UInt8)) :=
  match scan unescape (.outside []) text with
  | .outside literals => some literals
  | _ => none

/-- Neither quotes nor backslashes. -/
def Plain (text : List UInt8) : Prop :=
  ∀ byte ∈ text, byte ≠ quote ∧ byte ≠ backslash

variable {unescape} {state : Scan} {found : List (List UInt8)}
  {text value : List UInt8} {byte : UInt8}

@[simp] theorem scan_nil : scan unescape state [] = state := rfl

@[simp] theorem scan_cons :
    scan unescape state (byte :: text) =
      scan unescape (state.step unescape byte) text := rfl

theorem scan_append (later : List UInt8) :
    scan unescape state (text ++ later) =
      scan unescape (scan unescape state text) later :=
  List.foldl_append

theorem scan_outside_of_unquoted (htext : quote ∉ text) :
    scan unescape (.outside found) text = .outside found := by
  induction text with
  | nil => rfl
  | cons byte text ih =>
      obtain ⟨hbyte, htext⟩ := not_or.mp (List.mem_cons.not.mp htext)
      rw [scan_cons, Scan.step, if_neg (Ne.symm hbyte)]
      exact ih htext

theorem scan_inside_of_plain (htext : Plain text) :
    scan unescape (.inside found value) text =
      .inside found (value ++ text) := by
  induction text generalizing value with
  | nil => simp
  | cons byte text ih =>
      obtain ⟨hquote, hbackslash⟩ := htext byte List.mem_cons_self
      rw [scan_cons, Scan.step, if_neg hquote, if_neg hbackslash,
        ih fun later hlater => htext later (List.mem_cons_of_mem byte hlater),
        List.append_assoc, List.singleton_append]

theorem closed_step_le :
    state.closed.length ≤ (state.step unescape byte).closed.length := by
  cases state with
  | outside literals =>
      rw [Scan.step]
      split_ifs <;> exact le_rfl
  | inside literals value =>
      rw [Scan.step]
      split_ifs
      · simp [Scan.closed]
      · exact le_rfl
      · exact le_rfl
  | escaping literals value => exact le_rfl

theorem closed_scan_le :
    state.closed.length ≤ (scan unescape state text).closed.length := by
  induction text generalizing state with
  | nil => exact le_rfl
  | cons byte text ih => exact closed_step_le.trans ih

/-- A literal has at most the length of its text, and less if it has an escape.
-/
theorem length_le_of_scan
    {after : List UInt8}
    (hscan : scan unescape (.inside found value) text = .inside found after) :
    after.length ≤ value.length + text.length ∧
      (value.length + text.length ≤ after.length →
        Plain text ∧ after = value ++ text) := by
  induction hlength : text.length using Nat.strong_induction_on
    generalizing text value with
  | _ length ih =>
      subst hlength
      cases text with
      | nil =>
          cases hscan
          simp [Plain]
      | cons byte text =>
          rw [scan_cons, Scan.step] at hscan
          split_ifs at hscan with hquote hbackslash
          · -- the literal would have ended here
            have hle : (Scan.outside (found ++ [value])).closed.length ≤
                (scan unescape (.outside (found ++ [value]))
                  text).closed.length := closed_scan_le
            rw [hscan] at hle
            simp [Scan.closed] at hle
          · cases text with
            | nil => cases hscan
            | cons escaped text =>
                obtain ⟨hle, -⟩ := ih text.length (by simp) hscan rfl
                simp only [List.length_append, List.length_cons,
                  List.length_nil] at hle ⊢
                constructor
                · omega
                · intro hge
                  omega
          · obtain ⟨hle, hrest⟩ := ih text.length (by simp) hscan rfl
            simp only [List.length_append, List.length_cons, List.length_nil]
              at hle hrest ⊢
            refine ⟨by omega, fun hge => ?_⟩
            obtain ⟨hplain, heq⟩ := hrest (by omega)
            subst heq
            refine ⟨?_, by simp⟩
            rintro later (_ | ⟨_, hlater⟩)
            · exact ⟨hquote, hbackslash⟩
            · exact hplain later hlater

/-- A text between quotes is read back exactly when it is plain. -/
theorem literals_quoted_iff
    {head tail : List UInt8} (hhead : quote ∉ head) (htail : Plain tail)
    (hlength : text.length ≤ value.length) :
    literals unescape (head ++ quote :: (text ++ quote :: tail)) =
        some [value] ↔
      Plain text ∧ value = text := by
  have hquote : quote ∉ tail := fun hmem => (htail quote hmem).1 rfl
  unfold literals
  rw [scan_append, scan_outside_of_unquoted hhead, scan_cons, Scan.step,
    if_pos rfl, scan_append, scan_cons]
  constructor
  · intro hliterals
    cases hscan : scan unescape (.inside [] []) text with
    | outside found =>
        rw [hscan, Scan.step, if_pos rfl, scan_inside_of_plain htail]
          at hliterals
        cases hliterals
    | escaping found after =>
        rw [hscan, Scan.step, scan_inside_of_plain htail] at hliterals
        cases hliterals
    | inside found after =>
        rw [hscan, Scan.step, if_pos rfl, scan_outside_of_unquoted hquote,
          Option.some.injEq] at hliterals
        obtain ⟨rfl, rfl⟩ : found = [] ∧ after = value := by
          cases found with
          | nil => exact ⟨rfl, (List.cons.inj hliterals).1⟩
          | cons first found => simp at hliterals
        have hplain := (length_le_of_scan hscan).2 (by simpa using hlength)
        exact ⟨hplain.1, by simpa using hplain.2⟩
  · rintro ⟨hplain, rfl⟩
    rw [scan_inside_of_plain hplain, Scan.step, if_pos rfl,
      scan_outside_of_unquoted hquote]
    rfl

end MessageBus.SqlText
