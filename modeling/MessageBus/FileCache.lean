import Mathlib.Tactic

/-!
# Cached file handles

Open files kept in slots.  A slot remembers a stamp with its file; as long as
the stamp stays the same the file is used again, and otherwise it is closed and
another one is opened in its place.  Nothing in a slot says under which name
its file was opened: items end up where they belong only if the uses of a slot
with one stamp agree on the name.
-/

namespace MessageBus.FileCache

/-! ## Files -/

/-- Files by the number of their handle, with what was appended to them under
the names they were opened for. -/
structure Files (Name Item : Type) where
  opened : List Name
  closed : List ℕ
  appended : List (Name × Item)
  -- a file was closed or written to that is not open
  misused : Bool

namespace Files

variable {Name Item : Type}

def start : Files Name Item := ⟨[], [], [], false⟩

def IsOpen (files : Files Name Item) (file : ℕ) : Prop :=
  file < files.opened.length ∧ file ∉ files.closed

instance (files : Files Name Item) (file : ℕ) : Decidable (files.IsOpen file) :=
  inferInstanceAs (Decidable (_ ∧ _))

def openFile (files : Files Name Item) (name : Name) : ℕ × Files Name Item :=
  (files.opened.length, { files with opened := files.opened ++ [name] })

def close (files : Files Name Item) (file : ℕ) : Files Name Item :=
  { files with
    closed := file :: files.closed
    misused := files.misused || !decide (files.IsOpen file) }

def append (files : Files Name Item) (file : ℕ) (item : Item) :
    Files Name Item :=
  { files with
    appended := files.appended ++
      files.opened[file]?.toList.map fun name => (name, item)
    misused := files.misused || !decide (files.IsOpen file) }

end Files

/-! ## Slots -/

/-- One use of a slot. -/
structure Use (Slot Stamp Name Item : Type) where
  slot : Slot
  stamp : Stamp
  name : Name
  item : Item

structure Cache (Slot Stamp Name Item : Type) where
  held : Slot → Option (Stamp × ℕ)
  files : Files Name Item

variable {Slot Stamp Name Item : Type} [DecidableEq Slot] [DecidableEq Stamp]

def Cache.start : Cache Slot Stamp Name Item := ⟨fun _ => none, Files.start⟩

/-- The file for a use, given what its slot holds. -/
def obtainFile (held : Option (Stamp × ℕ)) (files : Files Name Item)
    (stamp : Stamp) (name : Name) : ℕ × Files Name Item :=
  match held with
  | none => files.openFile name
  | some (current, file) =>
      if stamp = current then (file, files)
      else (files.close file).openFile name

def Cache.step (cache : Cache Slot Stamp Name Item)
    (use : Use Slot Stamp Name Item) : Cache Slot Stamp Name Item :=
  let (file, files) :=
    obtainFile (cache.held use.slot) cache.files use.stamp use.name
  { held := Function.update cache.held use.slot (some (use.stamp, file))
    files := files.append file use.item }

def Cache.run (cache : Cache Slot Stamp Name Item)
    (uses : List (Use Slot Stamp Name Item)) : Cache Slot Stamp Name Item :=
  uses.foldl Cache.step cache

/-- The last use of each slot. -/
abbrev Last (Slot Stamp Name Item : Type) :=
  Slot → Option (Use Slot Stamp Name Item)

def Last.after (last : Last Slot Stamp Name Item)
    (uses : List (Use Slot Stamp Name Item)) : Last Slot Stamp Name Item :=
  uses.foldl (fun last use => Function.update last use.slot (some use)) last

/-- A use with the stamp of the last use of its slot has the same name. -/
def Agrees (last : Last Slot Stamp Name Item)
    (use : Use Slot Stamp Name Item) : Prop :=
  ∀ previous ∈ last use.slot, previous.stamp = use.stamp →
    previous.name = use.name

/-- Every use agrees with the one before it in its slot. -/
def Stable : Last Slot Stamp Name Item →
    List (Use Slot Stamp Name Item) → Prop
  | _, [] => True
  | last, use :: uses =>
      Agrees last use ∧ Stable (last.after [use]) uses

omit [DecidableEq Stamp] in
theorem stable_append {last : Last Slot Stamp Name Item}
    {first second : List (Use Slot Stamp Name Item)} :
    Stable last (first ++ second) ↔
      Stable last first ∧ Stable (last.after first) second := by
  induction first generalizing last with
  | nil => exact (and_iff_right trivial).symm
  | cons use first ih =>
      rw [List.cons_append, Stable, Stable, ih, and_assoc]
      rfl

omit [DecidableEq Stamp] in
/-- Uses of different slots do not get in each other's way. -/
theorem stable_of_agrees {last : Last Slot Stamp Name Item}
    {uses : List (Use Slot Stamp Name Item)} (hslots : (uses.map Use.slot).Nodup)
    (hagrees : ∀ use ∈ uses, Agrees last use) : Stable last uses := by
  induction uses generalizing last with
  | nil => trivial
  | cons use uses ih =>
      rw [List.map_cons, List.nodup_cons] at hslots
      obtain ⟨huse, huses⟩ := List.forall_mem_cons.mp hagrees
      refine ⟨huse, ih hslots.2 ?_⟩
      intro later hlater previous hprevious
      have hne : later.slot ≠ use.slot := fun hsame =>
        hslots.1 (hsame ▸ List.mem_map_of_mem hlater)
      apply huses later hlater previous
      rwa [Last.after, List.foldl_cons, List.foldl_nil,
        Function.update_of_ne hne] at hprevious

omit [DecidableEq Stamp] in
theorem mem_after {last : Last Slot Stamp Name Item}
    {uses : List (Use Slot Stamp Name Item)} {slot : Slot}
    {use : Use Slot Stamp Name Item} (huse : last.after uses slot = some use) :
    (use ∈ uses ∧ use.slot = slot) ∨ last slot = some use := by
  induction uses generalizing last with
  | nil => exact Or.inr huse
  | cons first uses ih =>
      rcases ih huse with ⟨hmem, hslot⟩ | hfirst
      · exact Or.inl ⟨List.mem_cons_of_mem _ hmem, hslot⟩
      · beta_reduce at hfirst
        by_cases hsame : slot = first.slot
        · subst hsame
          rw [Function.update_self, Option.some.injEq] at hfirst
          exact Or.inl ⟨hfirst ▸ List.mem_cons_self, by rw [hfirst]⟩
        · rw [Function.update_of_ne hsame] at hfirst
          exact Or.inr hfirst

/-! ## What a slot holds -/

/-- Every slot that has been used holds the stamp and an open file of its last
use, and no two slots hold the same file. -/
structure Sound (cache : Cache Slot Stamp Name Item)
    (last : Last Slot Stamp Name Item) : Prop where
  held : ∀ slot stamp file, cache.held slot = some (stamp, file) →
    ∃ use ∈ last slot, use.stamp = stamp ∧
      cache.files.opened[file]? = some use.name ∧ file ∉ cache.files.closed
  apart : ∀ slot other stamp otherStamp file,
    cache.held slot = some (stamp, file) →
    cache.held other = some (otherStamp, file) → slot = other
  closed_lt : ∀ file ∈ cache.files.closed, file < cache.files.opened.length
  fine : cache.files.misused = false

omit [DecidableEq Slot] [DecidableEq Stamp] in
theorem sound_start :
    Sound (Cache.start : Cache Slot Stamp Name Item) fun _ => none where
  held := by
    intro slot stamp file hheld
    cases hheld
  apart := by
    intro slot other stamp otherStamp file hheld
    cases hheld
  closed_lt := by
    intro file hfile
    cases hfile
  fine := rfl

section Step

variable {cache : Cache Slot Stamp Name Item}
  {last : Last Slot Stamp Name Item} {use : Use Slot Stamp Name Item}

omit [DecidableEq Slot] [DecidableEq Stamp] in
theorem Sound.lt_length (hsound : Sound cache last) {slot : Slot}
    {stamp : Stamp} {file : ℕ} (hheld : cache.held slot = some (stamp, file)) :
    file < cache.files.opened.length := by
  obtain ⟨use, -, -, hopened, -⟩ := hsound.held slot stamp file hheld
  exact (List.getElem?_eq_some_iff.mp hopened).1

/-- What it takes of a file for a slot to hold it after its use. -/
structure Fresh (cache : Cache Slot Stamp Name Item)
    (use : Use Slot Stamp Name Item) (file : ℕ) (files : Files Name Item) :
    Prop where
  name : files.opened[file]? = some use.name
  isOpen : file ∉ files.closed
  others : ∀ slot stamp other, slot ≠ use.slot →
    cache.held slot = some (stamp, other) → other ≠ file ∧
      files.opened[other]? = cache.files.opened[other]? ∧
      other ∉ files.closed
  closed_lt : ∀ other ∈ files.closed, other < files.opened.length
  appended : files.appended = cache.files.appended
  fine : files.misused = false

omit [DecidableEq Slot] in
theorem Sound.fresh_obtainFile (hsound : Sound cache last)
    (hagrees : Agrees last use) :
    Fresh cache use
      (obtainFile (cache.held use.slot) cache.files use.stamp use.name).1
      (obtainFile (cache.held use.slot) cache.files use.stamp use.name).2 := by
  cases hheld : cache.held use.slot with
  | none =>
      exact
        { name := List.getElem?_concat_length
          isOpen := fun hclosed => (hsound.closed_lt _ hclosed).false
          others := by
            intro slot stamp other _ hother
            have hlt := hsound.lt_length hother
            obtain ⟨_, -, -, -, hopen⟩ := hsound.held slot stamp other hother
            exact ⟨hlt.ne, List.getElem?_append_left hlt, hopen⟩
          closed_lt := by
            intro other hother
            have hlt := hsound.closed_lt other hother
            exact hlt.trans_le (by simp [obtainFile, Files.openFile])
          appended := rfl
          fine := hsound.fine }
  | some current =>
      obtain ⟨stamp, file⟩ := current
      obtain ⟨previous, hprevious, hstamp, hname, hopen⟩ :=
        hsound.held use.slot stamp file hheld
      have hlt := hsound.lt_length hheld
      have hothers : ∀ slot other otherStamp, slot ≠ use.slot →
          cache.held slot = some (otherStamp, other) → other ≠ file := by
        rintro slot other otherStamp hne hother rfl
        exact hne (hsound.apart _ _ _ _ _ hother hheld)
      rw [obtainFile]
      split_ifs with hsame
      · have hagree :=
          hagrees previous hprevious (hstamp.trans hsame.symm)
        exact
          { name := hname.trans (congrArg some hagree)
            isOpen := hopen
            others := by
              intro slot otherStamp other hne hother
              obtain ⟨_, -, -, -, hotherOpen⟩ :=
                hsound.held slot otherStamp other hother
              exact ⟨hothers _ _ _ hne hother, rfl, hotherOpen⟩
            closed_lt := hsound.closed_lt
            appended := rfl
            fine := hsound.fine }
      · have hisOpen : cache.files.IsOpen file := ⟨hlt, hopen⟩
        exact
          { name := List.getElem?_concat_length
            isOpen := by
              rintro hclosed
              rcases List.mem_cons.mp hclosed with hfile | hclosed
              · exact hlt.ne' hfile
              · exact (hsound.closed_lt _ hclosed).false
            others := by
              intro slot otherStamp other hne hother
              have hotherLt := hsound.lt_length hother
              obtain ⟨_, -, -, -, hotherOpen⟩ :=
                hsound.held slot otherStamp other hother
              refine ⟨hotherLt.ne, List.getElem?_append_left hotherLt, ?_⟩
              rintro hclosed
              rcases List.mem_cons.mp hclosed with hfile | hclosed
              · exact hothers _ _ _ hne hother hfile
              · exact hotherOpen hclosed
            closed_lt := by
              intro other hother
              have hle : cache.files.opened.length <
                  (cache.files.opened ++ [use.name]).length := by simp
              rcases List.mem_cons.mp hother with rfl | hclosed
              · exact hlt.trans hle
              · exact (hsound.closed_lt _ hclosed).trans hle
            appended := rfl
            fine := by
              simp [Files.openFile, Files.close, hsound.fine, hisOpen] }

/-- A use appends its item to its own file. -/
theorem Sound.step (hsound : Sound cache last) (hagrees : Agrees last use) :
    Sound (cache.step use) (last.after [use]) ∧
      (cache.step use).files.appended =
        cache.files.appended ++ [(use.name, use.item)] := by
  have hfresh := hsound.fresh_obtainFile hagrees
  rw [Cache.step]
  generalize obtainFile (cache.held use.slot) cache.files use.stamp use.name =
    outcome at hfresh
  obtain ⟨file, files⟩ := outcome
  have hlt : file < files.opened.length :=
    (List.getElem?_eq_some_iff.mp hfresh.name).1
  have hisOpen : files.IsOpen file := ⟨hlt, hfresh.isOpen⟩
  have hfine : files.misused = false := hfresh.fine
  have hname : files.opened[file]? = some use.name := hfresh.name
  have happended : files.appended = cache.files.appended := hfresh.appended
  constructor
  · exact
      { held := by
          intro slot stamp held hheld
          by_cases hslot : slot = use.slot
          · subst hslot
            simp only [Function.update_self, Option.some.injEq,
              Prod.mk.injEq] at hheld
            obtain ⟨rfl, rfl⟩ := hheld
            exact ⟨use, Function.update_self .., rfl, hfresh.name,
              hfresh.isOpen⟩
          · simp only [Function.update_of_ne hslot] at hheld
            obtain ⟨previous, hprevious, hstamp, hname, -⟩ :=
              hsound.held slot stamp held hheld
            obtain ⟨-, hsame, hopen⟩ := hfresh.others _ _ _ hslot hheld
            refine ⟨previous, ?_, hstamp, hsame.trans hname, hopen⟩
            simpa [Last.after, Function.update_of_ne hslot] using hprevious
        apart := by
          intro slot other stamp otherStamp held hheld hother
          by_cases hslot : slot = use.slot <;>
            by_cases hotherSlot : other = use.slot
          · rw [hslot, hotherSlot]
          · subst hslot
            simp only [Function.update_self, Option.some.injEq,
              Prod.mk.injEq] at hheld
            simp only [Function.update_of_ne hotherSlot] at hother
            obtain ⟨hne, -⟩ := hfresh.others _ _ _ hotherSlot hother
            exact absurd hheld.2.symm hne
          · subst hotherSlot
            simp only [Function.update_self, Option.some.injEq,
              Prod.mk.injEq] at hother
            simp only [Function.update_of_ne hslot] at hheld
            obtain ⟨hne, -⟩ := hfresh.others _ _ _ hslot hheld
            exact absurd hother.2.symm hne
          · simp only [Function.update_of_ne hslot] at hheld
            simp only [Function.update_of_ne hotherSlot] at hother
            exact hsound.apart _ _ _ _ _ hheld hother
        closed_lt := hfresh.closed_lt
        fine := by simp [Files.append, hfine, hisOpen] }
  · simp [Files.append, hname, happended]

end Step

/-- In a run in which the uses of a slot agree, every item is appended to the
file of its own name, and no closed file is used. -/
theorem Sound.run {cache : Cache Slot Stamp Name Item}
    {last : Last Slot Stamp Name Item}
    {uses : List (Use Slot Stamp Name Item)} (hsound : Sound cache last)
    (hstable : Stable last uses) :
    Sound (cache.run uses) (last.after uses) ∧
      (cache.run uses).files.appended = cache.files.appended ++
        uses.map fun use => (use.name, use.item) := by
  induction uses generalizing cache last with
  | nil => exact ⟨hsound, (List.append_nil _).symm⟩
  | cons use uses ih =>
      obtain ⟨hagrees, hrest⟩ := hstable
      obtain ⟨hnext, hfirst⟩ := hsound.step hagrees
      obtain ⟨hfinal, hlater⟩ := ih hnext hrest
      refine ⟨hfinal, ?_⟩
      rw [Cache.run, List.foldl_cons, ← Cache.run, hlater, hfirst,
        List.map_cons, List.append_assoc]
      rfl

end MessageBus.FileCache
