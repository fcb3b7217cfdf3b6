import Mathlib.Tactic

/-!
# Loops that hand out copies

A loop hands out copies to targets, each of which has an outlet of its own, and
stops at the first copy that an outlet refuses.  A target fails if its outlet
refuses one of the copies that the whole list has for it.  The loop serves all
the others exactly if none of them stands behind a refused copy, where outlets
that take copies without noticing them do not count.
-/

namespace MessageBus.Handout

variable {Target Outlet Copy : Type} [DecidableEq Target]

/-- The copies that a list has for one target. -/
def copiesFor (target : Target) (list : List (Target × Copy)) : List Copy :=
  (list.filter fun entry => entry.1 = target).map Prod.snd

section Copies

variable {target : Target} {entry : Target × Copy}
  {list : List (Target × Copy)}

theorem copiesFor_cons_self (htarget : entry.1 = target) :
    copiesFor target (entry :: list) = entry.2 :: copiesFor target list := by
  simp [copiesFor, htarget]

theorem copiesFor_cons_of_ne (htarget : entry.1 ≠ target) :
    copiesFor target (entry :: list) = copiesFor target list := by
  simp [copiesFor, htarget]

theorem copiesFor_append (target : Target)
    (before after : List (Target × Copy)) :
    copiesFor target (before ++ after) =
      copiesFor target before ++ copiesFor target after := by
  simp [copiesFor]

theorem copiesFor_map {Source : Type} (target : Target)
    (place : Source → Target) (copy : Source → Copy) (sources : List Source) :
    copiesFor target (sources.map fun source => (place source, copy source)) =
      (sources.filter fun source => place source = target).map copy := by
  rw [copiesFor, List.filter_map, List.map_map]
  rfl

theorem mem_copiesFor {copy : Copy} :
    copy ∈ copiesFor target list ↔ (target, copy) ∈ list := by
  simp only [copiesFor, List.mem_map, List.mem_filter, decide_eq_true_eq]
  constructor
  · rintro ⟨entry, ⟨hmem, rfl⟩, rfl⟩
    exact hmem
  · intro hmem
    exact ⟨_, ⟨hmem, rfl⟩, rfl⟩

end Copies

variable (take : Outlet → Copy → Option Outlet)

/-- An outlet is given some copies; `none` if it refuses one of them. -/
def feed (outlet : Outlet) (copies : List Copy) : Option Outlet :=
  copies.foldlM take outlet

/-- The loop over the list. -/
def handOut (outlets : Target → Outlet) :
    List (Target × Copy) → Target → Outlet
  | [] => outlets
  | entry :: list =>
      match take (outlets entry.1) entry.2 with
      | none => outlets
      | some outlet => handOut (Function.update outlets entry.1 outlet) list

/-- The outlet of a target refuses one of the copies for it. -/
def Fails (outlets : Target → Outlet) (list : List (Target × Copy))
    (target : Target) : Prop :=
  feed take (outlets target) (copiesFor target list) = none

instance (outlets : Target → Outlet) (list : List (Target × Copy))
    (target : Target) : Decidable (Fails take outlets list target) :=
  decidable_of_iff _ Option.isNone_iff_eq_none

/-- A copy is refused by an outlet that has taken all the copies before it. -/
def Refused (outlets : Target → Outlet) (before : List (Target × Copy))
    (entry : Target × Copy) : Prop :=
  ∃ outlet,
    feed take (outlets entry.1) (copiesFor entry.1 before) = some outlet ∧
      take outlet entry.2 = none

section Loop

variable {take} {outlets : Target → Outlet} {target : Target}
  {entry : Target × Copy} {list before after : List (Target × Copy)}

theorem feed_append (outlet : Outlet) (first second : List Copy) :
    feed take outlet (first ++ second) =
      (feed take outlet first).bind fun next => feed take next second :=
  List.foldlM_append

theorem feed_cons (outlet : Outlet) (copy : Copy) (copies : List Copy) :
    feed take outlet (copy :: copies) =
      (take outlet copy).bind fun next => feed take next copies :=
  List.foldlM_cons

/-- What the first copy leaves of the list. -/
theorem feed_copiesFor_cons {outlet : Outlet}
    (htake : take (outlets entry.1) entry.2 = some outlet) :
    feed take (outlets target) (copiesFor target (entry :: list)) =
      feed take (Function.update outlets entry.1 outlet target)
        (copiesFor target list) := by
  by_cases heq : entry.1 = target
  · subst heq
    rw [copiesFor_cons_self rfl, feed_cons, htake, Option.bind_some,
      Function.update_self]
  · rw [copiesFor_cons_of_ne heq, Function.update_of_ne (Ne.symm heq)]

section Cons

variable {first : Target} {copy : Copy}

theorem handOut_cons_of_take {outlet : Outlet}
    (htake : take (outlets first) copy = some outlet) :
    handOut take outlets ((first, copy) :: list) =
      handOut take (Function.update outlets first outlet) list := by
  simp only [handOut, htake]

theorem handOut_cons_of_refused (htake : take (outlets first) copy = none) :
    handOut take outlets ((first, copy) :: list) = outlets := by
  simp only [handOut, htake]

theorem fails_cons_of_take {outlet : Outlet}
    (htake : take (outlets first) copy = some outlet) :
    Fails take outlets ((first, copy) :: list) target ↔
      Fails take (Function.update outlets first outlet) list target := by
  unfold Fails
  rw [feed_copiesFor_cons htake]

theorem fails_cons_of_refused (htake : take (outlets first) copy = none)
    (list : List (Target × Copy)) :
    Fails take outlets ((first, copy) :: list) first := by
  have hcopies : copiesFor first ((first, copy) :: list) =
      copy :: copiesFor first list := copiesFor_cons_self rfl
  rw [Fails, hcopies, feed_cons, htake, Option.bind_none]

end Cons

theorem Fails.exists_mem (hfails : Fails take outlets list target) :
    ∃ copy, (target, copy) ∈ list := by
  by_contra hnone
  have hnil : copiesFor target list = [] := by
    rw [List.eq_nil_iff_forall_not_mem]
    intro copy hcopy
    exact hnone ⟨copy, mem_copiesFor.mp hcopy⟩
  rw [Fails, hnil] at hfails
  cases hfails

theorem feed_eq_handOut
    (hnone : ∀ target, ¬ Fails take outlets list target) (target : Target) :
    feed take (outlets target) (copiesFor target list) =
      some (handOut take outlets list target) := by
  induction list generalizing outlets with
  | nil => rfl
  | cons entry list ih =>
      cases htake : take (outlets entry.1) entry.2 with
      | none => exact absurd (fails_cons_of_refused htake list) (hnone entry.1)
      | some outlet =>
          rw [feed_copiesFor_cons htake, handOut_cons_of_take htake]
          apply ih
          intro other hfails
          exact hnone other ((fails_cons_of_take htake).mpr hfails)

/-- Where somebody fails, the loop ends at the first refused copy. -/
theorem exists_first_refused (hfails : Fails take outlets list target) :
    ∃ before entry after, list = before ++ entry :: after ∧
      (∀ target, ¬ Fails take outlets before target) ∧
      Refused take outlets before entry ∧
      handOut take outlets list = handOut take outlets before := by
  induction list generalizing outlets with
  | nil => cases hfails
  | cons entry list ih =>
      cases htake : take (outlets entry.1) entry.2 with
      | none =>
          refine ⟨[], entry, list, rfl, ?_, ⟨_, rfl, htake⟩, ?_⟩
          · intro other hnil
            cases hnil
          · exact handOut_cons_of_refused htake
      | some outlet =>
          rw [fails_cons_of_take htake] at hfails
          obtain ⟨before, refused, after, rfl, hbefore, ⟨left, hleft, hrefused⟩,
            hloop⟩ := ih hfails
          refine ⟨entry :: before, refused, after, rfl, ?_, ⟨left, ?_, hrefused⟩,
            ?_⟩
          · intro other hother
            exact hbefore other ((fails_cons_of_take htake).mp hother)
          · rw [feed_copiesFor_cons htake, hleft]
          · rw [handOut_cons_of_take htake, handOut_cons_of_take htake, hloop]

theorem Refused.fails (hrefused : Refused take outlets before entry)
    (after : List (Target × Copy)) :
    Fails take outlets (before ++ entry :: after) entry.1 := by
  obtain ⟨outlet, hfeed, hnone⟩ := hrefused
  rw [Fails, copiesFor_append, feed_append, hfeed, Option.bind_some,
    copiesFor_cons_self rfl, feed_cons, hnone, Option.bind_none]

/-- Whatever stands behind a refused copy stands behind the first one. -/
theorem mem_after_first
    {first : Target × Copy} {front rest : List (Target × Copy)}
    (hfront : ∀ target, ¬ Fails take outlets front target)
    (hrefused : Refused take outlets before entry)
    (hlist : front ++ first :: rest = before ++ entry :: after)
    {later : Target × Copy} (hlater : later ∈ after) : later ∈ rest := by
  obtain ⟨between, hbefore, hrest⟩ | ⟨between, hbefore, hrest⟩ :=
    List.append_eq_append_iff.mp hlist
  · cases between with
    | nil =>
        obtain ⟨rfl, rfl⟩ := List.cons.inj hrest
        exact hlater
    | cons head between =>
        obtain ⟨rfl, rfl⟩ := List.cons.inj hrest
        simp [hlater]
  · cases between with
    | nil =>
        obtain ⟨rfl, rfl⟩ := List.cons.inj hrest
        exact hlater
    | cons head between =>
        obtain ⟨rfl, _⟩ := List.cons.inj hrest
        subst hbefore
        exact absurd (hrefused.fails between) (hfront entry.1)

/-! ## The targets that do not fail -/

/-- The list without the targets that fail. -/
def kept (take : Outlet → Copy → Option Outlet) (outlets : Target → Outlet)
    (list : List (Target × Copy)) : List (Target × Copy) :=
  list.filter fun entry => ¬ Fails take outlets list entry.1

theorem copiesFor_kept (hkept : ¬ Fails take outlets list target) :
    copiesFor target (kept take outlets list) = copiesFor target list := by
  unfold copiesFor kept
  rw [List.filter_filter]
  congr 1
  apply List.filter_congr
  intro entry _
  by_cases heq : entry.1 = target
  · simp [heq, hkept]
  · simp [heq]

theorem copiesFor_kept_of_fails (hfails : Fails take outlets list target) :
    copiesFor target (kept take outlets list) = [] := by
  rw [List.eq_nil_iff_forall_not_mem]
  intro copy hcopy
  have hmem := (List.mem_filter.mp (mem_copiesFor.mp hcopy)).2
  exact of_decide_eq_true hmem hfails

/-- Over the list without the failing targets every target of it is given the
copies for it. -/
theorem feed_eq_handOut_kept (hkept : ¬ Fails take outlets list target) :
    feed take (outlets target) (copiesFor target list) =
      some (handOut take outlets (kept take outlets list) target) := by
  rw [← copiesFor_kept hkept]
  apply feed_eq_handOut
  intro other hfails
  by_cases hother : Fails take outlets list other
  · rw [Fails, copiesFor_kept_of_fails hother] at hfails
    cases hfails
  · rw [Fails, copiesFor_kept hother] at hfails
    exact hother hfails

end Loop

/-! ## Isolation -/

/-- Outlets whose size grows with every good copy, unless they are idle. -/
structure Grows (Fine : Outlet → Prop) (Good : Copy → Prop)
    (Idle : Outlet → Prop) (size : Outlet → ℕ) : Prop where
  idle : ∀ outlet copy, Idle outlet → take outlet copy = some outlet
  grows : ∀ outlet copy next, Fine outlet → Good copy → ¬ Idle outlet →
    take outlet copy = some next →
    Fine next ∧ ¬ Idle next ∧ size outlet < size next

section Isolation

variable {take} {Fine Idle : Outlet → Prop} {Good : Copy → Prop}
  {size : Outlet → ℕ} {outlets : Target → Outlet} {outlet next : Outlet}
  {list : List (Target × Copy)} {copies : List Copy}

theorem Grows.feed_idle (h : Grows take Fine Good Idle size)
    (hidle : Idle outlet) (copies : List Copy) :
    feed take outlet copies = some outlet := by
  induction copies with
  | nil => rfl
  | cons copy copies ih =>
      rw [feed_cons, h.idle outlet copy hidle, Option.bind_some, ih]

theorem Grows.feed_grows (h : Grows take Fine Good Idle size)
    (hgood : ∀ copy ∈ copies, Good copy) (hfine : Fine outlet)
    (hbusy : ¬ Idle outlet) (hfeed : feed take outlet copies = some next) :
    Fine next ∧ ¬ Idle next ∧ size outlet + copies.length ≤ size next := by
  induction copies generalizing outlet with
  | nil =>
      cases hfeed
      exact ⟨hfine, hbusy, le_rfl⟩
  | cons copy copies ih =>
      rw [feed_cons] at hfeed
      obtain ⟨middle, htake, hrest⟩ := Option.bind_eq_some_iff.mp hfeed
      obtain ⟨hmiddle, hstill, hlt⟩ := h.grows outlet copy middle hfine
        (hgood copy List.mem_cons_self) hbusy htake
      obtain ⟨hnext, hend, hle⟩ := ih
        (fun copy hcopy => hgood copy (List.mem_cons_of_mem _ hcopy)) hmiddle
        hstill hrest
      refine ⟨hnext, hend, ?_⟩
      rw [List.length_cons]
      omega

/-- The loop gives every target that does not fail all its copies exactly if
none of them stands behind a refused copy. -/
theorem Grows.served_iff (h : Grows take Fine Good Idle size)
    (hfine : ∀ target, Fine (outlets target))
    (hgood : ∀ entry ∈ list, Good entry.2) :
    (∀ entry ∈ list, ¬ Fails take outlets list entry.1 →
        feed take (outlets entry.1) (copiesFor entry.1 list) =
          some (handOut take outlets list entry.1)) ↔
      ∀ before entry after, list = before ++ entry :: after →
        Refused take outlets before entry → ∀ later ∈ after,
        Fails take outlets list later.1 ∨ Idle (outlets later.1) := by
  constructor
  · intro hserved before entry after hlist hrefused later hlater
    by_contra hboth
    obtain ⟨hkept, hbusy⟩ := not_or.mp hboth
    have hfails : Fails take outlets list entry.1 := by
      rw [hlist]
      exact hrefused.fails after
    obtain ⟨front, first, rest, hsplit, hfront, -, hloop⟩ :=
      exists_first_refused hfails
    have hrest : later ∈ rest :=
      mem_after_first hfront hrefused (hsplit.symm.trans hlist) hlater
    have hmem : later ∈ list := by
      rw [hsplit]
      simp [hrest]
    -- the outlet is the same after the front as after the whole list
    have hwhole := hserved later hmem hkept
    rw [hloop] at hwhole
    have hpart := feed_eq_handOut hfront later.1
    have hmore := hwhole
    rw [hsplit, copiesFor_append, feed_append, hpart, Option.bind_some]
      at hmore
    have hcopies (copy : Copy) (hcopy : (later.1, copy) ∈ list) : Good copy :=
      hgood _ hcopy
    obtain ⟨hfine', hbusy', -⟩ := h.feed_grows
      (fun copy hcopy => hcopies copy
        (by rw [hsplit]; exact List.mem_append_left _ (mem_copiesFor.mp hcopy)))
      (hfine later.1) hbusy hpart
    obtain ⟨-, -, hle⟩ := h.feed_grows
      (fun copy hcopy => hcopies copy
        (by rw [hsplit]
            exact List.mem_append_right _ (mem_copiesFor.mp hcopy)))
      hfine' hbusy' hmore
    have hlength : 0 < (copiesFor later.1 (first :: rest)).length := by
      apply List.length_pos_of_mem
      exact mem_copiesFor.mpr (List.mem_cons_of_mem _ hrest)
    omega
  · intro hcondition entry hentry hkept
    by_cases hnone : ∀ target, ¬ Fails take outlets list target
    · exact feed_eq_handOut hnone entry.1
    · rw [not_forall_not] at hnone
      obtain ⟨target, hfails⟩ := hnone
      obtain ⟨front, first, rest, hsplit, hfront, hrefused, hloop⟩ :=
        exists_first_refused hfails
      rw [hloop]
      have hpart := feed_eq_handOut hfront entry.1
      rw [← hpart]
      by_cases hlater : ∃ later ∈ rest, later.1 = entry.1
      · obtain ⟨later, hrest, heq⟩ := hlater
        have hidle : Idle (outlets entry.1) := by
          have hor := hcondition front first rest hsplit hrefused later hrest
          rw [heq] at hor
          exact hor.resolve_left hkept
        rw [h.feed_idle hidle, h.feed_idle hidle]
      · have hnil : copiesFor entry.1 (first :: rest) = [] := by
          rw [List.eq_nil_iff_forall_not_mem]
          intro copy hcopy
          obtain heq | hrest := List.mem_cons.mp (mem_copiesFor.mp hcopy)
          · have hfirst : entry.1 = first.1 := by rw [← heq]
            apply hkept
            rw [hsplit, hfirst]
            exact hrefused.fails rest
          · exact hlater ⟨_, hrest, rfl⟩
        rw [hsplit, copiesFor_append, hnil, List.append_nil]

end Isolation

end MessageBus.Handout
