import Mathlib.Logic.Relation
import Mathlib.Tactic

/-!
# Walks along successors

A walk follows the successors of a node until it meets a node at which it
stops.  Nothing is assumed of the successors: a walk may be endless, and
several walks may run into one another.  A walk inside a finite set ends
exactly when it never comes back to a node, and walks from several heads are
disjoint exactly when no two links lead to one node.
-/

namespace MessageBus.LinkWalk

open Relation

variable {ι κ : Type} {next : ι → ι} {stop : ι → Prop}
  {first last node : ι} {nodes : List ι}

/-- One step of a walk. -/
def Follows (next : ι → ι) (stop : ι → Prop) (node later : ι) : Prop :=
  ¬ stop node ∧ next node = later

/-- What a walk from `first` comes to. -/
def Reaches (next : ι → ι) (stop : ι → Prop) : ι → ι → Prop :=
  ReflTransGen (Follows next stop)

/-- The walk comes back to `node`. -/
def Returns (next : ι → ι) (stop : ι → Prop) (node : ι) : Prop :=
  TransGen (Follows next stop) node node

/-- The walk from `first` goes through `nodes` and stops at `last`. -/
def WalkTo (next : ι → ι) (stop : ι → Prop) : ι → List ι → ι → Prop
  | first, [], last => first = last ∧ stop last
  | first, node :: nodes, last =>
      first = node ∧ ¬ stop node ∧ WalkTo next stop (next node) nodes last

theorem follows_rightUnique : Relator.RightUnique (Follows next stop) := by
  intro node later other hlater hother
  exact hlater.2.symm.trans hother.2

theorem WalkTo.stop_last (hwalk : WalkTo next stop first nodes last) :
    stop last := by
  induction nodes generalizing first with
  | nil => exact hwalk.2
  | cons node nodes ih => exact ih hwalk.2.2

theorem WalkTo.unique
    {others : List ι} {other : ι} (hwalk : WalkTo next stop first nodes last)
    (hother : WalkTo next stop first others other) :
    nodes = others ∧ last = other := by
  induction nodes generalizing first others with
  | nil =>
      obtain ⟨rfl, hstop⟩ := hwalk
      cases others with
      | nil => exact ⟨rfl, hother.1⟩
      | cons node others => exact absurd (hother.1 ▸ hstop) hother.2.1
  | cons node nodes ih =>
      obtain ⟨rfl, hgo, hrest⟩ := hwalk
      cases others with
      | nil => exact absurd (hother.1.symm ▸ hother.2) hgo
      | cons node others =>
          obtain ⟨rfl, -, hrest'⟩ := hother
          obtain ⟨rfl, rfl⟩ := ih hrest hrest'
          exact ⟨rfl, rfl⟩

theorem WalkTo.step
    {later : ι} (hwalk : WalkTo next stop first nodes last)
    (hstep : Follows next stop first later) :
    ∃ rest, nodes = first :: rest ∧ WalkTo next stop later rest last := by
  obtain ⟨hgo, rfl⟩ := hstep
  cases nodes with
  | nil => exact absurd (hwalk.1.symm ▸ hwalk.2) hgo
  | cons node nodes =>
      obtain ⟨rfl, -, hrest⟩ := hwalk
      exact ⟨nodes, rfl, hrest⟩

theorem WalkTo.reaches_iff (hwalk : WalkTo next stop first nodes last) :
    Reaches next stop first node ↔ node ∈ nodes ∨ node = last := by
  induction nodes generalizing first with
  | nil =>
      obtain ⟨rfl, hstop⟩ := hwalk
      simp only [List.not_mem_nil, false_or]
      constructor
      · intro hreach
        rcases hreach.cases_head with heq | ⟨later, hstep, -⟩
        · exact heq.symm
        · exact absurd hstop hstep.1
      · rintro rfl
        exact .refl
  | cons head nodes ih =>
      obtain ⟨rfl, hgo, hrest⟩ := hwalk
      rw [List.mem_cons, or_assoc, ← ih hrest]
      constructor
      · intro hreach
        rcases hreach.cases_head with heq | ⟨later, ⟨-, rfl⟩, hreach⟩
        · exact Or.inl heq.symm
        · exact Or.inr hreach
      · rintro (rfl | hreach)
        · exact .refl
        · exact .head ⟨hgo, rfl⟩ hreach

theorem WalkTo.not_stop
    (hwalk : WalkTo next stop first nodes last) (hmem : node ∈ nodes) :
    ¬ stop node := by
  induction nodes generalizing first with
  | nil => cases hmem
  | cons head nodes ih =>
      rcases List.mem_cons.mp hmem with rfl | hmem
      · exact hwalk.2.1
      · exact ih hwalk.2.2 hmem

theorem WalkTo.mem_iff (hwalk : WalkTo next stop first nodes last) :
    node ∈ nodes ↔ Reaches next stop first node ∧ ¬ stop node := by
  rw [hwalk.reaches_iff]
  constructor
  · intro hmem
    exact ⟨Or.inl hmem, hwalk.not_stop hmem⟩
  · rintro ⟨hmem | rfl, hnode⟩
    · exact hmem
    · exact absurd hwalk.stop_last hnode

/-! ## Walks that end -/

theorem WalkTo.shorter
    (hwalk : WalkTo next stop first nodes last)
    (hreach : TransGen (Follows next stop) first node) :
    ∃ rest, rest.length < nodes.length ∧
      WalkTo next stop node rest last := by
  induction hreach with
  | single hstep =>
      obtain ⟨rest, rfl, hrest⟩ := hwalk.step hstep
      exact ⟨rest, by simp, hrest⟩
  | tail _ hstep ih =>
      obtain ⟨between, hlength, hbetween⟩ := ih
      obtain ⟨rest, rfl, hrest⟩ := hbetween.step hstep
      exact ⟨rest, (Nat.lt_succ_self _).trans hlength, hrest⟩

theorem WalkTo.not_returns
    (hwalk : WalkTo next stop first nodes last)
    (hreach : Reaches next stop first node) : ¬ Returns next stop node := by
  intro hreturns
  obtain ⟨rest, hrest⟩ : ∃ rest, WalkTo next stop node rest last := by
    rcases reflTransGen_iff_eq_or_transGen.mp hreach with rfl | hreach
    · exact ⟨nodes, hwalk⟩
    · obtain ⟨rest, -, hrest⟩ := hwalk.shorter hreach
      exact ⟨rest, hrest⟩
  obtain ⟨again, hlength, hagain⟩ := hrest.shorter hreturns
  rw [(hrest.unique hagain).1] at hlength
  exact lt_irrefl _ hlength

/-- A walk that never comes back to a node ends in any finite set. -/
theorem exists_walkTo
    (inside : Finset ι)
    (hinside : ∀ node, Reaches next stop first node → ¬ stop node →
      node ∈ inside)
    (honce : ∀ node, Reaches next stop first node → ¬ Returns next stop node) :
    ∃ nodes last, WalkTo next stop first nodes last := by
  classical
  induction inside using Finset.strongInduction generalizing first with
  | H inside ih =>
      by_cases hgo : stop first
      · exact ⟨[], first, rfl, hgo⟩
      have hstep : Follows next stop first (next first) := ⟨hgo, rfl⟩
      have hfirst : first ∈ inside := hinside first .refl hgo
      -- the rest of the walk does without `first`
      obtain ⟨nodes, last, hwalk⟩ := ih (inside.erase first)
        (Finset.erase_ssubset hfirst) 
        (by
          intro node hreach hnode
          refine Finset.mem_erase.mpr
            ⟨?_, hinside node (.head hstep hreach) hnode⟩
          rintro rfl
          exact honce node .refl (.head' hstep hreach))
        fun node hreach => honce node (.head hstep hreach)
      exact ⟨first :: nodes, last, rfl, hgo, hwalk⟩

theorem WalkTo.nodup (hwalk : WalkTo next stop first nodes last) :
    nodes.Nodup := by
  induction nodes generalizing first with
  | nil => exact List.nodup_nil
  | cons node nodes ih =>
      have honce := hwalk.not_returns (.refl)
      obtain ⟨rfl, hgo, hrest⟩ := hwalk
      refine List.nodup_cons.mpr ⟨?_, ih hrest⟩
      intro hmem
      exact honce (.head' ⟨hgo, rfl⟩ (hrest.mem_iff.mp hmem).1)

/-! ## Walks from several heads -/

/-- Where a link leads: the link of a head or the link of a node. -/
def target (next : ι → ι) (head : κ → ι) : κ ⊕ ι → ι :=
  Sum.elim head next

/-- `node` is on the walk from one of the heads. -/
def Listed (next : ι → ι) (stop : ι → Prop) (head : κ → ι) (node : ι) : Prop :=
  ∃ key, Reaches next stop (head key) node ∧ ¬ stop node

/-- The links of the walks that lead to a node on which the walk goes on. -/
def links (next : ι → ι) (stop : ι → Prop) (head : κ → ι) : Set (κ ⊕ ι) :=
  {place | (∀ node, place = .inr node → Listed next stop head node) ∧
    ¬ stop (target next head place)}

variable {head : κ → ι}

theorem eq_of_next_eq
    {other : ι} (honce : ∀ node, Reaches next stop first node →
      ¬ Returns next stop node)
    (hnode : Reaches next stop first node) (hgo : ¬ stop node)
    (hother : Reaches next stop first other) (hgo' : ¬ stop other)
    (hsame : next node = next other) : node = other := by
  -- whichever comes later leads back to the successor of the earlier one
  have hlater : ∀ {earlier later : ι}, Reaches next stop first earlier →
      ¬ stop earlier → ¬ stop later → next earlier = next later →
      Reaches next stop earlier later → earlier = later := by
    intro earlier later hearlier hgo hgo' hsame hreach
    rcases hreach.cases_head with heq | ⟨between, ⟨-, rfl⟩, hreach⟩
    · exact heq
    · exact absurd (TransGen.tail' hreach ⟨hgo', hsame.symm⟩)
        (honce _ (hearlier.tail ⟨hgo, rfl⟩))
  rcases ReflTransGen.total_of_right_unique follows_rightUnique hnode
      hother with hreach | hreach
  · exact hlater hnode hgo hgo' hsame hreach
  · exact (hlater hother hgo' hgo hsame.symm hreach).symm

theorem key_eq_of_injOn
    (hinj : Set.InjOn (target next head) (links next stop head))
    {key other : κ} (hkey : Reaches next stop (head key) node)
    (hother : Reaches next stop (head other) node) (hgo : ¬ stop node) :
    key = other := by
  have hhead : ∀ key : κ, ¬ stop (head key) →
      Sum.inl key ∈ links next stop head := by
    intro key hgo
    exact ⟨fun _ hplace => (Sum.inl_ne_inr hplace).elim, hgo⟩
  have hlink : ∀ {key : κ} {node : ι}, Reaches next stop (head key) node →
      ¬ stop node → ¬ stop (next node) →
      Sum.inr node ∈ links next stop head := by
    intro key node hreach hgo hnext
    refine ⟨?_, hnext⟩
    intro other hother
    cases hother
    exact ⟨key, hreach, hgo⟩
  induction hkey with
  | refl =>
      rcases hother.cases_tail with heq | ⟨before, hbefore, ⟨hgo', hnext⟩⟩
      · exact Sum.inl.inj (hinj (hhead key hgo) (hhead other (heq ▸ hgo)) heq)
      · cases hinj (hhead key hgo)
          (hlink hbefore hgo' (hnext.symm ▸ hgo)) hnext.symm
  | tail hreach hstep ih =>
      obtain ⟨hgo', rfl⟩ := hstep
      rcases hother.cases_tail with heq | ⟨before, hbefore, ⟨hgo'', hnext⟩⟩
      · cases hinj (hlink hreach hgo' hgo) (hhead other (heq ▸ hgo)) heq
      · cases hinj (hlink hreach hgo' hgo)
          (hlink hbefore hgo'' (hnext.symm ▸ hgo)) hnext.symm
        exact ih hbefore hgo'

/-- The walks from the heads are disjoint exactly when no two of their links
lead to one node. -/
theorem disjoint_iff_injOn
    {lists : κ → List ι} {ends : κ → ι}
    (hwalk : ∀ key, WalkTo next stop (head key) (lists key) (ends key)) :
    Pairwise (fun key other => (lists key).Disjoint (lists other)) ↔
      Set.InjOn (target next head) (links next stop head) := by
  constructor
  · intro hdisjoint
    have hsame : ∀ {key other : κ} {node : ι},
        Reaches next stop (head key) node →
        Reaches next stop (head other) node → ¬ stop node → key = other := by
      intro key other node hkey hother hgo
      by_contra hne
      exact hdisjoint hne ((hwalk key).mem_iff.mpr ⟨hkey, hgo⟩)
        ((hwalk other).mem_iff.mpr ⟨hother, hgo⟩)
    have honce : ∀ {key : κ} {node : ι}, Reaches next stop (head key) node →
        ¬ Returns next stop node := fun hreach => (hwalk _).not_returns hreach
    -- a head is not the successor of a node on the walks
    have hfirst : ∀ {key other : κ} {node : ι},
        Reaches next stop (head other) node → ¬ stop node →
        ¬ stop (head key) → head key ≠ next node := by
      intro key other node hreach hgo hhead heq
      have hstep : Follows next stop node (head key) := ⟨hgo, heq.symm⟩
      obtain rfl := hsame .refl (hreach.tail hstep) hhead
      exact honce (.refl) (TransGen.tail' hreach hstep)
    rintro (key | node) ⟨hplace, hgo⟩ (other | another) ⟨hother, hgo'⟩ heq
    · have hheads : head key = head other := heq
      have hreach : Reaches next stop (head other) (head key) :=
        hheads ▸ ReflTransGen.refl
      exact congrArg Sum.inl (hsame .refl hreach hgo)
    · obtain ⟨_, hreach, hanother⟩ := hother another rfl
      exact absurd heq (hfirst hreach hanother hgo)
    · obtain ⟨_, hreach, hnode⟩ := hplace node rfl
      exact absurd heq.symm (hfirst hreach hnode hgo')
    · obtain ⟨key, hreach, hnode⟩ := hplace node rfl
      obtain ⟨other, hreach', hanother⟩ := hother another rfl
      have hnext : next node = next another := heq
      obtain rfl := hsame (hreach.tail ⟨hnode, rfl⟩)
        (hreach'.tail ⟨hanother, hnext.symm⟩) hgo
      exact congrArg Sum.inr (eq_of_next_eq (fun _ => honce) hreach hnode
        hreach' hanother hnext)
  · intro hinj key other hne node hkey hother
    obtain ⟨hreach, hgo⟩ := (hwalk key).mem_iff.mp hkey
    obtain ⟨hreach', -⟩ := (hwalk other).mem_iff.mp hother
    exact hne (key_eq_of_injOn hinj hreach hreach' hgo)

end MessageBus.LinkWalk
