import Mathlib.Tactic

/-!
# Chains threaded through a successor array

Several singly linked lists can share one array of successors: a chain is
followed from its first node until the null node.  The lemmas say what a chain
becomes when one successor is overwritten, and that collecting the chains of
many buckets is not sensitive to which bucket is changed.
-/

namespace MessageBus.IndexChain

variable {ι : Type} {next : ι → ι} {null first node : ι} {nodes : List ι}

/-- The nodes visited from `first` up to `null`. -/
def ChainFrom (next : ι → ι) (null : ι) : ι → List ι → Prop
  | first, [] => first = null
  | first, node :: nodes =>
      first = node ∧ node ≠ null ∧ ChainFrom next null (next node) nodes

theorem ChainFrom.congr
    {next' : ι → ι} (hchain : ChainFrom next null first nodes)
    (hagree : ∀ node ∈ nodes, next' node = next node) :
    ChainFrom next' null first nodes := by
  induction nodes generalizing first with
  | nil => exact hchain
  | cons node nodes ih =>
      obtain ⟨hfirst, hnode, hrest⟩ := hchain
      refine ⟨hfirst, hnode, ?_⟩
      rw [hagree node (by simp)]
      exact ih hrest fun later hlater => hagree later (by simp [hlater])

theorem ChainFrom.append
    {before after : List ι}
    (hchain : ChainFrom next null first (before ++ node :: after)) :
    ChainFrom next null (next node) after := by
  induction before generalizing first with
  | nil => exact hchain.2.2
  | cons earlier before ih => exact ih hchain.2.2

theorem ChainFrom.first_eq_or_mem (hchain : ChainFrom next null first nodes) :
    first = null ∨ first ∈ nodes := by
  cases nodes with
  | nil => exact Or.inl hchain
  | cons node nodes =>
      rw [hchain.1]
      exact Or.inr List.mem_cons_self

theorem ChainFrom.next_eq_or_mem
    (hchain : ChainFrom next null first nodes) (hnode : node ∈ nodes) :
    next node = null ∨ next node ∈ nodes := by
  obtain ⟨before, after, rfl⟩ := List.append_of_mem hnode
  rcases hchain.append.first_eq_or_mem with hnull | hmem
  · exact Or.inl hnull
  · exact Or.inr (List.mem_append_right before (List.mem_cons_of_mem node hmem))

/-- A chain is determined by its first node. -/
theorem ChainFrom.unique
    {others : List ι} (hchain : ChainFrom next null first nodes)
    (hothers : ChainFrom next null first others) : nodes = others := by
  induction nodes generalizing first others with
  | nil =>
      cases others with
      | nil => rfl
      | cons other others => exact (hothers.2.1 (hothers.1 ▸ hchain)).elim
  | cons node nodes ih =>
      cases others with
      | nil => exact (hchain.2.1 (hchain.1 ▸ hothers)).elim
      | cons other others =>
          obtain ⟨rfl, -, hrest⟩ := hchain
          obtain ⟨rfl, -, hrest'⟩ := hothers
          rw [ih hrest hrest']

/-! ## Following a chain -/

/-- `node` is met when the successors are followed from `first`. -/
inductive Leads (next : ι → ι) (null : ι) : ι → ι → Prop where
  | here {node : ι} (hnode : node ≠ null) : Leads next null node node
  | there {first node : ι} (hfirst : first ≠ null)
      (hleads : Leads next null (next first) node) :
      Leads next null first node

theorem ChainFrom.leads_iff (hchain : ChainFrom next null first nodes) :
    Leads next null first node ↔ node ∈ nodes := by
  induction nodes generalizing first with
  | nil =>
      have hfirst : first = null := hchain
      refine iff_of_false ?_ List.not_mem_nil
      intro hleads
      cases hleads with
      | here hnode => exact hnode hfirst
      | there hne _ => exact hne hfirst
  | cons head nodes ih =>
      obtain ⟨rfl, hfirst, hrest⟩ := hchain
      rw [List.mem_cons, ← ih hrest]
      constructor
      · intro hleads
        cases hleads with
        | here _ => exact Or.inl rfl
        | there _ hleads => exact Or.inr hleads
      · rintro (rfl | hleads)
        · exact .here hfirst
        · exact .there hfirst hleads

/-- A chain gets a new last node when its last successor is set. -/
theorem ChainFrom.extend
    {next' : ι → ι} {before : List ι} {last fresh : ι}
    (hchain : ChainFrom next null first (before ++ [last]))
    (hagree : ∀ node ∈ before, next' node = next node)
    (hlast : next' last = fresh) (hfresh : fresh ≠ null)
    (hend : next' fresh = null) :
    ChainFrom next' null first (before ++ [last, fresh]) := by
  induction before generalizing first with
  | nil =>
      obtain ⟨hfirst, hnode, -⟩ := hchain
      exact ⟨hfirst, hnode, hlast, hfresh, hend⟩
  | cons earlier before ih =>
      obtain ⟨hfirst, hnode, hrest⟩ := hchain
      refine ⟨hfirst, hnode, ?_⟩
      rw [hagree earlier List.mem_cons_self]
      exact ih hrest fun node hmem =>
        hagree node (List.mem_cons_of_mem _ hmem)

section Update

variable [DecidableEq ι]

theorem ChainFrom.update_of_notMem
    {outside value : ι} (hchain : ChainFrom next null first nodes)
    (hout : outside ∉ nodes) :
    ChainFrom (Function.update next outside value) null first nodes := by
  apply hchain.congr
  intro node hnode
  have hne : node ≠ outside := by
    intro heq
    subst heq
    exact hout hnode
  simp [Function.update, hne]

theorem ChainFrom.push
    (hchain : ChainFrom next null first nodes) (hnode : node ≠ null)
    (hout : node ∉ nodes) :
    ChainFrom (Function.update next node first) null node (node :: nodes) := by
  refine ⟨rfl, hnode, ?_⟩
  rw [Function.update_self]
  exact hchain.update_of_notMem hout

theorem ChainFrom.unlink
    {last target : ι} {before after : List ι}
    (hchain : ChainFrom next null first
      (before ++ last :: target :: after))
    (hnodup : (before ++ last :: target :: after).Nodup) :
    ChainFrom (Function.update next last (next target)) null first
      (before ++ last :: after) := by
  induction before generalizing first with
  | nil =>
      obtain ⟨hfirst, hlast, htarget⟩ := hchain
      refine ⟨hfirst, hlast, ?_⟩
      rw [Function.update_self]
      apply htarget.2.2.update_of_notMem
      intro hmem
      simp only [List.nil_append, List.nodup_cons, List.mem_cons,
        not_or] at hnodup
      exact hnodup.1.2 hmem
  | cons earlier before ih =>
      obtain ⟨hfirst, hearlier, hrest⟩ := hchain
      rw [List.cons_append, List.nodup_cons] at hnodup
      have hne : earlier ≠ last := by
        intro heq
        apply hnodup.1
        simp [heq]
      refine ⟨hfirst, hearlier, ?_⟩
      rw [Function.update_of_ne hne]
      exact ih hrest hnodup.2

end Update

/-! ## Buckets of chains -/

/-- Replacing the chain of one bucket, seen on the nodes of all buckets. -/
theorem flatMap_update_perm
    {buckets bucket : ℕ} (hbucket : bucket < buckets)
    (chains : ℕ → List ι) (chain : List ι) :
    ((List.range buckets).flatMap (Function.update chains bucket chain)).Perm
      (chain ++ ((List.range buckets).erase bucket).flatMap chains) := by
  have hsplit : (List.range buckets).Perm
      (bucket :: (List.range buckets).erase bucket) :=
    List.perm_cons_erase (List.mem_range.mpr hbucket)
  have hflat := hsplit.flatMap_right (Function.update chains bucket chain)
  rw [List.flatMap_cons, Function.update_self] at hflat
  have hothers :
      ((List.range buckets).erase bucket).flatMap
          (Function.update chains bucket chain) =
        ((List.range buckets).erase bucket).flatMap chains := by
    apply List.flatMap_congr
    intro other hother
    have hne : other ≠ bucket :=
      (List.Nodup.mem_erase_iff List.nodup_range).mp hother |>.1
    rw [Function.update_of_ne hne]
  rw [hothers] at hflat
  exact hflat

theorem flatMap_perm_erase
    {buckets bucket : ℕ} (hbucket : bucket < buckets)
    (chains : ℕ → List ι) :
    ((List.range buckets).flatMap chains).Perm
      (chains bucket ++
        ((List.range buckets).erase bucket).flatMap chains) := by
  have hself := flatMap_update_perm hbucket chains (chains bucket)
  rwa [Function.update_eq_self] at hself

theorem flatMap_push_perm
    {buckets bucket : ℕ} (hbucket : bucket < buckets)
    (chains : ℕ → List ι) (node : ι) :
    ((List.range buckets).flatMap
      (Function.update chains bucket (node :: chains bucket))).Perm
      (node :: (List.range buckets).flatMap chains) :=
  (flatMap_update_perm hbucket chains (node :: chains bucket)).trans
    ((flatMap_perm_erase hbucket chains).cons node).symm

theorem flatMap_unlink_perm
    {buckets bucket : ℕ} (hbucket : bucket < buckets)
    {chains : ℕ → List ι} {before after : List ι} {node : ι}
    (hchain : chains bucket = before ++ node :: after) :
    (node :: (List.range buckets).flatMap
      (Function.update chains bucket (before ++ after))).Perm
      ((List.range buckets).flatMap chains) := by
  have hsplit := flatMap_perm_erase hbucket chains
  rw [hchain] at hsplit
  apply ((flatMap_update_perm hbucket chains (before ++ after)).cons
    node).trans
  apply List.Perm.trans _ hsplit.symm
  rw [← List.cons_append]
  exact List.perm_middle.symm.append_right _

end MessageBus.IndexChain
