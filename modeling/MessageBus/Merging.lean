import Mathlib.Tactic

/-!
# Merged streams

What arrives over several ordered channels at one place is a merge of the
streams of the channels: every element comes from one source, and the elements
of a source stand in the order of its stream.  Where nothing may be missing the
elements of a source are the whole stream.
-/

namespace MessageBus.Merging

variable {Source Item : Type} {exact : Prop} {part whole later : List Item}

/-- A part of a list, in its order; all of it if nothing may be missing. -/
structure Follows (exact : Prop) (part whole : List Item) : Prop where
  sublist : part.Sublist whole
  eq : exact → part = whole

theorem Follows.refl (exact : Prop) (part : List Item) :
    Follows exact part part :=
  ⟨List.Sublist.refl part, fun _ => rfl⟩

theorem Follows.trans (h : Follows exact part whole)
    (hlater : Follows exact whole later) : Follows exact part later :=
  ⟨h.sublist.trans hlater.sublist,
    fun hexact => (h.eq hexact).trans (hlater.eq hexact)⟩

theorem Follows.append {front back : List Item}
    (h : Follows exact part whole) (hback : Follows exact front back) :
    Follows exact (part ++ front) (whole ++ back) := by
  constructor
  · exact h.sublist.append hback.sublist
  · intro hexact
    rw [h.eq hexact, hback.eq hexact]

theorem Follows.filter (h : Follows exact part whole) (keep : Item → Bool) :
    Follows exact (part.filter keep) (whole.filter keep) := by
  constructor
  · exact h.sublist.filter keep
  · intro hexact
    rw [h.eq hexact]

theorem Follows.weaken {other : Prop} (h : Follows exact part whole)
    (hother : other → exact) : Follows other part whole :=
  ⟨h.sublist, fun hexact => h.eq (hother hexact)⟩

theorem Follows.nil (hnot : ¬ exact) (whole : List Item) :
    Follows exact [] whole :=
  ⟨List.nil_sublist whole, fun hexact => absurd hexact hnot⟩

/-- Some parts of a stream have been sent over channels, one part after the
other, and of every part the front has arrived. -/
def Fronts (exact : Prop) (parts : List (List Item)) (whole : List Item) :
    Prop :=
  ∃ sent, List.Forall₂ (fun part given => part <+: given) parts sent ∧
    Follows exact sent.flatten whole

theorem Fronts.single (exact : Prop) (whole : List Item) :
    Fronts exact [whole] whole :=
  ⟨[whole], .cons List.prefix_rfl .nil, by simpa using Follows.refl exact whole⟩

section Merges

variable [DecidableEq Source] {streams more : Source → List Item}
  {received fresh : List Item}

/-- The items of one source, among items that are marked with their source. -/
def itemsOf (origins : List (Source × Item)) (source : Source) : List Item :=
  (origins.filter fun entry => entry.1 = source).map Prod.snd

theorem itemsOf_append (origins fresh : List (Source × Item))
    (source : Source) :
    itemsOf (origins ++ fresh) source =
      itemsOf origins source ++ itemsOf fresh source := by
  simp [itemsOf]

theorem itemsOf_marked (items : List Item) (source other : Source) :
    itemsOf (items.map fun item => (source, item)) other =
      if source = other then items else [] := by
  unfold itemsOf
  rw [List.filter_map, List.map_map]
  split_ifs with hsame
  · subst hsame
    simp [Function.comp_def]
  · simp [Function.comp_def, hsame]

/-- What has been received is a merge of parts of the streams. -/
def MergeOf (exact : Prop) (streams : Source → List Item)
    (received : List Item) : Prop :=
  ∃ origins : List (Source × Item), origins.map Prod.snd = received ∧
    ∀ source, Follows exact (itemsOf origins source) (streams source)

theorem MergeOf.nil (exact : Prop) (streams : Source → List Item)
    (hempty : exact → ∀ source, streams source = []) :
    MergeOf exact streams [] := by
  refine ⟨[], rfl, ?_⟩
  intro source
  exact ⟨List.nil_sublist _, fun hexact => (hempty hexact source).symm⟩

/-- A channel delivers some more. -/
theorem MergeOf.receive (h : MergeOf exact streams received)
    (more : Source → List Item) (source : Source)
    (hfresh : Follows exact fresh (more source))
    (hothers : ∀ other, other ≠ source → more other = []) :
    MergeOf exact (fun other => streams other ++ more other)
      (received ++ fresh) := by
  obtain ⟨origins, horigins, hstreams⟩ := h
  refine ⟨origins ++ fresh.map fun item => (source, item), ?_, ?_⟩
  · rw [List.map_append, horigins, List.map_map]
    simp [Function.comp_def]
  · intro other
    rw [itemsOf_append, itemsOf_marked]
    apply (hstreams other).append
    split_ifs with hsame
    · rwa [← hsame]
    · rw [hothers other (Ne.symm hsame)]
      exact Follows.refl exact []

theorem MergeOf.follow (h : MergeOf exact streams received)
    (hstreams : ∀ source, Follows exact (streams source) (more source)) :
    MergeOf exact more received := by
  obtain ⟨origins, horigins, hfollow⟩ := h
  exact ⟨origins, horigins,
    fun source => (hfollow source).trans (hstreams source)⟩

theorem MergeOf.weaken {other : Prop} (h : MergeOf exact streams received)
    (hother : other → exact) : MergeOf other streams received := by
  obtain ⟨origins, horigins, hfollow⟩ := h
  exact ⟨origins, horigins, fun source => (hfollow source).weaken hother⟩

/-- Where every source has one channel, the channels are the sources. -/
theorem MergeOf.single {streams : Source × ℕ → List Item}
    (h : MergeOf exact streams received)
    (hone : ∀ source channel, channel ≠ 0 → streams (source, channel) = []) :
    MergeOf exact (fun source => streams (source, 0)) received := by
  obtain ⟨origins, horigins, hfollow⟩ := h
  have hfirst : ∀ entry ∈ origins, entry.1.2 = 0 := by
    intro entry hentry
    by_contra hchannel
    have hitems := (hfollow entry.1).sublist
    rw [hone entry.1.1 entry.1.2 hchannel, List.sublist_nil] at hitems
    have hmem : entry.2 ∈ itemsOf origins entry.1 :=
      List.mem_map.mpr ⟨entry, List.mem_filter.mpr ⟨hentry, by simp⟩, rfl⟩
    rw [hitems] at hmem
    cases hmem
  refine ⟨origins.map fun entry => (entry.1.1, entry.2), ?_, ?_⟩
  · rw [← horigins, List.map_map]
    rfl
  · intro source
    have hsame : itemsOf (origins.map fun entry => (entry.1.1, entry.2))
        source = itemsOf origins (source, 0) := by
      unfold itemsOf
      rw [List.filter_map, List.map_map]
      congr 1
      apply List.filter_congr
      intro entry hentry
      simp [Prod.ext_iff, hfirst entry hentry]
    rw [hsame]
    exact hfollow (source, 0)

end Merges

end MessageBus.Merging
