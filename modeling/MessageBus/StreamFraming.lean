import Mathlib.Tactic

/-!
# Cutting a stream into packets by a length function

A length function looks at the bytes from the start of a packet on and says
how long the packet is.  An answer between one and the number of bytes there
takes that many of them, a negative answer refuses the stream, and any other
answer waits for more.

`split` cuts everything that is there.  A length function is stable when an
answer that takes or refuses does not change once more bytes have come; then
the packets cut from a stream, and the place where it is refused, do not
depend on the pieces in which the stream arrives.
-/

namespace MessageBus.Framing

variable {α : Type}

/-- The length function takes a packet off the front of the buffer. -/
def Takes (len : List α → ℤ) (buffer : List α) : Prop :=
  0 < len buffer ∧ len buffer ≤ buffer.length

/-- The length function refuses the buffer. -/
def Refuses (len : List α → ℤ) (buffer : List α) : Prop :=
  len buffer < 0

/-- The length function waits for more bytes. -/
def Waits (len : List α → ℤ) (buffer : List α) : Prop :=
  len buffer = 0 ∨ (buffer.length : ℤ) < len buffer

instance (len : List α → ℤ) (buffer : List α) :
    Decidable (Takes len buffer) := inferInstanceAs (Decidable (_ ∧ _))

instance (len : List α → ℤ) (buffer : List α) :
    Decidable (Refuses len buffer) := inferInstanceAs (Decidable (_ < _))

instance (len : List α → ℤ) (buffer : List α) :
    Decidable (Waits len buffer) := inferInstanceAs (Decidable (_ ∨ _))

section Answers

variable {len : List α → ℤ} {buffer : List α}

theorem takes_or_refuses_or_waits (len : List α → ℤ) (buffer : List α) :
    Takes len buffer ∨ Refuses len buffer ∨ Waits len buffer := by
  unfold Takes Refuses Waits
  omega

theorem Waits.not_takes (hwaits : Waits len buffer) : ¬ Takes len buffer := by
  unfold Takes
  unfold Waits at hwaits
  omega

theorem Waits.not_refuses (hwaits : Waits len buffer) :
    ¬ Refuses len buffer := by
  unfold Refuses
  unfold Waits at hwaits
  omega

theorem Takes.not_refuses (htakes : Takes len buffer) :
    ¬ Refuses len buffer := by
  unfold Refuses
  unfold Takes at htakes
  omega

theorem Takes.toNat_pos (htakes : Takes len buffer) :
    0 < (len buffer).toNat := by
  unfold Takes at htakes
  omega

theorem Takes.toNat_le (htakes : Takes len buffer) :
    (len buffer).toNat ≤ buffer.length := by
  unfold Takes at htakes
  omega

theorem Takes.ne_nil (htakes : Takes len buffer) : buffer ≠ [] := by
  rintro rfl
  exact absurd htakes.toNat_le (Nat.not_le.mpr htakes.toNat_pos)

end Answers

/-- The packets cut from a stream and what is left of it: the bytes of an
incomplete packet, or nothing once the stream has been refused. -/
structure Cut (α : Type) where
  packets : List (List α)
  rest : Option (List α)
deriving DecidableEq

/-- Cut the packets off a buffer until it is empty, incomplete or refused. -/
def split (len : List α → ℤ) (buffer : List α) : Cut α :=
  match buffer with
  | [] => ⟨[], some []⟩
  | byte :: bytes =>
      if _htakes : Takes len (byte :: bytes) then
        let later := split len
          ((byte :: bytes).drop (len (byte :: bytes)).toNat)
        ⟨(byte :: bytes).take (len (byte :: bytes)).toNat :: later.packets,
          later.rest⟩
      else if Refuses len (byte :: bytes) then ⟨[], none⟩
      else ⟨[], some (byte :: bytes)⟩
termination_by buffer.length
decreasing_by
  have hpos := _htakes.toNat_pos
  simp only [List.length_drop, List.length_cons]
  omega

section Split

variable {len : List α → ℤ} {buffer packet rest : List α}
  {packets : List (List α)}

@[simp] theorem split_nil (len : List α → ℤ) :
    split len [] = ⟨[], some []⟩ := by
  rw [split]

theorem split_of_takes (htakes : Takes len buffer) :
    split len buffer =
      ⟨buffer.take (len buffer).toNat ::
          (split len (buffer.drop (len buffer).toNat)).packets,
        (split len (buffer.drop (len buffer).toNat)).rest⟩ := by
  cases buffer with
  | nil =>
      have hpos := htakes.toNat_pos
      have hle := htakes.toNat_le
      simp only [List.length_nil] at hle
      omega
  | cons byte bytes =>
      rw [split]
      simp only [dif_pos htakes]

theorem split_of_refuses (hbuffer : buffer ≠ [])
    (hrefuses : Refuses len buffer) : split len buffer = ⟨[], none⟩ := by
  cases buffer with
  | nil => exact absurd rfl hbuffer
  | cons byte bytes =>
      rw [split]
      have htakes : ¬ Takes len (byte :: bytes) :=
        fun htakes => htakes.not_refuses hrefuses
      simp only [dif_neg htakes, if_pos hrefuses]

theorem split_of_waits (hwaits : Waits len buffer) :
    split len buffer = ⟨[], some buffer⟩ := by
  cases buffer with
  | nil => exact split_nil len
  | cons byte bytes =>
      rw [split]
      simp only [dif_neg hwaits.not_takes, if_neg hwaits.not_refuses]

/-- The induction that `split` follows. -/
theorem split_induction
    {motive : List α → Prop} (len : List α → ℤ)
    (hnil : motive [])
    (htakes : ∀ buffer, Takes len buffer →
      motive (buffer.drop (len buffer).toNat) → motive buffer)
    (hrefuses : ∀ buffer, buffer ≠ [] → Refuses len buffer → motive buffer)
    (hwaits : ∀ buffer, buffer ≠ [] → Waits len buffer → motive buffer)
    (buffer : List α) : motive buffer := by
  induction hsize : buffer.length using Nat.strong_induction_on
    generalizing buffer with
  | _ size ih =>
      by_cases hempty : buffer = []
      · exact hempty ▸ hnil
      · obtain hcase | hcase | hcase := takes_or_refuses_or_waits len buffer
        · apply htakes buffer hcase
          apply ih _ ?_ _ rfl
          have hpos := hcase.toNat_pos
          have hle := hcase.toNat_le
          simp only [List.length_drop]
          omega
        · exact hrefuses buffer hempty hcase
        · exact hwaits buffer hempty hcase

/-- Nothing is lost or reordered: the packets followed by what is left are the
buffer. -/
theorem split_flatten (len : List α → ℤ) (buffer : List α)
    (hrest : (split len buffer).rest = some rest) :
    (split len buffer).packets.flatten ++ rest = buffer := by
  induction buffer using split_induction len with
  | hnil =>
      simp only [split_nil, Option.some.injEq] at hrest
      subst hrest
      simp
  | htakes buffer htakes ih =>
      rw [split_of_takes htakes] at hrest ⊢
      simp only [List.flatten_cons, List.append_assoc, ih hrest,
        List.take_append_drop]
  | hrefuses buffer hbuffer hrefuses =>
      simp [split_of_refuses hbuffer hrefuses] at hrest
  | hwaits buffer hbuffer hwaits =>
      rw [split_of_waits hwaits] at hrest ⊢
      simp only [Option.some.injEq] at hrest
      simp [hrest]

/-- What is left is empty or waits for more bytes. -/
theorem split_rest (len : List α → ℤ) (buffer : List α)
    (hrest : (split len buffer).rest = some rest) :
    rest = [] ∨ Waits len rest := by
  induction buffer using split_induction len with
  | hnil =>
      simp only [split_nil, Option.some.injEq] at hrest
      exact Or.inl hrest.symm
  | htakes buffer htakes ih =>
      rw [split_of_takes htakes] at hrest
      exact ih hrest
  | hrefuses buffer hbuffer hrefuses =>
      simp [split_of_refuses hbuffer hrefuses] at hrest
  | hwaits buffer hbuffer hwaits =>
      rw [split_of_waits hwaits, Option.some.injEq] at hrest
      exact Or.inr (hrest ▸ hwaits)

/-- A refused stream is refused where its last packet ends. -/
theorem split_refused (len : List α → ℤ) (buffer : List α)
    (hrest : (split len buffer).rest = none) :
    ∃ bad, bad ≠ [] ∧ Refuses len bad ∧
      (split len buffer).packets.flatten ++ bad = buffer := by
  induction buffer using split_induction len with
  | hnil => simp at hrest
  | htakes buffer htakes ih =>
      rw [split_of_takes htakes] at hrest ⊢
      obtain ⟨bad, hne, hbad, hflatten⟩ := ih hrest
      refine ⟨bad, hne, hbad, ?_⟩
      simp only [List.flatten_cons, List.append_assoc, hflatten,
        List.take_append_drop]
  | hrefuses buffer hbuffer hrefuses =>
      refine ⟨buffer, hbuffer, hrefuses, ?_⟩
      simp [split_of_refuses hbuffer hrefuses]
  | hwaits buffer hbuffer hwaits =>
      simp [split_of_waits hwaits] at hrest

theorem split_packet_append
    (hlen : len (packet ++ rest) = packet.length) (hpacket : packet ≠ []) :
    split len (packet ++ rest) =
      ⟨packet :: (split len rest).packets, (split len rest).rest⟩ := by
  have hpos : 0 < packet.length := List.length_pos_iff.mpr hpacket
  have htakes : Takes len (packet ++ rest) := by
    unfold Takes
    rw [hlen, List.length_append]
    omega
  rw [split_of_takes htakes, hlen]
  simp

end Split

/-! ## The buffers the length function is asked about -/

/-- The buffers that the length function sees while a buffer is cut. -/
def visits (len : List α → ℤ) (buffer : List α) : List (List α) :=
  match buffer with
  | [] => []
  | byte :: bytes =>
      if _htakes : Takes len (byte :: bytes) then
        (byte :: bytes) ::
          visits len ((byte :: bytes).drop (len (byte :: bytes)).toNat)
      else [byte :: bytes]
termination_by buffer.length
decreasing_by
  have hpos := _htakes.toNat_pos
  simp only [List.length_drop, List.length_cons]
  omega

section Visits

variable {len : List α → ℤ} {buffer : List α} {σ : Type}

@[simp] theorem visits_nil (len : List α → ℤ) : visits len [] = [] := by
  rw [visits]

theorem visits_of_takes (htakes : Takes len buffer) :
    visits len buffer =
      buffer :: visits len (buffer.drop (len buffer).toNat) := by
  cases buffer with
  | nil => exact absurd htakes.toNat_le (Nat.not_le.mpr htakes.toNat_pos)
  | cons byte bytes =>
      rw [visits]
      simp only [dif_pos htakes]

theorem visits_of_not_takes
    (hbuffer : buffer ≠ []) (htakes : ¬ Takes len buffer) :
    visits len buffer = [buffer] := by
  cases buffer with
  | nil => exact absurd rfl hbuffer
  | cons byte bytes =>
      rw [visits]
      simp only [dif_neg htakes]

/-- Work that looks at the packet in front only, and at no packet that is not
complete, is done once for each packet that is cut. -/
theorem visits_foldl
    {work handle : σ → List α → σ} (buffer : List α)
    (htake : ∀ state, ∀ visited ∈ visits len buffer, Takes len visited →
      work state visited = handle state (visited.take (len visited).toNat))
    (hskip : ∀ state, ∀ visited ∈ visits len buffer, ¬ Takes len visited →
      work state visited = state)
    (state : σ) :
    (visits len buffer).foldl work state =
      (split len buffer).packets.foldl handle state := by
  induction buffer using split_induction len generalizing state with
  | hnil => simp
  | htakes buffer htakes ih =>
      rw [visits_of_takes htakes] at htake hskip ⊢
      rw [split_of_takes htakes]
      simp only [List.foldl_cons,
        htake state buffer List.mem_cons_self htakes]
      exact ih
        (fun state visited hvisited =>
          htake state visited (List.mem_cons_of_mem _ hvisited))
        (fun state visited hvisited =>
          hskip state visited (List.mem_cons_of_mem _ hvisited)) _
  | hrefuses buffer hbuffer hrefuses =>
      have hnot : ¬ Takes len buffer :=
        fun htakes => htakes.not_refuses hrefuses
      rw [visits_of_not_takes hbuffer hnot] at hskip ⊢
      rw [split_of_refuses hbuffer hrefuses]
      exact hskip state buffer (List.mem_singleton.mpr rfl) hnot
  | hwaits buffer hbuffer hwaits =>
      rw [visits_of_not_takes hbuffer hwaits.not_takes] at hskip ⊢
      rw [split_of_waits hwaits]
      exact hskip state buffer (List.mem_singleton.mpr rfl) hwaits.not_takes

theorem visits_length
    {visited : List α} (hvisited : visited ∈ visits len buffer) :
    visited.length ≤ buffer.length := by
  induction buffer using split_induction len with
  | hnil => simp at hvisited
  | htakes buffer htakes ih =>
      rw [visits_of_takes htakes, List.mem_cons] at hvisited
      obtain rfl | hlater := hvisited
      · exact le_rfl
      · have hshorter := ih hlater
        simp only [List.length_drop] at hshorter
        omega
  | hrefuses buffer hbuffer hrefuses =>
      rw [visits_of_not_takes hbuffer
        (fun htakes => htakes.not_refuses hrefuses),
        List.mem_singleton] at hvisited
      exact hvisited ▸ le_rfl
  | hwaits buffer hbuffer hwaits =>
      rw [visits_of_not_takes hbuffer hwaits.not_takes,
        List.mem_singleton] at hvisited
      exact hvisited ▸ le_rfl

/-- A buffer that waits is the last one seen, and is what is left. -/
theorem split_rest_of_visited
    {visited : List α} (hvisited : visited ∈ visits len buffer)
    (hwaits : Waits len visited) :
    (split len buffer).rest = some visited := by
  induction buffer using split_induction len with
  | hnil => simp at hvisited
  | htakes buffer htakes ih =>
      rw [visits_of_takes htakes, List.mem_cons] at hvisited
      rw [split_of_takes htakes]
      obtain rfl | hlater := hvisited
      · exact absurd htakes hwaits.not_takes
      · exact ih hlater
  | hrefuses buffer hbuffer hrefuses =>
      rw [visits_of_not_takes hbuffer
        (fun htakes => htakes.not_refuses hrefuses),
        List.mem_singleton] at hvisited
      subst hvisited
      exact absurd hrefuses hwaits.not_refuses
  | hwaits buffer hbuffer hwaits' =>
      rw [visits_of_not_takes hbuffer hwaits'.not_takes,
        List.mem_singleton] at hvisited
      rw [split_of_waits hwaits', hvisited]

end Visits

/-! ## Streams that arrive in pieces -/

/-- Answers that take or refuse do not change when more bytes have come. -/
def Stable (len : List α → ℤ) : Prop :=
  ∀ buffer more, buffer ≠ [] → Takes len buffer ∨ Refuses len buffer →
    len (buffer ++ more) = len buffer

/-- Cut the next piece of a stream, behind what is left of the earlier
pieces. -/
def feed (len : List α → ℤ) (cut : Cut α) (piece : List α) : Cut α :=
  match cut.rest with
  | none => cut
  | some rest =>
      let later := split len (rest ++ piece)
      ⟨cut.packets ++ later.packets, later.rest⟩

section Feed

variable {len : List α → ℤ}

theorem Takes.append {buffer : List α} (htakes : Takes len buffer)
    (hstable : Stable len) (more : List α) : Takes len (buffer ++ more) := by
  have hlen := hstable buffer more htakes.ne_nil (Or.inl htakes)
  unfold Takes at htakes ⊢
  rw [hlen, List.length_append]
  omega

theorem Refuses.append {buffer : List α} (hrefuses : Refuses len buffer)
    (hstable : Stable len) (hbuffer : buffer ≠ []) (more : List α) :
    Refuses len (buffer ++ more) := by
  unfold Refuses
  rw [hstable buffer more hbuffer (Or.inr hrefuses)]
  exact hrefuses

@[simp] theorem feed_packets
    (packets : List (List α)) (rest : Option (List α)) (piece : List α) :
    (feed len ⟨packets, rest⟩ piece).packets =
      packets ++ (feed len ⟨[], rest⟩ piece).packets := by
  cases rest with
  | none => simp [feed]
  | some rest => simp [feed]

@[simp] theorem feed_rest
    (packets : List (List α)) (rest : Option (List α)) (piece : List α) :
    (feed len ⟨packets, rest⟩ piece).rest =
      (feed len ⟨[], rest⟩ piece).rest := by
  cases rest with
  | none => simp [feed]
  | some rest => simp [feed]

/-- The packets cut from earlier pieces stay in front. -/
theorem foldl_feed_eq
    (packets : List (List α)) (rest : Option (List α))
    (pieces : List (List α)) :
    pieces.foldl (feed len) ⟨packets, rest⟩ =
      ⟨packets ++ (pieces.foldl (feed len) ⟨[], rest⟩).packets,
        (pieces.foldl (feed len) ⟨[], rest⟩).rest⟩ := by
  induction pieces generalizing packets rest with
  | nil => simp
  | cons piece pieces ih =>
      have hfeed (before : List (List α)) :
          feed len ⟨before, rest⟩ piece =
            ⟨before ++ (feed len ⟨[], rest⟩ piece).packets,
              (feed len ⟨[], rest⟩ piece).rest⟩ := by
        rw [← feed_packets, ← feed_rest before]
      have hlater : pieces.foldl (feed len) (feed len ⟨[], rest⟩ piece) = _ :=
        ih (feed len ⟨[], rest⟩ piece).packets
          (feed len ⟨[], rest⟩ piece).rest
      simp only [List.foldl_cons]
      rw [hfeed packets, ih (packets ++ _), hlater, List.append_assoc]

theorem feed_of_open
    {cut : Cut α} {rest : List α} (piece : List α)
    (hrest : cut.rest = some rest) :
    feed len cut piece =
      ⟨cut.packets ++ (split len (rest ++ piece)).packets,
        (split len (rest ++ piece)).rest⟩ := by
  simp [feed, hrest]

theorem feed_of_refused
    {cut : Cut α} (piece : List α) (hrest : cut.rest = none) :
    feed len cut piece = cut := by
  simp [feed, hrest]

/-- Cutting a buffer and then the bytes behind it is cutting both at once. -/
theorem feed_split
    (hstable : Stable len) (buffer piece : List α) :
    feed len (split len buffer) piece = split len (buffer ++ piece) := by
  induction buffer using split_induction len with
  | hnil => simp [feed]
  | htakes buffer htakes ih =>
      have hlen := hstable buffer piece htakes.ne_nil (Or.inl htakes)
      have hle := htakes.toNat_le
      have htakes' := htakes.append hstable piece
      rw [split_of_takes htakes, split_of_takes htakes', hlen,
        List.take_append_of_le_length hle, List.drop_append_of_le_length hle,
        ← ih]
      unfold feed
      cases hrest : (split len (buffer.drop (len buffer).toNat)).rest with
      | none => simp [hrest]
      | some rest => simp
  | hrefuses buffer hbuffer hrefuses =>
      have hrefuses' := hrefuses.append hstable hbuffer piece
      have hne : buffer ++ piece ≠ [] := by simp [hbuffer]
      rw [split_of_refuses hbuffer hrefuses, split_of_refuses hne hrefuses']
      rfl
  | hwaits buffer hbuffer hwaits =>
      rw [split_of_waits hwaits]
      rfl

/-- The pieces of a stream are cut into the packets of the stream. -/
theorem foldl_feed_split
    (hstable : Stable len) (buffer : List α) (pieces : List (List α)) :
    pieces.foldl (feed len) (split len buffer) =
      split len (buffer ++ pieces.flatten) := by
  induction pieces generalizing buffer with
  | nil => simp
  | cons piece pieces ih =>
      rw [List.foldl_cons, feed_split hstable, ih, List.flatten_cons,
        List.append_assoc]

/-- What is said of every buffer the length function sees, and does not change
for a packet that is complete or refused when more bytes come, can be checked
piece by piece. -/
theorem forall_visits_append
    (hstable : Stable len) {good : List α → Prop}
    (hfront : ∀ buffer more, good (buffer ++ more) → good buffer)
    (hdecided : ∀ buffer more, buffer ≠ [] →
      Takes len buffer ∨ Refuses len buffer →
      good buffer → good (buffer ++ more))
    (buffer piece : List α) :
    (∀ visited ∈ visits len (buffer ++ piece), good visited) ↔
      (∀ visited ∈ visits len buffer, good visited) ∧
        ∀ rest ∈ (split len buffer).rest,
          ∀ visited ∈ visits len (rest ++ piece), good visited := by
  induction buffer using split_induction len with
  | hnil => simp
  | htakes buffer htakes ih =>
      have hlen := hstable buffer piece htakes.ne_nil (Or.inl htakes)
      have hle := htakes.toNat_le
      have htakes' := htakes.append hstable piece
      rw [visits_of_takes htakes, visits_of_takes htakes',
        split_of_takes htakes, hlen, List.drop_append_of_le_length hle]
      simp only [List.forall_mem_cons]
      rw [ih, and_assoc]
      have hgood : good (buffer ++ piece) ↔ good buffer :=
        ⟨hfront buffer piece,
          hdecided buffer piece htakes.ne_nil (Or.inl htakes)⟩
      rw [hgood]
  | hrefuses buffer hbuffer hrefuses =>
      have hrefuses' := hrefuses.append hstable hbuffer piece
      have hne : buffer ++ piece ≠ [] := by simp [hbuffer]
      rw [visits_of_not_takes hbuffer
          (fun htakes => htakes.not_refuses hrefuses),
        visits_of_not_takes hne
          (fun htakes => htakes.not_refuses hrefuses'),
        split_of_refuses hbuffer hrefuses]
      simp only [List.mem_singleton, forall_eq, Option.not_mem_none,
        false_implies, implies_true, and_true]
      exact ⟨hfront buffer piece,
        hdecided buffer piece hbuffer (Or.inr hrefuses)⟩
  | hwaits buffer hbuffer hwaits =>
      rw [visits_of_not_takes hbuffer hwaits.not_takes,
        split_of_waits hwaits]
      simp only [List.mem_singleton, forall_eq, Option.mem_some_iff,
        forall_eq']
      refine ⟨fun hall => ⟨?_, hall⟩, fun hall => hall.2⟩
      -- the waiting buffer is seen again, with the piece behind it
      have hne : buffer ++ piece ≠ [] := by simp [hbuffer]
      apply hfront buffer piece
      apply hall
      by_cases htakes : Takes len (buffer ++ piece)
      · rw [visits_of_takes htakes]
        exact List.mem_cons_self
      · rw [visits_of_not_takes hne htakes]
        exact List.mem_singleton.mpr rfl

end Feed

end MessageBus.Framing
