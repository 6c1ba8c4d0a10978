import BananaWrt.Lib.Bytes
import BananaWrt.Lib.Run
import BananaWrt.Lib.Stream

/-!
# Reading messages in two steps

A message starts with a header that gives its length. The reader asks for a header and, if it got
all of it and the length fits the buffer, for the rest. On a stream each read returns what has
arrived, up to what was asked for. What is left of a message is not read later, so the messages get
through exactly if each is there in full when it is read (`handed_all_iff`).
-/

/-- The size of a header, the size of the buffer, and the length that a header gives. -/
structure TwoStep where
  header : ℕ
  room : ℕ
  total : Bytes → ℕ
  header_pos : 0 < header
  header_le : header ≤ room
  room_lt : room < 2 ^ 64
  total_append : ∀ c b, header ≤ c.length → total (c ++ b) = total c

namespace TwoStep

open Bytes

/-- How many bytes have arrived at the time of the first and of the second read. -/
structure Arrival where
  first : ℕ
  second : ℕ
  deriving DecidableEq, Repr

/-- The buffer, and what of the stream was not yet read. -/
structure State where
  buf : Bytes
  rest : Bytes
  deriving DecidableEq, Repr

variable (R : TwoStep)

/-- What the first read returns. -/
def head (s : State) (a : Arrival) : Bytes := s.rest.take (min R.header a.first)

/-- The length that the buffer gives after the first read. -/
def stated (s : State) (a : Arrival) : ℕ := R.total (overlay (R.head s a) s.buf)

/-- There is a second read. -/
def HeaderRead (s : State) (a : Arrival) : Prop :=
  (R.head s a).length = R.header ∧ R.stated s a ≤ R.room

instance (s : State) (a : Arrival) : Decidable (R.HeaderRead s a) :=
  inferInstanceAs (Decidable (_ ∧ _))

/-- What the second read asks for, an unsigned number of 64 bits. -/
def asked (s : State) (a : Arrival) : ℕ := (R.stated s a + 2 ^ 64 - R.header) % 2 ^ 64

def tail (s : State) (a : Arrival) : Bytes :=
  if R.HeaderRead s a then (s.rest.drop R.header).take (min (R.asked s a) a.second) else []

def received (s : State) (a : Arrival) : Bytes := R.head s a ++ R.tail s a

/-- The sum of what the reads return. A read that finds nothing returns -1. -/
def count (s : State) (a : Arrival) : ℤ :=
  if R.HeaderRead s a ∧ R.asked s a ≠ 0 ∧ a.second = 0 then R.header - 1
  else (R.received s a).length

def read (s : State) (a : Arrival) : State :=
  ⟨overlay (R.received s a) s.buf, s.rest.drop (R.received s a).length⟩

def step (s : State) (a : Arrival) : Option State := some (R.read s a)

/-- What the calls hand on: `accept` decides by the buffer and the count. -/
def handed (accept : Bytes → ℤ → Option Bytes) : State → List Arrival → List Bytes
  | _, [] => []
  | s, a :: as =>
    (accept (R.read s a).buf (R.count s a)).toList ++ handed accept (R.read s a) as

/-- The calls read the stream to its end, and each finds something. -/
def Drains : State → List Arrival → Prop
  | s, [] => s.rest = []
  | s, a :: as => s.rest ≠ [] ∧ 0 < a.first ∧ Drains (R.read s a) as

instance decidableDrains : ∀ (s : State) (as : List Arrival), Decidable (R.Drains s as)
  | s, [] => inferInstanceAs (Decidable (s.rest = []))
  | s, a :: as =>
    have := decidableDrains (R.read s a) as
    inferInstanceAs (Decidable (s.rest ≠ [] ∧ 0 < a.first ∧ R.Drains (R.read s a) as))

/-- A message has a header and the length that it gives. -/
def WellFormed (m : Bytes) : Prop := R.header ≤ m.length ∧ m.length = R.total m

instance : DecidablePred R.WellFormed := fun _ => inferInstanceAs (Decidable (_ ∧ _))

/-- The message fits the buffer, its header has arrived at the first read, and the rest of it at
the second. -/
def Whole (a : Arrival) (m : Bytes) : Prop :=
  m.length ≤ R.room ∧ R.header ≤ a.first ∧ m.length - R.header ≤ a.second

/-- What is handed on is what was counted, and a message that was read in full is handed on. -/
structure Accepts (accept : Bytes → ℤ → Option Bytes) : Prop where
  sound : ∀ b n x, accept b n = some x → x = b.take n.toNat
  whole : ∀ m b, R.WellFormed m → accept (m ++ b) m.length = some m

/-- The second read asks for no more than the buffer has left. -/
def AsksWithin (s : State) (a : Arrival) : Prop :=
  R.HeaderRead s a → R.asked s a ≤ R.room - R.header

/-- A header that is followed by a second read gives a length of at least its own. -/
def LongEnough (s : State) (a : Arrival) : Prop := R.HeaderRead s a → R.header ≤ R.stated s a

variable {R} {s : State} {a : Arrival}

theorem head_isPrefix : R.head s a <+: s.rest := List.take_prefix _ _

theorem length_head_le : (R.head s a).length ≤ R.header := by
  unfold head
  rw [List.length_take]
  omega

theorem stated_eq (h : (R.head s a).length = R.header) : R.stated s a = R.total (R.head s a) :=
  R.total_append _ _ (Nat.le_of_eq h.symm)

theorem tail_of_headerRead (h : R.HeaderRead s a) :
    R.tail s a = (s.rest.drop R.header).take (min (R.asked s a) a.second) :=
  if_pos h

theorem received_isPrefix : R.received s a <+: s.rest := by
  unfold received tail
  split_ifs with h
  · have hhead : R.head s a = s.rest.take R.header := by
      have := List.prefix_iff_eq_take.1 (head_isPrefix (R := R) (s := s) (a := a))
      rwa [h.1] at this
    rw [hhead]
    nth_rewrite 3 [← List.take_append_drop R.header s.rest]
    exact List.prefix_append_right_inj _ |>.2 (List.take_prefix _ _)
  · rw [List.append_nil]
    exact head_isPrefix

/-- What is received and what is left make up the stream. -/
theorem received_append_rest (s : State) (a : Arrival) :
    R.received s a ++ (R.read s a).rest = s.rest := by
  have h := List.prefix_iff_eq_append.1 (received_isPrefix (R := R) (s := s) (a := a))
  exact h

theorem take_buf : (R.read s a).buf.take (R.received s a).length = R.received s a :=
  List.take_left

theorem asked_of_le (h : R.HeaderRead s a) (hle : R.header ≤ R.stated s a) :
    R.asked s a = R.stated s a - R.header := by
  have := h.2
  have := R.room_lt
  unfold asked
  omega

theorem asksWithin_iff (s : State) (a : Arrival) : R.AsksWithin s a ↔ R.LongEnough s a := by
  refine forall_congr' fun h => ?_
  constructor
  · intro hasked
    by_contra hlt
    have h1 := R.header_le
    have h2 := R.room_lt
    unfold asked at hasked
    omega
  · intro hle
    rw [asked_of_le h hle]
    have := h.2
    omega

/-- The second read leaves the length that the buffer gives as it is. -/
theorem total_buf (s : State) (a : Arrival) : R.total (R.read s a).buf = R.stated s a := by
  by_cases h : R.HeaderRead s a
  · have hle : R.header ≤ (R.head s a).length := Nat.le_of_eq h.1.symm
    change R.total (R.head s a ++ R.tail s a ++ _) = _
    rw [stated_eq h.1, List.append_assoc, R.total_append _ _ hle]
  · have hreceived : R.received s a = R.head s a := by
      rw [received, tail, if_neg h, List.append_nil]
    change R.total (overlay (R.received s a) s.buf) = _
    rw [hreceived]
    rfl

theorem length_received_of_headerRead (h : R.HeaderRead s a) : (R.received s a).length
    = R.header + min (min (R.asked s a) a.second) (s.rest.length - R.header) := by
  rw [received, List.length_append, h.1, tail_of_headerRead h, List.length_take, List.length_drop]

theorem received_of_whole {m rest : Bytes} (hm : R.WellFormed m) (hrest : s.rest = m ++ rest)
    (h : R.Whole a m) : R.received s a = m ∧ R.count s a = m.length := by
  obtain ⟨hroom, hfirst, hsecond⟩ := h
  obtain ⟨hheader, hlength⟩ := hm
  have hhead : R.head s a = m.take R.header := by
    unfold head
    rw [hrest, Nat.min_eq_left hfirst, List.take_append_of_le_length hheader]
  have hheadLength : (R.head s a).length = R.header := by
    rw [hhead, List.length_take]
    omega
  have hstated : R.stated s a = m.length := by
    rw [stated_eq hheadLength, hlength, hhead]
    have := R.total_append (m.take R.header) (m.drop R.header)
      (by rw [List.length_take]; omega)
    rw [← this, List.take_append_drop]
  have hread : R.HeaderRead s a := ⟨hheadLength, by rwa [hstated]⟩
  have hasked : R.asked s a = m.length - R.header := by
    rw [asked_of_le hread (by rwa [hstated]), hstated]
  have htail : R.tail s a = m.drop R.header := by
    rw [tail_of_headerRead hread, hrest, hasked, Nat.min_eq_left hsecond,
      List.drop_append_of_le_length hheader, List.take_append_of_le_length (by simp)]
    exact List.take_of_length_le (by simp)
  have hreceived : R.received s a = m := by
    unfold received
    rw [hhead, htail, List.take_append_drop]
  refine ⟨hreceived, ?_⟩
  unfold count
  rw [hreceived, if_neg]
  rintro ⟨-, hne, hzero⟩
  omega

theorem whole_of_received {m : Bytes} (hm : R.WellFormed m) (h : R.received s a = m) :
    R.Whole a m := by
  obtain ⟨hheader, hlength⟩ := hm
  have hread : R.HeaderRead s a := by
    by_contra hnot
    have hshort : R.head s a = m := by
      rw [← h, received, tail, if_neg hnot, List.append_nil]
    have hle := length_head_le (R := R) (s := s) (a := a)
    rw [hshort] at hle
    have hfull : (R.head s a).length = R.header := by rw [hshort]; omega
    refine hnot ⟨hfull, ?_⟩
    rw [stated_eq hfull, hshort, ← hlength]
    exact Nat.le_trans hle R.header_le
  have hstated : R.stated s a = m.length := by
    rw [stated_eq hread.1, hlength, ← h]
    exact (R.total_append _ _ (Nat.le_of_eq hread.1.symm)).symm
  have hasked : R.asked s a = m.length - R.header := by
    rw [asked_of_le hread (by rwa [hstated]), hstated]
  have hfirst : R.header ≤ a.first := by
    have hle := hread.1
    unfold head at hle
    rw [List.length_take] at hle
    omega
  have hroom : m.length ≤ R.room := by
    rw [← hstated]
    exact hread.2
  refine ⟨hroom, hfirst, ?_⟩
  have hsum : (R.tail s a).length = m.length - R.header := by
    rw [← h, received, List.length_append, hread.1]
    omega
  rw [tail_of_headerRead hread, hasked, List.length_take] at hsum
  omega

/-- What the calls receive. -/
def receiveds (R : TwoStep) : State → List Arrival → List Bytes
  | _, [] => []
  | s, a :: as => R.received s a :: receiveds R (R.read s a) as

theorem flatten_receiveds {as : List Arrival} (h : R.Drains s as) :
    (R.receiveds s as).flatten = s.rest := by
  induction as generalizing s with
  | nil => exact h.symm
  | cons a as ih =>
    unfold receiveds
    rw [List.flatten_cons, ih h.2.2, received_append_rest]

theorem received_ne_nil (hrest : s.rest ≠ []) (hfirst : 0 < a.first) : R.received s a ≠ [] := by
  have hpos := R.header_pos
  have hlength := List.length_pos_iff.2 hrest
  intro hnil
  have hhead : R.head s a = [] := (List.append_eq_nil_iff.1 hnil).1
  have := congrArg List.length hhead
  unfold head at this
  rw [List.length_take, List.length_nil] at this
  omega

theorem receiveds_ne_nil {as : List Arrival} (h : R.Drains s as) :
    ∀ c ∈ R.receiveds s as, c ≠ [] := by
  induction as generalizing s with
  | nil => exact fun c hc => absurd hc List.not_mem_nil
  | cons a as ih =>
    intro c hc
    rcases List.mem_cons.1 hc with rfl | hc
    · exact received_ne_nil h.1 h.2.1
    · exact ih h.2.2 c hc

/-- What is handed on of at least the size of a header is what the call received. -/
theorem eq_received_of_accept {accept : Bytes → ℤ → Option Bytes} (hacc : R.Accepts accept)
    {x : Bytes} (hx : accept (R.read s a).buf (R.count s a) = some x)
    (hheader : R.header ≤ x.length) : x = R.received s a := by
  have htake := hacc.sound _ _ _ hx
  unfold count at htake
  split_ifs at htake with h
  · have hle : x.length ≤ ((R.header : ℤ) - 1).toNat := by
      rw [htake]
      exact List.length_take_le _ _
    have hpos := R.header_pos
    omega
  · rw [htake, Int.toNat_natCast]
    exact take_buf

theorem handed_sublist {accept : Bytes → ℤ → Option Bytes} (hacc : R.Accepts accept)
    (as : List Arrival) (h : ∀ x ∈ R.handed accept s as, R.header ≤ x.length) :
    (R.handed accept s as).Sublist (R.receiveds s as) := by
  induction as generalizing s with
  | nil => exact .slnil
  | cons a as ih =>
    unfold handed at h ⊢
    unfold receiveds
    have hrest := ih fun x hx => h x (List.mem_append_right _ hx)
    rcases hx : accept (R.read s a).buf (R.count s a) with _ | x
    · exact hrest.cons _
    · rw [hx] at h
      have hxr := eq_received_of_accept hacc hx (h x (List.mem_append_left _ (by simp)))
      rw [Option.toList_some, List.singleton_append, hxr]
      exact hrest.cons_cons _

theorem forall₂_of_receiveds {ms : List Bytes} {as : List Arrival} (hms : ∀ m ∈ ms, R.WellFormed m)
    (h : R.receiveds s as = ms) : List.Forall₂ R.Whole as ms := by
  induction as generalizing s ms with
  | nil =>
    subst h
    exact .nil
  | cons a as ih =>
    subst h
    refine .cons (whole_of_received (hms _ List.mem_cons_self) rfl) ?_
    exact ih (fun m hm => hms m (List.mem_cons_of_mem _ hm)) rfl

theorem handed_of_whole {accept : Bytes → ℤ → Option Bytes} (hacc : R.Accepts accept)
    {ms : List Bytes} {as : List Arrival} (hms : ∀ m ∈ ms, R.WellFormed m)
    (hrest : s.rest = ms.flatten) (h : List.Forall₂ R.Whole as ms) :
    R.handed accept s as = ms := by
  induction h generalizing s with
  | nil => rfl
  | @cons a m as ms hw _ ih =>
    have hm := hms m List.mem_cons_self
    rw [List.flatten_cons] at hrest
    obtain ⟨hreceived, hcount⟩ := received_of_whole hm hrest hw
    have hnext : (R.read s a).rest = ms.flatten := by
      have happend := received_append_rest (R := R) s a
      rw [hreceived, hrest] at happend
      exact List.append_cancel_left happend
    have haccept : accept (R.read s a).buf (R.count s a) = some m := by
      rw [hcount]
      change accept (R.received s a ++ _) _ = _
      rw [hreceived]
      exact hacc.whole m _ hm
    unfold handed
    rw [haccept, ih (fun m' hm' => hms m' (List.mem_cons_of_mem _ hm')) hnext]
    rfl

/-- However the messages arrive, and whatever the buffer held before, the messages handed on are
the ones written exactly if each of them is there in full when it is read. -/
theorem handed_all_iff {accept : Bytes → ℤ → Option Bytes} (hacc : R.Accepts accept)
    {ms : List Bytes} {as : List Arrival} {buf : Bytes} (hms : ∀ m ∈ ms, R.WellFormed m)
    (hdrains : R.Drains ⟨buf, ms.flatten⟩ as) :
    R.handed accept ⟨buf, ms.flatten⟩ as = ms ↔ List.Forall₂ R.Whole as ms := by
  constructor
  · intro h
    refine forall₂_of_receiveds hms (s := ⟨buf, ms.flatten⟩) ?_
    have hsub := handed_sublist hacc (s := ⟨buf, ms.flatten⟩) as fun x hx => (hms x (h ▸ hx)).1
    rw [h] at hsub
    refine (hsub.eq_of_length_flatten_eq ?_ (receiveds_ne_nil hdrains)).symm
    rw [flatten_receiveds hdrains]
  · exact handed_of_whole hacc hms rfl

end TwoStep
