import BananaWrt.Proofs.MhiUci
import Mathlib.Data.List.Perm.Subperm

/-!
# Completions of a bad length on a character device

`mhi_dl_xfer_cb` returns early where the length is 0 or above the MTU. It has moved on to the next
buffer by then, and has queued none for the one that is gone. What comes after is still received
well until the ring has turned (`After`): the predecessor of the bad buffer is expected then, which
is not in the ring and never will be. From there on the callback only counts errors.
-/

namespace BananaWrt

namespace Uci

variable {c : Cfg} {s s' : UciDev}

def Cfg.Good (c : Cfg) (bytesXferd : ℕ) : Prop := 1 ≤ bytesXferd ∧ bytesXferd ≤ c.mtu

instance (bytesXferd : ℕ) : Decidable (c.Good bytesXferd) := inferInstanceAs (Decidable (_ ∧ _))

/-- The lengths that the completions report. -/
def lengths : List Input → List ℕ
  | [] => []
  | .complete _ bytesXferd :: is => bytesXferd :: lengths is
  | _ :: is => lengths is

/-- How many completions there are after the first one of a bad length. -/
def afterBad (c : Cfg) : List Input → ℕ
  | [] => 0
  | .complete _ bytesXferd :: is =>
    if c.Good bytesXferd then afterBad c is else (lengths is).length
  | _ :: is => afterBad c is

/-- What a completion of a good length brings. -/
def UciDev.brings (c : Cfg) (s : UciDev) : Input → Bytes
  | .complete _ bytesXferd =>
    match s.ring with
    | b :: _ => if c.Good bytesXferd then (s.mem b).take bytesXferd else []
    | [] => []
  | _ => []

/-- What all of them bring. -/
def UciDev.sent (c : Cfg) : UciDev → List Input → Bytes
  | _, [] => []
  | s, i :: is => s.brings c i ++ ((step c s i).map fun s' => s'.sent c is).getD []

/-- Completions are reported with status 0. -/
def StatusOk : Input → Prop
  | .complete transactionStatus _ => transactionStatus = 0
  | _ => True

/-- What the completions of good lengths have brought is what the calls have returned, what one of
them has copied and what the buffers hold, in this order, and there has been no error. -/
structure UciDev.Delivers (s : UciDev) (stream : Bytes) : Prop where
  delivered : stream = s.returned ++ s.inFlight ++ s.unread
  rxError : s.rxError = 0

/-- And each buffer that has been completed, and that the reader does not hold, is replaced. -/
structure UciDev.Tolerates (c : Cfg) (s : UciDev) (stream : Bytes) : Prop
    extends s.Delivers stream where
  replaced : s.ring.length + s.held.length = c.nrFree

def UciDev.inUse (s : UciDev) : ℕ := s.ring.length + s.held.length

theorem SameRow.inUse (h : SameRow s s') : s'.inUse = s.inUse := by
  unfold UciDev.inUse
  rw [h.held, h.ring]

theorem length_queueTransfer (ring : List ℕ) (nrTrb : ℕ) :
    ((queueTransfer c ring nrTrb).getD ring).length ≤ ring.length + 1 := by
  unfold queueTransfer
  split_ifs
  · exact Nat.le_of_eq List.length_append
  · exact Nat.le_succ _

theorem inUse_recycle {b : UciBuf} (hc : s.curBuf = some b) (data : Bytes) :
    (recycle c s b data).inUse ≤ s.inUse := by
  unfold UciDev.inUse
  by_cases h0 : s.rxSize = 0
  · cases b with
    | copy d =>
      rw [recycle_copy h0, held_copy hc]
      exact Nat.le_refl _
    | page nrTrb =>
      rw [held_page hc, List.length_cons]
      unfold recycle
      rw [if_neg (not_not_intro h0)]
      unfold queueTransfer
      dsimp only
      split_ifs
      · refine Nat.le_of_eq ?_
        change (s.ring ++ [c.prevTrb nrTrb]).length + (s.pending.filterMap UciBuf.nrTrb?).length = _
        rw [List.length_append, List.length_singleton]
        omega
      · change s.ring.length + (s.pending.filterMap UciBuf.nrTrb?).length ≤ _
        omega
  · rw [recycle_of_left h0]
    exact Nat.le_refl _

/-- A completion takes a buffer out of the ring; only one that is received well puts one in, or
hands it to the reader. -/
theorem inUse_complete {b : ℕ} {rest : List ℕ} (hring : s.ring = b :: rest) {status : ℤ}
    (hstatus : status ≠ - ENOTCONN) (len : ℕ) :
    (mhiDlXferCb c (s.completes b rest len) b status len).inUse ≤ s.inUse
      ∧ (¬ c.Good len → (mhiDlXferCb c (s.completes b rest len) b status len).inUse < s.inUse) := by
  have hlt : (s.completes b rest len).inUse + 1 = s.inUse := by
    unfold UciDev.inUse
    rw [hring, List.length_cons]
    change rest.length + s.held.length + 1 = _
    omega
  by_cases hb : b = s.nrTrb
  · by_cases hgood : c.Good len
    · refine ⟨?_, fun hbad => absurd hgood hbad⟩
      rw [mhiDlXferCb_good hb hstatus hgood.1 hgood.2]
      have hq := length_queueTransfer (c := c) rest (c.prevTrb b)
      change rest.length + s.held.length + 1 = s.inUse at hlt
      unfold UciDev.inUse at hlt ⊢
      rw [held_received, List.length_append]
      change (if c.copies then (queueTransfer c rest (c.prevTrb b)).getD rest else rest).length + _
        ≤ _
      split_ifs
      · change _ + (s.held.length + 0) ≤ _
        omega
      · change _ + (s.held.length + 1) ≤ _
        omega
    · rw [mhiDlXferCb_bad hb hgood]
      change (s.completes b rest len).inUse ≤ _ ∧ (_ → (s.completes b rest len).inUse < _)
      omega
  · rw [mhiDlXferCb_unexpected hb]
    change (s.completes b rest len).inUse ≤ _ ∧ (_ → (s.completes b rest len).inUse < _)
    omega

theorem lengths_cons (i : Input) (is : List Input) :
    lengths (i :: is) = lengths [i] ++ lengths is := by
  cases i <;> rfl

/-- No step puts more buffers in use, and a completion of a bad length one less. -/
theorem inUse_step {i : Input} (hi : StatusOk i) (hs : step c s i = some s') :
    s'.inUse ≤ s.inUse ∧ ((∃ len ∈ lengths [i], ¬ c.Good len) → s'.inUse < s.inUse) := by
  rcases step_cases hs with ⟨k, data, b, rfl, hb, hdata, rfl⟩
    | ⟨status, len, b, rest, rfl, hring, rfl⟩ | ⟨hno, hsame, -⟩ | ⟨b, data, rfl, hc, hr, rfl⟩
  · exact ⟨Nat.le_refl _, fun ⟨_, hlen, _⟩ => absurd hlen List.not_mem_nil⟩
  · have hstatus : status ≠ - ENOTCONN := by
      rw [show status = 0 from hi]
      decide
    obtain ⟨hle, hlt⟩ := inUse_complete (c := c) hring hstatus len
    exact ⟨hle, fun ⟨_, hlen, hbad⟩ => hlt (List.mem_singleton.1 hlen ▸ hbad)⟩
  · refine ⟨Nat.le_of_eq hsame.inUse, fun ⟨_, hlen, _⟩ => ?_⟩
    cases i with
    | complete status len => exact absurd rfl (hno status len)
    | _ => exact absurd hlen List.not_mem_nil
  · exact ⟨inUse_recycle hc data, fun ⟨_, hlen, _⟩ => absurd hlen List.not_mem_nil⟩

theorem inUse_exec : ∀ {is : List Input} {s s' : UciDev}, (∀ i ∈ is, StatusOk i) →
    Runs.exec (step c) s is = some s' →
      s'.inUse ≤ s.inUse ∧ ((∃ len ∈ lengths is, ¬ c.Good len) → s'.inUse < s.inUse)
  | [], s, s', _, hs => by
    cases hs
    exact ⟨Nat.le_refl _, fun ⟨_, hlen, _⟩ => absurd hlen List.not_mem_nil⟩
  | i :: is, s, s', hi, hs => by
    obtain ⟨s₁, h1, h2⟩ := Runs.exec_cons hs
    obtain ⟨hle, hlt⟩ := inUse_step (hi i List.mem_cons_self) h1
    obtain ⟨hle', hlt'⟩ := inUse_exec (fun j hj => hi j (List.mem_cons_of_mem i hj)) h2
    refine ⟨Nat.le_trans hle' hle, fun ⟨len, hlen, hbad⟩ => ?_⟩
    rw [lengths_cons, List.mem_append] at hlen
    rcases hlen with hlen | hlen
    · exact Nat.lt_of_le_of_lt hle' (hlt ⟨len, hlen, hbad⟩)
    · exact Nat.lt_of_lt_of_le (hlt' ⟨len, hlen, hbad⟩) hle

/-- The buffers by their distance from the bad one, which is `b`; `m` have completed since. The
reader holds the last `h` before `b`, and those of `H`; the next `l` are queued, and behind them the
predecessors of those of `T`, which the reader is done with. -/
structure Row (c : Cfg) (b m h l : ℕ) (T H held ring : List ℕ) : Prop where
  size : h + l + m + 2 = c.nrTrbs
  started : T ≠ [] → h = 0
  sorted : (T ++ H).Pairwise (· < ·)
  range : ∀ o ∈ T ++ H, 1 ≤ o ∧ o ≤ m
  held : held = (List.range' (c.nrTrbs - h) h ++ H).map (Ring.pos c.nrTrbs b)
  ring : ring = (List.range' (m + 1) l ++ T.map (· - 1)).map (Ring.pos c.nrTrbs b)

section Row

variable {b m h l : ℕ} {T H held ring : List ℕ}

theorem prevTrb_pos {o : ℕ} (hb : b < c.nrTrbs) (hpos : 1 ≤ o) (ho : o < c.nrTrbs) :
    c.prevTrb (Ring.pos c.nrTrbs b o) = Ring.pos c.nrTrbs b (o - 1) := by
  unfold Cfg.prevTrb Ring.pos
  unfold Cfg.nrTrbs at *
  split_ifs <;> omega

theorem Row.not_mem (hr : Row c b m h l T H held ring) {i : ℕ} (hi : i ∈ ring) : i ∉ held := by
  have hsize := hr.size
  rw [hr.ring] at hi
  rw [hr.held]
  intro hheld
  obtain ⟨o, ho, rfl⟩ := List.mem_map.1 hi
  obtain ⟨o', ho', heq⟩ := List.mem_map.1 hheld
  have hrange := hr.range
  have hT : ∀ t ∈ T, ∀ x ∈ H, t < x := (List.pairwise_append.1 hr.sorted).2.2
  rw [List.mem_append, List.mem_range'_1, List.mem_map] at ho
  rw [List.mem_append, List.mem_range'_1] at ho'
  have hne : o < c.nrTrbs ∧ o' < c.nrTrbs ∧ o' ≠ o := by
    rcases ho with ho | ⟨t, ht, rfl⟩ <;> rcases ho' with ho' | ho'
    · omega
    · have := hrange o' (List.mem_append_right T ho')
      omega
    · have := hrange t (List.mem_append_left H ht)
      omega
    · have := hrange t (List.mem_append_left H ht)
      have := hrange o' (List.mem_append_right T ho')
      have := hT t ht o' ho'
      omega
  exact hne.2.2 (Ring.pos_inj hne.2.1 hne.1 heq)

/-- The reader is done with the first buffer that it holds. -/
theorem Row.next (hr : Row c b m h l T H held ring) (hb : b < c.nrTrbs) {i : ℕ} {rest : List ℕ}
    (hheld : held = i :: rest) :
    ∃ h' l' T' H', Row c b m h' l' T' H' rest (ring ++ [c.prevTrb i]) := by
  have hsize := hr.size
  have heq := hr.held.symm.trans hheld
  cases h with
  | zero =>
    cases H with
    | nil => cases heq
    | cons o H =>
      obtain ⟨rfl, rfl⟩ := List.cons.inj heq
      obtain ⟨hpos, hle⟩ := hr.range o (List.mem_append_right T List.mem_cons_self)
      refine ⟨0, l, T ++ [o], H, hsize, fun _ => rfl, ?_, ?_, rfl, ?_⟩
      · rw [List.append_assoc]
        exact hr.sorted
      · rw [List.append_assoc]
        exact hr.range
      · rw [hr.ring, prevTrb_pos hb hpos (by omega)]
        simp
  | succ h =>
    have hT : T = [] := by
      by_contra hne
      exact absurd (hr.started hne) (Nat.succ_ne_zero h)
    subst hT
    rw [List.range'_succ] at heq
    obtain ⟨rfl, rfl⟩ := List.cons.inj heq
    refine ⟨h, l + 1, [], H, by omega, fun hne => absurd rfl hne, hr.sorted, hr.range, ?_, ?_⟩
    · rw [show c.nrTrbs - (h + 1) + 1 = c.nrTrbs - h by omega]
      rfl
    · rw [hr.ring, prevTrb_pos hb (by omega) (by omega), List.range'_concat,
        show c.nrTrbs - (h + 1) - 1 = m + 1 + 1 * l by omega]
      simp

/-- The first buffer that is queued is the one that is expected, until the ring has turned. -/
theorem Row.first (hr : Row c b m h l T H held ring) {i : ℕ} {rest : List ℕ}
    (hring : ring = i :: rest) :
    (∃ l', l = l' + 1 ∧ i = Ring.pos c.nrTrbs b (m + 1)
      ∧ rest = (List.range' (m + 2) l' ++ T.map (· - 1)).map (Ring.pos c.nrTrbs b))
    ∨ (m + 2 = c.nrTrbs ∧ i ≠ Ring.pos c.nrTrbs b (m + 1)) := by
  have hsize := hr.size
  have heq := hr.ring.symm.trans hring
  cases l with
  | zero =>
    cases T with
    | nil => cases heq
    | cons t T =>
      obtain ⟨rfl, -⟩ := List.cons.inj heq
      have hh := hr.started (List.cons_ne_nil t T)
      obtain ⟨hpos, hle⟩ := hr.range t List.mem_cons_self
      refine .inr ⟨by omega, fun hpos' => ?_⟩
      have ht : t - 1 = m + 1 := Ring.pos_inj (by omega) (by omega) hpos'
      omega
  | succ l =>
    rw [List.range'_succ] at heq
    obtain ⟨rfl, rfl⟩ := List.cons.inj heq
    exact .inl ⟨l, rfl, rfl, rfl⟩

theorem Row.length_le (hr : Row c b m h l T H held ring) :
    ring.length + held.length < c.nrFree := by
  have hsize := hr.size
  have hsub : (T ++ H).Subperm (List.range' 1 m) :=
    List.subperm_of_subset (hr.sorted.imp Nat.ne_of_lt) fun o ho => by
      obtain ⟨hpos, hle⟩ := hr.range o ho
      exact List.mem_range'_1.2 ⟨hpos, by omega⟩
  have hle := hsub.length_le
  rw [List.length_append, List.length_range'] at hle
  rw [hr.held, hr.ring, List.length_map, List.length_map, List.length_append, List.length_append,
    List.length_map, List.length_range', List.length_range']
  unfold Cfg.nrTrbs at hsize
  omega

/-- The first buffer that is queued completes, and goes to the reader, or its predecessor is queued,
or nothing is done about it. -/
theorem Row.complete (hr : Row c b m h (l + 1) T H held ring) :
    Row c b (m + 1) h l T (H ++ [m + 1]) (held ++ [Ring.pos c.nrTrbs b (m + 1)])
        ((List.range' (m + 2) l ++ T.map (· - 1)).map (Ring.pos c.nrTrbs b))
      ∧ (b < c.nrTrbs → held = [] → Row c b (m + 1) h l (T ++ [m + 1]) [] []
        ((List.range' (m + 2) l ++ T.map (· - 1)).map (Ring.pos c.nrTrbs b)
          ++ [c.prevTrb (Ring.pos c.nrTrbs b (m + 1))]))
      ∧ Row c b (m + 1) h l T H held
        ((List.range' (m + 2) l ++ T.map (· - 1)).map (Ring.pos c.nrTrbs b)) := by
  have hsize := hr.size
  have hlast : (T ++ H ++ [m + 1]).Pairwise (· < ·) := by
    refine List.pairwise_append.2 ⟨hr.sorted, List.pairwise_singleton .., fun o ho x hx => ?_⟩
    have hle := (hr.range o ho).2
    rw [List.mem_singleton.1 hx]
    omega
  have hrange : ∀ o ∈ T ++ H ++ [m + 1], 1 ≤ o ∧ o ≤ m + 1 := by
    intro o ho
    rcases List.mem_append.1 ho with ho | ho
    · have hle := hr.range o ho
      omega
    · rw [List.mem_singleton.1 ho]
      omega
  refine ⟨⟨by omega, hr.started, ?_, ?_, ?_, rfl⟩, fun hb hnil => ?_,
    ⟨by omega, hr.started, hr.sorted, fun o ho => ?_, hr.held, rfl⟩⟩
  · rw [← List.append_assoc]
    exact hlast
  · rw [← List.append_assoc]
    exact hrange
  · rw [hr.held]
    simp
  · have hheld := hr.held
    rw [hnil] at hheld
    obtain ⟨hh, rfl⟩ := List.append_eq_nil_iff.1 (List.map_eq_nil_iff.1 hheld.symm)
    obtain rfl : h = 0 := List.range'_eq_nil_iff.1 hh
    rw [List.append_nil] at hlast hrange
    refine ⟨by omega, fun _ => rfl, ?_, ?_, rfl, ?_⟩
    · rw [List.append_nil]
      exact hlast
    · rw [List.append_nil]
      exact hrange
    · rw [prevTrb_pos hb (by omega) (by omega)]
      simp
  · have hle := hr.range o ho
    omega

end Row

/-- `m` buffers have completed since the one that is `b`. -/
structure After (c : Cfg) (s : UciDev) (b m : ℕ) (stream : Bytes) : Prop
    extends Holds c s stream where
  lt : b < c.nrTrbs
  nrTrb : s.nrTrb = Ring.pos c.nrTrbs b (m + 1)
  rxError : s.rxError = 0
  row : ∃ h l T H, Row c b m h l T H s.held s.ring

section After

variable {b m : ℕ} {stream : Bytes}

theorem After.delivers (h : After c s b m stream) : s.Delivers stream := ⟨h.bytes, h.rxError⟩

theorem After.sameRow (h : After c s b m stream) (hs : SameRow s s') (hd : Holds c s' stream) :
    After c s' b m stream where
  toHolds := hd
  lt := h.lt
  nrTrb := hs.nrTrb.trans h.nrTrb
  rxError := hs.rxError.trans h.rxError
  row := by
    rw [hs.held, hs.ring]
    exact h.row

theorem After.recycle (h : After c s b m stream) {x : UciBuf} {data : Bytes}
    (hc : s.curBuf = some x) (hr : s.reader = some (.copied data)) :
    After c (recycle c s x data) b m stream := by
  obtain ⟨k, l, T, H, hrow⟩ := h.row
  have hroom : s.ring.length < c.nrFree := by
    have hlen := hrow.length_le
    omega
  have hd := h.toHolds.recycle hc hr fun _ => hroom
  rcases recycle_cases hc data fun _ => hroom with hsame | ⟨i, hheld, hring, hnr, hrx, -⟩
  · exact h.sameRow hsame hd
  · obtain ⟨k', l', T', H', hrow'⟩ := hrow.next h.lt hheld
    refine ⟨hd, h.lt, hnr.trans h.nrTrb, hrx.trans h.rxError, k', l', T', H', ?_⟩
    rw [hring]
    exact hrow'

/-- A buffer completes: the one that is expected, or, when the ring has turned, another one. -/
theorem After.complete (h : After c s b m stream) {i : ℕ} (len : ℕ) {rest : List ℕ}
    (hring : s.ring = i :: rest) :
    (m + 2 < c.nrTrbs ∧ After c (mhiDlXferCb c (s.completes i rest len) i 0 len) b (m + 1)
        (stream ++ s.brings c (.complete 0 len)))
      ∨ (m + 2 = c.nrTrbs ∧ 0 < (mhiDlXferCb c (s.completes i rest len) i 0 len).rxError) := by
  obtain ⟨k, l, T, H, hrow⟩ := h.row
  have hsize := hrow.size
  rcases hrow.first hring with ⟨l, rfl, hi, hrest⟩ | ⟨hm, hi⟩
  · refine .inl ⟨by omega, ?_⟩
    have hexp : i = s.nrTrb := hi.trans h.nrTrb.symm
    have hlt : i < c.nrTrbs := hi ▸ Ring.pos_lt h.lt (by omega)
    have hnext : Ring.succ c.nrTrbs i = Ring.pos c.nrTrbs b (m + 1 + 1) := by
      rw [hi, Ring.succ_pos h.lt (by omega)]
    have hfree : i ∉ s.held := hrow.not_mem (hring ▸ List.mem_cons_self)
    have hroom : rest.length < c.nrFree := by
      have hlen := hrow.length_le
      rw [hring, List.length_cons] at hlen
      omega
    obtain ⟨hgiven, hcopied, hlost⟩ := hrow.complete
    rw [← hrest] at hgiven hcopied hlost
    rw [← hi] at hgiven hcopied
    unfold UciDev.brings
    rw [hring]
    dsimp only
    by_cases hgood : c.Good len
    · rw [if_pos hgood]
      obtain ⟨hd, hnr, hrx, -, hbuf⟩ :=
        h.toHolds.complete hexp hlt hfree hroom hgood.1 hgood.2
      split_ifs at hbuf with hcp <;> obtain ⟨hheld', hring'⟩ := hbuf
      · refine ⟨hd, h.lt, hnr.trans hnext, hrx.trans h.rxError, k, l, T ++ [m + 1], [], ?_⟩
        rw [hheld', hring']
        exact hcopied h.lt (h.copies hcp)
      · refine ⟨hd, h.lt, hnr.trans hnext, hrx.trans h.rxError, k, l, T, H ++ [m + 1], ?_⟩
        rw [hheld', hring']
        exact hgiven
    · rw [if_neg hgood, List.append_nil, mhiDlXferCb_bad hexp hgood, next_eq hlt]
      exact ⟨⟨h.copies, h.length_mem, h.len, h.rxSize, h.left, h.bytes⟩, h.lt, hnext, h.rxError,
        k, l, T, H, hlost⟩
  · refine .inr ⟨hm, ?_⟩
    rw [mhiDlXferCb_unexpected (h.nrTrb ▸ hi)]
    exact Nat.succ_pos s.rxError

theorem After.step (h : After c s b m stream) {i : Input} (hi : StatusOk i)
    (hs : step c s i = some s') :
    (m + (lengths [i]).length + 2 ≤ c.nrTrbs
        ∧ After c s' b (m + (lengths [i]).length) (stream ++ s.brings c i))
      ∨ (c.nrTrbs < m + (lengths [i]).length + 2 ∧ 0 < s'.rxError) := by
  have hsize : m + 2 ≤ c.nrTrbs := by
    obtain ⟨k, l, T, H, hrow⟩ := h.row
    have := hrow.size
    omega
  rcases step_cases hs with ⟨k, data, i, rfl, hb, hdata, rfl⟩
    | ⟨status, len, i, rest, rfl, hring, rfl⟩ | ⟨hno, hsame, hd⟩ | ⟨x, data, rfl, hc, hr, rfl⟩
  · obtain ⟨h', l, T, H, hrow⟩ := h.row
    have hfree : i ∉ s.held := hrow.not_mem (List.mem_of_getElem? hb)
    refine .inl ⟨hsize, (List.append_nil stream).symm ▸ h.sameRow ?_ (h.toHolds.dma hfree hdata)⟩
    exact ⟨rfl, rfl, rfl, rfl, rfl⟩
  · obtain rfl : status = 0 := hi
    rcases h.complete len hring with ⟨hm, hafter⟩ | ⟨hm, herr⟩
    · exact .inl ⟨hm, hafter⟩
    · refine .inr ⟨?_, herr⟩
      change c.nrTrbs < m + 1 + 2
      omega
  · cases i with
    | complete status len => exact absurd rfl (hno status len)
    | _ => exact .inl ⟨hsize, (List.append_nil stream).symm ▸ h.sameRow hsame (hd _ h.toHolds)⟩
  · exact .inl ⟨hsize, (List.append_nil stream).symm ▸ h.recycle hc hr⟩

end After

/-! ## Runs -/

theorem rxError_step {i : Input} (hs : step c s i = some s') : s.rxError ≤ s'.rxError := by
  rcases step_cases hs with ⟨k, data, b, rfl, hb, hdata, rfl⟩
    | ⟨status, len, b, rest, rfl, hring, rfl⟩ | ⟨-, hsame, -⟩ | ⟨x, data, rfl, hc, hr, rfl⟩
  · exact Nat.le_refl _
  · unfold mhiDlXferCb receive
    split_ifs
    · exact Nat.le_succ s.rxError
    all_goals exact Nat.le_refl s.rxError
  · exact Nat.le_of_eq hsame.rxError.symm
  · unfold Uci.recycle
    split_ifs
    · exact Nat.le_refl s.rxError
    · cases x with
      | copy d => exact Nat.le_refl s.rxError
      | page nrTrb =>
        dsimp only
        split <;> exact Nat.le_refl s.rxError

theorem rxError_exec {is : List Input} (hpos : 0 < s.rxError)
    (hs : Runs.exec (step c) s is = some s') : 0 < s'.rxError :=
  Runs.exec_keeps (I := fun s => 0 < s.rxError)
    (fun _ _ _ hpos h1 => Nat.lt_of_lt_of_le hpos (rxError_step h1)) hpos hs

theorem sent_cons {i : Input} {is : List Input} (hs : step c s i = some s') :
    s.sent c (i :: is) = s.brings c i ++ s'.sent c is := by
  rw [UciDev.sent, hs]
  rfl

theorem After.exec {b : ℕ} : ∀ {is : List Input} {s s' : UciDev} {m : ℕ}
    {stream : Bytes}, After c s b m stream → (∀ i ∈ is, StatusOk i) →
    Runs.exec (Uci.step c) s is = some s' →
      (m + (lengths is).length + 2 ≤ c.nrTrbs → s'.Delivers (stream ++ s.sent c is))
        ∧ (c.nrTrbs < m + (lengths is).length + 2 → 0 < s'.rxError)
  | [], s, s', m, stream, h, _, hs => by
    cases hs
    obtain ⟨k, l, T, H, hrow⟩ := h.row
    have hsize := hrow.size
    change (m + 0 + 2 ≤ _ → s.Delivers (stream ++ [])) ∧ (_ < m + 0 + 2 → _)
    rw [List.append_nil]
    exact ⟨fun _ => h.delivers, fun hlt => by omega⟩
  | i :: is, s, s', m, stream, h, hi, hs => by
    obtain ⟨s₁, h1, h2⟩ := Runs.exec_cons hs
    have hrest := fun j hj => hi j (List.mem_cons_of_mem i hj)
    have hlen : (lengths (i :: is)).length = (lengths [i]).length + (lengths is).length := by
      rw [lengths_cons, List.length_append]
    rcases h.step (hi i List.mem_cons_self) h1 with ⟨hle, hafter⟩ | ⟨hlt, herr⟩
    · have hrun := hafter.exec hrest h2
      rw [List.append_assoc, ← sent_cons h1, Nat.add_assoc m, ← hlen] at hrun
      exact hrun
    · exact ⟨fun hle => by omega, fun _ => rxError_exec herr h2⟩

/-- The first completion of a bad length. -/
theorem Inv.bad {r : ℕ} (h : Inv c s r) {b len : ℕ} {rest : List ℕ} (hring : s.ring = b :: rest)
    (hbad : ¬ c.Good len) :
    After c (mhiDlXferCb c (s.completes b rest len) b 0 len) b 0 s.completed.flatten := by
  obtain ⟨hexp, hlt, -, -⟩ := h.head hring
  have hrow := h.row
  have hlen := h.length
  rw [hring] at hrow hlen
  rw [List.length_cons] at hlen
  obtain ⟨hheld, hrest⟩ := Ring.window_cut h.lt (Nat.lt_succ_self c.nrFree) hrow
  rw [mhiDlXferCb_bad hexp hbad, next_eq hlt]
  refine ⟨⟨h.copies, h.length_mem, h.len, h.rxSize, h.left, h.bytes⟩, hlt, ?_, h.rxError,
    s.held.length, rest.length, [], [], ⟨?_, fun hne => absurd rfl hne, List.Pairwise.nil,
    fun _ ho => absurd ho List.not_mem_nil, ?_, ?_⟩⟩
  · change Ring.succ c.nrTrbs b = _
    rw [← Ring.succ_pos hlt (by omega), Ring.pos_zero hlt]
  · unfold Cfg.nrTrbs
    omega
  · rw [List.append_nil]
    exact hheld
  · rw [List.map_nil, List.append_nil]
    exact hrest

theorem Inv.brings {r : ℕ} (h : Inv c s r) {i : Input} (hi : CompletesWell c i)
    (hs : step c s i = some s') : s'.completed.flatten = s.completed.flatten ++ s.brings c i := by
  rcases step_cases hs with ⟨k, data, b, rfl, hb, hdata, rfl⟩
    | ⟨status, len, b, rest, rfl, hring, rfl⟩ | ⟨hno, hsame, -⟩ | ⟨x, data, rfl, hc, hr, rfl⟩
  · exact (List.append_nil _).symm
  · obtain ⟨rfl, hgood⟩ := hi
    obtain ⟨hexp, hlt, hfree, hroom⟩ := h.head hring
    obtain ⟨-, -, -, hcomp, -⟩ := h.toHolds.complete hexp hlt hfree hroom hgood.1 hgood.2
    unfold UciDev.brings
    rw [hcomp, hring, List.flatten_append, List.flatten_singleton]
    exact congrArg (_ ++ ·) (if_pos hgood).symm
  · rw [hsame.completed]
    cases i with
    | complete status len => exact absurd rfl (hno status len)
    | _ => exact (List.append_nil _).symm
  · refine Eq.trans ?_ (List.append_nil _).symm
    rcases recycle_cases hc data h.room with hsame | ⟨nrTrb, -, -, -, -, hcomp⟩
    · rw [hsame.completed]
    · rw [hcomp]

/-- Until the ring has turned after the first completion of a bad length, what the others bring is
delivered. -/
theorem Inv.exec : ∀ {is : List Input} {s s' : UciDev} {r : ℕ}, Inv c s r →
    (∀ i ∈ is, StatusOk i) → Runs.exec (step c) s is = some s' →
      (afterBad c is < c.nrFree → s'.Delivers (s.completed.flatten ++ s.sent c is))
        ∧ (c.nrFree ≤ afterBad c is → 0 < s'.rxError)
  | [], s, s', r, h, _, hs => by
    cases hs
    have hpos := c.nrFree_pos
    change (0 < _ → s.Delivers (_ ++ [])) ∧ (_ ≤ 0 → _)
    rw [List.append_nil]
    exact ⟨fun _ => ⟨h.bytes, h.rxError⟩, fun hle => by omega⟩
  | i :: is, s, s', r, h, hi, hs => by
    obtain ⟨s₁, h1, h2⟩ := Runs.exec_cons hs
    have hfirst := hi i List.mem_cons_self
    have hrest := fun j hj => hi j (List.mem_cons_of_mem i hj)
    by_cases hwell : CompletesWell c i
    · obtain ⟨r', h'⟩ := inv_step h hwell h1
      have hrun := Inv.exec h' hrest h2
      have hsame : afterBad c (i :: is) = afterBad c is := by
        cases i with
        | complete status len => exact if_pos hwell.2
        | _ => rfl
      rw [h.brings hwell h1, List.append_assoc, ← sent_cons h1, ← hsame] at hrun
      exact hrun
    · rcases step_cases h1 with ⟨k, data, b, rfl, -, -, -⟩
        | ⟨status, len, b, rest, rfl, hring, rfl⟩ | ⟨hno, -, -⟩ | ⟨x, data, rfl, -, -, -⟩
      · exact absurd trivial hwell
      · obtain rfl : status = 0 := hfirst
        have hbad : ¬ c.Good len := fun hgood => hwell ⟨rfl, hgood⟩
        have hbrings : s.brings c (.complete 0 len) = [] := by
          unfold UciDev.brings
          rw [hring]
          exact if_neg hbad
        have hafter : afterBad c (.complete 0 len :: is) = (lengths is).length := if_neg hbad
        obtain ⟨hgo, herr⟩ := (h.bad hring hbad).exec hrest h2
        rw [hafter, sent_cons h1, hbrings, List.nil_append]
        unfold Cfg.nrTrbs at hgo herr
        exact ⟨fun hlt => hgo (by omega), fun hle => herr (by omega)⟩
      · cases i with
        | complete status len => exact absurd rfl (hno status len)
        | _ => exact absurd trivial hwell
      · exact absurd trivial hwell

theorem completesWell_of_good : ∀ {is : List Input}, (∀ i ∈ is, StatusOk i) →
    (∀ len ∈ lengths is, c.Good len) → ∀ i ∈ is, CompletesWell c i
  | [], _, _, _, hj => absurd hj List.not_mem_nil
  | i :: is, hi, hgood, j, hj => by
    rw [lengths_cons] at hgood
    rcases List.mem_cons.1 hj with rfl | hj
    · have hok := hi j List.mem_cons_self
      cases j with
      | complete status len =>
        exact ⟨hok, hgood len (List.mem_append_left _ (List.mem_singleton.2 rfl))⟩
      | _ => exact trivial
    · exact completesWell_of_good (fun k hk => hi k (List.mem_cons_of_mem i hk))
        (fun len hlen => hgood len (List.mem_append_right _ hlen)) j hj

theorem afterBad_of_good : ∀ {is : List Input}, (∀ i ∈ is, CompletesWell c i) → afterBad c is = 0
  | [], _ => rfl
  | i :: is, h => by
    have hrest := afterBad_of_good fun j hj => h j (List.mem_cons_of_mem i hj)
    have hi := h i List.mem_cons_self
    cases i with
    | complete status len => exact (if_pos hi.2).trans hrest
    | _ => exact hrest

/-- A run in which completions have bad lengths: each of them costs a buffer of the ring, and what
follows is delivered for less than a turn. -/
theorem tolerates_iff (is : List Input) (hstatus : ∀ i ∈ is, StatusOk i)
    (hrun : Runs.exec (step c) (start c) is = some s) :
    (s.Tolerates c ((start c).sent c is) ↔ ∀ len ∈ lengths is, c.Good len)
      ∧ (s.Delivers ((start c).sent c is) ↔ afterBad c is < c.nrFree) := by
  obtain ⟨hdelivers, herr⟩ := Inv.start.exec hstatus hrun
  change (_ → s.Delivers ((start c).sent c is)) at hdelivers
  constructor
  · constructor
    · intro h
      by_contra hsome
      push Not at hsome
      have hlt := (inUse_exec hstatus hrun).2 hsome
      have hreplaced := h.replaced
      unfold UciDev.inUse at hlt
      rw [hreplaced, held_start] at hlt
      simp [start] at hlt
    · intro hgood
      have hwell := completesWell_of_good hstatus hgood
      obtain ⟨r, hinv⟩ := inv_exec (Runs.meets_of_forall hwell) hrun
      refine ⟨hdelivers ?_, ?_⟩
      · rw [afterBad_of_good hwell]
        exact c.nrFree_pos
      · rw [Nat.add_comm]
        exact hinv.length
  · refine ⟨fun h => ?_, hdelivers⟩
    by_contra hge
    have hpos := herr (Nat.le_of_not_lt hge)
    rw [h.rxError] at hpos
    exact Nat.lt_irrefl 0 hpos

/-- The first buffer completes empty and the second one with two bytes, which are read. -/
def emptyFirst : List Input :=
  [.complete 0 0, .dma 0 [1, 2], .complete 0 2, .read 2 true, .copy, .finish]

theorem emptyFirst_delivers : ∃ s, Runs.exec (step smallChan) (start smallChan) emptyFirst = some s
    ∧ s.returned = [1, 2] ∧ s.Delivers ((start smallChan).sent smallChan emptyFirst)
    ∧ ¬ s.Tolerates smallChan ((start smallChan).sent smallChan emptyFirst) := by
  have hstatus : ∀ i ∈ emptyFirst, StatusOk i := by simp [emptyFirst, StatusOk]
  obtain ⟨htol, hdel⟩ := tolerates_iff (c := smallChan) emptyFirst hstatus rfl
  refine ⟨_, rfl, rfl, hdel.2 (by decide), fun h => absurd (htol.1 h) (by decide)⟩

/-- The next buffer completes, and is not the one that is expected: the call after it fails. -/
theorem emptyFirst_turns : ∃ s, Runs.exec (step smallChan) (start smallChan)
      (emptyFirst ++ [.dma 0 [3, 4], .complete 0 2, .read 2 true]) = some s
    ∧ (start smallChan).sent smallChan (emptyFirst ++ [.dma 0 [3, 4], .complete 0 2, .read 2 true])
      = [1, 2, 3, 4]
    ∧ s.returned = [1, 2] ∧ s.reads.getLast? = some (.error (- EINVAL))
    ∧ s.rxError ≠ 0 ∧ s.ring = [] ∧ s.held = [] :=
  ⟨_, rfl, rfl, rfl, rfl, by decide, rfl, rfl⟩

end Uci

end BananaWrt
