import BananaWrt.MhiUci

/-!
# The receive stream of a character device

The buffers that the reader holds and those that are queued are, in this order, all but one of the
buffers in a row (`Inv.row`): a completion moves the boundary between the two, and when the first
buffer is read to its end, the row moves on by one, the buffer left out being its predecessor. So no
write of the modem meets a buffer that is still read, and what the calls have returned, what one of
them has copied and what the buffers hold is what the modem has sent.
-/

namespace BananaWrt

namespace Uci

variable {c : Cfg} {s : UciDev}

/-- The buffers of the channel among those that the reader has not read to their end. -/
def UciBuf.nrTrb? : UciBuf → Option ℕ
  | .page nrTrb => some nrTrb
  | .copy _ => none

def UciDev.held (s : UciDev) : List ℕ := s.bufs.filterMap UciBuf.nrTrb?

theorem mem_held {nrTrb : ℕ} : nrTrb ∈ s.held ↔ .page nrTrb ∈ s.bufs := by
  unfold UciDev.held
  rw [List.mem_filterMap]
  constructor
  · rintro ⟨b, hb, h⟩
    cases b with
    | page nrTrb' =>
      cases h
      exact hb
    | copy data => simp [UciBuf.nrTrb?] at h
  · exact fun h => ⟨_, h, rfl⟩

/-- What is left to be read of a buffer. -/
def UciDev.payload (s : UciDev) (b : UciBuf) : Bytes := (s.dataOf b).take (s.lenOf b)

def UciDev.curUnread (s : UciDev) : Bytes :=
  match s.curBuf with
  | some b => ((s.dataOf b).drop (s.lenOf b - s.rxSize)).take s.rxSize
  | none => []

def UciDev.unread (s : UciDev) : Bytes := s.curUnread ++ (s.pending.map s.payload).flatten

/-- What a call has copied and not yet returned. -/
def UciDev.inFlight (s : UciDev) : Bytes :=
  match s.reader with
  | some (.copied data) => data
  | _ => []

theorem prevTrb_eq {i : ℕ} (hi : i < c.nrTrbs) : c.prevTrb i = Ring.pos c.nrTrbs i c.nrFree := by
  unfold Cfg.prevTrb Ring.pos
  unfold Cfg.nrTrbs at *
  split_ifs <;> omega

theorem next_eq {i : ℕ} (hi : i < c.nrTrbs) :
    (if i + 1 = c.nrTrbs then 0 else i + 1) = Ring.succ c.nrTrbs i := by
  unfold Ring.succ
  split_ifs <;> omega

/-- All but one of the buffers, from `r` on, with the first one taken out and the one that was left
out put in. -/
theorem window_rotate {r : ℕ} {rest : List ℕ} {i : ℕ} (hr : r < c.nrTrbs)
    (h : i :: rest = Ring.window c.nrTrbs r c.nrFree) :
    i = r ∧ rest ++ [c.prevTrb i] = Ring.window c.nrTrbs (Ring.succ c.nrTrbs r) c.nrFree := by
  obtain ⟨k, hk⟩ : ∃ k, c.nrFree = k + 1 := ⟨c.nrFree - 1, by have := c.nrFree_pos; omega⟩
  have hn : c.nrTrbs = k + 2 := by
    unfold Cfg.nrTrbs
    omega
  rw [hk, Ring.window_succ hr (by omega)] at h
  obtain ⟨rfl, rfl⟩ := List.cons.inj h
  refine ⟨rfl, ?_⟩
  rw [prevTrb_eq hr, hk, Ring.window_push, Ring.pos_succ hr (by omega)]

theorem mhiQueueInbound_eq : mhiQueueInbound c = some (List.range c.nrFree) := by
  have hloop : ∀ k ≤ c.nrFree,
      (List.range k).foldlM (queueTransfer c) [] = some (List.range k) := by
    intro k hk
    induction k with
    | zero => rfl
    | succ k ih =>
      have hlt : k < c.nrFree := hk
      rw [List.range_succ, List.foldlM_append, ih (by omega)]
      simp [queueTransfer, hlt]
  exact hloop _ (Nat.le_refl _)

/-- What the buffers hold, of the bytes that have been received. -/
structure Holds (c : Cfg) (s : UciDev) (stream : Bytes) : Prop where
  copies : c.copies → s.held = []
  length_mem : ∀ i, (s.mem i).length = c.mtu
  len : ∀ b ∈ s.bufs, 0 < s.lenOf b ∧ s.lenOf b ≤ (s.dataOf b).length
  rxSize : ∀ b ∈ s.curBuf, s.rxSize ≤ s.lenOf b
  left : s.curBuf ≠ none → s.rxSize = 0 → ∃ data ≠ [], s.reader = some (.copied data)
  bytes : stream = s.returned ++ s.inFlight ++ s.unread

/-- `r` is the first buffer of the row. -/
structure Inv (c : Cfg) (s : UciDev) (r : ℕ) : Prop extends Holds c s s.completed.flatten where
  lt : r < c.nrTrbs
  row : s.held ++ s.ring = Ring.window c.nrTrbs r c.nrFree
  nrTrb : s.nrTrb = Ring.pos c.nrTrbs r s.held.length
  rxError : s.rxError = 0

theorem held_start : (start c).held = [] := by simp [Uci.start, UciDev.held, UciDev.bufs]

theorem holds_start : Holds c (start c) [] where
  copies _ := held_start
  length_mem := c.length_mem
  len b hb := by simp [Uci.start, UciDev.bufs] at hb
  rxSize b hb := by simp [Uci.start] at hb
  left h := by simp [Uci.start] at h
  bytes := rfl

theorem Inv.start : Inv c (start c) 0 where
  toHolds := holds_start
  lt := by simp [Cfg.nrTrbs]
  row := by
    have hpos : ∀ i ∈ List.range c.nrFree, Ring.pos c.nrTrbs 0 i = i := by
      intro i hi
      have := List.mem_range.1 hi
      unfold Ring.pos Cfg.nrTrbs
      rw [if_pos (by omega), Nat.zero_add]
    rw [held_start, List.nil_append]
    simp [Uci.start, Ring.window, List.map_congr_left hpos]
  nrTrb := by
    rw [held_start]
    exact (Ring.pos_zero (by simp [Uci.start, Cfg.nrTrbs])).symm
  rxError := rfl

variable {r : ℕ} {stream : Bytes}

theorem Inv.nodup (h : Inv c s r) : (s.held ++ s.ring).Nodup := by
  rw [h.row]
  exact Ring.nodup_window (by simp [Cfg.nrTrbs])

theorem Inv.length (h : Inv c s r) : s.held.length + s.ring.length = c.nrFree := by
  rw [← List.length_append, h.row, Ring.length_window]

theorem Holds.payload_ne_nil (h : Holds c s stream) {b : UciBuf} (hb : b ∈ s.bufs) :
    s.payload b ≠ [] := by
  obtain ⟨hpos, hle⟩ := h.len b hb
  refine List.ne_nil_of_length_pos ?_
  unfold UciDev.payload
  rw [List.length_take]
  omega

theorem Inv.right (h : Inv c s r) : s.Right where
  inOrder := ⟨s.inFlight ++ s.unread, by rw [h.bytes, List.append_assoc]⟩
  caughtUp hall := by
    have hb := h.bytes
    rw [← hall, List.append_assoc, List.self_eq_append_right, List.append_eq_nil_iff] at hb
    obtain ⟨hfly, hun⟩ := hb
    obtain ⟨hcur, hpend⟩ := List.append_eq_nil_iff.1 hun
    constructor
    · rcases hp : s.pending with _ | ⟨b, bs⟩
      · rfl
      · rw [hp, List.map_cons, List.flatten_cons] at hpend
        exact absurd (List.append_eq_nil_iff.1 hpend).1
          (h.payload_ne_nil (by simp [UciDev.bufs, hp]))
    · by_contra hne
      obtain ⟨b, hb⟩ := Option.ne_none_iff_exists'.1 hne
      by_cases h0 : s.rxSize = 0
      · obtain ⟨data, hd, hr⟩ := h.left hne h0
        exact hd (by simpa [UciDev.inFlight, hr] using hfly)
      · have hle := h.rxSize b hb
        have hlen := (h.len b (by simp [UciDev.bufs, hb])).2
        have hcur' := congrArg List.length hcur
        simp only [UciDev.curUnread, hb, List.length_take, List.length_drop,
          List.length_nil] at hcur'
        omega
  queuedOnce := (List.nodup_append.1 h.nodup).2.1
  queuedRead i hi hb := (List.nodup_append.1 h.nodup).2.2 i (mem_held.2 hb) i hi rfl
  rxError := h.rxError

section Congr

variable {s' : UciDev}

theorem dataOf_congr (hm : ∀ i ∈ s.held, s'.mem i = s.mem i ∧ s'.len i = s.len i) {b : UciBuf}
    (hb : b ∈ s.bufs) : s'.dataOf b = s.dataOf b ∧ s'.lenOf b = s.lenOf b := by
  cases b with
  | page nrTrb => exact hm nrTrb (mem_held.2 hb)
  | copy data => exact ⟨rfl, rfl⟩

theorem unread_congr (hm : ∀ i ∈ s.held, s'.mem i = s.mem i ∧ s'.len i = s.len i)
    (hcur : s'.curBuf = s.curBuf) (hrx : s'.rxSize = s.rxSize) :
    s'.curUnread = s.curUnread ∧ s.pending.map s'.payload = s.pending.map s.payload := by
  constructor
  · unfold UciDev.curUnread
    rw [hcur, hrx]
    rcases hb : s.curBuf with _ | b
    · rfl
    · obtain ⟨hd, hl⟩ := dataOf_congr hm (b := b) (by simp [UciDev.bufs, hb])
      simp only [hd, hl]
  · refine List.map_congr_left fun b hb => ?_
    obtain ⟨hd, hl⟩ := dataOf_congr hm (b := b) (by simp [UciDev.bufs, hb])
    unfold UciDev.payload
    rw [hd, hl]

end Congr

/-- The modem writes to a buffer that is not held. -/
theorem Holds.dma (h : Holds c s stream) {b : ℕ} (hb : b ∉ s.held) {data : Bytes}
    (hdata : data.length = c.mtu) :
    Holds c { s with mem := Function.update s.mem b data } stream := by
  let s' := { s with mem := Function.update s.mem b data }
  have hm : ∀ i ∈ s.held, s'.mem i = s.mem i ∧ s'.len i = s.len i := by
    intro i hi
    have hne : i ≠ b := fun heq => hb (heq ▸ hi)
    exact ⟨Function.update_of_ne hne data s.mem, rfl⟩
  obtain ⟨hcur, hpend⟩ := unread_congr hm rfl rfl
  refine { h with length_mem := fun i => ?_, len := fun b' hb' => ?_, bytes := ?_ }
  · rcases eq_or_ne i b with rfl | hne
    · simpa using hdata
    · simpa [hne] using h.length_mem i
  · obtain ⟨hd, hl⟩ := dataOf_congr hm hb'
    rw [hd, hl]
    exact h.len b' hb'
  · show stream
      = s.returned ++ s.inFlight ++ (s'.curUnread ++ (s.pending.map s'.payload).flatten)
    rw [hcur, hpend]
    exact h.bytes

/-- The reader moves on, and has copied nothing. -/
theorem Holds.setReader (h : Holds c s stream) (hs : ∀ data, s.reader ≠ some (.copied data))
    (reader : Option ReadAt) (hr : ∀ data, reader ≠ some (.copied data)) :
    Holds c { s with reader := reader } stream := by
  have hold : s.inFlight = [] := by
    unfold UciDev.inFlight
    split
    · exact absurd ‹_› (hs _)
    · rfl
  have hnew : { s with reader := reader }.inFlight = [] := by
    unfold UciDev.inFlight
    split
    · exact absurd ‹_› (hr _)
    · rfl
  refine { h with left := fun hc h0 => ?_, bytes := ?_ }
  · obtain ⟨data, -, hd⟩ := h.left hc h0
    exact absurd hd (hs data)
  · rw [hnew, ← hold]
    exact h.bytes

theorem Holds.error (h : Holds c s stream) (hs : ∀ data, s.reader ≠ some (.copied data)) (e : ℤ) :
    Holds c (s.ret (.error e)) stream := by
  have h' := h.setReader hs none (by simp)
  refine { h' with bytes := ?_ }
  have hret : (s.ret (.error e)).returned = s.returned := by
    simp [UciDev.returned, UciDev.ret, bytesOf]
  rw [hret]
  exact h'.bytes

theorem takeBuf_some {b : UciBuf} (hc : s.curBuf = some b) (count : ℕ) :
    takeBuf s count = { s with reader := some (.copying count) } := by
  unfold takeBuf
  rw [hc]

theorem takeBuf_nil (hc : s.curBuf = none) (hp : s.pending = []) (count : ℕ) :
    takeBuf s count = s.ret (.error (- EIO)) := by
  unfold takeBuf
  rw [hc, hp]

theorem takeBuf_cons {b : UciBuf} {bs : List UciBuf} (hc : s.curBuf = none)
    (hp : s.pending = b :: bs) (count : ℕ) :
    takeBuf s count = { s with
      pending := bs
      curBuf := some b
      rxSize := s.lenOf b
      reader := some (.copying count) } := by
  unfold takeBuf
  rw [hc, hp]

/-- Two devices with the same buffers: what the reader holds, the ring, and what is expected. -/
structure SameRow (s s' : UciDev) : Prop where
  held : s'.held = s.held
  ring : s'.ring = s.ring
  nrTrb : s'.nrTrb = s.nrTrb
  rxError : s'.rxError = s.rxError
  completed : s'.completed = s.completed

theorem sameRow_takeBuf (s : UciDev) (count : ℕ) : SameRow s (takeBuf s count) := by
  rcases hc : s.curBuf with _ | b
  · rcases hp : s.pending with _ | ⟨b, bs⟩
    · rw [takeBuf_nil hc hp]
      exact ⟨rfl, rfl, rfl, rfl, rfl⟩
    · rw [takeBuf_cons hc hp]
      refine ⟨?_, rfl, rfl, rfl, rfl⟩
      simp [UciDev.held, UciDev.bufs, hc, hp]
  · rw [takeBuf_some hc]
    exact ⟨rfl, rfl, rfl, rfl, rfl⟩

theorem sameRow_readStart (s : UciDev) (count : ℕ) (nonblock : Bool) :
    SameRow s (readStart s count nonblock) := by
  unfold readStart
  split_ifs
  · exact ⟨rfl, rfl, rfl, rfl, rfl⟩
  · exact ⟨rfl, rfl, rfl, rfl, rfl⟩
  · exact ⟨rfl, rfl, rfl, rfl, rfl⟩
  · exact sameRow_takeBuf s count

theorem Holds.takeBuf (h : Holds c s stream) (hs : ∀ data, s.reader ≠ some (.copied data))
    (count : ℕ) : Holds c (takeBuf s count) stream := by
  have hset := h.setReader hs (some (.copying count)) (by simp)
  rcases hc : s.curBuf with _ | b
  · rcases hp : s.pending with _ | ⟨b, bs⟩
    · rw [takeBuf_nil hc hp]
      exact h.error hs _
    · have hbufs : s.bufs = b :: bs := by simp [UciDev.bufs, hc, hp]
      have hpos := (h.len b (by simp [hbufs])).1
      rw [takeBuf_cons hc hp]
      refine { hset with copies := ?_, len := ?_, rxSize := ?_, left := ?_, bytes := ?_ }
      · simpa [UciDev.held, UciDev.bufs, hc, hp] using h.copies
      · intro b' hb'
        exact h.len b' (hbufs ▸ hb')
      · rintro b' ⟨⟩
        exact Nat.le_refl _
      · intro _ h0
        exact absurd h0 (Nat.ne_of_gt hpos)
      · -- all that is in the buffer is left to be read
        have hun : s.unread = ((s.dataOf b).drop (s.lenOf b - s.lenOf b)).take (s.lenOf b)
            ++ (bs.map s.payload).flatten := by
          simp [UciDev.unread, UciDev.curUnread, hc, hp, UciDev.payload]
        have hb : stream = s.returned ++ [] ++ s.unread := hset.bytes
        rw [hun] at hb
        exact hb
  · rw [takeBuf_some hc]
    exact hset

theorem Holds.readStart (h : Holds c s stream) (hs : s.reader = none) (count : ℕ)
    (nonblock : Bool) : Holds c (readStart s count nonblock) stream := by
  have hs' : ∀ data, s.reader ≠ some (.copied data) := by simp [hs]
  unfold Uci.readStart
  split_ifs
  · exact h.error hs' _
  · exact h.error hs' _
  · exact h.setReader hs' _ (by simp)
  · exact h.takeBuf hs' count

/-- What is copied is no longer in the buffer, and the call has it. -/
theorem Holds.copyToUser (h : Holds c s stream) {b : UciBuf} {count : ℕ} (hc : s.curBuf = some b)
    (hr : s.reader = some (.copying count)) : Holds c (copyToUser s b count) stream := by
  have hle := h.rxSize b hc
  have hlen := (h.len b (by simp [UciDev.bufs, hc])).2
  have hne : s.rxSize ≠ 0 := fun h0 => by
    obtain ⟨data, -, hd⟩ := h.left (by simp [hc]) h0
    simp [hr] at hd
  refine { h with rxSize := fun b' hb' => ?_, left := fun _ h0 => ?_, bytes := ?_ }
  · exact Nat.le_trans (Nat.sub_le _ _) (h.rxSize b' hb')
  · refine ⟨_, List.ne_nil_of_length_pos ?_, rfl⟩
    change s.rxSize - min count s.rxSize = 0 at h0
    rw [List.length_take, List.length_drop]
    omega
  · have hb := h.bytes
    have hm : min count s.rxSize ≤ s.rxSize := Nat.min_le_right _ _
    generalize hmin : min count s.rxSize = m at hm
    -- the part that is copied in front of the part that is left
    have hsplit : ((s.dataOf b).drop (s.lenOf b - s.rxSize)).take s.rxSize
        = ((s.dataOf b).drop (s.lenOf b - s.rxSize)).take m
          ++ ((s.dataOf b).drop (s.lenOf b - (s.rxSize - m))).take (s.rxSize - m) := by
      obtain ⟨k, hk⟩ := Nat.exists_eq_add_of_le hm
      rw [hk, List.take_add, List.drop_drop, Nat.add_sub_cancel_left]
      congr 3
      omega
    simp only [UciDev.inFlight, hr, UciDev.unread, UciDev.curUnread, hc, List.append_nil,
      hsplit] at hb
    have hnew : stream
        = (Uci.copyToUser s b count).returned
          ++ ((s.dataOf b).drop (s.lenOf b - s.rxSize)).take m
          ++ (((s.dataOf b).drop (s.lenOf b - (s.rxSize - m))).take (s.rxSize - m)
            ++ (s.pending.map s.payload).flatten) := by
      simp only [List.append_assoc] at hb ⊢
      exact hb
    simp only [UciDev.inFlight, UciDev.unread, UciDev.curUnread, Uci.copyToUser, hmin, hc] at hnew ⊢
    exact hnew

theorem returned_ret_ok (data : Bytes) : (s.ret (.ok data)).returned = s.returned ++ data := by
  simp [UciDev.returned, UciDev.ret, bytesOf]

theorem recycle_of_left {b : UciBuf} {data : Bytes} (h0 : s.rxSize ≠ 0) :
    recycle c s b data = s.ret (.ok data) := if_pos h0

theorem recycle_copy {d data : Bytes} (h0 : s.rxSize = 0) :
    recycle c s (.copy d) data = { s with curBuf := none }.ret (.ok data) := by
  unfold recycle
  rw [if_neg (not_not_intro h0)]

theorem recycle_page {nrTrb : ℕ} {data : Bytes} (h0 : s.rxSize = 0)
    (hroom : s.ring.length < c.nrFree) :
    recycle c s (.page nrTrb) data
      = { s with curBuf := none, ring := s.ring ++ [c.prevTrb nrTrb] }.ret (.ok data) := by
  have hq : queueTransfer c s.ring (c.prevTrb nrTrb) = some (s.ring ++ [c.prevTrb nrTrb]) :=
    if_pos hroom
  unfold recycle
  rw [if_neg (not_not_intro h0)]
  dsimp only
  rw [hq]

theorem held_copy {d : Bytes} (hc : s.curBuf = some (.copy d)) :
    s.held = s.pending.filterMap UciBuf.nrTrb? := by
  simp [UciDev.held, UciDev.bufs, hc, UciBuf.nrTrb?, List.filterMap_cons]

theorem held_page {nrTrb : ℕ} (hc : s.curBuf = some (.page nrTrb)) :
    s.held = nrTrb :: s.pending.filterMap UciBuf.nrTrb? := by
  simp [UciDev.held, UciDev.bufs, hc, UciBuf.nrTrb?]

/-- A buffer that is read to its end is let go. -/
theorem Holds.recycle (h : Holds c s stream) {b : UciBuf} {data : Bytes} (hc : s.curBuf = some b)
    (hr : s.reader = some (.copied data)) (hroom : s.held ≠ [] → s.ring.length < c.nrFree) :
    Holds c (recycle c s b data) stream := by
  have hb := h.bytes
  have hfly : s.inFlight = data := by simp [UciDev.inFlight, hr]
  rw [hfly] at hb
  by_cases h0 : s.rxSize = 0
  · have hun : s.unread = (s.pending.map s.payload).flatten := by
      simp [UciDev.unread, UciDev.curUnread, hc, h0]
    rw [hun] at hb
    have hb' : stream
        = s.returned ++ data ++ [] ++ ([] ++ (s.pending.map s.payload).flatten) := by
      simpa using hb
    have hlet : ∀ ring : List ℕ, (c.copies → s.pending.filterMap UciBuf.nrTrb? = []) →
        Holds c ({ s with curBuf := none, ring := ring }.ret (.ok data)) stream := by
      intro ring hcopies
      refine ⟨hcopies, h.length_mem, ?_, ?_, ?_, ?_⟩
      · exact fun b' hb' => h.len b' (List.mem_append_right _ hb')
      · rintro b' ⟨⟩
      · exact fun hne => absurd rfl hne
      · rw [returned_ret_ok]
        exact hb'
    cases b with
    | copy d =>
      rw [recycle_copy h0]
      exact hlet s.ring (held_copy hc ▸ h.copies)
    | page nrTrb =>
      have hheld := held_page hc
      rw [recycle_page h0 (hroom (by simp [hheld]))]
      refine hlet _ fun hcp => ?_
      have := h.copies hcp
      simp [hheld] at this
  · rw [recycle_of_left h0]
    refine { h with left := fun _ h0' => absurd h0' h0, bytes := ?_ }
    rw [returned_ret_ok]
    have hb' : stream = s.returned ++ data ++ [] ++ s.unread := by simpa using hb
    exact hb'

/-- The buffers after that: as they were, or without the first one held and with its predecessor
queued. -/
theorem recycle_cases {b : UciBuf} (hc : s.curBuf = some b) (data : Bytes)
    (hroom : s.held ≠ [] → s.ring.length < c.nrFree) :
    SameRow s (recycle c s b data)
      ∨ ∃ nrTrb, s.held = nrTrb :: (recycle c s b data).held
        ∧ (recycle c s b data).ring = s.ring ++ [c.prevTrb nrTrb]
        ∧ (recycle c s b data).nrTrb = s.nrTrb ∧ (recycle c s b data).rxError = s.rxError
        ∧ (recycle c s b data).completed = s.completed := by
  by_cases h0 : s.rxSize = 0
  · cases b with
    | copy d =>
      rw [recycle_copy h0]
      exact .inl ⟨(held_copy hc).symm, rfl, rfl, rfl, rfl⟩
    | page nrTrb =>
      have hheld := held_page hc
      rw [recycle_page h0 (hroom (by simp [hheld]))]
      exact .inr ⟨nrTrb, hheld, rfl, rfl, rfl, rfl⟩
  · rw [recycle_of_left h0]
    exact .inl ⟨rfl, rfl, rfl, rfl, rfl⟩

/-- The device after a completion that puts `x` into `pending`. -/
def received (s : UciDev) (ring : List ℕ) (nrTrb : ℕ) (len : ℕ → ℕ) (x : UciBuf) (p : Bytes) :
    UciDev :=
  { s with
    ring := ring
    nrTrb := nrTrb
    len := len
    pending := s.pending ++ [x]
    completed := s.completed ++ [p] }

theorem held_received (s : UciDev) (ring : List ℕ) (nrTrb : ℕ) (len : ℕ → ℕ) (x : UciBuf)
    (p : Bytes) : (received s ring nrTrb len x p).held = s.held ++ x.nrTrb?.toList := by
  have hbufs : (received s ring nrTrb len x p).bufs = s.bufs ++ [x] := by
    simp [UciDev.bufs, received]
  unfold UciDev.held
  rw [hbufs, List.filterMap_append]
  cases x <;> rfl

/-- What is in `pending` besides stays as it is. -/
theorem Holds.received (h : Holds c s stream) {ring : List ℕ} {nrTrb : ℕ} {len : ℕ → ℕ}
    {x : UciBuf} {p : Bytes} (hm : ∀ i ∈ s.held, len i = s.len i)
    (hlen : 0 < (received s ring nrTrb len x p).lenOf x
      ∧ (received s ring nrTrb len x p).lenOf x ≤ ((received s ring nrTrb len x p).dataOf x).length)
    (hp : (received s ring nrTrb len x p).payload x = p)
    (hcp : c.copies → s.held ++ x.nrTrb?.toList = []) :
    Holds c (received s ring nrTrb len x p) (stream ++ p) := by
  have hm' : ∀ i ∈ s.held, (Uci.received s ring nrTrb len x p).mem i = s.mem i
      ∧ (Uci.received s ring nrTrb len x p).len i = s.len i := fun i hi => ⟨rfl, hm i hi⟩
  obtain ⟨hcur, hpend⟩ := unread_congr hm' rfl rfl
  refine ⟨?_, h.length_mem, fun b hb => ?_, fun b hb => ?_, h.left, ?_⟩
  · rw [held_received]
    exact hcp
  · have hb : b ∈ s.bufs ++ [x] := by simpa [UciDev.bufs, Uci.received] using hb
    rcases List.mem_append.1 hb with hb | hb
    · obtain ⟨hd, hl⟩ := dataOf_congr hm' hb
      rw [hd, hl]
      exact h.len b hb
    · rw [List.mem_singleton.1 hb]
      exact hlen
  · have hcb : s.curBuf = some b := hb
    obtain ⟨-, hl⟩ := dataOf_congr hm' (b := b) (by simp [UciDev.bufs, hcb])
    rw [hl]
    exact h.rxSize b hb
  · have hpend' : ((s.pending ++ [x]).map (Uci.received s ring nrTrb len x p).payload).flatten
        = (s.pending.map s.payload).flatten ++ p := by
      rw [List.map_append, hpend, List.map_singleton, hp, List.flatten_append,
        List.flatten_singleton]
    have hb := h.bytes
    have hgoal : stream ++ p = s.returned ++ s.inFlight
        ++ (s.curUnread ++ ((s.pending.map s.payload).flatten ++ p)) := by
      rw [hb]
      simp [UciDev.unread]
    unfold UciDev.unread
    rw [hcur, show (Uci.received s ring nrTrb len x p).pending = s.pending ++ [x] from rfl, hpend']
    exact hgoal

/-- The modem is done with the first buffer that is queued. -/
def UciDev.completes (s : UciDev) (b : ℕ) (rest : List ℕ) (len : ℕ) : UciDev :=
  { s with ring := rest, completed := s.completed ++ [(s.mem b).take len] }

/-- The buffer that is expected completes with a length from 1 to `mtu`. -/
theorem mhiDlXferCb_good {b len : ℕ} {rest : List ℕ} {status : ℤ} (hb : b = s.nrTrb)
    (hstatus : status ≠ - ENOTCONN) (h1 : 1 ≤ len) (hmtu : len ≤ c.mtu) :
    mhiDlXferCb c (s.completes b rest len) b status len
      = received s (if c.copies then (queueTransfer c rest (c.prevTrb b)).getD rest else rest)
          (if b + 1 = c.nrTrbs then 0 else b + 1) (Function.update s.len b len)
          (if c.copies then .copy ((s.mem b).take len) else .page b) ((s.mem b).take len) := by
  have hok : ¬ (c.mtu < len ∨ len = 0) := by omega
  unfold mhiDlXferCb UciDev.completes
  rw [if_neg (by simpa using hb), if_neg hstatus, if_neg hok, ← hb]
  unfold receive
  split_ifs <;> rfl

/-- With another length, the callback only moves on. -/
theorem mhiDlXferCb_bad {b len : ℕ} {rest : List ℕ} {status : ℤ} (hb : b = s.nrTrb)
    (hbad : ¬ (1 ≤ len ∧ len ≤ c.mtu)) :
    mhiDlXferCb c (s.completes b rest len) b status len
      = { s.completes b rest len with nrTrb := if b + 1 = c.nrTrbs then 0 else b + 1 } := by
  have hlen : c.mtu < len ∨ len = 0 := by omega
  unfold mhiDlXferCb
  rw [if_neg (by simpa [UciDev.completes] using hb)]
  dsimp only
  rw [if_pos hlen, ite_self, hb]
  rfl

/-- Another buffer than the one that is expected. -/
theorem mhiDlXferCb_unexpected {b len : ℕ} {rest : List ℕ} {status : ℤ} (hb : b ≠ s.nrTrb) :
    mhiDlXferCb c (s.completes b rest len) b status len
      = { s.completes b rest len with rxError := s.rxError + 1 } := by
  unfold mhiDlXferCb
  exact if_pos hb

/-- The buffer that is expected completes well: it is copied and its predecessor queued, or it is
handed to the reader. -/
theorem Holds.complete (h : Holds c s stream) {b len : ℕ} {rest : List ℕ} (hb : b = s.nrTrb)
    (hlt : b < c.nrTrbs) (hheld : b ∉ s.held) (hroom : rest.length < c.nrFree) (h1 : 1 ≤ len)
    (hmtu : len ≤ c.mtu) :
    Holds c (mhiDlXferCb c (s.completes b rest len) b 0 len) (stream ++ (s.mem b).take len)
      ∧ (mhiDlXferCb c (s.completes b rest len) b 0 len).nrTrb = Ring.succ c.nrTrbs b
      ∧ (mhiDlXferCb c (s.completes b rest len) b 0 len).rxError = s.rxError
      ∧ (mhiDlXferCb c (s.completes b rest len) b 0 len).completed
        = s.completed ++ [(s.mem b).take len]
      ∧ if c.copies then
          (mhiDlXferCb c (s.completes b rest len) b 0 len).held = []
            ∧ (mhiDlXferCb c (s.completes b rest len) b 0 len).ring = rest ++ [c.prevTrb b]
        else
          (mhiDlXferCb c (s.completes b rest len) b 0 len).held = s.held ++ [b]
            ∧ (mhiDlXferCb c (s.completes b rest len) b 0 len).ring = rest := by
  have hm : ∀ i ∈ s.held, Function.update s.len b len i = s.len i := by
    intro i hi
    have hne : i ≠ b := fun heq => hheld (heq ▸ hi)
    exact Function.update_of_ne hne len s.len
  have hlen : ((s.mem b).take len).length = len := by
    rw [List.length_take, h.length_mem, Nat.min_eq_left hmtu]
  rw [mhiDlXferCb_good hb (by decide) h1 hmtu, next_eq hlt]
  by_cases hcp : c.copies
  · have hnil := h.copies hcp
    have hq : queueTransfer c rest (c.prevTrb b) = some (rest ++ [c.prevTrb b]) := if_pos hroom
    rw [if_pos hcp, if_pos hcp, if_pos hcp, hq, Option.getD_some]
    refine ⟨h.received hm ?_ ?_ fun _ => ?_, rfl, rfl, rfl, ?_, rfl⟩
    · exact ⟨by rw [UciDev.lenOf, hlen]; omega, Nat.le_refl _⟩
    · exact List.take_length
    · simp [hnil, UciBuf.nrTrb?]
    · rw [held_received, hnil]
      rfl
  · rw [if_neg hcp, if_neg hcp, if_neg hcp]
    refine ⟨h.received hm ?_ ?_ fun h' => absurd h' hcp, rfl, rfl, rfl, held_received .., rfl⟩
    · simpa [UciDev.lenOf, UciDev.dataOf, Uci.received, h.length_mem] using ⟨h1, hmtu⟩
    · simp [UciDev.payload, UciDev.lenOf, UciDev.dataOf, Uci.received]

theorem Inv.sameRow (h : Inv c s r) {s' : UciDev} (hs : SameRow s s')
    (hd : Holds c s' s.completed.flatten) : Inv c s' r where
  toHolds := by
    rw [hs.completed]
    exact hd
  lt := h.lt
  row := by
    rw [hs.held, hs.ring]
    exact h.row
  nrTrb := by
    rw [hs.nrTrb, hs.held]
    exact h.nrTrb
  rxError := hs.rxError.trans h.rxError

theorem Inv.room (h : Inv c s r) (hheld : s.held ≠ []) : s.ring.length < c.nrFree := by
  have hlen := h.length
  have hpos := List.length_pos_of_ne_nil hheld
  omega

/-- A buffer that is read to its end is let go, and if it is one of the channel, the row moves on.
-/
theorem Inv.recycle (h : Inv c s r) {b : UciBuf} {data : Bytes} (hc : s.curBuf = some b)
    (hr : s.reader = some (.copied data)) : ∃ r', Inv c (recycle c s b data) r' := by
  have hd := h.toHolds.recycle hc hr h.room
  rcases recycle_cases hc data h.room with hsame | ⟨nrTrb, hheld, hring, hnr, hrx, hcomp⟩
  · exact ⟨r, h.sameRow hsame hd⟩
  · have hrow := h.row
    rw [hheld, List.cons_append] at hrow
    obtain ⟨rfl, hrot⟩ := window_rotate h.lt hrow
    refine ⟨Ring.succ c.nrTrbs nrTrb, hcomp ▸ hd, Ring.succ_lt (by simp [Cfg.nrTrbs]), ?_, ?_,
      hrx.trans h.rxError⟩
    · rw [← hrot, hring, List.append_assoc]
    · have hlen := h.length
      have hexp := h.nrTrb
      rw [hheld, List.length_cons] at hlen hexp
      rw [hnr, hexp, Ring.pos_succ h.lt (by unfold Cfg.nrTrbs; omega)]

/-- The first buffer that is queued is the one that is expected. -/
theorem Inv.head (h : Inv c s r) {b : ℕ} {rest : List ℕ} (hring : s.ring = b :: rest) :
    b = s.nrTrb ∧ b < c.nrTrbs ∧ b ∉ s.held ∧ rest.length < c.nrFree := by
  have hrow := h.row
  have hlength := h.length
  rw [hring] at hrow hlength
  rw [List.length_cons] at hlength
  have hbpos : b = s.nrTrb := (Ring.window_eq_append_cons hrow).trans h.nrTrb.symm
  refine ⟨hbpos, ?_, fun hb => ?_, by omega⟩
  · rw [hbpos, h.nrTrb]
    exact Ring.pos_lt h.lt (by unfold Cfg.nrTrbs; omega)
  · exact (List.nodup_append.1 h.nodup).2.2 b hb b (by simp [hring]) rfl

/-- A completion: the buffer is copied and the row moves on, or it is handed to the reader. -/
theorem Inv.complete (h : Inv c s r) {b len : ℕ} {rest : List ℕ} (hring : s.ring = b :: rest)
    (h1 : 1 ≤ len) (hmtu : len ≤ c.mtu) :
    ∃ r', Inv c (mhiDlXferCb c (s.completes b rest len) b 0 len) r' := by
  obtain ⟨hbpos, hblt, hbheld, hroom⟩ := h.head hring
  obtain ⟨hd, hnr, hrx, hcomp, hrest⟩ := h.toHolds.complete hbpos hblt hbheld hroom h1 hmtu
  have hstream : s.completed.flatten ++ (s.mem b).take len
      = (s.completed ++ [(s.mem b).take len]).flatten := by
    rw [List.flatten_append, List.flatten_singleton]
  rw [hstream, ← hcomp] at hd
  have hrow := h.row
  have hlength := h.length
  rw [hring] at hrow hlength
  split_ifs at hrest with hcp <;> obtain ⟨hheld', hring'⟩ := hrest
  · have hheld := h.copies hcp
    rw [hheld, List.nil_append] at hrow
    obtain ⟨rfl, hrot⟩ := window_rotate h.lt hrow
    have hlt : Ring.succ c.nrTrbs b < c.nrTrbs := Ring.succ_lt (by simp [Cfg.nrTrbs])
    refine ⟨Ring.succ c.nrTrbs b, hd, hlt, ?_, ?_, hrx.trans h.rxError⟩
    · rw [hheld', hring', List.nil_append, hrot]
    · rw [hheld', hnr]
      exact (Ring.pos_zero hlt).symm
  · refine ⟨r, hd, h.lt, ?_, ?_, hrx.trans h.rxError⟩
    · rw [hheld', hring', List.append_assoc]
      exact hrow
    · rw [List.length_cons] at hlength
      rw [hheld', hnr, List.length_append, List.length_singleton, hbpos, h.nrTrb,
        Ring.succ_pos h.lt (by unfold Cfg.nrTrbs; omega)]

/-! ## Runs -/

/-- What a step does: the modem writes, or is done with a buffer; the reader goes on with the
buffers that it has; or it is done with one. -/
theorem step_cases {i : Input} {s' : UciDev} (hs : step c s i = some s') :
    (∃ k data b, i = .dma k data ∧ s.ring[k]? = some b ∧ data.length = c.mtu
      ∧ s' = { s with mem := Function.update s.mem b data })
    ∨ (∃ status len b rest, i = .complete status len ∧ s.ring = b :: rest
      ∧ s' = mhiDlXferCb c (s.completes b rest len) b status len)
    ∨ ((∀ status len, i ≠ .complete status len) ∧ SameRow s s'
      ∧ ∀ stream, Holds c s stream → Holds c s' stream)
    ∨ ∃ b data, i = .finish ∧ s.curBuf = some b ∧ s.reader = some (.copied data)
      ∧ s' = recycle c s b data := by
  cases i with
  | dma k data =>
    simp only [step] at hs
    split at hs
    · rename_i b hb
      obtain ⟨hdata, hs⟩ := Option.ite_none_right_eq_some.1 hs
      cases hs
      exact .inl ⟨k, data, b, rfl, hb, hdata, rfl⟩
    · simp at hs
  | complete status len =>
    simp only [step] at hs
    split at hs
    · rename_i b rest hring
      cases hs
      exact .inr (.inl ⟨status, len, b, rest, rfl, hring, rfl⟩)
    · simp at hs
  | read count nonblock =>
    obtain ⟨hr, hs⟩ := Option.ite_none_right_eq_some.1 hs
    cases hs
    exact .inr (.inr (.inl ⟨nofun, sameRow_readStart s count nonblock,
      fun _ h => h.readStart hr count nonblock⟩))
  | signal =>
    simp only [step] at hs
    split at hs
    · rename_i count hr
      obtain ⟨-, hs⟩ := Option.ite_none_right_eq_some.1 hs
      cases hs
      exact .inr (.inr (.inl ⟨nofun, ⟨rfl, rfl, rfl, rfl, rfl⟩,
        fun _ h => h.error (by simp [hr]) _⟩))
    · simp at hs
  | wake =>
    simp only [step] at hs
    split at hs
    · rename_i count hr
      obtain ⟨-, hs⟩ := Option.ite_none_left_eq_some.1 hs
      cases hs
      exact .inr (.inr (.inl ⟨nofun, ⟨rfl, rfl, rfl, rfl, rfl⟩,
        fun _ h => h.setReader (by simp [hr]) _ (by simp)⟩))
    · simp at hs
  | take =>
    simp only [step] at hs
    split at hs
    · rename_i count hr
      cases hs
      exact .inr (.inr (.inl ⟨nofun, sameRow_takeBuf s count,
        fun _ h => h.takeBuf (by simp [hr]) count⟩))
    · simp at hs
  | copy =>
    simp only [step] at hs
    split at hs
    · rename_i count b hr hc
      cases hs
      exact .inr (.inr (.inl ⟨nofun, ⟨rfl, rfl, rfl, rfl, rfl⟩, fun _ h => h.copyToUser hc hr⟩))
    · simp at hs
  | finish =>
    simp only [step] at hs
    split at hs
    · rename_i data b hr hc
      cases hs
      exact .inr (.inr (.inr ⟨b, data, rfl, hc, hr, rfl⟩))
    · simp at hs

theorem inv_step {i : Input} {s' : UciDev} (h : Inv c s r) (hi : CompletesWell c i)
    (hs : step c s i = some s') : ∃ r', Inv c s' r' := by
  rcases step_cases hs with ⟨k, data, b, rfl, hb, hdata, rfl⟩
    | ⟨status, len, b, rest, rfl, hring, rfl⟩ | ⟨-, hsame, hd⟩ | ⟨b, data, rfl, hc, hr, rfl⟩
  · have hfree : b ∉ s.held := fun hheld =>
      (List.nodup_append.1 h.nodup).2.2 b hheld b (List.mem_of_getElem? hb) rfl
    exact ⟨r, h.sameRow ⟨rfl, rfl, rfl, rfl, rfl⟩ (h.toHolds.dma hfree hdata)⟩
  · obtain ⟨rfl, h1, hmtu⟩ := hi
    exact h.complete hring h1 hmtu
  · exact ⟨r, h.sameRow hsame (hd _ h.toHolds)⟩
  · exact h.recycle hc hr

theorem inv_exec {is : List Input} (hm : Runs.Meets (step c) (fun _ => CompletesWell c)
    (start c) is)
    (h : Runs.exec (step c) (start c) is = some s) : ∃ r, Inv c s r :=
  Runs.exec_inv (I := fun s => ∃ r, Inv c s r) (fun _ _ _ ⟨_, hI⟩ hi hs => inv_step hI hi hs)
    ⟨0, Inv.start⟩ hm h

/-- The reads return the stream of what the modem has sent, and no buffer is queued twice or while
it is still read. -/
theorem reads_in_order {is : List Input}
    (hm : Runs.Meets (step c) (fun _ => CompletesWell c) (start c) is)
    (h : Runs.exec (step c) (start c) is = some s) : s.Right := by
  obtain ⟨r, hI⟩ := inv_exec hm h
  exact hI.right

/-- Three buffers of two bytes, two of which the ring takes. -/
def smallChan : Cfg where
  nrFree := 2
  mtu := 2
  copies := false
  mem _ := [0, 0]
  nrFree_pos := Nat.two_pos
  length_mem _ := rfl

/-- Two buffers complete, the second one between the sections of a call, and are read in parts. -/
def readRun : List Input :=
  [.dma 0 [1, 2], .read 1 false, .complete 0 2, .wake, .take, .dma 0 [3, 4], .copy, .complete 0 1,
    .finish, .read 5 true, .copy, .finish, .read 5 true, .copy, .finish, .dma 1 [5, 6]]

theorem readRun_in_order : ∃ s, Runs.exec (step smallChan) (start smallChan) readRun = some s
    ∧ s.returned = [1, 2, 3] ∧ s.Right := by
  have hm : Runs.Meets (step smallChan) (fun _ => CompletesWell smallChan) (start smallChan)
      readRun := by
    simp [readRun, Runs.Meets, CompletesWell, smallChan]
  exact ⟨_, rfl, rfl, reads_in_order hm rfl⟩

end Uci

end BananaWrt
