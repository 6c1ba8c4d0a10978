import BananaWrt.UlAgg
import BananaWrt.Lib.Run

/-!
# Uplink aggregation keeps every packet

A section takes the packet of its call and what is pending, and what it releases, leaves pending and
leaves in hand is the same packets in the same order (`newPacket_spec`). A call that keeps its
packet in hand has released `agg_skb`, and only a call makes a new one: its second section is its
last.
-/

namespace BananaWrt

namespace UlAgg

open Bytes

/-- What `agg_skb` holds. -/
def Priv.pending (priv : Priv) : List Bytes := (priv.aggSkb.map AggSkb.puts).getD []

/-- `agg_skb` is not empty and not full, and has room for `max_size` bytes. -/
structure AggSkb.Sound (ctx : TxAggCtx) (agg : AggSkb) : Prop where
  pos : 0 < agg.puts.length
  datagrams : agg.puts.length < ctx.maxDatagrams.toNat
  size : agg.data.length ≤ ctx.maxSize.toNat
  room : ctx.maxSize.toNat ≤ agg.room
  small : ctx.maxSize.toNat < 2 ^ 31

structure Priv.Sound (ctx : TxAggCtx) (priv : Priv) : Prop where
  count : priv.aggCount.toNat = priv.pending.length
  agg : ∀ agg ∈ priv.aggSkb, agg.Sound ctx

theorem sound_released (ctx : TxAggCtx) (now : Timespec) : (⟨none, 0, now⟩ : Priv).Sound ctx :=
  ⟨rfl, by simp⟩

theorem aggCount_eq_zero_iff {ctx : TxAggCtx} {priv : Priv} (h : priv.Sound ctx) :
    priv.aggSkb = none ↔ priv.aggCount = 0 := by
  have hcount := h.count
  rw [← UInt32.toNat_inj, hcount]
  unfold Priv.pending
  rcases hagg : priv.aggSkb with _ | agg
  · exact iff_of_true rfl rfl
  · have hpos := (h.agg agg hagg).pos
    refine iff_of_false (by simp) ?_
    change agg.puts.length ≠ 0
    omega

theorem data_puts (puts : List Bytes) (b : Bytes) (room : ℕ) :
    (⟨puts ++ [b], room⟩ : AggSkb).data.length = (⟨puts, room⟩ : AggSkb).data.length + b.length := by
  unfold AggSkb.data
  rw [List.flatten_append, List.length_append, List.flatten_singleton]

/-- The count after one more packet, which is at most `max_datagrams`. -/
theorem toNat_succ {n m : UInt32} (h : n.toNat < m.toNat) : (n + 1).toNat = n.toNat + 1 := by
  have hm := m.toNat_lt
  rw [UInt32.toNat_add]
  change (n.toNat + 1) % 2 ^ 32 = _
  omega

/-- The sum of the lengths does not wrap. -/
theorem ofNat_add_lt_iff {a b : ℕ} {m : UInt32} (h : a + b < 2 ^ 32) :
    UInt32.ofNat a + UInt32.ofNat b < m ↔ a + b < m.toNat := by
  rw [UInt32.lt_iff_toNat_lt, UInt32.toNat_add, UInt32.toNat_ofNat', UInt32.toNat_ofNat',
    Nat.mod_eq_of_lt (by omega : a < 2 ^ 32), Nat.mod_eq_of_lt (by omega : b < 2 ^ 32),
    Nat.mod_eq_of_lt h]

/-- What a section does with a packet and what is pending. -/
structure Outcome.Sound (ctx : TxAggCtx) (priv : Priv) (p : Packet) (o : Outcome) : Prop where
  sound : o.priv.Sound ctx
  kept : o.aggSkb.toList.flatten ++ o.priv.pending ++ (if o.retry then [p.data] else [])
    = priv.pending ++ [p.data]
  datagrams : ∀ b ∈ o.aggSkb, b.length ≤ ctx.maxDatagrams.toNat
  retry : o.retry = true → priv.aggSkb ≠ none ∧ o.priv.aggSkb = none

section Section

variable {ctx : TxAggCtx} {env : Env} {p : Packet} {xmitMore : Bool} {priv : Priv} {agg : AggSkb}

theorem appendSection_spec (h : priv.Sound ctx) (hagg : priv.aggSkb = some agg)
    (hlen : p.data.length ≤ ctx.maxSize.toNat) :
    ∃ o, appendSection ctx env p xmitMore priv agg = some o ∧ o.Sound ctx priv p := by
  obtain ⟨hpos, hdatagrams, hsize, hroom, hsmall⟩ := h.agg agg hagg
  have hpending : priv.pending = agg.puts := by
    unfold Priv.pending
    rw [hagg]
    rfl
  have hcount : priv.aggCount.toNat = agg.puts.length := by rw [h.count, hpending]
  unfold appendSection
  dsimp only
  by_cases hfits : UInt32.ofNat agg.data.length + UInt32.ofNat p.data.length < ctx.maxSize
  · rw [if_pos hfits]
    rw [ofNat_add_lt_iff (by omega)] at hfits
    have hput : agg.skbPut p.data = some ⟨agg.puts ++ [p.data], agg.room⟩ := by
      unfold AggSkb.skbPut
      rw [if_pos (by omega)]
    have hsucc := toNat_succ (n := priv.aggCount) (m := ctx.maxDatagrams) (by omega)
    have hputs : (agg.puts ++ [p.data]).length = agg.puts.length + 1 := by
      rw [List.length_append, List.length_singleton]
    rw [hput, Option.bind_eq_bind, Option.bind_some]
    split_ifs with hready
    · refine ⟨_, rfl, sound_released ctx env.now, ?_, ?_, by simp⟩
      · rw [hpending]
        simp [Priv.pending]
      · rintro b ⟨⟩
        change (agg.puts ++ [p.data]).length ≤ _
        omega
    · -- the buffer is not yet full, as the count is not `max_datagrams`
      have hne : priv.aggCount + 1 ≠ ctx.maxDatagrams := by
        intro heq
        rw [heq] at hready
        simp at hready
      have hne' : agg.puts.length + 1 ≠ ctx.maxDatagrams.toNat := by
        intro heq
        exact hne (UInt32.toNat_inj.1 (by omega))
      refine ⟨_, rfl, ⟨?_, ?_⟩, ?_, by simp, by simp⟩
      · change (priv.aggCount + 1).toNat = (agg.puts ++ [p.data]).length
        omega
      · rintro agg' ⟨⟩
        have hdata := data_puts agg.puts p.data agg.room
        refine ⟨?_, ?_, ?_, hroom, hsmall⟩
        · change 0 < (agg.puts ++ [p.data]).length
          omega
        · change (agg.puts ++ [p.data]).length < _
          omega
        · rw [hdata]
          exact Nat.le_of_lt hfits
      · rw [hpending]
        simp [Priv.pending]
  · rw [if_neg hfits]
    refine ⟨_, rfl, sound_released ctx env.now, ?_, ?_, ?_⟩
    · rw [hpending]
      simp [Priv.pending]
    · rintro b ⟨⟩
      exact Nat.le_of_lt hdatagrams
    · intro
      rw [hagg]
      exact ⟨Option.some_ne_none agg, rfl⟩

theorem startSection_spec (h : priv.Sound ctx) (hagg : priv.aggSkb = none)
    (hlen : p.data.length ≤ ctx.maxSize.toNat) (hmax : 1 < ctx.maxDatagrams.toNat) :
    ∃ o, startSection ctx env p xmitMore priv = some o ∧ o.Sound ctx priv p ∧ o.retry = false := by
  have hpending : priv.pending = [] := by
    unfold Priv.pending
    rw [hagg]
    rfl
  have hcount : priv.aggCount.toNat = 0 := by rw [h.count, hpending, List.length_nil]
  -- the packet alone is released
  have halone : (⟨{ priv with aggTime := env.now }, some [p.data], false⟩ : Outcome).Sound ctx
      priv p := by
    refine ⟨⟨h.count, h.agg⟩, ?_, ?_, by simp⟩
    · change [p.data] ++ priv.pending ++ [] = _
      rw [hpending]
      rfl
    · rintro b ⟨⟩
      exact Nat.le_of_lt hmax
  unfold startSection
  dsimp only
  split_ifs with hready
  · exact ⟨_, rfl, halone, rfl⟩
  · rcases halloc : allocSkb ctx.maxSize env.alloc with _ | fresh
    · exact ⟨_, rfl, halone, rfl⟩
    · unfold allocSkb at halloc
      split_ifs at halloc with hsmall
      obtain ⟨extra, -, rfl⟩ := Option.map_eq_some_iff.1 halloc
      have hput : (⟨[], ctx.maxSize.toNat + extra⟩ : AggSkb).skbPut p.data
          = some ⟨[p.data], ctx.maxSize.toNat + extra⟩ := by
        unfold AggSkb.skbPut
        rw [if_pos (by simp only [AggSkb.data, List.flatten_nil, List.length_nil]; omega)]
        rfl
      dsimp only
      rw [hput, Option.bind_eq_bind, Option.bind_some]
      have hsucc := toNat_succ (n := priv.aggCount) (m := ctx.maxDatagrams) (by omega)
      refine ⟨_, rfl, ⟨⟨?_, ?_⟩, ?_, by simp, by simp⟩, rfl⟩
      · change (priv.aggCount + 1).toNat = 1
        omega
      · rintro agg ⟨⟩
        refine ⟨Nat.one_pos, hmax, ?_, Nat.le_add_right _ _, hsmall⟩
        simpa [AggSkb.data] using hlen
      · rw [hpending]
        rfl

theorem newPacket_spec (env : Env) (xmitMore : Bool) (h : priv.Sound ctx)
    (hlen : p.data.length ≤ ctx.maxSize.toNat) (hmax : 1 < ctx.maxDatagrams.toNat) :
    ∃ o, newPacket ctx env p xmitMore priv = some o ∧ o.Sound ctx priv p := by
  unfold newPacket
  rcases hagg : priv.aggSkb with _ | agg
  · obtain ⟨o, ho, hsound, -⟩ := startSection_spec h hagg hlen hmax
    exact ⟨o, ho, hsound⟩
  · exact appendSection_spec h hagg hlen

theorem rmnetUsbTxAggWork_spec (h : priv.Sound ctx) (now : Timespec) :
    (rmnetUsbTxAggWork now priv).1.Sound ctx
      ∧ (rmnetUsbTxAggWork now priv).2.toList.flatten ++ (rmnetUsbTxAggWork now priv).1.pending
        = priv.pending
      ∧ (∀ b ∈ (rmnetUsbTxAggWork now priv).2, b.length ≤ ctx.maxDatagrams.toNat)
      ∧ (priv.aggSkb = none → (rmnetUsbTxAggWork now priv).1.aggSkb = none) := by
  unfold rmnetUsbTxAggWork
  rcases hagg : priv.aggSkb with _ | agg
  · exact ⟨h, rfl, by simp, fun _ => hagg⟩
  · refine ⟨sound_released ctx now, ?_, ?_, fun _ => rfl⟩
    · unfold Priv.pending
      rw [hagg]
      simp
    · rintro b ⟨⟩
      exact Nat.le_of_lt (h.agg agg hagg).datagrams

end Section

/-- The packet that a call has in hand. -/
def St.inHand (s : St) : List Bytes := (s.call.map (·.packet.data)).toList

/-- The first section of a call may find an `agg_skb`, the second does not. -/
structure Call.Sound (ctx : TxAggCtx) (priv : Priv) (c : Call) : Prop where
  on : 1 < ctx.maxDatagrams.toNat
  size : c.packet.data.length ≤ ctx.maxSize.toNat
  sections : c.sections = 0 ∨ (c.sections = 1 ∧ priv.aggSkb = none)

structure Inv (s : St) : Prop where
  running : s.panicked = false
  on : 1 ≤ s.ctx.maxDatagrams.toNat
  priv : s.priv.Sound s.ctx
  call : ∀ c ∈ s.call, c.Sound s.ctx s.priv
  kept : s.released.flatten ++ s.priv.pending ++ s.inHand = s.submitted
  datagrams : ∀ b ∈ s.released, b.length ≤ s.ctx.maxDatagrams.toNat

/-- No packet is longer than `max_size`. -/
def Fits (s : St) : Input → Prop
  | .txAgg p _ => p.data.length ≤ s.ctx.maxSize.toNat
  | _ => True

instance (s : St) (i : Input) : Decidable (Fits s i) := by
  cases i <;> unfold Fits <;> infer_instance

/-- No packet that may be put into a buffer is longer than `max_size`. -/
def Enters (s : St) : Input → Prop
  | .txAgg p _ => s.ctx.maxDatagrams ≠ 1 → p.data.length ≤ s.ctx.maxSize.toNat
  | _ => True

theorem Fits.enters {s : St} : ∀ {i : Input}, Fits s i → Enters s i
  | .txAgg _ _, h => fun _ => h
  | .newPacket _, _ | .aggWork _, _ | .settingStore _ _, _ => trivial

theorem inv_initial (now : Timespec) : Inv (initial now) where
  running := rfl
  on := Nat.le_refl 1
  priv := sound_released _ now
  call := by simp [initial]
  kept := rfl
  datagrams := by simp [initial]

section Step

variable {s : St}

/-- Without aggregation nothing is pending. -/
theorem aggSkb_eq_none (h : Inv s) (hmax : s.ctx.maxDatagrams = 1) :
    s.priv.aggSkb = none ∧ s.call = none := by
  constructor
  · refine Option.eq_none_iff_forall_ne_some.2 fun agg hagg => ?_
    have hsound := h.priv.agg agg hagg
    have hpos := hsound.pos
    have hlt := hsound.datagrams
    rw [hmax] at hlt
    change agg.puts.length < 1 at hlt
    omega
  · refine Option.eq_none_iff_forall_ne_some.2 fun c hc => ?_
    have hon := (h.call c hc).on
    rw [hmax] at hon
    exact absurd hon (by decide)

theorem inv_txAgg (h : Inv s) {p : Packet} {xmitMore : Bool} (hcall : s.call = none)
    (hlen : s.ctx.maxDatagrams ≠ 1 → p.data.length ≤ s.ctx.maxSize.toNat) :
    Inv (s.txAgg p xmitMore) := by
  have hkept := h.kept
  unfold St.inHand at hkept
  rw [hcall] at hkept
  change s.released.flatten ++ s.priv.pending ++ [] = s.submitted at hkept
  rw [List.append_nil] at hkept
  unfold St.txAgg
  split_ifs with hmax
  · obtain ⟨hagg, -⟩ := aggSkb_eq_none h hmax
    have hpending : s.priv.pending = [] := by
      unfold Priv.pending
      rw [hagg]
      rfl
    refine ⟨h.running, h.on, h.priv, h.call, ?_, ?_⟩
    · unfold St.inHand
      dsimp only
      rw [hcall, hpending, ← hkept, hpending]
      simp
    · intro b hb
      rcases List.mem_append.1 hb with hb | hb
      · exact h.datagrams b hb
      · rw [List.mem_singleton.1 hb]
        exact h.on
  · refine ⟨h.running, h.on, h.priv, ?_, ?_, h.datagrams⟩
    · rintro c ⟨⟩
      refine ⟨?_, hlen hmax, Or.inl rfl⟩
      have hon := h.on
      have hne : s.ctx.maxDatagrams.toNat ≠ 1 := fun heq => hmax (UInt32.toNat_inj.1 heq)
      change 1 < s.ctx.maxDatagrams.toNat
      omega
    · unfold St.inHand
      dsimp only
      rw [hkept]
      rfl

theorem inv_newPacket (h : Inv s) {c : Call} (hcall : s.call = some c) (env : Env) :
    Inv (s.newPacket c env) ∧ (c.sections = 1 → (s.newPacket c env).call = none) := by
  obtain ⟨hon, hsize, hsections⟩ := h.call c hcall
  obtain ⟨o, ho, hsound⟩ := newPacket_spec env c.xmitMore h.priv hsize hon
  have hkept := h.kept
  unfold St.inHand at hkept
  rw [hcall] at hkept
  unfold St.newPacket
  rw [ho]
  dsimp only
  refine ⟨⟨h.running, h.on, hsound.sound, ?_, ?_, ?_⟩, ?_⟩
  · intro c' hc'
    dsimp only at hc'
    split_ifs at hc' with hretry <;> cases hc'
    obtain ⟨hsome, hnone⟩ := hsound.retry hretry
    refine ⟨hon, hsize, Or.inr ⟨?_, hnone⟩⟩
    rcases hsections with h0 | ⟨-, hagg⟩
    · exact congrArg (· + 1) h0
    · exact absurd hagg hsome
  · have hhand : ((if o.retry then some { c with sections := c.sections + 1 } else none).map
        (·.packet.data)).toList = if o.retry then [c.packet.data] else [] := by
      split_ifs <;> rfl
    unfold St.inHand
    dsimp only
    rw [hhand, List.flatten_append, List.append_assoc, List.append_assoc,
      ← List.append_assoc o.aggSkb.toList.flatten, hsound.kept, ← List.append_assoc]
    exact hkept
  · intro b hb
    rcases List.mem_append.1 hb with hb | hb
    · exact h.datagrams b hb
    · exact hsound.datagrams b (Option.mem_toList.1 hb)
  · intro h1
    refine if_neg fun hretry => ?_
    rcases hsections with h0 | ⟨-, hagg⟩
    · omega
    · exact (hsound.retry hretry).1 hagg

theorem inv_aggWork (h : Inv s) (now : Timespec) : Inv (s.aggWork now) := by
  obtain ⟨hsound, hkept, hdatagrams, hnone⟩ := rmnetUsbTxAggWork_spec h.priv now
  unfold St.aggWork
  refine ⟨h.running, h.on, hsound, ?_, ?_, ?_⟩
  · intro c hc
    obtain ⟨hon, hsize, hsections⟩ := h.call c hc
    refine ⟨hon, hsize, ?_⟩
    rcases hsections with h0 | ⟨h1, hagg⟩
    · exact Or.inl h0
    · exact Or.inr ⟨h1, hnone hagg⟩
  · rw [← h.kept]
    unfold St.inHand
    dsimp only
    rw [List.flatten_append, List.append_assoc s.released.flatten, hkept]
  · intro b hb
    rcases List.mem_append.1 hb with hb | hb
    · exact h.datagrams b hb
    · exact hdatagrams b (Option.mem_toList.1 hb)

theorem inv_settingStore (h : Inv s) (maxDatagrams maxSize : UInt32) :
    Inv { s with ctx := qmaSettingStore s.ctx maxDatagrams maxSize } := by
  unfold qmaSettingStore
  split_ifs with hset
  · obtain ⟨hone, hlt⟩ := hset
    obtain ⟨hagg, hcall⟩ := aggSkb_eq_none h hone
    rw [UInt32.lt_iff_toNat_lt] at hlt
    change 1 < maxDatagrams.toNat at hlt
    refine ⟨h.running, Nat.le_of_lt hlt, ⟨h.priv.count, ?_⟩, ?_, h.kept, ?_⟩
    · dsimp only
      rw [hagg]
      simp
    · dsimp only
      rw [hcall]
      simp
    · intro b hb
      have hb' := h.datagrams b hb
      rw [hone] at hb'
      exact Nat.le_trans hb' (Nat.le_of_lt hlt)
  · exact h

end Step

theorem inv_step (s : St) (i : Input) (s' : St) (h : Inv s) (henters : Enters s i)
    (hs : step s i = some s') : Inv s' := by
  have hrunning := h.running
  cases i with
  | txAgg p xmitMore =>
    simp only [step, hrunning, Bool.false_eq_true, false_or, Option.ite_none_left_eq_some,
      Option.not_isSome_iff_eq_none] at hs
    obtain ⟨hcall, hs⟩ := hs
    cases hs
    exact inv_txAgg h hcall henters
  | newPacket env =>
    simp only [step, hrunning, Bool.false_eq_true, if_false] at hs
    obtain ⟨c, hcall, rfl⟩ := Option.map_eq_some_iff.1 hs
    exact (inv_newPacket h hcall env).1
  | aggWork now =>
    simp only [step, hrunning, Bool.false_eq_true, if_false] at hs
    cases hs
    exact inv_aggWork h now
  | settingStore maxDatagrams maxSize =>
    rw [step, if_neg (by rw [hrunning]; exact Bool.false_ne_true)] at hs
    cases hs
    exact inv_settingStore h maxDatagrams maxSize

/-- The buffers that have been released, then what is pending, then the packet in hand, are the
packets of all calls. A call is never stuck, and its second section is its last. -/
theorem run_keeps_packets {now : Timespec} {is : List Input} {s : St}
    (hfits : Runs.Meets step Fits (initial now) is) (hrun : Runs.exec step (initial now) is = some s) :
    s.released.flatten ++ s.priv.pending ++ s.inHand = s.submitted
      ∧ (s.priv.aggSkb = none ↔ s.priv.aggCount = 0)
      ∧ (∀ b ∈ s.released, b.length ≤ s.ctx.maxDatagrams.toNat)
      ∧ s.panicked = false
      ∧ ∀ c ∈ s.call, c.sections ≤ 1 ∧ ∀ env, ∃ s', step s (.newPacket env) = some s'
        ∧ s'.panicked = false ∧ (c.sections = 1 → s'.call = none) := by
  have h := Runs.exec_inv (fun s i s' h hfits => inv_step s i s' h hfits.enters) (inv_initial now)
    hfits hrun
  refine ⟨h.kept, aggCount_eq_zero_iff h.priv, h.datagrams, h.running, fun c hc => ⟨?_, ?_⟩⟩
  · rcases (h.call c hc).sections with h0 | ⟨h1, -⟩ <;> omega
  · intro env
    obtain ⟨hinv, hover⟩ := inv_newPacket h hc env
    refine ⟨s.newPacket c env, ?_, hinv.running, hover⟩
    rw [Option.mem_def] at hc
    simp only [step, h.running, Bool.false_eq_true, if_false, hc, Option.map_some]

/-- Three packets after aggregation has been turned on: the second does not fit behind the first,
the work item releases the second, and the third is left pending. -/
def threePackets : List Input :=
  let env : Env := ⟨⟨5, 0⟩, 1000000, 10000000, some 0⟩
  [.settingStore 4 8, .txAgg ⟨⟨[0, 0x81, 0, 1, 0x45], []⟩, 0x0800⟩ true, .newPacket env,
    .txAgg ⟨⟨[0, 0x81, 0, 2, 0x45, 1], []⟩, 0x0800⟩ true, .newPacket env, .newPacket env,
    .aggWork ⟨5, 0⟩, .txAgg ⟨⟨[0, 0x81, 0, 1, 0x46], []⟩, 0x0800⟩ true, .newPacket env]

theorem run_keeps_threePackets :
    ∃ s, Runs.exec step (initial ⟨5, 0⟩) threePackets = some s
      ∧ s.released.flatten ++ s.priv.pending ++ s.inHand = s.submitted
      ∧ s.released.length = 2 ∧ s.submitted.length = 3 := by
  have hrun : (Runs.exec step (initial ⟨5, 0⟩) threePackets).isSome := by decide
  obtain ⟨s, hs⟩ := Option.isSome_iff_exists.1 hrun
  refine ⟨s, hs, (run_keeps_packets (by decide) hs).1, ?_⟩
  have hlen : (Runs.exec step (initial ⟨5, 0⟩) threePackets).all
      (fun s => s.released.length = 2 ∧ s.submitted.length = 3) := by decide
  rw [hs] at hlen
  simpa using hlen

end UlAgg

end BananaWrt
