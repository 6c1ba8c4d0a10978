import BananaWrt.Proofs.MbimProxyLoop

/-!
# Answers to the clients of the MBIM proxy

A client's slot number is OR-ed into the top byte of its `TransactionId`. As long as the client
leaves that byte zero, the number and the id can both be read back from what the device echoes,
and the answer goes to the client that asked, with its own id, or to nobody once its slot is empty
(`delivered_to_sender`).
-/

namespace BananaWrt

namespace MbimProxy

open Bytes

/-- The id of a request as it is written to the device, from slot `i`. -/
def packed (i : Fin CM_MAX_CLIENT) (tid : ℕ) : ℕ := tid ||| (i + 1 : ℕ) <<< TID_SHIFT

theorem packed_shiftRight {i : Fin CM_MAX_CLIENT} {tid : ℕ} (h : tid < 2 ^ TID_SHIFT) :
    packed i tid >>> TID_SHIFT = i + 1 := by
  have h0 : tid >>> TID_SHIFT = 0 := by
    rw [Nat.shiftRight_eq_div_pow, Nat.div_eq_of_lt h]
  rw [packed, Nat.or_shiftLeft_shiftRight, h0, Nat.zero_or]

theorem packed_and_mask {i : Fin CM_MAX_CLIENT} {tid : ℕ} (h : tid < 2 ^ TID_SHIFT) :
    packed i tid &&& TID_MASK = tid := by
  have hmask : TID_MASK = 2 ^ TID_SHIFT - 1 := rfl
  rw [hmask, Nat.and_two_pow_sub_one_eq_mod, packed, Nat.or_shiftLeft_mod, Nat.mod_eq_of_lt h]

theorem packed_lt (i : Fin CM_MAX_CLIENT) {tid : ℕ} (h : tid < 2 ^ 32) : packed i tid < 2 ^ 32 := by
  refine Nat.or_lt_two_pow h ?_
  have hi : (i : ℕ) < 32 := i.isLt
  rw [Nat.shiftLeft_eq, TID_SHIFT]
  omega

theorem packed_ne_zero {i : Fin CM_MAX_CLIENT} {tid : ℕ} (h : tid < 2 ^ TID_SHIFT) :
    packed i tid ≠ 0 := by
  intro h0
  have := packed_shiftRight (i := i) h
  rw [h0, Nat.zero_shiftRight] at this
  omega

theorem handleClientRequest_live {cs : CmClients} (h : Slots cs) {i : Fin CM_MAX_CLIENT}
    (hi : (cs i).Live) (pdata : Bytes) (len : ℕ) :
    handleClientRequest cs (cs i).clientFd pdata len =
      if IsOpenClose pdata then
        [.client (cs i).clientFd (cs i).con (openDone (messageType pdata) (transactionId pdata))]
      else [.dev ((setTransactionId pdata (packed i (transactionId pdata))).take len)] := by
  unfold handleClientRequest
  rw [h.lookup hi]
  simp only [h.idx i hi, packed]

theorem record_live {w : World} (h : Slots w.cmClients) {i : Fin CM_MAX_CLIENT}
    (hi : (w.cmClients i).Live) (pdata : Bytes) (len : ℕ) :
    w.record (w.cmClients i).clientFd pdata len = w.requests ++
      if IsOpenClose pdata then []
      else [⟨(w.cmClients i).con, i, transactionId pdata,
        (setTransactionId pdata (packed i (transactionId pdata))).take len⟩] := by
  unfold World.record
  rw [h.lookup hi]
  simp only [handleClientRequest_live h hi]
  split_ifs <;> rfl

/-- The connections have different names, and a request's connection, while it is open, is in the
slot the request names. -/
structure Tracked (cs : CmClients) (nextCon : ℕ) (requests : List Request) : Prop where
  fresh : ∀ i, (cs i).Live → (cs i).con < nextCon
  cons : ∀ i j, (cs i).Live → (cs j).Live → (cs i).con = (cs j).con → i = j
  past : ∀ q ∈ requests, q.con < nextCon
  slot : ∀ q ∈ requests, ∀ i, (cs i).Live → (cs i).con = q.con → i = q.slot
  sent : ∀ q ∈ requests, sizeofHeader ≤ q.sent.length →
    transactionId q.sent = packed q.slot q.tid

section Tracked

variable {cs : CmClients} {nextCon : ℕ} {requests : List Request}

theorem Tracked.disconnect (h : Tracked cs nextCon requests) (hs : Slots cs)
    {i : Fin CM_MAX_CLIENT} (hi : (cs i).Live) :
    Tracked (handleClientDisconnect cs (cs i).clientFd) nextCon requests := by
  rw [handleClientDisconnect_live hs hi]
  have hlive : ∀ j, (Function.update cs i { cs i with clientFd := -1 } j).Live →
      Function.update cs i { cs i with clientFd := -1 } j = cs j ∧ (cs j).Live := by
    intro j hj
    by_cases hji : j = i
    · rw [hji, Function.update_self] at hj
      simp [CmClient.Live] at hj
    · rw [Function.update_of_ne hji] at hj ⊢
      exact ⟨rfl, hj⟩
  refine ⟨fun j hj => ?_, fun j k hj hk hjk => ?_, h.past, fun q hq j hj hjq => ?_, h.sent⟩
  · obtain ⟨h1, h2⟩ := hlive j hj
    rw [h1]
    exact h.fresh j h2
  · obtain ⟨h1, h2⟩ := hlive j hj
    obtain ⟨h3, h4⟩ := hlive k hk
    rw [h1, h3] at hjk
    exact h.cons j k h2 h4 hjk
  · obtain ⟨h1, h2⟩ := hlive j hj
    rw [h1] at hjq
    exact h.slot q hq j h2 hjq

theorem Tracked.connect (h : Tracked cs nextCon requests) (cfd : ℤ) :
    Tracked (handleClientConnect cs cfd nextCon) (nextCon + 1) requests := by
  have hpast : ∀ q ∈ requests, q.con < nextCon + 1 := fun q hq => Nat.lt_succ_of_lt (h.past q hq)
  rcases handleClientConnect_cases cs cfd nextCon with heq | ⟨i, -, heq⟩
  · rw [heq]
    exact ⟨fun j hj => Nat.lt_succ_of_lt (h.fresh j hj), h.cons, hpast, h.slot, h.sent⟩
  rw [heq]
  have hlive : ∀ j, (Function.update cs i ⟨cfd, i + 1, nextCon⟩ j).Live →
      (j = i ∧ (Function.update cs i ⟨cfd, i + 1, nextCon⟩ j).con = nextCon)
        ∨ ((cs j).Live ∧ (Function.update cs i ⟨cfd, i + 1, nextCon⟩ j).con = (cs j).con
          ∧ (cs j).con < nextCon) := by
    intro j hj
    by_cases hji : j = i
    · rw [hji, Function.update_self]
      exact .inl ⟨rfl, rfl⟩
    · rw [Function.update_of_ne hji] at hj ⊢
      exact .inr ⟨hj, rfl, h.fresh j hj⟩
  refine ⟨fun j hj => ?_, fun j k hj hk hjk => ?_, hpast, fun q hq j hj hjq => ?_, h.sent⟩
  · rcases hlive j hj with ⟨-, h1⟩ | ⟨-, h1, h2⟩ <;> omega
  · rcases hlive j hj with ⟨rfl, h1⟩ | ⟨h1, h2, h3⟩ <;>
      rcases hlive k hk with ⟨rfl, h4⟩ | ⟨h4, h5, h6⟩
    · rfl
    · omega
    · omega
    · exact h.cons j k h1 h4 (by omega)
  · have := h.past q hq
    rcases hlive j hj with ⟨-, h1⟩ | ⟨h1, h2, -⟩
    · omega
    · exact h.slot q hq j h1 (by omega)

theorem Tracked.request (h : Tracked cs nextCon requests) {i : Fin CM_MAX_CLIENT}
    (hi : (cs i).Live) (stale chunk : Bytes) :
    Tracked cs nextCon (requests ++ [⟨(cs i).con, i, transactionId (overlay chunk stale),
      (setTransactionId (overlay chunk stale)
        (packed i (transactionId (overlay chunk stale)))).take chunk.length⟩]) := by
  refine ⟨h.fresh, h.cons, fun q hq => ?_, fun q hq j hj hjq => ?_, fun q hq hlen => ?_⟩ <;>
    rcases List.mem_append.1 hq with hq | hq
  · exact h.past q hq
  · rw [List.mem_singleton.1 hq]
    exact h.fresh i hi
  · exact h.slot q hq j hj hjq
  · rw [List.mem_singleton.1 hq] at hjq ⊢
    exact h.cons j i hj hi hjq
  · exact h.sent q hq hlen
  · rw [List.mem_singleton.1 hq] at hlen ⊢
    have hchunk : 8 + 4 ≤ chunk.length := by
      simp only [sizeofHeader, List.length_take] at hlen
      omega
    simp only [setTransactionId, take_putLe32_overlay hchunk, transactionId]
    rw [le32_putLe32 hchunk, Nat.mod_eq_of_lt (packed_lt i (le32_lt _ _))]

end Tracked

theorem step_tracked {w w' : World} {i : Input} (h : Sound w)
    (ht : Tracked w.cmClients w.nextCon w.requests) (hs : step w i = some w')
    (hx : w'.exited = none) : Tracked w'.cmClients w'.nextCon w'.requests := by
  obtain ⟨-, ⟨ok, rfl, -, rfl⟩ | ⟨fd, rest, e, rfl, htodo, he⟩⟩ := step_cases hs
  · cases ok with
    | true => exact ht
    | false => simp [World.error] at hx
  have hclient := h.client fd (by simp [htodo])
  cases e with
  | quiet =>
    subst he
    exact ht
  | hangup =>
    rcases he with ⟨-, rfl⟩ | ⟨-, -, rfl⟩ | ⟨h1, h2, rfl⟩
    · simp [World.error] at hx
    · exact ht
    · obtain ⟨j, hj, rfl⟩ := hclient h1 h2
      exact ht.disconnect h.slots hj
  | accepted cfd =>
    obtain ⟨-, -, rfl⟩ := he
    exact ht.connect cfd
  | noData len =>
    obtain ⟨-, -, ⟨-, rfl⟩ | ⟨-, rfl⟩⟩ := he
    · simp [World.error] at hx
    · simp at hx
  | data stale chunk made =>
    obtain ⟨h2, -, -, ⟨-, rfl⟩ | ⟨h1, rfl⟩⟩ := he
    · unfold World.deviceData at hx ⊢
      split_ifs at hx ⊢
      · simp [World.error] at hx
      · exact ht
      · exact ht
      · exact ht
    · obtain ⟨j, hj, rfl⟩ := hclient h1 h2
      show Tracked w.cmClients w.nextCon (w.record _ _ _)
      rw [record_live h.slots hj]
      split_ifs
      · rw [List.append_nil]
        exact ht
      · exact ht.request hj stale chunk

theorem tracked_of_run {devFd : ℤ} (hdev : 0 < devFd) {is : List Input} {w : World}
    (hr : run devFd is = some w) :
    w.exited = none → Sound w ∧ Tracked w.cmClients w.nextCon w.requests := by
  refine Runs.exec_keeps (I := fun w => w.exited = none →
    Sound w ∧ Tracked w.cmClients w.nextCon w.requests) (fun w i w' hI hs hx => ?_) (fun _ => ?_) hr
  · obtain ⟨h1, h2⟩ := hI (step_cases hs).1
    exact ⟨step_sound h1 hs hx, step_tracked h1 h2 hs hx⟩
  · refine ⟨sound_init hdev, ?_, ?_, ?_, ?_, ?_⟩ <;> simp [World.init, CmClient.Live]

theorem handleDeviceResponse_packed {cs : CmClients} (h : Slots cs) {i : Fin CM_MAX_CLIENT}
    {tid : ℕ} (htid : tid < 2 ^ TID_SHIFT) {r : Bytes} (hr : sizeofHeader ≤ r.length)
    (hecho : transactionId r = packed i tid) (stale : Bytes) :
    handleDeviceResponse cs (overlay r stale) r.length =
      if (cs i).Live then [.client (cs i).clientFd (cs i).con (setTransactionId r tid)]
      else [] := by
  have hr' : 8 + 4 ≤ r.length := hr
  have hid : transactionId (overlay r stale) = packed i tid := by
    rw [← hecho]
    exact le32_overlay hr'
  have hout : (setTransactionId (overlay r stale) tid).take r.length = setTransactionId r tid :=
    take_putLe32_overlay hr' stale tid
  unfold handleDeviceResponse
  rw [hid, if_neg (packed_ne_zero htid), packed_shiftRight htid, packed_and_mask htid, hout]
  split_ifs with hi
  · rw [firstClient_eq (i := i) ⟨h.idx i hi, hi⟩]
    rintro j ⟨h1, h2⟩
    have := h.idx j h2
    exact Fin.ext (by omega)
  · rw [firstClient_none.2]
    rintro j ⟨h1, h2⟩
    have := h.idx j h2
    have hji : j = i := Fin.ext (by omega)
    exact hi (hji ▸ h2)

/-- Whenever the device answers a request whose `TransactionId` fits in 24 bits, the answer is
given to the connection that sent the request, with the id that the client had put in. Once that
connection is closed it is given to nobody while the slot is empty. -/
theorem delivered_to_sender (devFd : ℤ) (hdev : 0 < devFd) (is : List Input) {w : World}
    (hr : run devFd is = some w) (hx : w.exited = none) {q : Request} (hq : q ∈ w.requests)
    (hlen : sizeofHeader ≤ q.sent.length) (htid : q.tid < 2 ^ TID_SHIFT) (r stale : Bytes)
    (hrlen : sizeofHeader ≤ r.length) (hecho : transactionId r = transactionId q.sent) :
    (∀ i, (w.cmClients i).Live → (w.cmClients i).con = q.con →
        handleDeviceResponse w.cmClients (overlay r stale) r.length
          = [.client (w.cmClients i).clientFd q.con (setTransactionId r q.tid)])
      ∧ (¬ (w.cmClients q.slot).Live →
        handleDeviceResponse w.cmClients (overlay r stale) r.length = []) := by
  obtain ⟨hs, ht⟩ := tracked_of_run hdev hr hx
  have hresp := handleDeviceResponse_packed hs.slots htid hrlen
    (hecho.trans (ht.sent q hq hlen)) stale
  refine ⟨fun i hi hcon => ?_, fun hno => ?_⟩
  · obtain rfl := ht.slot q hq i hi hcon
    rw [hresp, if_pos hi, hcon]
  · rw [hresp, if_neg hno]

def commandMsg (tid : ℕ) : Bytes := ofLe32 3 ++ ofLe32 12 ++ ofLe32 tid

/-- The device is opened, three clients connect, and the first one sends a command. -/
def commandRun (tid : ℕ) : List Input :=
  [.poll true, .event (.data [] [1, 0, 0, 128, 16, 0, 0, 0, 1, 0, 0, 0, 0, 0, 0, 0] 4),
    .poll true, .event .quiet, .event (.accepted 5),
    .poll true, .event .quiet, .event (.accepted 6), .event .quiet,
    .poll true, .event .quiet, .event (.accepted 7), .event .quiet, .event .quiet,
    .poll true, .event .quiet, .event .quiet, .event (.data [] (commandMsg tid) (-1))]

theorem delivered_to_sender_five : ∃ w q, run 3 (commandRun 5) = some w ∧ w.requests = [q]
    ∧ q.con = 0 ∧ q.tid = 5 ∧ transactionId q.sent = 0x01000005
    ∧ handleDeviceResponse w.cmClients (overlay (commandMsg 0x01000005) [])
        (commandMsg 0x01000005).length
      = [.client (w.cmClients q.slot).clientFd q.con
          (setTransactionId (commandMsg 0x01000005) q.tid)] :=
  ⟨_, _, rfl, rfl, rfl, rfl, rfl,
    (delivered_to_sender 3 (by decide) (commandRun 5) rfl rfl (List.mem_singleton.2 rfl)
      (by decide) (by decide) (commandMsg 0x01000005) [] (by decide) rfl).1 _ (by decide) rfl⟩

/-- The first of three clients has set bit 25 in its `TransactionId`: the answer goes to the third
client, with another id. -/
theorem misdelivered_high_tid : ∃ w q, run 3 (commandRun 0x02000005) = some w
    ∧ w.requests = [q] ∧ q.con = 0 ∧ q.tid = 0x02000005
    ∧ (w.cmClients q.slot).Live ∧ (w.cmClients q.slot).con = q.con
    ∧ handleDeviceResponse w.cmClients q.sent q.sent.length = [.client 7 2 (commandMsg 5)] :=
  ⟨_, _, rfl, rfl, rfl, rfl, by decide, rfl, by decide⟩

end MbimProxy

end BananaWrt
