import BananaWrt.MbimCM
import Mathlib.Data.List.Chain

/-!
# Transaction ids fit the proxy

As long as each request is handed on before the next is composed and the request at the limit is
written, the counter is above every id that was written since it last started again, and never
above the limit when a request is composed (`idsFit_of_orderly`). A device that is absent when the
counter is at the limit lets it run on.
-/

namespace BananaWrt

namespace MbimCM

open Bytes MbimProxy

theorem transactionId_messageHeader (type length tid : ℕ) (b : Bytes) :
    transactionId (messageHeader type length tid ++ b) = tid % 2 ^ 32 := by
  have hlength : (ofLe32 type ++ ofLe32 length).length = 8 := rfl
  unfold transactionId messageHeader
  rw [le32_append_left (by simp only [List.length_append, length_ofLe32]; omega),
    le32_append_right (by omega), hlength, Nat.sub_self, le32_ofLe32]

theorem transactionId_compose (c : Command) (tid : ℕ) :
    transactionId (c.compose tid) = tid % 2 ^ 32 := by
  cases c with
  | closeMsg =>
    have h := transactionId_messageHeader MBIM_CLOSE_MSG 12 tid []
    rwa [List.append_nil] at h
  | _ => exact transactionId_messageHeader _ _ tid _

theorem length_compose (c : Command) (tid : ℕ) : 12 ≤ (c.compose tid).length := by
  cases c with
  | _ =>
    simp only [Command.compose, composeOpenCommand, composeCloseCommand, composeCommand,
      messageHeader, List.length_append, length_ofLe32]
    omega

theorem transactionId_setTransactionId {b : Bytes} (h : 12 ≤ b.length) (tid : ℕ) :
    transactionId (setTransactionId b tid) = tid % 2 ^ 32 :=
  le32_putLe32 h tid

/-- Every request has been handed on, and the counter is above the last id that was written. -/
structure Idle (s : State) : Prop where
  composed : s.composed = []
  pos : 1 ≤ s.TransactionId
  limit : s.TransactionId ≤ tidLimit
  last : ∀ id ∈ s.ids.head?, id < s.TransactionId

/-- One request waits to be handed on; it has the id before the counter. -/
structure Busy (s : State) (request : Bytes) : Prop where
  composed : s.composed = [request]
  length : 12 ≤ request.length
  pos : 1 ≤ transactionId request
  limit : transactionId request ≤ tidLimit
  next : s.TransactionId = transactionId request + 1
  last : ∀ id ∈ s.ids.head?, id < transactionId request

structure Inv (s : State) : Prop where
  fit : IdsFit s
  phase : Idle s ∨ ∃ request, Busy s request

theorem inv_init : Inv .init where
  fit := ⟨fun id hid => absurd hid List.not_mem_nil, .nil⟩
  phase := .inl ⟨rfl, by decide, by decide,
    fun id hid => absurd hid (by simp [State.init, State.ids])⟩

theorem IdsFit.cons {s s' : State} (h : IdsFit s) {b : Bytes} (hs' : s'.written = b :: s.written)
    (hpos : 1 ≤ transactionId b) (hle : transactionId b ≤ 0xFFFFFF)
    (hne : transactionId b ∉ s.ids.head?) : IdsFit s' := by
  have hids : s'.ids = transactionId b :: s.ids := by
    unfold State.ids
    rw [hs', List.map_cons]
  refine ⟨?_, ?_⟩
  · rw [hids]
    intro id hid
    rcases List.mem_cons.1 hid with rfl | hid
    · exact ⟨hpos, hle⟩
    · exact h.range id hid
  · rw [hids, List.isChain_cons]
    exact ⟨fun id hid heq => hne (heq ▸ hid), h.chain⟩

theorem inv_compose {s : State} (h : Inv s) (hidle : Idle s) (c : Command) (allocated : Bool) :
    Inv (s.compose c allocated) := by
  unfold State.compose
  split_ifs
  · have hlimit := hidle.limit
    have hpos := hidle.pos
    simp only [tidLimit] at hlimit
    have hid : transactionId (c.compose s.TransactionId) = s.TransactionId := by
      rw [transactionId_compose, Nat.mod_eq_of_lt (by omega)]
    refine ⟨⟨h.fit.range, h.fit.chain⟩, .inr ⟨c.compose s.TransactionId, ?_⟩⟩
    refine ⟨?_, length_compose _ _, by rwa [hid], by rwa [hid], ?_, ?_⟩
    · change s.composed ++ _ = _
      rw [hidle.composed, List.nil_append]
    · change (s.TransactionId + 1) % 2 ^ 32 = _
      rw [hid]
      omega
    · rw [hid]
      exact hidle.last
  · exact h

/-- The request is freed whatever becomes of it. -/
theorem inv_send {s : State} {request : Bytes} (h : Inv s) (hbusy : Busy s request) (d : Device)
    (hok : transactionId request = tidLimit → d.Present ∧ 0 < d.ret ∧ 1 ∉ s.ids.head?) :
    Inv { s.send request d with composed := [] } := by
  obtain ⟨-, hlength, hpos, hlimit, hnext, hlast⟩ := hbusy
  by_cases htop : transactionId request = tidLimit
  · -- the id starts again at 1
    obtain ⟨hpresent, hret, hone⟩ := hok htop
    have hid : transactionId (setTransactionId request 1) = 1 :=
      transactionId_setTransactionId hlength 1
    simp only [State.send, hpresent, not_true_eq_false, htop, hret, ↓reduceIte]
    refine ⟨h.fit.cons rfl hid.ge (by rw [hid]; decide) (by rwa [hid]), .inl ?_⟩
    refine ⟨rfl, Nat.le_succ 1, Nat.succ_le_succ (Nat.succ_le_succ (Nat.zero_le _)), ?_⟩
    intro id hmem
    have hhead : transactionId (setTransactionId request 1) = id := by simpa [State.ids] using hmem
    rw [← hhead, hid]
    exact Nat.lt_succ_self 1
  · have hlt : transactionId request < tidLimit := Nat.lt_of_le_of_ne hlimit htop
    have hidle : ∀ written, (∀ id ∈ (written.map transactionId).head?, id < s.TransactionId) →
        Idle ⟨s.TransactionId, [], written⟩ := by
      intro written hw
      exact ⟨rfl, hnext ▸ Nat.le_add_left 1 _, hnext ▸ hlt, hw⟩
    have hstays : Inv ⟨s.TransactionId, [], s.written⟩ := by
      refine ⟨⟨h.fit.range, h.fit.chain⟩, .inl (hidle _ fun id hmem => ?_)⟩
      have := hlast id hmem
      omega
    by_cases hpresent : d.Present
    · by_cases hret : 0 < d.ret
      · simp only [State.send, hpresent, not_true_eq_false, htop, hret, ↓reduceIte]
        refine ⟨h.fit.cons rfl hpos (Nat.le_of_lt_succ hlt) fun hmem => ?_, .inl (hidle _ ?_)⟩
        · exact absurd (hlast _ hmem) (Nat.lt_irrefl _)
        · intro id hmem
          have hhead : transactionId request = id := by simpa using hmem
          omega
      · simpa only [State.send, hpresent, not_true_eq_false, htop, hret, ↓reduceIte] using hstays
    · simpa only [State.send, hpresent, not_false_eq_true, ↓reduceIte] using hstays

theorem inv_step {s s' : State} {i : Input} (h : Inv s) (hok : Orderly s i)
    (hs' : step s i = some s') : Inv s' := by
  cases i with
  | compose c allocated =>
    cases hs'
    rcases h.phase with hidle | ⟨request, hbusy⟩
    · exact inv_compose h hidle c allocated
    · exact absurd (hbusy.composed.symm.trans hok) (List.cons_ne_nil _ _)
  | send i d =>
    simp only [step] at hs'
    split at hs'
    · cases hs'
      exact h
    · rename_i request hget
      cases hs'
      rcases h.phase with hidle | ⟨request', hbusy⟩
      · rw [hidle.composed] at hget
        exact absurd hget (by simp)
      · rw [hbusy.composed] at hget
        obtain ⟨rfl, rfl⟩ : i = 0 ∧ request' = request := by
          cases i with
          | zero => simpa using hget
          | succ i => simp at hget
        have herase : s.composed.eraseIdx 0 = [] := by rw [hbusy.composed]; rfl
        rw [herase]
        refine inv_send h hbusy d fun htop => hok request' ?_ htop
        rw [hbusy.composed]
        rfl

/-- In every run whose steps are orderly, every id that is written is between 1 and `0xFFFFFF`, and
no two requests written in succession have the same id. -/
theorem idsFit_of_orderly (is : List Input) (s : State) (hok : Runs.Meets step Orderly .init is)
    (h : exec .init is = some s) : IdsFit s :=
  (Runs.exec_inv (fun _ _ _ hI ho hs => inv_step hI ho hs) inv_init hok h).fit

/-- The device is there and takes the whole `MBIM_CLOSE_MSG`. -/
def present : Device := ⟨3, 1, 12⟩

/-- Two requests are written, with the ids 1 and 2. -/
theorem idsFit_twoRequests : ∃ s, exec .init
      [.compose .closeMsg true, .send 0 present, .compose (.openMsg 4096) true, .send 0 present]
        = some s ∧ s.ids = [2, 1] ∧ IdsFit s := by
  refine ⟨_, rfl, by decide, idsFit_of_orderly [.compose .closeMsg true, .send 0 present,
    .compose (.openMsg 4096) true, .send 0 present] _ (by decide) rfl⟩

def absent : Device := ⟨-1, 1, 0⟩

/-- `n` requests are composed and none of them is sent. -/
def dropped (n : ℕ) : List Input :=
  (List.replicate n [.compose .closeMsg true, .send 0 absent]).flatten

theorem exec_dropped (is : List Input) (written : List Bytes) :
    ∀ (n tid : ℕ), tid + n < 2 ^ 32 →
      exec ⟨tid, [], written⟩ (dropped n ++ is) = exec ⟨tid + n, [], written⟩ is
  | 0, _, _ => rfl
  | n + 1, tid, h => by
    have hfirst : exec ⟨tid, [], written⟩ (dropped (n + 1) ++ is)
        = exec ⟨(tid + 1) % 2 ^ 32, [], written⟩ (dropped n ++ is) := by
      simp [dropped, List.replicate_succ, Runs.exec, step, State.compose, State.send,
        Device.Present, absent]
    rw [hfirst, Nat.mod_eq_of_lt (by omega), exec_dropped is written n (tid + 1) (by omega),
      Nat.add_right_comm, Nat.add_assoc]

/-- The device is absent while the first `0x1000000` requests are composed, and present for the
next one: its id has 25 bits. -/
theorem not_idsFit_dropped : ∃ is s, exec .init is = some s ∧ ¬ IdsFit s := by
  refine ⟨dropped tidLimit ++ [.compose .closeMsg true, .send 0 present],
    ⟨tidLimit + 2, [], [composeCloseCommand (tidLimit + 1)]⟩, ?_, fun h => ?_⟩
  · exact exec_dropped [.compose .closeMsg true, .send 0 present] [] tidLimit 1 (by decide)
  · have hrange := h.range (tidLimit + 1) (by decide)
    exact absurd hrange.2 (by decide)

end MbimCM

end BananaWrt
