import BananaWrt.MhiDtr
import Mathlib.Tactic.SplitIfs

/-!
# Calls on the DTR channel and their messages

As long as no call goes on without its message having left the ring, the ring has no other message
than that of the call that holds the mutex, so that the completion it waits for is its own (`Inv`).
-/

namespace BananaWrt

namespace MhiDtr

variable {cfg : Cfg} {s s' : DtrSt}

/-- Other lines are replaced. -/
theorem and_of_disjoint {a mask lines host : BitVec 32} (hmask : mask &&& host = 0)
    (hlines : lines &&& host = 0) : (a &&& ~~~ mask ||| lines) &&& host = a &&& host := by
  refine BitVec.eq_of_getLsbD_eq fun i hi => ?_
  have h1 := congrArg (BitVec.getLsbD · i) hmask
  have h2 := congrArg (BitVec.getLsbD · i) hlines
  simp only [BitVec.getLsbD_and, BitVec.getLsbD_or, BitVec.getLsbD_not, hi, decide_true,
    Bool.true_and, BitVec.ofNat_eq_ofNat, BitVec.getLsbD_zero] at h1 h2 ⊢
  cases hh : host.getLsbD i
  · simp
  · rw [hh, Bool.and_true] at h1 h2
    rw [h1, h2]
    simp

/-- The lines themselves are. -/
theorem and_of_within {a host lines : BitVec 32} (h : lines &&& host = lines) :
    (a &&& ~~~ host ||| lines) &&& host = lines := by
  refine BitVec.eq_of_getLsbD_eq fun i hi => ?_
  have h1 := congrArg (BitVec.getLsbD · i) h
  simp only [BitVec.getLsbD_and, BitVec.getLsbD_or, BitVec.getLsbD_not, hi, decide_true,
    Bool.true_and] at h1 ⊢
  cases hh : host.getLsbD i
  · rw [hh, Bool.and_false] at h1
    rw [Bool.and_false, h1]
  · simp

theorem lines_and_host (msg : DtrCtrlMsg) : msg.lines &&& hostLines = 0 := by
  unfold DtrCtrlMsg.lines
  split_ifs <;> decide

/-- Lines of the host. -/
def Request.Masked (req : Request) : Prop := req.tiocm &&& hostLines = req.tiocm

theorem masked_and (dev : ℕ) (tiocm : BitVec 32) :
    (Request.mk dev (tiocm &&& hostLines)).Masked := by
  unfold Request.Masked
  rw [BitVec.and_assoc, BitVec.and_self]

/-- The message of the call that has the mutex, and what is on the ring. -/
def CallInv (s : DtrSt) : Option Call → Prop
  | none => s.uplink = []
  | some (.locked req) => req.Masked ∧ s.uplink = []
  | some (.armed req msg) =>
    req.Masked ∧ msg.serial < s.next ∧ msg.serial ∉ s.freed ∧ s.uplink = [] ∧ s.completion = 0
  | some (.waiting req msg) =>
    req.Masked ∧ msg.serial < s.next ∧ msg.serial ∉ s.freed
      ∧ (s.uplink = [msg] ∧ s.completion = 0
        ∨ s.uplink = [] ∧ (s.completion ≠ 0 → msg.serial ∈ s.transferred))
  | some (.woken req msg) =>
    req.Masked ∧ msg.serial < s.next ∧ s.uplink = [] ∧ msg.serial ∈ s.transferred
  | some (.timedOut req msg) =>
    req.Masked ∧ msg.serial < s.next ∧ msg.serial ∉ s.freed ∧ (s.uplink = [msg] ∨ s.uplink = [])

structure Inv (s : DtrSt) : Prop where
  waiting : ∀ req ∈ s.waiting, req.Masked
  call : CallInv s s.call
  freed : ∀ serial ∈ s.freed, serial < s.next
  returned : ∀ r ∈ s.returned, r.ret = 0 → ∀ msg ∈ r.sent, msg ∈ s.transferred

/-- A message on the ring is the only one, and that of the call that waits for it or whose time is
over. -/
theorem Inv.ring (h : Inv s) {msg : Msg} {rest : List Msg} (hring : s.uplink = msg :: rest) :
    rest = [] ∧ ((∃ req, s.call = some (.waiting req msg))
      ∨ ∃ req, s.call = some (.timedOut req msg)) := by
  have hcall := h.call
  rcases hc : s.call with _ | call <;> rw [hc] at hcall
  · rw [hcall] at hring
    cases hring
  · cases call with
    | locked req =>
      rw [hcall.2] at hring
      cases hring
    | armed req msg' =>
      obtain ⟨-, -, -, hnil, -⟩ := hcall
      rw [hnil] at hring
      cases hring
    | waiting req msg' =>
      obtain ⟨-, -, -, ⟨hone, -⟩ | ⟨hnil, -⟩⟩ := hcall
      · rw [hone] at hring
        obtain ⟨rfl, rfl⟩ := List.cons.inj hring
        exact ⟨rfl, .inl ⟨req, rfl⟩⟩
      · rw [hnil] at hring
        cases hring
    | woken req msg' =>
      obtain ⟨-, -, hnil, -⟩ := hcall
      rw [hnil] at hring
      cases hring
    | timedOut req msg' =>
      obtain ⟨-, -, -, hone | hnil⟩ := hcall
      · rw [hone] at hring
        obtain ⟨rfl, rfl⟩ := List.cons.inj hring
        exact ⟨rfl, .inr ⟨req, rfl⟩⟩
      · rw [hnil] at hring
        cases hring

/-- What is on the ring has not been freed. -/
theorem Inv.onRing (h : Inv s) : ∀ msg ∈ s.uplink, msg.serial ∉ s.freed := by
  have hcall := h.call
  intro msg hmsg
  rcases hring : s.uplink with _ | ⟨first, rest⟩ <;> rw [hring] at hmsg
  · cases hmsg
  · obtain ⟨rfl, ⟨req, hc⟩ | ⟨req, hc⟩⟩ := h.ring hring <;> rw [hc] at hcall
    · rw [List.mem_singleton.1 hmsg]
      exact hcall.2.2.1
    · rw [List.mem_singleton.1 hmsg]
      exact hcall.2.2.1

/-- A step that leaves the lines alone, and is no completion of an inbound buffer. -/
theorem Inv.right (h : Inv s') (hlines : s'.tiocm = s.tiocm) {i : Input} (hin : ¬ i.Connected) :
    Right s i s' where
  returned := h.returned
  lines dev hne := absurd (by rw [hlines]) hne
  freed := h.onRing
  inbound hconn := absurd hconn hin

theorem inv_start (tiocm : ℕ → BitVec 32) (inbound : ℕ) : Inv (start tiocm inbound) where
  waiting _ h := absurd h List.not_mem_nil
  call := rfl
  freed _ h := absurd h List.not_mem_nil
  returned _ h := absurd h List.not_mem_nil

theorem inv_tiocmset (h : Inv s) (dev : ℕ) (tiocm : BitVec 32) :
    Inv (s.mhiDtrTiocmset dev tiocm) ∧ (s.mhiDtrTiocmset dev tiocm).tiocm = s.tiocm := by
  unfold DtrSt.mhiDtrTiocmset
  dsimp only
  split_ifs
  · refine ⟨⟨h.waiting, h.call, h.freed, fun r hr hret msg hmsg => ?_⟩, rfl⟩
    rcases List.mem_append.1 hr with hr | hr
    · exact h.returned r hr hret msg hmsg
    · rw [List.mem_singleton.1 hr] at hmsg
      cases hmsg
  · refine ⟨⟨fun req hreq => ?_, h.call, h.freed, h.returned⟩, rfl⟩
    rcases List.mem_append.1 hreq with hreq | hreq
    · exact h.waiting req hreq
    · rw [List.mem_singleton.1 hreq]
      exact masked_and dev tiocm

/-- A call comes to its end: its message is not on the ring, and if it returns 0 it has been
transferred. -/
theorem inv_exit (h : Inv s) (hnil : s.uplink = []) (req : Request) {buf sent : Option ℕ} {ret : ℤ}
    (hbuf : ∀ serial ∈ buf, serial < s.next)
    (hsent : ret = 0 → ∀ serial ∈ sent, serial ∈ s.transferred) :
    Inv (s.exit req buf sent ret) where
  waiting := h.waiting
  call := hnil
  freed serial hserial := by
    rcases List.mem_append.1 hserial with hserial | hserial
    · exact h.freed serial hserial
    · exact hbuf serial (Option.mem_toList.1 hserial)
  returned r hr hret msg hmsg := by
    rcases List.mem_append.1 hr with hr | hr
    · exact h.returned r hr hret msg hmsg
    · obtain rfl := List.mem_singleton.1 hr
      exact hsent hret msg hmsg

/-- The message has left the ring: the call that waits for it can be woken by it alone. -/
theorem callInv_offRing (h : Inv s) {msg : Msg} {rest : List Msg} (hring : s.uplink = msg :: rest)
    (hcall : s'.call = s.call) (hnext : s'.next = s.next) (hfreed : s'.freed = s.freed)
    (hnil : s'.uplink = [])
    (hdone : ∀ req, s.call = some (.waiting req msg) → s'.completion ≠ 0 →
      msg.serial ∈ s'.transferred) : CallInv s' s'.call := by
  have hold := h.call
  obtain ⟨-, ⟨req, hc⟩ | ⟨req, hc⟩⟩ := h.ring hring
  · rw [hc] at hold
    obtain ⟨hmask, hlt, hfree, -⟩ := hold
    rw [hcall, hc]
    exact ⟨hmask, hnext ▸ hlt, hfreed ▸ hfree, .inr ⟨hnil, hdone req hc⟩⟩
  · rw [hc] at hold
    obtain ⟨hmask, hlt, hfree, -⟩ := hold
    rw [hcall, hc]
    exact ⟨hmask, hnext ▸ hlt, hfreed ▸ hfree, .inr hnil⟩

/-- While the message is on the ring, the completion has not been signalled. -/
theorem Inv.not_signalled (h : Inv s) {req : Request} {msg msg' : Msg} {rest : List Msg}
    (hc : s.call = some (.waiting req msg)) (hring : s.uplink = msg' :: rest) :
    s.completion = 0 := by
  have hcall := h.call
  rw [hc] at hcall
  obtain ⟨-, -, -, ⟨-, hzero⟩ | ⟨hnil, -⟩⟩ := hcall
  · exact hzero
  · rw [hnil] at hring
    cases hring

theorem inv_ulDone (h : Inv s) {msg : Msg} {rest : List Msg} (hring : s.uplink = msg :: rest)
    (transactionStatus : ℤ) :
    Inv ({ s with uplink := rest }.mhiDtrUlXferCb msg transactionStatus) := by
  obtain ⟨hrest, -⟩ := h.ring hring
  unfold DtrSt.mhiDtrUlXferCb
  by_cases hstatus : transactionStatus = 0
  · rw [if_pos hstatus]
    refine ⟨h.waiting, ?_, h.freed, fun r hr hret m hm =>
      List.mem_append_left _ (h.returned r hr hret m hm)⟩
    exact callInv_offRing h hring rfl rfl rfl hrest fun _ _ _ =>
      List.mem_append_right _ (List.mem_singleton.2 rfl)
  · rw [if_neg hstatus]
    refine ⟨h.waiting, ?_, h.freed, h.returned⟩
    exact callInv_offRing h hring rfl rfl rfl hrest fun _ hc hne =>
      absurd (h.not_signalled hc hring) hne

theorem inv_lock (h : Inv s) (hc : s.call = none) {k : ℕ} {req : Request}
    (hk : s.waiting[k]? = some req) :
    Inv { s with waiting := s.waiting.eraseIdx k, call := some (.locked req) } where
  waiting req' hreq' := h.waiting req' (List.mem_of_mem_eraseIdx hreq')
  call := by
    have hcall := h.call
    rw [hc] at hcall
    exact ⟨h.waiting req (List.mem_of_getElem? hk), hcall⟩
  freed := h.freed
  returned := h.returned

/-- The message is a new one, and its completion is armed. -/
theorem inv_arm (h : Inv s) {req : Request} (hc : s.call = some (.locked req)) (ctrl : DtrCtrlMsg) :
    Inv { s with next := s.next + 1, completion := 0, call := some (.armed req ⟨s.next, ctrl⟩) } where
  waiting := h.waiting
  call := by
    have hcall := h.call
    rw [hc] at hcall
    exact ⟨hcall.1, Nat.lt_succ_self _, fun hf => Nat.lt_irrefl _ (h.freed _ hf), hcall.2, rfl⟩
  freed serial hf := Nat.lt_succ_of_lt (h.freed serial hf)
  returned := h.returned

theorem inv_queue (h : Inv s) {req : Request} {msg : Msg} (hc : s.call = some (.armed req msg)) :
    Inv { s with uplink := s.uplink ++ [msg], call := some (.waiting req msg) } where
  waiting := h.waiting
  call := by
    have hcall := h.call
    rw [hc] at hcall
    obtain ⟨hmask, hlt, hfree, hnil, hzero⟩ := hcall
    exact ⟨hmask, hlt, hfree, .inl ⟨by rw [hnil]; rfl, hzero⟩⟩
  freed := h.freed
  returned := h.returned

/-- The completion is that of the message itself. -/
theorem inv_wake (h : Inv s) {req : Request} {msg : Msg} (hc : s.call = some (.waiting req msg))
    (hne : s.completion ≠ 0) :
    Inv { s with completion := s.completion - 1, call := some (.woken req msg) } where
  waiting := h.waiting
  call := by
    have hcall := h.call
    rw [hc] at hcall
    obtain ⟨hmask, hlt, -, ⟨-, hzero⟩ | ⟨hnil, hsent⟩⟩ := hcall
    · exact absurd hzero hne
    · exact ⟨hmask, hlt, hnil, hsent hne⟩
  freed := h.freed
  returned := h.returned

theorem inv_timeout (h : Inv s) {req : Request} {msg : Msg} (hc : s.call = some (.waiting req msg)) :
    Inv { s with call := some (.timedOut req msg) } where
  waiting := h.waiting
  call := by
    have hcall := h.call
    rw [hc] at hcall
    obtain ⟨hmask, hlt, hfree, hring⟩ := hcall
    exact ⟨hmask, hlt, hfree, hring.imp And.left And.left⟩
  freed := h.freed
  returned := h.returned

/-- The invariant says nothing of the lines and of the inbound buffers. -/
theorem Inv.congr (h : Inv s) (tiocm : ℕ → BitVec 32) (inbound : ℕ) :
    Inv { s with tiocm := tiocm, inbound := inbound } :=
  ⟨h.waiting, h.call, h.freed, h.returned⟩

theorem mhiDtrDlXferCb_eq (cfg : Cfg) (s : DtrSt) (transactionStatus : ℤ) (bytesXferd : ℕ)
    (msg : DtrCtrlMsg)
    (requeued : Bool) : ∃ tiocm : ℕ → BitVec 32,
      (∀ dev, tiocm dev &&& hostLines = s.tiocm dev &&& hostLines)
        ∧ mhiDtrDlXferCb cfg s transactionStatus bytesXferd msg requeued
          = { s with
              tiocm := tiocm
              inbound := if transactionStatus ≠ - ENOTCONN ∧ bytesXferd = sizeofDtrCtrlMsg
                ∧ requeued then s.inbound + 1 else s.inbound } := by
  have hlines :
      ∀ dev d, Function.update s.tiocm dev (s.tiocm dev &&& ~~~ modemLines ||| msg.lines) d
      &&& hostLines = s.tiocm d &&& hostLines := by
    intro dev d
    by_cases hd : d = dev
    · rw [hd, Function.update_self]
      exact and_of_disjoint (by decide) (lines_and_host msg)
    · rw [Function.update_of_ne hd]
  unfold mhiDtrDlXferCb
  by_cases hconn : transactionStatus = - ENOTCONN
  · exact ⟨s.tiocm, fun _ => rfl, by simp [hconn]⟩
  by_cases hsize : bytesXferd = sizeofDtrCtrlMsg
  · simp only [hconn, hsize, if_false, ne_eq, not_true_eq_false, not_false_eq_true, true_and]
    by_cases hchan : cfg.maxChan ≤ msg.chid
    · refine ⟨s.tiocm, fun _ => rfl, ?_⟩
      simp only [hchan, if_true]
      split_ifs <;> rfl
    · rcases hdev : cfg.mhiDev msg.chid with _ | dev
      · refine ⟨s.tiocm, fun _ => rfl, ?_⟩
        simp only [hchan, if_false]
        split_ifs <;> rfl
      · refine ⟨_, hlines dev, ?_⟩
        simp only [hchan, if_false]
        split_ifs <;> rfl
  · exact ⟨s.tiocm, fun _ => rfl, by simp [hconn, hsize]⟩

/-- A call that has queued a message comes to its end with its message off the ring. -/
theorem right_exit (h : Inv s) (hnil : s.uplink = []) (req : Request) {buf sent : Option ℕ} {ret : ℤ}
    (hbuf : ∀ serial ∈ buf, serial < s.next)
    (hsent : ret = 0 → ∀ serial ∈ sent, serial ∈ s.transferred) {i : Input} (hin : ¬ i.Connected) :
    Inv (s.exit req buf sent ret) ∧ Right s i (s.exit req buf sent ret) :=
  have hinv := inv_exit h hnil req hbuf hsent
  ⟨hinv, hinv.right (s := s) rfl hin⟩

/-- A call that has been woken sets the lines. -/
theorem right_finish_woken (h : Inv s) {req : Request} {msg : Msg}
    (hc : s.call = some (.woken req msg)) :
    Inv ((s.setLines req).exit req (some msg.serial) (some msg.serial) 0)
      ∧ Right s .finish ((s.setLines req).exit req (some msg.serial) (some msg.serial) 0) := by
  have hcall := h.call
  rw [hc] at hcall
  obtain ⟨hmask, hlt, hnil, hsent⟩ := hcall
  have hinv : Inv ((s.setLines req).exit req (some msg.serial) (some msg.serial) 0) := by
    have hset : Inv (s.setLines req) := h.congr _ s.inbound
    refine inv_exit hset hnil req (fun serial hs => ?_) fun _ serial hs => ?_
    · cases hs
      exact hlt
    · cases hs
      exact hsent
  refine ⟨hinv, hinv.returned, fun dev hne => ?_, hinv.onRing, fun hconn => hconn.elim⟩
  change Function.update s.tiocm req.dev _ dev &&& hostLines ≠ _ at hne
  change ∃ req' msg', _ ∧ _ ∧ _ ∧ Function.update s.tiocm req.dev _ dev &&& hostLines = _
  by_cases hdev : dev = req.dev
  · subst hdev
    refine ⟨req, msg, hc, rfl, hsent, ?_⟩
    rw [Function.update_self]
    exact and_of_within hmask
  · rw [Function.update_of_ne hdev] at hne
    exact absurd rfl hne

/-- A call whose time is over. -/
theorem finish_timedOut (h : Inv s) {req : Request} {msg : Msg}
    (hc : s.call = some (.timedOut req msg)) :
    (InTime s .finish →
        Inv (s.exit req (some msg.serial) (some msg.serial) (- EIO))
          ∧ Right s .finish (s.exit req (some msg.serial) (some msg.serial) (- EIO)))
      ∧ (Right s .finish (s.exit req (some msg.serial) (some msg.serial) (- EIO)) →
        InTime s .finish) := by
  have hcall := h.call
  rw [hc] at hcall
  obtain ⟨-, hlt, -, hring⟩ := hcall
  constructor
  · intro hin
    have hnil : s.uplink = [] := by
      refine hring.resolve_left fun hone => hin req msg hc ?_
      rw [hone]
      exact List.mem_cons_self
    refine right_exit h hnil req (fun serial hs => ?_) (fun hret => ?_) not_false
    · cases hs
      exact hlt
    · exact absurd hret (by decide)
  · rintro hright req' msg' hc' hmem
    cases hc.symm.trans hc'
    exact hright.freed msg hmem (List.mem_append_right _ List.mem_cons_self)

theorem right_dlDone (cfg : Cfg) (h : Inv s) (hin : s.inbound ≠ 0) (transactionStatus : ℤ)
    (bytesXferd : ℕ)
    (msg : DtrCtrlMsg) (requeued : Bool) {s' : DtrSt}
    (hs' : s' = mhiDtrDlXferCb cfg { s with inbound := s.inbound - 1 } transactionStatus bytesXferd
      msg requeued) :
    Inv s' ∧ (InTime s (.dlDone transactionStatus bytesXferd msg requeued)
      ↔ Right s (.dlDone transactionStatus bytesXferd msg requeued) s') := by
  obtain ⟨tiocm, hlines, heq⟩ := mhiDtrDlXferCb_eq cfg { s with inbound := s.inbound - 1 }
    transactionStatus bytesXferd msg requeued
  rw [heq] at hs'
  subst hs'
  have hinv := h.congr tiocm (if transactionStatus ≠ - ENOTCONN ∧ bytesXferd = sizeofDtrCtrlMsg
    ∧ requeued then s.inbound - 1 + 1 else s.inbound - 1)
  refine ⟨hinv, fun hok => ?_, fun hright hconn => ?_⟩
  · refine ⟨hinv.returned, fun dev hne => absurd (hlines dev) hne, hinv.onRing, fun hconn => ?_⟩
    obtain ⟨hsize, hre⟩ := hok hconn
    change ite _ _ _ = _
    rw [if_pos ⟨hconn, hsize, hre⟩]
    exact Nat.succ_pred_eq_of_ne_zero hin
  · by_contra hno
    have hif : (if transactionStatus ≠ - ENOTCONN ∧ bytesXferd = sizeofDtrCtrlMsg ∧ requeued
        then s.inbound - 1 + 1 else s.inbound - 1) = s.inbound := hright.inbound hconn
    rw [if_neg fun hall => hno hall.2] at hif
    omega

/-- The steps of which nothing is asked. -/
theorem Inv.always (h : Inv s') (hlines : s'.tiocm = s.tiocm) {i : Input} (hin : ¬ i.Connected)
    (hok : InTime s i) : (InTime s i → Inv s' ∧ Right s i s') ∧ (Right s i s' → InTime s i) :=
  ⟨fun _ => ⟨h, h.right hlines hin⟩, fun _ => hok⟩

theorem step_inv (h : Inv s) {i : Input} (hs : step cfg s i = some s') :
    (InTime s i → Inv s' ∧ Right s i s') ∧ (Right s i s' → InTime s i) := by
  cases i with
  | tiocmset dev tiocm =>
    cases hs
    obtain ⟨hinv, hlines⟩ := inv_tiocmset h dev tiocm
    exact hinv.always hlines not_false trivial
  | lock k =>
    rcases hc : s.call with _ | call <;> rcases hk : s.waiting[k]? with _ | req <;>
      simp only [step, hc, hk, reduceCtorEq, Option.some.injEq] at hs
    subst hs
    exact (inv_lock h hc hk).always (s := s) rfl not_false trivial
  | arm allocated =>
    rcases hc : s.call with _ | ⟨req⟩ | _ | _ | _ | _ <;>
      simp only [step, hc, reduceCtorEq] at hs
    refine ⟨fun _ => ?_, fun _ => trivial⟩
    cases allocated
    · cases hs
      have hcall := h.call
      rw [hc] at hcall
      refine right_exit h hcall.2 req (fun serial hnone => ?_) (fun hret => ?_) not_false
      · cases hnone
      · exact absurd hret (by decide)
    · cases hs
      have hinv := inv_arm h hc (hostMsg (cfg.ulChanId req.dev) req.tiocm)
      exact ⟨hinv, hinv.right (s := s) rfl not_false⟩
  | queue queued =>
    rcases hc : s.call with _ | _ | ⟨req, msg⟩ | _ | _ | _ <;>
      simp only [step, hc, reduceCtorEq] at hs
    refine ⟨fun _ => ?_, fun _ => trivial⟩
    have hcall := h.call
    rw [hc] at hcall
    split_ifs at hs with hret <;> cases hs
    · refine right_exit h hcall.2.2.2.1 req (fun serial hs => ?_) (fun h0 => absurd h0 hret) not_false
      cases hs
      exact hcall.2.1
    · have hinv := inv_queue h hc
      exact ⟨hinv, hinv.right (s := s) rfl not_false⟩
  | wake =>
    rcases hc : s.call with _ | _ | _ | ⟨req, msg⟩ | _ | _ <;>
      simp only [step, hc, reduceCtorEq] at hs
    split_ifs at hs with hne
    cases hs
    exact (inv_wake h hc hne).always (s := s) rfl not_false trivial
  | timeout =>
    rcases hc : s.call with _ | _ | _ | ⟨req, msg⟩ | _ | _ <;>
      simp only [step, hc, reduceCtorEq] at hs
    split_ifs at hs
    cases hs
    exact (inv_timeout h hc).always (s := s) rfl not_false trivial
  | finish =>
    rcases hc : s.call with _ | _ | _ | _ | ⟨req, msg⟩ | ⟨req, msg⟩ <;>
      simp only [step, hc, reduceCtorEq, Option.some.injEq] at hs <;> subst hs
    · refine ⟨fun _ => right_finish_woken h hc, fun _ req' msg' hc' => ?_⟩
      cases hc.symm.trans hc'
    · exact finish_timedOut h hc
  | ulDone transactionStatus =>
    rcases hring : s.uplink with _ | ⟨msg, rest⟩ <;>
      simp only [step, hring, reduceCtorEq, Option.some.injEq] at hs
    subst hs
    refine (inv_ulDone h hring transactionStatus).always ?_ not_false trivial
    unfold DtrSt.mhiDtrUlXferCb
    split_ifs <;> rfl
  | dlDone transactionStatus bytesXferd msg requeued =>
    simp only [step] at hs
    split_ifs at hs with hin
    obtain ⟨hinv, hiff⟩ := right_dlDone cfg h hin transactionStatus bytesXferd msg
      requeued (Option.some.inj hs).symm
    exact ⟨fun hok => ⟨hinv, hiff.1 hok⟩, hiff.2⟩

/-- Every step of a run is right iff no call goes on while its message is on the ring, and every
inbound message has the size of a message and its buffer is queued again. -/
theorem mhiDtr_right_iff (cfg : Cfg) (tiocm : ℕ → BitVec 32) (inbound : ℕ) (is : List Input)
    (s : DtrSt) (hrun : Runs.exec (step cfg) (start tiocm inbound) is = some s) :
    Runs.Meets (step cfg) (fun s i => ∀ s' ∈ step cfg s i, Right s i s') (start tiocm inbound) is
      ↔ Runs.Meets (step cfg) InTime (start tiocm inbound) is :=
  Runs.meets_right_iff (fun _ _ _ h hs => step_inv h hs) (inv_start tiocm inbound) hrun

/-- One device, its channels being 32 and 33. -/
def oneDun : Cfg where
  maxChan := 100
  ulChanId := fun _ => 32
  mhiDev := fun chan => if chan = 32 then some 0 else none

def carrierOn : DtrCtrlMsg := ⟨CTRL_MAGIC, 0x11, 32, 4, CTRL_MSG_DCD⟩

/-- The call is woken by the completion of its message, and the modem tells of its carrier. -/
def answeredCall : List Input :=
  [.tiocmset 0 TIOCM_DTR, .lock 0, .arm true, .queue .ok, .ulDone 0, .wake, .finish,
    .dlDone 0 20 carrierOn true]

theorem answeredCall_right :
    Runs.Meets (step oneDun) (fun s i => ∀ s' ∈ step oneDun s i, Right s i s')
        (start (fun _ => 0) 4) answeredCall
      ∧ ∃ s, Runs.exec (step oneDun) (start (fun _ => 0) 4) answeredCall = some s
        ∧ s.tiocm 0 = TIOCM_DTR ||| TIOCM_CD ∧ s.transferred = [0] ∧ s.freed = [0]
        ∧ s.inbound = 4 := by
  refine ⟨(mhiDtr_right_iff oneDun (fun _ => 0) 4 answeredCall _ rfl).2 ?_, _, rfl, rfl, rfl, rfl,
    rfl⟩
  refine ⟨trivial, fun _ h1 => ⟨trivial, fun _ h2 => ⟨trivial, fun _ h3 => ⟨trivial, fun _ h4 =>
    ⟨trivial, fun _ h5 => ⟨trivial, fun _ h6 => ⟨?_, fun _ h7 => ⟨fun _ => ⟨rfl, rfl⟩, fun _ _ =>
      trivial⟩⟩⟩⟩⟩⟩⟩⟩
  cases h1; cases h2; cases h3; cases h4; cases h5; cases h6
  nofun

/-- The first call times out, its message being on the ring, and frees it. The message completes
after the second call has re-armed the completion and before its message is queued. -/
def lateCompletion : List Input :=
  [.tiocmset 0 TIOCM_DTR, .lock 0, .arm true, .queue .ok, .timeout, .finish,
    .tiocmset 0 TIOCM_DTR, .lock 0, .arm true, .ulDone 0, .queue .ok, .wake, .finish]

/-- The second call returns 0 and has set DTR, its message being on the ring, where it has been
freed. A message of 8 bytes leaves one inbound buffer fewer. -/
theorem lateCompletion_wrong :
    ¬ Runs.Meets (step oneDun) (fun s i => ∀ s' ∈ step oneDun s i, Right s i s')
        (start (fun _ => 0) 4) lateCompletion
      ∧ (∃ s, Runs.exec (step oneDun) (start (fun _ => 0) 4) lateCompletion = some s
        ∧ s.returned = [⟨⟨0, TIOCM_DTR⟩, some 0, - EIO⟩, ⟨⟨0, TIOCM_DTR⟩, some 1, 0⟩]
        ∧ s.tiocm 0 = TIOCM_DTR ∧ s.transferred = [0]
        ∧ s.uplink.map Msg.serial = [1] ∧ s.freed = [0, 1])
      ∧ ¬ Runs.Meets (step oneDun) (fun s i => ∀ s' ∈ step oneDun s i, Right s i s')
        (start (fun _ => 0) 4) [.dlDone 0 8 carrierOn true] := by
  refine ⟨fun h => ?_, ⟨_, rfl, rfl, rfl, rfl, rfl, rfl⟩, fun h => ?_⟩
  · have hlast := (Runs.meets_of_append (lateCompletion.take 12) h rfl).1 _ rfl
    have hsent := hlast.returned ⟨⟨0, TIOCM_DTR⟩, some 1, 0⟩
      (List.mem_cons_of_mem _ List.mem_cons_self) rfl 1 rfl
    exact absurd hsent (by decide)
  · have hconn : (Input.dlDone 0 8 carrierOn true).Connected := show (0 : ℤ) ≠ - ENOTCONN by decide
    exact absurd ((h.1 _ rfl).inbound hconn) (by decide)

end MhiDtr

end BananaWrt
